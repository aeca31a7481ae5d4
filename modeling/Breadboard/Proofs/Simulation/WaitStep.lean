import Breadboard.Proofs.Script.PureWait
import Breadboard.Proofs.Simulation.WaitLength

set_option autoImplicit false

namespace Breadboard.Simulation

variable {σ : Type}

/-- Runs code as before, and keeps each piece of code that it was given with its time. -/
def Run.recorded (run : Run σ) : Run (σ × List (Nat × Text)) := fun now code world =>
  let (outcome, after) := run now code world.1
  (outcome, after, world.2 ++ [(now, code)])

namespace LoopCursor

/-- What a step runs: the statement at the cursor, unless that is a wait. -/
def calls (now : Nat) (cursor : LoopCursor) : List (Nat × Text) :=
  match cursor.statements[cursor.index]? with
  | none => []
  | some statement => if (Script.sleepDuration? statement).isSome then [] else [(now, statement)]

/-- The record grows by what the step runs, and it changes nothing else. -/
theorem step_recorded (run : Run σ) (now : Nat) (cursor : LoopCursor) (world : σ)
    (log : List (Nat × Text)) :
    cursor.step run.recorded now (world, log) = ((cursor.step run now world).1,
      (cursor.step run now world).2.1, (cursor.step run now world).2.2, log ++ cursor.calls now) := by
  unfold step calls
  cases cursor.statements[cursor.index]? with
  | none => rw [List.append_nil]
  | some statement =>
      dsimp only
      cases Script.sleepDuration? statement with
      | some wait => simp
      | none =>
          dsimp only [Run.recorded]
          rcases run now statement world with ⟨⟨fault⟩ | ⟨⟩, after⟩ <;> rfl

/-- Steps at the given times, one after the other. -/
def stepAll (run : Run σ) : List Nat → LoopCursor → σ → LoopCursor × σ
  | [], cursor, world => (cursor, world)
  | now :: rest, cursor, world =>
    let stepped := (cursor.step run now world).2
    stepAll run rest stepped.1 stepped.2

/-- Steps go round the statements. -/
theorem stepAll_inside (run : Run σ) (times : List Nat) (cursor : LoopCursor) (world : σ)
    (inside : cursor.index < cursor.statements.length) :
    (stepAll run times cursor world).1 =
      { cursor with index := (cursor.index + times.length) % cursor.statements.length } := by
  induction times generalizing cursor world with
  | nil => rw [stepAll, List.length_nil, Nat.add_zero, Nat.mod_eq_of_lt inside]
  | cons now rest ih =>
      have taken := step_inside run now cursor world inside
      have nextInside : cursor.next.index < cursor.next.statements.length :=
        Nat.mod_lt _ (Nat.zero_lt_of_lt inside)
      have position : (cursor.next.index + rest.length) % cursor.next.statements.length =
          (cursor.index + (rest.length + 1)) % cursor.statements.length := by
        show ((cursor.index + 1) % cursor.statements.length + rest.length) % cursor.statements.length = _
        rw [Nat.mod_add_mod, Nat.add_assoc, Nat.add_comm 1]
      rw [stepAll, taken, ih cursor.next _ nextInside, position, List.length_cons]
      rfl

/-- Steps without statements stay where they are. -/
theorem stepAll_nil (run : Run σ) (times : List Nat) (settings : LoopSettings) (world : σ) :
    (stepAll run times (start settings []) world).1 = start settings [] := by
  induction times generalizing world with
  | nil => rfl
  | cons now rest ih => exact ih world

/-- The statement that is taken after some steps. -/
theorem current_stepAll (run : Run σ) (times : List Nat) (settings : LoopSettings)
    (statements : List Text) (world : σ) :
    let reached := (stepAll run times (start settings statements) world).1
    reached.statements[reached.index]? = statements[times.length % statements.length]? := by
  intro reached
  cases statements with
  | nil => simp [reached, stepAll_nil, start]
  | cons first rest =>
      have inside : (start settings (first :: rest)).index <
          (start settings (first :: rest)).statements.length := Nat.zero_lt_succ _
      simp [reached, stepAll_inside run times _ world inside, start]

end LoopCursor

/-- Just the calls with a plain number are waits, and a wait of milliseconds is as long as it says. After any
steps of a loop from its start on, the next step runs nothing if the statement whose turn it is is such a call
or if there are no statements; otherwise it runs that statement once. -/
theorem step_runs_unless_wait (run : Run σ) (settings : LoopSettings) (statements : List Text) (world : σ)
    (times : List Nat) (now : Nat) :
    (∀ statement, (Script.sleepDuration? statement).isSome = true ↔
      Script.IsPureWait (Text.trim statement)) ∧
    (∀ statement count n, Text.trim statement = "time.sleep_ms(".toList ++ count ++ ")".toList →
      Text.IsNumeralOf count n → n < 2 ^ 64 → Script.sleepDuration? statement = some n) ∧
    let reached := (LoopCursor.start settings statements).stepAll run times world
    let current := statements[times.length % statements.length]?
    let step := reached.1.step run now reached.2
    ∃ made, (∀ log, reached.1.step run.recorded now (reached.2, log) =
        (step.1, step.2.1, step.2.2, log ++ made)) ∧
      (made = [] ↔ statements = [] ∨
        ∃ statement ∈ current, Script.IsPureWait (Text.trim statement)) ∧
      (made ≠ [] → ∃ statement ∈ current, made = [(now, statement)]) := by
  refine ⟨fun statement => Script.sleepDuration?_isSome_iff,
    fun statement count n => Script.sleepDuration?_of_isNumeralOf, ?_⟩
  intro reached current step
  have atCurrent : reached.1.statements[reached.1.index]? = current :=
    LoopCursor.current_stepAll run times settings statements world
  have empty : current = none ↔ statements = [] := by
    cases statements with
    | nil => simp [current]
    | cons first rest => simpa [current] using Nat.mod_lt times.length (Nat.zero_lt_succ rest.length)
  refine ⟨reached.1.calls now, LoopCursor.step_recorded run now reached.1 reached.2, ?_⟩
  rw [LoopCursor.calls, atCurrent, ← empty]
  cases current with
  | none => simp
  | some statement =>
      dsimp only
      cases waits : (Script.sleepDuration? statement).isSome with
      | true => simp [Script.sleepDuration?_isSome_iff.mp waits]
      | false =>
          have noWait : ¬ Script.IsPureWait (Text.trim statement) := by
            rw [← Script.sleepDuration?_isSome_iff, waits]
            exact Bool.false_ne_true
          simp [noWait]

theorem step_runs_unless_wait_waitThenA :
    Text.IsNumeralOf "500".toList 500 ∧ Script.sleepDuration? "time.sleep_ms(500)".toList = some 500 ∧
      ((LoopCursor.start {} waitThenA).step acceptAll.recorded 0 ((), [])).2.2.2 = [] := by
  obtain ⟨-, exactly, made, kept, nothing, -⟩ := step_runs_unless_wait acceptAll {} waitThenA () [] 0
  have isNumeral : Text.IsNumeralOf "500".toList 500 := Text.numeral?_eq_some_iff.mp rfl
  have trimmed : Text.trim "time.sleep_ms(500)".toList =
      "time.sleep_ms(".toList ++ "500".toList ++ ")".toList := by decide
  have isWait : Script.IsPureWait (Text.trim "time.sleep_ms(500)".toList) := by
    rw [trimmed]
    exact .milliseconds isNumeral (by decide)
  refine ⟨isNumeral, exactly _ _ 500 trimmed isNumeral (by decide), ?_⟩
  have quiet : made = [] := nothing.mpr (Or.inr ⟨_, rfl, isWait⟩)
  have stepped := kept []
  rw [quiet] at stepped
  exact congrArg (·.2.2.2) stepped

end Breadboard.Simulation
