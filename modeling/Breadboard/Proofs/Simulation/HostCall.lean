import Breadboard.Proofs.Simulation.StatementStream
import Breadboard.Simulation.Runner

set_option autoImplicit false

/- Code that reaches the pins through its host. What is run can ask the host to set up pins and to write to
them, and a write to a pin with a listener is reported once. Whatever a runner does, the pins it leaves are
those that the calls to the host lead to. -/
namespace Breadboard.Simulation

variable {ι ω α : Type}

/-- What running code asks the host to do. -/
inductive HostCall where
  | configure (pin : Nat) (mode : PinMode)
  | setValue (pin : Nat) (level : Bool)
  | setDuty (pin duty : Nat)
  | attenuate (pin : Nat) (attenuation : Attenuation)
  deriving DecidableEq, Repr

namespace HostCall

def operation : HostCall → PinOperation α
  | configure pin mode => .configure pin mode
  | setValue pin level => .setValue pin level
  | setDuty pin duty => .setDuty pin duty
  | attenuate pin attenuation => .attenuate pin attenuation

/-- The pin that a call drives, with its level. -/
def write? : HostCall → Option (Nat × Bool)
  | setValue pin level => some (pin, level)
  | setDuty pin duty => some (pin, duty > dutyThreshold)
  | configure .. | attenuate .. => none

end HostCall

/-- Carries out calls in their order. -/
def Pins.answer (pins : Pins α) (calls : List HostCall) : Pins α :=
  calls.foldl (fun pins call => pins.apply call.operation) pins

/-- The engine changes pins only by calls to the host. `calls` tells them from the world. -/
structure Engine.UsesHost (engine : Engine ι ω α) (calls : ω → List HostCall) : Prop where
  load : ∀ world, calls (engine.load world).2 = calls world
  run : ∀ now code machine, ∃ made,
    calls (engine.run now code machine).2.world = calls machine.world ++ made ∧
      (engine.run now code machine).2.pins = machine.pins.answer made

/-- The calls that were made from one pair of pins and world to the other. -/
def Made (calls : ω → List HostCall) (pins : Pins α) (world : ω) (made : List HostCall)
    (pinsAfter : Pins α) (worldAfter : ω) : Prop :=
  calls worldAfter = calls world ++ made ∧ pinsAfter = pins.answer made

section

variable {calls : ω → List HostCall} {pins middle last : Pins α} {world between final : ω}

theorem Made.none (calls : ω → List HostCall) (pins : Pins α) (world : ω) :
    Made calls pins world [] pins world :=
  ⟨(List.append_nil _).symm, rfl⟩

theorem Made.trans {first second : List HostCall} (before : Made calls pins world first middle between)
    (after : Made calls middle between second last final) :
    Made calls pins world (first ++ second) last final := by
  refine ⟨?_, ?_⟩
  · rw [after.1, before.1, List.append_assoc]
  · rw [after.2, before.2, Pins.answer, Pins.answer, Pins.answer, List.foldl_append]

end

/-- The second machine is what the first one became by calls to its host. -/
def Machine.Acts (calls : ω → List HostCall) (machine after : Machine ι ω α) : Prop :=
  ∃ made, Made calls machine.pins machine.world made after.pins after.world

theorem Machine.Acts.refl (calls : ω → List HostCall) (machine : Machine ι ω α) :
    machine.Acts calls machine :=
  ⟨[], .none _ _ _⟩

theorem Machine.Acts.trans {calls : ω → List HostCall} {machine middle last : Machine ι ω α}
    (before : machine.Acts calls middle) (after : middle.Acts calls last) :
    machine.Acts calls last := by
  obtain ⟨first, made⟩ := before
  obtain ⟨second, later⟩ := after
  exact ⟨first ++ second, made.trans later⟩

/-- A relation that holds between a state and itself and is passed on holds from the start of a loop to its
end if each piece of code keeps to it. -/
theorem LoopCursor.runUntil_related {σ : Type} {related : σ → σ → Prop}
    (refl : ∀ world, related world world)
    (trans : ∀ {first second third}, related first second → related second third →
      related first third) {run : Run σ}
    (each : ∀ now code world, related world (run now code world).2) (limit turn due : Nat)
    (cursor : LoopCursor) (world : σ) :
    related world (cursor.runUntil run limit turn due world).2.2.2 := by
  have step (now : Nat) (cursor : LoopCursor) (world : σ) :
      related world (cursor.step run now world).2.2 := by
    rw [LoopCursor.step]
    split
    · exact refl world
    · rename_i statement _
      split
      · exact refl world
      · have ran := each now statement world
        split <;> rename_i eq <;> rw [eq] at ran <;> exact ran
  fun_induction runUntil run limit turn due cursor world with
  | case1 due cursor world early next after stepped visit =>
      have first := step due cursor world
      rwa [stepped] at first
  | case2 due cursor world early next after turn visits rest later stepped visit ih =>
      have first := step due cursor world
      rw [stepped] at first
      rw [later] at ih
      exact trans first ih
  | case3 turn due cursor world early wait next after stepped visit someWait visits rest later ih =>
      have first := step due cursor world
      rw [stepped] at first
      rw [later] at ih
      exact trans first ih
  | case4 turn due cursor world late => exact refl world

theorem Scheduler.advance_related {σ : Type} {related : σ → σ → Prop}
    (refl : ∀ world, related world world)
    (trans : ∀ {first second third}, related first second → related second third →
      related first third) {run : Run σ}
    (each : ∀ now code world, related world (run now code world).2) (scheduler : Scheduler)
    (duration : Nat) (world : σ) : related world (scheduler.advance run duration world).2.2 := by
  have same : (scheduler.advance run duration world).2.2 =
      (scheduler.perform run world (.advance duration)).world := rfl
  rw [same]
  rcases advance_cases run scheduler duration world with
    ⟨-, eq⟩ | ⟨task, -, eq | ⟨due, -, eq⟩⟩ <;> rw [eq]
  · exact refl world
  · exact refl world
  · exact LoopCursor.runUntil_related refl trans each _ _ _ _ _

namespace Runner

/-- The second runner is what the first one became by calls to its host. -/
def Acts (calls : ω → List HostCall) (runner after : Runner ι ω α) : Prop :=
  after.engine = runner.engine ∧
    ∃ made, Made calls runner.pins runner.world made after.pins after.world

theorem Acts.refl (calls : ω → List HostCall) (runner : Runner ι ω α) : runner.Acts calls runner :=
  ⟨rfl, [], .none _ _ _⟩

section

variable {calls : ω → List HostCall} {runner middle last : Runner ι ω α}

theorem Acts.trans (before : runner.Acts calls middle) (after : middle.Acts calls last) :
    runner.Acts calls last := by
  obtain ⟨engine, first, made⟩ := before
  obtain ⟨sameEngine, second, later⟩ := after
  exact ⟨sameEngine.trans engine, first ++ second, made.trans later⟩

/-- What changes neither the engine nor the pins nor the world makes no calls. -/
theorem Acts.of_eq (engine : last.engine = runner.engine) (pins : last.pins = runner.pins)
    (world : last.world = runner.world) : runner.Acts calls last :=
  ⟨engine, [], by rw [pins, world]; exact .none _ _ _⟩

variable (uses : runner.engine.UsesHost calls)

include uses

theorem acts_prepare : runner.Acts calls runner.prepare.2 := by
  rw [prepare]
  split
  · exact .refl calls runner
  · rw [loadInterpreter]
    have loads := uses.load runner.world
    split
    · rename_i fault world loaded
      rw [loaded] at loads
      exact ⟨rfl, [], by rw [List.append_nil]; exact loads, rfl⟩
    · rename_i interpreter world loaded
      rw [loaded] at loads
      -- A prelude that fails has made its calls all the same.
      obtain ⟨made, kept, pins⟩ :=
        uses.run runner.scheduler.now prelude ⟨interpreter, runner.pins, world⟩
      rw [loads] at kept
      split <;> rename_i after ran <;> rw [ran] at kept pins <;> exact ⟨rfl, made, kept, pins⟩

theorem acts_runOn (name : Nat) (code : Text) : runner.Acts calls (runner.runOn name code).2 := by
  rw [runOn]
  split
  · exact .refl calls runner
  · rename_i interpreter _
    obtain ⟨made, kept, pins⟩ :=
      uses.run runner.scheduler.now code ⟨interpreter, runner.pins, runner.world⟩
    exact ⟨rfl, made, kept, pins⟩

theorem acts_runScriptOn (name : Nat) (script : Text) :
    runner.Acts calls (runner.runScriptOn name script).2 := by
  have ran (code : Text) := @acts_runOn ι ω α calls
    { runner with scheduler := runner.scheduler.stop } uses name code
  rw [runScriptOn]
  split
  · have after := ran script
    split <;> rename_i eq <;> rw [eq] at after <;> exact after
  · rename_i setup body _
    have after := ran setup
    split <;> rename_i eq <;> rw [eq] at after <;> exact after

theorem acts_runScript (script : Text) : runner.Acts calls (runner.runScript script).2 := by
  have prepared := acts_prepare uses
  rw [runScript]
  split
  · rename_i eq
    rw [eq] at prepared
    exact prepared
  · rename_i after eq
    rw [eq] at prepared
    split
    · exact prepared
    · rename_i name _
      exact prepared.trans (acts_runScriptOn (by rw [prepared.1]; exact uses) name script)

theorem acts_advance (duration : Nat) : runner.Acts calls (runner.advance duration) := by
  rw [advance]
  split
  · exact .refl calls runner
  · rename_i interpreter _
    exact ⟨rfl, @Scheduler.advance_related _ (Machine.Acts calls) (.refl calls) .trans
      runner.engine.run uses.run runner.scheduler duration
      ⟨interpreter, runner.pins, runner.world⟩⟩

end

end Runner

end Breadboard.Simulation
