import Mathlib.Data.List.Infix
import Breadboard.Proofs.Text.LineCut

set_option autoImplicit false

/- Line breaks behind each other. Where each pair of them is made one, taken from the left, a run of breaks
gets about half as long, and no line is lost that holds anything. -/
namespace Breadboard.Text

/-- The text with each pair of line breaks, from the left, made one. -/
def mergeBreaks (text : Text) : Text :=
  replace "\n\n".toList "\n".toList text

theorem mergeBreaks_nil : mergeBreaks [] = [] := by
  rw [mergeBreaks, replace]

theorem mergeBreaks_pair (rest : Text) :
    mergeBreaks ('\n' :: '\n' :: rest) = '\n' :: mergeBreaks rest := by
  have found : "\n\n".toList.isPrefixOf? ('\n' :: '\n' :: rest) = some rest := rfl
  rw [mergeBreaks, replace, found]
  simp only [List.length_cons, dif_pos (show rest.length < rest.length + 1 + 1 by omega)]
  rfl

theorem mergeBreaks_cons {c : Char} {rest : Text} (alone : c ≠ '\n' ∨ rest.head? ≠ some '\n') :
    mergeBreaks (c :: rest) = c :: mergeBreaks rest := by
  have missing : "\n\n".toList.isPrefixOf? (c :: rest) = none := by
    rw [Option.eq_none_iff_forall_ne_some]
    intro after found
    have pair : '\n' :: '\n' :: after = c :: rest := List.isPrefixOf?_eq_some_iff_append_eq.mp found
    cases pair
    simp at alone
  rw [mergeBreaks, replace, missing]
  rfl

theorem brokenLines_cons_eq {c : Char} (notBreak : c ≠ '\n') (rest : Text) :
    brokenLines (c :: rest) = (c :: (brokenLines rest).head?.getD []) :: (brokenLines rest).tail := by
  rw [brokenLines_cons notBreak]
  cases brokenLines rest <;> rfl

theorem withoutBreak_break : withoutBreak ['\n'] = [] := rfl

theorem filter_of_tail {α : Type} {p : α → Bool} {first second : List α}
    (heads : first.head? = second.head?) (tails : first.tail.filter p = second.tail.filter p) :
    first.filter p = second.filter p := by
  cases first with
  | nil => rw [List.head?_eq_none_iff.mp heads.symm]
  | cons a rest =>
      obtain ⟨more, rfl⟩ := List.head?_eq_some_iff.mp heads.symm
      rw [List.tail_cons, List.tail_cons] at tails
      rw [List.filter_cons, List.filter_cons, tails]

/-- The second text is the first one with its pairs of breaks made one. -/
inductive Merges : Text → Text → Prop where
  | nil : Merges [] []
  | pair {text merged : Text} (more : Merges text merged) : Merges ('\n' :: '\n' :: text) ('\n' :: merged)
  | single {c : Char} {text merged : Text} (alone : c ≠ '\n' ∨ text.head? ≠ some '\n')
      (more : Merges text merged) : Merges (c :: text) (c :: merged)

theorem merges_mergeBreaks (text : Text) : Merges text (mergeBreaks text) := by
  induction length : text.length using Nat.strongRecOn generalizing text with
  | ind _ ih =>
      cases text with
      | nil =>
          rw [mergeBreaks_nil]
          exact .nil
      | cons c rest =>
          rw [List.length_cons] at length
          by_cases alone : c ≠ '\n' ∨ rest.head? ≠ some '\n'
          · rw [mergeBreaks_cons alone]
            exact .single alone (ih rest.length (by omega) rest rfl)
          · rw [not_or, not_ne_iff, not_ne_iff] at alone
            obtain ⟨rfl, second⟩ := alone
            obtain ⟨more, rfl⟩ := List.head?_eq_some_iff.mp second
            rw [List.length_cons] at length
            rw [mergeBreaks_pair]
            exact .pair (ih more.length (by omega) more rfl)

namespace Merges

variable {text merged : Text}

theorem eq (merges : Merges text merged) : merged = mergeBreaks text := by
  induction merges with
  | nil => rw [mergeBreaks_nil]
  | pair _ ih => rw [mergeBreaks_pair, ih]
  | single alone _ ih => rw [mergeBreaks_cons alone, ih]

/-- A part that does not end in a break is merged by itself. -/
theorem append {back other : Text} (first : Merges text merged) (ended : text.getLast? ≠ some '\n')
    (second : Merges back other) : Merges (text ++ back) (merged ++ other) := by
  have shorter {c : Char} {rest : Text} (ended : (c :: rest).getLast? ≠ some '\n') :
      rest.getLast? ≠ some '\n' := by
    intro last
    rw [List.getLast?_cons, last] at ended
    exact ended rfl
  induction first with
  | nil => exact second
  | pair _ ih => exact .pair (ih (shorter (shorter ended)))
  | @single c text merged alone _ ih =>
      refine .single ?_ (ih (shorter ended))
      cases text with
      | nil => exact Or.inl fun same => ended (by rw [same]; rfl)
      | cons => exact alone

theorem head? (merges : Merges text merged) : merged.head? = text.head? := by
  cases merges <;> rfl

theorem getLast? (merges : Merges text merged) : merged.getLast? = text.getLast? := by
  induction merges with
  | nil => rfl
  | pair _ ih => simp only [List.getLast?_cons, ih, Option.getD_some]
  | single _ _ ih => rw [List.getLast?_cons, List.getLast?_cons, ih]

/-- Only breaks are dropped. -/
theorem filter_ne (merges : Merges text merged) :
    merged.filter (· ≠ '\n') = text.filter (· ≠ '\n') := by
  induction merges with
  | nil => rfl
  | pair _ ih => simpa using ih
  | single _ _ ih => rw [List.filter_cons, List.filter_cons, ih]

theorem break_isPrefix_iff (merges : Merges text merged) : ['\n'] <+: merged ↔ ['\n'] <+: text := by
  cases merges <;> simp

theorem return_isPrefix_iff (merges : Merges text merged) :
    ['\r', '\n'] <+: merged ↔ ['\r', '\n'] <+: text := by
  cases merges with
  | nil => rfl
  | pair => simp
  | single _ more => rw [List.cons_prefix_cons, List.cons_prefix_cons, more.break_isPrefix_iff]

/-- Two breaks are left behind each other just in case there were three. -/
theorem pair_isInfix_iff (merges : Merges text merged) :
    ['\n', '\n'] <:+: merged ↔ ['\n', '\n', '\n'] <:+: text := by
  induction merges with
  | nil => simp
  | @pair text merged more ih =>
      have shorter : ['\n', '\n'] <+: text → ['\n'] <+: text := fun whole =>
        (List.prefix_append ['\n'] ['\n']).trans whole
      simp only [List.infix_cons_iff, List.cons_prefix_cons, true_and, more.break_isPrefix_iff, ih]
      tauto
  | @single c text merged alone more ih =>
      have noPair : ¬(c = '\n' ∧ ['\n'] <+: text) := by
        rintro ⟨rfl, rest, rfl⟩
        simp at alone
      have noTriple : ¬(c = '\n' ∧ ['\n', '\n'] <+: text) := fun ⟨same, whole⟩ =>
        noPair ⟨same, (List.prefix_append ['\n'] ['\n']).trans whole⟩
      simp only [List.infix_cons_iff, List.cons_prefix_cons, more.break_isPrefix_iff, ih,
        eq_comm (a := '\n') (b := c), noPair, noTriple, false_or]

/-- Breaks that are spelled with a carriage return stay. -/
theorem return_isInfix_iff (merges : Merges text merged) :
    ['\n', '\r', '\n'] <:+: merged ↔ ['\n', '\r', '\n'] <:+: text := by
  induction merges with
  | nil => rfl
  | @pair text merged more ih =>
      have other : ¬ '\r' = '\n' := by decide
      simp only [List.infix_cons_iff, List.cons_prefix_cons, true_and, more.return_isPrefix_iff, ih,
        other, false_and, false_or]
  | single _ more ih =>
      rw [List.infix_cons_iff, List.infix_cons_iff, List.cons_prefix_cons, List.cons_prefix_cons,
        more.return_isPrefix_iff, ih]

/-- The first lines are the same, and so are the lines behind them that are more than a break. -/
theorem brokenLines_eq (merges : Merges text merged) :
    (brokenLines merged).head? = (brokenLines text).head? ∧
      (brokenLines merged).tail.filter (· ≠ ['\n']) =
        (brokenLines text).tail.filter (· ≠ ['\n']) := by
  induction merges with
  | nil => exact ⟨rfl, rfl⟩
  | pair _ ih =>
      have others := filter_of_tail ih.1 ih.2
      rw [brokenLines_break, brokenLines_break, brokenLines_break]
      exact ⟨rfl, others⟩
  | @single c _ _ _ _ ih =>
      by_cases isBreak : c = '\n'
      · rw [isBreak, brokenLines_break, brokenLines_break]
        exact ⟨rfl, filter_of_tail ih.1 ih.2⟩
      · rw [brokenLines_cons_eq isBreak, brokenLines_cons_eq isBreak, ih.1]
        exact ⟨rfl, ih.2⟩

/-- The lines that hold anything are the same. -/
theorem filter_lines (merges : Merges text merged) :
    (lines merged).filter (· ≠ []) = (lines text).filter (· ≠ []) := by
  obtain ⟨heads, tails⟩ := merges.brokenLines_eq
  have broken := filter_of_tail heads tails
  have visible (text : Text) : (lines text).filter (· ≠ []) =
      (((brokenLines text).filter (· ≠ ['\n'])).filter (withoutBreak · ≠ [])).map withoutBreak := by
    rw [lines, List.filter_map, List.filter_filter]
    refine congrArg (List.map withoutBreak) (List.filter_congr fun line _ => ?_)
    by_cases bare : line = ['\n']
    · simp [bare, withoutBreak_break]
    · simp [bare]
  rw [visible, visible, broken]

end Merges

theorem mergeBreaks_append {front : Text} (ended : front.getLast? ≠ some '\n') (back : Text) :
    mergeBreaks (front ++ back) = mergeBreaks front ++ mergeBreaks back :=
  ((merges_mergeBreaks front).append ended (merges_mergeBreaks back)).eq.symm

/-- A run of breaks keeps half of them, rounded up. -/
theorem mergeBreaks_run (count : Nat) {back : Text} (starts : back.head? ≠ some '\n') :
    mergeBreaks (List.replicate count '\n' ++ back) =
      List.replicate ((count + 1) / 2) '\n' ++ mergeBreaks back := by
  induction count using Nat.twoStepInduction with
  | zero => rfl
  | one => exact mergeBreaks_cons (Or.inr starts)
  | more count ih _ =>
      rw [List.replicate_succ, List.replicate_succ, List.cons_append, List.cons_append,
        mergeBreaks_pair, ih, show (count + 2 + 1) / 2 = (count + 1) / 2 + 1 by omega,
        List.replicate_succ, List.cons_append]

/-- The second text has the lines of the first one that hold anything, and of each run of its breaks half
of them, rounded up. -/
structure IsMerged (text merged : Text) : Prop where
  filled : (lines merged).filter (· ≠ []) = (lines text).filter (· ≠ [])
  pairs : ['\n', '\n'] <:+: merged ↔ ['\n', '\n', '\n'] <:+: text
  /-- A break with a carriage return is not merged with the one before it. -/
  returns : ['\n', '\r', '\n'] <:+: merged ↔ ['\n', '\r', '\n'] <:+: text
  runs : ∀ front count back, text = front ++ (List.replicate count '\n' ++ back) →
    front.getLast? ≠ some '\n' → back.head? ≠ some '\n' →
      ∃ before after, merged = before ++ (List.replicate ((count + 1) / 2) '\n' ++ after) ∧
        before.getLast? ≠ some '\n' ∧ after.head? ≠ some '\n' ∧
        before.filter (· ≠ '\n') = front.filter (· ≠ '\n') ∧
        after.filter (· ≠ '\n') = back.filter (· ≠ '\n')

theorem isMerged_mergeBreaks (text : Text) : IsMerged text (mergeBreaks text) where
  filled := (merges_mergeBreaks text).filter_lines
  pairs := (merges_mergeBreaks text).pair_isInfix_iff
  returns := (merges_mergeBreaks text).return_isInfix_iff
  runs front count back whole ended starts := by
    have first := merges_mergeBreaks front
    have second := merges_mergeBreaks back
    refine ⟨mergeBreaks front, mergeBreaks back, ?_, ?_, ?_, first.filter_ne, second.filter_ne⟩
    · rw [whole, mergeBreaks_append ended, mergeBreaks_run count starts]
    · rwa [first.getLast?]
    · rwa [second.head?]

end Breadboard.Text
