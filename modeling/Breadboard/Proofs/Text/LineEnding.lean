import Mathlib.Data.List.Basic
import Breadboard.Text.Basic

set_option autoImplicit false

namespace Breadboard.Text

/-- The second text is the first one, with a carriage return put in before some of its line feeds. -/
inductive Rebroken : Text → Text → Prop where
  | nil : Rebroken [] []
  | keep (c : Char) {text other : Text} (more : Rebroken text other) : Rebroken (c :: text) (c :: other)
  | insert {text other : Text} (more : Rebroken text other) :
      Rebroken ('\n' :: text) ('\r' :: '\n' :: other)

theorem rebroken_refl (text : Text) : Rebroken text text := by
  induction text with
  | nil => exact .nil
  | cons c _ ih => exact .keep c ih

theorem rebroken_replace (text : Text) : Rebroken text (replace "\n".toList "\r\n".toList text) := by
  induction text with
  | nil =>
      rw [replace]
      exact .nil
  | cons c rest ih =>
      rw [replace]
      by_cases isBreak : c = '\n'
      · subst isBreak
        have found : List.isPrefixOf? "\n".toList ('\n' :: rest) = some rest := rfl
        rw [found]
        simp only [List.length_cons, Nat.lt_succ_self, dif_pos]
        exact .insert ih
      · have missing : List.isPrefixOf? "\n".toList (c :: rest) = none := by
          simp [List.isPrefixOf?, Ne.symm isBreak]
        rw [missing]
        exact .keep c ih

namespace Rebroken

variable {text other front back : Text}

theorem append (first : Rebroken text other) (second : Rebroken front back) :
    Rebroken (text ++ front) (other ++ back) := by
  induction first with
  | nil => exact second
  | keep c _ ih => exact .keep c ih
  | insert _ ih => exact .insert ih

/-- What a text is made of lies in the same order in the other one. -/
theorem exists_append (whole : Rebroken (front ++ back) other) :
    ∃ first second, other = first ++ second ∧ Rebroken front first ∧ Rebroken back second := by
  induction front generalizing other with
  | nil => exact ⟨[], other, rfl, .nil, whole⟩
  | cons c rest ih =>
      cases whole with
      | keep _ more =>
          obtain ⟨first, second, rfl, isFirst, isSecond⟩ := ih more
          exact ⟨c :: first, second, rfl, .keep c isFirst, isSecond⟩
      | insert more =>
          obtain ⟨first, second, rfl, isFirst, isSecond⟩ := ih more
          exact ⟨'\r' :: '\n' :: first, second, rfl, .insert isFirst, isSecond⟩

theorem eq_of_unbroken (rebroken : Rebroken text other) (unbroken : '\n' ∉ text) : other = text := by
  induction rebroken with
  | nil => rfl
  | keep c _ ih => rw [ih fun member => unbroken (List.mem_cons_of_mem _ member)]
  | insert => exact absurd List.mem_cons_self unbroken

theorem mem_break (rebroken : Rebroken text other) (broken : '\n' ∈ text) : '\n' ∈ other := by
  induction rebroken with
  | nil => cases broken
  | keep c _ ih =>
      rcases List.mem_cons.mp broken with rfl | later
      · exact List.mem_cons_self
      · exact List.mem_cons_of_mem _ (ih later)
  | insert => simp

/-- The line feeds alone are the same. -/
theorem filter_break (rebroken : Rebroken text other) :
    other.filter (· == '\n') = text.filter (· == '\n') := by
  induction rebroken with
  | nil => rfl
  | keep c _ ih => rw [List.filter_cons, List.filter_cons, ih]
  | insert _ ih => simpa using ih

theorem eq_nil (rebroken : Rebroken [] other) : other = [] := by
  cases rebroken
  rfl

/-- Both texts start with one character, or with the two spellings of a line break. -/
theorem head_cases (rebroken : Rebroken text other) :
    other.head? = text.head? ∨ text.head? = some '\n' ∧ other.head? = some '\r' := by
  cases rebroken with
  | nil => exact Or.inl rfl
  | keep => exact Or.inl rfl
  | insert => exact Or.inr ⟨rfl, rfl⟩

theorem isPrefixOf_eq (rebroken : Rebroken text other) {word : Text} (noFeed : '\n' ∉ word)
    (noReturn : '\r' ∉ word) : word.isPrefixOf other = word.isPrefixOf text := by
  induction rebroken generalizing word with
  | nil => rfl
  | keep c _ ih =>
      cases word with
      | nil => rfl
      | cons d rest =>
          rw [List.isPrefixOf_cons_cons, List.isPrefixOf_cons_cons,
            ih (fun member => noFeed (List.mem_cons_of_mem _ member))
              fun member => noReturn (List.mem_cons_of_mem _ member)]
  | insert =>
      cases word with
      | nil => rfl
      | cons d rest =>
          have notFeed : (d == '\n') = false := beq_false_of_ne fun same => noFeed (by simp [same])
          have notReturn : (d == '\r') = false := beq_false_of_ne fun same => noReturn (by simp [same])
          rw [List.isPrefixOf_cons_cons, List.isPrefixOf_cons_cons, notFeed, notReturn, Bool.false_and,
            Bool.false_and]

/-- A word without line breaks occurs in both texts or in neither. -/
theorem occursIn_eq (rebroken : Rebroken text other) {word : Text} (noFeed : '\n' ∉ word)
    (noReturn : '\r' ∉ word) : occursIn word other = occursIn word text := by
  induction rebroken with
  | nil => rfl
  | keep c more ih =>
      rw [occursIn, occursIn, ih, (Rebroken.keep c more).isPrefixOf_eq noFeed noReturn]
  | @insert text other more ih =>
      have leads : word.isPrefixOf ('\n' :: other) = word.isPrefixOf ('\r' :: '\n' :: other) := by
        rw [(Rebroken.keep '\n' more).isPrefixOf_eq noFeed noReturn,
          (Rebroken.insert more).isPrefixOf_eq noFeed noReturn]
      rw [occursIn, occursIn, occursIn, ih, leads, ← Bool.or_assoc, Bool.or_self,
        (Rebroken.insert more).isPrefixOf_eq noFeed noReturn]

end Rebroken

end Breadboard.Text
