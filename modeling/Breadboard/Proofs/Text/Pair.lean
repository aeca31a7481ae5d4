import Mathlib
import Breadboard.Text.Basic

set_option autoImplicit false

/- Texts in which two characters never follow each other. No word with such a pair occurs in them. -/
namespace Breadboard.Text

/-- Nowhere does `second` follow `first`, and `first` is not at the end. -/
def avoidsPair (first second : Char) : Text → Bool
  | [] => true
  | [c] => c != first
  | c :: d :: rest => !(c == first && d == second) && avoidsPair first second (d :: rest)

section

variable {first second : Char}

theorem avoidsPair_tail {c : Char} {rest : Text}
    (avoids : avoidsPair first second (c :: rest) = true) :
    avoidsPair first second rest = true := by
  cases rest with
  | nil => rfl
  | cons d more =>
      rw [avoidsPair, Bool.and_eq_true] at avoids
      exact avoids.2

theorem avoidsPair_append {text more : Text} (avoids : avoidsPair first second text = true)
    (moreAvoids : avoidsPair first second more = true) :
    avoidsPair first second (text ++ more) = true := by
  induction text with
  | nil => exact moreAvoids
  | cons c rest ih =>
      have others := ih (avoidsPair_tail avoids)
      cases rest with
      | nil =>
          rw [List.nil_append] at others
          cases more with
          | nil => exact avoids
          | cons d tail =>
              have other : (c == first) = false := by
                simpa [avoidsPair] using avoids
              rw [List.cons_append, List.nil_append, avoidsPair, other, others]
              rfl
      | cons d tail =>
          rw [avoidsPair, Bool.and_eq_true] at avoids
          rw [List.cons_append, List.cons_append, avoidsPair, avoids.1]
          exact others

theorem avoidsPair_flatMap {α : Type} {f : α → Text} {l : List α}
    (avoids : ∀ a ∈ l, avoidsPair first second (f a) = true) :
    avoidsPair first second (l.flatMap f) = true := by
  induction l with
  | nil => rfl
  | cons a rest ih =>
      rw [List.flatMap_cons]
      exact avoidsPair_append (avoids a List.mem_cons_self)
        (ih fun b member => avoids b (List.mem_cons_of_mem _ member))

theorem avoidsPair_of_not_mem {text : Text} (absent : first ∉ text) :
    avoidsPair first second text = true := by
  induction text with
  | nil => rfl
  | cons c rest ih =>
      rw [List.mem_cons, not_or] at absent
      have here : avoidsPair first second [c] = true := by
        simpa [avoidsPair] using Ne.symm absent.1
      exact avoidsPair_append here (ih absent.2)

theorem avoidsPair_eq_false (before after : Text) :
    avoidsPair first second (before ++ first :: second :: after) = false := by
  induction before with
  | nil => simp [avoidsPair]
  | cons c rest ih =>
      by_contra avoids
      rw [Bool.not_eq_false, List.cons_append] at avoids
      rw [avoidsPair_tail avoids] at ih
      cases ih

/-- A word with the pair does not occur in a text without it. -/
theorem occursIn_eq_false {word front back text : Text}
    (wordEq : word = front ++ first :: second :: back)
    (avoids : avoidsPair first second text = true) : occursIn word text = false := by
  induction text with
  | nil => simp [occursIn, wordEq]
  | cons c rest ih =>
      rw [occursIn, ih (avoidsPair_tail avoids), Bool.or_false]
      by_contra found
      obtain ⟨more, moreEq⟩ := List.isPrefixOf_iff_prefix.mp (Bool.not_eq_false _ ▸ found)
      rw [← moreEq, wordEq, List.append_assoc] at avoids
      have pair := @avoidsPair_eq_false first second front (back ++ more)
      rw [← List.cons_append, ← List.cons_append, avoids] at pair
      cases pair

end

end Breadboard.Text
