import Mathlib.Data.List.Basic
import Breadboard.Text.Lines

set_option autoImplicit false

namespace Breadboard.Text

theorem brokenLines_cons {c : Char} (notBreak : c ≠ '\n') (rest : Text) :
    brokenLines (c :: rest) =
      match brokenLines rest with
      | [] => [[c]]
      | line :: more => (c :: line) :: more := by
  rw [brokenLines]
  exact if_neg notBreak

theorem brokenLines_append_break {line : Text} (unbroken : '\n' ∉ line) (rest : Text) :
    brokenLines (line ++ '\n' :: rest) = (line ++ ['\n']) :: brokenLines rest := by
  induction line with
  | nil => rw [List.nil_append, brokenLines, if_pos rfl, List.nil_append]
  | cons c more ih =>
      rw [List.mem_cons, not_or] at unbroken
      rw [List.cons_append, brokenLines_cons (Ne.symm unbroken.1), ih unbroken.2, List.cons_append]

theorem brokenLines_unbroken {line : Text} (unbroken : '\n' ∉ line) (notEmpty : line ≠ []) :
    brokenLines line = [line] := by
  induction line with
  | nil => exact absurd rfl notEmpty
  | cons c more ih =>
      rw [List.mem_cons, not_or] at unbroken
      rw [brokenLines_cons (Ne.symm unbroken.1)]
      cases more with
      | nil => rfl
      | cons d rest => rw [ih unbroken.2 (List.cons_ne_nil _ _)]

/-- A line that ends in no carriage return is what its break stands behind. -/
theorem withoutBreak_append_break {line : Text} (noReturn : line.getLast? ≠ some '\r') :
    withoutBreak (line ++ ['\n']) = line := by
  have cut : ['\n'].isSuffixOf? (line ++ ['\n']) = some line :=
    List.isSuffixOf?_eq_some_iff_append_eq.mpr rfl
  have noSuffix : ['\r'].isSuffixOf? line = none := by
    rw [Option.eq_none_iff_forall_ne_some]
    intro text found
    rw [← List.append_eq_of_isSuffixOf?_eq_some found, List.getLast?_concat] at noReturn
    exact noReturn rfl
  rw [withoutBreak, cut]
  simp only [noSuffix, Option.getD_none]

/-- A written line is the first line, whatever follows it. -/
theorem lines_append_break {line : Text} (unbroken : '\n' ∉ line) (noReturn : line.getLast? ≠ some '\r')
    (rest : Text) : lines (line ++ '\n' :: rest) = line :: lines rest := by
  rw [lines, brokenLines_append_break unbroken, List.map_cons, withoutBreak_append_break noReturn,
    lines]

theorem withoutBreak_of_unbroken {line : Text} (unbroken : '\n' ∉ line) : withoutBreak line = line := by
  have noSuffix : ['\n'].isSuffixOf? line = none := by
    rw [Option.eq_none_iff_forall_ne_some]
    intro text found
    rw [← List.append_eq_of_isSuffixOf?_eq_some found] at unbroken
    simp at unbroken
  rw [withoutBreak, noSuffix]

theorem unlines_cons (first : Text) (rest : List Text) :
    unlines (first :: rest) = first ++ rest.flatMap ('\n' :: ·) := by
  induction rest generalizing first with
  | nil => simp [unlines]
  | cons second more ih =>
      have onward := ih second
      rw [unlines] at onward
      simp [unlines, onward]

theorem mem_unlines {texts : List Text} {text : Text} (member : text ∈ texts) {c : Char}
    (inText : c ∈ text) : c ∈ unlines texts := by
  obtain ⟨first, rest, rfl⟩ := List.exists_cons_of_ne_nil (List.ne_nil_of_mem member)
  rw [unlines_cons]
  rcases List.mem_cons.mp member with rfl | inRest
  · exact List.mem_append_left _ inText
  · exact List.mem_append_right _
      (List.mem_flatMap.mpr ⟨text, inRest, List.mem_cons_of_mem _ inText⟩)

/-- The lines that can be told apart in a text: not empty, unbroken, with no carriage return at the
end. -/
structure IsLine (line : Text) : Prop where
  notEmpty : line ≠ []
  unbroken : '\n' ∉ line
  noReturn : line.getLast? ≠ some '\r'

theorem unlines_concat {texts : List Text} (notEmpty : texts ≠ []) (last : Text) :
    unlines (texts ++ [last]) = unlines texts ++ '\n' :: last := by
  obtain ⟨first, rest, rfl⟩ := List.exists_cons_of_ne_nil notEmpty
  rw [List.cons_append, unlines_cons, unlines_cons, List.flatMap_append, List.flatMap_singleton,
    List.append_assoc]

/-- Lines written below each other are cut apart again. Only the last one needs a character to be
seen. -/
theorem lines_unlines_of_last {texts : List Text}
    (all : ∀ text ∈ texts, '\n' ∉ text ∧ text.getLast? ≠ some '\r')
    (filled : ∀ last ∈ texts.getLast?, last ≠ []) : lines (unlines texts) = texts := by
  induction texts with
  | nil => rfl
  | cons first rest ih =>
      obtain ⟨unbroken, noReturn⟩ := all first List.mem_cons_self
      rw [unlines_cons]
      cases rest with
      | nil =>
          rw [List.flatMap_nil, List.append_nil, lines, brokenLines_unbroken unbroken (filled first rfl),
            List.map_singleton, withoutBreak_of_unbroken unbroken]
      | cons second more =>
          have others := ih (fun text member => all text (List.mem_cons_of_mem _ member))
            fun last isLast => filled last (by rwa [List.getLast?_cons_cons])
          rw [unlines_cons, lines] at others
          rw [List.flatMap_cons, List.cons_append, lines, brokenLines_append_break unbroken,
            List.map_cons, withoutBreak_append_break noReturn, others]

theorem lines_unlines {texts : List Text} (all : ∀ text ∈ texts, IsLine text) :
    lines (unlines texts) = texts :=
  lines_unlines_of_last (fun text member => ⟨(all text member).unbroken, (all text member).noReturn⟩)
    fun last isLast => (all last (List.mem_of_getLast? isLast)).notEmpty

theorem brokenLines_break (rest : Text) : brokenLines ('\n' :: rest) = ['\n'] :: brokenLines rest :=
  @brokenLines_append_break [] (by simp) rest

theorem brokenLines_append_of_break {front : Text} (ended : front.getLast? = some '\n') (rest : Text) :
    brokenLines (front ++ rest) = brokenLines front ++ brokenLines rest := by
  induction front with
  | nil => cases ended
  | cons c more ih =>
      cases more with
      | nil =>
          obtain rfl : c = '\n' := by simpa using ended
          exact brokenLines_break rest
      | cons d others =>
          rw [List.getLast?_cons_cons] at ended
          have onward := ih ended
          rw [List.cons_append]
          by_cases isBreak : c = '\n'
          · rw [isBreak, brokenLines_break, onward, brokenLines_break, List.cons_append]
          · rw [brokenLines_cons isBreak, brokenLines_cons isBreak, onward]
            cases cut : brokenLines (d :: others) with
            | nil =>
                have whole := flatten_brokenLines (d :: others)
                rw [cut] at whole
                cases whole
            | cons line lines => rfl

theorem lines_append_of_break {front : Text} (ended : front.getLast? = some '\n') (rest : Text) :
    lines (front ++ rest) = lines front ++ lines rest := by
  rw [lines, brokenLines_append_of_break ended, List.map_append, lines, lines]

theorem unlines_append {first second : List Text} (firstSome : first ≠ []) (secondSome : second ≠ []) :
    unlines (first ++ second) = unlines first ++ '\n' :: unlines second := by
  obtain ⟨line, rest, rfl⟩ := List.exists_cons_of_ne_nil firstSome
  obtain ⟨next, more, rfl⟩ := List.exists_cons_of_ne_nil secondSome
  simp [unlines_cons, List.flatMap_append]

theorem mem_brokenLines {text line : Text} (member : line ∈ brokenLines text) :
    ∃ part, '\n' ∉ part ∧ (line = part ∨ line = part ++ ['\n']) := by
  induction text generalizing line with
  | nil => cases member
  | cons c rest ih =>
      by_cases isBreak : c = '\n'
      · rw [brokenLines, if_pos isBreak] at member
        rcases List.mem_cons.mp member with rfl | later
        · exact ⟨[], by simp, Or.inr rfl⟩
        · exact ih later
      · rw [brokenLines_cons isBreak] at member
        cases cut : brokenLines rest with
        | nil =>
            rw [cut] at member
            obtain rfl := List.mem_singleton.mp member
            exact ⟨[c], by simpa using Ne.symm isBreak, Or.inl rfl⟩
        | cons first more =>
            rw [cut] at member ih
            rcases List.mem_cons.mp member with rfl | later
            · obtain ⟨part, unbroken, parts⟩ := ih List.mem_cons_self
              refine ⟨c :: part, by simp [unbroken, Ne.symm isBreak], ?_⟩
              exact parts.imp (congrArg (c :: ·)) (congrArg (c :: ·))
            · exact ih (List.mem_cons_of_mem _ later)

theorem withoutBreak_cases (part : Text) :
    withoutBreak (part ++ ['\n']) = part ∨ part = withoutBreak (part ++ ['\n']) ++ ['\r'] := by
  have cut : ['\n'].isSuffixOf? (part ++ ['\n']) = some part :=
    List.isSuffixOf?_eq_some_iff_append_eq.mpr rfl
  rw [withoutBreak, cut]
  cases found : ['\r'].isSuffixOf? part with
  | none => exact Or.inl (by simp [found])
  | some text => exact Or.inr (by simpa [found] using (List.append_eq_of_isSuffixOf?_eq_some found).symm)

theorem unbroken_of_mem_lines {text line : Text} (member : line ∈ lines text) : '\n' ∉ line := by
  obtain ⟨broken, inText, rfl⟩ := List.mem_map.mp member
  obtain ⟨part, unbroken, rfl | rfl⟩ := mem_brokenLines inText
  · rwa [withoutBreak_of_unbroken unbroken]
  · rcases withoutBreak_cases part with same | shorter
    · rwa [same]
    · rw [shorter, List.mem_append, not_or] at unbroken
      exact unbroken.1

end Breadboard.Text
