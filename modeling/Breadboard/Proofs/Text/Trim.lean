import Mathlib.Data.List.TakeWhile
import Breadboard.Text.Basic

set_option autoImplicit false

namespace Breadboard.Text

theorem trimStart_of_first {text : Text} (first : ∀ c ∈ text.head?, isBlank c = false) :
    trimStart text = text := by
  cases text with
  | nil => rfl
  | cons c rest => exact List.dropWhile_cons_of_neg (by simp [first c rfl])

theorem trimEnd_of_last {text : Text} (last : ∀ c ∈ text.getLast?, isBlank c = false) :
    trimEnd text = text := by
  have reversed : text.reverse.dropWhile isBlank = text.reverse :=
    trimStart_of_first fun c first => last c (by rw [List.getLast?_eq_head?_reverse, first]; rfl)
  rw [trimEnd, reversed, List.reverse_reverse]

/-- A text that neither starts nor ends with a blank character stays as it is. -/
theorem trim_of_tight {text : Text} (first : ∀ c ∈ text.head?, isBlank c = false)
    (last : ∀ c ∈ text.getLast?, isBlank c = false) : trim text = text := by
  rw [trim, trimStart_of_first first, trimEnd_of_last last]

theorem trimStart_of_allBlank {blank : Text} (all : allBlank blank = true) : trimStart blank = [] :=
  List.dropWhile_eq_nil_iff.mpr (List.all_eq_true.mp all)

theorem trimStart_append {back : Text} (first : ∀ c ∈ back.head?, isBlank c = false) (front : Text) :
    trimStart (front ++ back) = trimStart front ++ back := by
  have stays : back.dropWhile isBlank = back := trimStart_of_first first
  rw [trimStart, List.dropWhile_append]
  split
  · rename_i empty
    rw [trimStart, List.isEmpty_iff.mp empty, stays, List.nil_append]
  · rfl

theorem trim_blank_append {blank : Text} (all : allBlank blank = true) (text : Text) :
    trim (blank ++ text) = trim text := by
  rw [trim, trimStart, List.dropWhile_append_of_pos (List.all_eq_true.mp all)]
  rfl

theorem trimEnd_append_blank {blank : Text} (all : allBlank blank = true) (text : Text) :
    trimEnd (text ++ blank) = trimEnd text := by
  have reversed : ∀ c ∈ blank.reverse, isBlank c = true := fun c member =>
    List.all_eq_true.mp all c (List.mem_reverse.mp member)
  rw [trimEnd, List.reverse_append, List.dropWhile_append_of_pos reversed]
  rfl

/-- The end of a text is trimmed behind its last part, if anything of that is left. -/
theorem trimEnd_append {back : Text} (visible : allBlank back = false) (front : Text) :
    trimEnd (front ++ back) = front ++ trimEnd back ∧ trimEnd back ≠ [] := by
  have nonempty : back.reverse.dropWhile isBlank ≠ [] := by
    intro none
    have all := List.dropWhile_eq_nil_iff.mp none
    rw [allBlank, List.all_eq_false] at visible
    obtain ⟨c, member, notBlank⟩ := visible
    exact notBlank (all c (List.mem_reverse.mpr member))
  constructor
  · rw [trimEnd, List.reverse_append, List.dropWhile_append, if_neg (by simpa using nonempty),
      List.reverse_append, List.reverse_reverse, trimEnd]
  · simpa [trimEnd] using nonempty

theorem trim_append_blank {blank : Text} (all : allBlank blank = true) (text : Text) :
    trim (text ++ blank) = trim text := by
  rw [trim, trimStart, List.dropWhile_append]
  split
  · rename_i empty
    have startBlank : text.dropWhile isBlank = [] := by simpa using empty
    rw [show blank.dropWhile isBlank = [] from trimStart_of_allBlank all, trim, trimStart, startBlank]
  · rw [trimEnd_append_blank all]
    rfl

theorem trim_of_allBlank {blank : Text} (all : allBlank blank = true) : trim blank = [] := by
  rw [trim, trimStart_of_allBlank all]
  rfl

/-- What is trimmed off is blank. -/
theorem exists_trim (text : Text) : ∃ front back, allBlank front = true ∧ allBlank back = true ∧
    text = front ++ (trim text ++ back) := by
  refine ⟨text.takeWhile isBlank, ((trimStart text).reverse.takeWhile isBlank).reverse,
    List.all_takeWhile, ?_, ?_⟩
  · rw [allBlank, List.all_reverse]
    exact List.all_takeWhile
  · rw [trim, trimEnd, ← List.reverse_append, List.takeWhile_append_dropWhile, List.reverse_reverse,
      trimStart, List.takeWhile_append_dropWhile]

theorem length_trim_le (text : Text) : (trim text).length ≤ text.length := by
  obtain ⟨front, back, -, -, split⟩ := exists_trim text
  have whole := congrArg List.length split
  rw [List.length_append, List.length_append] at whole
  omega

/-- A text with a character that is not blank at each of its ends. -/
structure IsTight (text : Text) : Prop where
  notEmpty : text ≠ []
  first : ∀ c ∈ text.head?, isBlank c = false
  last : ∀ c ∈ text.getLast?, isBlank c = false

theorem IsTight.trim_eq {text : Text} (tight : IsTight text) : trim text = text :=
  trim_of_tight tight.first tight.last

theorem IsTight.allBlank_append {text : Text} (tight : IsTight text) (before after : Text) :
    allBlank (before ++ (text ++ after)) = false := by
  obtain ⟨c, rest, rfl⟩ := List.exists_cons_of_ne_nil tight.notEmpty
  have visible := tight.first c rfl
  simp [allBlank, visible]

theorem isTight_enclosed {first last : Char} (firstVisible : isBlank first = false)
    (lastVisible : isBlank last = false) (middle : Text) :
    IsTight (first :: (middle ++ [last])) := by
  refine ⟨List.cons_ne_nil _ _, fun c isFirst => ?_, fun c isLast => ?_⟩
  · obtain rfl := Option.some.inj isFirst
    exact firstVisible
  · rw [← List.cons_append, List.getLast?_concat] at isLast
    obtain rfl := Option.some.inj isLast
    exact lastVisible

theorem isBlank_of_head?_trimStart {text : Text} : ∀ c ∈ (trimStart text).head?, isBlank c = false := by
  intro c first
  have stop := List.head?_dropWhile_not isBlank text
  rw [show (text.dropWhile isBlank).head? = some c from first] at stop
  simpa using stop

theorem mem_trimStart {text : Text} {c : Char} (member : c ∈ text) (visible : isBlank c = false) :
    c ∈ trimStart text := by
  have parts := @List.takeWhile_append_dropWhile _ isBlank text
  rw [← parts, List.mem_append] at member
  rcases member with blank | kept
  · rw [List.mem_takeWhile_imp blank] at visible
    cases visible
  · exact kept

theorem mem_trimEnd {text : Text} {c : Char} (member : c ∈ text) (visible : isBlank c = false) :
    c ∈ trimEnd text := by
  rw [trimEnd, List.mem_reverse]
  exact mem_trimStart (List.mem_reverse.mpr member) visible

theorem trimStart_of_trim_eq_nil {text : Text} (nothing : trim text = []) : trimStart text = [] := by
  cases left : trimStart text with
  | nil => rfl
  | cons c rest =>
      have visible := @isBlank_of_head?_trimStart text c (by rw [left]; rfl)
      have member : c ∈ trimStart text := by
        rw [left]
        exact List.mem_cons_self
      have inText := mem_trimEnd member visible
      rw [show trimEnd (trimStart text) = trim text from rfl, nothing] at inText
      cases inText

/-- Trimming keeps what is not blank. -/
theorem mem_trim {text : Text} {c : Char} (member : c ∈ text) (visible : isBlank c = false) :
    c ∈ trim text :=
  mem_trimEnd (mem_trimStart member visible) visible

theorem isEmpty_trim (text : Text) : (trim text).isEmpty = allBlank text := by
  cases blank : allBlank text with
  | true => rw [trim_of_allBlank blank, List.isEmpty_nil]
  | false =>
      obtain ⟨c, member, visible⟩ := List.all_eq_false.mp blank
      rw [List.isEmpty_eq_false_iff]
      exact List.ne_nil_of_mem (mem_trim member (Bool.eq_false_iff.mpr visible))

/-- What is left of a trimmed text is tight. -/
theorem isTight_trim {text : Text} (notEmpty : trim text ≠ []) : IsTight (trim text) := by
  have back : ∀ c ∈ (trim text).getLast?, isBlank c = false := by
    intro c last
    rw [trim, trimEnd, List.getLast?_reverse] at last
    exact isBlank_of_head?_trimStart c last
  refine ⟨notEmpty, fun c first => @isBlank_of_head?_trimStart text c ?_, back⟩
  have leads : trim text <+: trimStart text := by
    rw [trim, trimEnd, ← List.reverse_suffix, List.reverse_reverse]
    exact List.dropWhile_suffix _
  obtain ⟨rest, whole⟩ := leads
  rw [← whole, List.head?_append, Option.mem_def.mp first]
  rfl

/-- What stands between texts that are not blank is not trimmed off. -/
theorem mem_trim_between {front middle back : Text} (frontVisible : allBlank front = false)
    (backVisible : allBlank back = false) {c : Char} (member : c ∈ middle) :
    c ∈ trim (front ++ (middle ++ back)) := by
  have starts : trimStart (front ++ (middle ++ back)) = trimStart front ++ (middle ++ back) := by
    rw [trimStart, List.dropWhile_append, if_neg]
    · rfl
    · rw [List.isEmpty_iff]
      intro nothing
      have all := List.all_eq_true.mpr (List.dropWhile_eq_nil_iff.mp nothing)
      rw [show front.all isBlank = false from frontVisible] at all
      cases all
  rw [trim, starts, ← List.append_assoc, (trimEnd_append backVisible _).1]
  exact List.mem_append_left _ (List.mem_append_right _ member)

end Breadboard.Text
