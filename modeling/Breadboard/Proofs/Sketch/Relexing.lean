import Breadboard.Proofs.Sketch.ByteLexer

set_option autoImplicit false

/- Cutting a part of a text again. A token is cut off by its own characters and the one behind it, so a run of
neighbouring tokens is cut into the same tokens when its text stands alone. -/
namespace Breadboard.Sketch

open Text (utf8 byteLength)

/-- The text goes on like another one, or it stops. -/
def Continues (after other : Text) : Prop :=
  ∀ next ∈ after.head?, other.head? = some next

theorem Continues.eq_nil {after : Text} (continues : Continues after []) : after = [] := by
  cases after with
  | nil => rfl
  | cons next more => cases continues next rfl

theorem continues_of_append {first second : Text} : Continues first (first ++ second) := by
  intro next isNext
  cases first with
  | nil => cases isNext
  | cons c more => exact isNext

theorem runLength_le (p : Char → Bool) (text : Text) : runLength p text ≤ text.length :=
  (List.takeWhile_sublist p).length_le

theorem runLength_take_append {p : Char → Bool} {after : Text}
    (stop : ∀ next ∈ after.head?, p next = false) (text : Text) :
    runLength p (text.take (runLength p text) ++ after) = runLength p text := by
  rw [runLength_append_of_all (all_take_runLength p text), runLength_of_head stop,
    List.length_take_of_le (runLength_le p text), Nat.add_zero]

theorem Continues.stops_run {p : Char → Bool} {text after : Text}
    (continues : Continues after (text.drop (runLength p text))) :
    ∀ next ∈ after.head?, p next = false := by
  intro next isNext
  exact head_drop_runLength p text next (continues next isNext)

theorem runLength_cons {p : Char → Bool} {c : Char} (holds : p c = true) (rest : Text) :
    runLength p (c :: rest) = runLength p rest + 1 := by
  rw [runLength, List.takeWhile_cons_of_pos holds]
  rfl

theorem blockLength_cons_of_ne {c : Char} {rest : Text} (open_ : ¬(c = '*' ∧ rest.head? = some '/')) :
    blockLength (c :: rest) = blockLength rest + 1 := by
  rw [blockLength]
  rintro tail rfl rfl
  exact open_ ⟨rfl, rfl⟩

theorem blockLength_pos {text : Text} (notEmpty : text ≠ []) : 0 < blockLength text := by
  fun_cases blockLength text with
  | case1 => exact absurd rfl notEmpty
  | case2 => decide
  | case3 => omega

theorem blockLength_le (text : Text) : blockLength text ≤ text.length := by
  fun_induction blockLength text with
  | case1 => exact Nat.le_refl 0
  | case2 rest => exact Nat.le_add_left 2 rest.length
  | case3 c rest _ ih => exact Nat.succ_le_succ ih

theorem blockLength_take_append {text after : Text}
    (continues : Continues after (text.drop (blockLength text))) :
    blockLength (text.take (blockLength text) ++ after) = blockLength text := by
  fun_induction blockLength text with
  | case1 =>
      obtain rfl := continues.eq_nil
      rfl
  | case2 rest => rfl
  | case3 c rest noEnd ih =>
      rw [List.take_succ_cons, List.cons_append, blockLength_cons_of_ne, ih continues]
      rintro ⟨rfl, slash⟩
      cases rest with
      | nil =>
          obtain rfl := continues.eq_nil
          cases slash
      | cons d more =>
          obtain ⟨count, size⟩ := Nat.exists_eq_succ_of_ne_zero
            (Nat.ne_of_gt (@blockLength_pos (d :: more) (by simp)))
          rw [size, List.take_succ_cons] at slash
          obtain rfl : d = '/' := by simpa using slash
          exact noEnd more rfl rfl

theorem literalLength_le (quote : Char) (text : Text) : literalLength quote text ≤ text.length := by
  fun_induction literalLength quote text with
  | case1 => exact Nat.le_refl 0
  | case2 => exact Nat.le_refl 1
  | case3 _ rest ih => exact Nat.add_le_add_right ih 2
  | case4 c rest => exact Nat.le_add_left 1 rest.length
  | case5 c rest _ _ _ ih => exact Nat.succ_le_succ ih

/-- A literal that stops before the end of its text stops there whatever follows. -/
theorem literalLength_take_append {quote : Char} {text after : Text}
    (atEnd : text.drop (literalLength quote text) = [] → after = []) :
    literalLength quote (text.take (literalLength quote text) ++ after) =
      literalLength quote text := by
  fun_induction literalLength quote text with
  | case1 =>
      rw [atEnd rfl]
      rfl
  | case2 =>
      rw [atEnd rfl]
      rfl
  | case3 _ rest ih =>
      rw [List.take_succ_cons, List.take_succ_cons, List.cons_append, List.cons_append, literalLength,
        ih atEnd]
  | case4 c rest notLast notPair ends =>
      rw [List.take_succ_cons, List.cons_append, literalLength_cons (ne_backslash notLast notPair),
        if_pos ends]
  | case5 c rest notLast notPair goesOn ih =>
      rw [List.take_succ_cons, List.cons_append, literalLength_cons (ne_backslash notLast notPair),
        if_neg goesOn, ih atEnd]

theorem startsNumber_take {c : Char} {rest : Text}
    (number : c.isDigit = true ∨ c = '.' ∧ rest.head?.any Char.isDigit = true) (after : Text) :
    c.isDigit = true ∨ c = '.' ∧
      (rest.take (runLength isNumberChar rest) ++ after).head?.any Char.isDigit = true := by
  rcases number with digit | ⟨dot, digit⟩
  · exact Or.inl digit
  · cases rest with
    | nil => cases digit
    | cons next more =>
        have isNumber : isNumberChar next = true := by
          have nextDigit : next.isDigit = true := digit
          simp [isNumberChar, Char.isAlphanum, nextDigit]
        rw [runLength_cons isNumber, List.take_succ_cons]
        exact Or.inr ⟨dot, digit⟩

theorem scan_le (c : Char) (rest : Text) : (scan c rest).2 ≤ rest.length := by
  rcases scan_cases c rest with ⟨-, eq⟩ | ⟨-, eq⟩ | ⟨-, eq⟩ | ⟨-, eq⟩ |
    ⟨rfl, -, next, more, rfl, second⟩ | ⟨next, more, rfl, -, eq⟩ | ⟨-, -, eq⟩
  case inr.inr.inr.inr.inl =>
    rcases second with rfl | rfl
    · exact runLength_le _ _
    · exact Nat.succ_le_succ (blockLength_le more)
  case inr.inr.inr.inr.inr.inl =>
    rw [eq]
    exact Nat.le_add_left 1 more.length
  all_goals rw [eq]
  · exact runLength_le _ _
  · exact literalLength_le _ _
  · exact runLength_le _ _
  · exact runLength_le _ _
  · exact Nat.zero_le _

/-- What is cut off does not depend on the text behind it but for its first character. -/
theorem scan_take_append {c : Char} {rest after : Text}
    (continues : Continues after (rest.drop (scan c rest).2)) :
    scan c (rest.take (scan c rest).2 ++ after) = scan c rest := by
  rcases scan_cases c rest with ⟨space, eq⟩ | ⟨quote, eq⟩ | ⟨word, eq⟩ | ⟨number, eq⟩ |
    ⟨rfl, comment, next, more, rfl, second⟩ | ⟨next, more, rfl, operator, eq⟩ | ⟨single, stop, eq⟩
  case inl =>
    rw [eq] at continues ⊢
    rw [scan_space space, runLength_take_append continues.stops_run]
  case inr.inl =>
    rw [eq] at continues ⊢
    rw [scan_quote quote, literalLength_take_append fun left => (left ▸ continues).eq_nil]
  case inr.inr.inl =>
    rw [eq] at continues ⊢
    rw [scan_word word, runLength_take_append continues.stops_run]
  case inr.inr.inr.inl =>
    rw [eq] at continues ⊢
    rw [scan_number (startsNumber_take number after), runLength_take_append continues.stops_run]
  case inr.inr.inr.inr.inl =>
    rcases second with rfl | rfl
    · have line (other : Text) :
          scan '/' ('/' :: other) = (.comment, runLength (· != '\n') ('/' :: other)) := rfl
      rw [line] at continues ⊢
      have same := runLength_take_append continues.stops_run ('/' :: more)
      rw [runLength_cons (by decide), List.take_succ_cons, List.cons_append] at same ⊢
      rw [line, same]
    · have block (other : Text) : scan '/' ('*' :: other) = (.comment, blockLength other + 1) := rfl
      rw [block] at continues ⊢
      rw [List.take_succ_cons, List.cons_append, block, blockLength_take_append continues]
  case inr.inr.inr.inr.inr.inl =>
    rw [eq] at continues ⊢
    exact scan_pair operator after
  case inr.inr.inr.inr.inr.inr =>
    rw [eq] at continues ⊢
    apply scan_mark single
    intro next isNext
    exact stop next (continues next isNext)

/-- The tokens behind some of a text's tokens are those of the text that is left. -/
theorem tokenize_render_behind {text : Text} {before after : List Token}
    (split : tokenize text = before ++ after) : tokenize (render after) = after := by
  induction before generalizing text with
  | nil =>
      rw [List.nil_append] at split
      rw [← split, render_tokenize]
  | cons token more ih =>
      cases text with
      | nil =>
          rw [tokenize_nil] at split
          cases split
      | cons c rest =>
          rw [tokenize_cons, List.cons_append] at split
          exact ih (List.tail_eq_of_cons_eq split)

/-- The tokens in front of others are cut the same way without them. -/
theorem tokenize_render_front {text : Text} {front after : List Token}
    (split : tokenize text = front ++ after) : tokenize (render front) = front := by
  induction front generalizing text with
  | nil => rw [render_nil, tokenize_nil]
  | cons token more ih =>
      cases text with
      | nil =>
          rw [tokenize_nil] at split
          cases split
      | cons c rest =>
          rw [tokenize_cons, List.cons_append] at split
          obtain ⟨rfl, left⟩ := List.cons.inj split
          have text : render more ++ render after = rest.drop (scan c rest).2 := by
            rw [← render_append, ← left, render_tokenize]
          have continues : Continues (render more) (rest.drop (scan c rest).2) := by
            rw [← text]
            exact continues_of_append
          have size : (rest.take (scan c rest).2).length = (scan c rest).2 :=
            List.length_take_of_le (scan_le c rest)
          rw [render_cons, List.cons_append, tokenize_cons, scan_take_append continues]
          rw [List.take_left' size, List.drop_left' size, ih left]

/-- Neighbouring tokens of a text are cut the same way when they stand alone. -/
theorem tokenize_render_infix {text : Text} {part : List Token} (inside : part <:+: tokenize text) :
    tokenize (render part) = part := by
  obtain ⟨before, after, split⟩ := inside
  rw [List.append_assoc] at split
  exact tokenize_render_front (tokenize_render_behind split.symm)

/-- Whether a character of the text starts behind so many bytes, or the text ends there. -/
def IsBoundary (text : Text) (place : Nat) : Prop :=
  (Text.dropBytes? text place).isSome = true

theorem dropBytes?_append (first rest : Text) :
    Text.dropBytes? (first ++ rest) (byteLength first) = some rest := by
  induction first with
  | nil => cases rest <;> rfl
  | cons c more ih =>
      obtain ⟨count, size⟩ := Nat.exists_eq_add_one_of_ne_zero
        (show byteLength (c :: more) ≠ 0 by have := c.utf8Size_pos; rw [Text.byteLength_cons]; omega)
      have left : count + 1 - c.utf8Size = byteLength more := by
        rw [← size, Text.byteLength_cons, Nat.add_sub_cancel_left]
      have fits : c.utf8Size ≤ count + 1 := by
        rw [← size, Text.byteLength_cons]
        omega
      rw [List.cons_append, size, Text.dropBytes?, if_pos fits, left, ih]

theorem isBoundary_append (first rest : Text) : IsBoundary (first ++ rest) (byteLength first) := by
  rw [IsBoundary, dropBytes?_append]
  rfl

/-- A token's place is behind the bytes of the tokens before it. -/
theorem getElem?_locate (start : Nat) (before : List Token) (token : Token) (after : List Token) :
    (locate start (before ++ token :: after))[before.length]? =
      some (start + (before.map fun earlier => byteLength earlier.text).sum, token) := by
  induction before generalizing start with
  | nil => rfl
  | cons first more ih =>
      rw [List.cons_append, locate, List.length_cons, List.getElem?_cons_succ, ih, List.map_cons,
        List.sum_cons, Nat.add_assoc]

/-- A token with a place in the list stands behind as many bytes. -/
theorem exists_before_of_mem_locate {start place : Nat} {token : Token} {tokens : List Token}
    (member : (place, token) ∈ locate start tokens) :
    ∃ before after, tokens = before ++ token :: after ∧ place = start + byteLength (render before) := by
  induction tokens generalizing start with
  | nil => cases member
  | cons first rest ih =>
      rw [locate] at member
      rcases List.mem_cons.mp member with isFirst | inRest
      · obtain ⟨rfl, rfl⟩ := Prod.mk.inj isFirst
        exact ⟨[], rest, rfl, rfl⟩
      · obtain ⟨before, after, rfl, placeEq⟩ := ih inRest
        refine ⟨first :: before, after, rfl, ?_⟩
        rw [placeEq, render_cons, Text.byteLength_append, Nat.add_assoc]

theorem text_ne_nil_of_mem_tokenize {text : Text} {token : Token} (member : token ∈ tokenize text) :
    token.text ≠ [] := by
  obtain ⟨c, rest, rfl⟩ := exists_scan_of_mem_tokenize member
  exact List.cons_ne_nil _ _

/-- A list of tokens that a text is cut into without a loss. -/
structure IsLosslessCut (source : Text) (tokens : List Token) : Prop where
  whole : render tokens = source
  notEmpty : ∀ token ∈ tokens, token.text ≠ []
  /-- A token's place is the number of bytes of the tokens before it. -/
  places : ∀ before token after, tokens = before ++ token :: after →
    (locate 0 tokens)[before.length]? =
      some ((before.map fun earlier => byteLength earlier.text).sum, token)
  /-- No token starts or ends inside a character. -/
  boundaries : ∀ place token, (place, token) ∈ locate 0 tokens →
    IsBoundary source place ∧ IsBoundary source (place + byteLength token.text)
  /-- The cuts are those of a cutter that sees bytes only, one ahead at most. -/
  bytes : cutBytes 0 (utf8 source) =
    (locate 0 tokens).map fun (place, token) => (place, token.kind, utf8 token.text)
  /-- Neighbouring tokens are cut the same way when they stand alone. -/
  stable : ∀ part, part <:+: tokens → tokenize (render part) = part

/-- Any text is cut into tokens without a loss, and so is any part that is cut again. -/
theorem isLosslessCut_tokenize (source : Text) : IsLosslessCut source (tokenize source) := by
  refine ⟨render_tokenize source, fun _ => text_ne_nil_of_mem_tokenize, ?_, ?_,
    cutBytes_utf8 0 source, fun _ => tokenize_render_infix⟩
  · intro before token after split
    rw [split, getElem?_locate, Nat.zero_add]
  · intro place token member
    obtain ⟨before, after, split, placeEq⟩ := exists_before_of_mem_locate member
    have text : source = render before ++ (token.text ++ render after) := by
      rw [← render_cons, ← render_append, ← split, render_tokenize]
    have behind : place + byteLength token.text = byteLength (render before ++ token.text) := by
      rw [placeEq, Nat.zero_add, Text.byteLength_append]
    constructor
    · rw [placeEq, Nat.zero_add, text]
      exact isBoundary_append _ _
    · rw [behind, text, ← List.append_assoc]
      exact isBoundary_append _ _

end Breadboard.Sketch
