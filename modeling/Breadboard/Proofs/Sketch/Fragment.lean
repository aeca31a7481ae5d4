import Breadboard.Proofs.Sketch.Lexeme
import Breadboard.Sketch.Bracket

set_option autoImplicit false

/- Fragments: the tokens of a piece of code inside one statement, with no line break and no mark that ends
a statement or a block. -/
namespace Breadboard.Sketch

/-- The characters of a line of code: the inLine ones and the blanks that break no line. -/
def isLineChar (c : Char) : Bool :=
  (0x20 ≤ c.toNat && c.toNat ≤ 0x7E) || (isSpaceChar c && c != '\n')

/-- The marks that end a statement or limit a block. -/
def Token.isBlockMark (token : Token) : Bool :=
  token.isPunct ";" || token.isPunct "\x7b" || token.isPunct "\x7d"

structure IsFragment (tokens : List Token) : Prop where
  cut : IsCut tokens
  inLine : ∀ token ∈ tokens, token.text.all isLineChar = true
  unmarked : ∀ token ∈ tokens, token.isBlockMark = false

theorem isFragment_nil : IsFragment [] :=
  ⟨isCut_nil, by simp, by simp⟩

/-- The number of open parentheses after the tokens, none if one is closed that was not open. -/
def parenDepth? : Nat → List Token → Option Nat
  | depth, [] => some depth
  | depth, token :: rest =>
    if token.isPunct "(" then parenDepth? (depth + 1) rest
    else if token.isPunct ")" then
      match depth with
      | 0 => none
      | depth + 1 => parenDepth? depth rest
    else parenDepth? depth rest

theorem parenDepth?_cons (depth : Nat) (token : Token) (rest : List Token) :
    parenDepth? depth (token :: rest) =
      if token.isPunct "(" then parenDepth? (depth + 1) rest
      else if token.isPunct ")" then
        match depth with
        | 0 => none
        | depth + 1 => parenDepth? depth rest
      else parenDepth? depth rest := by
  rw [parenDepth?.eq_def]

def IsBalanced (tokens : List Token) : Prop :=
  parenDepth? 0 tokens = some 0

/-- The tokens without trivia at their two ends. -/
def trimTokens (tokens : List Token) : List Token :=
  (dropTrivia (dropTrivia tokens).reverse).reverse

theorem IsCut.part {tokens part : List Token} (cut : IsCut tokens) (inside : part <:+: tokens) :
    IsCut part :=
  ⟨fun token member => cut.whole token (inside.subset member), List.IsChain.infix cut.chain inside⟩

theorem IsCut.append {first second : List Token} (firstCut : IsCut first) (secondCut : IsCut second)
    (meets : ∀ last ∈ first.getLast?, ∀ next ∈ second.head?, Token.Meets last next) :
    IsCut (first ++ second) := by
  refine ⟨fun token member => ?_, firstCut.chain.append secondCut.chain meets⟩
  rcases List.mem_append.mp member with inFirst | inSecond
  · exact firstCut.whole token inFirst
  · exact secondCut.whole token inSecond

theorem isFragment_of_tokenize_eq (text : Text) {tokens : List Token}
    (cutAt : tokenize text = tokens)
    (plain : tokens.all (fun token => (token.kind != .comment &&
      (token.kind != .literal || token.isClosedLiteral)) && (token.text.all isLineChar &&
        !token.isBlockMark)) = true) : IsFragment tokens := by
  have each := List.all_eq_true.mp plain
  refine ⟨isCut_of_tokenize_eq cutAt (List.all_eq_true.mpr fun token member => ?_),
    fun token member => ?_, fun token member => ?_⟩
  · exact (Bool.and_eq_true_iff.mp (each token member)).1
  · exact (Bool.and_eq_true_iff.mp (Bool.and_eq_true_iff.mp (each token member)).2).1
  · have := (Bool.and_eq_true_iff.mp (Bool.and_eq_true_iff.mp (each token member)).2).2
    simpa using this

theorem IsFragment.part {tokens part : List Token} (code : IsFragment tokens)
    (inside : part <:+: tokens) : IsFragment part :=
  ⟨code.cut.part inside, fun token member => code.inLine token (inside.subset member),
    fun token member => code.unmarked token (inside.subset member)⟩

theorem IsFragment.tail {token : Token} {rest : List Token} (code : IsFragment (token :: rest)) :
    IsFragment rest :=
  code.part (List.suffix_cons token rest).isInfix

theorem IsFragment.append {first second : List Token} (firstCode : IsFragment first)
    (secondCode : IsFragment second)
    (meets : ∀ last ∈ first.getLast?, ∀ next ∈ second.head?, Token.Meets last next) :
    IsFragment (first ++ second) := by
  refine ⟨firstCode.cut.append secondCode.cut meets, fun token member => ?_, fun token member => ?_⟩
  · rcases List.mem_append.mp member with inFirst | inSecond
    · exact firstCode.inLine token inFirst
    · exact secondCode.inLine token inSecond
  · rcases List.mem_append.mp member with inFirst | inSecond
    · exact firstCode.unmarked token inFirst
    · exact secondCode.unmarked token inSecond

theorem IsCut.length_le {tokens : List Token} (cut : IsCut tokens) :
    tokens.length ≤ (render tokens).length := by
  induction tokens with
  | nil => exact Nat.zero_le _
  | cons token rest ih =>
      have notEmpty := List.length_pos_iff.mpr (cut.whole token List.mem_cons_self).text_ne_nil
      have := ih (cut.part ⟨[token], [], by simp⟩)
      rw [render_cons, List.length_append, List.length_cons]
      omega

theorem IsFragment.length_le {tokens : List Token} (code : IsFragment tokens) :
    tokens.length ≤ (render tokens).length :=
  code.cut.length_le

theorem parenDepth?_append (depth : Nat) (first second : List Token) :
    parenDepth? depth (first ++ second) =
      (parenDepth? depth first).bind (parenDepth? · second) := by
  induction first generalizing depth with
  | nil => rfl
  | cons token rest ih =>
      rw [List.cons_append, parenDepth?_cons, parenDepth?_cons]
      split
      · exact ih (depth + 1)
      · split
        · cases depth with
          | zero => rfl
          | succ depth => exact ih depth
        · exact ih depth

/-- A token that is opened or closed changes the depth by itself alone. -/
theorem parenDepth?_step {depth last : Nat} {token : Token} {rest : List Token}
    (ends : parenDepth? depth (token :: rest) = some last) :
    ∃ inside, ∀ more, parenDepth? depth (token :: more) = parenDepth? inside more := by
  rw [parenDepth?_cons] at ends
  by_cases isOpen : token.isPunct "(" = true
  · exact ⟨depth + 1, fun more => by rw [parenDepth?_cons, if_pos isOpen]⟩
  · rw [if_neg isOpen] at ends
    by_cases isClose : token.isPunct ")" = true
    · rw [if_pos isClose] at ends
      cases depth with
      | zero => cases ends
      | succ depth =>
          exact ⟨depth, fun more => by rw [parenDepth?_cons, if_neg isOpen, if_pos isClose]⟩
    · exact ⟨depth, fun more => by rw [parenDepth?_cons, if_neg isOpen, if_neg isClose]⟩

theorem parenDepth?_cons_ident {token : Token} (ident : token.kind = .ident) (depth : Nat)
    (rest : List Token) : parenDepth? depth (token :: rest) = parenDepth? depth rest := by
  have noMark : ∀ mark, token.isPunct mark = false := fun mark => by
    rw [Token.isPunct, ident]
    rfl
  rw [parenDepth?_cons, noMark, noMark]
  rfl

/-- Deeper inside open parentheses the tokens end as much deeper. -/
theorem parenDepth?_add {depth last : Nat} {tokens : List Token}
    (ends : parenDepth? depth tokens = some last) (more : Nat) :
    parenDepth? (depth + more) tokens = some (last + more) := by
  induction tokens generalizing depth with
  | nil =>
      rw [parenDepth?, Option.some_inj] at ends
      rw [parenDepth?, ends]
  | cons token rest ih =>
      rw [parenDepth?_cons] at ends ⊢
      split at ends
      · rename_i isOpen
        rw [if_pos isOpen, Nat.add_right_comm]
        exact ih ends
      · rename_i notOpen
        rw [if_neg notOpen]
        split at ends
        · rename_i isClose
          rw [if_pos isClose]
          cases depth with
          | zero => cases ends
          | succ depth =>
              rw [Nat.add_right_comm]
              exact ih ends
        · rename_i notClose
          rw [if_neg notClose]
          exact ih ends

theorem parenDepth?_of_plain {tokens : List Token}
    (plain : ∀ token ∈ tokens, token.isPunct "(" = false ∧ token.isPunct ")" = false)
    (depth : Nat) : parenDepth? depth tokens = some depth := by
  induction tokens with
  | nil => rfl
  | cons token rest ih =>
      obtain ⟨notOpen, notClose⟩ := plain token List.mem_cons_self
      rw [parenDepth?_cons, notOpen, notClose]
      exact ih fun other member => plain other (List.mem_cons_of_mem _ member)

theorem splitGroup_cons (opening closing : String) (depth : Nat) (token : Token)
    (rest : List Token) :
    splitGroup opening closing depth (token :: rest) =
      if token.isPunct opening then
        (splitGroup opening closing (depth + 1) rest).map fun (inner, after) => (token :: inner, after)
      else if token.isPunct closing then
        match depth with
        | 0 => some ([], rest)
        | depth + 1 =>
          (splitGroup opening closing depth rest).map fun (inner, after) => (token :: inner, after)
      else
        (splitGroup opening closing depth rest).map
          fun (inner, after) => (token :: inner, after) :=
  splitGroup.eq_def opening closing depth (token :: rest)

/-- The group that is open ends inside tokens that end further out. -/
theorem splitGroup_of_parenDepth? (inside outside : Nat) {last : Nat} {tokens : List Token}
    (ends : parenDepth? (outside + 1 + inside) tokens = some last) (further : last ≤ outside) :
    ∃ inner closing after, tokens = inner ++ closing :: after ∧ closing.isPunct ")" = true ∧
      parenDepth? inside inner = some 0 ∧ parenDepth? outside after = some last ∧
      splitGroup "(" ")" inside tokens = some (inner, after) := by
  induction tokens generalizing inside with
  | nil =>
      rw [parenDepth?, Option.some_inj] at ends
      omega
  | cons token rest ih =>
      rw [parenDepth?_cons] at ends
      by_cases isOpen : token.isPunct "(" = true
      · rw [if_pos isOpen] at ends
        obtain ⟨inner, closing, after, rfl, isClose, innerEnds, afterEnds, cutAt⟩ :=
          ih (inside + 1) ends
        refine ⟨token :: inner, closing, after, rfl, isClose, ?_, afterEnds, ?_⟩
        · rw [parenDepth?_cons, if_pos isOpen, innerEnds]
        · rw [splitGroup_cons, if_pos isOpen, cutAt, Option.map_some]
      · rw [if_neg isOpen] at ends
        by_cases isClose : token.isPunct ")" = true
        · rw [if_pos isClose] at ends
          cases inside with
          | zero =>
              refine ⟨[], token, rest, rfl, isClose, rfl, ends, ?_⟩
              rw [splitGroup_cons, if_neg isOpen, if_pos isClose]
          | succ inside =>
              obtain ⟨inner, closing, after, rfl, closes, innerEnds, afterEnds, cutAt⟩ := ih inside ends
              refine ⟨token :: inner, closing, after, rfl, closes, ?_, afterEnds, ?_⟩
              · rw [parenDepth?_cons, if_neg isOpen, if_pos isClose]
                exact innerEnds
              · rw [splitGroup_cons, if_neg isOpen, if_pos isClose]
                simp only [cutAt, Option.map_some]
        · rw [if_neg isClose] at ends
          obtain ⟨inner, closing, after, rfl, closes, innerEnds, afterEnds, cutAt⟩ := ih inside ends
          refine ⟨token :: inner, closing, after, rfl, closes, ?_, afterEnds, ?_⟩
          · rw [parenDepth?_cons, if_neg isOpen, if_neg isClose, innerEnds]
          · rw [splitGroup_cons, if_neg isOpen, if_neg isClose, cutAt, Option.map_some]

theorem splitGroup_append {opening closing : String} {depth : Nat} {tokens inner after : List Token}
    (cutAt : splitGroup opening closing depth tokens = some (inner, after)) (more : List Token) :
    splitGroup opening closing depth (tokens ++ more) = some (inner, after ++ more) := by
  induction tokens generalizing depth inner after with
  | nil => cases cutAt
  | cons token rest ih =>
      rw [splitGroup_cons] at cutAt
      rw [List.cons_append, splitGroup_cons]
      split at cutAt
      · obtain ⟨⟨smaller, left⟩, cutRest, eq⟩ := Option.map_eq_some_iff.mp cutAt
        cases eq
        simp [*, ih cutRest]
      · split at cutAt
        · cases depth with
          | zero =>
              cases cutAt
              simp [*]
          | succ depth =>
              obtain ⟨⟨smaller, left⟩, cutRest, eq⟩ := Option.map_eq_some_iff.mp cutAt
              cases eq
              simp [*, ih cutRest]
        · obtain ⟨⟨smaller, left⟩, cutRest, eq⟩ := Option.map_eq_some_iff.mp cutAt
          cases eq
          simp [*, ih cutRest]

theorem dropTrivia_append (first second : List Token) :
    dropTrivia (first ++ second) =
      if (dropTrivia first).isEmpty then dropTrivia second else dropTrivia first ++ second := by
  rw [dropTrivia, List.dropWhile_append]
  rfl

theorem exists_trivia_append (tokens : List Token) :
    ∃ lead, tokens = lead ++ dropTrivia tokens ∧ ∀ token ∈ lead, token.isTrivia = true :=
  ⟨tokens.takeWhile Token.isTrivia, List.takeWhile_append_dropWhile.symm,
    fun _ member => List.mem_takeWhile_imp member⟩

theorem isPunct_of_isTrivia {token : Token} (trivia : token.isTrivia = true) (mark : String) :
    token.isPunct mark = false := by
  simp only [Token.isTrivia, Bool.or_eq_true, beq_iff_eq] at trivia
  rcases trivia with kind | kind <;> rw [Token.isPunct, kind] <;> rfl

theorem parenDepth?_trivia {trivia : List Token} (all : ∀ token ∈ trivia, token.isTrivia = true)
    (depth : Nat) : parenDepth? depth trivia = some depth :=
  parenDepth?_of_plain (fun token member =>
    ⟨isPunct_of_isTrivia (all token member) _, isPunct_of_isTrivia (all token member) _⟩) depth

theorem parenDepth?_dropTrivia (depth : Nat) (tokens : List Token) :
    parenDepth? depth (dropTrivia tokens) = parenDepth? depth tokens := by
  obtain ⟨lead, split, all⟩ := exists_trivia_append tokens
  conv_rhs => rw [split, parenDepth?_append, parenDepth?_trivia all, Option.bind_some]

/-- A group in parentheses inside tokens whose parentheses all close does not depend on what comes after
these tokens. -/
theorem parenthesized?_scope {depth : Nat} {tokens back : List Token}
    (ends : parenDepth? depth tokens = some 0)
    (stop : ∀ token ∈ (dropTrivia back).head?, token.isPunct "(" = false) :
    (parenthesized? tokens = none ∧ parenthesized? (tokens ++ back) = none) ∨
      ∃ before inner closing after, tokens = before ++ inner ++ closing :: after ∧
        IsBalanced inner ∧ parenDepth? depth after = some 0 ∧
        parenthesized? tokens = some (inner, after) ∧
        parenthesized? (tokens ++ back) = some (inner, after ++ back) := by
  obtain ⟨lead, split, -⟩ := exists_trivia_append tokens
  rw [← parenDepth?_dropTrivia] at ends
  unfold parenthesized?
  rw [dropTrivia_append]
  cases left : dropTrivia tokens with
  | nil =>
      refine Or.inl ⟨rfl, ?_⟩
      cases onward : dropTrivia back with
      | nil => rfl
      | cons token rest => simp [stop token (by rw [onward]; rfl)]
  | cons token rest =>
      rw [left, parenDepth?_cons] at ends
      by_cases isOpen : token.isPunct "(" = true
      · rw [if_pos isOpen] at ends
        obtain ⟨inner, closing, after, restEq, -, innerEnds, afterEnds, cutAt⟩ :=
          splitGroup_of_parenDepth? 0 depth ends (Nat.zero_le depth)
        refine Or.inr ⟨lead ++ [token], inner, closing, after, ?_, innerEnds, afterEnds, ?_, ?_⟩
        · rw [split, left, restEq]
          simp
        · simp only [if_pos isOpen, cutAt]
        · simpa [isOpen] using splitGroup_append cutAt back
      · exact Or.inl (by simp [isOpen])

theorem exists_trimTokens (tokens : List Token) :
    ∃ lead trail, tokens = lead ++ trimTokens tokens ++ trail ∧
      (∀ token ∈ lead, token.isTrivia = true) ∧ ∀ token ∈ trail, token.isTrivia = true := by
  obtain ⟨lead, split, leadAll⟩ := exists_trivia_append tokens
  obtain ⟨trail, splitBack, trailAll⟩ := exists_trivia_append (dropTrivia tokens).reverse
  refine ⟨lead, trail.reverse, ?_, leadAll, fun token member => ?_⟩
  · rw [trimTokens, List.append_assoc, ← List.reverse_append, ← splitBack, List.reverse_reverse,
      ← split]
  · exact trailAll token (List.mem_reverse.mp member)

theorem trimTokens_isInfix (tokens : List Token) : trimTokens tokens <:+: tokens := by
  obtain ⟨lead, trail, split, -⟩ := exists_trimTokens tokens
  exact ⟨lead, trail, split.symm⟩

theorem IsBalanced.trimTokens {tokens : List Token} (balanced : IsBalanced tokens) :
    IsBalanced (trimTokens tokens) := by
  obtain ⟨lead, trail, split, leadAll, trailAll⟩ := exists_trimTokens tokens
  unfold IsBalanced at balanced ⊢
  rw [split, parenDepth?_append, parenDepth?_append, parenDepth?_trivia leadAll,
    Option.bind_some] at balanced
  obtain ⟨depth, ends, trailEnds⟩ := Option.bind_eq_some_iff.mp balanced
  rw [parenDepth?_trivia trailAll] at trailEnds
  rw [ends, trailEnds]

theorem isBlank_of_isSpaceChar {c : Char} (space : isSpaceChar c = true) :
    Text.isBlank c = true := by
  simp only [isSpaceChar, Bool.or_eq_true, beq_iff_eq] at space
  rcases space with (((rfl | rfl) | rfl) | rfl) | rfl <;> rfl

theorem isBlank_eq_false {c : Char} (inLine : isLineChar c = true)
    (notSpace : isSpaceChar c = false) : Text.isBlank c = false := by
  have other : c.toNat ≠ 0x20 := by
    intro eq
    obtain rfl : c = ' ' := Char.toNat_inj.mp eq
    cases notSpace
  simp only [isLineChar, notSpace, Bool.false_and, Bool.or_false, Bool.and_eq_true,
    decide_eq_true_eq] at inLine
  simp only [Text.isBlank, Bool.or_eq_false_iff, Bool.and_eq_false_iff, decide_eq_false_iff_not,
    beq_eq_false_iff_ne]
  omega

theorem getLast?_of_closesLiteral {quote : Char} {text : Text}
    (closed : closesLiteral quote text = true) : text.getLast? = some quote := by
  fun_induction closesLiteral quote text with
  | case1 => cases closed
  | case2 second rest ih => simp [List.getLast?_cons, ih closed]
  | case3 c rest notPair closes =>
      obtain rfl : rest = [] := by simpa using closed
      simp [beq_iff_eq.mp closes]
  | case4 c rest notPair goesOn ih =>
      rw [Bool.and_eq_true] at closed
      simp [List.getLast?_cons, ih closed.2]

theorem isBlank_ends {text : Text} (inLine : text.all isLineChar = true)
    (noSpace : ∀ c ∈ text, isSpaceChar c = false) :
    (∀ c ∈ text.head?, Text.isBlank c = false) ∧ ∀ c ∈ text.getLast?, Text.isBlank c = false := by
  have notBlank : ∀ c ∈ text, Text.isBlank c = false := fun c member =>
    isBlank_eq_false (List.all_eq_true.mp inLine c member) (noSpace c member)
  exact ⟨fun c first => notBlank c (List.mem_of_mem_head? first),
    fun c last => notBlank c (List.mem_of_getLast? last)⟩

/-- A token of a fragment is all blank, or it starts and ends with characters that are not blank. -/
theorem IsLexeme.blank_or_tight {token : Token} (whole : IsLexeme token)
    (inLine : token.text.all isLineChar = true) :
    (token.isTrivia = true ∧ token.text.all Text.isBlank = true) ∨
      (token.isTrivia = false ∧ (∀ c ∈ token.text.head?, Text.isBlank c = false) ∧
        ∀ c ∈ token.text.getLast?, Text.isBlank c = false) := by
  cases whole with
  | @space c rest start run =>
      refine Or.inl ⟨rfl, ?_⟩
      rw [List.all_eq_true] at run ⊢
      intro d member
      rcases List.mem_cons.mp member with rfl | inRest
      · exact isBlank_of_isSpaceChar start
      · exact isBlank_of_isSpaceChar (run d inRest)
  | @word c rest start run =>
      refine Or.inr ⟨rfl, isBlank_ends inLine fun d member => ?_⟩
      rcases List.mem_cons.mp member with rfl | inRest
      · exact isSpaceChar_eq_false start rfl
      · exact isSpaceChar_eq_false (List.all_eq_true.mp run d inRest) rfl
  | @number c rest start run =>
      refine Or.inr ⟨rfl, isBlank_ends inLine fun d member => ?_⟩
      rcases List.mem_cons.mp member with rfl | inRest
      · rcases start with digit | ⟨rfl, -⟩
        · exact isSpaceChar_eq_false digit rfl
        · decide
      · exact isSpaceChar_eq_false (List.all_eq_true.mp run d inRest) rfl
  | @literal quote rest start closed =>
      have notBlank : Text.isBlank quote = false := by
        simp only [isQuote, Bool.or_eq_true, beq_iff_eq] at start
        rcases start with rfl | rfl <;> rfl
      refine Or.inr ⟨rfl, fun c first => ?_, fun c last => ?_⟩
      · obtain rfl : quote = c := by simpa using first
        exact notBlank
      · rw [List.getLast?_cons, getLast?_of_closesLiteral closed] at last
        obtain rfl : quote = c := by simpa using last
        exact notBlank
  | @mark c single =>
      refine Or.inr ⟨rfl, isBlank_ends inLine fun d member => ?_⟩
      rw [List.mem_singleton.mp member]
      exact isSpaceChar_eq_false single rfl
  | @pair first second operator =>
      refine Or.inr ⟨rfl, isBlank_ends inLine fun d member => ?_⟩
      by_contra space
      simp only [isSpaceChar, Bool.not_eq_false, Bool.or_eq_true, beq_iff_eq] at space
      simp only [List.mem_cons, List.not_mem_nil, or_false] at member
      rcases member with rfl | rfl
      · rcases space with (((rfl | rfl) | rfl) | rfl) | rfl <;> cases operator
      · have outside : ['=', '<', '>', '&', '|', '+', '-', ':'].contains d = false := by
          rcases space with (((rfl | rfl) | rfl) | rfl) | rfl <;> rfl
        rw [isOperatorPair_eq_false outside] at operator
        cases operator

theorem trimStart_render {tokens : List Token} (code : IsFragment tokens) :
    Text.trimStart (render tokens) = render (dropTrivia tokens) := by
  induction tokens with
  | nil => rfl
  | cons token rest ih =>
      have whole := code.cut.whole token List.mem_cons_self
      unfold Text.trimStart dropTrivia at ih ⊢
      rcases whole.blank_or_tight (code.inLine token List.mem_cons_self) with
        ⟨trivia, blank⟩ | ⟨significant, first, -⟩
      · rw [List.dropWhile_cons_of_pos trivia, ← ih code.tail, render_cons,
          List.dropWhile_append_of_pos (by simpa using blank)]
      · rw [List.dropWhile_cons_of_neg (by simp [significant]), render_cons]
        cases textEq : token.text with
        | nil => exact absurd textEq whole.text_ne_nil
        | cons c more =>
            rw [List.cons_append, List.dropWhile_cons_of_neg]
            simp [first c (by rw [textEq]; rfl)]

theorem trimEnd_render {tokens : List Token} (code : IsFragment tokens) :
    Text.trimEnd (render tokens) = render (dropTrivia tokens.reverse).reverse := by
  induction tokens using List.reverseRecOn with
  | nil => rfl
  | append_singleton front token ih =>
      have inside : token ∈ front ++ [token] := by simp
      have whole := code.cut.whole token inside
      have frontCode := code.part (List.prefix_append front [token]).isInfix
      unfold Text.trimEnd dropTrivia at ih ⊢
      rw [List.reverse_append, List.reverse_singleton, List.singleton_append, render_append,
        List.reverse_append]
      simp only [render_cons, render_nil, List.append_nil]
      rcases whole.blank_or_tight (code.inLine token inside) with
        ⟨trivia, blank⟩ | ⟨significant, -, last⟩
      · rw [List.dropWhile_cons_of_pos trivia, ← ih frontCode,
          List.dropWhile_append_of_pos (by simpa using blank)]
      · rw [List.dropWhile_cons_of_neg (by simp [significant])]
        cases reversed : token.text.reverse with
        | nil => exact absurd (List.reverse_eq_nil_iff.mp reversed) whole.text_ne_nil
        | cons c more =>
            have isLast : c ∈ token.text.getLast? := by
              rw [List.getLast?_eq_head?_reverse, reversed]
              rfl
            rw [List.cons_append, List.dropWhile_cons_of_neg (by simp [last c isLast]),
              ← List.cons_append, ← reversed, ← List.reverse_append, List.reverse_reverse]
            simp

/-- Trimming the text of a fragment drops the trivia at its ends. -/
theorem trim_render {tokens : List Token} (code : IsFragment tokens) :
    Text.trim (render tokens) = render (trimTokens tokens) := by
  obtain ⟨lead, split, -⟩ := exists_trivia_append tokens
  rw [Text.trim, trimStart_render code, trimEnd_render (code.part ⟨lead, [], by simp [← split]⟩),
    trimTokens]

theorem pieces_ne_nil (depth : Nat) (tokens : List Token) : pieces depth tokens ≠ [] := by
  cases tokens with
  | nil => simp [pieces]
  | cons token rest =>
      rw [pieces]
      split
      · simp
      · dsimp only
        generalize (if token.isOpening then depth + 1 else if token.isClosing then depth - 1
          else depth) = inner
        cases pieces inner rest <;> simp

/-- A token is a comma between two pieces, or it belongs to the first piece. -/
theorem pieces_cons (depth : Nat) (token : Token) (rest : List Token) :
    (token.isPunct "," = true ∧ pieces depth (token :: rest) = [] :: pieces 0 rest) ∨
      ∃ inner piece more, pieces inner rest = piece :: more ∧
        pieces depth (token :: rest) = (token :: piece) :: more := by
  by_cases atComma : depth = 0 ∧ token.isPunct "," = true
  · refine Or.inl ⟨atComma.2, ?_⟩
    rw [pieces, if_pos atComma]
  · refine Or.inr ?_
    rw [pieces, if_neg atComma]
    dsimp only
    generalize (if token.isOpening then depth + 1 else if token.isClosing then depth - 1
      else depth) = inner
    cases others : pieces inner rest with
    | nil => exact absurd others (pieces_ne_nil inner rest)
    | cons piece more => exact ⟨inner, piece, more, others, rfl⟩

theorem eq_of_pieces_eq_one {depth : Nat} {tokens piece : List Token}
    (one : pieces depth tokens = [piece]) : piece = tokens := by
  induction tokens generalizing depth piece with
  | nil => simpa [pieces] using one.symm
  | cons token rest ih =>
      rcases pieces_cons depth token rest with ⟨-, eq⟩ | ⟨_, head, more, others, eq⟩
      · rw [eq] at one
        exact absurd (List.cons.inj one).2 (pieces_ne_nil 0 rest)
      · rw [eq] at one
        obtain ⟨rfl, rfl⟩ := List.cons.inj one
        rw [ih others]

theorem eq_append_of_pieces_eq_two {depth : Nat} {tokens first second : List Token}
    (two : pieces depth tokens = [first, second]) :
    ∃ comma, tokens = first ++ comma :: second ∧ comma.isPunct "," = true := by
  induction tokens generalizing depth first with
  | nil => simp [pieces] at two
  | cons token rest ih =>
      rcases pieces_cons depth token rest with ⟨isComma, eq⟩ | ⟨_, head, more, others, eq⟩
      · rw [eq] at two
        obtain ⟨rfl, others⟩ := List.cons.inj two
        exact ⟨token, by rw [eq_of_pieces_eq_one others]; rfl, isComma⟩
      · rw [eq] at two
        obtain ⟨rfl, rfl⟩ := List.cons.inj two
        obtain ⟨comma, rfl, isComma⟩ := ih others
        exact ⟨comma, rfl, isComma⟩

end Breadboard.Sketch
