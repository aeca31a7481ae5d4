import Breadboard.Proofs.Sketch.Fragment
import Breadboard.Script.Line

set_option autoImplicit false

/- The rules for types and calls work inside a fragment whose parentheses close: they make another such
fragment of it and do not look at the tokens around it. -/
namespace Breadboard.Script

open Sketch

/-- The tokens that can stand around a condition or behind a statement. No rule changes them. -/
def isFrame (token : Token) : Bool :=
  token.kind == .space || token.isPunct "(" || token.isPunct ")" || token.isPunct "\x7b" ||
    token.isPunct "\x7d" || token.isPunct ";" || token.isIdent "if" || token.isIdent "else" ||
    token.isIdent "while"

/-- The first token that is no trivia closes a group or ends a statement. -/
def Closes (tokens : List Token) : Prop :=
  ∀ token ∈ (dropTrivia tokens).head?, token.isPunct ")" = true ∨ token.isPunct ";" = true

/-- What a rule makes of tokens that end with all parentheses closed. -/
structure IsScoped (depth : Nat) (tokens made : List Token) : Prop where
  code : IsFragment made
  ends : parenDepth? depth made = some 0
  start : ∀ token, IsLexeme token → (∀ next ∈ tokens.head?, token.Meets next) →
    ∀ next ∈ made.head?, token.Meets next

theorem eq_of_isIdent {token : Token} {name : String} (ident : token.isIdent name = true) :
    token = ⟨.ident, name.toList⟩ := by
  simp only [Token.isIdent, Bool.and_eq_true, beq_iff_eq] at ident
  rw [← ident.1, ← ident.2]

theorem eq_of_isPunct {token : Token} {mark : String} (punct : token.isPunct mark = true) :
    token = ⟨.punct, mark.toList⟩ := by
  simp only [Token.isPunct, Bool.and_eq_true, beq_iff_eq] at punct
  rw [← punct.1, ← punct.2]

theorem isIdent_self (name : String) : Token.isIdent name ⟨.ident, name.toList⟩ = true := by
  simp [Token.isIdent]

theorem isPunct_self (mark : String) : Token.isPunct mark ⟨.punct, mark.toList⟩ = true := by
  simp [Token.isPunct]

/-- What does not hold of blanks and of the words and marks of a frame holds of no token of one. -/
theorem eq_false_of_isFrame {p : Token → Bool} (space : ∀ text, p ⟨.space, text⟩ = false)
    (others : [(⟨.punct, "(".toList⟩ : Token), ⟨.punct, ")".toList⟩, ⟨.punct, "\x7b".toList⟩,
      ⟨.punct, "\x7d".toList⟩, ⟨.punct, ";".toList⟩, ⟨.ident, "if".toList⟩, ⟨.ident, "else".toList⟩,
      ⟨.ident, "while".toList⟩].all (fun token => !p token) = true)
    {token : Token} (frame : isFrame token = true) : p token = false := by
  simp only [List.all_cons, List.all_nil, Bool.and_true, Bool.and_eq_true, Bool.not_eq_true']
    at others
  obtain ⟨opening, closing, openingBrace, closingBrace, semicolon, ifWord, elseWord, whileWord⟩ :=
    others
  simp only [isFrame, Bool.or_eq_true] at frame
  rcases frame with (((((((kind | mark) | mark) | mark) | mark) | mark) | word) | word) | word
  · obtain ⟨kindOf, text⟩ := token
    obtain rfl : kindOf = .space := by simpa using kind
    exact space text
  · exact eq_of_isPunct mark ▸ opening
  · exact eq_of_isPunct mark ▸ closing
  · exact eq_of_isPunct mark ▸ openingBrace
  · exact eq_of_isPunct mark ▸ closingBrace
  · exact eq_of_isPunct mark ▸ semicolon
  · exact eq_of_isIdent word ▸ ifWord
  · exact eq_of_isIdent word ▸ elseWord
  · exact eq_of_isIdent word ▸ whileWord

theorem isTypeWord_of_isFrame {token : Token} (frame : isFrame token = true) :
    isTypeWord token = false :=
  eq_false_of_isFrame (fun _ => rfl) (by decide) frame

theorem IsScoped.nil {depth : Nat} (ends : parenDepth? depth [] = some 0) :
    IsScoped depth [] [] :=
  ⟨isFragment_nil, ends, fun _ _ _ next member => by cases member⟩

/-- A rule that keeps the first token and is scoped on the rest is within. -/
theorem IsScoped.cons {depth inside : Nat} {token : Token} {rest made : List Token}
    (code : IsFragment (token :: rest))
    (step : ∀ more, parenDepth? depth (token :: more) = parenDepth? inside more)
    (within : IsScoped inside rest made) : IsScoped depth (token :: rest) (token :: made) := by
  have whole := code.cut.whole token List.mem_cons_self
  have meets : ∀ next ∈ made.head?, token.Meets next :=
    within.start token whole (List.isChain_cons.mp code.cut.chain).1
  refine ⟨⟨⟨fun other member => ?_, List.isChain_cons.mpr ⟨meets, within.code.cut.chain⟩⟩,
    fun other member => ?_, fun other member => ?_⟩, ?_, fun before _ ends next first => ?_⟩
  · rcases List.mem_cons.mp member with rfl | inMade
    · exact whole
    · exact within.code.cut.whole other inMade
  · rcases List.mem_cons.mp member with rfl | inMade
    · exact code.inLine other List.mem_cons_self
    · exact within.code.inLine other inMade
  · rcases List.mem_cons.mp member with rfl | inMade
    · exact code.unmarked other List.mem_cons_self
    · exact within.code.unmarked other inMade
  · rw [step, within.ends]
  · exact ends next first

theorem Closes.not_ident {tokens : List Token} (closes : Closes tokens) :
    ∀ token ∈ (dropTrivia tokens).head?, token.kind = .punct ∧ token.isPunct "=" = false ∧
      token.isPunct "(" = false := by
  intro token first
  rcases closes token first with mark | mark <;> rw [eq_of_isPunct mark] <;> decide

theorem leadsToAssignment_of_closes {tokens : List Token} (closes : Closes tokens) :
    leadsToAssignment tokens = false := by
  obtain ⟨lead, split, all⟩ := exists_trivia_append tokens
  have skip : ∀ token ∈ lead, (token.isTrivia || isTypeWord token) = true := fun token member => by
    rw [all token member, Bool.true_or]
  unfold leadsToAssignment
  rw [split, List.dropWhile_append_of_pos skip]
  cases onward : dropTrivia tokens with
  | nil => rfl
  | cons token rest =>
      have punct : token.kind = .punct := (closes.not_ident token (by rw [onward]; rfl)).1
      rw [List.dropWhile_cons_of_neg (by simp [Token.isTrivia, isTypeWord, punct])]
      simp [punct]

/-- What follows a closing token assigns to no name before it. -/
theorem leadsToAssignment_append {back : List Token} (closes : Closes back) (tokens : List Token) :
    leadsToAssignment (tokens ++ back) = leadsToAssignment tokens := by
  have atBack := leadsToAssignment_of_closes closes
  unfold leadsToAssignment at atBack ⊢
  rw [List.dropWhile_append]
  cases left : tokens.dropWhile fun token => token.isTrivia || isTypeWord token with
  | nil => simpa using atBack
  | cons name rest =>
      simp only [List.isEmpty_cons, Bool.false_eq_true, ↓reduceIte, List.cons_append]
      rw [dropTrivia_append]
      cases onward : dropTrivia rest with
      | nil =>
          cases behind : dropTrivia back with
          | nil => simp
          | cons token more =>
              have notEquals := (closes.not_ident token (by rw [behind]; rfl)).2.1
              simp [notEquals]
      | cons token more => simp

theorem leadsToAssignment_of_trivia {token : Token} {rest : List Token}
    (trivia : token.isTrivia = true) : leadsToAssignment (token :: rest) = leadsToAssignment rest := by
  unfold leadsToAssignment
  rw [List.dropWhile_cons_of_pos (by simp [trivia])]

theorem stripTypes_frame_append {front : List Token}
    (frames : ∀ token ∈ front, isFrame token = true) (tokens : List Token) :
    stripTypes false (front ++ tokens) = front ++ stripTypes false tokens := by
  induction front with
  | nil => rfl
  | cons token rest ih =>
      rw [List.cons_append, stripTypes, isTypeWord_of_isFrame (frames token List.mem_cons_self),
        Bool.false_and, if_neg Bool.false_ne_true, Bool.false_and, if_neg Bool.false_ne_true,
        ih fun other member => frames other (List.mem_cons_of_mem _ member), List.cons_append]

/-- Behind a type that is dropped a name follows, so the trivia after the tokens is never dropped. -/
theorem stripTypes_append {back : List Token} (closes : Closes back) {afterType : Bool}
    {tokens : List Token} (named : afterType = true → leadsToAssignment tokens = true) :
    stripTypes afterType (tokens ++ back) =
      stripTypes afterType tokens ++ stripTypes false back := by
  induction tokens generalizing afterType with
  | nil =>
      cases afterType with
      | false => rfl
      | true => cases named rfl
  | cons token rest ih =>
      rw [List.cons_append, stripTypes, stripTypes, leadsToAssignment_append closes]
      by_cases dropped : (isTypeWord token && leadsToAssignment rest) = true
      · rw [if_pos dropped, if_pos dropped]
        exact ih fun _ => (Bool.and_eq_true_iff.mp dropped).2
      · rw [if_neg dropped, if_neg dropped]
        by_cases blank : (afterType && token.isTrivia) = true
        · rw [if_pos blank, if_pos blank]
          obtain ⟨after, trivia⟩ := Bool.and_eq_true_iff.mp blank
          exact ih fun _ => by rw [← leadsToAssignment_of_trivia trivia, named after]
        · rw [if_neg blank, if_neg blank, ih (by simp), List.cons_append]

/-- Behind a type that is dropped the first token that stays is a name. -/
theorem head_stripTypes {tokens : List Token} (named : leadsToAssignment tokens = true) :
    ∀ next ∈ (stripTypes true tokens).head?, next.kind = .ident := by
  induction tokens with
  | nil => cases named
  | cons token rest ih =>
      intro next first
      rw [stripTypes] at first
      by_cases dropped : (isTypeWord token && leadsToAssignment rest) = true
      · rw [if_pos dropped] at first
        exact ih (Bool.and_eq_true_iff.mp dropped).2 next first
      · rw [if_neg dropped] at first
        by_cases trivia : token.isTrivia = true
        · rw [trivia, Bool.and_self, if_pos rfl] at first
          exact ih (by rw [← leadsToAssignment_of_trivia trivia, named]) next first
        · rw [Bool.not_eq_true] at trivia
          rw [trivia, Bool.and_false, if_neg Bool.false_ne_true] at first
          obtain rfl : token = next := by simpa using first
          by_cases type : isTypeWord token = true
          · exact beq_iff_eq.mp (Bool.and_eq_true_iff.mp type).1
          · unfold leadsToAssignment at named
            rw [List.dropWhile_cons_of_neg (by simp [trivia, type])] at named
            exact beq_iff_eq.mp (Bool.and_eq_true_iff.mp named).1

theorem kind_of_isTypeWord {token : Token} (type : isTypeWord token = true) : token.kind = .ident :=
  beq_iff_eq.mp (Bool.and_eq_true_iff.mp type).1

/-- Without its types the code is a fragment again. -/
theorem stripTypes_isScoped {depth : Nat} {tokens : List Token} (afterType : Bool)
    (code : IsFragment tokens) (ends : parenDepth? depth tokens = some 0)
    (named : afterType = true → leadsToAssignment tokens = true) :
    IsFragment (stripTypes afterType tokens) ∧
      parenDepth? depth (stripTypes afterType tokens) = some 0 ∧
      (afterType = false → IsScoped depth tokens (stripTypes afterType tokens)) := by
  induction tokens generalizing afterType depth with
  | nil => exact ⟨code, ends, fun _ => IsScoped.nil ends⟩
  | cons token rest ih =>
      rw [stripTypes]
      by_cases dropped : (isTypeWord token && leadsToAssignment rest) = true
      · obtain ⟨type, leads⟩ := Bool.and_eq_true_iff.mp dropped
        have ident := kind_of_isTypeWord type
        rw [parenDepth?_cons_ident ident] at ends
        obtain ⟨restCode, restEnds, -⟩ := ih true code.tail ends fun _ => leads
        rw [if_pos dropped]
        refine ⟨restCode, restEnds, fun _ => ⟨restCode, restEnds, fun before whole meets next first => ?_⟩⟩
        have nextWhole := restCode.cut.whole next (List.mem_of_mem_head? first)
        obtain ⟨c, more, textEq, start⟩ :=
          IsLexeme.exists_wordStart nextWhole (head_stripTypes leads next first)
        exact Token.Meets.of_callStart (meets token rfl) whole
          (code.cut.whole token List.mem_cons_self) ident textEq (by rw [isCallStart, start]; rfl)
      · rw [if_neg dropped]
        by_cases blank : (afterType && token.isTrivia) = true
        · obtain ⟨after, trivia⟩ := Bool.and_eq_true_iff.mp blank
          rw [if_pos blank]
          rw [parenDepth?_cons, isPunct_of_isTrivia trivia, isPunct_of_isTrivia trivia] at ends
          obtain ⟨restCode, restEnds, -⟩ := ih true code.tail ends
            fun _ => by rw [← leadsToAssignment_of_trivia trivia, named after]
          exact ⟨restCode, restEnds, fun before => by rw [before] at after; cases after⟩
        · rw [if_neg blank]
          obtain ⟨inside, step⟩ := parenDepth?_step ends
          obtain ⟨-, -, within⟩ := ih false code.tail (by rw [← step, ends]) (by simp)
          have scope := IsScoped.cons code step (within rfl)
          exact ⟨scope.code, scope.ends, fun _ => scope⟩

/-- The text of no part of a path closes a group, opens one or ends a statement. -/
def IsPath (parts : List String) : Prop :=
  ∀ part ∈ parts, ["(", ")", ";"].contains part = false

theorem isPunct_eq_false_of_path {parts : List String} (path : IsPath parts) {part : String}
    (member : part ∈ parts) {token : Token} (textEq : token.text = part.toList) :
    token.isPunct "(" = false ∧ token.isPunct ")" = false ∧ token.isPunct ";" = false := by
  have outside := path part member
  simp only [List.contains_eq_mem, decide_eq_false_iff_not, List.mem_cons, List.not_mem_nil,
    or_false, not_or] at outside
  have differ : ∀ mark : String, part ≠ mark → token.isPunct mark = false := by
    intro mark ne
    rw [Token.isPunct, textEq, Bool.and_eq_false_iff]
    exact Or.inr (beq_eq_false_iff_ne.mpr fun eq => ne (String.toList_inj.mp eq))
  exact ⟨differ _ outside.1, differ _ outside.2.1, differ _ outside.2.2⟩

/-- A path inside tokens whose parentheses all close does not depend on what comes after them. -/
theorem afterPath?_scope {parts : List String} (path : IsPath parts) {back : List Token}
    (closes : Closes back) {depth : Nat} {tokens : List Token}
    (ends : parenDepth? depth tokens = some 0) :
    (afterPath? parts tokens = none ∧ afterPath? parts (tokens ++ back) = none) ∨
      ∃ skipped after, tokens = skipped ++ after ∧ parenDepth? depth after = some 0 ∧
        afterPath? parts tokens = some after ∧
        afterPath? parts (tokens ++ back) = some (after ++ back) := by
  induction parts generalizing tokens with
  | nil => exact Or.inr ⟨[], tokens, rfl, ends, rfl, rfl⟩
  | cons part parts ih =>
      have others : IsPath parts := fun other member => path other (List.mem_cons_of_mem _ member)
      obtain ⟨lead, split, -⟩ := exists_trivia_append tokens
      rw [← parenDepth?_dropTrivia] at ends
      rw [afterPath?, afterPath?, dropTrivia_append]
      cases left : dropTrivia tokens with
      | nil =>
          refine Or.inl ⟨rfl, ?_⟩
          cases behind : dropTrivia back with
          | nil => rfl
          | cons token rest =>
              have other : token.text ≠ part.toList := by
                intro textEq
                obtain ⟨-, notClose, notEnd⟩ :=
                  isPunct_eq_false_of_path path List.mem_cons_self textEq
                rcases closes token (by rw [behind]; rfl) with mark | mark
                · rw [mark] at notClose
                  cases notClose
                · rw [mark] at notEnd
                  cases notEnd
              simp [other]
      | cons token rest =>
          simp only [List.isEmpty_cons, Bool.false_eq_true, ↓reduceIte, List.cons_append]
          by_cases textEq : token.text = part.toList
          · rw [if_pos textEq, if_pos textEq]
            obtain ⟨notOpen, notClose, -⟩ :=
              isPunct_eq_false_of_path path List.mem_cons_self textEq
            rw [left, parenDepth?_cons, notOpen, notClose] at ends
            rcases ih others ends with missing | ⟨skipped, after, restEq, afterEnds, found⟩
            · exact Or.inl missing
            · refine Or.inr ⟨lead ++ token :: skipped, after, ?_, afterEnds, found⟩
              rw [split, left, restEq]
              simp
          · rw [if_neg textEq, if_neg textEq]
            exact Or.inl ⟨rfl, rfl⟩

/-- So does a call that starts inside them. -/
theorem callAt?_scope (head : String) {tail : List String} (path : IsPath tail) {back : List Token}
    (closes : Closes back) {depth : Nat} {token : Token} {rest : List Token}
    (ends : parenDepth? depth (token :: rest) = some 0) :
    (callAt? head tail token rest = none ∧ callAt? head tail token (rest ++ back) = none) ∨
      ∃ skipped inner closing after, rest = skipped ++ inner ++ closing :: after ∧
        token.isIdent head = true ∧ IsBalanced inner ∧ parenDepth? depth after = some 0 ∧
        callAt? head tail token rest = some (Call.ofTokens inner, after) ∧
        callAt? head tail token (rest ++ back) = some (Call.ofTokens inner, after ++ back) := by
  unfold callAt?
  by_cases named : token.isIdent head = true
  · rw [if_pos named, if_pos named]
    have ident : token.kind = .ident := by rw [eq_of_isIdent named]
    rw [parenDepth?_cons_ident ident] at ends
    rcases afterPath?_scope path closes ends with
      ⟨missing, onward⟩ | ⟨skipped, args, restEq, argsEnd, found, onward⟩
    · exact Or.inl ⟨by rw [missing]; rfl, by rw [onward]; rfl⟩
    · rw [found, onward]
      rcases parenthesized?_scope argsEnd fun other first => (closes.not_ident other first).2.2 with
        ⟨missing, onward⟩ | ⟨before, inner, closing, after, argsEq, balanced, afterEnds, found, onward⟩
      · exact Or.inl ⟨by simp [missing], by simp [onward]⟩
      · refine Or.inr ⟨skipped ++ before, inner, closing, after, ?_, named, balanced, afterEnds, ?_, ?_⟩
        · rw [restEq, argsEq]
          simp
        · simp [found]
        · simp [onward]
  · rw [if_neg named, if_neg named]
    exact Or.inl ⟨rfl, rfl⟩

/-- The tokens that take the place of a call together with what follows it. -/
def replaced? (head : String) (tail : List String) (replacement : Call → Option Text)
    (afterDot : Bool) (token : Token) (rest : List Token) : Option (List Token) :=
  if afterDot then none
  else (callAt? head tail token rest).bind fun (call, after) =>
    (replacement call).map fun text => tokenize text ++ after

/-- What a text put in place of a call has to be cut into, so that nothing around it changes. -/
structure IsReplacement (head : String) (inner made : List Token) : Prop where
  code : IsFragment made
  balanced : IsBalanced made
  start : ∃ first more c text, made = first :: more ∧ first.text = c :: text ∧ isCallStart c = true
  finish : made.getLast? = some ⟨.punct, [')']⟩
  fewer : made.countP (·.isIdent head) ≤ inner.countP (·.isIdent head)

def Replaces (head : String) (replacement : Call → Option Text) : Prop :=
  ∀ inner text, IsFragment inner → IsBalanced inner →
    replacement (Call.ofTokens inner) = some text →
      ∃ made, text = render made ∧ IsReplacement head inner made

section

variable {head : String} {tail : List String} {replacement : Call → Option Text}

theorem replaceWithin_cons_replace {afterDot : Bool} {token first : Token}
    {rest more : List Token}
    (found : replaced? head tail replacement afterDot token rest = some (first :: more))
    (budget : Nat) :
    replaceWithin head tail replacement (budget + 1) afterDot (token :: rest) =
      first :: replaceWithin head tail replacement budget (isDotNext afterDot first) more := by
  rw [replaceWithin]
  unfold replaced? at found
  simp only [found]

/-- The first token is replaced, which costs some of the budget, or it stays. -/
theorem replaceWithin_cons (budget : Nat) (afterDot : Bool) (token : Token) (rest : List Token) :
    (∃ smaller first more, budget = smaller + 1 ∧
      replaced? head tail replacement afterDot token rest = some (first :: more) ∧
      replaceWithin head tail replacement budget afterDot (token :: rest) =
        first :: replaceWithin head tail replacement smaller (isDotNext afterDot first) more) ∨
    replaceWithin head tail replacement budget afterDot (token :: rest) =
      token :: replaceWithin head tail replacement budget (isDotNext afterDot token) rest := by
  by_cases replaces : ∃ smaller first more, budget = smaller + 1 ∧
      replaced? head tail replacement afterDot token rest = some (first :: more)
  · obtain ⟨smaller, first, more, rfl, found⟩ := replaces
    exact Or.inl ⟨smaller, first, more, rfl, found, replaceWithin_cons_replace found smaller⟩
  · refine Or.inr ?_
    rw [replaceWithin]
    rintro smaller first more rfl found
    exact replaces ⟨smaller, first, more, rfl, found⟩

theorem replaceWithin_cons_keep {afterDot : Bool} {token : Token} {rest : List Token}
    (missing : replaced? head tail replacement afterDot token rest = none) (budget : Nat) :
    replaceWithin head tail replacement budget afterDot (token :: rest) =
      token :: replaceWithin head tail replacement budget (isDotNext afterDot token) rest := by
  refine (replaceWithin_cons budget afterDot token rest).resolve_left ?_
  rintro ⟨_, _, _, _, found, -⟩
  rw [missing] at found
  cases found

theorem callAt?_of_not_isIdent {token : Token} (other : token.isIdent head = false)
    (rest : List Token) : callAt? head tail token rest = none := by
  rw [callAt?, other, if_neg Bool.false_ne_true]

theorem replaced?_of_callAt? {token : Token} {rest : List Token}
    (missing : callAt? head tail token rest = none) (afterDot : Bool) :
    replaced? head tail replacement afterDot token rest = none := by
  rw [replaced?, missing, Option.bind_none, ite_self]

theorem replaced?_of_not_isIdent {token : Token} (other : token.isIdent head = false)
    (afterDot : Bool) (rest : List Token) :
    replaced? head tail replacement afterDot token rest = none :=
  replaced?_of_callAt? (callAt?_of_not_isIdent other rest) afterDot

/-- Tokens in which no call starts stay as they are. -/
theorem replaceWithin_of_uncalled {tokens : List Token}
    (uncalled : ∀ token rest, token :: rest <:+ tokens → callAt? head tail token rest = none)
    (budget : Nat) (afterDot : Bool) :
    replaceWithin head tail replacement budget afterDot tokens = tokens := by
  induction tokens generalizing afterDot with
  | nil => rw [replaceWithin]
  | cons token rest ih =>
      have missing := uncalled token rest (List.suffix_refl _)
      rw [replaceWithin_cons_keep (replaced?_of_callAt? missing afterDot),
        ih fun other more suffix => uncalled other more (suffix.trans (List.suffix_cons token rest))]

theorem replaceWithin_of_absent {tokens : List Token}
    (absent : ∀ token ∈ tokens, token.isIdent head = false) (budget : Nat) (afterDot : Bool) :
    replaceWithin head tail replacement budget afterDot tokens = tokens :=
  replaceWithin_of_uncalled (fun token rest suffix =>
    callAt?_of_not_isIdent (absent token (suffix.mem List.mem_cons_self)) rest) budget afterDot

/-- A call that is replaced leaves a fragment with one use of the name less behind the token that the
search goes on after. -/
theorem replaced?_scope (replaces : Replaces head replacement) (path : IsPath tail)
    {back : List Token} (closes : Closes back) {depth : Nat} {token : Token} {rest : List Token}
    (code : IsFragment (token :: rest)) (ends : parenDepth? depth (token :: rest) = some 0)
    (afterDot : Bool) :
    (replaced? head tail replacement afterDot token rest = none ∧
        replaced? head tail replacement afterDot token (rest ++ back) = none) ∨
      ∃ first left, token.kind = .ident ∧
        replaced? head tail replacement afterDot token rest = some (first :: left) ∧
        replaced? head tail replacement afterDot token (rest ++ back) =
          some (first :: (left ++ back)) ∧
        IsFragment (first :: left) ∧ parenDepth? depth (first :: left) = some 0 ∧
        (∃ c text, first.text = c :: text ∧ isCallStart c = true) ∧
        left.countP (·.isIdent head) < (token :: rest).countP (·.isIdent head) := by
  unfold replaced?
  cases afterDot with
  | true => exact Or.inl ⟨rfl, rfl⟩
  | false =>
      rcases callAt?_scope head path closes ends with
        ⟨missing, onward⟩ | ⟨skipped, inner, closing, after, restEq, named, balanced, afterEnds,
          found, onward⟩
      · exact Or.inl ⟨by rw [missing]; rfl, by rw [onward]; rfl⟩
      rw [found, onward]
      have innerCode : IsFragment inner :=
        code.tail.part ⟨skipped, closing :: after, by rw [restEq]⟩
      have afterCode : IsFragment after :=
        code.tail.part ⟨skipped ++ inner ++ [closing], [], by simp [restEq]⟩
      cases text? : replacement (Call.ofTokens inner) with
      | none => exact Or.inl ⟨by simp [text?], by simp [text?]⟩
      | some text =>
          obtain ⟨made, rfl, ready⟩ := replaces inner text innerCode balanced text?
          obtain ⟨first, more, c, firstText, rfl, textEq, start⟩ := ready.start
          have sameCut := ready.code.cut.tokenize_render
          refine Or.inr ⟨first, more ++ after, by rw [eq_of_isIdent named], ?_, ?_, ?_, ?_,
            ⟨c, firstText, textEq, start⟩, ?_⟩
          · simp only [Bool.false_eq_true, ↓reduceIte, Option.bind_some, text?, Option.map_some,
              sameCut, List.cons_append]
          · simp only [Bool.false_eq_true, ↓reduceIte, Option.bind_some, text?, Option.map_some,
              sameCut, List.cons_append, List.append_assoc]
          · rw [← List.cons_append]
            refine ready.code.append afterCode fun last isLast next _ d _ => ?_
            obtain rfl : ⟨.punct, [')']⟩ = last := by simpa [ready.finish] using isLast
            exact delimiter_endsBefore rfl d
          · have madeEnds : parenDepth? (0 + depth) (first :: more) = some (0 + depth) :=
              parenDepth?_add ready.balanced depth
            rw [Nat.zero_add] at madeEnds
            rw [← List.cons_append, parenDepth?_append, madeEnds, Option.bind_some, afterEnds]
          · have fewer := ready.fewer
            rw [List.countP_cons] at fewer
            rw [restEq, List.countP_cons, if_pos named]
            simp only [List.countP_append, List.countP_cons]
            omega

/-- The search for calls in a fragment does not look at the tokens after it, and it makes a fragment
again. A budget of as many replacements as the name is used is as good as any other; what is left of it is
for the tokens after the fragment. -/
theorem replaceWithin_scope (replaces : Replaces head replacement) (path : IsPath tail)
    {back : List Token} (closes : Closes back) (afterDot : Bool) {budget wide : Nat}
    {depth : Nat} {tokens : List Token} (code : IsFragment tokens)
    (ends : parenDepth? depth tokens = some 0)
    (enough : tokens.countP (·.isIdent head) ≤ budget)
    (wideEnough : tokens.countP (·.isIdent head) ≤ wide) :
    (∃ left dot, wide ≤ left + tokens.countP (·.isIdent head) ∧
      replaceWithin head tail replacement wide afterDot (tokens ++ back) =
        replaceWithin head tail replacement budget afterDot tokens ++
          replaceWithin head tail replacement left dot back) ∧
      IsScoped depth tokens (replaceWithin head tail replacement budget afterDot tokens) := by
  induction budget using Nat.strongRecOn generalizing wide afterDot depth tokens with
  | ind budget ihBudget =>
      induction tokens generalizing afterDot depth with
      | nil =>
          have nothing : replaceWithin head tail replacement budget afterDot [] = [] := by
            rw [replaceWithin]
          rw [nothing]
          exact ⟨⟨wide, afterDot, Nat.le_add_right _ _, rfl⟩, IsScoped.nil ends⟩
      | cons token rest ih =>
          rcases replaced?_scope replaces path closes code ends afterDot with
            ⟨missing, onward⟩ | ⟨first, more, ident, found, onward, moreCode, moreEnds, start, fewer⟩
          · rw [List.cons_append, replaceWithin_cons_keep onward, replaceWithin_cons_keep missing]
            obtain ⟨inside, step⟩ := parenDepth?_step ends
            rw [List.countP_cons] at enough wideEnough ⊢
            obtain ⟨⟨left, dot, spent, same⟩, within⟩ := ih (isDotNext afterDot token) code.tail
              (by rw [← step, ends]) (by omega) (by omega)
            exact ⟨⟨left, dot, by omega, by rw [same, List.cons_append]⟩,
              IsScoped.cons code step within⟩
          · obtain ⟨smaller, rfl⟩ : ∃ smaller, budget = smaller + 1 := ⟨budget - 1, by omega⟩
            obtain ⟨narrower, rfl⟩ : ∃ narrower, wide = narrower + 1 := ⟨wide - 1, by omega⟩
            rw [List.cons_append, replaceWithin_cons_replace onward,
              replaceWithin_cons_replace found]
            obtain ⟨inside, step⟩ := parenDepth?_step moreEnds
            obtain ⟨⟨left, dot, spent, same⟩, within⟩ := ihBudget smaller (Nat.lt_succ_self _)
              (isDotNext afterDot first) moreCode.tail (by rw [← step, moreEnds]) (by omega)
              (show more.countP (·.isIdent head) ≤ narrower by omega)
            have scope := IsScoped.cons moreCode step within
            refine ⟨⟨left, dot, by omega, by rw [same, List.cons_append]⟩, scope.code, scope.ends, ?_⟩
            intro before whole meets next atFirst
            obtain rfl : first = next := by simpa using atFirst
            obtain ⟨c, text, textEq, callStart⟩ := start
            exact Token.Meets.of_callStart (meets token rfl) whole
              (code.cut.whole token List.mem_cons_self) ident textEq callStart

theorem replaceWithin_frame_append {front : List Token}
    (frames : ∀ token ∈ front, isFrame token = true)
    (absent : ∀ token ∈ front, token.isIdent head = false) (budget : Nat) (tokens : List Token) :
    replaceWithin head tail replacement budget false (front ++ tokens) =
      front ++ replaceWithin head tail replacement budget false tokens := by
  induction front with
  | nil => rfl
  | cons token rest ih =>
      have noDot : isDotNext false token = false := by
        have notDot : token.isPunct "." = false :=
          eq_false_of_isFrame (fun _ => rfl) (by decide) (frames token List.mem_cons_self)
        rw [isDotNext, notDot, ite_self]
      rw [List.cons_append, replaceWithin_cons_keep
          (replaced?_of_not_isIdent (absent token List.mem_cons_self) false (rest ++ tokens)),
        noDot, ih (fun other member => frames other (List.mem_cons_of_mem _ member))
          (fun other member => absent other (List.mem_cons_of_mem _ member)), List.cons_append]

/-- A closing parenthesis ends a path of methods. -/
theorem replaceWithin_closing_append {trail after : List Token}
    (trivia : ∀ token ∈ trail, token.isTrivia = true)
    (frames : ∀ token ∈ after, isFrame token = true)
    (absent : ∀ token ∈ after, token.isIdent head = false) (budget : Nat) (afterDot : Bool)
    (tokens : List Token) :
    replaceWithin head tail replacement budget afterDot
        (trail ++ ⟨.punct, ")".toList⟩ :: (after ++ tokens)) =
      trail ++ ⟨.punct, ")".toList⟩ ::
        (after ++ replaceWithin head tail replacement budget false tokens) := by
  induction trail with
  | nil =>
      rw [List.nil_append, replaceWithin_cons_keep (replaced?_of_not_isIdent rfl afterDot _),
        show isDotNext afterDot ⟨.punct, ")".toList⟩ = false from rfl,
        replaceWithin_frame_append frames absent, List.nil_append]
  | cons token rest ih =>
      have isTrivia := trivia token List.mem_cons_self
      have notWord : token.isIdent head = false := by
        by_contra word
        rw [Bool.not_eq_false] at word
        rw [eq_of_isIdent word] at isTrivia
        cases isTrivia
      rw [List.cons_append, replaceWithin_cons_keep (replaced?_of_not_isIdent notWord afterDot _),
        show isDotNext afterDot token = afterDot by rw [isDotNext, if_pos isTrivia],
        ih fun other member => trivia other (List.mem_cons_of_mem _ member), List.cons_append]

end

/-- A rule that makes a fragment with closed parentheses of such a fragment, wherever it stands between
the tokens of a frame, and also of a second one behind a closing parenthesis. -/
structure IsLocal (rule : List Token → List Token) : Prop where
  keeps : ∀ {tokens}, IsFragment tokens → IsBalanced tokens →
    IsFragment (rule tokens) ∧ IsBalanced (rule tokens)
  inside : ∀ {front tokens back}, IsFragment tokens → IsBalanced tokens →
    (∀ token ∈ front, isFrame token = true) → (∀ token ∈ back, isFrame token = true) →
    Closes back → rule (front ++ tokens ++ back) = front ++ rule tokens ++ back
  beside : ∀ {front first trail after second back}, IsFragment first → IsBalanced first →
    IsFragment second → IsBalanced second → (∀ token ∈ front, isFrame token = true) →
    (∀ token ∈ trail, token.isTrivia = true ∧ isFrame token = true) →
    (∀ token ∈ after, isFrame token = true) → (∀ token ∈ back, isFrame token = true) →
    Closes back →
    rule (front ++ first ++ (trail ++ ⟨.punct, ")".toList⟩ :: (after ++ (second ++ back)))) =
      front ++ rule first ++
        (trail ++ ⟨.punct, ")".toList⟩ :: (after ++ (rule second ++ back)))

theorem IsLocal.comp {first second : List Token → List Token} (secondLocal : IsLocal second)
    (firstLocal : IsLocal first) : IsLocal fun tokens => second (first tokens) := by
  refine ⟨fun code balanced => ?_, fun code balanced frames backFrames closes => ?_,
    fun code balanced otherCode otherBalanced frames trivia afterFrames backFrames closes => ?_⟩
  · obtain ⟨firstCode, firstBalanced⟩ := firstLocal.keeps code balanced
    exact secondLocal.keeps firstCode firstBalanced
  · obtain ⟨firstCode, firstBalanced⟩ := firstLocal.keeps code balanced
    rw [firstLocal.inside code balanced frames backFrames closes,
      secondLocal.inside firstCode firstBalanced frames backFrames closes]
  · obtain ⟨firstCode, firstBalanced⟩ := firstLocal.keeps code balanced
    obtain ⟨otherMade, otherEnds⟩ := firstLocal.keeps otherCode otherBalanced
    rw [firstLocal.beside code balanced otherCode otherBalanced frames trivia afterFrames backFrames
        closes,
      secondLocal.beside firstCode firstBalanced otherMade otherEnds frames trivia afterFrames
        backFrames closes]

theorem closes_closing_append {trail : List Token} (trivia : ∀ token ∈ trail, token.isTrivia = true)
    (tokens : List Token) : Closes (trail ++ ⟨.punct, ")".toList⟩ :: tokens) := by
  intro token first
  rw [dropTrivia, List.dropWhile_append_of_pos trivia, List.dropWhile_cons_of_neg (by decide)]
    at first
  obtain rfl := Option.some.inj first
  exact Or.inl rfl

theorem stripTypes_isLocal : IsLocal (stripTypes false) := by
  have backSame {back : List Token} (frames : ∀ token ∈ back, isFrame token = true) :
      stripTypes false back = back := by
    have same := stripTypes_frame_append frames []
    rwa [List.append_nil, stripTypes, List.append_nil] at same
  refine ⟨fun code balanced => ?_, fun code balanced frames backFrames closes => ?_,
    fun {_ _ _ after _ _} code balanced otherCode otherBalanced frames trivia afterFrames backFrames
      closes => ?_⟩
  · obtain ⟨made, ends, -⟩ := stripTypes_isScoped false code balanced (by simp)
    exact ⟨made, ends⟩
  · rw [List.append_assoc, stripTypes_frame_append frames,
      stripTypes_append closes (by simp), backSame backFrames, List.append_assoc]
  · have closing : isFrame ⟨.punct, ")".toList⟩ = true := rfl
    rw [List.append_assoc, stripTypes_frame_append frames,
      stripTypes_append (closes_closing_append (fun token member => (trivia token member).1) _)
        (by simp),
      stripTypes_frame_append fun token member => (trivia token member).2, List.append_assoc]
    have group := @stripTypes_frame_append (_ :: after)
      (List.forall_mem_cons.mpr ⟨closing, afterFrames⟩)
    rw [← List.cons_append, group, stripTypes_append closes (by simp), backSame backFrames,
      List.cons_append]

theorem replaceCalls_isLocal {head : String} {tail : List String}
    {replacement : Call → Option Text} (replaces : Replaces head replacement) (path : IsPath tail)
    (callee : ∀ token, isFrame token = true → token.isIdent head = false) :
    IsLocal (replaceCalls head tail replacement) := by
  have enough {tokens : List Token} (code : IsFragment tokens) :
      tokens.countP (·.isIdent head) ≤ (render tokens).length :=
    List.countP_le_length.trans code.length_le
  refine ⟨fun {tokens} code balanced => ?_,
    fun {front tokens back} code balanced frames backFrames closes => ?_,
    fun {front first trail after second back} code balanced otherCode otherBalanced frames trivia
      afterFrames backFrames closes => ?_⟩
  · have nothing : Closes [] := fun token first => by cases first
    have within := (replaceWithin_scope replaces path nothing false code balanced (enough code)
      (enough code)).2
    exact ⟨within.code, within.ends⟩
  · have wideEnough : tokens.countP (·.isIdent head) ≤
        (render (front ++ tokens ++ back)).length := by
      have least := enough code
      rw [render_append, render_append, List.length_append, List.length_append]
      omega
    obtain ⟨⟨left, dot, -, same⟩, -⟩ := replaceWithin_scope replaces path closes false code balanced
      (enough code) wideEnough
    rw [replaceWithin_of_absent fun token member => callee token (backFrames token member)] at same
    rw [replaceCalls, replaceCalls]
    rw [List.append_assoc] at same ⊢
    rw [replaceWithin_frame_append frames fun token member => callee token (frames token member),
      same, List.append_assoc]
  · have absent {frame : List Token} (frames : ∀ token ∈ frame, isFrame token = true) :
        ∀ token ∈ frame, token.isIdent head = false :=
      fun token member => callee token (frames token member)
    have room : first.countP (·.isIdent head) + second.countP (·.isIdent head) ≤
        (render (front ++ first ++
          (trail ++ ⟨.punct, ")".toList⟩ :: (after ++ (second ++ back))))).length := by
      have firstLeast := enough code
      have secondLeast := enough otherCode
      simp only [render_append, render_cons, List.length_append]
      omega
    obtain ⟨⟨left, dot, spent, firstSame⟩, -⟩ := replaceWithin_scope replaces path
      (closes_closing_append (fun token member => (trivia token member).1)
        (after ++ (second ++ back))) false code balanced (enough code)
      (Nat.le_trans (Nat.le_add_right _ _) room)
    obtain ⟨⟨rest, otherDot, -, secondSame⟩, -⟩ := replaceWithin_scope replaces path closes false
      otherCode otherBalanced (enough otherCode)
      (show second.countP (·.isIdent head) ≤ left by omega)
    rw [replaceWithin_of_absent (absent backFrames)] at secondSame
    rw [replaceWithin_closing_append (fun token member => (trivia token member).1) afterFrames
      (absent afterFrames), secondSame] at firstSame
    rw [replaceCalls, replaceCalls, replaceCalls]
    rw [List.append_assoc] at firstSame ⊢
    rw [replaceWithin_frame_append frames (absent frames), firstSame, List.append_assoc]

end Breadboard.Script
