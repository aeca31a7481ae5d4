import Breadboard.Proofs.Script.Definition
import Breadboard.Proofs.Script.HeaderLine
import Breadboard.Proofs.Sketch.LiteralCode

set_option autoImplicit false

namespace Breadboard.Script

open Sketch hiding stripComments

/-- The value of `end` in the script's form of `Serial.print`. -/
def endLiteral : Token := ⟨.literal, "\"\"".toList⟩

/-- The literals `kept` come in `found` in their order, and besides them `extra` once for each of `count`
calls. -/
structure Supplemented (extra : List Token) (count : Nat) (kept found : List Token) : Prop where
  inOrder : kept.Sublist found
  added : found.Perm ((List.replicate count extra).flatten ++ kept)

namespace Supplemented

variable {extra kept found front before after : List Token} {count : Nat}

theorem refl (extra kept : List Token) : Supplemented extra 0 kept kept :=
  ⟨.refl _, .refl _⟩

theorem append (more : Supplemented extra count kept found) (front : List Token) :
    Supplemented extra count (front ++ kept) (front ++ found) := by
  refine ⟨more.inOrder.append_left front, (more.added.append_left front).trans ?_⟩
  rw [← List.append_assoc, ← List.append_assoc]
  exact List.perm_append_comm.append_right kept

theorem insert (more : Supplemented extra count (before ++ (extra ++ after)) found) :
    Supplemented extra (count + 1) (before ++ after) found := by
  refine ⟨((List.sublist_append_right extra after).append_left before).trans more.inOrder,
    more.added.trans ?_⟩
  rw [List.replicate_succ', List.flatten_append, List.flatten_singleton, List.append_assoc]
  refine List.Perm.append_left _ ?_
  rw [← List.append_assoc, ← List.append_assoc]
  exact List.perm_append_comm.append_right after

theorem eq_of_nothing (same : Supplemented [] count kept found) : found = kept := by
  have length := same.added.length_eq
  rw [List.flatten_replicate_nil, List.nil_append] at length
  exact (same.inOrder.eq_of_length length.symm).symm

end Supplemented

section

variable {head : String} {tail : List String} {replacement : Call → Option Text}

/-- A run of a rule over the tokens, behind a dot or not, and the number of calls that it rewrites. If it
is thorough, it leaves no call as it is. -/
inductive Rewrites (head : String) (tail : List String) (replacement : Call → Option Text)
    (thorough : Bool) : Bool → List Token → Nat → List Token → Prop where
  | nil {afterDot : Bool} : Rewrites head tail replacement thorough afterDot [] 0 []
  | keep {afterDot : Bool} {token : Token} {rest made : List Token} {count : Nat}
      (missing : thorough = true → replaced? head tail replacement afterDot token rest = none)
      (onward : Rewrites head tail replacement thorough (isDotNext afterDot token) rest count made) :
      Rewrites head tail replacement thorough afterDot (token :: rest) count (token :: made)
  | call {afterDot : Bool} {token first : Token} {rest more made : List Token} {count : Nat}
      (found : replaced? head tail replacement afterDot token rest = some (first :: more))
      (onward : Rewrites head tail replacement thorough (isDotNext afterDot first) more count made) :
      Rewrites head tail replacement thorough afterDot (token :: rest) (count + 1) (first :: made)

/-- The text in place of a call is read with the literals between the parentheses and then these. -/
structure IsSplice (extra inner : List Token) (text : Text) : Prop where
  reads : ReadsAs text (literals inner ++ extra)
  opens : OpensCode text
  ends : text.getLast? = some ')'

/-- The rule puts such a text in place of each call. -/
def Splices (extra : List Token) (replacement : Call → Option Text) : Prop :=
  ∀ inner text, IsCode inner → replacement (Call.ofTokens inner) = some text →
    IsSplice extra inner text

/-- Behind the first token put in place of a call less text is left than before. -/
def Shrinks (head : String) (tail : List String) (replacement : Call → Option Text) : Prop :=
  ∀ afterDot token rest made, replaced? head tail replacement afterDot token rest = some made →
    ∃ first more, made = first :: more ∧ (render more).length < (render (token :: rest)).length

/-- The search for calls is a run of the rule. It is thorough if its budget lasts. -/
theorem exists_rewrites {thorough : Bool} {budget : Nat} {tokens : List Token}
    (lasts : thorough = true →
      Shrinks head tail replacement ∧ (render tokens).length ≤ budget) (afterDot : Bool) :
    ∃ count, Rewrites head tail replacement thorough afterDot tokens count
      (replaceWithin head tail replacement budget afterDot tokens) := by
  induction budget using Nat.strongRecOn generalizing afterDot tokens with
  | ind budget ihBudget =>
      induction tokens generalizing afterDot with
      | nil =>
          rw [replaceWithin]
          exact ⟨0, .nil⟩
      | cons token rest ih =>
          have restLasts : thorough = true →
              Shrinks head tail replacement ∧ (render rest).length ≤ budget := fun isThorough => by
            obtain ⟨shrinks, enough⟩ := lasts isThorough
            rw [render_cons, List.length_append] at enough
            exact ⟨shrinks, by omega⟩
          by_cases called : ∃ smaller first more, budget = smaller + 1 ∧
              replaced? head tail replacement afterDot token rest = some (first :: more)
          · obtain ⟨smaller, first, more, rfl, found⟩ := called
            rw [replaceWithin_cons_replace found]
            have moreLasts : thorough = true →
                Shrinks head tail replacement ∧ (render more).length ≤ smaller := fun isThorough => by
              obtain ⟨shrinks, enough⟩ := lasts isThorough
              obtain ⟨_, _, same, shorter⟩ := shrinks _ _ _ _ found
              obtain ⟨-, rfl⟩ := List.cons.inj same
              exact ⟨shrinks, by omega⟩
            obtain ⟨count, run⟩ :=
              ihBudget smaller (Nat.lt_succ_self smaller) moreLasts (isDotNext afterDot first)
            exact ⟨count + 1, .call found run⟩
          · have kept := (replaceWithin_cons budget afterDot token rest).resolve_left (by
              rintro ⟨smaller, first, more, isBudget, found, -⟩
              exact called ⟨smaller, first, more, isBudget, found⟩)
            rw [kept]
            obtain ⟨count, run⟩ := ih restLasts (isDotNext afterDot token)
            refine ⟨count, .keep (fun isThorough => ?_) run⟩
            cases found : replaced? head tail replacement afterDot token rest with
            | none => rfl
            | some made =>
                obtain ⟨shrinks, enough⟩ := lasts isThorough
                obtain ⟨first, more, rfl, shorter⟩ := shrinks _ _ _ _ found
                exact absurd ⟨budget - 1, first, more, by omega, found⟩ called

/-- What a thorough run starts from decides how many calls it rewrites. -/
theorem Rewrites.count_eq {afterDot : Bool} {tokens made others : List Token} {count other : Nat}
    (run : Rewrites head tail replacement true afterDot tokens count made)
    (again : Rewrites head tail replacement true afterDot tokens other others) : other = count := by
  induction run generalizing other others with
  | nil =>
      cases again
      rfl
  | keep missing _ ih =>
      cases again with
      | keep _ onward => exact ih onward
      | call found _ =>
          rw [missing rfl] at found
          cases found
  | call found _ ih =>
      cases again with
      | keep missing _ =>
          rw [missing rfl] at found
          cases found
      | call same onward =>
          obtain ⟨rfl, rfl⟩ := List.cons.inj (Option.some.inj (found.symm.trans same))
          rw [ih onward]

theorem afterPath?_eq_some {parts : List String} {tokens after : List Token}
    (found : afterPath? parts tokens = some after) :
    ∃ path, tokens = path ++ after ∧
      (∀ token ∈ path, token.isTrivia = true ∨ ∃ part ∈ parts, token.text = part.toList) ∧
      (parts.flatMap String.toList).length ≤ (render path).length := by
  induction parts generalizing tokens with
  | nil =>
      obtain rfl := Option.some.inj found
      exact ⟨[], rfl, by simp, Nat.le_refl 0⟩
  | cons part parts ih =>
      obtain ⟨lead, split, trivia⟩ := exists_trivia_append tokens
      rw [afterPath?] at found
      split at found
      · cases found
      · rename_i token rest dropped
        obtain ⟨textEq, onward⟩ := Option.ite_none_right_eq_some.mp found
        obtain ⟨path, rfl, isPath, long⟩ := ih onward
        refine ⟨lead ++ token :: path, by rw [split, dropped]; simp, fun other member => ?_, ?_⟩
        · rcases List.mem_append.mp member with inLead | inPath
          · exact Or.inl (trivia other inLead)
          · rcases List.mem_cons.mp inPath with rfl | later
            · exact Or.inr ⟨part, List.mem_cons_self, textEq⟩
            · refine (isPath other later).imp_right ?_
              rintro ⟨named, inParts, eq⟩
              exact ⟨named, List.mem_cons_of_mem _ inParts, eq⟩
        · simp only [List.flatMap_cons, render_append, render_cons, List.length_append, textEq]
          omega

/-- The tokens of a call: its path, its parentheses and what stands between them. -/
theorem callAt?_eq_some {token : Token} {rest after : List Token} {call : Call}
    (called : callAt? head tail token rest = some (call, after)) :
    token = ⟨.ident, head.toList⟩ ∧ ∃ path inner, call = Call.ofTokens inner ∧
      rest = path ++ openParen :: (inner ++ closeParen :: after) ∧
      (∀ other ∈ path, other.isTrivia = true ∨ ∃ part ∈ tail, other.text = part.toList) ∧
      (tail.flatMap String.toList).length ≤ (render path).length := by
  rw [callAt?] at called
  obtain ⟨named, called⟩ := Option.ite_none_right_eq_some.mp called
  obtain ⟨args, onPath, called⟩ := Option.bind_eq_some_iff.mp called
  obtain ⟨⟨inner, behind⟩, group, made⟩ := Option.bind_eq_some_iff.mp called
  obtain ⟨rfl, rfl⟩ := Prod.mk.inj (Option.some.inj made)
  obtain ⟨path, rfl, isPath, long⟩ := afterPath?_eq_some onPath
  obtain ⟨lead, trivia, -, rfl⟩ := parenthesized?_eq_some.mp group
  refine ⟨eq_of_isIdent named, path ++ lead, inner, rfl, by simp, fun other member => ?_, ?_⟩
  · rcases List.mem_append.mp member with inPath | inLead
    · exact isPath other inPath
    · exact Or.inl (trivia other inLead)
  · rw [render_append, List.length_append]
    omega

/-- No part of the path could be a literal. -/
def IsQuoteless (tail : List String) : Prop :=
  (tail.all fun part => part.toList.all (!isQuote ·)) = true

theorem literals_path {path : List Token} (code : IsCode path) (quoteless : IsQuoteless tail)
    (isPath : ∀ token ∈ path, token.isTrivia = true ∨ ∃ part ∈ tail, token.text = part.toList) :
    literals path = [] := by
  refine literals_eq_nil fun token member literal => ?_
  rcases isPath token member with trivia | ⟨part, inTail, textEq⟩
  · exact kind_ne_literal_of_isTrivia trivia literal
  · cases code.whole token member with
    | @literal quote rest start _ =>
        have noQuote := List.all_eq_true.mp (List.all_eq_true.mp quoteless part inTail) quote
          (by rw [← textEq]; exact List.mem_cons_self)
        rw [start] at noQuote
        cases noQuote
    | code other _ _ => exact other literal

/-- What takes the place of a call and of what follows it is code again, with the literals of the call and
then the rule's own. -/
theorem replaced?_code {extra : List Token} (splices : Splices extra replacement)
    (quoteless : IsQuoteless tail) {afterDot : Bool} {token : Token} {rest made : List Token}
    (code : IsCode (token :: rest))
    (found : replaced? head tail replacement afterDot token rest = some made) :
    IsCode made ∧ OpensCode (render made) ∧ ∃ before after,
      literals (token :: rest) = before ++ after ∧ literals made = before ++ (extra ++ after) := by
  rw [replaced?] at found
  obtain ⟨-, found⟩ := Option.ite_none_left_eq_some.mp found
  obtain ⟨⟨call, after⟩, called, found⟩ := Option.bind_eq_some_iff.mp found
  obtain ⟨text, isText, rfl⟩ := Option.map_eq_some_iff.mp found
  obtain ⟨rfl, path, inner, rfl, rfl, isPath, -⟩ := callAt?_eq_some called
  have part {piece : List Token}
      (inside : piece <:+: path ++ openParen :: (inner ++ closeParen :: after)) : IsCode piece :=
    code.part (inside.trans (List.suffix_cons _ _).isInfix)
  have pathCode : IsCode path := part ⟨[], openParen :: (inner ++ closeParen :: after), rfl⟩
  have innerCode : IsCode inner := part ⟨path ++ [openParen], closeParen :: after, by simp⟩
  have afterCode : IsCode after := part ⟨path ++ openParen :: (inner ++ [closeParen]), [], by simp⟩
  obtain ⟨reads, opens, ends⟩ := splices inner text innerCode isText
  obtain ⟨madeCode, madeLiterals⟩ := reads.isCode
  have notEmpty : text ≠ [] := by
    rintro rfl
    cases ends
  refine ⟨madeCode.append afterCode ?_, ?_, literals inner, literals after, ?_, ?_⟩
  · -- The text ends with a parenthesis, so its last token is no slash.
    rintro ⟨last, isLast, slash⟩
    have whole := render_tokenize text
    obtain ⟨front, cut⟩ := List.getLast?_eq_some_iff.mp isLast
    rw [cut, render_append, render_cons, slash, render_nil] at whole
    rw [← whole] at ends
    simp at ends
  · rw [render_append, render_tokenize, opensCode_append_iff notEmpty]
    exact opens
  · rw [literals_cons_other (by simp), literals_append, literals_path pathCode quoteless isPath,
      literals_cons_other (by simp [openParen]), literals_append,
      literals_cons_other (by simp [closeParen]), List.nil_append]
  · rw [literals_append, madeLiterals, List.append_assoc]

/-- A run of the rule leaves code, with the rule's own literals for each call that it rewrites. -/
theorem Rewrites.code {extra : List Token} (splices : Splices extra replacement)
    (quoteless : IsQuoteless tail) {thorough afterDot : Bool} {tokens made : List Token} {count : Nat}
    (run : Rewrites head tail replacement thorough afterDot tokens count made)
    (code : IsCode tokens) :
    IsCode made ∧ (OpensCode (render tokens) → OpensCode (render made)) ∧
      Supplemented extra count (literals tokens) (literals made) := by
  induction run with
  | nil => exact ⟨code, id, .refl _ _⟩
  | @keep afterDot token rest made count _ _ ih =>
      obtain ⟨whole, start, restCode⟩ := isCode_cons.mp code
      obtain ⟨madeCode, opens, same⟩ := ih restCode
      refine ⟨isCode_cons.mpr ⟨whole, fun slash => opens (start slash), madeCode⟩, ?_, ?_⟩
      · rw [render_cons, render_cons, opensCode_append_iff whole.text_ne_nil,
          opensCode_append_iff whole.text_ne_nil]
        exact id
      · have behind := same.append (literals [token])
        rwa [← literals_append, ← literals_append] at behind
  | @call afterDot token first rest more made count found _ ih =>
      obtain ⟨splicedCode, spliceOpens, before, after, literalsEq, splicedEq⟩ :=
        replaced?_code splices quoteless code found
      obtain ⟨whole, start, moreCode⟩ := isCode_cons.mp splicedCode
      obtain ⟨madeCode, opens, same⟩ := ih moreCode
      refine ⟨isCode_cons.mpr ⟨whole, fun slash => opens (start slash), madeCode⟩, fun _ => ?_, ?_⟩
      · rw [render_cons, opensCode_append_iff whole.text_ne_nil] at spliceOpens ⊢
        exact spliceOpens
      · rw [literalsEq]
        apply Supplemented.insert
        rw [← splicedEq]
        have behind := same.append (literals [first])
        rwa [← literals_append, ← literals_append] at behind

/-- A rule that adds no literal keeps the literals as they are. -/
theorem replaceCalls_code (head : String) {tail : List String} (splices : Splices [] replacement)
    (quoteless : IsQuoteless tail) {tokens : List Token} (code : IsCode tokens) :
    IsCode (replaceCalls head tail replacement tokens) ∧
      literals (replaceCalls head tail replacement tokens) = literals tokens := by
  obtain ⟨count, run⟩ := @exists_rewrites head tail replacement false (render tokens).length tokens
    (fun isThorough => nomatch isThorough) false
  obtain ⟨madeCode, -, same⟩ := run.code splices quoteless code
  exact ⟨madeCode, same.eq_of_nothing⟩

end

section

variable {extra inner : List Token}

theorem opensCode_of_isWordStart {c : Char} (word : isWordStart c = true) (rest : Text) :
    OpensCode (c :: rest) := by
  intro d first
  obtain rfl := Option.some.inj first
  exact ⟨ne_of_holds word rfl, ne_of_holds word rfl⟩

theorem opensCode_of_isScriptName {name : Text} (script : IsScriptName name) {rest : Text}
    (opens : OpensCode rest) : OpensCode (name ++ rest) := by
  cases name with
  | nil => exact opens
  | cons c others => exact opensCode_of_isWordStart (script.start c rfl) (others ++ rest)

theorem plain_of_isScriptName {name : Text} (script : IsScriptName name) :
    name.all isPlainChar = true :=
  List.all_eq_true.mpr fun c member =>
    isPlainChar_of_holds (Bool.and_eq_true_iff.mp (List.all_eq_true.mp script.small c member)).1 rfl

/-- The text of a call that keeps part of the arguments. -/
theorem isSplice_enclose {front part back : Text} {found : List Token}
    (plain : front.all isPlainChar = true) (opens : OpensCode front) (notEmpty : front ≠ [])
    (reads : ReadsAs part found) (same : found = literals inner) (ends : ReadsAs back extra)
    (apart : OpensCode back) (closes : back.getLast? = some ')') :
    IsSplice extra inner (front ++ part ++ back) := by
  refine ⟨?_, ?_, ?_⟩
  · rw [List.append_assoc, ← same]
    exact (reads.append ends apart).plain_append plain
  · rw [List.append_assoc, opensCode_append_iff notEmpty]
    exact opens
  · have backSome : back ≠ [] := by
      rintro rfl
      cases closes
    rw [List.getLast?_append_of_ne_nil _ backSome, closes]

theorem IsCode.readsAs_trim (code : IsCode inner) :
    ReadsAs (Text.trim (render inner)) (literals inner) :=
  code.readsAs.trim

/-- An argument that is a word has no literal. -/
theorem literals_of_word (code : IsCode inner)
    (word : (Text.trim (render inner)).all isWordChar = true) : literals inner = [] := by
  refine (IsCode.readsAs_trim code).read.eq_nil_of_plain (List.all_eq_true.mpr fun c member => ?_)
  exact isPlainChar_of_holds (List.all_eq_true.mp word c member) rfl

/-- The text of a call of a method that keeps no argument. -/
theorem isSplice_named {name back : Text} (script : IsScriptName name) (none : literals inner = [])
    (plain : back.all isPlainChar = true) (opens : OpensCode back) (closes : back.getLast? = some ')') :
    IsSplice [] inner (name ++ back) := by
  refine ⟨?_, opensCode_of_isScriptName script opens, ?_⟩
  · rw [none]
    exact .of_plain (by rw [List.all_append, plain_of_isScriptName script, plain]; rfl)
  · have backSome : back ≠ [] := by
      rintro rfl
      cases closes
    rw [List.getLast?_append_of_ne_nil _ backSome, closes]

theorem arguments_eq_one {source : Text} (one : Sketch.arguments inner = [source]) :
    source = Text.trim (render inner) := by
  unfold Sketch.arguments at one
  split at one
  · cases one
  · obtain ⟨piece, others, piecesEq, sourceEq, rest⟩ := List.map_eq_cons_iff.mp one
    obtain rfl : others = [] := by simpa using rest
    rw [← sourceEq, eq_of_pieces_eq_one piecesEq]

theorem readsAs_closing : ReadsAs ")".toList [] := .of_plain (by decide)

theorem splices_printLine : Splices [] fun call =>
    some ("print(".toList ++ call.inner ++ ")".toList) := by
  intro inner text code found
  obtain rfl := Option.some.inj found
  exact isSplice_enclose (by decide) (opensCode_of_head rfl rfl) (by decide) (IsCode.readsAs_trim code) rfl
    readsAs_closing (opensCode_of_head rfl rfl) rfl

theorem splices_delay : Splices [] fun call =>
    if call.inner.isEmpty then none
    else some ("time.sleep_ms(".toList ++ call.inner ++ ")".toList) := by
  intro inner text code found
  dsimp only at found
  split at found
  · cases found
  · obtain rfl := Option.some.inj found
    exact isSplice_enclose (by decide) (opensCode_of_head rfl rfl) (by decide) (IsCode.readsAs_trim code) rfl
      readsAs_closing (opensCode_of_head rfl rfl) rfl

/-- The script's form of a call of `Serial.print`. -/
def printText (call : Call) : Option Text :=
  if call.inner.isEmpty then some "print(end=\"\")".toList
  else some ("print(".toList ++ call.inner ++ ", end=\"\")".toList)

theorem splices_print : Splices [endLiteral] printText := by
  intro inner text code found
  unfold printText at found
  split at found
  · rename_i nothing
    obtain rfl := Option.some.inj found
    have none : literals inner = [] := by
      refine literals_of_word code ?_
      rw [show Text.trim (render inner) = [] from List.isEmpty_iff.mp nothing]
      rfl
    have fragment : IsFragment [⟨.ident, "end".toList⟩, ⟨.punct, "=".toList⟩, endLiteral,
        ⟨.punct, ")".toList⟩] := isFragment_of_tokenize_eq "end=\"\")".toList (by cbv) (by decide)
    have ends : ReadsAs "end=\"\")".toList [endLiteral] := fragment.cut.isCode.readsAs
    show IsSplice _ _ ("print(".toList ++ [] ++ "end=\"\")".toList)
    exact isSplice_enclose (by decide)
      (opensCode_of_head rfl rfl) (by decide) (.of_plain rfl) none.symm ends
      (opensCode_of_head rfl rfl) rfl
  · obtain rfl := Option.some.inj found
    exact isSplice_enclose (by decide) (opensCode_of_head rfl rfl) (by decide) (IsCode.readsAs_trim code) rfl
      closesCall_end.code.cut.isCode.readsAs (opensCode_of_head rfl rfl) rfl

theorem splices_digitalRead {context : Context} (names : context.HasScriptNames) :
    Splices [] fun call =>
      match call.args with
      | [source] =>
        (digitalName? context.inputNames context.outputNames source).map (· ++ ".value()".toList)
      | _ => none := by
  intro inner text code found
  dsimp only [Call.ofTokens] at found
  split at found
  · rename_i source args
    obtain ⟨name, isName, rfl⟩ := Option.map_eq_some_iff.mp found
    obtain ⟨word, script⟩ := isScriptName_digitalName? names isName
    rw [arguments_eq_one args] at word
    exact isSplice_named script (literals_of_word code word) (by decide) (opensCode_of_head rfl rfl) rfl
  · cases found

theorem splices_analogRead {context : Context} (names : context.HasScriptNames) :
    Splices [] fun call =>
      match call.args with
      | [source] => (analogName? context source).map (· ++ ".read()".toList)
      | _ => none := by
  intro inner text code found
  dsimp only [Call.ofTokens] at found
  split at found
  · rename_i source args
    obtain ⟨name, isName, rfl⟩ := Option.map_eq_some_iff.mp found
    have script := isScriptName_analogName? names isName
    obtain ⟨ref, isRef, -⟩ := Option.map_eq_some_iff.mp isName
    have word := (PinRef.ofText?_eq_some isRef).1
    rw [arguments_eq_one args] at word
    exact isSplice_named script (literals_of_word code word) (by decide) (opensCode_of_head rfl rfl) rfl
  · cases found

/-- The level of a call has the literals of the second argument. -/
theorem readsAs_levelText {second : List Token} (code : IsCode second) :
    ReadsAs (levelText (Text.trim (render second))) (literals second) := by
  have digit {level : Text} (word : level.all isWordChar = true)
      (same : Text.trim (render second) = level) {d : Text} (plain : d.all isPlainChar = true) :
      ReadsAs d (literals second) := by
    rw [literals_of_word code (by rw [same, word])]
    exact .of_plain plain
  unfold levelText
  split
  · rename_i level
    rcases level with same | same | same <;> exact digit (by decide) same (by decide)
  · split
    · rename_i level
      rcases level with same | same | same <;> exact digit (by decide) same (by decide)
    · exact IsCode.readsAs_trim code

theorem splices_digitalWrite {context : Context} (names : context.HasScriptNames) :
    Splices [] fun call =>
      match call.args with
      | [source, level] =>
        (digitalName? context.outputNames context.inputNames source).map fun name =>
          name ++ ".value(".toList ++ levelText level ++ ")".toList
      | _ => none := by
  intro inner text code found
  dsimp only [Call.ofTokens] at found
  split at found
  · rename_i source level args
    obtain ⟨name, isName, rfl⟩ := Option.map_eq_some_iff.mp found
    obtain ⟨word, script⟩ := isScriptName_digitalName? names isName
    obtain ⟨first, comma, second, rfl, isComma, rfl, rfl⟩ := arguments_eq_two args
    have firstCode : IsCode first := code.part ⟨[], comma :: second, rfl⟩
    have secondCode : IsCode second := code.part ⟨first ++ [comma], [], by simp⟩
    refine @isSplice_enclose _ _ (name ++ ".value(".toList) _ _ _ ?_
      (opensCode_of_isScriptName script (opensCode_of_head rfl rfl)) (by simp)
      (readsAs_levelText secondCode) ?_ readsAs_closing (opensCode_of_head rfl rfl) rfl
    · rw [List.all_append, plain_of_isScriptName script]
      decide
    · rw [literals_append, literals_of_word firstCode word, eq_of_isPunct isComma,
        literals_cons_other (by simp), List.nil_append]
  · cases found

end

theorem printText_eq_some {call : Call} {text : Text} (made : printText call = some text) :
    ∃ more, text = "print(".toList ++ more ∧ more.length ≤ call.inner.length + 9 := by
  unfold printText at made
  split at made
  · obtain rfl := Option.some.inj made
    exact ⟨"end=\"\")".toList, rfl, by simp⟩
  · obtain rfl := Option.some.inj made
    exact ⟨call.inner ++ ", end=\"\")".toList, by simp, by simp⟩

/-- The name that is printed with is shorter than the path that is given up for it. -/
theorem shrinks_print : Shrinks "Serial" [".", "print"] printText := by
  intro afterDot token rest made found
  rw [replaced?] at found
  obtain ⟨-, found⟩ := Option.ite_none_left_eq_some.mp found
  obtain ⟨⟨call, after⟩, called, found⟩ := Option.bind_eq_some_iff.mp found
  obtain ⟨text, isText, rfl⟩ := Option.map_eq_some_iff.mp found
  obtain ⟨rfl, path, inner, rfl, rfl, -, long⟩ := callAt?_eq_some called
  obtain ⟨more, rfl, short⟩ := printText_eq_some isText
  have cut := @IsCut.tokenize_render_append _ opensCall_print.code.cut more fun last isLast next _ => by
    obtain rfl := Option.some.inj isLast
    exact delimiter_endsBefore rfl next
  refine ⟨⟨.ident, "print".toList⟩, ⟨.punct, "(".toList⟩ :: tokenize more ++ after,
    congrArg (· ++ after) cut, ?_⟩
  have trimmed : (Call.ofTokens inner).inner.length ≤ (render inner).length :=
    Text.length_trim_le (render inner)
  simp only [render_append, render_cons, render_tokenize, List.length_append]
  simp [openParen, closeParen] at long ⊢
  omega

end Breadboard.Script
