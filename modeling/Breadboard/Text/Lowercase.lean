import Breadboard.Text.Basic
import Breadboard.Text.CaseTable

set_option autoImplicit false

namespace Breadboard.Text

def inRanges (ranges : List (Nat × Nat)) (c : Char) : Bool :=
  ranges.any fun (first, last) => first ≤ c.toNat && c.toNat ≤ last

def isCased (c : Char) : Bool :=
  inRanges casedRanges c

def isCaseIgnorable (c : Char) : Bool :=
  inRanges caseIgnorableRanges c

/-- Whether a cased character stands first when case-ignorable ones are passed over. -/
def meetsCased (text : Text) : Bool :=
  (text.dropWhile isCaseIgnorable).head?.any isCased

/-- The lower case of a character outside any word. -/
def lowerChar (c : Char) : Text :=
  if c.toNat < 0x80 then [c.toLower]
  else if c = '\u0130' then ['i', '\u0307']
  else
    let n := c.toNat
    match lowerRanges.find? fun (first, last, step, _) =>
        first ≤ n && n ≤ last && (n - first) % step == 0 with
    | some (_, _, _, distance) => [Char.ofNat ((n : Int) + distance).toNat]
    | none => [c]

/-- The lower case of a text that stands behind `before`, which is given backwards. -/
def lowerAfter (before : Text) : Text → Text
  | [] => []
  | c :: rest =>
    (if c = 'Σ' then [if meetsCased before && !meetsCased rest then 'ς' else 'σ']
      else lowerChar c) ++ lowerAfter (c :: before) rest

def lower (text : Text) : Text :=
  lowerAfter [] text

end Breadboard.Text
