import Breadboard.Text.Basic

set_option autoImplicit false

namespace Breadboard.Text

/-- The lines of a text, each with its line break. -/
def brokenLines : Text → List Text
  | [] => []
  | c :: rest =>
    if c = '\n' then ['\n'] :: brokenLines rest
    else
      match brokenLines rest with
      | [] => [[c]]
      | line :: more => (c :: line) :: more

/-- A line without its line break. A carriage return that no line feed follows stays. -/
def withoutBreak (line : Text) : Text :=
  match ['\n'].isSuffixOf? line with
  | none => line
  | some text => (['\r'].isSuffixOf? text).getD text

/-- The lines of a text without their breaks. No empty line follows a final line feed. -/
def lines (text : Text) : List Text :=
  (brokenLines text).map withoutBreak

/-- Lines written below each other, with no break after the last one. -/
def unlines (texts : List Text) : Text :=
  (texts.intersperse ['\n']).flatten

@[simp] theorem flatten_brokenLines (text : Text) : (brokenLines text).flatten = text := by
  induction text with
  | nil => rfl
  | cons c rest ih =>
    unfold brokenLines
    split
    · rename_i isBreak
      simp [ih, isBreak]
    · split <;> simp_all

end Breadboard.Text
