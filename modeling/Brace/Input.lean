import Brace.Text.Blank

/-!
# Input — lines and words

The text that a program has not read yet. It is read from the front, by lines or by words, and
what is read is gone.
-/

namespace Brace

structure Input where
  rest : List Char
  deriving DecidableEq, Repr, Inhabited

namespace Input

def ofString (s : String) : Input := ⟨s.toList⟩

/-- The text without carriage returns at its end. -/
def chomp (cs : List Char) : List Char := (cs.reverse.dropWhile (· = '\r')).reverse

/-- The text up to the next newline, which is taken too, without carriage returns at its end.
There is no line only where nothing is left. -/
def readLine (i : Input) : Option (List Char) × Input :=
  match i.rest with
  | [] => (none, i)
  | cs => (some (chomp (cs.takeWhile (· ≠ '\n'))), ⟨(cs.dropWhile (· ≠ '\n')).drop 1⟩)

/-- The next run of characters that are not blank. Blanks before it are taken in any case. -/
def readWord (i : Input) : Option (List Char) × Input :=
  match i.rest.dropWhile Text.isBlank with
  | [] => (none, ⟨[]⟩)
  | cs => (some (cs.takeWhile (!Text.isBlank ·)), ⟨cs.dropWhile (!Text.isBlank ·)⟩)

end Input

end Brace
