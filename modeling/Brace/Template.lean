import Brace.Decimal.Reading
import Brace.Error
import Brace.Ty
import Brace.Value

/-!
# Template — text with specifiers in it

A template is text with specifiers in it: a percent sign and one of the letters `d`, `f` and `s`,
wherever the two stand side by side. Writing puts the texts of values in the places of the
specifiers, one for each, and then resolves the escapes for newline and tab. Reading turns a word
of input into a value of the specifier's type.
-/

namespace Brace

inductive Specifier where
  | int
  | float
  | str
  deriving DecidableEq, Repr, Inhabited

namespace Specifier

/-- The specifier that this letter makes after a percent sign. -/
def ofLetter? : Char → Option Specifier
  | 'd' => some .int
  | 'f' => some .float
  | 's' => some .str
  | _   => none

/-- The type of the value that the specifier stands for. -/
def ty : Specifier → Ty
  | .int   => .int
  | .float => .float
  | .str   => .str

/-- A word of input as a value of the specifier's type. -/
def read (s : Specifier) (word : List Char) : Option Value :=
  match s with
  | .int   => (Decimal.readInt word).map .int
  | .float => (Decimal.readFloat word).map .float
  | .str   => some (.str (String.ofList word))

end Specifier

namespace Template

/-- A character of a template that stands for itself, or a specifier. -/
inductive Piece where
  | char (c : Char)
  | spec (s : Specifier)
  deriving DecidableEq, Repr

/-- The template cut into its pieces, from left to right. -/
def pieces : List Char → List Piece
  | []              => []
  | [c]             => [.char c]
  | c :: d :: rest  =>
      if c = '%' then
        match Specifier.ofLetter? d with
        | some s => .spec s :: pieces rest
        | none   => .char c :: pieces (d :: rest)
      else .char c :: pieces (d :: rest)

def Piece.specifier? : Piece → Option Specifier
  | .char _ => none
  | .spec s => some s

/-- The specifiers of a template, from left to right. -/
def specifiers (template : String) : List Specifier :=
  (pieces template.toList).filterMap Piece.specifier?

/-! ### Escapes -/

/-- Puts `mark` wherever a backslash stands before `letter`. -/
def resolve (letter mark : Char) : List Char → List Char
  | []             => []
  | [c]            => [c]
  | c :: d :: rest =>
      if c = '\\' ∧ d = letter then mark :: resolve letter mark rest
      else c :: resolve letter mark (d :: rest)

/-- Puts newlines, then tabs, in the places of their escapes. -/
def unescape (cs : List Char) : List Char := resolve 't' '\t' (resolve 'n' '\n' cs)

/-! ### Writing -/

variable {α : Type}

/-- The pieces with the text of one argument in the place of each specifier; nothing where the
text of an argument that is reached has no end. -/
def fillPieces (text : α → Option String) : List Piece → List α → Option (Except Cause (List Char))
  | [], []                => some (.ok [])
  | [], _ :: _            => some (.error (.malformedFormat "more arguments than specifiers"))
  | .char c :: ps, args   => (fillPieces text ps args).map fun r => r.map (c :: ·)
  | .spec _ :: _, []      => some (.error (.malformedFormat "more specifiers than arguments"))
  | .spec _ :: ps, a :: args =>
      (text a).bind fun t => (fillPieces text ps args).map fun r => r.map (t.toList ++ ·)

/-- The template with the texts of the arguments filled in and its escapes resolved. -/
def fill (text : α → Option String) (template : String) (args : List α) :
    Option (Except Cause String) :=
  (fillPieces text (pieces template.toList) args).map fun r =>
    r.map fun cs => String.ofList (unescape cs)

end Template

end Brace
