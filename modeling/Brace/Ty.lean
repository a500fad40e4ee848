/-!
# Ty — the types of the language

The types that a declaration names and that checking gives to expressions. `any` stands where a
type is known only when the program runs, so it fits everywhere (`fits`), in both directions and
at any depth of array. Inheritance plays no part here: `fits` compares classes by name.
-/

namespace Brace

/-- A type of the language. -/
inductive Ty where
  | void
  | bool
  | int
  | float
  | str
  | nil
  /-- An array whose elements have one type. -/
  | array (element : Ty)
  /-- An instance of the class of this name. -/
  | object (name : String)
  | function
  /-- Known only when the program runs. -/
  | any
  deriving DecidableEq, Repr, Inhabited

namespace Ty

/-- The type as written in messages. -/
def text : Ty → String
  | .void          => "void"
  | .bool          => "bool"
  | .int           => "int"
  | .float         => "float"
  | .str           => "string"
  | .nil           => "nil"
  | .array element => element.text ++ "[]"
  | .object name   => name
  | .function      => "function"
  | .any           => "any"

/-- The built-in type of this name; `char` is another word for `string`. -/
def ofName? (name : String) : Option Ty :=
  if name = "void" then some .void
  else if name = "bool" then some .bool
  else if name = "int" then some .int
  else if name = "float" then some .float
  else if name = "string" ∨ name = "char" then some .str
  else none

/-- Arithmetic is defined on it. -/
def isNumeric : Ty → Bool
  | .int | .float | .any => true
  | _                    => false

/-- A cast goes from and to these. -/
def isPrimitive : Ty → Bool
  | .bool | .int | .float | .str => true
  | _                            => false

def isAny : Ty → Bool
  | .any => true
  | _    => false

/-- A value of the second type may stand where the first is expected, classes aside. -/
def fits : Ty → Ty → Bool
  | .any, _            => true
  | _, .any            => true
  | .array a, .array b => fits a b
  | a, b               => a == b

end Ty

end Brace
