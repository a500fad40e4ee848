import Brace.Decimal.Reading
import Brace.Decimal.Shortest
import Brace.Text.Blank
import Brace.Text.Quoted
import Brace.Value

/-!
# Value — casts

Conversions among whole numbers, floats, truth values and text. A float loses its fraction and
stops at either end of 64 bits; text is read as a number after blanks are taken off both ends, and
counts as true when it is not empty.
-/

namespace Brace.Value

/-- The text of a value that needs no heap to show it. -/
def plainText? : Value → Option String
  | .int n   => some (toString n.toInt)
  | .float x => some (Decimal.floatText x)
  | .bool b  => some (if b then "true" else "false")
  | .str s   => some s
  | _        => none

/-- A number read from text, or the failure to read it. -/
def readAs {α : Type} (target : String) (read : List Char → Option α) (s : String) :
    Except Cause α :=
  match read (Text.trim s.toList) with
  | some x => .ok x
  | none   => .error (.builtinCallFailure target
      ("cannot convert " ++ Text.quote s ++ " to " ++ target))

def noCast (target : String) (v : Value) : Cause :=
  .internalError ("cannot cast " ++ v.typeName ++ " to " ++ target)

def toInt (target : String) : Value → Except Cause Int64
  | .int n   => .ok n
  | .float x => .ok x.toInt64
  | .bool b  => .ok (if b then 1 else 0)
  | .str s   => readAs target Decimal.readInt s
  | v        => .error (noCast target v)

def toFloat (target : String) : Value → Except Cause Float
  | .int n   => .ok n.toFloat
  | .float x => .ok x
  | .bool b  => .ok (if b then 1.0 else 0.0)
  | .str s   => readAs target Decimal.readFloat s
  | v        => .error (noCast target v)

def toBool (target : String) : Value → Except Cause Bool
  | .int n   => .ok (n != 0)
  | .float x => .ok (x != 0.0)
  | .bool b  => .ok b
  | .str s   => .ok (!s.isEmpty)
  | v        => .error (noCast target v)

/-- The value as the type that `target` names. -/
def castTo (target : String) (v : Value) : Except Cause Value :=
  match Ty.ofName? target with
  | some .int   => (toInt target v).map .int
  | some .float => (toFloat target v).map .float
  | some .bool  => (toBool target v).map .bool
  | some .str   =>
      match v.plainText? with
      | some s => .ok (.str s)
      | none   => .error (noCast target v)
  | _           => .error (noCast target v)

end Brace.Value
