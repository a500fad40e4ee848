import Brace.Predefined
import Brace.Program
import Brace.Scope

/-!
# Value — what expressions evaluate to

What expressions evaluate to. Arrays and objects are shared: their value is a number, and their
contents are in the `Heap`. A function remembers the scope it was declared in, by its handle. A
class is the list of its tiers, its own first and then those it inherits, so a method is found by
walking the list.

Functions and classes are told apart by the number they got when they were made, so that two made
from one declaration differ.
-/

namespace Brace

abbrev ArrayId := Nat
abbrev ObjectId := Nat

/-- A declared function and the scope that its body sees. -/
structure Closure where
  id    : Nat
  decl  : FuncDecl
  scope : Handle
  deriving Inhabited

/-- What one class declaration adds to those above it. -/
structure Tier where
  id      : Nat
  name    : String
  methods : List FuncDecl
  /-- The scope that the methods see. -/
  scope   : Handle
  deriving Inhabited

/-- A class: its own tier and the inherited ones, nearest first. -/
structure Class where
  own       : Tier
  inherited : List Tier
  deriving Inhabited

/-- An object of a class; the heap has its fields. -/
structure Object where
  id  : ObjectId
  cls : Class
  deriving Inhabited

inductive Value where
  | int (n : Int64)
  | float (x : Float)
  | bool (b : Bool)
  | str (s : String)
  /-- Also what a call without a result gives. -/
  | nil
  | array (id : ArrayId)
  | function (f : Closure)
  | builtin (b : Builtin)
  | cls (c : Class)
  | object (o : Object)
  deriving Inhabited

/-! ### Classes -/

/-- The method of this name; of two that a declaration repeats, the later. -/
def Tier.method? (t : Tier) (x : String) : Option FuncDecl :=
  t.methods.reverse.find? fun m => m.name = x

namespace Class

def name (c : Class) : String := c.own.name

/-- All tiers, from the class itself upwards. -/
def tiers (c : Class) : List Tier := c.own :: c.inherited

/-- The nearest tier that has a method of this name, with that method. -/
def methodIn (x : String) : List Tier → Option (Tier × FuncDecl)
  | []      => none
  | t :: ts =>
      match t.method? x with
      | some m => some (t, m)
      | none   => methodIn x ts

/-- The method that an object of the class answers to this name, with the tier it is from. -/
def method? (c : Class) (x : String) : Option (Tier × FuncDecl) := methodIn x c.tiers

/-- How a class is shown for debugging. -/
def tag (c : Class) : String := "<class " ++ c.name ++ ">"

end Class

/-- How an object is shown for debugging. -/
def Object.tag (o : Object) : String := "<" ++ o.cls.name ++ " instance>"

/-- How a function is shown as a value. -/
def Closure.tag (f : Closure) : String := "<function " ++ f.decl.name ++ ">"

/-! ### Values -/

namespace Value

def ofLiteral : Literal → Value
  | .int n   => .int n
  | .float x => .float x
  | .bool b  => .bool b
  | .str s   => .str s
  | .nil     => .nil

/-- What the elements of a new array start as. -/
def default : Ty → Value
  | .int   => .int 0
  | .float => .float 0.0
  | .bool  => .bool false
  | .str   => .str ""
  | _      => .nil

/-- Everything is true but `false` and nil. -/
def isTruthy : Value → Bool
  | .bool b => b
  | .nil    => false
  | _       => true

/-- The type of the value as a program sees it: an object's is the name of its class. -/
def typeName : Value → String
  | .int _      => "int"
  | .float _    => "float"
  | .bool _     => "bool"
  | .str _      => "string"
  | .nil        => "nil"
  | .array _    => "array"
  | .function _ => "function"
  | .builtin _  => "function"
  | .cls _      => "class"
  | .object o   => o.cls.name

/-- The number as a float, where the value is a number. -/
def asFloat? : Value → Option Float
  | .int n   => some n.toFloat
  | .float x => some x
  | _        => none

/-- Equality as programs test it. Numbers are compared by size, also an int with a float; text and
truth values by content; what is shared or was made by a declaration by identity. -/
def equals : Value → Value → Bool
  | .int a, .int b           => a == b
  | .int a, .float b         => a.toFloat == b
  | .float a, .int b         => a == b.toFloat
  | .float a, .float b       => a == b
  | .bool a, .bool b         => a == b
  | .str a, .str b           => a == b
  | .nil, .nil               => true
  | .array a, .array b       => a == b
  | .function f, .function g => f.id == g.id
  | .builtin a, .builtin b   => a == b
  | .cls a, .cls b           => a.own.id == b.own.id
  | .object a, .object b     => a.id == b.id
  | _, _                     => false

def isNil : Value → Bool
  | .nil => true
  | _    => false

end Value

end Brace
