import Brace.Expr

/-!
# Predefined — the names that every program finds bound

What every program finds bound in its outermost, frozen frame: five constants and four built-in
functions, each of one argument. Checking and running share these tables.
-/

namespace Brace

/-- A built-in function. -/
inductive Builtin where
  | print
  | input
  | len
  | typeOf
  deriving DecidableEq, Repr, Inhabited

namespace Builtin

def all : List Builtin := [.print, .input, .len, .typeOf]

theorem mem_all (b : Builtin) : b ∈ all := by cases b <;> decide

def name : Builtin → String
  | .print  => "print"
  | .input  => "input"
  | .len    => "len"
  | .typeOf => "type"

/-- The types of its arguments, where `any` takes a value of any type. -/
def params : Builtin → List Ty
  | .print | .len | .typeOf => [.any]
  | .input                  => [.str]

def returns : Builtin → Ty
  | .print          => .void
  | .len            => .int
  | .input | .typeOf => .str

def arity (b : Builtin) : Nat := b.params.length

/-- The built-in function bound to this name. -/
def ofName? (x : String) : Option Builtin := all.find? fun b => b.name == x

/-- How a built-in function is shown as a value. -/
def tag (b : Builtin) : String := "<builtin " ++ b.name ++ ">"

end Builtin

/-- The predefined constants. -/
def constants : List (String × Literal) :=
  [("PI", .float 3.14159), ("E", .float 2.71828), ("TRUE", .bool true), ("FALSE", .bool false),
    ("NULL", .nil)]

/-- Everything in the outermost frame, given what constants and built-in functions stand for. -/
def predefined {α : Type} (constant : Literal → α) (builtin : Builtin → α) : List (String × α) :=
  constants.map (fun p => (p.1, constant p.2)) ++ Builtin.all.map fun b => (b.name, builtin b)

end Brace
