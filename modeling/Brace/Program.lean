import Brace.Stmt

/-!
# Program — functions, classes and programs

A program is a list of declarations: global variables, functions, and classes with at most one
superclass each. A method is a function declared inside a class. Fields are declared by type
alone: an object gets a field when the field is first set.
-/

namespace Brace

/-- A name with the type declared for it: a parameter or a field. -/
structure Param where
  ty   : Ty
  name : String
  deriving DecidableEq, Repr, Inhabited

/-- A function, or a method of a class. -/
structure FuncDecl where
  pos     : Position
  returns : Ty
  name    : String
  params  : List Param
  locals  : List VarDecl
  body    : List Stmt
  deriving Inhabited

/-- The number of arguments that a call has to give. -/
def FuncDecl.arity (f : FuncDecl) : Nat := f.params.length

structure ClassDecl where
  pos        : Position
  name       : String
  superclass : Option String
  fields     : List Param
  methods    : List FuncDecl
  deriving Inhabited

inductive Decl where
  | var (v : VarDecl)
  | func (f : FuncDecl)
  | cls (c : ClassDecl)
  deriving Inhabited

abbrev Program := List Decl

/-- The first function of this name at the top level. -/
def Program.function? (p : Program) (name : String) : Option FuncDecl :=
  p.findSome? fun
    | .func f => if f.name = name then some f else none
    | _       => none

end Brace
