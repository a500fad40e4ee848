import Brace.Typing.Stmt

/-!
# Typing — functions, classes and programs

Declarations are checked in order, so a function or class can only use what comes before it, and
itself. A program is accepted when no violation was found; it is then given back with types noted on
all its expressions, together with the warnings. Otherwise all violations are given, in the order in
which they were found.
-/

namespace Brace

open Check

namespace FuncDecl

/-- Checks the parameters and the body of a function or method, which share one frame. -/
def checkBody (f : FuncDecl) : Check FuncDecl := do
  let _ ← resolveTy f.pos f.returns
  let f ← inFrame f.pos do
    f.params.forM fun x => do
      let _ ← resolveTy f.pos x.ty
      let _ ← define x.name (.var x.ty) f.pos
    withLoop false <| withFunction ⟨f.name, f.returns⟩ do
      let locals ← f.locals.mapM VarDecl.check
      let body ← Stmt.checkAll f.body
      pure { f with locals, body }
  if f.returns != .void && !Stmt.anyReturns f.body then report (.missingReturn f.name) f.pos
  pure f

/-- Checks a function whose name is bound before its body, so that it can call itself. -/
def check (f : FuncDecl) : Check FuncDecl := do
  let _ ← define f.name (.function f.signature) f.pos
  f.checkBody

end FuncDecl

namespace ClassDecl

/-- The declared fields by name. A repeated field is reported, and its later type holds. -/
def fieldTable (d : ClassDecl) : Check (Table Ty) :=
  d.fields.foldlM (fun t x => do
    if t.contains x.name then report (.redefinition x.name) d.pos
    pure (t.put x.name x.ty)) .empty

/-- The declared methods by name. A method named like a field is reported and left out; a repeated
one is reported, and the later holds. -/
def methodTable (d : ClassDecl) (fields : Table Ty) : Check (Table Signature) :=
  d.methods.foldlM (fun t f => do
    if fields.contains f.name then
      report (.redefinition f.name) f.pos
      pure t
    else
      if t.contains f.name then report (.redefinition f.name) f.pos
      pure (t.put f.name f.signature)) .empty

/-- What is known of the superclass, if the name of a class is given for it. -/
def superInfo (d : ClassDecl) : Check (Option ClassInfo) := do
  match d.superclass with
  | none   => pure none
  | some x =>
      match ← Check.lookup x d.pos with
      | none             => pure none
      | some (.cls info) => pure (some info)
      | some s           =>
          report (.typeMismatch "class" s.describe) d.pos
          pure none

/-- Checks a class. Its methods see `this`, and `super` where there is a superclass. -/
def check (d : ClassDecl) : Check ClassDecl := do
  let superclass ← d.superInfo
  let fields ← d.fieldTable
  let methods ← d.methodTable fields
  let inherited := match superclass with
    | some c => c.tiers
    | none   => []
  let info : ClassInfo := ⟨⟨d.name, fields, methods⟩, inherited⟩
  if ← define d.name (.cls info) d.pos then
    modify fun c => { c with classes := c.classes.put d.name info }
  d.fields.forM fun x => do
    let _ ← resolveTy d.pos x.ty
  inFrame d.pos do
    let _ ← define "this" (.receiver (.object d.name)) d.pos
    match superclass with
    | some c => do
        let _ ← define "super" (.cls c) d.pos
    | none => pure ()
    let methods ← d.methods.mapM FuncDecl.checkBody
    pure { d with methods }

end ClassDecl

/-- Checks one declaration. -/
def Decl.check : Decl → Check Decl
  | .var v => do
      let v ← v.check
      pure (.var v)
  | .func f => do
      let f ← f.check
      pure (.func f)
  | .cls d => do
      let d ← d.check
      pure (.cls d)

/-- A program with the types of its expressions, and the warnings about it. -/
structure Checked where
  program  : Program
  warnings : List Error
  deriving Inhabited

/-- Checks a program, and gives all violations if there are any. -/
def Program.check (p : Program) : Except (List Error) Checked :=
  let (program, c) := (p.mapM Decl.check).run .start
  if c.errors.isEmpty then .ok ⟨program, c.warnings.toList⟩ else .error c.errors.toList

end Brace
