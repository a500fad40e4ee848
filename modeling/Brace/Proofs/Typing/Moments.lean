import Brace.Proofs.Typing.Program

/-!
# Typing — when checking takes up what

Checking comes to each piece of a program once, in a state of its own. Such a pair of a state and a
piece is a moment. The moments of a piece begin with the one in which it is taken up, and those of
the pieces inside it follow; they are told by the same recursion as checking itself, with the steps
that it does in between. All of an expression is checked at its one moment: no expression changes
what names mean.

Blocks, `for` loops, functions and classes open a frame, which gets the number that is next when they
are taken up. So a frame of checking stands for one construct of the program.

* `Program.moments`: the moments of a program.
* `Stmt.block_checked` and its like: what checking gives for a construct is made of what it gives for
  its pieces at their moments.
-/

namespace Brace

open Check

/-- What checking takes up. -/
inductive Piece where
  | expr (e : Expr)
  | stmt (s : Stmt)
  | func (f : FuncDecl)
  | cls (d : ClassDecl)

abbrev Moment := Checker × Piece

/-- The moments of a list whose members are checked one after another. -/
def Check.each {α β : Type} (check : α → Check β) (moments : α → Checker → List Moment) :
    List α → Checker → List Moment
  | [], _      => []
  | a :: as, c => moments a c ++ Check.each check moments as (check a c).2

/-- What checking does for the declaration of a variable before it comes to the first value. -/
def VarDecl.announce (v : VarDecl) : Check Bool := do
  if v.ty == .void then report (.typeMismatch "a value type" v.ty.text) v.pos
  let _ ← resolveTy v.pos v.ty
  declare v.name v.pos

/-- What checking does then. -/
def VarDecl.settle (v : VarDecl) (declared : Bool) : Check VarDecl := do
  let init ← match v.init with
    | some e => do
        let (t, e) ← e.check
        expectAccepted v.ty t e.pos
        pure (some e)
    | none => pure none
  if declared then
    let _ ← define v.name (.var v.ty) v.pos
  pure { v with init }

def VarDecl.moments (v : VarDecl) (c : Checker) : List Moment :=
  match v.init with
  | some e => [((v.announce c).2, .expr e)]
  | none   => []

def ForInit.moments : ForInit → Checker → List Moment
  | .decl v, c => v.moments c
  | .expr e, c => [(c, .expr e)]

namespace Stmt

mutual

def moments : Stmt → Checker → List Moment
  | s@(.block _ locals body), c =>
      (c, .stmt s) :: (Check.each VarDecl.check VarDecl.moments locals c.entered ++
        momentsAll body (locals.mapM VarDecl.check c.entered).2)
  | .ifElse _ cond t e, c =>
      let c₁ := (cond.checkCondition c).2
      (c, .expr cond) :: (t.moments c₁ ++ e.moments (t.check c₁).2)
  | .whileLoop _ cond body, c =>
      (c, .expr cond) :: body.moments { (cond.checkCondition c).2 with inLoop := true }
  | s@(.forLoop _ init cond update body), c =>
      let c₁ := (init.check c.entered).2
      let c₂ := (cond.checkCondition c₁).2
      let c₃ := (Check.update update c₂).2
      (c, .stmt s) :: (init.moments c.entered ++
        (c₁, .expr cond) :: (c₂, .expr update) :: body.moments { c₃ with inLoop := true })
  | .ret _ (some e), c => [(c, .expr e)]
  | .expr _ e, c => [(c, .expr e)]
  | .ret _ none, _ | .breakLoop _, _ | .continueLoop _, _ | .empty _, _ => []

/-- The moments of statements that are checked one after another. -/
def momentsAll : List Stmt → Checker → List Moment
  | [], _      => []
  | s :: ss, c => s.moments c ++ momentsAll ss (s.check c).2

end

end Stmt

/-- What checking does for a function before it comes to its variables. -/
def FuncDecl.enter (f : FuncDecl) : Check Unit := do
  let _ ← resolveTy f.pos f.returns
  push
  f.params.forM fun x => do
    let _ ← resolveTy f.pos x.ty
    let _ ← define x.name (.var x.ty) f.pos
  modify fun c => { c with inLoop := false, function := some ⟨f.name, f.returns⟩ }

def FuncDecl.moments (f : FuncDecl) (c : Checker) : List Moment :=
  let c₁ := (f.enter c).2
  (c, .func f) :: (Check.each VarDecl.check VarDecl.moments f.locals c₁ ++
    Stmt.momentsAll f.body (f.locals.mapM VarDecl.check c₁).2)

/-- What checking does for a class before it enters the frame of the methods. -/
def ClassDecl.announce (d : ClassDecl) : Check (Option ClassInfo) := do
  let superclass ← d.superInfo
  let fields ← d.fieldTable
  let methods ← d.methodTable fields
  let inherited := match superclass with
    | some c => c.tiers
    | none   => []
  let info : ClassInfo := ⟨⟨d.name, fields, methods⟩, inherited⟩
  if ← define d.name (.cls info) d.pos then
    modify fun c => { c with classes := c.classes.put d.name info }
  d.fields.forM fun x => do
    let _ ← resolveTy d.pos x.ty
  pure superclass

/-- What checking does in the frame of a class before it comes to the methods. -/
def ClassDecl.receive (d : ClassDecl) (superclass : Option ClassInfo) : Check Unit := do
  let _ ← define "this" (.receiver (.object d.name)) d.pos
  match superclass with
  | some c => do
      let _ ← define "super" (.cls c) d.pos
  | none => pure ()

/-- What checking does for a class before it comes to its methods. -/
def ClassDecl.enter (d : ClassDecl) : Check Unit := do
  let superclass ← d.announce
  push
  d.receive superclass

/-- A class is taken up when its frame is entered. -/
def ClassDecl.moments (d : ClassDecl) (c : Checker) : List Moment :=
  ((d.announce c).2, .cls d) ::
    Check.each FuncDecl.checkBody FuncDecl.moments d.methods (d.enter c).2

def Decl.moments : Decl → Checker → List Moment
  | .var v, c  => v.moments c
  | .func f, c => f.moments (define f.name (.function f.signature) f.pos c).2
  | .cls d, c  => d.moments c

/-- When checking takes up the pieces of the program. -/
def Program.moments (p : Program) : List Moment :=
  Check.each Decl.check Decl.moments p .start

/-! ### What checking gives at its moments -/

/-- To check a variable is to announce it and then to settle it. -/
theorem VarDecl.check_eq (v : VarDecl) : v.check = v.announce >>= v.settle := by
  rw [VarDecl.check, VarDecl.announce]
  split <;> rfl

/-- A test that may report something is no matter to what is given. -/
theorem Check.reportIf_fst {α : Type} {b : Prop} [Decidable b] (cause : Cause) (p : Position) (a : α)
    (c : Checker) : ((if b then report cause p >>= fun _ => pure a else pure a : Check α) c).1 = a := by
  split <;> rfl

/-- A function that has been checked has the statements that have been checked. -/
theorem FuncDecl.checkBody_fst (f : FuncDecl) (c : Checker) : (f.checkBody c).1 =
    { f with
      locals := (f.locals.mapM VarDecl.check (f.enter c).2).1
      body := (Stmt.checkAll f.body (f.locals.mapM VarDecl.check (f.enter c).2).2).1 } := by
  exact Check.reportIf_fst _ _ _ _

/-- A class is announced, and then its methods are checked in a frame that binds the receiver. -/
theorem ClassDecl.check_eq (d : ClassDecl) : d.check = (do
    let superclass ← d.announce
    inFrame d.pos do
      d.receive superclass
      let methods ← d.methods.mapM FuncDecl.checkBody
      pure { d with methods }) := by
  have apply {α β : Type} (x : Check α) (f : α → Check β) (c : Checker) :
      (x >>= f) c = f (x c).1 (x c).2 := rfl
  funext c
  simp only [check, announce, receive, inFrame, apply]
  generalize d.superInfo c = r
  cases r.1 <;> dsimp only <;> split <;> rfl

end Brace
