import Brace.Typing.Expr

/-!
# Typing — statements

Checking a statement gives it back with types noted on its expressions. While a variable's first
value is checked, the variable is bound to a placeholder, so that it cannot stand in its own
definition.
-/

namespace Brace

open Check

/-- Checks the declaration of a variable and binds its name. -/
def VarDecl.check (v : VarDecl) : Check VarDecl := do
  if v.ty == .void then report (.typeMismatch "a value type" v.ty.text) v.pos
  let _ ← resolveTy v.pos v.ty
  let declared ← declare v.name v.pos
  let init ← match v.init with
    | some e => do
        let (t, e) ← e.check
        expectAccepted v.ty t e.pos
        pure (some e)
    | none => pure none
  if declared then
    let _ ← define v.name (.var v.ty) v.pos
  pure { v with init }

/-- Checks how a `for` loop starts: a declaration, or an expression that stores a value. -/
def ForInit.check : ForInit → Check ForInit
  | .decl v => do
      let v ← v.check
      pure (.decl v)
  | .expr e => do
      if !e.isAssignment then
        report (.typeMismatch "an assignment or declaration" "an expression") e.pos
      let (_, e) ← e.check
      pure (.expr e)

namespace Check

/-- Checks how a `for` loop goes on: by changing a number. -/
def update (e : Expr) : Check Expr := do
  if !e.isStep then
    report (.typeMismatch "an increment or decrement" "an expression") e.pos
  let (_, e) ← e.check
  pure e

/-- Works as in a loop, or as in no loop. -/
def withLoop {α : Type} (inLoop : Bool) (x : Check α) : Check α := do
  let before := (← get).inLoop
  modify fun c => { c with inLoop }
  let a ← x
  modify fun c => { c with inLoop := before }
  pure a

/-- Works as in the body of a function. -/
def withFunction {α : Type} (f : Context) (x : Check α) : Check α := do
  let before := (← get).function
  modify fun c => { c with function := some f }
  let a ← x
  modify fun c => { c with function := before }
  pure a

/-- Works in a new frame. -/
def inFrame {α : Type} (p : Position) (x : Check α) : Check α := do
  push
  let a ← x
  pop p
  pure a

/-- Reports a loop signal outside of a loop. -/
def loopSignal (statement : String) (p : Position) : Check Unit := do
  if !(← get).inLoop then report (.illegalBreakOrContinue statement) p

/-- Reports a `return` that does not go with the function that it is in. -/
def expectReturn (received : Option Ty) (p : Position) : Check Unit := do
  match (← get).function with
  | none   => report (.illegalReturn "return outside of a function") p
  | some f =>
      match f.returns, received with
      | .void, some _ =>
          report (.illegalReturn ("void function " ++ Text.quote f.name
            ++ " cannot return a value")) p
      | .void, none   => pure ()
      | t, none       => report (.typeMismatch t.text Ty.void.text) p
      | t, some r     => expectAccepted t r p

end Check

namespace Stmt

mutual

/-- The statement with types noted on its expressions. -/
def check : Stmt → Check Stmt
  | .block p locals body => inFrame p do
      let locals ← locals.mapM VarDecl.check
      let body ← checkAll body
      pure (.block p locals body)
  | .ifElse p cond t e => do
      let cond ← cond.checkCondition
      let t ← t.check
      let e ← e.check
      pure (.ifElse p cond t e)
  | .whileLoop p cond body => do
      let cond ← cond.checkCondition
      let body ← withLoop true body.check
      pure (.whileLoop p cond body)
  | .forLoop p init cond update body => inFrame p do
      let init ← init.check
      let cond ← cond.checkCondition
      let update ← Check.update update
      let body ← withLoop true body.check
      pure (.forLoop p init cond update body)
  | .ret p (some e) => do
      let (t, e) ← e.check
      expectReturn (some t) p
      pure (.ret p (some e))
  | .ret p none => do
      expectReturn none p
      pure (.ret p none)
  | .breakLoop p => do
      loopSignal "break" p
      pure (.breakLoop p)
  | .continueLoop p => do
      loopSignal "continue" p
      pure (.continueLoop p)
  | .expr p e => do
      let (_, e) ← e.check
      pure (.expr p e)
  | .empty p => pure (.empty p)

/-- The statements of a list, in order. -/
def checkAll : List Stmt → Check (List Stmt)
  | []      => pure []
  | s :: ss => do
      let s ← s.check
      let ss ← checkAll ss
      pure (s :: ss)

end

end Stmt

end Brace
