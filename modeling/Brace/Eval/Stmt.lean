import Brace.Eval.Expr

/-!
# Eval — what statements mean

A block and a `for` loop run in a frame of their own. A loop is a job that, after each turn, asks
for itself again; `break` and `continue` end at the innermost one, and `return` goes through.
-/

namespace Brace

open Eval

/-- Asks for a statement to be run. -/
def Stmt.exec (s : Stmt) : Eval Flow := ask (.stmt s)

/-- Binds a variable to its first value, or to a placeholder if it has none. -/
def VarDecl.run (v : VarDecl) : Eval Unit :=
  match v.init with
  | some e => do
      let x ← e.eval
      define v.name x v.pos
  | none => declare v.name v.pos

namespace Eval

/-- Runs statements up to the first that does not end normally. -/
def runStmts : List Stmt → Eval Flow
  | []      => pure .normal
  | s :: ss => do
      match ← s.exec with
      | .normal => runStmts ss
      | flow    => pure flow

/-- Declares variables and runs statements, in the current frame. -/
def runBody (locals : List VarDecl) (body : List Stmt) : Eval Flow := do
  locals.forM VarDecl.run
  runStmts body

def runInit : ForInit → Eval Unit
  | .decl v => v.run
  | .expr e => do
      let _ ← e.eval
      pure ()

/-- A loop from the test of its condition on. `continue` goes on with the update. -/
def loopTurn (cond : Expr) (update : Option Expr) (body : Stmt) : Eval Flow := do
  if (← cond.eval).isTruthy then
    match ← body.exec with
    | .breakLoop => pure .normal
    | .ret v     => pure (.ret v)
    | _          => do
        match update with
        | some u => do
            let _ ← u.eval
            ask (.loop cond update body)
        | none => ask (.loop cond update body)
  else pure .normal

end Eval

/-- What a statement does, given what the statements and expressions inside it do. -/
def Stmt.start : Stmt → Eval Flow
  | .block p locals body => inBlock p (runBody locals body)
  | .ifElse _ cond t e => do
      if (← cond.eval).isTruthy then t.exec else e.exec
  | .whileLoop _ cond body => ask (.loop cond none body)
  | .forLoop p init cond update body =>
      inBlock p do
        runInit init
        ask (.loop cond (some update) body)
  | .ret _ (some e) => do
      let v ← e.eval
      pure (.ret v)
  | .ret _ none => pure (.ret .nil)
  | .breakLoop _ => pure .breakLoop
  | .continueLoop _ => pure .continueLoop
  | .expr _ e => do
      let _ ← e.eval
      pure .normal
  | .empty _ => pure .normal

end Brace
