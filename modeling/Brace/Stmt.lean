import Brace.Expr

/-!
# Stmt — statements as trees

The statements of the language. A block declares its variables first and then runs its
statements. An `if` without an `else` is one whose other branch is the empty statement.
-/

namespace Brace

/-- A variable's type, name and first value, if it is given one. -/
structure VarDecl where
  pos  : Position
  ty   : Ty
  name : String
  init : Option Expr
  deriving Inhabited

/-- How a `for` loop starts. -/
inductive ForInit where
  | decl (v : VarDecl)
  | expr (e : Expr)
  deriving Inhabited

inductive Stmt where
  | block (pos : Position) (locals : List VarDecl) (body : List Stmt)
  | ifElse (pos : Position) (cond : Expr) (thenBody elseBody : Stmt)
  | whileLoop (pos : Position) (cond : Expr) (body : Stmt)
  | forLoop (pos : Position) (init : ForInit) (cond update : Expr) (body : Stmt)
  | ret (pos : Position) (value : Option Expr)
  | breakLoop (pos : Position)
  | continueLoop (pos : Position)
  | expr (pos : Position) (e : Expr)
  | empty (pos : Position)
  deriving Inhabited

namespace Stmt

def pos : Stmt → Position
  | .block p _ _ | .ifElse p _ _ _ | .whileLoop p _ _ | .forLoop p _ _ _ _ | .ret p _
  | .breakLoop p | .continueLoop p | .expr p _ | .empty p => p

/-- The statement that evaluates an expression, standing where the expression stands. -/
def ofExpr (e : Expr) : Stmt := .expr e.pos e

/-- The statement at another place in the program. -/
def place (p : Position) : Stmt → Stmt
  | .block _ ls ss      => .block p ls ss
  | .ifElse _ c t e     => .ifElse p c t e
  | .whileLoop _ c b    => .whileLoop p c b
  | .forLoop _ i c u b  => .forLoop p i c u b
  | .ret _ v            => .ret p v
  | .breakLoop _        => .breakLoop p
  | .continueLoop _     => .continueLoop p
  | .expr _ e           => .expr p e
  | .empty _            => .empty p

mutual

/-- Every way through the statement ends in a `return`. A loop never counts, since its body may
not run at all. -/
def alwaysReturns : Stmt → Bool
  | .ret ..         => true
  | .block _ _ ss   => anyReturns ss
  | .ifElse _ _ t e => t.alwaysReturns && e.alwaysReturns
  | _               => false

/-- One of the statements always returns. -/
def anyReturns : List Stmt → Bool
  | []      => false
  | s :: ss => s.alwaysReturns || anyReturns ss

end

theorem anyReturns_eq_any (ss : List Stmt) : anyReturns ss = ss.any alwaysReturns := by
  induction ss with
  | nil => simp [anyReturns]
  | cons s ss ih => simp [anyReturns, ih]

end Stmt

end Brace
