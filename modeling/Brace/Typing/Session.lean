import Brace.Typing.Program

/-!
# Typing — one step after another with one checker

A checking session does one thing after another with one checker: it checks single declarations,
statements, conditions and expressions, enters and leaves scopes, sets where it is, and asks what
the checker knows of names, types and classes. What a step reports is added to what the checker has
collected.
-/

namespace Brace.CheckSession

inductive Step where
  | decl (d : Decl)
  | stmt (s : Stmt)
  | condition (e : Expr)
  | expr (e : Expr)
  | push
  | pop
  | inLoop (b : Bool)
  | function (f : Option Context)
  /-- Binds a name as a variable of this type. -/
  | define (x : String) (t : Ty)
  | lookup (x : String)
  | resolve (t : Ty)
  | accepts (expected received : Ty)
  | returns (s : Stmt)
  /-- Asks what the class of a name knows of a member's name. -/
  | cls (x : String) (member : String)

/-- What a class knows of a member's name. -/
structure ClassReport where
  name   : String
  isA    : Bool
  field  : Option Ty
  method : Option Signature
  deriving Inhabited

inductive Reply where
  | done
  /-- The type of an expression, and those noted on it and on its parts. -/
  | ty (t : Ty) (noted : List (Option Ty))
  | flag (b : Bool)
  | symbol (s : Option Symbol)
  | cls (r : Option ClassReport)

open Check

/-- What a step does with the checker. -/
def Step.run : Step → Check Reply
  | .decl d => do
      let _ ← d.check
      pure .done
  | .stmt s => do
      let _ ← s.check
      pure .done
  | .condition e => do
      let _ ← e.checkCondition
      pure .done
  | .expr e => do
      let (t, e) ← e.check
      pure (.ty t (e.subexprs.map (·.ty?)))
  | .push => do
      Check.push
      pure .done
  | .pop => do
      Check.pop .unknown
      pure .done
  | .inLoop b => do
      modify fun c => { c with inLoop := b }
      pure .done
  | .function f => do
      modify fun c => { c with function := f }
      pure .done
  | .define x t => .flag <$> Check.define x (.var t) .unknown
  | .lookup x => .symbol <$> Check.lookup x .unknown
  | .resolve t => .flag <$> resolveTy .unknown t
  | .accepts a b => do pure (.flag ((← get).accepts a b))
  | .returns s => pure (.flag s.alwaysReturns)
  | .cls x member => do
      let info := (← get).classes.get? x
      pure (.cls (info.map fun c => ⟨c.name, c.isA member, c.field? member, c.method? member⟩))

end Brace.CheckSession
