import Brace.Eval.Call

/-!
# Eval — what programs mean

Declarations are executed in order, in the current frame. A program starts at its function `main`,
which is found and seen to take no arguments before anything is executed; when all declarations have
been executed, what the name `main` then stands for is called.
-/

namespace Brace

open Eval

namespace Eval

def defineFunction (f : FuncDecl) : Eval Unit := do
  let v ← make fun m => m.newClosure f m.here
  define f.name (.function v) f.pos

/-- The class that a name stands for. -/
def lookupClass (x : String) (p : Position) : Eval Class := do
  match ← lookup x p with
  | .cls c => pure c
  | v      => fail (.internalError
      ("superclass " ++ Text.quote x ++ " is a " ++ v.typeName ++ ", not a class")) p

/-- The class that a declaration inherits from, if it names one. -/
def superclassOf (d : ClassDecl) : Eval (Option Class) :=
  match d.superclass with
  | some x => some <$> lookupClass x d.pos
  | none   => pure none

/-- The scope that the methods of a class see. -/
def methodScope : Option Class → Eval Handle
  | some c => make (·.superFrame c)
  | none   => view (·.here)

/-- A number that no function or class has had. -/
def newId : Eval Nat := make fun m =>
  let (id, heap) := m.heap.newId
  (id, { m with heap })

/-- The tiers that a class inherits. -/
def inheritedTiers : Option Class → List Tier
  | some c => c.tiers
  | none   => []

def defineClass (d : ClassDecl) : Eval Unit := do
  let superclass ← superclassOf d
  let scope ← methodScope superclass
  let id ← newId
  define d.name (.cls ⟨⟨id, d.name, d.methods, scope⟩, inheritedTiers superclass⟩) d.pos

/-- Shows what a program returned, if it returned something and results are shown. -/
def echo (v : Value) : Eval Unit := do
  if (← view (·.settings.echoReturn)) && !v.isNil then
    let text ← textOf v
    change (·.printLine ("Return: " ++ text))

end Eval

/-- Executes one declaration. -/
def Decl.run : Decl → Eval Unit
  | .var v  => v.run
  | .func f => defineFunction f
  | .cls c  => defineClass c

/-- Runs a program without checking it. -/
def Program.run (p : Program) : Eval Value :=
  match Program.function? p "main" with
  | none => fail (.missingEntryPoint "no function named `main` is declared") .unknown
  | some main =>
      if main.arity = 0 then do
        p.forM Decl.run
        let entry ← lookup "main" main.pos
        let v ← ask (.apply entry [] main.pos)
        echo v
        pure v
      else
        fail (.missingEntryPoint
          ("`main` must take no parameters, it takes " ++ toString main.arity)) main.pos

end Brace
