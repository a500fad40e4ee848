import Brace.Datum
import Brace.Run

/-!
# Session — one step after another on one machine

A session does one thing after another on one machine: it executes single declarations, statements
and expressions, enters and leaves scopes, uses names directly, calls values, and runs whole
programs. A step that fails is answered with its failure, and the session goes on from the machine
that it left.
-/

namespace Brace.Session

inductive Step where
  | decl (d : Decl)
  | stmt (s : Stmt)
  | expr (e : Expr)
  | push
  | pop
  | lookup (x : String)
  | assign (x : String) (d : Datum)
  | define (x : String) (d : Datum)
  /-- Looks a name up and calls what it stands for, at a line of the input. -/
  | call (x : String) (args : List Datum) (line : Nat)
  /-- Checks a program and runs it. -/
  | program (p : Program)
  /-- Runs a program without checking it. -/
  | unchecked (p : Program)

inductive Reply where
  | done
  | flow (f : Flow)
  | value (v : Value)
  | outcome (r : Except (List Error) Outcome)

open Eval

/-- Stores a list of data on the machine's heap. -/
def storeData (ds : List Datum) : Eval (List Value) := make fun m =>
  let (vs, heap) := Datum.storeAll ds m.heap
  (vs, { m with heap })

def storeDatum (d : Datum) : Eval Value := make fun m =>
  let (v, heap) := d.store m.heap
  (v, { m with heap })

/-- What a step does. -/
def Step.eval : Step → Eval Reply
  | .decl d => do
      d.run
      pure .done
  | .stmt s => .flow <$> s.exec
  | .expr e => .value <$> e.eval
  | .push => do
      change Machine.pushScope
      pure .done
  | .pop => do
      let here ← consult .unknown fun m => m.scopes.pop m.here
      change fun m => { m with here }
      pure .done
  | .lookup x => .value <$> Eval.lookup x .unknown
  | .assign x d => do
      let v ← storeDatum d
      Eval.assign x v .unknown
      pure .done
  | .define x d => do
      let v ← storeDatum d
      Eval.define x v .unknown
      pure .done
  | .call x args line => do
      let callee ← Eval.lookup x (.ofLine line)
      let args ← storeData args
      .value <$> ask (.apply callee args (.ofLine line))
  | .program p => .outcome <$> p.checkAndRun
  | .unchecked p => .value <$> p.run

end Brace.Session
