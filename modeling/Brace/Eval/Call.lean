import Brace.Eval.Stmt

/-!
# Eval — what calls mean

A function's body runs in a new frame inside the scope of its declaration, never inside the
caller's, and its parameters and local variables share that frame. Calling a class makes an object
and runs its `init` method if there is one. A failure in a declared function or a class that is
blamed on no place is blamed on the call.
-/

namespace Brace

open Eval

namespace Builtin

/-- What a built-in function gives and does to the machine; nothing where the text of its argument
has no end. -/
def call (b : Builtin) (args : List Value) (m : Machine) :
    Option (Except Cause Value × Machine) :=
  match b, args with
  | .print, [v] => (m.heap.text? v).map fun text => (.ok .nil, m.printLine text)
  | .input, [v] => (m.heap.text? v).map fun text =>
      match (m.print text).readLine with
      | (some line, m) => (.ok (.str (String.ofList line)), m)
      | (none, m)      => (.error (.builtinCallFailure "input" "input stream is exhausted"), m)
  | .len, [.str s] => some (.ok (.int (Int64.ofNat s.length)), m)
  | .len, [.array id] => some (.ok (.int (Int64.ofNat (m.heap.length id))), m)
  | .len, [v] =>
      let reason := "a value of type " ++ v.typeName ++ " has no length"
      some (.error (.builtinCallFailure "len" reason), m)
  | .typeOf, [v] => some (.ok (.str v.typeName), m)
  | b, args => some (.error (.callArityMismatch b.name 1 args.length), m)

/-- Calls a built-in function with as many arguments as it takes. -/
def apply (b : Builtin) (args : List Value) (p : Position) : Eval Value := fun m =>
  if args.length = b.arity then
    match b.call args m with
    | some (.ok v, m)    => .finished (.ok v) m
    | some (.error c, m) => .finished (.error ⟨c, p⟩) m
    | none               => .endless
  else .finished (.error ⟨.callArityMismatch b.name b.arity args.length, p⟩) m

end Builtin

namespace Eval

/-- Binds parameters to arguments in the frame of `h`. -/
def bindParams (h : Handle) (p : Position) (params : List Param) (args : List Value) : Eval Unit :=
  (params.zip args).forM fun x => defineAt h x.1.name x.2 p

/-- The value that a function's body leaves. -/
def result (f : FuncDecl) : Flow → Eval Value
  | .normal => pure .nil
  | .ret v  => pure v
  | _       =>
      fail (.internalError ("loop signal escaped function " ++ Text.quote f.name)) f.pos

/-- Calls a declared function. -/
def callClosure (f : Closure) (args : List Value) : Eval Value := do
  if args.length = f.decl.arity then
    let frame ← make (·.openFrame f.scope)
    bindParams frame f.decl.pos f.decl.params args
    let flow ← counted f.decl.pos (inScope frame (runBody f.decl.locals f.decl.body))
    result f.decl flow
  else fail (.callArityMismatch f.decl.name f.decl.arity args.length) .unknown

/-- Makes an object of a class. Without an `init` method there is nothing to pass arguments to. -/
def instantiate (c : Class) (args : List Value) : Eval Value := do
  let o ← make (·.newObject c)
  match c.method? "init" with
  | some init => do
      let f ← make (·.bindMethod o init)
      let _ ← callClosure f args
      pure (.object o)
  | none =>
      if args.isEmpty then pure (.object o)
      else fail (.callArityMismatch c.name 0 args.length) .unknown

/-- Calls whatever can be called. -/
def applyTo (callee : Value) (args : List Value) (p : Position) : Eval Value :=
  match callee with
  | .function f => orAt p (callClosure f args)
  | .builtin b  => b.apply args p
  | .cls c      => orAt p (instantiate c args)
  | v           => do
      let text ← textOf v
      fail (.notCallable text) p

end Eval

namespace Job

/-- What a job does, given the answers to the jobs that it asks for. -/
def start : (j : Job) → Eval j.Answer
  | .expr e               => e.start
  | .stmt s               => s.start
  | .loop cond update body => loopTurn cond update body
  | .apply callee args p  => applyTo callee args p

/-- The answer to a job in a machine, where jobs nest no deeper than `depth`. -/
def run : (depth : Nat) → (j : Job) → Machine → Option (Except Error j.Answer × Machine)
  | 0, _, _         => none
  | depth + 1, j, m => (j.start m).complete (run depth)

end Job

/-- The end of a computation, where jobs nest no deeper than `depth`. -/
def Eval.run {α : Type} (depth : Nat) (x : Eval α) (m : Machine) :
    Option (Except Error α × Machine) :=
  (x m).complete (Job.run depth)

end Brace
