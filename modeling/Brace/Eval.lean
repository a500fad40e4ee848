import Brace.Machine

/-!
# Eval — evaluation as jobs that ask for jobs

Evaluating one node of a program takes a bounded amount of work between the evaluations of the
nodes inside it. Those are asked for by name, as a `Job`: an expression, a statement, another turn
of a loop, or a call. So what a node means is a `Progress`, which has finished in some machine, or
waits in some machine for the answer to a job and says how it resumes; and no definition of what a
node means is recursive. The recursion is in `Job.run` alone, which answers jobs down to a given
depth. A job that is not answered at any depth does not end.

`Eval` is the monad of computations that start in a machine. A failure ends a computation but is an
answer like any other to `andThen`, so what has to be put back on the way out is put back in any
case (`inBlock`, `inScope`, `counted`).

* `Progress.andThen_andThen`: continuations compose, so `Eval` is a lawful monad.
* `Progress.complete_andThen`: to carry on past a continuation is to carry on to it and then past
  it.
-/

namespace Brace

/-- How a statement ends when it does not fail. -/
inductive Flow where
  | normal
  | ret (v : Value)
  | breakLoop
  | continueLoop
  deriving Inhabited

/-- What one evaluation can ask another for. -/
inductive Job where
  | expr (e : Expr)
  | stmt (s : Stmt)
  /-- A loop from the test of its condition on. -/
  | loop (cond : Expr) (update : Option Expr) (body : Stmt)
  | apply (callee : Value) (args : List Value) (pos : Position)
  deriving Inhabited

/-- What a job gives. -/
abbrev Job.Answer : Job → Type
  | .expr _   => Value
  | .stmt _   => Flow
  | .loop ..  => Flow
  | .apply .. => Value

/-- A computation, as far as it gets on its own. -/
inductive Progress (α : Type) where
  | finished (result : Except Error α) (m : Machine)
  /-- Waits in `m` for a job. -/
  | waiting (j : Job) (m : Machine) (resume : Except Error j.Answer → Machine → Progress α)
  /-- Never ends: it shows a value that has no text. -/
  | endless

namespace Progress

variable {α β : Type}

/-- Goes on with the result, be it a failure, once there is one. -/
def andThen : Progress α → (Except Error α → Machine → Progress β) → Progress β
  | .finished r m, k       => k r m
  | .waiting j m resume, k => .waiting j m fun r m => (resume r m).andThen k
  | .endless, _            => .endless

/-- Goes on with a value, and ends with a failure. -/
@[inline] def onValue (f : α → Machine → Progress β) : Except Error α → Machine → Progress β
  | .ok a, m    => f a m
  | .error e, m => .finished (.error e) m

/-- Carries on to the end, given how to answer jobs. -/
def complete (answer : (j : Job) → Machine → Option (Except Error j.Answer × Machine)) :
    Progress α → Option (Except Error α × Machine)
  | .finished r m       => some (r, m)
  | .waiting j m resume =>
      match answer j m with
      | some (r, m) => (resume r m).complete answer
      | none        => none
  | .endless            => none

@[simp] theorem finished_andThen (r : Except Error α) (m : Machine)
    (k : Except Error α → Machine → Progress β) : (finished r m).andThen k = k r m := rfl

@[simp] theorem andThen_finished (p : Progress α) : p.andThen .finished = p := by
  induction p with
  | finished r m => rfl
  | waiting j m resume ih => simp only [andThen, ih]
  | endless => rfl

theorem andThen_andThen {γ : Type} (p : Progress α) (k : Except Error α → Machine → Progress β)
    (l : Except Error β → Machine → Progress γ) :
    (p.andThen k).andThen l = p.andThen fun r m => (k r m).andThen l := by
  induction p with
  | finished r m => rfl
  | waiting j m resume ih => simp only [andThen, ih]
  | endless => rfl

/-- To carry on past a continuation is to carry on to it and then past it. -/
theorem complete_andThen
    (answer : (j : Job) → Machine → Option (Except Error j.Answer × Machine))
    (p : Progress α) (k : Except Error α → Machine → Progress β) :
    (p.andThen k).complete answer =
      (p.complete answer).bind fun x => (k x.1 x.2).complete answer := by
  induction p with
  | finished r m => rfl
  | waiting j m resume ih =>
      simp only [andThen, complete]
      cases answer j m with
      | none => rfl
      | some x => exact ih x.1 x.2
  | endless => rfl

end Progress

/-- A computation that starts in a machine. -/
def Eval (α : Type) : Type := Machine → Progress α

namespace Eval

variable {α β : Type}

instance : Monad Eval where
  pure a := fun m => .finished (.ok a) m
  bind x f := fun m => (x m).andThen (Progress.onValue f)

theorem pure_apply (a : α) (m : Machine) : (pure a : Eval α) m = .finished (.ok a) m := rfl

theorem bind_apply (x : Eval α) (f : α → Eval β) (m : Machine) :
    (x >>= f) m = (x m).andThen (Progress.onValue f) := rfl

instance : LawfulMonad Eval := LawfulMonad.mk' Eval
  (fun x => by
    funext m
    refine (congrArg (x m).andThen ?_).trans (x m).andThen_finished
    funext r m; cases r <;> rfl)
  (fun _ _ => rfl)
  (fun x f g => by
    funext m
    simp only [bind_apply, Progress.andThen_andThen]
    congr; funext r m; cases r <;> rfl)

/-! ### Single steps -/

def fail (c : Cause) (p : Position) : Eval α := fun m => .finished (.error ⟨c, p⟩) m

/-- The value of a part that may fail, blamed on `p`. -/
def ofExcept (p : Position) : Except Cause α → Eval α
  | .ok a    => pure a
  | .error c => fail c p

/-- Waits for a job. -/
def ask (j : Job) : Eval j.Answer := fun m => .waiting j m .finished

def endless : Eval α := fun _ => .endless

/-- Looks at the machine. -/
def view (f : Machine → α) : Eval α := fun m => .finished (.ok (f m)) m

/-- Looks at the machine, and may fail. -/
def consult (p : Position) (f : Machine → Except Cause α) : Eval α := fun m =>
  match f m with
  | .ok a    => .finished (.ok a) m
  | .error c => .finished (.error ⟨c, p⟩) m

/-- Changes the machine. -/
def change (f : Machine → Machine) : Eval Unit := fun m => .finished (.ok ()) (f m)

/-- Changes the machine and gives what the change brings. -/
def make (f : Machine → α × Machine) : Eval α := fun m =>
  let (a, m) := f m
  .finished (.ok a) m

/-- A write in two parts: what the check allows is written, and a refusal changes nothing. -/
@[inline] def update (p : Position) (check : Machine → Except Cause β)
    (write : β → Machine → Machine) : Eval Unit := fun m =>
  match check m with
  | .error c => .finished (.error ⟨c, p⟩) m
  | .ok b    => .finished (.ok ()) (write b m)

/-! ### Names -/

def lookup (x : String) (p : Position) : Eval Value := consult p (·.lookup x)

def assign (x : String) (v : Value) (p : Position) : Eval Unit :=
  update p (fun m => m.scopes.assignable m.here x) fun i m => m.bind i x (some v)

/-- Defines a name in the frame of `h`. -/
def defineAt (h : Handle) (x : String) (v : Value) (p : Position) : Eval Unit :=
  update p (fun m => m.scopes.definable h x) fun i m => m.bind i x (some v)

def define (x : String) (v : Value) (p : Position) : Eval Unit :=
  update p (fun m => m.scopes.definable m.here x) fun i m => m.bind i x (some v)

def declare (x : String) (p : Position) : Eval Unit :=
  update p (fun m => m.scopes.declarable m.here x) fun i m => m.bind i x none

/-! ### What is put back on the way out -/

/-- Works in a new frame of the current scope and leaves it however the work ends. -/
def inBlock (p : Position) (x : Eval α) : Eval α := fun m =>
  (x m.pushScope).andThen fun r m =>
    match m.popScope with
    | .ok m    => .finished r m
    | .error c => .finished (.error ⟨c, p⟩) m

/-- Works in another scope and comes back however the work ends. -/
def inScope (h : Handle) (x : Eval α) : Eval α := fun m =>
  let caller := m.here
  (x { m with here := h }).andThen fun r m => .finished r { m with here := caller }

/-- Works as one more call, unless calls are nested as deep as they may be. -/
def counted (p : Position) (x : Eval α) : Eval α := fun m =>
  if m.callDepth < m.settings.maxCallDepth then
    (x { m with callDepth := m.callDepth + 1 }).andThen fun r m =>
      .finished r { m with callDepth := m.callDepth - 1 }
  else .finished (.error ⟨.stackExhausted m.settings.maxCallDepth, p⟩) m

/-- Gives a failure as an answer instead of failing. -/
def attempt (x : Eval α) : Eval (Except Error α) := fun m =>
  (x m).andThen fun r m => .finished (.ok r) m

/-- Blames on `p` a failure that is blamed on no place yet. -/
def orAt (p : Position) (x : Eval α) : Eval α := fun m =>
  (x m).andThen fun r m => .finished (r.mapError (·.orAt p)) m

/-! ### Text -/

/-- The text of a value. -/
def textOf (v : Value) : Eval String := fun m =>
  match m.heap.text? v with
  | some s => .finished (.ok s) m
  | none   => .endless

end Eval

end Brace
