import Brace.Proofs.Heap.Accesses
import Brace.Proofs.Run.Scanning

/-!
# Run — accounts of what is done with arrays

Where a program makes an array, gets an element of one or sets one, evaluation does so in the midst of
other work: between two questions there may be more than one such access, and a scan has one after each
word that it reads. An account is a computation that tells of each access when it comes to it. Expressions
that make, get and set elements are evaluated again here, so that they tell of it; all else has nothing to
tell. Without what is told, an account is the computation that it is an account of, so each run has a
history of what it has done with arrays.

* `Job.forget_recount`: without what it tells, the account of a job is what the job does.
* `Account.comes_iff_steps`: each place that a run gets to has a history, and with a history one gets to
  no other places.
-/

namespace Brace

open Eval

variable {α β γ : Type}

/-- A computation as far as it gets on its own, which tells what it does with arrays. -/
inductive Account (α : Type) where
  | finished (result : Except Error α) (m : Machine)
  | waiting (j : Job) (m : Machine) (resume : Except Error j.Answer → Machine → Account α)
  | endless
  | telling (e : Event) (rest : Account α)

namespace Account

/-- Goes on with the result, be it a failure, once there is one. -/
def andThen : Account α → (Except Error α → Machine → Account β) → Account β
  | .finished r m, k       => k r m
  | .waiting j m resume, k => .waiting j m fun r m => (resume r m).andThen k
  | .endless, _            => .endless
  | .telling e rest, k     => .telling e (rest.andThen k)

/-- Goes on with a value, and ends with a failure. -/
def onValue (f : α → Machine → Account β) : Except Error α → Machine → Account β
  | .ok a, m    => f a m
  | .error e, m => .finished (.error e) m

/-- The computation without what it tells. -/
def forget : Account α → Progress α
  | .finished r m       => .finished r m
  | .waiting j m resume => .waiting j m fun r m => (resume r m).forget
  | .endless            => .endless
  | .telling _ rest     => rest.forget

/-- What two accounts say one after another comes to what they come to. -/
theorem forget_andThen (a : Account α) (k : Except Error α → Machine → Account β) :
    (a.andThen k).forget = a.forget.andThen fun r m => (k r m).forget := by
  induction a with
  | finished r m => rfl
  | waiting j m resume ih => simp only [andThen, forget, Progress.andThen, ih]
  | endless => rfl
  | telling e rest ih => exact ih

end Account

/-- A computation that has nothing to tell. -/
def Progress.quiet : Progress α → Account α
  | .finished r m       => .finished r m
  | .waiting j m resume => .waiting j m fun r m => (resume r m).quiet
  | .endless            => .endless

namespace Progress

/-- Quiet computations are quiet together. -/
theorem quiet_andThen (p : Progress α) (k : Except Error α → Machine → Progress β) :
    (p.andThen k).quiet = p.quiet.andThen fun r m => (k r m).quiet := by
  induction p with
  | finished r m => rfl
  | waiting j m resume ih => simp only [andThen, quiet, Account.andThen, ih]
  | endless => rfl

/-- A quiet computation is what it was. -/
@[simp] theorem forget_quiet (p : Progress α) : p.quiet.forget = p := by
  induction p with
  | finished r m => rfl
  | waiting j m resume ih => simp only [quiet, Account.forget, ih]
  | endless => rfl

end Progress

/-! ### Telling -/

/-- A computation that starts in a machine, and tells what it does with arrays. -/
def Telling (α : Type) : Type := Machine → Account α

namespace Telling

instance : Monad Telling where
  pure a := fun m => .finished (.ok a) m
  bind x f := fun m => (x m).andThen (Account.onValue f)

/-- There is nothing to tell. -/
def quiet (x : Eval α) : Telling α := fun m => (x m).quiet

/-- Does something with arrays and tells of it, and fails where that fails. -/
def access (a : Access) (p : Position) : Telling a.Answer := fun m =>
  .telling ⟨a, (m.heap.access a).1⟩ <|
    .finished ((m.heap.access a).1.mapError (⟨·, p⟩)) { m with heap := (m.heap.access a).2 }

def make (t : Ty) (n : Nat) (p : Position) : Telling ArrayId := access (.make t n) p

def get (id : ArrayId) (i : Int64) (p : Position) : Telling Value := access (.get id i) p

def set (id : ArrayId) (i : Int64) (v : Value) (p : Position) : Telling Unit := access (.set id i v) p

/-- The computation without what it tells. -/
def forget (x : Telling α) : Eval α := fun m => (x m).forget

@[simp] theorem forget_pure (a : α) : (pure a : Telling α).forget = pure a := rfl

@[simp] theorem forget_quiet (x : Eval α) : (quiet x).forget = x := by
  funext m
  exact (x m).forget_quiet

/-- Telling does not change what is done one after another. -/
@[simp] theorem forget_bind (x : Telling α) (f : α → Telling β) :
    (x >>= f).forget = x.forget >>= fun a => (f a).forget := by
  funext m
  refine ((x m).forget_andThen _).trans (congrArg (x m).forget.andThen ?_)
  funext r m
  cases r <;> rfl

/-- Nor does it change what is done for one after another. -/
theorem forget_forM {f : γ → Telling Unit} {g : γ → Eval Unit} (h : ∀ c, (f c).forget = g c)
    (cs : List γ) : (cs.forM f).forget = cs.forM g := by
  induction cs with
  | nil => rfl
  | cons c cs ih =>
      show (f c >>= fun _ => cs.forM f).forget = g c >>= fun _ => cs.forM g
      rw [forget_bind, h, ih]

/-- To tell of a new array does not change that it is made. -/
theorem forget_make (t : Ty) (n : Nat) (p : Position) (m : Machine) :
    (make t n p).forget m = match m.heap.newArray t n with
      | .error c       => .finished (.error ⟨c, p⟩) m
      | .ok (id, heap) => .finished (.ok id) { m with heap } := by
  simp only [forget, make, access, Account.forget, Heap.access]
  cases m.heap.newArray t n <;> rfl

/-- To tell of an element does not change that it is got. -/
@[simp] theorem forget_get (id : ArrayId) (i : Int64) (p : Position) :
    (get id i p).forget = Eval.element id i p := by
  funext m
  simp only [forget, get, access, Account.forget, Heap.access, Eval.element, consult]
  cases m.heap.element id i <;> rfl

/-- Nor does it change that it is set. -/
@[simp] theorem forget_set (id : ArrayId) (i : Int64) (v : Value) (p : Position) :
    (set id i v p).forget = Eval.setElement id i v p := by
  funext m
  simp only [forget, set, access, Account.forget, Heap.access, Heap.setElement, Eval.setElement,
    update]
  cases m.heap.slot id i <;> rfl

end Telling

/-! ### Words and what is stored -/

namespace Eval

/-- What the next word of input is read as. -/
def scanned (p : Position) (s : Specifier) : Eval Value := do
  match ← make Machine.readWord with
  | none      => fail (.builtinCallFailure "scanf" "input stream is exhausted") p
  | some word =>
      match s.read word with
      | some v => pure v
      | none   =>
          fail (.builtinCallFailure "scanf"
            ("cannot read " ++ Text.quote (String.ofList word) ++ " as " ++ s.ty.text)) p

/-- To scan is to read a value and then to store it. -/
theorem scanInto_eq_scanned (p : Position) (s : Specifier) (target : Expr) :
    scanInto p s target = scanned p s >>= fun v => store v target := by
  rw [scanned, bind_assoc]
  refine bind_congr fun word => ?_
  cases word with
  | none => rfl
  | some word =>
      dsimp only
      cases s.read word <;> rfl

end Eval

/-! ### Expressions that tell -/

namespace Telling

/-- An array is made. A size below zero is refused before there is anything to tell. -/
def newArray (t : Ty) (size : Int64) (p : Position) : Telling Value :=
  if size < 0 then quiet (fail (.indexOutOfBounds size.toInt 0) p)
  else do
    let id ← make t size.toInt.toNat p
    pure (.array id)

def read (p : Position) : Place → Telling Value
  | .element id i => get id i p
  | here          => quiet (here.read p)

def write (v : Value) (p : Position) : Place → Telling Unit
  | .element id i => set id i v p
  | here          => quiet (here.write v p)

def step (form : StepForm) (target : Expr) : Telling Value := do
  let here ← quiet (place target)
  let old ← read target.pos here
  let new ← quiet (ofExcept target.pos (stepped form old))
  write new target.pos here
  pure (if form.yieldsNew then new else old)

def scanInto (p : Position) (s : Specifier) (target : Expr) : Telling Unit := do
  let v ← quiet (scanned p s)
  let here ← quiet (place target)
  write v target.pos here

def scan (p : Position) (template : String) (targets : List Expr) : Telling Unit :=
  let specifiers := Template.specifiers template
  if specifiers.length = targets.length then
    (specifiers.zip targets).forM fun x => scanInto p x.1 x.2
  else quiet (Eval.scan p template targets)

/-- Telling does not change how an array is made. -/
theorem forget_newArray (t : Ty) (size : Int64) (p : Position) :
    (newArray t size p).forget = Eval.newArray t size p := by
  funext m
  simp only [newArray, Eval.newArray]
  split
  · rfl
  · rw [forget_bind, bind_apply, forget_make]
    cases m.heap.newArray t size.toInt.toNat <;> rfl

@[simp] theorem forget_read (p : Position) (here : Place) : (read p here).forget = here.read p := by
  cases here <;> simp [read, Place.read]

@[simp] theorem forget_write (v : Value) (p : Position) (here : Place) :
    (write v p here).forget = here.write v p := by
  cases here <;> simp [write, Place.write]

/-- Nor how a step is taken. -/
theorem forget_step (form : StepForm) (target : Expr) :
    (step form target).forget = Eval.step form target := by
  simp only [step, Eval.step, forget_bind, forget_quiet, forget_read, forget_write, forget_pure]

/-- Nor how a word is read. -/
theorem forget_scanInto (p : Position) (s : Specifier) (target : Expr) :
    (scanInto p s target).forget = Eval.scanInto p s target := by
  simp only [scanInto, scanInto_eq_scanned, store, forget_bind, forget_quiet, forget_write]

theorem forget_scan (p : Position) (template : String) (targets : List Expr) :
    (scan p template targets).forget = Eval.scan p template targets := by
  simp only [scan]
  split
  · rename_i many
    rw [Eval.scan, if_pos many]
    exact forget_forM (fun x : Specifier × Expr => forget_scanInto p x.1 x.2) _
  · exact forget_quiet _

end Telling

open Telling (quiet) in
/-- What an expression does, with what it tells of the arrays that it uses. -/
def Expr.recount : Expr → Telling Value
  | .arrayNew n t e => do
      let size ← quiet e.eval
      let size ← quiet (expectInt size n.pos)
      Telling.newArray t size n.pos
  | .index n x ie => do
      let id ← quiet (lookupArray x n.pos)
      let i ← quiet ie.eval
      let i ← quiet (expectInt i n.pos)
      Telling.get id i n.pos
  | .indexAssign n x ie e => do
      let id ← quiet (lookupArray x n.pos)
      let i ← quiet ie.eval
      let i ← quiet (expectInt i n.pos)
      let v ← quiet e.eval
      Telling.set id i v n.pos
      pure v
  | .step _ form target => Telling.step form target
  | .scanf n format targets => do
      let v ← quiet format.eval
      let template ← quiet (expectString v n.pos)
      Telling.scan n.pos template targets
      pure .nil
  | e => quiet e.start

/-- What an expression tells does not change its evaluation. -/
theorem Expr.forget_recount (e : Expr) : e.recount.forget = e.start := by
  cases e with
  | arrayNew n t e =>
      simp only [recount, start, Telling.forget_bind, Telling.forget_quiet,
        Telling.forget_newArray]
  | index n x i =>
      simp only [recount, start, Telling.forget_bind, Telling.forget_quiet, Telling.forget_get]
  | indexAssign n x i e =>
      simp only [recount, start, Telling.forget_bind, Telling.forget_quiet, Telling.forget_set,
        Telling.forget_pure]
  | step n form target => exact Telling.forget_step form target
  | scanf n format targets =>
      simp only [recount, start, Telling.forget_bind, Telling.forget_quiet, Telling.forget_scan,
        Telling.forget_pure]
  | _ => exact Telling.forget_quiet _

namespace Job

/-- What a job does, with what it tells. Only expressions use arrays themselves. -/
def recount : (j : Job) → Telling j.Answer
  | .expr e                => e.recount
  | .stmt s                => Telling.quiet s.start
  | .loop cond update body => Telling.quiet (loopTurn cond update body)
  | .apply callee args p   => Telling.quiet (applyTo callee args p)

/-- Without what it tells, the account of a job is what the job does. -/
theorem forget_recount : ∀ j : Job, j.recount.forget = j.start
  | .expr e   => e.forget_recount
  | .stmt _   => Telling.forget_quiet _
  | .loop ..  => Telling.forget_quiet _
  | .apply .. => Telling.forget_quiet _

end Job

/-! ### Runs and their histories -/

/-- How far a run gets, and what it has told by then. What it tells comes before the job that it
waits for next, and before its end. -/
inductive Account.Comes : Account α → History → Progress α → Prop where
  | finished (r : Except Error α) (m : Machine) : Comes (.finished r m) [] (.finished r m)
  | endless : Comes .endless [] .endless
  | waiting (j : Job) (m : Machine) (resume : Except Error j.Answer → Machine → Account α) :
      Comes (.waiting j m resume) [] (.waiting j m fun r m => (resume r m).forget)
  | telling {e : Event} {rest : Account α} {es : History} {q : Progress α} (t : Comes rest es q) :
      Comes (.telling e rest) (e :: es) q
  | more {j : Job} {m : Machine} {resume : Except Error j.Answer → Machine → Account α}
      {es : History} {q : Progress α} (t : Comes ((j.recount m).andThen resume) es q) :
      Comes (.waiting j m resume) es q

namespace Account

/-- To begin a job and then go on is the same without what is told. -/
theorem forget_begun (j : Job) (m : Machine) (resume : Except Error j.Answer → Machine → Account α) :
    ((j.recount m).andThen resume).forget = (j.start m).andThen fun r m => (resume r m).forget := by
  rw [forget_andThen]
  exact congrArg (fun x : Eval j.Answer => (x m).andThen _) j.forget_recount

/-- What an account comes to, the run comes to. -/
theorem Comes.steps {a : Account α} {es : History} {q : Progress α} (h : a.Comes es q) :
    a.forget.Steps q := by
  induction h with
  | finished r m => exact .refl _
  | endless => exact .refl _
  | waiting j m resume => exact .refl _
  | telling _ ih => exact ih
  | more _ ih =>
      refine .more ?_
      rw [← forget_begun]
      exact ih

/-- What is told before a job is waited for, or before the end. -/
def told : Account α → History
  | .telling e rest => e :: rest.told
  | _               => []

/-- What is left when this has been told. -/
def left : Account α → Account α
  | .telling _ rest => rest.left
  | a               => a

/-- What has been told at once is what an account comes to first. -/
theorem comes_told (a : Account α) : a.Comes a.told a.forget := by
  induction a with
  | finished r m => exact .finished r m
  | waiting j m resume => exact .waiting j m resume
  | endless => exact .endless
  | telling e rest ih => exact .telling ih

/-- What is come to after what has been told is come to. -/
theorem Comes.of_left {a : Account α} {es : History} {q : Progress α} (h : a.left.Comes es q) :
    a.Comes (a.told ++ es) q := by
  induction a with
  | telling e rest ih => exact .telling (ih h)
  | _ => exact h

@[simp] theorem forget_left (a : Account α) : a.left.forget = a.forget := by
  induction a with
  | telling e rest ih => exact ih
  | _ => rfl

/-- What a run comes to, its account comes to with a history. -/
theorem exists_comes {a : Account α} {p q : Progress α} (e : a.forget = p) (h : p.Steps q) :
    ∃ es, a.Comes es q := by
  induction h generalizing a with
  | refl p =>
      subst e
      exact ⟨_, a.comes_told⟩
  | @more j m resume q _ ih =>
      -- What the account tells before it waits for the job comes first.
      induction a with
      | finished r m => cases e
      | endless => cases e
      | telling e' rest ih' =>
          obtain ⟨es, h⟩ := ih' e
          exact ⟨e' :: es, .telling h⟩
      | waiting j' m' resume' =>
          cases e
          obtain ⟨es, h⟩ := ih (forget_begun j m resume')
          exact ⟨es, .more h⟩

/-- Each place that a run gets to has a history, and with a history one gets to no other places. -/
theorem comes_iff_steps (a : Account α) (q : Progress α) :
    a.forget.Steps q ↔ ∃ es, a.Comes es q :=
  ⟨exists_comes rfl, fun ⟨_, h⟩ => h.steps⟩

/-- What has been told, and what is left, when a number of jobs have been begun. -/
def after : Nat → Account α → History × Account α
  | 0, a     => (a.told, a.left)
  | n + 1, a =>
      match a.left with
      | .waiting j m resume =>
          let rest := ((j.recount m).andThen resume).after n
          (a.told ++ rest.1, rest.2)
      | b => (a.told, b)

/-- After some answers, an account has come to what is left of it. -/
theorem comes_after : ∀ (n : Nat) (a : Account α), a.Comes (a.after n).1 (a.after n).2.forget
  | 0, a     => a.forget_left ▸ a.comes_told
  | n + 1, a => by
      rw [after]
      split
      · rename_i j m resume waits
        refine .of_left ?_
        rw [waits]
        exact .more (comes_after n _)
      · exact a.forget_left ▸ a.comes_told

end Account

end Brace
