import Brace.Proofs.Run.Local

/-!
# Run — what is put back

Whatever a job does, and however it ends, the scope that is current afterwards is the one that was
current before, and as many calls are under way as before. Frames come and go in between: a block
enters one and leaves it, and a call works in another scope than its caller's. What is on the heap
stays there all the time.

* `restoring_kept`: every job puts back the current scope and the number of calls.
* `Progress.Grows.steps`: wherever a run gets to, the heap has grown.
* `run_inBlock`: leaving a block never fails, so what a block gives is what the work in it gives.
* `run_restores`: both, for jobs, declarations and programs.
-/

namespace Brace

variable {α β : Type}

namespace Machine

/-- A change of the heap alone. -/
theorem Restored.ofHeap {m : Machine} {heap : Heap} (h : m.heap.Grown heap) :
    m.Restored { m with heap } := ⟨rfl, rfl, .refl _, h⟩

/-- A change of what has been read or written. -/
theorem restored_io (m : Machine) (input : Input) (output : String) :
    m.Restored { m with input, output } := ⟨rfl, rfl, .refl _, .refl _⟩

/-- A new function leaves the run where it is. -/
theorem restored_newClosure (m : Machine) (f : FuncDecl) (h : Handle) :
    m.Restored (m.newClosure f h).2 := .ofHeap (.newId _)

/-- So does the frame of a class. -/
theorem restored_superFrame (m : Machine) (c : Class) : m.Restored (m.superFrame c).2 :=
  (restored_openFrame m m.here).trans (restored_bind _ _ "super" _)

/-- To leave a frame is to go elsewhere, and nothing more. -/
theorem eq_of_popScope {m m' : Machine} (h : m.popScope = .ok m') : ∃ here, m' = { m with here } := by
  rw [popScope] at h
  split at h <;> cases h
  exact ⟨_, rfl⟩

/-- Leaving a frame leads back to where it was entered from. -/
theorem popScope_of_restored {m m' : Machine} (h : m.pushScope.Restored m') :
    m'.popScope = .ok { m' with here := m.here } := by
  have hp : m'.scopes.pop m'.here = .ok m.here := by
    rw [h.here]; exact Forest.pop_of_grown h.scopes
  rw [popScope, hp]

/-- To leave a block after what was done in it puts back the scope from before it. -/
theorem Restored.leave {m m' : Machine} (h : m.pushScope.Restored m') :
    m.Restored { m' with here := m.here } :=
  ⟨rfl, h.callDepth, (Forest.Grown.push m.scopes m.here).trans h.scopes, h.heap⟩

end Machine

/-- Every job restores. -/
def restoring : Contract where
  Ghost := Unit
  pre _ _ _ := True
  post _ _ m _ m' := m.Restored m'

namespace Progress

/-- Wherever the computation gets to, the heap has grown from `h`, if the jobs that it asks for let
it grow. -/
def Grows (h : Heap) : Progress α → Prop
  | .finished _ m       => h.Grown m.heap
  | .waiting _ m resume =>
      h.Grown m.heap ∧ ∀ r m', m.heap.Grown m'.heap → Grows m'.heap (resume r m')
  | .endless            => True

namespace Grows

/-- What grows from a later heap on grows from an earlier one on. -/
theorem since {h h' : Heap} {p : Progress α} (le : h.Grown h') (hp : p.Grows h') : p.Grows h := by
  cases p with
  | finished r m => exact le.trans hp
  | waiting j m resume => exact ⟨le.trans hp.1, hp.2⟩
  | endless => trivial

/-- What grows and goes on to what grows does so as a whole. -/
theorem andThen {k : Except Error α → Machine → Progress β} : ∀ {p : Progress α} {h : Heap},
    p.Grows h → (∀ r m, h.Grown m.heap → (k r m).Grows m.heap) → (p.andThen k).Grows h := by
  intro p
  induction p with
  | finished r m => intro h hp hk; exact (hk r m hp).since hp
  | waiting j m resume ih =>
      intro h hp hk
      refine ⟨hp.1, fun r m' hm => ih r m' (hp.2 r m' hm) fun r' m₂ hm' => ?_⟩
      exact hk r' m₂ (hp.1.trans (hm.trans hm'))
  | endless => intros; trivial

/-- The machine that the computation has got to. -/
theorem machine {p : Progress α} {h : Heap} {m : Machine} (hp : p.Grows h)
    (e : p.machine? = some m) : h.Grown m.heap := by
  cases p with
  | finished r m' => cases e; exact hp
  | waiting j m' resume => cases e; exact hp.1
  | endless => cases e

end Grows

end Progress

/-- The computation restores, and the heap grows all the while, if the jobs that it asks for do
so. -/
structure Eval.Restores (x : Eval α) : Prop where
  meets : ∀ m, (x m).Meets restoring fun _ m' => m.Restored m'
  grows : ∀ m, (x m).Grows m.heap

namespace Eval.Restores

open Machine

/-! ### Single steps -/

/-- A computation that ends at once or never. -/
theorem of_ends {x : Eval α}
    (h : ∀ m, x m = .endless ∨ ∃ r m', x m = .finished r m' ∧ m.Restored m') : x.Restores := by
  constructor <;> intro m <;> obtain e | ⟨r, m', e, hm⟩ := h m <;> rw [e]
  · trivial
  · exact hm
  · trivial
  · exact hm.heap

/-- What ends at once restores the machine if it does so there. -/
theorem of_finished {x : Eval α} (h : ∀ m, ∃ r m', x m = .finished r m' ∧ m.Restored m') :
    x.Restores := of_ends fun m => .inr (h m)

theorem pure (a : α) : Restores (pure a) := of_finished fun m => ⟨_, m, rfl, .refl m⟩

theorem fail (c : Cause) (p : Position) : Restores (fail c p : Eval α) :=
  of_finished fun m => ⟨_, m, rfl, .refl m⟩

/-- A job that is asked for is taken to restore the machine. -/
theorem ask (j : Job) : Restores (ask j) where
  meets _ := ⟨(), trivial, fun _ _ h => h⟩
  grows _ := ⟨.refl _, fun _ _ _ => .refl _⟩

theorem view (f : Machine → α) : Restores (view f) := of_finished fun m => ⟨_, m, rfl, .refl m⟩

/-- What is consulted leaves the machine as it is. -/
theorem consult (p : Position) (f : Machine → Except Cause α) : Restores (consult p f) :=
  of_finished fun m => by
    simp only [Eval.consult]
    split <;> exact ⟨_, m, rfl, .refl m⟩

theorem textOf (v : Value) : Restores (textOf v) := of_ends fun m => by
  simp only [Eval.textOf]
  split
  · exact .inr ⟨_, m, rfl, .refl m⟩
  · exact .inl rfl

theorem change {f : Machine → Machine} (h : ∀ m : Machine, m.Restored (f m)) :
    Restores (change f) := of_finished fun m => ⟨_, f m, rfl, h m⟩

theorem make {f : Machine → α × Machine} (h : ∀ m : Machine, m.Restored (f m).2) :
    Restores (make f) := of_finished fun m => ⟨_, (f m).2, rfl, h m⟩

/-- A change that may be refused restores the machine if it does so where it is not. -/
theorem update {p : Position} {check : Machine → Except Cause β} {write : β → Machine → Machine}
    (h : ∀ (b : β) (m : Machine), m.Restored (write b m)) : Restores (update p check write) :=
  of_finished fun m => by
    simp only [Eval.update]
    split
    · exact ⟨_, m, rfl, .refl m⟩
    · exact ⟨_, _, rfl, h _ m⟩

/-! ### One thing after another -/

/-- One thing after another restores what either of them does. -/
theorem bind {x : Eval α} {f : α → Eval β} (hx : x.Restores) (hf : ∀ a, (f a).Restores) :
    (x >>= f).Restores where
  meets m := Progress.Meets.andThen <| (hx.meets m).mono fun r m₁ h₁ => by
    cases r with
    | ok a => exact ((hf a).meets m₁).mono fun _ _ h₂ => h₁.trans h₂
    | error e => exact h₁
  grows m := (hx.grows m).andThen fun r m₁ _ => by
    cases r with
    | ok a => exact (hf a).grows m₁
    | error e => exact Heap.Grown.refl m₁.heap

theorem map {x : Eval α} (f : α → β) (hx : x.Restores) : (f <$> x).Restores :=
  hx.bind fun a => pure (f a)

/-- What is done for one after another restores what each of the steps does. -/
theorem forM {γ : Type} {f : γ → Eval Unit} (h : ∀ c, (f c).Restores) :
    ∀ cs : List γ, (cs.forM f).Restores
  | []      => pure _
  | c :: cs => (h c).bind fun _ => forM h cs

/-! ### What is put back on the way out -/

/-- A block puts back the scope. -/
theorem inBlock (p : Position) {x : Eval α} (hx : x.Restores) : (inBlock p x).Restores where
  meets m := Progress.Meets.andThen <| (hx.meets m.pushScope).mono fun r m₁ h => by
    simp only [popScope_of_restored h]
    exact h.leave
  grows m := by
    have hp : (x m.pushScope).Grows m.heap := hx.grows m.pushScope
    refine hp.andThen fun r m₁ _ => ?_
    cases left : m₁.popScope with
    | ok m₂ =>
        obtain ⟨here, rfl⟩ := eq_of_popScope left
        exact Heap.Grown.refl m₁.heap
    | error c => exact Heap.Grown.refl m₁.heap

/-- The work itself is done elsewhere, but restores there. -/
theorem inScope (h : Handle) {x : Eval α} (hx : x.Restores) : (inScope h x).Restores where
  meets m := Progress.Meets.andThen <| (hx.meets { m with here := h }).mono fun _ _ h₁ =>
    ⟨rfl, h₁.callDepth, h₁.scopes, h₁.heap⟩
  grows m := by
    have hp : (x { m with here := h }).Grows m.heap := hx.grows { m with here := h }
    exact hp.andThen fun r m₁ _ => Heap.Grown.refl m₁.heap

/-- A call puts back the depth of calls. -/
theorem counted (p : Position) {x : Eval α} (hx : x.Restores) : (counted p x).Restores where
  meets m := by
    simp only [Eval.counted]
    split
    · refine Progress.Meets.andThen ((hx.meets { m with callDepth := m.callDepth + 1 }).mono ?_)
      intro r m₁ h
      exact ⟨h.here, by simp [h.callDepth], h.scopes, h.heap⟩
    · exact .refl m
  grows m := by
    simp only [Eval.counted]
    split
    · have hp : (x { m with callDepth := m.callDepth + 1 }).Grows m.heap :=
        hx.grows { m with callDepth := m.callDepth + 1 }
      exact hp.andThen fun r m₁ _ => Heap.Grown.refl m₁.heap
    · exact Heap.Grown.refl m.heap

/-- That a failure is given another place changes no machine. -/
theorem orAt (p : Position) {x : Eval α} (hx : x.Restores) : (orAt p x).Restores where
  meets m := Progress.Meets.andThen (hx.meets m)
  grows m := (hx.grows m).andThen fun _ m₁ _ => Heap.Grown.refl m₁.heap

end Eval.Restores

/-! ### Every job -/

variable {A : String → Prop}

/-- That a machine is restored is a relation of this kind. -/
theorem Absorbs.restored : Absorbs A Machine.Restored := ⟨.trans, Machine.Keeps.toRestored⟩

/-- So it is that the heap has grown. -/
theorem Absorbs.grown : Absorbs A fun m m' => m.heap.Grown m'.heap := ⟨.trans, fun h => h.heap⟩

/-- What walks with a heap that grows has a heap that grows. -/
theorem Progress.Walks.grows {es : List Expr} : ∀ {p : Progress α} {m : Machine},
    p.Walks (fun m m' => m.heap.Grown m'.heap) es m → p.Grows m.heap := by
  intro p
  induction p with
  | finished r m' => exact fun hp => hp
  | waiting j m' resume ih => exact fun hp => ⟨hp.1, fun r m₂ h => ih r m₂ (hp.2.2 r m₂ h)⟩
  | endless => exact fun _ => trivial

/-- What stays where it was started restores. -/
theorem Eval.Local.restores {es : List Expr} {x : Eval α} (hx : x.Local A es) : x.Restores where
  meets m := (hx _ .restored m).meets (Absorbs.restored (A := A)) trivial
    (fun _ _ _ _ => ⟨(), trivial, fun _ _ h => h⟩) (.refl m)
  grows m := (hx _ .grown m).grows

namespace Eval

/-- To look a name up restores the machine. -/
theorem restores_lookup (x : String) (p : Position) : (lookup x p).Restores := .consult p _

/-- To define a name restores the machine: what is defined is not undone. -/
theorem restores_defineAt (h : Handle) (x : String) (v : Value) (p : Position) :
    (defineAt h x v p).Restores := .update fun i m => m.restored_bind i x _

theorem restores_define (x : String) (v : Value) (p : Position) : (define x v p).Restores :=
  .update fun i m => m.restored_bind i x _

/-- So does a declaration without a value. -/
theorem restores_declare (x : String) (p : Position) : (declare x p).Restores :=
  .update fun i m => m.restored_bind i x _

end Eval

open Eval

/-- Every form of expression restores the machine. -/
theorem Expr.restores_start (e : Expr) : e.start.Restores := e.local_start.restores

/-- So does a variable. -/
theorem VarDecl.restores_run (v : VarDecl) : v.run.Restores := by
  simp only [VarDecl.run]
  split
  · exact .bind (.ask _) fun _ => restores_define ..
  · exact restores_declare ..

namespace Eval

/-- So do statements that are executed one after another. -/
theorem restores_runStmts (ss : List Stmt) : (runStmts ss).Restores := by
  induction ss with
  | nil => exact .pure _
  | cons s ss ih =>
      refine .bind (.ask (.stmt s)) fun flow => ?_
      cases flow with
      | normal => exact ih
      | _ => exact .pure _

theorem restores_runBody (locals : List VarDecl) (body : List Stmt) :
    (runBody locals body).Restores :=
  .bind (.forM VarDecl.restores_run locals) fun _ => restores_runStmts body

theorem restores_runInit : ∀ init : ForInit, (runInit init).Restores
  | .decl v => v.restores_run
  | .expr _ => .bind (.ask _) fun _ => .pure _

/-- So does a turn of a loop. -/
theorem restores_loopTurn (cond : Expr) (update : Option Expr) (body : Stmt) :
    (loopTurn cond update body).Restores := by
  refine .bind (.ask _) fun v => ?_
  split
  · refine .bind (.ask (.stmt body)) fun flow => ?_
    cases flow with
    | breakLoop => exact .pure _
    | ret v => exact .pure _
    | _ =>
        -- What is left of the turn is the update.
        cases update with
        | some u => exact .bind (.ask _) fun _ => .ask _
        | none => exact .ask _
  · exact .pure _

end Eval

/-- So does every form of statement. -/
theorem Stmt.restores_start (s : Stmt) : s.start.Restores := by
  cases s with
  | block p locals body => exact .inBlock p (restores_runBody locals body)
  | ifElse p cond t e =>
      refine .bind (.ask _) fun v => ?_
      split <;> exact .ask _
  | whileLoop p cond body => exact .ask (.loop ..)
  | forLoop p init cond update body =>
      exact .inBlock p (.bind (restores_runInit init) fun _ => .ask (.loop ..))
  | ret p e =>
      cases e with
      | some e => exact .bind (.ask _) fun _ => .pure _
      | none => exact .pure _
  | expr p e => exact .bind (.ask _) fun _ => .pure _
  | _ => exact .pure _

/-! ### Calls -/

/-- A built-in function only reads input and writes output. -/
theorem Builtin.call_io {b : Builtin} {args : List Value} {m m' : Machine}
    {r : Except Cause Value} (h : b.call args m = some (r, m')) :
    ∃ input output, m' = { m with input, output } := by
  unfold Builtin.call at h
  split at h
  · obtain ⟨text, -, e⟩ := Option.map_eq_some_iff.mp h
    cases e
    exact ⟨_, _, rfl⟩
  · obtain ⟨text, -, e⟩ := Option.map_eq_some_iff.mp h
    have hm : ((m.print text).readLine).2 = m' := by split at e <;> simp_all
    exact ⟨_, _, hm.symm⟩
  all_goals cases h; exact ⟨_, _, rfl⟩

/-- A builtin restores the machine. -/
theorem Builtin.restored_call {b : Builtin} {args : List Value} {m m' : Machine}
    {r : Except Cause Value} (h : b.call args m = some (r, m')) : m.Restored m' := by
  obtain ⟨input, output, rfl⟩ := Builtin.call_io h
  exact m.restored_io input output

theorem Builtin.restores_apply (b : Builtin) (args : List Value) (p : Position) :
    (b.apply args p).Restores := .of_ends fun m => by
  simp only [Builtin.apply]
  split
  · split
    · exact .inr ⟨_, _, rfl, Builtin.restored_call ‹_›⟩
    · exact .inr ⟨_, _, rfl, Builtin.restored_call ‹_›⟩
    · exact .inl rfl
  · exact .inr ⟨_, m, rfl, .refl m⟩

namespace Eval

/-- Parameters are bound in a frame that is not the current one. -/
theorem restores_bindParams (h : Handle) (p : Position) (params : List Param) (args : List Value) :
    (bindParams h p params args).Restores :=
  .forM (f := fun x : Param × Value => defineAt h x.1.name x.2 p)
    (fun x => restores_defineAt h x.1.name x.2 p) _

theorem restores_result (f : FuncDecl) : ∀ flow : Flow, (result f flow).Restores
  | .normal       => .pure _
  | .ret _        => .pure _
  | .breakLoop    => .fail _ _
  | .continueLoop => .fail _ _

/-- A call of a function restores the machine, whatever its body does. -/
theorem restores_callClosure (f : Closure) (args : List Value) : (callClosure f args).Restores := by
  simp only [callClosure]
  split
  · exact .bind (.make fun m => m.restored_openFrame f.scope) fun frame =>
      .bind (restores_bindParams ..) fun _ =>
        .bind (.counted _ (.inScope frame (restores_runBody ..))) fun flow =>
          restores_result f.decl flow
  · exact .fail _ _

/-- So does a call of a class. -/
theorem restores_instantiate (c : Class) (args : List Value) : (instantiate c args).Restores := by
  refine .bind (.make fun _ => .ofHeap (.newObject _)) fun o => ?_
  split
  · exact .bind (.make fun m =>
        (Machine.Keeps.bindMethod (A := anywhere) (Nat.le_refl _) o _).toRestored) fun f =>
      .bind (restores_callClosure f args) fun _ => .pure _
  · split
    · exact .pure _
    · exact .fail _ _

/-- So does a call of anything. -/
theorem restores_applyTo (callee : Value) (args : List Value) (p : Position) :
    (applyTo callee args p).Restores := by
  cases callee with
  | function f => exact .orAt p (restores_callClosure f args)
  | builtin b => exact b.restores_apply args p
  | cls c => exact .orAt p (restores_instantiate c args)
  | _ => exact .bind (.textOf _) fun _ => .fail _ _

end Eval

/-- Every job restores the machine. -/
theorem Job.restores_start : ∀ j : Job, j.start.Restores
  | .expr e                => e.restores_start
  | .stmt s                => s.restores_start
  | .loop cond update body => restores_loopTurn cond update body
  | .apply callee args p   => restores_applyTo callee args p

/-- Every job restores. -/
theorem restoring_kept : restoring.Kept := fun _ j m _ => j.restores_start.meets m

/-- Wherever a run gets to, the heap has grown. -/
theorem Progress.Grows.steps {p q : Progress α} (hs : p.Steps q) :
    ∀ {h : Heap}, p.Grows h → q.Grows h := by
  induction hs with
  | refl => exact fun hp => hp
  | @more j m resume q _ ih =>
      intro h hp
      refine ih (Grows.since hp.1 ?_)
      exact (j.restores_start.grows m).andThen hp.2

/-! ### Declarations and programs -/

namespace Eval

/-- To look for the superclass restores the machine. -/
theorem restores_superclassOf (d : ClassDecl) : (superclassOf d).Restores := by
  simp only [superclassOf]
  split
  · refine .map _ (.bind (restores_lookup ..) fun v => ?_)
    cases v <;> first | exact .pure _ | exact .fail _ _
  · exact .pure _

theorem restores_methodScope : ∀ superclass : Option Class, (methodScope superclass).Restores
  | some c => .make (f := (·.superFrame c)) fun m => m.restored_superFrame c
  | none   => .view _

/-- To declare a class restores the machine. -/
theorem restores_defineClass (d : ClassDecl) : (defineClass d).Restores :=
  .bind (restores_superclassOf d) fun superclass => .bind (restores_methodScope superclass) fun _ =>
    .bind (.make fun _ => .ofHeap (.newId _)) fun _ => restores_define ..

theorem restores_echo (v : Value) : (echo v).Restores := by
  refine .bind (.view _) fun b => ?_
  split
  · exact .bind (.textOf v) fun _ => .change fun m => m.restored_io _ _
  · exact .pure _

end Eval

/-- Every declaration does. -/
theorem Decl.restores_run : ∀ d : Decl, d.run.Restores
  | .var v  => v.restores_run
  | .func f => .bind (.make fun m => m.restored_newClosure f m.here) fun _ => restores_define ..
  | .cls d  => restores_defineClass d

/-- So does a program. -/
theorem Program.restores_run (p : Program) : (Program.run p).Restores := by
  simp only [Program.run]
  split
  · exact .fail _ _
  · split
    · exact .bind (.forM Decl.restores_run p) fun _ => .bind (restores_lookup ..) fun _ =>
        .bind (.ask (.apply ..)) fun v => .bind (restores_echo v) fun _ => .pure _
    · exact .fail _ _

/-! ### What runs put back -/

/-- What restores one layer at a time restores. -/
theorem Eval.Restores.run {x : Eval α} (hx : x.Restores) {depth : Nat} {m m' : Machine}
    {r : Except Error α} (h : x.run depth m = some (r, m')) : m.Restored m' :=
  run_of_meets restoring_kept (hx.meets m) h

/-- Leaving a block never fails: what a block gives is what the work in it gives, and it is left
for the scope that it was entered from. -/
theorem run_inBlock (p : Position) {x : Eval α} (hx : x.Restores) (depth : Nat) (m : Machine) :
    (inBlock p x).run depth m =
      (x.run depth m.pushScope).map fun y => (y.1, { y.2 with here := m.here }) := by
  simp only [Eval.run, inBlock, Progress.complete_andThen]
  cases h : (x m.pushScope).complete (Job.run depth) with
  | none => rfl
  | some y =>
      have hp := Machine.popScope_of_restored (hx.run h)
      simp only [Option.bind_some, Option.map_some, hp, Progress.complete]

/-- **What is put back.**  However a job, a declaration or a program ends, the current scope is
the same frame at the same depth as before, and as many calls are under way. A block and a `for`
loop end as the work in their frame does. -/
theorem run_restores (depth : Nat) (m : Machine) :
    (∀ j r m', Job.run depth j m = some (r, m') →
      m'.here = m.here ∧ m'.callDepth = m.callDepth) ∧
    (∀ d r m', (Decl.run d).run depth m = some (r, m') →
      m'.here = m.here ∧ m'.callDepth = m.callDepth) ∧
    (∀ p r m', (Program.run p).run depth m = some (r, m') →
      m'.here = m.here ∧ m'.callDepth = m.callDepth) ∧
    (∀ p locals body, Job.run (depth + 1) (.stmt (.block p locals body)) m =
      ((runBody locals body).run depth m.pushScope).map
        fun y => (y.1, { y.2 with here := m.here })) ∧
    (∀ p init cond update body, Job.run (depth + 1) (.stmt (.forLoop p init cond update body)) m =
      (((do runInit init; ask (.loop cond (some update) body)) : Eval Flow).run depth
        m.pushScope).map fun y => (y.1, { y.2 with here := m.here })) := by
  refine ⟨fun j r m' h => ?_, fun d r m' h => ?_, fun p r m' h => ?_, fun p locals body => ?_,
    fun p init cond update body => ?_⟩
  · have := restoring_kept.answers (g := ()) trivial ⟨depth, h⟩
    exact ⟨this.here, this.callDepth⟩
  · have := (Decl.restores_run d).run h
    exact ⟨this.here, this.callDepth⟩
  · have := (Program.restores_run p).run h
    exact ⟨this.here, this.callDepth⟩
  · exact run_inBlock p (restores_runBody locals body) depth m
  · exact run_inBlock p (.bind (restores_runInit init) fun _ => .ask (.loop ..)) depth m

end Brace
