import Brace.Proofs.Run.Asks
import Brace.Proofs.Run.Restore

/-!
# Run — frames keep their names

A statement or a call may open frames, and what is declared in it is bound in frames that it has
opened. So the frames that were there before get no names and lose none, and their bindings change
by assignments alone, each of which is made by an expression that is evaluated on the way.

Whether a computation gives names only to new frames depends on the frame that it works in, so
unlike `Eval.Restores` this is a statement about a computation in a machine (`Eval.Stays`).

* `Job.stays`: one layer of evaluation leaves the frames that were there as they are.
* `Job.spares_of_run`: so does a run, and what is assigned to is assigned by an expression of it.
* `run_grows`: frames, arrays and objects are kept by every job.
-/

namespace Brace

variable {α β : Type} {A : FrameId → String → Prop} {n : FrameId} {m m' : Machine}

/-- From the machine on, the computation asks for what the contract lets it ask for, keeps the frames
with numbers below `n`, apart from assignments in `A`, and comes to `R` if it does not fail. -/
def Eval.Stays (x : Eval α) (C : Contract) (A : FrameId → String → Prop) (n : FrameId) (m : Machine)
    (R : α → Machine → Prop) : Prop :=
  n ≤ m.scopes.next → (x m).Meets C fun r m' => m.Keeps A n m' ∧ ∀ a, r = .ok a → R a m'

namespace Eval.Stays

variable {C : Contract} {R R' : α → Machine → Prop}

/-- What ends at once keeps bindings if it does so there. -/
theorem of_finished {x : Eval α} {r : Except Error α} (e : x m = .finished r m')
    (h : n ≤ m.scopes.next → m.Keeps A n m') (hR : ∀ a, r = .ok a → R a m') :
    x.Stays C A n m R := by
  intro hn
  rw [e]
  exact ⟨h hn, hR⟩

theorem pure {a : α} (hR : R a m) : (Pure.pure a : Eval α).Stays C A n m R :=
  of_finished rfl (fun _ => .refl A n m) fun b e => by cases e; exact hR

theorem fail (c : Cause) (pos : Position) : (fail c pos : Eval α).Stays C A n m R :=
  of_finished rfl (fun _ => .refl A n m) (by rintro _ ⟨⟩)

/-- What is made anew keeps bindings if it does so there. -/
theorem make {f : Machine → α × Machine} (h : n ≤ m.scopes.next → m.Keeps A n (f m).2)
    (hR : R (f m).1 (f m).2) : (make f).Stays C A n m R :=
  of_finished rfl h fun b e => by cases e; exact hR

/-- What ends with something ends with whatever follows from it. -/
theorem mono {x : Eval α} (hx : x.Stays C A n m R) (le : ∀ a m', R a m' → R' a m') :
    x.Stays C A n m R' := fun hn =>
  Progress.Meets.mono (fun _ m' ⟨h, hR⟩ => ⟨h, fun a e => le a m' (hR a e)⟩) (hx hn)

/-- What a computation comes to need not be told. -/
theorem weaken {x : Eval α} (hx : x.Stays C A n m R) : x.Stays C A n m fun _ _ => True :=
  hx.mono fun _ _ _ => trivial

/-- One thing after another keeps the bindings that both keep. -/
theorem bind {x : Eval α} {f : α → Eval β} {Q : β → Machine → Prop} (hx : x.Stays C A n m R)
    (hf : ∀ a m', m.Keeps A n m' → R a m' → (f a).Stays C A n m' Q) :
    (x >>= f).Stays C A n m Q := by
  intro hn
  refine Progress.Meets.andThen (Progress.Meets.mono ?_ (hx hn))
  rintro r m' ⟨h, hR⟩
  cases r with
  | ok a =>
      have next := hf a m' h (hR a rfl) (Nat.le_trans hn h.scopes.next)
      exact Progress.Meets.mono (fun _ _ ⟨h', hQ⟩ => ⟨h.trans hn h', hQ⟩) next
  | error e => exact ⟨h, by rintro _ ⟨⟩⟩

/-- A change that may be refused keeps bindings if it does so where it is not. -/
theorem update {pos : Position} {check : Machine → Except Cause β} {write : β → Machine → Machine}
    {R : Unit → Machine → Prop}
    (hok : ∀ b, check m = .ok b → m.Keeps A n (write b m) ∧ R () (write b m)) :
    (update pos check write).Stays C A n m R := by
  intro _
  simp only [Eval.update]
  split
  · exact ⟨.refl A n m, by rintro _ ⟨⟩⟩
  · obtain ⟨h, hR⟩ := hok _ ‹_›
    exact ⟨h, fun _ _ => hR⟩

theorem textOf (he : C.endless) (v : Value) : (textOf v).Stays C A n m fun _ _ => True := by
  intro _
  simp only [Eval.textOf]
  split
  · exact ⟨.refl A n m, fun _ _ => trivial⟩
  · exact he

theorem builtin (he : C.endless) (b : Builtin) (args : List Value) (pos : Position) :
    (b.apply args pos).Stays C A n m fun _ _ => True := by
  have kept {r : Except Cause Value} {m' : Machine} (e : b.call args m = some (r, m')) :
      m.Keeps A n m' := by
    obtain ⟨input, output, rfl⟩ := Builtin.call_io e
    exact .io m input output
  intro _
  simp only [Builtin.apply]
  split
  · split
    · exact ⟨kept ‹_›, fun _ _ => trivial⟩
    · exact ⟨kept ‹_›, by rintro _ ⟨⟩⟩
    · exact he
  · exact ⟨.refl A n m, by rintro _ ⟨⟩⟩

/-! ### What is put back on the way out -/

/-- That a failure is given another place changes no binding. -/
theorem orAt (pos : Position) {x : Eval α} (hx : x.Stays C A n m R) :
    (orAt pos x).Stays C A n m fun _ _ => True := fun hn =>
  Progress.Meets.andThen (Progress.Meets.mono (fun _ _ ⟨h, _⟩ => ⟨h, fun _ _ => trivial⟩) (hx hn))

/-- What is done elsewhere keeps the bindings that it would keep there. -/
theorem inScope {h : Handle} {x : Eval α} (hx : x.Stays C A n { m with here := h } R) :
    (inScope h x).Stays C A n m fun _ _ => True := fun hn =>
  Progress.Meets.andThen (Progress.Meets.mono (fun _ _ ⟨h, _⟩ =>
    ⟨⟨⟨rfl, h.callDepth, h.scopes, h.heap⟩, h.frames⟩, fun _ _ => trivial⟩) (hx hn))

/-- What is done one call deeper keeps the bindings that it would keep. -/
theorem counted (pos : Position) {x : Eval α}
    (hx : x.Stays C A n { m with callDepth := m.callDepth + 1 } R) :
    (counted pos x).Stays C A n m fun _ _ => True := by
  intro hn
  simp only [Eval.counted]
  split
  · refine Progress.Meets.andThen (Progress.Meets.mono ?_ (hx hn))
    rintro r m' ⟨h, -⟩
    exact ⟨⟨⟨h.here, by simp [h.callDepth], h.scopes, h.heap⟩, h.frames⟩, fun _ _ => trivial⟩
  · exact ⟨.refl A n m, by rintro _ ⟨⟩⟩

/-- What a block does keeps the bindings that it would keep in a frame of its own. -/
theorem inBlock (pos : Position) {x : Eval α} (hx : x.Stays C A n m.pushScope R) :
    (inBlock pos x).Stays C A n m fun _ _ => True := by
  intro hn
  have opened : m.Keeps A n (m.openFrame m.here).2 := .openFrame hn m.here
  refine Progress.Meets.andThen (Progress.Meets.mono ?_
    (hx (Nat.le_trans hn opened.scopes.next)))
  rintro r m' ⟨h, -⟩
  -- The frame of the block is the current one again, so that leaving it does not fail.
  simp only [Machine.popScope_of_restored h.toRestored]
  exact ⟨⟨h.toRestored.leave, opened.frames.trans opened.scopes hn h.frames⟩, fun _ _ => trivial⟩

end Eval.Stays

/-! ### One layer of evaluation -/

/-- The current scope is there. -/
def Machine.There (m : Machine) : Prop := m.here.frame < m.scopes.next

/-- The current frame is there still. -/
theorem Machine.Keeps.there (h : m.Keeps A n m') (hm : m.There) : m'.There := by
  rw [There, h.here]
  exact Nat.lt_of_lt_of_le hm h.scopes.next

/-- Jobs leave the frames that are there as they are, apart from assignments in `A`. If `L`, they are
asked for in scopes that are there. -/
def sparing (L : Prop) (A : FrameId → String → Prop) : Contract where
  Ghost := Unit
  pre _ _ m := L → m.There
  post _ _ m _ m' := m.Spares A m'

variable {L : Prop}

/-- What an expression assigns to itself, it finds from where its evaluation starts. -/
theorem Expr.stays (e : Expr) (hA : ∀ x ∈ e.assigned, ∀ i, (L → m.scopes.Finds m.here x i) → A i x)
    (there : L → m.There) :
    e.start.Stays (sparing L A) A m.scopes.next m fun _ _ => True := by
  intro _
  -- From any machine that the evaluation can have got to, only places in `A` are assigned to.
  let T := fun m₁ m₂ : Machine => m.Quiet m₁ → m₁.Keeps A m.scopes.next m₂
  have absorbs : Absorbs (· ∈ e.assigned) T := by
    refine ⟨fun h₁ h₂ q => ?_, fun {m₁ m₂} h q => ?_⟩
    · have k₁ := h₁ q
      exact k₁.trans q.scopes.next (h₂ (q.trans (Nat.le_refl _) (k₁.mono (Nat.le_refl _)
        fun _ _ _ _ => trivial)))
    · refine h.mono q.scopes.next fun i hi x ⟨hx, found⟩ => hA x hx i fun l => ?_
      rw [q.here] at found
      exact q.frames.finds q.scopes hi (there l) found
  have met := (e.local_start T absorbs m).meets (C := sparing L A) absorbs trivial
    (fun j m' _ h => ⟨(), fun l => (h (.refl _ _ m)).there (there l),
      fun r m₂ hr q => hr.mono q.scopes.next fun _ _ _ => id⟩) (absorbs.refl m)
  exact met.mono fun _ _ h => ⟨h (.refl _ _ m), fun _ _ => trivial⟩

namespace Eval

/-- A job keeps the bindings that it does not assign to. -/
theorem stays_ask (j : Job) (there : L → m.There) :
    (ask j).Stays (sparing L A) A n m fun _ _ => True := fun hn =>
  ⟨(), there, fun _ _ h => ⟨h.mono hn fun _ _ _ => id, fun _ _ => trivial⟩⟩

/-- A name is bound in the frame of a handle, if it can be. -/
theorem stays_name {h : Handle} (hn : n ≤ h.frame) (pos : Position) (x : String)
    {b : Option Value} {check : Machine → Except Cause FrameId}
    (hc : ∀ i, check m = .ok i → i = h.frame) :
    (update pos check fun i m => m.bind i x b).Stays (sparing L A) A n m fun _ _ => True :=
  .update fun i e => ⟨hc i e ▸ .bind hn m x b, trivial⟩

end Eval

open Eval Progress

/-- A variable is bound in the current frame. -/
theorem VarDecl.stays (v : VarDecl) (hn : n ≤ m.here.frame) (there : L → m.There) :
    v.run.Stays (sparing L A) A n m fun _ _ => True := by
  rw [VarDecl.run]
  cases v.init with
  | none => exact stays_name hn v.pos v.name fun _ => Forest.eq_of_declarable
  | some e =>
      refine .bind (stays_ask (.expr e) there) fun x m' kept _ => ?_
      exact stays_name (kept.here ▸ hn) v.pos v.name fun _ => Forest.eq_of_definable

namespace Eval

/-- Variables are bound in the current frame, which is not one of those that have to be kept. -/
theorem stays_variables : ∀ (vs : List VarDecl) {m : Machine}, n ≤ m.here.frame →
    (L → m.There) → (vs.forM VarDecl.run).Stays (sparing L A) A n m fun _ _ => True
  | [], _, _, _           => .pure trivial
  | v :: vs, _, hn, there => .bind (v.stays hn there) fun _ _ kept _ =>
      stays_variables vs (kept.here ▸ hn) fun l => kept.there (there l)

/-- Statements that are executed one after another keep what each of them keeps. -/
theorem stays_runStmts : ∀ (ss : List Stmt) {m : Machine}, (L → m.There) →
    (runStmts ss).Stays (sparing L A) A n m fun _ _ => True
  | [], _, _          => .pure trivial
  | s :: ss, _, there => .bind (stays_ask (.stmt s) there) fun flow _ kept _ => by
      cases flow with
      | normal => exact stays_runStmts ss fun l => kept.there (there l)
      | _ => exact .pure trivial

theorem stays_runBody (vs : List VarDecl) (ss : List Stmt) (hn : n ≤ m.here.frame)
    (there : L → m.There) : (runBody vs ss).Stays (sparing L A) A n m fun _ _ => True :=
  .bind (stays_variables vs hn there) fun _ _ kept _ =>
    stays_runStmts ss fun l => kept.there (there l)

theorem stays_runInit (init : ForInit) (hn : n ≤ m.here.frame) (there : L → m.There) :
    (runInit init).Stays (sparing L A) A n m fun _ _ => True := by
  cases init with
  | decl v => exact v.stays hn there
  | expr e => exact .bind (stays_ask (.expr e) there) fun _ _ _ _ => .pure trivial

/-- A turn of a loop keeps what its pieces keep. -/
theorem stays_loopTurn (cond : Expr) (update : Option Expr) (body : Stmt) (there : L → m.There) :
    (loopTurn cond update body).Stays (sparing L A) A n m fun _ _ => True := by
  refine .bind (stays_ask (.expr cond) there) fun v m₁ kept₁ _ => ?_
  have there₁ : L → m₁.There := fun l => kept₁.there (there l)
  split
  · refine .bind (stays_ask (.stmt body) there₁) fun flow m₂ kept₂ _ => ?_
    have there₂ : L → m₂.There := fun l => kept₂.there (there₁ l)
    cases flow with
    | breakLoop => exact .pure trivial
    | ret v => exact .pure trivial
    | _ =>
        cases update with
        | none => exact stays_ask (.loop cond none body) there₂
        | some u =>
            refine .bind (stays_ask (.expr u) there₂) fun _ _ kept₃ _ => ?_
            exact stays_ask (.loop cond (some u) body) fun l => kept₃.there (there₂ l)
  · exact .pure trivial

end Eval

/-- The frame of a block or of a `for` loop is a new one. -/
theorem Stmt.stays (s : Stmt) (there : L → m.There) :
    s.start.Stays (sparing L A) A m.scopes.next m fun _ _ => True := by
  have new : m.scopes.next ≤ m.pushScope.here.frame := Nat.le_refl _
  have entered : L → m.pushScope.There := fun _ => by
    show m.scopes.next < (m.scopes.push m.here).1.next
    rw [Forest.next_push]
    exact Nat.lt_succ_self _
  cases s with
  | block pos vs ss => exact .inBlock pos (stays_runBody vs ss new entered)
  | ifElse pos cond t e =>
      refine .bind (stays_ask (.expr cond) there) fun v m₁ kept _ => ?_
      have there₁ : L → m₁.There := fun l => kept.there (there l)
      split
      · exact stays_ask (.stmt t) there₁
      · exact stays_ask (.stmt e) there₁
  | whileLoop pos cond body => exact stays_ask (.loop cond none body) there
  | forLoop pos init cond update body =>
      refine .inBlock pos (R := fun _ _ => True)
        (.bind (stays_runInit init new entered) fun _ _ kept _ => ?_)
      exact stays_ask (.loop cond (some update) body) fun l => kept.there (entered l)
  | ret pos e =>
      cases e with
      | none => exact .pure trivial
      | some e => exact .bind (stays_ask (.expr e) there) fun _ _ _ _ => .pure trivial
  | expr pos e => exact .bind (stays_ask (.expr e) there) fun _ _ _ _ => .pure trivial
  | breakLoop pos | continueLoop pos | empty pos => exact .pure trivial

namespace Eval

/-- Parameters are bound in the frame of the call. -/
theorem stays_bindParams {h : Handle} (hn : n ≤ h.frame) (pos : Position) : ∀ (ps : List Param)
    (vs : List Value) {m : Machine},
      (bindParams h pos ps vs).Stays (sparing L A) A n m fun _ _ => True
  | [], _, _            => .pure trivial
  | _ :: _, [], _       => .pure trivial
  | x :: ps, _ :: vs, _ =>
      .bind (stays_name hn pos x.name fun _ => Forest.eq_of_definable) fun _ _ _ _ =>
        stays_bindParams hn pos ps vs

theorem stays_result {C : Contract} (f : FuncDecl) : ∀ flow : Flow,
    (result f flow).Stays C A n m fun _ _ => True
  | .normal | .ret _           => .pure trivial
  | .breakLoop | .continueLoop => .fail _ _

/-- The frame of a call is a new one. -/
theorem stays_callClosure (g : Closure) (args : List Value) :
    (callClosure g args).Stays (sparing L A) A n m fun _ _ => True := by
  intro hn
  have opened : (make (·.openFrame g.scope)).Stays (sparing L A) A n m
      fun h m' => n ≤ h.frame ∧ h.frame < m'.scopes.next :=
    .make (fun hn => .openFrame hn g.scope) ⟨hn, Nat.lt_of_lt_of_eq (Nat.lt_succ_self _)
      (Forest.next_push ..).symm⟩
  rw [callClosure]
  split
  · refine opened.bind (fun h m₁ _ framed => ?_) hn
    obtain ⟨new, inside⟩ := framed
    refine .bind (stays_bindParams new _ _ _) fun _ m₂ kept _ => ?_
    have entered : L → ({ m₂ with here := h, callDepth := m₂.callDepth + 1 } : Machine).There :=
      fun _ => Nat.lt_of_lt_of_le inside kept.scopes.next
    exact .bind (.counted _ (.inScope (stays_runBody _ _ new entered))) fun flow _ _ _ =>
      stays_result g.decl flow
  · exact Stays.fail _ _ hn

/-- A call of a class makes an object, and calls a function if there is an `init` method. -/
theorem stays_instantiate (c : Class) (args : List Value) :
    (instantiate c args).Stays (sparing L A) A n m fun _ _ => True := by
  refine .bind (.make (fun _ => .ofHeap (.newObject _)) trivial (R := fun _ _ => True))
    fun o _ _ _ => ?_
  cases c.method? "init" with
  | some init =>
      refine .bind (.make (fun hn => .bindMethod hn o init) trivial (R := fun _ _ => True))
        fun g _ _ _ => ?_
      exact .bind (stays_callClosure g args) fun _ _ _ _ => .pure trivial
  | none =>
      dsimp only
      split
      · exact .pure trivial
      · exact .fail _ _

/-- A call keeps what the function keeps that is called. -/
theorem stays_applyTo (callee : Value) (args : List Value) (pos : Position) :
    (applyTo callee args pos).Stays (sparing L A) A n m fun _ _ => True := by
  cases callee with
  | function g => exact .orAt pos (stays_callClosure g args)
  | builtin b => exact .builtin trivial b args pos
  | cls c => exact .orAt pos (stays_instantiate c args)
  | _ => exact .bind (.textOf trivial _) fun _ _ _ _ => .fail _ _

end Eval

/-- One layer of evaluation leaves the frames that were there as they are. The names that it assigns
to itself are those of the expression that is evaluated. -/
theorem Job.stays (j : Job) (there : L → m.There) (hA : ∀ e, j = .expr e → ∀ x ∈ e.assigned,
    ∀ i, (L → m.scopes.Finds m.here x i) → A i x) :
    j.start.Stays (sparing L A) A m.scopes.next m fun _ _ => True := by
  cases j with
  | expr e => exact e.stays (hA e rfl) there
  | stmt s => exact s.stays there
  | loop cond update body => exact stays_loopTurn cond update body there
  | apply callee args pos => exact stays_applyTo callee args pos

/-! ### Runs -/

/-- In a run of the job, an expression is evaluated that assigns to the name, which it finds in the
frame. -/
def Job.Assigns (j : Job) (m : Machine) (i : FrameId) (x : String) : Prop :=
  ∃ e m₁, (ask j m).Involves (.expr e) m₁ ∧ x ∈ e.assigned ∧ m₁.scopes.Finds m₁.here x i

/-- A run leaves the frames that were there as they are, apart from what it assigns to. Where it starts
in a scope that is not there, what expressions find is not told. -/
theorem Job.spares_of_run {depth : Nat} : ∀ {j : Job} {m m' : Machine} {r : Except Error j.Answer},
    (L → m.There) → j.run depth m = some (r, m') →
      m.Spares (fun i x => ∃ e m₁, (ask j m).Involves (.expr e) m₁ ∧ x ∈ e.assigned ∧
        (L → m₁.scopes.Finds m₁.here x i)) m' := by
  induction depth with
  | zero => intro j m m' r _ h; cases h
  | succ depth ih =>
      intro j m m' r there h
      have met := j.stays (L := L) (m := m) (A := fun i x => ∃ e m₁,
        (ask j m).Involves (.expr e) m₁ ∧ x ∈ e.assigned ∧ (L → m₁.scopes.Finds m₁.here x i)) there
        (fun e he x hx i found => ⟨e, m, he ▸ .itself (.here ..), hx, found⟩) (Nat.le_refl _)
      refine (met.of_complete (fun j₁ m₁ r₁ m₂ _ asked e there₁ => ?_) h).1
      -- What is evaluated on the way to an answer is evaluated in the run of the job.
      refine (ih there₁ e).mono (Nat.le_refl _) fun i _ x => ?_
      rintro ⟨e, m₂, inside, assigned⟩
      exact ⟨e, m₂, (Involves.within (.itself (.here ..)) asked).trans inside, assigned⟩

/-- However a job ends, the frames that were there get no names. -/
theorem Job.Answers.quiet {j : Job} {r : Except Error j.Answer} (h : j.Answers m r m') :
    m.Quiet m' := by
  obtain ⟨_, e⟩ := h
  exact (Job.spares_of_run (L := False) nofun e).quiet

/-- **What is kept.** However a job ends, and whatever the machine that it starts in: every frame stays
inside the same frames, frozen or open, with the same names; a name that had a value has one; and
nothing changes in a frozen frame. Every array keeps its element type and its length, and every object
its fields, as it keeps its class, which is part of the value.

If a name of a frame that was there before stands for something else afterwards, then an expression
was evaluated that assigns to the name, and finds it in that frame: what is declared in a block or a
loop is bound nowhere else. -/
theorem run_grows {depth : Nat} {j : Job} {m m' : Machine} {r : Except Error j.Answer}
    (h : j.run depth m = some (r, m')) :
    (∀ i, i < m.scopes.next → i < m'.scopes.next ∧ m'.scopes.outer i = m.scopes.outer i ∧
      m'.scopes.isFrozen i = m.scopes.isFrozen i ∧
      ∀ x, (m'.scopes.binding? i x).isSome = (m.scopes.binding? i x).isSome ∧
        (∀ v, m.scopes.binding? i x = some (some v) →
          ∃ v', m'.scopes.binding? i x = some (some v')) ∧
        (m.scopes.isFrozen i = true → m'.scopes.binding? i x = m.scopes.binding? i x) ∧
        (m.There → m'.scopes.binding? i x ≠ m.scopes.binding? i x → j.Assigns m i x)) ∧
    (∀ id, id < m.heap.arrays.size → id < m'.heap.arrays.size ∧
      (m'.heap.cells id).element = (m.heap.cells id).element ∧
      m'.heap.length id = m.heap.length id) ∧
    (∀ id, id < m.heap.objects.size → id < m'.heap.objects.size ∧
      ∀ x, (m.heap.field? id x).isSome = true → (m'.heap.field? id x).isSome = true) := by
  have kept := Job.spares_of_run (L := m.There) id h
  refine ⟨fun i hi => ⟨Nat.lt_of_lt_of_le hi kept.scopes.next, kept.scopes.outer i hi,
    kept.scopes.frozen i hi, fun x => ⟨kept.frames.names i hi x, kept.frames.filled i hi x,
      fun ice => kept.frames.frozen i hi ice x, fun there changed => ?_⟩⟩, fun id hid => ?_,
    fun id hid => ⟨Nat.lt_of_lt_of_le hid kept.heap.objects, kept.heap.fields id⟩⟩
  -- What no expression assigns to is as it was.
  · refine Classical.byContradiction fun unassigned => changed (kept.frames.others i hi x ?_)
    rintro ⟨e, m₁, inside, assigned, found⟩
    exact unassigned ⟨e, m₁, inside, assigned, found there⟩
  · exact ⟨Nat.lt_of_lt_of_le hid kept.heap.arrays, kept.heap.element id hid,
      kept.heap.length id hid⟩

/-- `{ int x = 2; y = x; }` -/
def innerName : Stmt := .block .unknown [⟨.unknown, .int, "x", some (.literal .blank (.int 2))⟩]
  [.expr .unknown (.assign .blank "y" (.name .blank "x"))]

/-- A machine whose current frame has two variables. -/
def twoVariables : Machine :=
  ((Machine.start .standard "").bind 1 "x" (some (.int 0))).bind 1 "y" (some (.int 0))

def Machine.hasInt (m : Machine) (i : FrameId) (x : String) (n : Int64) : Bool :=
  match m.scopes.binding? i x with
  | some (some (.int k)) => k == n
  | _                    => false

/-- The statement assigns to the variable that is nearest, and leaves the other one of this name alone.
-/
theorem run_grows_innerName : ∃ flow m',
    Job.run 4 (.stmt innerName) twoVariables = some (.ok flow, m') ∧
      m'.hasInt 1 "x" 0 = true ∧ m'.hasInt 1 "y" 2 = true ∧
      (Job.stmt innerName).Assigns twoVariables 1 "y" := by
  have answered : (Job.stmt innerName).yields 4 twoVariables (fun _ m' =>
      m'.hasInt 1 "x" 0 && m'.hasInt 1 "y" 2) = true := by decide +kernel
  obtain ⟨flow, m', h, test⟩ := Job.runs_of_yields answered
  rw [Bool.and_eq_true] at test
  have there : twoVariables.here.frame < twoVariables.scopes.next := by decide
  have inside : 1 < twoVariables.scopes.next := by decide
  obtain ⟨-, -, -, kept⟩ := (run_grows h).1 1 inside
  refine ⟨flow, m', h, test.1, test.2, (kept "y").2.2.2 there fun same => ?_⟩
  have unchanged : m'.hasInt 1 "y" 2 = twoVariables.hasInt 1 "y" 2 := by
    rw [Machine.hasInt, same]
    rfl
  have before : twoVariables.hasInt 1 "y" 2 = false := by decide +kernel
  rw [test.2, before] at unchanged
  cases unchanged

end Brace
