import Brace.Proofs.Run.Restore
import Brace.Proofs.Run.Asks
import Brace.Proofs.Typing.Signals

/-!
# Run — how bodies end

Whether a statement may end by a loop signal, and whether it always returns, can be read off it. A
body that returns something does so by a `return` statement inside it: when that has been executed,
nothing else is left to be done (`Progress.ReturnsBy`).

What is shown holds of every machine, and is an induction on how deep the jobs of a run nest, since a
loop runs its body any number of times.

* `Job.closes`: how statements and loops end.
* `callClosure_returns`: a call of a function whose body always returns gives the value of a `return`
  of its body.
-/

namespace Brace

variable {α β : Type}

/-! ### Statements inside statements -/

namespace Stmt

mutual

/-- The statement itself and those inside it. -/
def substmts : Stmt → List Stmt
  | s@(.block _ _ ss)         => s :: substmtsOf ss
  | s@(.ifElse _ _ t e)       => s :: (t.substmts ++ e.substmts)
  | s@(.whileLoop _ _ body)   => s :: body.substmts
  | s@(.forLoop _ _ _ _ body) => s :: body.substmts
  | s@(.ret ..) | s@(.breakLoop _) | s@(.continueLoop _) | s@(.expr ..) | s@(.empty _) => [s]

def substmtsOf : List Stmt → List Stmt
  | []      => []
  | s :: ss => s.substmts ++ substmtsOf ss

end

/-- A statement is inside itself. -/
theorem self_mem_substmts (s : Stmt) : s ∈ s.substmts := by
  cases s <;> rw [substmts] <;> exact .head _

end Stmt

/-- Each `return` of these gives a value. -/
def Valued (ss : List Stmt) : Prop := ∀ p, .ret p none ∉ ss

namespace Valued

variable {ss ts : List Stmt}

/-- If each `return` of these gives a value, so does each of some of them. -/
theorem of_sub (h : Valued ss) (le : ∀ s ∈ ts, s ∈ ss) : Valued ts := fun p hp => h p (le _ hp)

/-- A statement that is no `return`, or one with a value, may be added. -/
theorem cons {s : Stmt} (ne : ∀ p, s ≠ .ret p none) (h : Valued ss) : Valued (s :: ss) := fun p hp =>
  (List.mem_cons.mp hp).elim (fun e => ne p e.symm) (h p)

theorem append (h : Valued ss) (h' : Valued ts) : Valued (ss ++ ts) := fun p hp =>
  (List.mem_append.mp hp).elim (h p) (h' p)

end Valued

namespace Progress

/-- The computation executes one of these `return` statements, at this call depth, whose expression
gives `v`. Then nothing else is done: the computation has ended with `r`. -/
def ReturnsBy (p : Progress α) (ss : List Stmt) (depth : Nat) (v : Value) (r : Except Error α)
    (m' : Machine) : Prop :=
  ∃ pos e m₁ resume m₂, .ret pos (some e) ∈ ss ∧ m₁.callDepth = depth ∧
    p.Steps (.waiting (.stmt (.ret pos (some e))) m₁ resume) ∧
    (Job.expr e).Answers m₁ (.ok v) m₂ ∧ resume (.ok (.ret v)) m₂ = .finished r m'

namespace ReturnsBy

variable {p q : Progress α} {ss ts : List Stmt} {depth : Nat} {v : Value} {r : Except Error α}
  {m m' : Machine}

/-- What returns by some statements returns by more of them. -/
theorem of_sub (h : p.ReturnsBy ss depth v r m') (le : ∀ s ∈ ss, s ∈ ts) :
    p.ReturnsBy ts depth v r m' := by
  obtain ⟨pos, e, m₁, resume, m₂, inside, rest⟩ := h
  exact ⟨pos, e, m₁, resume, m₂, le _ inside, rest⟩

/-- What comes to a computation that returns by these statements does so, too. -/
theorem after (hs : q.Steps p) (h : p.ReturnsBy ss depth v r m') : q.ReturnsBy ss depth v r m' := by
  obtain ⟨pos, e, m₁, resume, m₂, inside, hd, steps, rest⟩ := h
  exact ⟨pos, e, m₁, resume, m₂, inside, hd, hs.trans steps, rest⟩

/-- What is done in the end asks for nothing. -/
theorem andThen {k : Except Error α → Machine → Progress β} {r' : Except Error β} {m₂ : Machine}
    (h : p.ReturnsBy ss depth v r m') (hk : k r m' = .finished r' m₂) :
    (p.andThen k).ReturnsBy ss depth v r' m₂ := by
  obtain ⟨pos, e, m₁, resume, m₃, inside, hd, steps, answer, last⟩ := h
  refine ⟨pos, e, m₁, _, m₃, inside, hd, steps.andThen k, answer, ?_⟩
  rw [last]
  exact hk

/-- A job returns where it is asked for as it does where it is begun. -/
theorem ask {j : Job} {r : Except Error j.Answer} (h : (j.start m).ReturnsBy ss depth v r m') :
    (Eval.ask j m).ReturnsBy ss depth v r m' := by
  refine after (.more ?_) h
  rw [andThen_finished]
  exact .refl _

end ReturnsBy

/-- How a computation ends that executes these statements, which may end by loop signals only if some
are loose. -/
structure Closes (p : Progress Flow) (ss : List Stmt) (loose : List Error) (always : Bool)
    (depth : Nat) (flow : Flow) (m' : Machine) : Prop where
  inside  : loose = [] → flow ≠ .breakLoop ∧ flow ≠ .continueLoop
  returns : loose = [] → always = true → flow ≠ .normal
  value   : Valued ss → ∀ v, flow = .ret v → p.ReturnsBy ss depth v (.ok flow) m'

end Progress

namespace Progress.Closes

variable {p : Progress Flow} {ss ts : List Stmt} {loose loose' : List Error} {always always' : Bool}
  {depth : Nat} {flow : Flow} {m m' m₁ : Machine}

/-- What closes with fewer statements closes with more, and less may be said of how. -/
theorem widen (h : p.Closes ss loose always depth flow m') (le : ∀ s ∈ ss, s ∈ ts)
    (hl : loose' = [] → loose = []) (ha : always' = true → always = true) :
    p.Closes ts loose' always' depth flow m' where
  inside e := h.inside (hl e)
  returns e e' := h.returns (hl e) (ha e')
  value hv v e := (h.value (hv.of_sub le) v e).of_sub le

/-- What ends as the first part does closes as it does. -/
theorem andThen {k : Except Error Flow → Machine → Progress Flow}
    (h : p.Closes ss loose always depth flow m₁) (hk : k (.ok flow) m₁ = .finished (.ok flow) m') :
    (p.andThen k).Closes ss loose always depth flow m' :=
  ⟨h.inside, h.returns, fun hv v e => (h.value hv v e).andThen hk⟩

/-- What ends normally returns nothing. -/
theorem normal (h : always = false) : p.Closes ss loose always depth .normal m' :=
  ⟨fun _ => ⟨nofun, nofun⟩, fun _ e => (nomatch h.symm.trans e), nofun⟩

/-- What does not end normally may as well be what always returns. -/
theorem abrupt (h : p.Closes ss loose always depth flow m') (ne : flow ≠ .normal) :
    p.Closes ss loose always' depth flow m' := ⟨h.inside, fun _ _ => ne, h.value⟩

/-- A statement closes where it is asked for as it does where it is begun. -/
theorem ask {s : Stmt} (h : (s.start m).Closes ss loose always depth flow m') :
    (Eval.ask (.stmt s) m).Closes ss loose always depth flow m' :=
  ⟨h.inside, h.returns, fun hv v e => ReturnsBy.ask (j := .stmt s) (h.value hv v e)⟩

end Progress.Closes

/-- How a job ends that runs statements. -/
def Job.Closes : (j : Job) → Machine → j.Answer → Machine → Prop
  | .stmt s, m, flow, m' => (Eval.ask (.stmt s) m).Closes s.substmts s.looseSignals
      s.alwaysReturns m.callDepth flow m'
  | .loop cond update body, m, flow, m' => (Eval.ask (.loop cond update body) m).Closes
      body.substmts [] false m.callDepth flow m'
  | .expr _, _, _, _ => True
  | .apply .., _, _, _ => True

/-- So do all jobs that nest no deeper than this. -/
def Job.CloseTo (n : Nat) : Prop :=
  ∀ (j : Job) m a m', j.run n m = some (.ok a, m') → j.Closes m a m'

namespace Eval

open Progress

variable {n : Nat} {m m' : Machine}

/-! ### Runs of one thing after another -/

/-- One thing after another gives something where the first part does, and then the second. -/
theorem run_bind {x : Eval α} {f : α → Eval β} {b : β} (h : (x >>= f).run n m = some (.ok b, m')) :
    ∃ a m₁, x.run n m = some (.ok a, m₁) ∧ (f a).run n m₁ = some (.ok b, m') := by
  rw [run, bind_apply, complete_andThen] at h
  obtain ⟨⟨r, m₁⟩, hx, hf⟩ := Option.bind_eq_some_iff.mp h
  cases r with
  | ok a => exact ⟨a, m₁, hx, hf⟩
  | error e => cases hf

/-- A job that is asked for is run. -/
theorem run_ask (j : Job) : (ask j).run n m = j.run n m := by
  rw [run, ask, complete]
  cases j.run n m <;> rfl

theorem steps_of_run {x : Eval α} {r : Except Error α} (h : x.run n m = some (r, m')) :
    (x m).Steps (.finished r m') := steps_of_complete _ h

/-- What restores the machine keeps the depth of calls. -/
theorem callDepth_of_run {x : Eval α} (hx : x.Restores) {r : Except Error α}
    (h : x.run n m = some (r, m')) : m'.callDepth = m.callDepth := (hx.run h).callDepth

/-- After something else has been done. -/
theorem returnsBy_bind {x : Eval α} {f : α → Eval β} {a : α} {m₁ : Machine} {ss : List Stmt}
    {depth : Nat} {v : Value} {r : Except Error β} (hx : x.run n m = some (.ok a, m₁))
    (hf : (f a m₁).ReturnsBy ss depth v r m') : ((x >>= f) m).ReturnsBy ss depth v r m' :=
  hf.after (steps_bind (steps_of_run hx) (.refl _))

/-! ### Statements -/

/-- After something else has been done, a computation closes as it does by itself. -/
theorem closes_bind {x : Eval α} {f : α → Eval Flow} {a : α} {m₁ : Machine} {ss : List Stmt}
    {loose : List Error} {always : Bool} {depth : Nat} {flow : Flow}
    (hx : x.run n m = some (.ok a, m₁)) (hf : (f a m₁).Closes ss loose always depth flow m') :
    ((x >>= f) m).Closes ss loose always depth flow m' :=
  ⟨hf.inside, hf.returns, fun hv v e => returnsBy_bind hx (hf.value hv v e)⟩

/-- A statement closes if all jobs do that nest less deep. -/
theorem closes_exec (ih : Job.CloseTo n) {s : Stmt} {flow : Flow}
    (h : s.exec.run n m = some (.ok flow, m')) :
    (s.exec m).Closes s.substmts s.looseSignals s.alwaysReturns m.callDepth flow m' :=
  ih (.stmt s) m flow m' (run_ask (.stmt s) ▸ h)

/-- So does a loop. -/
theorem closes_loop (ih : Job.CloseTo n) {cond : Expr} {update : Option Expr} {body : Stmt}
    {flow : Flow} (h : (ask (.loop cond update body)).run n m = some (.ok flow, m')) :
    (ask (.loop cond update body) m).Closes body.substmts [] false m.callDepth flow m' :=
  ih (.loop cond update body) m flow m' (run_ask (.loop cond update body) ▸ h)

/-- Statements that are executed one after another end by the first that does not end normally. -/
theorem closes_runStmts (ih : Job.CloseTo n) : ∀ (ss : List Stmt) {m : Machine} {flow : Flow},
    (runStmts ss).run n m = some (.ok flow, m') →
      (runStmts ss m).Closes (Stmt.substmtsOf ss) (Stmt.looseSignalsOf ss) (Stmt.anyReturns ss)
        m.callDepth flow m'
  | [], m, flow, h => by
      cases h
      exact .normal rfl
  | s :: ss, m, flow, h => by
      obtain ⟨first, m₁, hs, hr⟩ := run_bind h
      have closed := closes_exec ih hs
      have depth : m₁.callDepth = m.callDepth := callDepth_of_run (.ask _) hs
      have loose (e : Stmt.looseSignalsOf (s :: ss) = []) :
          s.looseSignals = [] ∧ Stmt.looseSignalsOf ss = [] := by
        rw [Stmt.looseSignalsOf] at e
        exact List.append_eq_nil_iff.mp e
      -- Where the first statement does not end normally, the others are not run.
      have stopped (ne : first ≠ .normal) : (s.exec m).Closes (Stmt.substmtsOf (s :: ss))
          (Stmt.looseSignalsOf (s :: ss)) (Stmt.anyReturns (s :: ss)) m.callDepth first m₁ := by
        refine (closed.abrupt ne).widen (fun t ht => ?_) (fun e => (loose e).1) id
        rw [Stmt.substmtsOf]
        exact List.mem_append_left _ ht
      cases first with
      | normal =>
          have rest := depth ▸ closes_runStmts ih ss hr
          refine closes_bind hs ⟨fun e => rest.inside (loose e).2, fun e always => ?_, ?_⟩
          · rw [Stmt.anyReturns, Bool.or_eq_true] at always
            rcases always with first | others
            · exact absurd rfl (closed.returns (loose e).1 first)
            · exact rest.returns (loose e).2 others
          · refine (rest.widen (fun t ht => ?_) (fun e => (loose e).2) id).value
            rw [Stmt.substmtsOf]
            exact List.mem_append_right _ ht
      | ret v => cases hr; exact (stopped (by rintro ⟨⟩)).andThen rfl
      | breakLoop => cases hr; exact (stopped (by rintro ⟨⟩)).andThen rfl
      | continueLoop => cases hr; exact (stopped (by rintro ⟨⟩)).andThen rfl

/-- Variables come first, and then the statements. -/
theorem closes_runBody (ih : Job.CloseTo n) (locals : List VarDecl) (body : List Stmt) {flow : Flow}
    (h : (runBody locals body).run n m = some (.ok flow, m')) :
    (runBody locals body m).Closes (Stmt.substmtsOf body) (Stmt.looseSignalsOf body)
      (Stmt.anyReturns body) m.callDepth flow m' := by
  obtain ⟨_, m₁, hl, hb⟩ := run_bind h
  have depth : m₁.callDepth = m.callDepth := callDepth_of_run (.forM VarDecl.restores_run locals) hl
  exact closes_bind hl (depth ▸ closes_runStmts ih body hb)

/-- What is done in a block ends as the block does. -/
theorem closes_inBlock (p : Position) {x : Eval Flow} (hx : x.Restores) {ss : List Stmt}
    {loose : List Error} {always : Bool} {flow : Flow}
    (h : (inBlock p x).run n m = some (.ok flow, m')) (closes : ∀ m₁,
      x.run n m.pushScope = some (.ok flow, m₁) →
        (x m.pushScope).Closes ss loose always m.callDepth flow m₁) :
    (inBlock p x m).Closes ss loose always m.callDepth flow m' := by
  rw [run_inBlock p hx] at h
  obtain ⟨⟨r, m₁⟩, hr, e⟩ := Option.map_eq_some_iff.mp h
  cases e
  refine (closes m₁ hr).andThen ?_
  simp only [Machine.popScope_of_restored (hx.run hr)]

/-- What is done in another scope ends as it would there. -/
theorem closes_inScope {frame : Handle} {x : Eval Flow} {ss : List Stmt} {loose : List Error}
    {always : Bool} {depth : Nat} {flow : Flow}
    (h : (inScope frame x).run n m = some (.ok flow, m')) (closes : ∀ m₁,
      x.run n { m with here := frame } = some (.ok flow, m₁) →
        (x { m with here := frame }).Closes ss loose always depth flow m₁) :
    (inScope frame x m).Closes ss loose always depth flow m' := by
  rw [run, inScope, complete_andThen] at h
  obtain ⟨⟨r, m₁⟩, hr, e⟩ := Option.bind_eq_some_iff.mp h
  cases e
  exact (closes m₁ hr).andThen rfl

/-- A call is made at the next call depth. -/
theorem closes_counted (p : Position) {x : Eval Flow} {ss : List Stmt} {loose : List Error}
    {always : Bool} {flow : Flow} (h : (counted p x).run n m = some (.ok flow, m'))
    (closes : ∀ m₁, x.run n { m with callDepth := m.callDepth + 1 } = some (.ok flow, m₁) →
      (x { m with callDepth := m.callDepth + 1 }).Closes ss loose always (m.callDepth + 1) flow m₁) :
    (counted p x m).Closes ss loose always (m.callDepth + 1) flow m' := by
  simp only [run, counted] at h ⊢
  split at h
  · rename_i room
    rw [if_pos room]
    rw [complete_andThen] at h
    obtain ⟨⟨r, m₁⟩, hr, e⟩ := Option.bind_eq_some_iff.mp h
    cases e
    exact (closes m₁ hr).andThen rfl
  · cases h

/-- What is done after a turn that ends normally or by `continue`. -/
theorem closes_again (ih : Job.CloseTo n) {cond : Expr} {update : Option Expr} {body : Stmt}
    {flow : Flow} : (match update with
      | some u => do
          let _ ← u.eval
          ask (.loop cond update body)
      | none => ask (.loop cond update body) : Eval Flow).run n m = some (.ok flow, m') →
    ((match update with
      | some u => do
          let _ ← u.eval
          ask (.loop cond update body)
      | none => ask (.loop cond update body) : Eval Flow) m).Closes body.substmts [] false
        m.callDepth flow m' := by
  intro h
  cases update with
  | none => exact closes_loop ih h
  | some u =>
      obtain ⟨_, m₁, hu, h⟩ := run_bind h
      have depth : m₁.callDepth = m.callDepth := callDepth_of_run (.ask _) hu
      exact closes_bind hu (depth ▸ closes_loop ih h)

/-- No loop signal gets out of a loop. -/
theorem closes_loopTurn (ih : Job.CloseTo n) {cond : Expr} {update : Option Expr} {body : Stmt}
    {flow : Flow} (h : (loopTurn cond update body).run n m = some (.ok flow, m')) :
    (loopTurn cond update body m).Closes body.substmts [] false m.callDepth flow m' := by
  obtain ⟨v, m₁, hc, h⟩ := run_bind h
  have depth₁ : m₁.callDepth = m.callDepth := callDepth_of_run (.ask _) hc
  refine closes_bind hc ?_
  split at h
  · rename_i truthy
    rw [if_pos truthy]
    obtain ⟨inner, m₂, hb, h⟩ := run_bind h
    have closed := closes_exec ih hb
    have depth₂ : m₂.callDepth = m.callDepth := (callDepth_of_run (.ask _) hb).trans depth₁
    cases inner with
    | breakLoop => cases h; exact .normal rfl
    | ret v =>
        cases h
        have returned := depth₁ ▸ closed
        exact ⟨fun _ => ⟨nofun, nofun⟩, nofun, fun hv v e => (returned.value hv v e).andThen rfl⟩
    | normal => exact closes_bind hb (depth₂ ▸ closes_again ih h)
    | continueLoop => exact closes_bind hb (depth₂ ▸ closes_again ih h)
  · rename_i falsy
    rw [if_neg falsy]
    cases h
    exact .normal rfl

/-- A conditional ends as one of its branches. -/
theorem closes_ifElse (ih : Job.CloseTo n) {cond : Expr} {t e : Stmt} {flow : Flow}
    (h : (cond.eval >>= fun v => if v.isTruthy then t.exec else e.exec).run n m
      = some (.ok flow, m')) :
    ((cond.eval >>= fun v => if v.isTruthy then t.exec else e.exec) m).Closes
      (t.substmts ++ e.substmts) (t.looseSignals ++ e.looseSignals)
      (t.alwaysReturns && e.alwaysReturns) m.callDepth flow m' := by
  obtain ⟨v, m₁, hc, h⟩ := run_bind h
  have depth : m₁.callDepth = m.callDepth := callDepth_of_run (.ask _) hc
  refine closes_bind hc ?_
  split at h
  · rename_i truthy
    rw [if_pos truthy]
    exact (depth ▸ closes_exec ih h).widen (fun s hs => List.mem_append_left _ hs)
      (fun none => (List.append_eq_nil_iff.mp none).1) fun both => (Bool.and_eq_true_iff.mp both).1
  · rename_i falsy
    rw [if_neg falsy]
    exact (depth ▸ closes_exec ih h).widen (fun s hs => List.mem_append_right _ hs)
      (fun none => (List.append_eq_nil_iff.mp none).2) fun both => (Bool.and_eq_true_iff.mp both).2

/-- A `for` loop ends as loops do, in a frame of its own. -/
theorem closes_forLoop (ih : Job.CloseTo n) (p : Position) {init : ForInit} {cond update : Expr}
    {body : Stmt} {flow : Flow} (h : (inBlock p (do
      runInit init
      ask (.loop cond (some update) body))).run n m = some (.ok flow, m')) :
    (inBlock p (do
      runInit init
      ask (.loop cond (some update) body)) m).Closes body.substmts [] false m.callDepth flow m' := by
  have restores : (do
      runInit init
      ask (.loop cond (some update) body) : Eval Flow).Restores :=
    .bind (restores_runInit init) fun _ => .ask (.loop ..)
  refine closes_inBlock p restores h fun m₁ h => ?_
  obtain ⟨_, m₂, hi, h⟩ := run_bind h
  have depth : m₂.callDepth = m.pushScope.callDepth :=
    callDepth_of_run (restores_runInit init) hi
  exact closes_bind hi (depth ▸ closes_loop ih h)

end Eval

open Eval Progress

variable {n : Nat} {m m' : Machine}

/-- A statement closes if all jobs do that nest less deep. -/
theorem Stmt.closes (ih : Job.CloseTo n) (s : Stmt) {flow : Flow}
    (h : s.start.run n m = some (.ok flow, m')) : (Job.stmt s).Closes m flow m' := by
  cases s with
  | block p locals body =>
      refine .ask (closes_inBlock p (restores_runBody locals body) h fun m₁ h => ?_)
      refine (closes_runBody ih locals body h).widen (fun t ht => ?_) id id
      rw [substmts]
      exact .tail _ ht
  | ifElse p cond t e =>
      refine .ask ((closes_ifElse ih h).widen (fun s hs => ?_) (fun none => ?_) fun both => ?_)
      · rw [substmts]
        exact .tail _ hs
      · rwa [looseSignals] at none
      · rwa [alwaysReturns] at both
  | whileLoop p cond body =>
      refine .ask ((closes_loop ih h).widen (fun s hs => ?_) (fun _ => rfl) nofun)
      rw [substmts]
      exact .tail _ hs
  | forLoop p init cond update body =>
      refine .ask ((closes_forLoop ih p h).widen (fun s hs => ?_) (fun _ => rfl) nofun)
      rw [substmts]
      exact .tail _ hs
  | ret p e =>
      cases e with
      | none =>
          cases h
          refine ⟨fun _ => ⟨nofun, nofun⟩, fun _ _ => nofun, fun hv => ?_⟩
          exact absurd (self_mem_substmts _) (hv p)
      | some e =>
          obtain ⟨v, m₁, he, h⟩ := run_bind h
          cases h
          refine ⟨fun _ => ⟨nofun, nofun⟩, fun _ _ => nofun, fun _ w ew => ?_⟩
          cases ew
          exact ⟨p, e, m, .finished, m', self_mem_substmts _, rfl, .refl _,
            ⟨n, run_ask (.expr e) ▸ he⟩, rfl⟩
  | breakLoop p =>
      cases h
      exact ⟨fun e => (nomatch e), nofun, nofun⟩
  | continueLoop p =>
      cases h
      exact ⟨fun e => (nomatch e), nofun, nofun⟩
  | expr p e =>
      obtain ⟨v, m₁, he, h⟩ := run_bind h
      cases h
      exact .normal rfl
  | empty p =>
      cases h
      exact .normal rfl

/-- Statements and loops end as they should, however deep they nest. -/
theorem Job.closes (n : Nat) : Job.CloseTo n := by
  induction n with
  | zero => intro j m a m' h; cases h
  | succ n ih =>
      intro j m a m' h
      cases j with
      | expr e => trivial
      | stmt s => exact s.closes ih h
      | loop cond update body =>
          have closed := closes_loopTurn ih h
          exact ⟨closed.inside, closed.returns, fun hv v e =>
            ReturnsBy.ask (j := .loop cond update body) (closed.value hv v e)⟩
      | apply callee args pos => trivial

/-! ### Calls -/

/-- Nothing in the body ends a loop that is not in the body. -/
theorem runBody_contained {locals : List VarDecl} {body : List Stmt}
    (loose : Stmt.looseSignalsOf body = []) {flow : Flow}
    (h : (runBody locals body m).Steps (.finished (.ok flow) m')) :
    flow ≠ .breakLoop ∧ flow ≠ .continueLoop := by
  obtain ⟨n, h⟩ := complete_of_steps h
  exact (closes_runBody (Job.closes n) locals body h).inside loose

/-- A call of a function whose body always returns, and always a value, ends by a `return` of its
body and gives the value of that. -/
theorem callClosure_returns {g : Closure} {args : List Value}
    (loose : Stmt.looseSignalsOf g.decl.body = []) (always : Stmt.anyReturns g.decl.body = true)
    (valued : Valued (Stmt.substmtsOf g.decl.body)) {v : Value}
    (h : (callClosure g args m).Steps (.finished (.ok v) m')) :
    (callClosure g args m).ReturnsBy (Stmt.substmtsOf g.decl.body) (m.callDepth + 1) v (.ok v) m' := by
  obtain ⟨n, h⟩ := complete_of_steps h
  rw [callClosure] at h ⊢
  split at h
  · rename_i arity
    rw [if_pos arity]
    obtain ⟨frame, m₁, ho, h⟩ := run_bind h
    obtain ⟨_, m₂, hp, h⟩ := run_bind h
    obtain ⟨flow, m₃, hb, h⟩ := run_bind h
    have opened : m₁.callDepth = m.callDepth := callDepth_of_run
      (.make fun m => m.restored_openFrame g.scope) ho
    have depth : m₂.callDepth = m.callDepth :=
      (callDepth_of_run (restores_bindParams ..) hp).trans opened
    have closed := closes_counted g.decl.pos hb fun m₄ h => closes_inScope h fun m₅ h =>
      closes_runBody (Job.closes n) _ _ h
    rw [depth] at closed
    refine returnsBy_bind ho (returnsBy_bind hp ?_)
    cases flow with
    | normal => exact absurd rfl (closed.returns loose always)
    | breakLoop => exact absurd rfl (closed.inside loose).1
    | continueLoop => exact absurd rfl (closed.inside loose).2
    | ret w =>
        cases h
        exact (closed.value valued v rfl).andThen rfl
  · cases h

end Brace
