import Brace.Proofs.Loops.Continues
import Brace.Proofs.Loops.Jobs
import Brace.Proofs.Run.Ends

/-!
# Loops — loops turn by turn

A loop is answered as its turns are done one after another (`Eval.Loops`), and a turn does not ask for the
loop again. So two loops coincide where their turns do (`Eval.Loops.forth`, `Eval.Loops.back`). The turns of
a loop with an update coincide with those of a loop without one whose body is a block in which the update
comes last: the block is a frame to spare.
-/

namespace Brace

open Eval Progress

variable {α β γ δ : Type} {w w₁ : Matching} {m m' m₁ m₁' : Machine}

/-! ### Computations that coincide -/

theorem Progress.Coincide.finished {Q : Except Error α → Machine → Except Error β → Machine → Prop}
    {r : Except Error α} {r' : Except Error β} (h : Q r m r' m') :
    (Progress.finished r m).Coincide Q (.finished r' m') where
  forth t := by cases t; exact ⟨r', m', .refl _, h⟩
  back t := by cases t; exact ⟨r, m, .refl _, h⟩

theorem Progress.Coincide.mono {P Q : Except Error α → Machine → Except Error β → Machine → Prop}
    {p : Progress α} {q : Progress β} (le : ∀ r m r' m', P r m r' m' → Q r m r' m')
    (h : p.Coincide P q) : p.Coincide Q q where
  forth t := by
    obtain ⟨r', m', t', hP⟩ := h.forth t
    exact ⟨r', m', t', le _ _ _ _ hP⟩
  back t := by
    obtain ⟨r, m, t', hP⟩ := h.back t
    exact ⟨r, m, t', le _ _ _ _ hP⟩

theorem Progress.Coincide.andThen {P : Except Error α → Machine → Except Error β → Machine → Prop}
    {Q : Except Error γ → Machine → Except Error δ → Machine → Prop} {p : Progress α} {q : Progress β}
    {k : Except Error α → Machine → Progress γ} {l : Except Error β → Machine → Progress δ}
    (h : p.Coincide P q) (hk : ∀ r m r' m', P r m r' m' → (k r m).Coincide Q (l r' m')) :
    (p.andThen k).Coincide Q (q.andThen l) where
  forth t := by
    obtain ⟨r, m, hp, t⟩ := steps_of_andThen t
    obtain ⟨r', m', hq, hP⟩ := h.forth hp
    obtain ⟨s, n, t', hQ⟩ := (hk r m r' m' hP).forth t
    exact ⟨s, n, (hq.andThen l).trans t', hQ⟩
  back t := by
    obtain ⟨r', m', hq, t⟩ := steps_of_andThen t
    obtain ⟨r, m, hp, hP⟩ := h.back hq
    obtain ⟨s, n, t', hQ⟩ := (hk r m r' m' hP).back t
    exact ⟨s, n, (hp.andThen k).trans t', hQ⟩

/-- What comes to the same ends may be put in place of the second. -/
theorem Progress.Coincide.congr {Q : Except Error α → Machine → Except Error β → Machine → Prop}
    {p : Progress α} {x y : Eval β} {m' : Machine} (h : p.Coincide Q (y m')) (same : SameEnds x y) :
    p.Coincide Q (x m') where
  forth t := by
    obtain ⟨r', n, t', hQ⟩ := h.forth t
    exact ⟨r', n, (same m' r' n).mpr t', hQ⟩
  back {r' n} t := h.back ((same m' r' n).mp t)

/-! ### Turns -/

namespace Eval

/-- One turn of a loop, where `work` is what is done if the condition is true. It gives what the loop ends
by, if the turn ends it. -/
def turn (cond : Expr) (work : Eval Flow) : Eval (Option Flow) := do
  if (← cond.eval).isTruthy then
    match ← work with
    | .breakLoop => pure (some .normal)
    | .ret v     => pure (some (.ret v))
    | _          => pure none
  else pure (some .normal)

/-- Unless the loop has ended, it is asked for again. -/
def onward (cond : Expr) (update : Option Expr) (body : Stmt) : Option Flow → Eval Flow
  | some flow => pure flow
  | none      => ask (.loop cond update body)

/-- The body of a loop and then its update, even if the body ends by a `continue`. -/
def stepping (update : Expr) (body : Stmt) : Eval Flow := do
  match ← body.exec with
  | .breakLoop => pure .breakLoop
  | .ret v     => pure (.ret v)
  | _          => do
      let _ ← update.eval
      pure .normal

theorem loopTurn_some (cond update : Expr) (body : Stmt) :
    loopTurn cond (some update) body =
      turn cond (stepping update body) >>= onward cond (some update) body := by
  simp only [loopTurn, turn, stepping, bind_assoc]
  congr 1
  funext v
  split
  · simp only [bind_assoc]
    congr 1
    funext flow
    cases flow <;> simp [onward]
  · simp [onward]

theorem loopTurn_none (cond : Expr) (body : Stmt) :
    loopTurn cond none body = turn cond body.exec >>= onward cond none body := by
  simp only [loopTurn, turn, bind_assoc]
  congr 1
  funext v
  split
  · simp only [bind_assoc]
    congr 1
    funext flow
    cases flow <;> simp [onward]
  · simp [onward]

/-- Turn after turn, from one machine to another. -/
inductive Loops (turn : Eval (Option Flow)) : Machine → Except Error Flow → Machine → Prop where
  | fails {e : Error} {m m' : Machine} (t : (turn m).Steps (.finished (.error e) m')) :
      Loops turn m (.error e) m'
  | stops {flow : Flow} {m m' : Machine} (t : (turn m).Steps (.finished (.ok (some flow)) m')) :
      Loops turn m (.ok flow) m'
  | again {m m₁ m' : Machine} {r : Except Error Flow} (t : (turn m).Steps (.finished (.ok none) m₁))
      (h : Loops turn m₁ r m') : Loops turn m r m'

end Eval

theorem Eval.complete_ask (j : Job) (m : Machine) (depth : Nat) :
    (Eval.ask j m).complete (Job.run depth) = j.run depth m := by
  rw [Eval.ask, complete]
  cases j.run depth m <;> rfl

/-- A loop is answered as its turns are done. -/
theorem Job.answers_iff_loops {cond : Expr} {update : Option Expr} {body : Stmt}
    {turn : Eval (Option Flow)} (e : loopTurn cond update body = turn >>= onward cond update body)
    {r : Except Error Flow} :
    (Job.loop cond update body).Answers m r m' ↔ turn.Loops m r m' := by
  have start (m : Machine) : (Job.loop cond update body).start m =
      (turn m).andThen (onValue (onward cond update body)) := congrFun e m
  constructor
  -- Each turn asks for the next at one depth less.
  · rintro ⟨depth, run⟩
    induction depth generalizing m with
    | zero => cases run
    | succ depth ih =>
        rw [Job.run, start, complete_andThen] at run
        obtain ⟨⟨r₀, m₀⟩, done, run⟩ := Option.bind_eq_some_iff.mp run
        have t := steps_of_complete _ done
        rcases r₀ with e₀ | _ | flow
        · cases run
          exact .fails t
        · exact .again t (ih ((complete_ask (.loop cond update body) m₀ depth).symm.trans run))
        · cases run
          exact .stops t
  · intro h
    induction h with
    | fails t | stops t =>
        rw [Job.answers_iff_steps, start]
        exact t.andThen _
    | again t _ ih =>
        rw [Job.answers_iff_steps, start]
        exact (t.andThen _).trans (ih.steps .finished)

/-! ### Loops whose turns coincide -/

namespace Eval.Loops

variable {turn turn' : Eval (Option Flow)}

/-- From machines alike, the turns end alike. -/
def Paired (turn turn' : Eval (Option Flow)) : Prop :=
  ∀ w m m', m.Alike w m' →
    (turn m).Coincide (Ended w m m' fun w => Option.Rel (Flow.Alike w)) (turn' m')

/-- What the first loop comes to, the second comes to as well. -/
theorem forth (paired : Paired turn turn') {r : Except Error Flow} (t : turn.Loops m r m₁) :
    ∀ {w m'}, m.Alike w m' → ∃ r' m₁', turn'.Loops m' r' m₁' ∧ Ended w m m' Flow.Alike r m₁ r' m₁' := by
  induction t with
  | fails t =>
      intro w m' h
      obtain ⟨r', m₁', t', s, hr⟩ := (paired _ _ _ h).forth t
      cases hr
      exact ⟨_, m₁', .fails t', s, .error _⟩
  | stops t =>
      intro w m' h
      obtain ⟨r', m₁', t', s, hr⟩ := (paired _ _ _ h).forth t
      cases hr with
      | ok hf =>
          cases hf with
          | some hf => exact ⟨_, m₁', .stops t', s, .ok hf⟩
  | again t _ ih =>
      intro w m' h
      obtain ⟨r', m₁', t', s, hr⟩ := (paired _ _ _ h).forth t
      cases hr with
      | ok hf =>
          cases hf
          obtain ⟨r', m₂', t'', ended⟩ := ih s.alike
          exact ⟨r', m₂', .again t' t'', ended.since s⟩

/-- What the second loop comes to, the first comes to as well. -/
theorem back (paired : Paired turn turn') {r' : Except Error Flow} (t : turn'.Loops m' r' m₁') :
    ∀ {w m}, m.Alike w m' → ∃ r m₁, turn.Loops m r m₁ ∧ Ended w m m' Flow.Alike r m₁ r' m₁' := by
  induction t with
  | fails t =>
      intro w m h
      obtain ⟨r, m₁, t', s, hr⟩ := (paired _ _ _ h).back t
      cases hr
      exact ⟨_, m₁, .fails t', s, .error _⟩
  | stops t =>
      intro w m h
      obtain ⟨r, m₁, t', s, hr⟩ := (paired _ _ _ h).back t
      cases hr with
      | ok hf =>
          cases hf with
          | some hf => exact ⟨_, m₁, .stops t', s, .ok hf⟩
  | again t _ ih =>
      intro w m h
      obtain ⟨r, m₁, t', s, hr⟩ := (paired _ _ _ h).back t
      cases hr with
      | ok hf =>
          cases hf
          obtain ⟨r, m₂, t'', ended⟩ := ih s.alike
          exact ⟨r, m₂, .again t' t'', ended.since s⟩

end Eval.Loops

/-! ### The update at the end of a block -/

namespace Eval

/-- The body of a loop and then its update, unless the body ends in some other way. -/
def straight (update : Expr) (body : Stmt) : Eval Flow := do
  match ← body.exec with
  | .normal => do
      let _ ← update.eval
      pure .normal
  | flow    => pure flow

theorem runStmts_singleton (s : Stmt) : runStmts [s] = s.exec := by
  refine Eq.trans ?_ (bind_pure s.exec)
  rw [runStmts]
  congr 1
  funext flow
  cases flow <;> rfl

/-- The statement of an expression, for which the expression is evaluated in place. -/
theorem ends_expr {f : Flow → Eval α} (p : Position) (e : Expr) :
    SameEnds ((Stmt.expr p e).exec >>= f) (e.eval >>= fun _ => f .normal) := by
  have same : ((Stmt.expr p e).start >>= f) = (e.eval >>= fun _ => f .normal) := by
    simp only [Stmt.start, bind_assoc, pure_bind]
  rw [← same]
  exact (SameEnds.ask (.stmt (.expr p e))).bind fun _ => .refl _

/-- The block, for which the body and the update are done in place. -/
theorem ends_block (p u : Position) (update : Expr) (body : Stmt) :
    SameEnds (Stmt.block p [] [body, .expr u update]).exec (inBlock p (straight update body)) := by
  refine (SameEnds.ask (.stmt _)).trans (.inBlock p ?_)
  show SameEnds (runStmts [body, .expr u update]) _
  rw [runStmts, straight]
  refine (SameEnds.refl body.exec).bind fun flow => ?_
  cases flow with
  | normal => exact ends_expr u update
  | _ => exact .refl _

namespace Abreast

/-- What a statement ends by may be told from how it is answered. -/
theorem exec {R : Matching → α → β → Prop} {st : Stmt} {f : Flow → Eval α} {g : Flow → Eval β}
    (h : m.Alike w m') (hf : ∀ {w₁ m₁ m₁' a b}, Alongside w m m' w₁ m₁ m₁' → a.Alike w₁ b →
      (Job.stmt st).Answers m (.ok a) m₁ → Abreast w₁ m₁ m₁' R (f a) (g b)) :
    Abreast w m m' R (st.exec >>= f) (st.exec >>= g) :=
  .waiting h (.stmt st) fun w₁ r m₁ r' m₁' s hr answers _ => by
    cases hr with
    | ok hflow => exact (hf s hflow answers).mono fun _ _ _ _ => .since s
    | error e => exact .finished ⟨s, .error e⟩

/-- Without a `continue`, the update is done in either case. -/
theorem straight (update : Expr) {body : Stmt} (once : body.continues = false) (h : m.Alike w m') :
    Abreast w m m' Flow.Alike (stepping update body) (Eval.straight update body) := by
  refine exec h fun s hf answers => ?_
  cases hf with
  | normal => exact (update.abreast_eval s.alike).bind fun s _ => pure s.alike .normal
  | ret hv => exact pure s.alike (.ret hv)
  | breakLoop => exact pure s.alike .breakLoop
  | continueLoop => exact absurd (Stmt.continues_of_answers answers) (by rw [once]; exact nofun)

theorem turn (cond : Expr) {x y : Eval Flow} (h : m.Alike w m')
    (hxy : ∀ {w m m'}, m.Alike w m' → Abreast w m m' Flow.Alike x y) :
    Abreast w m m' (fun w => Option.Rel (Flow.Alike w)) (Eval.turn cond x) (Eval.turn cond y) := by
  refine (cond.abreast_eval h).bind fun s hv => ?_
  rw [hv.isTruthy]
  split
  · refine (hxy s.alike).bind fun s hf => ?_
    cases hf with
    | breakLoop => exact pure s.alike (.some .normal)
    | ret hv => exact pure s.alike (.some (.ret hv))
    | normal | continueLoop => exact pure s.alike .none
  · exact pure s.alike (.some .normal)

end Abreast

theorem ends_turn (cond : Expr) {x y : Eval Flow} (h : SameEnds x y) :
    SameEnds (turn cond x) (turn cond y) :=
  (SameEnds.refl cond.eval).bind fun v => by
    split
    · exact h.bind fun _ => .refl _
    · exact .refl _

/-- The turns of a loop with an update, and those of one whose body is the block. -/
theorem Loops.paired_block (cond update : Expr) {body : Stmt} (once : body.continues = false)
    (p u : Position) : Loops.Paired (turn cond (stepping update body))
      (turn cond (Stmt.block p [] [body, .expr u update]).exec) := fun w m m' h => by
  have abreast : Abreast w m m' (fun w => Option.Rel (Flow.Alike w)) (turn cond (stepping update body))
      (turn cond (inBlock p (straight update body))) :=
    Abreast.turn cond h fun h => .besides p h fun _ alike => .straight update once alike
  exact abreast.coincide.congr (ends_turn cond (ends_block p u update body))

end Eval

end Brace
