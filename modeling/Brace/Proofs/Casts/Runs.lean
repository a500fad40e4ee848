import Brace.Proofs.Casts.Jobs

/-!
# Casts — runs of edited code

Where casts are left out that give their operands back, a run of edited code comes to the end that the
run of the code comes to, if that comes to one. A run has the answers to jobs to come by; that they are
the same up to edited code is by induction on how deep jobs nest. A cast that is left out nests one job
less deep, so on the way back from edited code its operand is looked at first.

* `Progress.Steps.edit`, `Progress.Steps.of_edit`: an end of the one run is an end of the other.
-/

namespace Brace

open Progress

variable {α β ω : Type} {ρ : Edit}

/-- A cast that is left out has, wherever the run comes to it, an operand that it would give back. -/
def Progress.Spares (ρ : Edit) (run : Progress ω) : Prop :=
  ∀ n t e m resume, run.Steps (.waiting (.expr (.cast n t e)) m resume) →
    ρ.cast n (e.edit ρ) = none →
      ∀ v m', (Job.expr e).Answers m (.ok v) m' → v.castTo t = .ok v

/-! ### Casts that are left out -/

/-- An expression is kept, or it is a cast that is left out. -/
theorem Expr.kept_or_gone (ρ : Edit) (formed : Bool) (e : Expr) : e.keptAs ρ formed = true ∨
    formed = false ∧ ∃ n t a, e = .cast n t a ∧ ρ.cast n (a.edit ρ) = none := by
  cases formed with
  | true => exact .inl rfl
  | false =>
      cases e with
      | cast n t a =>
          cases h : ρ.cast n (a.edit ρ) with
          | some n' => exact .inl (by simp [keptAs, h])
          | none => exact .inr ⟨rfl, n, t, a, rfl, h⟩
      | _ => exact .inl rfl

/-- In place of a cast that is left out stands its operand. -/
theorem Expr.edit_gone {n : Note} {e : Expr} (h : ρ.cast n (e.edit ρ) = none) (t : String) :
    (Expr.cast n t e).editAs ρ false = e.editAs ρ false := by
  simp only [editAs, h]

/-- A cast that gives back what its operand gives is answered as its operand is. -/
theorem Job.run_cast {n : Note} {t : String} {e : Expr} {m : Machine} {depth : Nat}
    (h : ∀ v m', (Job.expr e).Answers m (.ok v) m' → v.castTo t = .ok v) :
    (Job.expr (.cast n t e)).run (depth + 1) m = (Job.expr e).run depth m := by
  have start : (Job.expr (.cast n t e)).run (depth + 1) m = ((e.eval m).complete (Job.run depth)).bind
      fun x => (onValue (fun v => Eval.ofExcept n.pos (Value.castTo t v)) x.1 x.2).complete
        (Job.run depth) := complete_andThen (Job.run depth) (e.eval m) _
  have operand : (e.eval m).complete (Job.run depth) = (Job.expr e).run depth m := by
    rw [Expr.eval, Eval.ask, complete]
    cases (Job.expr e).run depth m <;> rfl
  rw [start, operand]
  cases run : (Job.expr e).run depth m with
  | none => rfl
  | some x =>
      obtain ⟨c | v, m'⟩ := x
      · rfl
      · have same : Value.castTo t v = .ok v := h v m' ⟨depth, run⟩
        show (Eval.ofExcept n.pos (Value.castTo t v) m').complete _ = _
        rw [same]
        rfl

section Runs

variable {run : Progress ω} (spares : run.Spares ρ)

/-- A run that waits for a job goes on with what the job starts with. -/
theorem Progress.Steps.begin {j : Job} {m : Machine}
    {resume : Except Error j.Answer → Machine → Progress ω}
    (h : run.Steps (.waiting j m resume)) : run.Steps ((j.start m).andThen resume) :=
  h.trans (.more (.refl _))

/-! ### Forwards -/

/-- Jobs of the run are answered with edited code, if they nest no deeper than `depth`. -/
def Forwards (ρ : Edit) (run : Progress ω) (depth : Nat) : Prop :=
  ∀ formed (j : Job) m resume r m', run.Steps (.waiting j m resume) →
    j.run depth m = some (r, m') →
      (j.editAs ρ formed).Answers (m.edit ρ) (r.map (j.editAnswer ρ formed)) (m'.edit ρ)

theorem Forwards.steps {depth : Nat} (h : Forwards ρ run depth) {f : α → β} {p : Progress α}
    {q : Progress β} (hpq : p.Edits ρ f q) {k : Except Error α → Machine → Progress ω}
    (hs : run.Steps (p.andThen k)) {r : Except Error α} {m : Machine}
    (e : p.complete (Job.run depth) = some (r, m)) : q.Steps (.finished (r.map f) (m.edit ρ)) := by
  induction hpq with
  | finished r m =>
      cases e
      exact .refl _
  | @waiting formed j m₀ resume resume' _ ih =>
      rw [complete] at e
      cases answer : j.run depth m₀ with
      | none =>
          rw [answer] at e
          cases e
      | some x =>
          rw [answer] at e
          have on := hs.trans (Job.Answers.steps ⟨depth, answer⟩ _)
          exact ((h formed j m₀ _ x.1 x.2 hs answer).steps _).trans (ih x.1 x.2 on e)
  | endless => cases e

include spares in
theorem forwards (depth : Nat) : Forwards ρ run depth := by
  induction depth with
  | zero => exact fun _ _ _ _ _ _ _ e => nomatch e
  | succ depth ih =>
      intro formed j m resume r m' hs e
      have kept (hk : j.keptAs ρ formed = true) :
          (j.editAs ρ formed).Answers (m.edit ρ) (r.map (j.editAnswer ρ formed)) (m'.edit ρ) :=
        (Job.answers_iff_steps ..).mpr (ih.steps (j.edits_start formed hk m) hs.begin e)
      cases j with
      | expr a =>
          rcases a.kept_or_gone ρ formed with hk | ⟨rfl, n, t, a, rfl, gone⟩
          · exact kept hk
          · rw [Job.run_cast (spares n t a m resume hs gone)] at e
            have inner := ih false (.expr a) m _ r m' hs.begin e
            show (Job.expr ((Expr.cast n t a).editAs ρ false)).Answers _ (r.map (Value.edit ρ)) _
            rw [Expr.edit_gone gone]
            exact inner
      | _ => exact kept rfl

/-! ### Backwards -/

/-- What answers the edited jobs of the run, if they nest no deeper than `depth`, is an answer to the
jobs with edited code. -/
def Backwards (ρ : Edit) (run : Progress ω) (depth : Nat) : Prop :=
  ∀ formed (j : Job) m resume r' m₁, run.Steps (.waiting j m resume) →
    (j.editAs ρ formed).run depth (m.edit ρ) = some (r', m₁) →
      ∃ r m', j.Answers m r m' ∧ r' = r.map (j.editAnswer ρ formed) ∧ m₁ = m'.edit ρ

theorem Backwards.steps {depth : Nat} (h : Backwards ρ run depth) {f : α → β} {p : Progress α}
    {q : Progress β} (hpq : p.Edits ρ f q) {k : Except Error α → Machine → Progress ω}
    (hs : run.Steps (p.andThen k)) {r' : Except Error β} {m₁ : Machine}
    (e : q.complete (Job.run depth) = some (r', m₁)) :
    ∃ r m, p.Steps (.finished r m) ∧ r' = r.map f ∧ m₁ = m.edit ρ := by
  induction hpq with
  | finished r m =>
      cases e
      exact ⟨r, m, .refl _, rfl, rfl⟩
  | @waiting formed j m₀ resume resume' _ ih =>
      rw [complete] at e
      cases answer : (j.editAs ρ formed).run depth (m₀.edit ρ) with
      | none =>
          rw [answer] at e
          cases e
      | some x =>
          obtain ⟨r₀, m', answered, er, em⟩ := h formed j m₀ _ x.1 x.2 hs answer
          rw [answer] at e
          replace e : (resume' x.1 x.2).complete (Job.run depth) = some (r', m₁) := e
          rw [er, em] at e
          obtain ⟨r, m, ends, same⟩ := ih r₀ m' (hs.trans (answered.steps _)) e
          exact ⟨r, m, (answered.steps _).trans ends, same⟩
  | endless => cases e

include spares in
theorem Backwards.expr {depth : Nat} (ih : Backwards ρ run depth) (formed : Bool) (a : Expr)
    {m : Machine} {resume : Except Error Value → Machine → Progress ω} {r' : Except Error Value}
    {m₁ : Machine} (hs : run.Steps (.waiting (.expr a) m resume))
    (e : (Job.expr (a.editAs ρ formed)).run (depth + 1) (m.edit ρ) = some (r', m₁)) :
    ∃ r m', (Job.expr a).Answers m r m' ∧ r' = r.map (Value.edit ρ) ∧ m₁ = m'.edit ρ := by
  rcases a.kept_or_gone ρ formed with hk | ⟨rfl, n, t, b, rfl, gone⟩
  · obtain ⟨r, m', ends, same⟩ := ih.steps ((Job.expr a).edits_start formed hk m) hs.begin e
    exact ⟨r, m', (Job.answers_iff_steps ..).mpr ends, same⟩
  · rw [Expr.edit_gone gone] at e
    obtain ⟨r, m', ⟨depth', answered⟩, same⟩ := Backwards.expr ih false b hs.begin e
    refine ⟨r, m', ⟨depth' + 1, ?_⟩, same⟩
    rw [Job.run_cast (spares n t b m resume hs gone)]
    exact answered
termination_by sizeOf a

include spares in
theorem backwards (depth : Nat) : Backwards ρ run depth := by
  induction depth with
  | zero => exact fun _ _ _ _ _ _ _ e => nomatch e
  | succ depth ih =>
      intro formed j m resume r' m₁ hs e
      have kept (hk : j.keptAs ρ formed = true) :
          ∃ r m', j.Answers m r m' ∧ r' = r.map (j.editAnswer ρ formed) ∧ m₁ = m'.edit ρ := by
        obtain ⟨r, m', ends, same⟩ := ih.steps (j.edits_start formed hk m) hs.begin e
        exact ⟨r, m', (Job.answers_iff_steps ..).mpr ends, same⟩
      cases j with
      | expr a => exact ih.expr spares formed a hs e
      | _ => exact kept rfl

end Runs

/-! ### Edits that leave out no cast -/

theorem Job.keptAs_of_keeps (keeps : ρ.Keeps) (formed : Bool) (j : Job) :
    j.keptAs ρ formed = true := by
  cases j with
  | expr e =>
      rcases e.kept_or_gone ρ formed with hk | ⟨-, n, t, a, -, gone⟩
      · exact hk
      · exact absurd (keeps n (a.edit ρ)) (by rw [gone]; exact nofun)
  | _ => rfl

theorem Progress.spares_of_keeps (keeps : ρ.Keeps) (run : Progress ω) : run.Spares ρ :=
  fun n _ e _ _ _ gone => absurd (keeps n (e.edit ρ)) (by rw [gone]; exact nofun)

/-- Where the edit leaves out no cast, both runs go step by step. -/
theorem Progress.Edits.steps (keeps : ρ.Keeps) {f : α → β} {p p₁ : Progress α} {q : Progress β}
    (h : p.Edits ρ f q) (hs : p.Steps p₁) : ∃ q₁, q.Steps q₁ ∧ p₁.Edits ρ f q₁ := by
  induction hs generalizing q with
  | refl => exact ⟨q, .refl q, h⟩
  | @more j m _ _ _ ih =>
      cases h with
      | waiting formed h =>
          have start := j.edits_start formed (j.keptAs_of_keeps keeps formed) m
          obtain ⟨q₁, hs, h₁⟩ := ih (start.andThen h)
          exact ⟨q₁, .more hs, h₁⟩

/-- An end of the edited run is an end of the run, with edited code. -/
theorem Eval.Edits.ends {f : α → β} {x : Eval α} {y : Eval β} (h : Edits ρ f x y) {m : Machine}
    (spares : (x m).Spares ρ) (r' : Except Error β) (m₁ : Machine) :
    (y (m.edit ρ)).Steps (.finished r' m₁) ↔
      ∃ r m', (x m).Steps (.finished r m') ∧ r' = r.map f ∧ m₁ = m'.edit ρ := by
  have reached : (x m).Steps ((x m).andThen .finished) := by
    rw [andThen_finished]
    exact .refl _
  constructor
  · intro hs
    obtain ⟨depth, e⟩ := complete_of_steps hs
    exact (backwards spares depth).steps (h m) reached e
  · rintro ⟨r, m', hs, rfl, rfl⟩
    obtain ⟨depth, e⟩ := complete_of_steps hs
    exact (forwards spares depth).steps (h m) reached e

end Brace
