import Brace.Eval.Program

/-!
# Run — what a run passes through

`Job.run` gives the end of a run, and gives nothing where there is no end. What happens on the way
is told by `Steps`: a computation that waits for a job begins it and keeps for later what it does
with the answer, so what is left to be done is again one computation. A run passes through the
computations that come one after another in this way, whether it ends or not.

* `Job.answers_iff_steps`: the answers that `Job.run` gives are where the steps of a job end.
* `Job.Answers.steps`: past a job that has an answer, a run goes on with the answer.
* `Job.Answers.unique`: a job has one answer in one machine.
-/

namespace Brace

variable {α β : Type}

namespace Value

/-- The value is this integer. -/
def isInt (n : Int64) : Value → Bool
  | .int k => k == n
  | _      => false

theorem eq_of_isInt {n : Int64} {v : Value} (h : v.isInt n = true) : v = .int n := by
  cases v with
  | int k => rw [beq_iff_eq.mp (h : (k == n) = true)]
  | _ => cases h

/-- A result that is this integer. -/
theorem ok_of_isInt {ε : Type} {n : Int64} {r : Except ε Value}
    (h : r.toOption.any (·.isInt n) = true) : r = .ok (.int n) := by
  cases r with
  | error e => cases h
  | ok v => exact congrArg Except.ok (eq_of_isInt h)

theorem some_of_isInt {n : Int64} {o : Option Value} (h : o.any (·.isInt n) = true) :
    o = some (.int n) := by
  cases o with
  | none => cases h
  | some v => exact congrArg some (eq_of_isInt h)

end Value

namespace Progress

/-- One computation is left of another when the jobs that are waited for are begun, any number of
times. -/
inductive Steps : Progress α → Progress α → Prop where
  | refl (p : Progress α) : Steps p p
  | more {j : Job} {m : Machine} {resume : Except Error j.Answer → Machine → Progress α}
      {q : Progress α} (t : Steps ((j.start m).andThen resume) q) : Steps (.waiting j m resume) q

/-- The machine in which a computation has got as far as it gets on its own. -/
def machine? : Progress α → Option Machine
  | .finished _ m  => some m
  | .waiting _ m _ => some m
  | .endless       => none

namespace Steps

/-- A run that has come to a second computation goes on to what that comes to. -/
theorem trans {p q r : Progress α} (h₁ : p.Steps q) (h₂ : q.Steps r) : p.Steps r := by
  induction h₁ with
  | refl => exact h₂
  | more _ ih => exact .more (ih h₂)

/-- There is one way to go on. -/
theorem linear {p q r : Progress α} (h₁ : p.Steps q) (h₂ : p.Steps r) : q.Steps r ∨ r.Steps q := by
  induction h₁ with
  | refl => exact .inl h₂
  | more t ih =>
      cases h₂ with
      | refl => exact .inr (.more t)
      | more t' => exact ih t'

/-- What comes to an end does not go on forever. -/
theorem not_endless {p : Progress α} {r : Except Error α} {m : Machine}
    (h : p.Steps (.finished r m)) : ¬ p.Steps .endless := fun h' => by
  rcases h.linear h' with t | t <;> cases t

/-- What waits for a computation does not hinder its steps. -/
theorem andThen {p q : Progress α} (h : p.Steps q)
    (k : Except Error α → Machine → Progress β) : (p.andThen k).Steps (q.andThen k) := by
  induction h with
  | refl => exact .refl _
  | more _ ih =>
      refine .more ?_
      rw [← andThen_andThen]
      exact ih

end Steps

/-- What is left when a number of jobs have been begun. -/
def after : Nat → Progress α → Progress α
  | n + 1, .waiting j m resume => ((j.start m).andThen resume).after n
  | _, p                       => p

/-- To begin some jobs is to take steps. -/
theorem steps_after : ∀ (n : Nat) (p : Progress α), p.Steps (p.after n)
  | 0, p => by
      cases p <;> exact .refl _
  | _ + 1, .finished _ _ => .refl _
  | n + 1, .waiting j m resume => .more (steps_after n ((j.start m).andThen resume))
  | _ + 1, .endless => .refl _

/-- When `n` jobs have been begun, the computation waits for an expression that passes a test. -/
def waitsFor (n : Nat) (test : Expr → Machine → Bool) (p : Progress α) : Bool :=
  match p.after n with
  | .waiting (.expr e) m _ => test e m
  | _                      => false

/-- A test of what is waited for finds an expression that the run comes to. -/
theorem steps_of_waitsFor {n : Nat} {test : Expr → Machine → Bool} {p : Progress α}
    (h : p.waitsFor n test = true) :
    ∃ e m resume, p.Steps (.waiting (.expr e) m resume) ∧ test e m = true := by
  rw [waitsFor] at h
  split at h
  · rename_i e m resume hp
    exact ⟨e, m, resume, hp ▸ steps_after n p, h⟩
  · cases h

/-- When `n` jobs have been begun, the computation has failed for a cause that passes a test. -/
def failsAfter (n : Nat) (test : Cause → Bool) (p : Progress α) : Bool :=
  match p.after n with
  | .finished (.error e) _ => test e.cause
  | _                      => false

/-- A test of failures finds one that the run comes to. -/
theorem steps_of_failsAfter {n : Nat} {test : Cause → Bool} {p : Progress α}
    (h : p.failsAfter n test = true) :
    ∃ e m, p.Steps (.finished (.error e) m) ∧ test e.cause = true := by
  rw [failsAfter] at h
  split at h
  · rename_i e m hp
    exact ⟨e, m, hp ▸ steps_after n p, h⟩
  · cases h

/-! ### Deeper answers -/

/-- Answers that hold where others do complete what the others complete. -/
theorem complete_mono {answer answer' : (j : Job) → Machine → Option (Except Error j.Answer × Machine)}
    (le : ∀ j m x, answer j m = some x → answer' j m = some x) :
    ∀ (p : Progress α) {x}, p.complete answer = some x → p.complete answer' = some x := by
  intro p
  induction p with
  | finished r m => exact fun h => h
  | endless => intro x h; cases h
  | waiting j m resume ih =>
      intro x h
      simp only [complete] at h ⊢
      cases e : answer j m with
      | none => rw [e] at h; cases h
      | some y =>
          rw [e] at h
          rw [le j m y e]
          exact ih y.1 y.2 h

end Progress

namespace Job

open Progress

/-- An answer that is found at some depth is found one deeper. -/
theorem run_succ {depth : Nat} : ∀ (j : Job) (m : Machine) (x : Except Error j.Answer × Machine),
    j.run depth m = some x → j.run (depth + 1) m = some x := by
  induction depth with
  | zero => intro j m x h; cases h
  | succ depth ih => intro j m x h; exact complete_mono ih (j.start m) h

/-- An answer at one depth is the answer at every greater depth. -/
theorem run_mono {depth depth' : Nat} (le : depth ≤ depth') (j : Job) (m : Machine)
    (x : Except Error j.Answer × Machine) (h : j.run depth m = some x) :
    j.run depth' m = some x := by
  induction le with
  | refl => exact h
  | step _ ih => exact run_succ j m x ih

/-- The job has this answer, at some depth. -/
def Answers (j : Job) (m : Machine) (r : Except Error j.Answer) (m' : Machine) : Prop :=
  ∃ depth, j.run depth m = some (r, m')

/-- The job is answered at this depth, and the answer passes a test. -/
def yields (depth : Nat) (j : Job) (m : Machine) (test : j.Answer → Machine → Bool) : Bool :=
  match j.run depth m with
  | some (.ok a, m') => test a m'
  | _                => false

/-- A test of answers finds one that the job has at this depth. -/
theorem runs_of_yields {depth : Nat} {j : Job} {m : Machine} {test : j.Answer → Machine → Bool}
    (h : j.yields depth m test = true) :
    ∃ a m', j.run depth m = some (.ok a, m') ∧ test a m' = true := by
  rw [yields] at h
  split at h
  · exact ⟨_, _, ‹_›, h⟩
  · cases h

/-- A test of answers finds one that the job has. -/
theorem answers_of_yields {depth : Nat} {j : Job} {m : Machine} {test : j.Answer → Machine → Bool}
    (h : j.yields depth m test = true) : ∃ a m', j.Answers m (.ok a) m' ∧ test a m' = true := by
  obtain ⟨a, m', e, ht⟩ := runs_of_yields h
  exact ⟨a, m', ⟨depth, e⟩, ht⟩

/-- A job has one answer. -/
theorem Answers.unique {j : Job} {m m₁ m₂ : Machine} {r₁ r₂ : Except Error j.Answer}
    (h₁ : j.Answers m r₁ m₁) (h₂ : j.Answers m r₂ m₂) : r₁ = r₂ ∧ m₁ = m₂ := by
  obtain ⟨d₁, h₁⟩ := h₁
  obtain ⟨d₂, h₂⟩ := h₂
  have e₁ := run_mono (Nat.le_max_left d₁ d₂) j m _ h₁
  have e₂ := run_mono (Nat.le_max_right d₁ d₂) j m _ h₂
  rw [e₁] at e₂
  cases e₂
  exact ⟨rfl, rfl⟩

end Job

namespace Progress

/-- What the answers to jobs complete, the steps lead to. -/
theorem steps_of_complete {depth : Nat} : ∀ (p : Progress α) {r : Except Error α} {m : Machine},
    p.complete (Job.run depth) = some (r, m) → p.Steps (.finished r m) := by
  induction depth generalizing α with
  | zero =>
      intro p r m h
      cases p with
      | finished => cases h; exact .refl _
      | waiting => cases h
      | endless => cases h
  | succ depth ih =>
      intro p
      induction p with
      | finished => intro r m h; cases h; exact .refl _
      | endless => intro r m h; cases h
      | waiting j m₀ resume ihp =>
          intro r m h
          simp only [complete] at h
          cases e : Job.run (depth + 1) j m₀ with
          | none => rw [e] at h; cases h
          | some x =>
              rw [e] at h
              exact .more (((ih (j.start m₀) e).andThen resume).trans (ihp x.1 x.2 h))

/-- Where steps lead to an end, some depth is enough to get there. -/
theorem complete_of_steps {p : Progress α} {r : Except Error α} {m : Machine}
    (h : p.Steps (.finished r m)) : ∃ depth, p.complete (Job.run depth) = some (r, m) := by
  generalize e : Progress.finished r m = q at h
  induction h with
  | refl => subst e; exact ⟨0, rfl⟩
  | @more j m₀ resume q _ ih =>
      obtain ⟨depth, h⟩ := ih e
      rw [complete_andThen] at h
      obtain ⟨x, hx, hk⟩ := Option.bind_eq_some_iff.mp h
      refine ⟨depth + 1, ?_⟩
      have hj : Job.run (depth + 1) j m₀ = some x := hx
      simp only [complete, hj]
      exact complete_mono Job.run_succ _ hk

end Progress

namespace Job

open Progress

/-- The answers to a job are the ends that its steps lead to. -/
theorem answers_iff_steps (j : Job) (m : Machine) (r : Except Error j.Answer) (m' : Machine) :
    j.Answers m r m' ↔ (j.start m).Steps (.finished r m') := by
  constructor
  · rintro ⟨depth, h⟩
    cases depth with
    | zero => cases h
    | succ depth => exact steps_of_complete _ h
  · intro h
    obtain ⟨depth, h⟩ := complete_of_steps h
    exact ⟨depth + 1, h⟩

/-- Past a job that has an answer, a run goes on with the answer. -/
theorem Answers.steps {j : Job} {m m' : Machine} {r : Except Error j.Answer}
    (h : j.Answers m r m') (resume : Except Error j.Answer → Machine → Progress α) :
    (Progress.waiting j m resume).Steps (resume r m') :=
  .more (((answers_iff_steps j m r m').mp h).andThen resume)

end Job

end Brace
