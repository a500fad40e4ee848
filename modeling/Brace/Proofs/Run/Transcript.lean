import Brace.Proofs.Run.Closed

/-!
# Run — what has been written and read

What a run writes goes to the end of the output, and what it reads comes from the front of the input.
Neither is ever taken back: not when the step that wrote fails, nor when a word has been read that
makes no value.

* `Progress.Logs.steps`: wherever a run gets to, it has written more and read more than before.
* `run_logs`: so it is between any two places of a run, and from there to its end, for jobs,
  declarations and programs.
-/

namespace Brace

variable {α β : Type}

namespace Progress

/-- From `m` on, the computation only writes more and reads more, as long as what it asks for does. -/
def Logs (m : Machine) : Progress α → Prop
  | .finished _ m'       => m.Logged m'
  | .waiting _ m₁ resume => m.Logged m₁ ∧ ∀ r m₂, m₁.Logged m₂ → Logs m₂ (resume r m₂)
  | .endless             => True

namespace Logs

/-- What logs from a later machine on logs from an earlier one on. -/
theorem since {m m' : Machine} {p : Progress α} (h : m.Logged m') (hp : p.Logs m') : p.Logs m := by
  cases p with
  | finished r m₁ => exact h.trans hp
  | waiting j m₁ resume => exact ⟨h.trans hp.1, hp.2⟩
  | endless => trivial

/-- What logs and goes on to something that logs from there on logs as a whole. -/
theorem andThen {k : Except Error α → Machine → Progress β} : ∀ {p : Progress α} {m : Machine},
    p.Logs m → (∀ r m₁, m.Logged m₁ → (k r m₁).Logs m₁) → (p.andThen k).Logs m := by
  intro p
  induction p with
  | finished r m₁ => exact fun hp hk => (hk r m₁ hp).since hp
  | waiting j m₁ resume ih =>
      intro m hp hk
      refine ⟨hp.1, fun r m₂ h => ih r m₂ (hp.2 r m₂ h) fun r' m₃ h' => ?_⟩
      exact hk r' m₃ (hp.1.trans (h.trans h'))
  | endless => exact fun _ _ => trivial

/-- The machine that the computation has got to. -/
theorem machine {p : Progress α} {m m₁ : Machine} (hp : p.Logs m) (e : p.machine? = some m₁) :
    m.Logged m₁ := by
  cases p with
  | finished r m₂ => cases e; exact hp
  | waiting j m₂ resume => cases e; exact hp.1
  | endless => cases e

/-- What is written and read from there on. -/
theorem here {p : Progress α} {m m₁ : Machine} (hp : p.Logs m) (e : p.machine? = some m₁) :
    p.Logs m₁ := by
  cases p with
  | finished r m₂ => cases e; exact .refl _
  | waiting j m₂ resume => cases e; exact ⟨.refl _, hp.2⟩
  | endless => cases e

end Logs

end Progress

/-- Wherever it is started, the computation only writes more and reads more. -/
def Eval.Logs (x : Eval α) : Prop := ∀ m, (x m).Logs m

/-- All pieces of evaluation log. -/
theorem Eval.Logs.closed : Eval.Closed Logs where
  ends h m := by
    obtain e | ⟨r, m', e, hm⟩ := h m <;> rw [e]
    · trivial
    · exact hm.toLogged
  ask _ m := ⟨.refl m, fun _ m₂ _ => Machine.Logged.refl m₂⟩
  bind hx hf m := (hx m).andThen fun r m₁ _ => by
    cases r with
    | ok a => exact hf a m₁
    | error e => exact Machine.Logged.refl m₁
  inBlock p x hx m := by
    have entered : m.Logged m.pushScope := .of_same rfl rfl
    refine ((hx m.pushScope).since entered).andThen fun r m₁ _ => ?_
    cases left : m₁.popScope with
    | ok m₂ =>
        obtain ⟨here, rfl⟩ := Machine.eq_of_popScope left
        exact Machine.Logged.of_same rfl rfl
    | error c => exact Machine.Logged.of_same rfl rfl
  inScope h x hx m := by
    have moved : m.Logged { m with here := h } := .of_same rfl rfl
    exact ((hx { m with here := h }).since moved).andThen fun r m₁ _ =>
      Machine.Logged.of_same rfl rfl
  counted p x hx m := by
    simp only [Eval.counted]
    split
    · have counting : m.Logged { m with callDepth := m.callDepth + 1 } := .of_same rfl rfl
      exact ((hx { m with callDepth := m.callDepth + 1 }).since counting).andThen fun r m₁ _ =>
        Machine.Logged.of_same rfl rfl
    · exact Machine.Logged.refl m
  orAt _ _ hx m := (hx m).andThen fun _ m₁ _ => Machine.Logged.refl m₁

/-- Wherever a run gets to, it has written more and read more. -/
theorem Progress.Logs.steps {p q : Progress α} (hs : p.Steps q) :
    ∀ {m : Machine}, p.Logs m → q.Logs m := by
  induction hs with
  | refl => exact fun hp => hp
  | @more j m₁ resume q _ ih =>
      intro m hp
      -- The job begins in the machine where it is asked for, and what waits for it goes on from
      -- whatever the job has written and read by then.
      have begun : (j.start m₁).Logs m₁ := j.start_closed Eval.Logs.closed m₁
      exact ih ((begun.andThen hp.2).since hp.1)

/-! ### Whole runs -/

/-- What the computation does from `m` to `m'`, where it ends: at each place that it passes through, it
has written more and read more since it began, and what it does from there to its end is to write and
to read. -/
structure Eval.Records (x : Eval α) (m m' : Machine) : Prop where
  whole   : m.Logged m'
  between : ∀ q m₁, (x m).Steps q → q.machine? = some m₁ → m.Logged m₁ ∧ m₁.Logged m'

/-- A run records what lies between its start and its end. -/
theorem Eval.Logs.records {x : Eval α} (hx : x.Logs) {depth : Nat} {m m' : Machine}
    {r : Except Error α} (h : x.run depth m = some (r, m')) : x.Records m m' := by
  have ends : (x m).Steps (.finished r m') := Progress.steps_of_complete _ h
  refine ⟨(hx m).steps ends, fun q m₁ hs e => ⟨((hx m).steps hs).machine e, ?_⟩⟩
  -- The place is on the way to the end, or is the end.
  rcases hs.linear ends with t | t
  · exact (((hx m).steps hs).here e).steps t
  · cases t
    cases e
    exact .refl _

/-- The prompt of an `input` is written in any case. -/
theorem Builtin.output_input {v : Value} {text : String} {m m' : Machine} {r : Except Cause Value}
    (ht : m.heap.text? v = some text) (h : Builtin.input.call [v] m = some (r, m')) :
    m'.output = m.output ++ text := by
  simp only [Builtin.call, ht, Option.map_some, Option.some.injEq] at h
  split at h
  all_goals
    rename_i m₁ read
    cases h
    have e := congrArg (·.2.output) read
    exact e.symm

/-- **What is written and read.**  However a job, a declaration or a program ends, be it with an error:
the output is what it was before with text added to its end, and the input what it was before without
some of its front. So it is between any place that the run passes through and its end, and so what had
been written there is still written in the end. An `input` that finds nothing to read has written
its prompt. -/
theorem run_logs (depth : Nat) (m : Machine) :
    (∀ j r m', Job.run depth j m = some (r, m') → j.start.Records m m') ∧
    (∀ d r m', (Decl.run d).run depth m = some (r, m') → (Decl.run d).Records m m') ∧
    (∀ p r m', (Program.run p).run depth m = some (r, m') → (Program.run p).Records m m') ∧
    (∀ v text p r m', m.heap.text? v = some text →
      Job.run depth (.apply (.builtin .input) [v] p) m = some (r, m') →
        m'.output = m.output ++ text) := by
  have closed := Eval.Logs.closed
  refine ⟨fun j r m' h => ?_, fun d r m' h => (d.run_closed closed).records h,
    fun p r m' h => (p.run_closed closed).records h, fun v text p r m' ht h => ?_⟩
  · cases depth with
    | zero => cases h
    | succ depth => exact (j.start_closed closed).records h
  · cases depth with
    | zero => cases h
    | succ depth =>
        have one : [v].length = Builtin.input.arity := rfl
        rw [Job.run, Job.start, Eval.applyTo, Builtin.apply, if_pos one] at h
        split at h <;> cases h <;> exact Builtin.output_input ht ‹_›

end Brace
