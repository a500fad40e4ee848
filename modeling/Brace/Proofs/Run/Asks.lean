import Brace.Proofs.Run.Local

/-!
# Run — what a computation itself asks for

A computation goes on when a job that it waits for has been answered, and may then ask for another.
What it asks for so is asked for by itself (`AsksFor`), unlike what is asked for on the way to an
answer (`Involves`).

* `Progress.involves_iff`: what a run waits for is asked for by the computation itself, or by what is
  asked for.
* `Progress.Walks.goesOn`: wherever a computation that walks is at work, it has walked there.
* `Eval.asks_of_bind`, `Eval.steps_of_bind`: what is asked for by, and comes of, one thing after another.
* `Eval.steps_into_bind`: what a run of one thing after another passes through.
* `Eval.asks_of_mapM`: expressions that are evaluated in order ask for their values alone.
-/

namespace Brace

variable {α β : Type}

namespace Progress

/-- The computation itself asks for the job, once what it asked for before has been answered. -/
inductive AsksFor : Progress α → Job → Machine → Prop where
  | here (j : Job) (m : Machine) (resume : Except Error j.Answer → Machine → Progress α) :
      AsksFor (.waiting j m resume) j m
  | later {j j' : Job} {m m' m₂ : Machine} {r : Except Error j.Answer}
      {resume : Except Error j.Answer → Machine → Progress α} (h : j.Answers m r m')
      (ha : AsksFor (resume r m') j' m₂) : AsksFor (.waiting j m resume) j' m₂

/-- The computation itself is at work in the machine: it asks for something there or ends, or
something that it asked for has been answered. -/
inductive GoesOn : Progress α → Machine → Prop where
  | gets {p : Progress α} {m : Machine} (h : p.machine? = some m) : GoesOn p m
  | answered {j : Job} {m m' : Machine} {r : Except Error j.Answer}
      {resume : Except Error j.Answer → Machine → Progress α} (h : j.Answers m r m') :
      GoesOn (.waiting j m resume) m'
  | later {j : Job} {m m' m₂ : Machine} {r : Except Error j.Answer}
      {resume : Except Error j.Answer → Machine → Progress α} (h : j.Answers m r m')
      (hg : GoesOn (resume r m') m₂) : GoesOn (.waiting j m resume) m₂

/-- The job is asked for in a run of the computation: by the computation itself, or on the way to an
answer. -/
inductive Involves : Progress α → Job → Machine → Prop where
  | itself {p : Progress α} {j : Job} {m : Machine} (h : p.AsksFor j m) : Involves p j m
  | within {p : Progress α} {j j' : Job} {m m' : Machine} (h : Involves p j m)
      (ha : (j.start m).AsksFor j' m') : Involves p j' m'

/-- What comes of a computation with a continuation comes of the one and then of the other. -/
theorem steps_of_andThen {p : Progress α} {k : Except Error α → Machine → Progress β}
    {r : Except Error β} {m : Machine} (h : (p.andThen k).Steps (.finished r m)) :
    ∃ r₁ m₁, p.Steps (.finished r₁ m₁) ∧ (k r₁ m₁).Steps (.finished r m) := by
  obtain ⟨depth, h⟩ := complete_of_steps h
  rw [complete_andThen] at h
  obtain ⟨⟨r₁, m₁⟩, h₁, h₂⟩ := Option.bind_eq_some_iff.mp h
  exact ⟨r₁, m₁, steps_of_complete _ h₁, steps_of_complete _ h₂⟩

/-- What a computation with a continuation passes through, the one passes through or the other. -/
theorem Steps.of_andThen {k : Except Error α → Machine → Progress β} {p : Progress α}
    {q : Progress β} (h : (p.andThen k).Steps q) :
    (∃ p', p.Steps p' ∧ q = p'.andThen k) ∨
      ∃ r m, p.Steps (.finished r m) ∧ (k r m).Steps q := by
  -- Each step of the whole is one of the first part, or comes when that has ended.
  -- The steps are those of the whole, and say which part they are in only one by one.
  generalize e : p.andThen k = p₀ at h
  induction h generalizing p with
  | refl => exact .inl ⟨p, .refl p, e.symm⟩
  | @more j m resume q t ih =>
      cases p with
      | finished r m' => exact .inr ⟨r, m', .refl _, (show k r m' = _ from e) ▸ .more t⟩
      | waiting j' m' resume' =>
          cases e
          rcases ih (p := (j.start m).andThen resume') (andThen_andThen ..) with
            ⟨p', hs, rfl⟩ | ⟨r, m', hs, hk⟩
          · exact .inl ⟨p', .more hs, rfl⟩
          · exact .inr ⟨r, m', .more hs, hk⟩
      | endless => cases e

/-- What two computations ask for that follow one another, the first one asks for, or the second where
the first has ended. -/
theorem AsksFor.of_andThen {k : Except Error α → Machine → Progress β} {j : Job} {m : Machine} :
    ∀ {p : Progress α}, (p.andThen k).AsksFor j m →
      p.AsksFor j m ∨ ∃ r₁ m₁, p.Steps (.finished r₁ m₁) ∧ (k r₁ m₁).AsksFor j m := by
  intro p
  induction p with
  | finished r m₁ => exact fun h => .inr ⟨r, m₁, .refl _, h⟩
  | waiting j' m' resume ih =>
      intro h
      cases h with
      | here => exact .inl (.here ..)
      | later ha h =>
          rcases ih _ _ h with h | ⟨r₁, m₁, hs, h⟩
          · exact .inl (.later ha h)
          · exact .inr ⟨r₁, m₁, (ha.steps resume).trans hs, h⟩
  | endless => nofun

/-- What is asked for is waited for. -/
theorem AsksFor.steps {p : Progress α} {j : Job} {m : Machine} (h : p.AsksFor j m) :
    ∃ resume, p.Steps (.waiting j m resume) := by
  induction h with
  | here j m resume => exact ⟨resume, .refl _⟩
  | later h _ ih =>
      obtain ⟨resume', hs⟩ := ih
      exact ⟨resume', (h.steps _).trans hs⟩

/-- What is asked for on the way to an answer is asked for. -/
theorem Involves.trans {p : Progress α} {j j' : Job} {m m' : Machine} (h : p.Involves j m)
    (h' : (Eval.ask j m).Involves j' m') : p.Involves j' m' := by
  induction h' with
  | itself ha =>
      cases ha with
      | here => exact h
      | later _ ha => cases ha
  | within _ ha ih => exact .within ih ha

/-- What is asked for when a job has been begun is asked for where the job is waited for. -/
theorem Involves.of_begun {j j' : Job} {m m' : Machine}
    {resume : Except Error j.Answer → Machine → Progress α}
    (h : ((j.start m).andThen resume).Involves j' m') :
    (Progress.waiting j m resume).Involves j' m' := by
  induction h with
  | itself h =>
      rcases h.of_andThen with h | ⟨r, m₁, hs, h⟩
      · exact .within (.itself (.here j m resume)) h
      · exact .itself (.later ((Job.answers_iff_steps j m r m₁).mpr hs) h)
  | within _ ha ih => exact .within ih ha

/-- What a run waits for is asked for by the computation itself, or by what is asked for. -/
theorem involves_iff {p : Progress α} {j : Job} {m : Machine} :
    p.Involves j m ↔ ∃ resume, p.Steps (.waiting j m resume) := by
  constructor
  · intro h
    induction h with
    | itself h => exact h.steps
    | within _ ha ih =>
        obtain ⟨resume, hs⟩ := ih
        obtain ⟨resume', hs'⟩ := ha.steps
        exact ⟨_, hs.trans (.more (hs'.andThen resume))⟩
  · rintro ⟨resume, h⟩
    generalize e : Progress.waiting j m resume = q at h
    induction h with
    | refl => exact e ▸ .itself (.here j m resume)
    | more _ ih => exact (ih e).of_begun

/-- Wherever a computation that walks is at work, it has walked there. -/
theorem Walks.goesOn {A : String → Prop} {T : Machine → Machine → Prop} (hT : Absorbs A T)
    {es : List Expr} {p : Progress α} {m' : Machine} (hg : p.GoesOn m') :
    ∀ {m : Machine}, p.Walks T es m →
      (∀ j m₁ r m₂, p.AsksFor j m₁ → j.Answers m₁ r m₂ → T m₁ m₂) → T m m' := by
  induction hg with
  | @gets p _ h =>
      intro m hp _
      cases p with
      | finished r m₁ => cases h; exact hp
      | waiting j m₁ resume => cases h; exact hp.1
      | endless => cases h
  | answered h =>
      intro m hp answers
      exact hT.trans hp.1 (answers _ _ _ _ (.here ..) h)
  | later h _ ih =>
      intro m hp answers
      have step := answers _ _ _ _ (.here ..) h
      refine hT.trans (hT.trans hp.1 step) (ih (hp.2.2 _ _ step) fun j m₁ r m₂ ha => ?_)
      exact answers j m₁ r m₂ (.later h ha)

/-- Where a computation asks for a job that meets a contract, the contract lets it, if jobs are
answered as the contract says. -/
theorem Meets.asks {C : Contract} {Q : Except Error α → Machine → Prop} {p : Progress α} {j : Job}
    {m : Machine} (ha : p.AsksFor j m) : p.Meets C Q →
      (∀ j m g r m', p.AsksFor j m → C.pre g j m → j.Answers m r m' → C.post g j m r m') →
        ∃ g, C.pre g j m := by
  induction ha with
  | here j m resume => exact fun ⟨g, hg, _⟩ _ => ⟨g, hg⟩
  | later h _ ih =>
      rintro ⟨g, hg, hr⟩ answers
      refine ih (hr _ _ (answers _ _ g _ _ (.here ..) hg h)) fun j m g r m' ha => ?_
      exact answers j m g r m' (.later h ha)

/-- What a computation ends in that meets a contract, if the jobs that it asks for are answered as the
contract says. -/
theorem Meets.of_complete {C : Contract} {Q : Except Error α → Machine → Prop} {depth : Nat} :
    ∀ {p : Progress α} {r : Except Error α} {m' : Machine}, p.Meets C Q →
      (∀ j m r m' g, p.AsksFor j m → j.run depth m = some (r, m') → C.pre g j m →
        C.post g j m r m') → p.complete (Job.run depth) = some (r, m') → Q r m' := by
  intro p
  induction p with
  | finished r m => intro _ _ met _ h; cases h; exact met
  | endless => intro _ _ _ _ h; cases h
  | waiting j m resume ih =>
      rintro r m' ⟨g, hg, hr⟩ answers h
      simp only [complete] at h
      split at h
      · rename_i r₁ m₁ e
        have met := hr r₁ m₁ (answers j m r₁ m₁ g (.here ..) e hg)
        refine ih r₁ m₁ met (fun j' m₂ r₂ m₃ g' asked => ?_) h
        exact answers j' m₂ r₂ m₃ g' (.later ⟨depth, e⟩ asked)
      · cases h

/-- The computation that is left when `n` jobs have been answered, at this depth. -/
def answered (depth : Nat) : Nat → Progress α → Progress α
  | n + 1, .waiting j m resume =>
      match j.run depth m with
      | some (r, m') => (resume r m').answered depth n
      | none         => .waiting j m resume
  | _, p => p

/-- What is asked for later on is asked for. -/
theorem AsksFor.of_answered {depth : Nat} {j : Job} {m : Machine} : ∀ {n : Nat} {p : Progress α},
    (p.answered depth n).AsksFor j m → p.AsksFor j m
  | 0, p, h => by
      cases p <;> exact h
  | _ + 1, .finished _ _, h => h
  | _ + 1, .endless, h => h
  | n + 1, .waiting j' m' resume, h => by
      rw [answered] at h
      split at h
      · exact .later ⟨depth, ‹_›⟩ h.of_answered
      · exact h

end Progress

namespace Eval

open Progress

variable {j : Job} {m m' : Machine}

/-- What an asking ends with is an answer. -/
theorem answers_of_ask {r : Except Error j.Answer} (h : (ask j m).Steps (.finished r m')) :
    j.Answers m r m' := by
  cases h with
  | more h =>
      rw [andThen_finished] at h
      exact (Job.answers_iff_steps j m r m').mpr h

/-- One thing after another gives something only if the first does. -/
theorem steps_of_bind {x : Eval α} {f : α → Eval β} {b : β}
    (h : ((x >>= f) m).Steps (.finished (.ok b) m')) :
    ∃ a m₁, (x m).Steps (.finished (.ok a) m₁) ∧ (f a m₁).Steps (.finished (.ok b) m') := by
  obtain ⟨r, m₁, hx, hf⟩ := Progress.steps_of_andThen h
  cases r with
  | ok a => exact ⟨a, m₁, hx, hf⟩
  | error e => cases hf

/-- One thing after another gives what the second gives. -/
theorem steps_bind {x : Eval α} {f : α → Eval β} {a : α} {m₁ : Machine} {q : Progress β}
    (hx : (x m).Steps (.finished (.ok a) m₁)) (hf : (f a m₁).Steps q) : ((x >>= f) m).Steps q :=
  (hx.andThen (onValue f)).trans hf

/-- One thing after another is at the first, which has not given anything yet, or at the second. -/
theorem steps_into_bind {x : Eval α} {f : α → Eval β} {q : Progress β}
    (h : ((x >>= f) m).Steps q) :
    (∃ p, (x m).Steps p ∧ q.machine? = p.machine? ∧ ∀ b m', q ≠ .finished (.ok b) m') ∨
      ∃ a m₁, (x m).Steps (.finished (.ok a) m₁) ∧ (f a m₁).Steps q := by
  rcases Progress.Steps.of_andThen h with ⟨p, hx, rfl⟩ | ⟨r, m₁, hx, hf⟩
  · cases p with
    | finished r m' =>
        cases r with
        | ok a => exact .inr ⟨a, m', hx, .refl _⟩
        | error e => exact .inl ⟨_, hx, rfl, nofun⟩
    | waiting j m' resume => exact .inl ⟨_, hx, rfl, nofun⟩
    | endless => exact .inl ⟨_, hx, rfl, nofun⟩
  · cases r with
    | ok a => exact .inr ⟨a, m₁, hx, hf⟩
    | error e =>
        cases hf
        exact .inl ⟨_, hx, rfl, nofun⟩

/-- One thing after another asks for what the one or the other asks for. -/
theorem asks_of_bind {x : Eval α} {f : α → Eval β} (h : ((x >>= f) m).AsksFor j m') :
    (x m).AsksFor j m' ∨ ∃ a m₁, (x m).Steps (.finished (.ok a) m₁) ∧ (f a m₁).AsksFor j m' := by
  rcases h.of_andThen with h | ⟨r, m₁, hx, hf⟩
  · exact .inl h
  · cases r with
    | ok a => exact .inr ⟨a, m₁, hx, hf⟩
    | error e => cases hf

/-- An asking asks for its own job, and at once. -/
theorem eq_of_asks_ask {j' : Job} (h : (ask j' m).AsksFor j m') : j = j' ∧ m' = m := by
  cases h with
  | here => exact ⟨rfl, rfl⟩
  | later _ h => cases h

theorem job_of_asks_ask {j' : Job} (h : (ask j' m).AsksFor j m') : j = j' := (eq_of_asks_ask h).1

/-- Expressions that are evaluated in order give as many values. -/
theorem length_of_mapM : ∀ {es : List Expr} {m : Machine} {vs : List Value},
    ((es.mapM Expr.eval) m).Steps (.finished (.ok vs) m') → vs.length = es.length
  | [], m, vs, h => by
      rw [List.mapM_nil] at h
      cases h
      rfl
  | e :: es, m, vs, h => by
      rw [List.mapM_cons] at h
      obtain ⟨v, m₁, -, h⟩ := steps_of_bind h
      obtain ⟨ws, m₂, hs, h⟩ := steps_of_bind h
      cases h
      rw [List.length_cons, List.length_cons, length_of_mapM hs]

/-- Expressions that are evaluated in order ask for expressions. -/
theorem asks_of_mapM : ∀ {es : List Expr} {m : Machine}, ((es.mapM Expr.eval) m).AsksFor j m' →
    ∃ e, j = .expr e
  | [], m, h => by
      rw [List.mapM_nil] at h
      cases h
  | e :: es, m, h => by
      rw [List.mapM_cons] at h
      rcases asks_of_bind h with h | ⟨v, m₁, -, h⟩
      · exact ⟨e, job_of_asks_ask h⟩
      · rcases asks_of_bind h with h | ⟨vs, m₂, -, h⟩
        · exact asks_of_mapM h
        · cases h

/-! ### What asks for nothing -/

/-- The computation does everything on its own. -/
def Silent (x : Eval α) : Prop := ∀ m j m', ¬ (x m).AsksFor j m'

namespace Silent

/-- A computation that ends at once asks for nothing. -/
theorem of_finished {x : Eval α} (h : ∀ m, ∃ r m', x m = .finished r m') : x.Silent := by
  intro m j m' ha
  obtain ⟨r, m₁, e⟩ := h m
  rw [e] at ha
  cases ha

theorem pure (a : α) : (Pure.pure a : Eval α).Silent := of_finished fun m => ⟨_, m, rfl⟩

theorem fail (c : Cause) (p : Position) : (fail c p : Eval α).Silent :=
  of_finished fun m => ⟨_, m, rfl⟩

theorem view (f : Machine → α) : (view f).Silent := of_finished fun m => ⟨_, m, rfl⟩

theorem make (f : Machine → α × Machine) : (make f).Silent := of_finished fun _ => ⟨_, _, rfl⟩

theorem change (f : Machine → Machine) : (change f).Silent := of_finished fun _ => ⟨_, _, rfl⟩

theorem consult (p : Position) (f : Machine → Except Cause α) : (consult p f).Silent :=
  of_finished fun m => by
    simp only [Eval.consult]
    split <;> exact ⟨_, _, rfl⟩

theorem update (p : Position) (check : Machine → Except Cause β)
    (write : β → Machine → Machine) : (update p check write).Silent := of_finished fun m => by
  simp only [Eval.update]
  split <;> exact ⟨_, _, rfl⟩

theorem textOf (v : Value) : (textOf v).Silent := by
  intro m j m' h
  simp only [Eval.textOf] at h
  split at h <;> cases h

/-- What asks for nothing and goes on to what asks for nothing asks for nothing. -/
theorem bind {x : Eval α} {f : α → Eval β} (hx : x.Silent) (hf : ∀ a, (f a).Silent) :
    (x >>= f).Silent := by
  intro m j m' h
  rcases asks_of_bind h with h | ⟨a, m₁, -, h⟩
  · exact hx m j m' h
  · exact hf a m₁ j m' h

/-- What comes before what asks for nothing asks for everything. -/
theorem asks_fst {x : Eval α} {f : α → Eval β} (hf : ∀ a, (f a).Silent)
    (h : ((x >>= f) m).AsksFor j m') : (x m).AsksFor j m' := by
  rcases asks_of_bind h with h | ⟨a, m₁, -, h⟩
  · exact h
  · exact absurd h (hf a m₁ j m')

end Silent

end Eval

end Brace
