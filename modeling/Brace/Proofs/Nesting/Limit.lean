import Brace.Proofs.Nesting.Functions

/-!
# Nesting — one run under two limits

How deep calls may nest is a setting of the machine. To see what depends on it, a computation is
followed under a limit and under a higher one at the same time: as long as the first does not fail
because calls nest too deep, the second does the same in the same machines, apart from the setting
(`Progress.Tracks`). Such a failure ends the first computation, whoever waits for it.

* `Progress.Tracks.complete`: what has come to an end under the lower limit comes to the same end under
  the higher one.
* `Progress.Tracks.steps`: whatever is passed through under the higher limit is passed through under
  the lower one, unless calls nest too deep there.
-/

namespace Brace

variable {α β : Type}

/-- The machine with another limit to how deep calls may nest. -/
def Machine.limit (m : Machine) (n : Nat) : Machine :=
  { m with settings := { m.settings with maxCallDepth := n } }

/-- A frame is left alike under every limit. -/
theorem Machine.popScope_limit {m m' : Machine} (h : m.popScope = .ok m') (n : Nat) :
    (m.limit n).popScope = .ok (m'.limit n) := by
  rw [popScope] at h ⊢
  have same : (m.limit n).scopes.pop (m.limit n).here = m.scopes.pop m.here := rfl
  rw [same]
  split at h <;> cases h
  rfl

/-- Calls were nested `k` deep, and another would have been too deep. -/
def Exhausts (k : Nat) (r : Except Error α) : Prop := ∃ p, r = .error ⟨.stackExhausted k, p⟩

namespace Progress

/-- The computation is over, since calls nest too deep. -/
def GaveUp (k : Nat) (Q : Except Error α → Machine → Prop) (p : Progress α) : Prop :=
  ∃ r m, p = .finished r m ∧ Exhausts k r ∧ Q r m

/-- The second computation does under the limit `n` what the first does under the limit `k`, where
calls do not nest too deep for the first. The first meets the contract and ends in `Q`, and whatever
gives up makes it give up. -/
def Tracks (C : Contract) (k n : Nat) (Q : Except Error α → Machine → Prop) :
    Progress α → Progress α → Prop
  | .finished r m, q       => Q r m ∧ (Exhausts k r ∨ q = .finished r (m.limit n))
  | .waiting j m resume, q => ∃ g, C.pre g j m ∧ ∃ resume', q = .waiting j (m.limit n) resume' ∧
      ∀ r m', C.post g j m r m' → Tracks C k n Q (resume r m') (resume' r (m'.limit n)) ∧
        (Exhausts k r → (resume r m').GaveUp k Q)
  | .endless, q            => C.endless ∧ q = .endless

namespace GaveUp

variable {k : Nat} {Q Q' : Except Error α → Machine → Prop} {p : Progress α}

theorem mono (le : ∀ r m, Q r m → Q' r m) (h : p.GaveUp k Q) : p.GaveUp k Q' := by
  obtain ⟨r, m, e, ended, hQ⟩ := h
  exact ⟨r, m, e, ended, le r m hQ⟩

/-- What gives up goes on to give up. -/
theorem andThen {Q' : Except Error β → Machine → Prop} {l : Except Error α → Machine → Progress β}
    (hl : ∀ r m, Q r m → Exhausts k r → (l r m).GaveUp k Q') (h : p.GaveUp k Q) :
    (p.andThen l).GaveUp k Q' := by
  obtain ⟨r, m, rfl, ended, hQ⟩ := h
  exact hl r m hQ ended

end GaveUp

namespace Tracks

variable {C : Contract} {k n : Nat} {Q Q' : Except Error α → Machine → Prop} {p q : Progress α}

theorem of_gaveUp (h : p.GaveUp k Q) : p.Tracks C k n Q q := by
  obtain ⟨r, m, rfl, ended, hQ⟩ := h
  exact ⟨hQ, .inl ended⟩

/-- What is known of the end may be weakened. -/
theorem mono (le : ∀ r m, Q r m → Q' r m) : ∀ {p q : Progress α}, p.Tracks C k n Q q →
    p.Tracks C k n Q' q := by
  intro p
  induction p with
  | finished r m => exact fun h => ⟨le r m h.1, h.2⟩
  | waiting j m resume ih =>
      rintro q ⟨g, hg, resume', e, hr⟩
      refine ⟨g, hg, resume', e, fun r m' hp => ⟨ih r m' (hr r m' hp).1, fun ended => ?_⟩⟩
      exact ((hr r m' hp).2 ended).mono le
  | endless => exact fun h => h

theorem meets : ∀ {p q : Progress α}, p.Tracks C k n Q q → p.Meets C Q := by
  intro p
  induction p with
  | finished r m => exact fun h => h.1
  | waiting j m resume ih =>
      rintro q ⟨g, hg, resume', -, hr⟩
      exact ⟨g, hg, fun r m' hp => ih r m' (hr r m' hp).1⟩
  | endless => exact fun h => h.1

/-- Computations with continuations keep together if the continuations do, and what gives up is not
taken up again. -/
theorem andThen {Q : Except Error α → Machine → Prop} {Q' : Except Error β → Machine → Prop}
    {l l' : Except Error α → Machine → Progress β}
    (hl : ∀ r m, Q r m → (l r m).Tracks C k n Q' (l' r (m.limit n)))
    (he : ∀ r m, Q r m → Exhausts k r → (l r m).GaveUp k Q') :
    ∀ {p q : Progress α}, p.Tracks C k n Q q → (p.andThen l).Tracks C k n Q' (q.andThen l') := by
  intro p
  induction p with
  | finished r m =>
      rintro q ⟨hQ, ended | rfl⟩
      · exact of_gaveUp (he r m hQ ended)
      · exact hl r m hQ
  | waiting j m resume ih =>
      rintro q ⟨g, hg, resume', rfl, hr⟩
      refine ⟨g, hg, _, rfl, fun r m' hp => ⟨ih r m' (hr r m' hp).1, fun ended => ?_⟩⟩
      exact ((hr r m' hp).2 ended).andThen he
  | endless =>
      rintro q ⟨h, rfl⟩
      exact ⟨h, rfl⟩

end Tracks

end Progress

/-- Every job that may be asked for does the same under both limits. -/
def Contract.Tracked (C : Contract) (k n : Nat) : Prop :=
  ∀ g j m, C.pre g j m → (j.start m).Tracks C k n (C.post g j m) (j.start (m.limit n))

theorem Contract.Tracked.kept {C : Contract} {k n : Nat} (hC : C.Tracked k n) : C.Kept :=
  fun g j m hg => (hC g j m hg).meets

namespace Progress.Tracks

variable {C : Contract} {k n : Nat} {Q : Except Error α → Machine → Prop}

/-- If jobs end alike under both limits, so does what asks for them. -/
theorem complete_of_answers
    {answer : (j : Job) → Machine → Option (Except Error j.Answer × Machine)}
    (ha : ∀ g j m r m', C.pre g j m → answer j m = some (r, m') → C.post g j m r m' ∧
      (Exhausts k r ∨ answer j (m.limit n) = some (r, m'.limit n))) :
    ∀ {p q : Progress α} {r : Except Error α} {m : Machine}, p.Tracks C k n Q q →
      p.complete answer = some (r, m) → Exhausts k r ∨ q.complete answer = some (r, m.limit n) := by
  intro p
  induction p with
  | finished r m =>
      rintro q r' m' ⟨-, h⟩ ⟨⟩
      rcases h with ended | rfl
      · exact .inl ended
      · exact .inr rfl
  | waiting j m resume ih =>
      rintro q r' m' ⟨g, hg, resume', rfl, hr⟩ e
      simp only [complete] at e ⊢
      cases e₁ : answer j m with
      | none => rw [e₁] at e; cases e
      | some x =>
          obtain ⟨r₁, m₁⟩ := x
          rw [e₁] at e
          obtain ⟨hp, ended | e₂⟩ := ha g j m r₁ m₁ hg e₁
          · -- The answer was that calls nest too deep, and so is the result.
            obtain ⟨r₂, m₂, e₂, ended, -⟩ := (hr r₁ m₁ hp).2 ended
            simp only [e₂, complete] at e
            cases e
            exact .inl ended
          · rw [e₂]
            exact ih r₁ m₁ (hr r₁ m₁ hp).1 e
  | endless => rintro q r' m' - ⟨⟩

end Progress.Tracks

/-- A run under the lower limit nests too deep, or ends under every higher one just so. -/
theorem Contract.Tracked.run {C : Contract} {k n : Nat} (hC : C.Tracked k n) (depth : Nat) :
    ∀ g j m r m', C.pre g j m → Job.run depth j m = some (r, m') → C.post g j m r m' ∧
      (Exhausts k r ∨ Job.run depth j (m.limit n) = some (r, m'.limit n)) := by
  induction depth with
  | zero => intro g j m r m' _ h; cases h
  | succ depth ih =>
      intro g j m r m' hg h
      exact ⟨hC.kept.answers hg ⟨depth + 1, h⟩, (hC g j m hg).complete_of_answers ih h⟩

namespace Progress.Tracks

variable {C : Contract} {k n : Nat} {Q : Except Error α → Machine → Prop} {p q : Progress α}

/-- What comes to an end under the lower limit comes to the same end under the higher one, unless the
end is that calls nest too deep. -/
theorem complete (hC : C.Tracked k n) (h : p.Tracks C k n Q q) {depth : Nat}
    {r : Except Error α} {m : Machine} (e : p.complete (Job.run depth) = some (r, m)) :
    Exhausts k r ∨ q.complete (Job.run depth) = some (r, m.limit n) :=
  h.complete_of_answers (hC.run depth) e

/-- What is passed through under the higher limit is passed through under the lower one, unless
calls nest too deep there. -/
theorem steps (hC : C.Tracked k n) {q' : Progress α} (hs : q.Steps q') :
    ∀ {p : Progress α}, p.Tracks C k n Q q →
      (∃ r m, p.Steps (.finished r m) ∧ Exhausts k r) ∨
        ∃ p', p.Steps p' ∧ p'.Tracks C k n Q q' := by
  induction hs with
  | refl q => exact fun {p} h => .inr ⟨p, .refl p, h⟩
  | @more j m resume q' _ ih =>
      intro p h
      cases p with
      | finished r m₁ =>
          obtain ⟨-, ended | e⟩ := h
          · exact .inl ⟨r, m₁, .refl _, ended⟩
          · cases e
      | endless => cases h.2
      | waiting j₁ m₁ resume₁ =>
          obtain ⟨g, hg, resume', e, hr⟩ := h
          cases e
          have begun : ((j.start m₁).andThen resume₁).Tracks C k n Q
              ((j.start (m₁.limit n)).andThen resume) :=
            andThen (fun r m' hp => (hr r m' hp).1) (fun r m' hp => (hr r m' hp).2) (hC g j m₁ hg)
          rcases ih begun with ⟨r, m', hs, ended⟩ | ⟨p', hs, hp⟩
          · exact .inl ⟨r, m', .more hs, ended⟩
          · exact .inr ⟨p', .more hs, hp⟩

end Progress.Tracks

end Brace
