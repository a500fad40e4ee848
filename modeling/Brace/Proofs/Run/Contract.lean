import Brace.Proofs.Run.Steps

/-!
# Run — contracts for jobs

A contract says of every job what has to hold where it is asked for and what holds where it is
answered. Both may speak of something that no machine shows (`Ghost`), such as what checking knew
at a place of the program. A computation meets a contract when each job that it asks for may be
asked for there, and when, whatever answers the contract allows, it ends as it should (`Meets`). That
it ends at all is not said, but a contract may rule out that it goes on forever over a value without a
text. A contract is kept when what every job starts with meets it.

A kept contract is a statement about whole runs. It is proved by looking at one layer of
evaluation at a time, since `Job.start` is not recursive.

A contract may be narrowed to askings where something more is so (`Contract.having`).

* `Progress.Meets.steps`: a run that meets a kept contract passes only through computations that
  meet it.
* `Contract.Kept.answers`: jobs are answered as a kept contract says.
-/

namespace Brace

variable {α β : Type}

structure Contract where
  Ghost : Type
  /-- What has to hold where a job is asked for. -/
  pre   : Ghost → Job → Machine → Prop
  /-- What holds of the answer to a job that was asked for in a machine. -/
  post  : Ghost → (j : Job) → Machine → Except Error j.Answer → Machine → Prop
  /-- What has to be so where a value is shown that has no text. -/
  endless : Prop := True

namespace Progress

variable {C : Contract}

/-- The computation asks for no job that the contract does not allow, and ends in `Q`. -/
def Meets (C : Contract) (Q : Except Error α → Machine → Prop) : Progress α → Prop
  | .finished r m       => Q r m
  | .waiting j m resume =>
      ∃ g, C.pre g j m ∧ ∀ r m', C.post g j m r m' → Meets C Q (resume r m')
  | .endless            => C.endless

namespace Meets

/-- A computation that ends as it should ends in whatever follows from that. -/
theorem mono {Q Q' : Except Error α → Machine → Prop} (le : ∀ r m, Q r m → Q' r m) :
    ∀ {p : Progress α}, p.Meets C Q → p.Meets C Q' := by
  intro p h
  induction p with
  | finished r m => exact le r m h
  | waiting j m resume ih =>
      obtain ⟨g, hg, hr⟩ := h
      exact ⟨g, hg, fun r m' hp => ih r m' (hr r m' hp)⟩
  | endless => exact h

/-- A computation and what is done with its end meet a contract together if the second part meets it
wherever the first may end. -/
theorem andThen {Q : Except Error β → Machine → Prop} {k : Except Error α → Machine → Progress β} :
    ∀ {p : Progress α}, p.Meets C (fun r m => (k r m).Meets C Q) → (p.andThen k).Meets C Q := by
  intro p h
  induction p with
  | finished r m => exact h
  | waiting j m resume ih =>
      obtain ⟨g, hg, hr⟩ := h
      exact ⟨g, hg, fun r m' hp => ih r m' (hr r m' hp)⟩
  | endless => exact h

end Meets

end Progress

/-- The contract for asking only where `I` holds besides. -/
def Contract.having (C : Contract) (I : C.Ghost → Machine → Prop) : Contract where
  Ghost := C.Ghost
  pre g j m := C.pre g j m ∧ I g m
  post := C.post
  endless := C.endless

namespace Progress.Meets

variable {C : Contract} {I I' : C.Ghost → Machine → Prop} {Q : Except Error α → Machine → Prop}

/-- Askings may be narrowed to fewer or to more. -/
theorem having_mono (le : ∀ g m, I g m → I' g m) : ∀ {p : Progress α},
    p.Meets (C.having I) Q → p.Meets (C.having I') Q := by
  intro p h
  induction p with
  | finished r m => exact h
  | waiting j m resume ih =>
      obtain ⟨g, ⟨hg, hI⟩, hr⟩ := h
      exact ⟨g, ⟨hg, le g m hI⟩, fun r m' hp => ih r m' (hr r m' hp)⟩
  | endless => exact h

/-- Askings that are narrowed are askings. -/
theorem of_having : ∀ {p : Progress α}, p.Meets (C.having I) Q → p.Meets C Q := by
  intro p h
  induction p with
  | finished r m => exact h
  | waiting j m resume ih =>
      obtain ⟨g, ⟨hg, -⟩, hr⟩ := h
      exact ⟨g, hg, fun r m' hp => ih r m' (hr r m' hp)⟩
  | endless => exact h

end Progress.Meets

/-- Every job that may be asked for starts with a computation that meets the contract. -/
def Contract.Kept (C : Contract) : Prop :=
  ∀ g j m, C.pre g j m → (j.start m).Meets C (C.post g j m)

namespace Progress.Meets

variable {C : Contract} {Q : Except Error α → Machine → Prop}

/-- One job is begun: what is left meets the contract still. -/
theorem step (hC : C.Kept) {j : Job} {m : Machine}
    {resume : Except Error j.Answer → Machine → Progress α}
    (h : (Progress.waiting j m resume).Meets C Q) : ((j.start m).andThen resume).Meets C Q := by
  obtain ⟨g, hg, hr⟩ := h
  exact (hC g j m hg |>.mono hr).andThen

/-- A run passes only through computations that meet the contract. -/
theorem steps (hC : C.Kept) {p q : Progress α} (h : p.Meets C Q) (hs : p.Steps q) :
    q.Meets C Q := by
  induction hs with
  | refl => exact h
  | more _ ih => exact ih (h.step hC)

/-- What a run ends in. -/
theorem ends (hC : C.Kept) {p : Progress α} {r : Except Error α} {m : Machine}
    (h : p.Meets C Q) (hs : p.Steps (.finished r m)) : Q r m :=
  h.steps hC hs

end Progress.Meets

/-- Jobs are answered as a kept contract says. -/
theorem Contract.Kept.answers {C : Contract} (hC : C.Kept) {g : C.Ghost} {j : Job}
    {m m' : Machine} {r : Except Error j.Answer} (hg : C.pre g j m) (h : j.Answers m r m') :
    C.post g j m r m' :=
  (hC g j m hg).ends hC ((Job.answers_iff_steps j m r m').mp h)

/-- What a computation ends in, where jobs nest no deeper than some depth. -/
theorem Eval.run_of_meets {C : Contract} (hC : C.Kept) {x : Eval α} {m m' : Machine}
    {Q : Except Error α → Machine → Prop} (h : (x m).Meets C Q) {depth : Nat}
    {r : Except Error α} (hr : x.run depth m = some (r, m')) : Q r m' :=
  h.ends hC (Progress.steps_of_complete _ hr)

end Brace
