import Brace.Proofs.Safety.Program

/-!
# Safety — what runs of accepted programs pass through

A machine that has run nothing has the predefined names alone, which is what checking starts with.
So a run of an accepted program keeps the contract from its start on, and wherever it waits for a
job, that job may be asked for there.

* `Program.meets_run`: a run of an accepted program keeps the contract.
* `Progress.Meets.asked`: what is known where a run waits for a job.
-/

namespace Brace

variable {α : Type} {P : Plan} {s : Site} {Γ : Scene}

/-! ### The start -/

/-- A machine that has run nothing has the predefined names alone. -/
def World.start : World where
  means i x := if i = 0 then
    (predefined? x).map (Sum.elim (Symbol.const ·.ty) Symbol.builtin) else none
  shut _ := False

/-- A machine that has run nothing, with its world. -/
def Site.start (settings : Settings) (stdin : String) : Site := ⟨.start, .start settings stdin⟩

namespace Site

variable (settings : Settings) (stdin : String)

/-- At first, only predefined names are bound. -/
theorem binding?_start (i : FrameId) (x : String) :
    (start settings stdin).machine.scopes.binding? i x = if i = 0 then
      (predefined? x).map (some ∘ Sum.elim Value.ofLiteral Value.builtin) else none := by
  refine (Forest.binding?_withFrozenRoot _ i x).trans ?_
  rw [get?_predefined, Option.map_map]

/-- The site at which every run starts is as it should be. -/
theorem start_ok : (start settings stdin).Ok P where
  names i x := by
    rw [binding?_start, start, World.start]
    dsimp only
    split <;> simp
  root x := by simp [start, World.start]
  top x known h := by cases h
  lives i x known h := by
    rw [start, World.start] at h
    dsimp only at h
    split at h
    · rename_i hi
      obtain ⟨c, -, rfl⟩ := Option.map_eq_some_iff.mp h
      cases c <;> exact hi
    · cases h
  size := Nat.le_refl 2
  base := rfl
  order i j hj := by
    match i with
    | 0 => cases hj
    | 1 => rw [List.mem_singleton.mp hj]; exact Nat.zero_lt_one
    | i + 2 => cases hj
  ice i := by
    match i with
    | 0 => rfl
    | 1 => rfl
    | i + 2 => rfl
  shut _ h := h.elim
  values i x v known hb hk := by
    rw [binding?_start] at hb
    rw [start, World.start] at hk
    dsimp only at hk
    split at hb
    · rename_i hi
      rw [if_pos hi] at hk
      obtain ⟨c, hc, e⟩ := Option.map_eq_some_iff.mp hb
      rw [hc] at hk
      cases e
      cases hk
      cases c with
      | inl l =>
          exact ⟨Value.ok_of_plain (by cases l <;> rfl), fun _ _ => Value.fits_ofLiteral _ l⟩
      | inr b => exact ⟨trivial, rfl⟩
    · cases hb
  items id v hv := by
    rw [Heap.cells_beyond _ (Nat.zero_le id)] at hv
    exact absurd hv (Array.not_mem_empty v)
  arrays _ _ h := absurd h (Nat.not_lt_zero _)
  fields id x v h := by cases h

/-- A program starts where checking starts. -/
theorem start_top : Top P Scene.start (start settings stdin) where
  ready := by
    have ok : (start settings stdin).Ok P := start_ok settings stdin
    refine ⟨ok, fun i hi => ?_, .base nofun fun x => ?_, fun _ h => ?_⟩
    · rcases List.mem_cons.mp hi with rfl | hi
      · exact Nat.lt_succ_self 1
      · rw [List.mem_singleton.mp hi]
        exact Nat.zero_lt_two
    · rw [ok.root]
      simp only [Scene.predefinedNames, get?_predefined]
      cases predefined? x <;> rfl
    · rw [Scene.means_start, get?_predefined] at h
      revert h
      decide +kernel
  names := ⟨Nat.lt_succ_self 1, Nat.one_ne_zero, id, fun _ => rfl⟩
  here := rfl

end Site

/-- What is known of an accepted program. -/
def Program.plan (p : Program) (checked : Checked) : Plan := ⟨checked.program, p.classes⟩

/-- A run of an accepted program keeps the contract from its start to its end, and everything that
it has stored at the end is fit for its place. -/
theorem Program.ends_run {p : Program} {checked : Checked} (h : p.check = .ok checked)
    (settings : Settings) (stdin : String) :
    (checked.program.run (.start settings stdin)).Meets (p.plan checked).sound fun r m =>
      ∃ W, Site.Ok (p.plan checked) ⟨W, m⟩ ∧
        (p.plan checked).Ends (fun v s => v.Ok (p.plan checked) s) r ⟨W, m⟩ := by
  have given := Program.gives_run (P := p.plan checked) (Site.start_top settings stdin)
    (sound_of_check h)
  exact Progress.Meets.mono (fun r m ⟨W, hr, he⟩ => ⟨W, hr.ok, he⟩) given.of_having

/-- It does not fail over names, unless some are reserved. -/
theorem Program.meets_run {p : Program} {checked : Checked} (h : p.check = .ok checked)
    (settings : Settings) (stdin : String) :
    (checked.program.run (.start settings stdin)).Meets (p.plan checked).sound fun r m =>
      ∃ W, Site.Ok (p.plan checked) ⟨W, m⟩ ∧ match r with
        | .ok _    => True
        | .error e => checked.program.Unreserved → e.cause.isOfNames = false := by
  refine Progress.Meets.mono ?_ (ends_run h settings stdin)
  rintro r m ⟨W, ok, hr⟩
  cases r with
  | ok v => exact ⟨W, ok, trivial⟩
  | error e => exact ⟨W, ok, hr.names⟩

/-! ### On the way -/

/-- Where a job may be asked for, the site is as it should be. -/
theorem Plan.Asks.ok {j : Job} (h : P.Asks Γ j s) : s.Ok P := by
  cases j with
  | expr e => exact h.1.ok
  | stmt t => exact h.1.ok
  | loop cond update body => exact h.1.ok
  | apply callee args p => exact Plan.Calls.ok h

namespace Progress.Meets

variable {Q : Except Error α → Machine → Prop}

/-- Where a computation waits for a job, the job may be asked for, and it is answered as the
contract says. -/
theorem asked {j : Job} {m : Machine} {resume : Except Error j.Answer → Machine → Progress α}
    (h : (Progress.waiting j m resume).Meets P.sound Q) :
    ∃ W Γ, P.Asks Γ j ⟨W, m⟩ ∧ ∀ r m', j.Answers m r m' →
      (resume r m').Meets P.sound Q ∧
        ∃ W', Site.Reaches P none ⟨W, m⟩ ⟨W', m'⟩ ∧ P.Ends (P.Answers Γ j) r ⟨W', m'⟩ := by
  obtain ⟨⟨W, Γ⟩, hj, hr⟩ := h
  refine ⟨W, Γ, hj, fun r m' ha => ?_⟩
  have post := (sound_kept P).answers hj ha
  exact ⟨hr r m' post, post⟩

/-- Wherever a computation has got to, the site is as it should be, if it is so at the end. -/
theorem site {p : Progress α} (h : p.Meets P.sound Q) (hQ : ∀ r m, Q r m → ∃ W, Site.Ok P ⟨W, m⟩)
    {m : Machine} (e : p.machine? = some m) : ∃ W, Site.Ok P ⟨W, m⟩ := by
  cases p with
  | finished r m' => cases e; exact hQ r m h
  | waiting j m' resume =>
      cases e
      obtain ⟨W, Γ, hj, -⟩ := h.asked
      exact ⟨W, hj.ok⟩
  | endless => cases e

end Progress.Meets

end Brace
