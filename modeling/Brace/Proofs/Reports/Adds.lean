import Brace.Proofs.Safety.Changes
import Brace.Proofs.Typing.Expr
import Brace.Proofs.Typing.Taken

/-!
# Reports — two runs of checking side by side

Two runs of checking go side by side where the programs differ by a mistake: the first is of the
program without it and reports nothing, the second is of the program with it. `Adds` is what is said
of two pieces of checking for that. They start alike, in scopes that do not have the name `x`, the
name that is a mistake; where the first reports nothing, the second reports just `rs`, and both end
alike again, in scopes that still do not have it. Their results are in `Q`.

A mistake has the type `any`, and from there on types of the first run are `any` in the second
(`Ty.Fades`). So each rule that consumes a type has to go through with `any` in its place, and to give
what it gave or `any`.
-/

namespace Brace

variable {α β γ : Type} {x : String} {still : Prop}

namespace Checker

/-- The checkers know the same and are at the same place; what they have reported may differ. -/
def Alike (c c' : Checker) : Prop := ∃ errors warnings, c' = { c with errors, warnings }

theorem Alike.refl (c : Checker) : c.Alike c := ⟨c.errors, c.warnings, rfl⟩

theorem Alike.trans {c₁ c₂ c₃ : Checker} : c₁.Alike c₂ → c₂.Alike c₃ → c₁.Alike c₃ := by
  rintro ⟨_, _, rfl⟩ ⟨errors, warnings, rfl⟩
  exact ⟨errors, warnings, rfl⟩

theorem Alike.symm {c c' : Checker} : c.Alike c' → c'.Alike c := by
  rintro ⟨_, _, rfl⟩
  exact ⟨c.errors, c.warnings, rfl⟩

/-- No frame has the name. -/
def Lacks (c : Checker) (x : String) : Prop := ∀ i, c.scopes.binding? i x = none

/-- A checker alike lacks the name too. -/
theorem Lacks.alike {c c' : Checker} (h : c.Lacks x) : c.Alike c' → c'.Lacks x := by
  rintro ⟨_, _, rfl⟩
  exact h

/-- A name that no frame has is undefined. -/
theorem Lacks.lookup {c : Checker} (h : c.Lacks x) :
    c.scopes.lookup c.here x = .error (.undefinedSymbol x) := by
  have none : ∀ is : List FrameId, c.scopes.nearestIn x is = none := by
    intro is
    induction is with
    | nil => rfl
    | cons i is ih => rw [Forest.nearestIn, h i, ih]
  rw [Forest.lookup, Forest.nearest?, none]

end Checker

/-! ### One list against another -/

/-- The members of two lists are set against each other, one by one, with what is reported of each. -/
inductive Each (S : α → List Error → α → Prop) : List α → List Error → List α → Prop where
  | nil : Each S [] [] []
  | cons {a b : α} {as bs : List α} {rs rs' : List Error} (h : S a rs b) (hs : Each S as rs' bs) :
      Each S (a :: as) (rs ++ rs') (b :: bs)

namespace Each

variable {S : α → List Error → α → Prop} {as bs : List α} {a b : α} {rs : List Error}

theorem refl : ∀ {as : List α}, (∀ a ∈ as, S a [] a) → Each S as [] as
  | [], _      => .nil
  | _ :: _, h =>
      have ⟨ha, has⟩ := List.forall_mem_cons.mp h
      .cons ha (refl has)

/-- Of one member, what is said of it is said of the list. -/
theorem single (h : S a rs b) : Each S [a] rs [b] := by
  have e := Each.cons h .nil
  rwa [List.append_nil] at e

/-- Where one member is changed, what is reported is what is reported of it. -/
theorem one (h : S a rs b) : ∀ {as bs : List α}, (∀ c ∈ as ++ bs, S c [] c) →
    Each S (as ++ a :: bs) rs (as ++ b :: bs)
  | [], bs, hs => by
      have e := Each.cons h (refl hs)
      rw [List.append_nil] at e
      exact e
  | c :: as, bs, hs =>
      have ⟨hc, hs⟩ := List.forall_mem_cons.mp hs
      .cons hc (one h hs)

theorem of_one (h : Each S [a] rs bs) : ∃ b, bs = [b] ∧ S a rs b := by
  cases h with
  | cons h hs =>
      cases hs
      rw [List.append_nil]
      exact ⟨_, rfl, h⟩

theorem of_two {a' : α} (h : Each S [a, a'] rs bs) :
    ∃ b b' rs₁ rs₂, bs = [b, b'] ∧ rs = rs₁ ++ rs₂ ∧ S a rs₁ b ∧ S a' rs₂ b' := by
  cases h with
  | cons h hs =>
      obtain ⟨b', rfl, h'⟩ := hs.of_one
      exact ⟨_, b', _, _, rfl, rfl, h, h'⟩

/-- The last members are set against each other, and those before them. -/
theorem of_concat : ∀ {as bs : List α} {rs : List Error}, Each S (as ++ [a]) rs bs →
    ∃ bs' b rs₁ rs₂, bs = bs' ++ [b] ∧ rs = rs₁ ++ rs₂ ∧ Each S as rs₁ bs' ∧ S a rs₂ b
  | [], _, _, .cons h .nil => ⟨[], _, [], _, rfl, List.append_nil _, .nil, h⟩
  | _ :: as, _, _, .cons h hs => by
      obtain ⟨bs, b, rs₁, rs₂, rfl, rfl, has, hb⟩ := hs.of_concat
      exact ⟨_ :: bs, b, _, rs₂, rfl, (List.append_assoc ..).symm, .cons h has, hb⟩

end Each

namespace Check

open Checker

/-- What is known once the two pieces have run, from `c` and `c'`. -/
structure Matches (x : String) (still : Prop) (u v : Check α) (rs : List Error)
    (Q : α → α → Prop) (c c' : Checker) : Prop where
  alike  : (u c).2.Alike (v c').2
  lacks  : (u c).2.Lacks x
  still  : still → c.Alike (u c).2
  errors : (v c').2.errors.toList = c'.errors.toList ++ rs
  result : Q (u c).1 (v c').1

/-- Where the first piece reports nothing, the second reports `rs` and is else like it. If they are
`still`, they do nothing but report. -/
structure Adds (x : String) (still : Prop) (u v : Check α) (rs : List Error)
    (Q : α → α → Prop) : Prop where
  later : ∀ c : Checker, c.Later (u c).2
  adds  : ∀ c c' : Checker, c.Alike c' → c.Lacks x → (u c).2.errors = c.errors →
    Matches x still u v rs Q c c'

/-- The piece of checking does the same in both runs. -/
abbrev Agrees (x : String) (still : Prop) (u : Check α) : Prop := Adds x still u u [] Eq

namespace Adds

variable {u v w : Check α} {f g : α → Check β} {rs rs' : List Error} {Q S : α → α → Prop}
  {R : β → β → Prop}

/-! ### One thing after another -/

theorem pure {a b : α} (h : Q a b) : Adds x still (Pure.pure a) (Pure.pure b) [] Q :=
  ⟨fun c => .refl c, fun c _ hc hl _ => ⟨hc, hl, fun _ => .refl c, (List.append_nil _).symm, h⟩⟩

/-- One after another: the reports of both are made. -/
theorem bind (hu : Adds x still u v rs Q) (refl : ∀ a, Q a a)
    (hf : ∀ a b, Q a b → Adds x still (f a) (g b) rs' R) :
    Adds x still (u >>= f) (v >>= g) (rs ++ rs') R where
  later c := (hu.later c).trans ((hf _ _ (refl (u c).1)).later (u c).2)
  adds c c' hc hl e := by
    have later := (hf _ _ (refl (u c).1)).later (u c).2
    obtain ⟨e₁, e₂⟩ := (hu.later c).clean later e
    have m := hu.adds c c' hc hl e₁
    have n := (hf _ _ m.result).adds _ _ m.alike m.lacks e₂
    exact ⟨n.alike, n.lacks, fun s => (m.still s).trans (n.still s),
      by rw [← List.append_assoc, ← m.errors]; exact n.errors, n.result⟩

/-- What comes before is the same in both runs. -/
theorem after (hu : Adds x still u v [] Eq) (hf : ∀ a, Adds x still (f a) (g a) rs R) :
    Adds x still (u >>= f) (v >>= g) rs R :=
  bind hu (fun _ => rfl) fun a _ e => e ▸ hf a

/-- What comes before may give different results. -/
theorem next (hu : Adds x still u v [] Q) (refl : ∀ a, Q a a)
    (hf : ∀ a b, Q a b → Adds x still (f a) (g b) rs R) : Adds x still (u >>= f) (v >>= g) rs R :=
  bind hu refl hf

/-- Nothing is added by what comes afterwards. -/
theorem andThen (hu : Adds x still u v rs Q) (refl : ∀ a, Q a a)
    (hf : ∀ a b, Q a b → Adds x still (f a) (g b) [] R) :
    Adds x still (u >>= f) (v >>= g) rs R := by
  have h := bind hu refl hf
  rw [List.append_nil] at h
  exact h

/-- Less may be said of the results. -/
theorem imp {Q' : α → α → Prop} (hu : Adds x still u v rs Q) (h : ∀ a b, Q a b → Q' a b) :
    Adds x still u v rs Q' where
  later := hu.later
  adds c c' hc hl e :=
    have m := hu.adds c c' hc hl e
    ⟨m.alike, m.lacks, m.still, m.errors, h _ _ m.result⟩

/-- Where more than reports may change, what reports only may stand. -/
theorem moving (hu : Adds x True u v rs Q) : Adds x still u v rs Q where
  later := hu.later
  adds c c' hc hl e :=
    have m := hu.adds c c' hc hl e
    ⟨m.alike, m.lacks, fun _ => m.still trivial, m.errors, m.result⟩

/-- A look at the checker. -/
theorem see {f g : Checker → Check α} (h : ∀ c c', c.Alike c' → Adds x still (f c) (g c') rs Q) :
    Adds x still (MonadState.get >>= f) (MonadState.get >>= g) rs Q where
  later c := (h c c (.refl c)).later c
  adds c c' hc hl e := by
    have m := (h c c' hc).adds c c' hc hl e
    exact ⟨m.alike, m.lacks, m.still, m.errors, m.result⟩

/-- What only reports may be left out in the second run, if its result is no matter. -/
theorem dropped {b : α} (h : Adds x True u w rs' S) (hq : ∀ a, Q a b) :
    Adds x still u (Pure.pure b) [] Q where
  later := h.later
  adds c _ hc hl e :=
    have m := h.adds c c (.refl c) hl e
    have alike := m.still trivial
    ⟨alike.symm.trans hc, m.lacks, fun _ => alike, (List.append_nil _).symm, hq _⟩

/-! ### Reports -/

/-- After a report the errors are not those from before. -/
theorem not_clean (cause : Cause) (p : Position) (c : Checker) :
    (Check.report cause p c).2.errors ≠ c.errors := fun e => by
  have e' : c.errors.push ⟨cause, p⟩ = c.errors := e
  have := congrArg Array.size e'
  simp at this

theorem report_later (cause : Cause) (p : Position) (c : Checker) :
    c.Later (Check.report cause p c).2 :=
  (Leads.report cause p : Leads True .start _ .start fun _ => True).later c

/-- The first run reports nothing, so whatever follows its reports is no matter. -/
theorem report (cause : Cause) (p : Position) {v : Check Unit} {Q : Unit → Unit → Prop} :
    Adds x still (Check.report cause p) v rs Q :=
  ⟨report_later cause p, fun c _ _ _ e => absurd e (not_clean cause p c)⟩

/-- Where the first run reports, nothing is claimed. -/
theorem report_bind (cause : Cause) (p : Position) {f : Unit → Check α}
    (hl : ∀ c : Checker, c.Later (f () c).2) :
    Adds x still (Check.report cause p >>= f) v rs Q where
  later c := (report_later cause p c).trans (hl _)
  adds c _ _ _ e :=
    absurd ((report_later cause p c).clean (hl _) e).1 (not_clean cause p c)

/-- In place of what only reports, a report in the second run. -/
theorem instead {e : Error} {b : α} (h : Adds x True u w rs' S)
    (hv : ∀ c : Checker, c.Lacks x → v c = (b, { c with errors := c.errors.push e }))
    (hq : ∀ a, Q a b) : Adds x still u v [e] Q where
  later := h.later
  adds c c' hc hl e := by
    have m := h.adds c c (.refl c) hl e
    have alike := m.still trivial
    have reported := hv c' (hl.alike hc)
    refine ⟨?_, m.lacks, fun _ => alike, ?_, ?_⟩
    · rw [reported]
      exact alike.symm.trans (hc.trans ⟨_, _, rfl⟩)
    · rw [reported, Array.toList_push]
    · rw [reported]
      exact hq _

/-- A test that has to hold in the second run where it does in the first. -/
theorem test {b b' : Prop} [Decidable b] [Decidable b'] (h : ¬ b → ¬ b') (cause cause' : Cause)
    (p p' : Position) : Adds x still (if b then Check.report cause p else Pure.pure ())
      (if b' then Check.report cause' p' else Pure.pure ()) [] Eq := by
  by_cases hb : b
  · rw [if_pos hb]
    exact .report cause p
  · rw [if_neg hb, if_neg (h hb)]
    exact .pure rfl

/-- The same with more to be done. -/
theorem reportIf {b b' : Prop} [Decidable b] [Decidable b'] (h : ¬ b → ¬ b') (cause cause' : Cause)
    (p p' : Position) {k k' : Unit → Check α} (hk : Adds x still (k ()) (k' ()) rs Q) :
    Adds x still (if b then Check.report cause p >>= k else k ())
      (if b' then Check.report cause' p' >>= k' else k' ()) rs Q := by
  by_cases hb : b
  · rw [if_pos hb]
    exact .report_bind cause p hk.later
  · rw [if_neg hb, if_neg (h hb)]
    exact hk

/-- Warnings are no matter. -/
theorem noted {f g : Checker → Array Error} (h : ∀ c, c.warnings.toList <+: (f c).toList) :
    Adds x still (modify fun c => { c with warnings := f c })
      (modify fun c => { c with warnings := g c }) [] Eq where
  later c := ⟨List.prefix_rfl, h c, rfl, rfl, rfl, .refl _, fun _ _ _ _ => rfl⟩
  adds c c' hc hl _ := by
    have left : c.Alike { c with warnings := f c } := ⟨c.errors, f c, rfl⟩
    have right : c'.Alike { c' with warnings := g c' } := ⟨c'.errors, g c', rfl⟩
    exact ⟨left.symm.trans (hc.trans right), hl, fun _ => left, (List.append_nil _).symm, rfl⟩

/-- Whether one run warns is no matter for what is done next. -/
theorem warnIf {b b' : Prop} [Decidable b] [Decidable b'] (cause cause' : Cause) (p p' : Position)
    {k k' : Unit → Check α} (hk : Adds x still (k ()) (k' ()) rs Q) :
    Adds x still (if b then Check.warn cause p >>= k else k ())
      (if b' then Check.warn cause' p' >>= k' else k' ()) rs Q := by
  have pushed (cause : Cause) (p : Position) (c : Checker) :
      c.warnings.toList <+: (c.warnings.push ⟨cause, p⟩).toList := by
    rw [Array.toList_push]
    exact List.prefix_append _ _
  have kept (c : Checker) : c.warnings.toList <+: c.warnings.toList := List.prefix_rfl
  split <;> split
  · exact .after (noted (pushed cause p)) fun _ => hk
  · exact .after (noted (g := (·.warnings)) (pushed cause p)) fun _ => hk
  · exact .after (noted (f := (·.warnings)) kept) fun _ => hk
  · exact hk

/-! ### Lists -/

theorem forM_zip {δ : Type} {S : γ → γ → Prop} {f g : δ × γ → Check Unit} {as bs : List γ}
    (h : List.Forall₂ S as bs)
    (hf : ∀ d a b, S a b → Adds x still (f (d, a)) (g (d, b)) [] Eq) :
    ∀ ds : List δ, Adds x still ((ds.zip as).forM f) ((ds.zip bs).forM g) [] Eq := by
  induction h with
  | nil => exact fun ds => by simpa using Adds.pure rfl
  | cons h _ ih =>
      rintro (_ | ⟨d, ds⟩)
      · exact .pure rfl
      · exact .after (hf d _ _ h) fun _ => ih ds

/-- Over a list, the runs go side by side where they do for each member. -/
theorem forM_agrees {f : γ → Check Unit} :
    ∀ {as : List γ}, (∀ a ∈ as, Agrees x still (f a)) → Agrees x still (as.forM f)
  | [], _      => .pure rfl
  | _ :: _, h =>
      have ⟨ha, has⟩ := List.forall_mem_cons.mp h
      .after ha fun _ => forM_agrees has

theorem foldlM_agrees {f : β → γ → Check β} (h : ∀ b a, Agrees x still (f b a)) :
    ∀ (as : List γ) (b : β), Agrees x still (as.foldlM f b)
  | [], _      => .pure rfl
  | a :: as, b => .after (h b a) fun b => foldlM_agrees h as b

/-- Over a list, what is reported of the members is reported in their order. -/
theorem mapM {S : γ → List Error → γ → Prop} {f : γ → Check β}
    (hf : ∀ a rs b, S a rs b → Adds x still (f a) (f b) rs fun _ _ => True) :
    ∀ {as bs : List γ} {rs : List Error}, Each S as rs bs →
      Adds x still (as.mapM f) (bs.mapM f) rs fun _ _ => True
  | _, _, _, .nil => .pure trivial
  | _, _, _, .cons h hs => by
      rw [List.mapM_cons, List.mapM_cons]
      exact .bind (hf _ _ _ h) (fun _ => trivial) fun _ _ _ =>
        .andThen (mapM hf hs) (fun _ => trivial) fun _ _ _ => .pure trivial

end Adds

/-- Where looking up a name reports nothing, the name means something. -/
theorem lookup_clean (x : String) (p : Position) (c : Checker)
    (clean : (lookup x p c).2.errors = c.errors) : ∃ s, (lookup x p c).1 = some s := by
  cases h : c.scopes.lookup c.here x with
  | ok s =>
      have run : lookup x p c = (some s, c) := by
        show (lookup x p).run c = _
        simp only [lookup, StateT.run_bind, StateT.run_get, pure_bind, h]
        rfl
      exact ⟨s, by rw [run]⟩
  | error e =>
      have run : lookup x p c = (none, (Check.report e p c).2) := by
        show (lookup x p).run c = _
        simp only [lookup, StateT.run_bind, StateT.run_get, pure_bind, h]
        rfl
      rw [run] at clean
      exact absurd clean (Adds.not_clean e p c)

end Check

end Brace
