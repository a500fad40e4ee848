import Brace.Proofs.Scope.Growth
import Brace.Proofs.Typing.Scene

/-!
# Typing — checking that reports nothing

What checking reports stays reported, so where nothing was reported in the end, nothing was
reported on the way. `Leads` is what is said of a piece of checking for that: wherever it starts,
the checker that it leaves is `Later`; and if it starts in one scene and reports nothing, it ends in
another, with a result of which something is known.

A fact that is known before (`F`) is there for what comes after, and so is what each step adds
(`Leads.bind`). A step that reports leads anywhere (`Leads.report`).
-/

namespace Brace

variable {α β : Type}

/-- These frames of a checker have the names of these levels. -/
inductive Forest.Gathers (s : Forest Symbol) : List FrameId → List Level → Prop where
  | nil : Gathers s [] []
  | one {k : FrameId} {F : Names} {ks : List FrameId} {Ls : List Level}
      (h : ∀ x, s.binding? k x = F x) (hs : Gathers s ks Ls) : Gathers s (k :: ks) (⟨F, false⟩ :: Ls)
  | two {k : FrameId} {F G : Names} {ks : List FrameId} {Ls : List Level}
      (h : ∀ x, s.binding? k x = (F x).or (G x)) (hs : Gathers s ks Ls) :
      Gathers s (k :: ks) (⟨F, true⟩ :: ⟨G, false⟩ :: Ls)

namespace Forest.Gathers

variable {s s' : Forest Symbol} {ks : List FrameId} {Ls : List Level}

/-- A name is looked up in the frames as in the levels. -/
theorem nearestIn (h : s.Gathers ks Ls) (x : String) :
    (s.nearestIn x ks).map (·.2) = (Ls.map (·.names)).findSome? (· x) := by
  induction h with
  | nil => rfl
  | @one k F ks Ls h _ ih =>
      simp only [Forest.nearestIn, h x, List.map_cons, List.findSome?_cons, ← ih]
      cases F x <;> rfl
  | @two k F G ks Ls h _ ih =>
      simp only [Forest.nearestIn, h x, List.map_cons, List.findSome?_cons, ← ih]
      cases F x with
      | some b => rfl
      | none => cases G x <;> rfl

/-- The frames have the names of the levels while their bindings are the same. -/
theorem congr (h : s.Gathers ks Ls)
    (same : ∀ k ∈ ks, ∀ x, s'.binding? k x = s.binding? k x) : s'.Gathers ks Ls := by
  induction h with
  | nil => exact .nil
  | one h _ ih =>
      obtain ⟨hk, hks⟩ := List.forall_mem_cons.mp same
      exact .one (fun x => (hk x).trans (h x)) (ih hks)
  | two h _ ih =>
      obtain ⟨hk, hks⟩ := List.forall_mem_cons.mp same
      exact .two (fun x => (hk x).trans (h x)) (ih hks)

end Forest.Gathers

namespace Checker

/-- The second checker is where the first was, and has seen more. What it has learnt of names is in
the frame of that place, or in frames that are new. -/
structure Later (c c' : Checker) : Prop where
  errors   : c.errors.toList <+: c'.errors.toList
  warnings : c.warnings.toList <+: c'.warnings.toList
  here     : c'.here = c.here
  inLoop   : c'.inLoop = c.inLoop
  function : c'.function = c.function
  scopes   : c.scopes.Grown c'.scopes
  others   : ∀ i, i < c.scopes.next → i ≠ c.here.frame →
    ∀ x, c'.scopes.binding? i x = c.scopes.binding? i x

namespace Later

theorem refl (c : Checker) : c.Later c :=
  ⟨List.prefix_rfl, List.prefix_rfl, rfl, rfl, rfl, .refl _, fun _ _ _ _ => rfl⟩

theorem trans {c₁ c₂ c₃ : Checker} (h : c₁.Later c₂) (h' : c₂.Later c₃) : c₁.Later c₃ where
  errors := h.errors.trans h'.errors
  warnings := h.warnings.trans h'.warnings
  here := h'.here.trans h.here
  inLoop := h'.inLoop.trans h.inLoop
  function := h'.function.trans h.function
  scopes := h.scopes.trans h'.scopes
  others i hi ne x := by
    have hi' : i < c₂.scopes.next := Nat.lt_of_lt_of_le hi h.scopes.next
    rw [h'.others i hi' (by rw [h.here]; exact ne) x, h.others i hi ne x]

/-- Of two steps that report nothing together, neither reports anything. -/
theorem clean {c₁ c₂ c₃ : Checker} (h : c₁.Later c₂) (h' : c₂.Later c₃)
    (e : c₃.errors = c₁.errors) : c₂.errors = c₁.errors ∧ c₃.errors = c₂.errors := by
  have le := h'.errors
  rw [e] at le
  have e₂ : c₂.errors = c₁.errors := by
    have := List.IsPrefix.eq_of_length_le le (h.errors.length_le)
    exact Array.toList_inj.mp this
  exact ⟨e₂, e.trans e₂.symm⟩

end Later

/-- The checker is at a place where this is known. -/
structure At (c : Checker) (Γ : Scene) : Prop where
  lt       : c.here.frame < c.scopes.next
  below    : ∀ i ∈ c.scopes.outer c.here.frame, i < c.here.frame
  levels   : c.scopes.Gathers (c.scopes.chain c.here) Γ.levels
  classes  : Γ.classes = c.classes
  inLoop   : c.inLoop = Γ.inLoop
  function : c.function = Γ.function

namespace At

variable {c : Checker} {Γ : Scene}

theorem rooted (h : c.At Γ) : ∀ i ∈ c.scopes.chain c.here, i < c.scopes.next :=
  List.forall_mem_cons.mpr ⟨h.lt, fun i hi => Nat.lt_trans (h.below i hi) h.lt⟩

/-- A name means at the place what is found in the frames. -/
theorem means (h : c.At Γ) (x : String) :
    (c.scopes.nearest? c.here x).bind (·.2) = Γ.means x := by
  rw [Scene.means, Scene.frames, ← h.levels.nearestIn x, ← Forest.nearest?]
  cases c.scopes.nearest? c.here x <;> rfl

/-- A name of the scene's innermost frame is one of the checker's. -/
theorem own (h : c.At Γ) {x : String} (hx : Γ.own x = true) :
    (c.scopes.binding? c.here.frame x).isSome = true := by
  have hf := h.levels
  rw [Forest.chain, Scene.levels] at hf
  rw [Scene.own] at hx
  generalize Γ.top = top, Γ.outer = outer at hf hx
  cases hf with
  | one h _ => rw [h x, hx]
  | two h _ =>
      dsimp only at hx
      rw [h x, Option.isSome_or, hx, Bool.true_or]

end At

end Checker

namespace Check

open Checker

/-- Checking starts in `Γ`, where `F` is known, and ends in `Γ'` with a result in `Q`, unless it
reports something. -/
structure Leads (F : Prop) (Γ : Scene) (x : Check α) (Γ' : Scene) (Q : α → Prop) : Prop where
  later : ∀ c : Checker, c.Later (x c).2
  clean : F → ∀ c : Checker, c.At Γ → (x c).2.errors = c.errors → (x c).2.At Γ' ∧ Q (x c).1

namespace Leads

variable {F : Prop} {Γ Γ' Γ₁ : Scene} {Q : α → Prop}

theorem pure {a : α} (h : F → Q a) : Leads F Γ (Pure.pure a) Γ Q :=
  ⟨fun c => .refl c, fun hF _ hc _ => ⟨hc, h hF⟩⟩

/-- Of one thing after another that reports nothing, the first reports nothing and leads to where the
second starts, and the second reports nothing. -/
theorem split {x : Check α} {f : α → Check β} (hx : Leads F Γ x Γ₁ Q)
    (hf : ∀ a, ∀ c : Checker, c.Later (f a c).2) (hF : F) {c : Checker} (hc : c.At Γ)
    (e : ((x >>= f) c).2.errors = c.errors) :
    (x c).2.errors = c.errors ∧ ((x c).2.At Γ₁ ∧ Q (x c).1) ∧
      (f (x c).1 (x c).2).2.errors = (x c).2.errors := by
  obtain ⟨e₁, e₂⟩ := (hx.later c).clean (hf (x c).1 (x c).2) e
  exact ⟨e₁, hx.clean hF c hc e₁, e₂⟩

/-- One after another: what was found is there for what comes after. -/
theorem bind {R : β → Prop} {x : Check α} {f : α → Check β} (hx : Leads F Γ x Γ₁ Q)
    (hf : ∀ a, Leads (F ∧ Q a) Γ₁ (f a) Γ' R) : Leads F Γ (x >>= f) Γ' R where
  later c := (hx.later c).trans ((hf (x c).1).later (x c).2)
  clean hF c hc e := by
    obtain ⟨-, ⟨hc₁, hq⟩, e₂⟩ := hx.split (fun a => (hf a).later) hF hc e
    exact (hf (x c).1).clean ⟨hF, hq⟩ (x c).2 hc₁ e₂

theorem imp {R : α → Prop} {x : Check α} (hx : Leads F Γ x Γ' Q) (h : ∀ a, F → Q a → R a) :
    Leads F Γ x Γ' R :=
  ⟨hx.later, fun hF c hc e => ⟨(hx.clean hF c hc e).1, h _ hF (hx.clean hF c hc e).2⟩⟩

theorem given {G : Prop} {x : Check α} (hx : Leads F Γ x Γ' Q) (h : G → F) : Leads G Γ x Γ' Q :=
  ⟨hx.later, fun hG => hx.clean (h hG)⟩

theorem forM {γ : Type} {f : γ → Check Unit} {R : γ → Prop} :
    ∀ cs : List γ, (∀ c ∈ cs, Leads F Γ (f c) Γ fun _ => R c) →
      Leads F Γ (cs.forM f) Γ fun _ => ∀ c ∈ cs, R c
  | [], _ => .pure fun _ _ h => nomatch h
  | c :: cs, h => by
      have hs := forM cs fun c' hc' => h c' (.tail _ hc')
      refine .bind (h c (.head _)) fun _ => (hs.given And.left).imp fun _ ⟨_, hr⟩ hrs => ?_
      exact List.forall_mem_cons.mpr ⟨hr, hrs⟩

/-- The scene may be given in another way. -/
theorem arrive {x : Check α} {Γ₂ : Scene} (hx : Leads F Γ x Γ₁ Q) (e : F → Γ₁ = Γ₂) :
    Leads F Γ x Γ₂ Q :=
  ⟨hx.later, fun hF c hc he => e hF ▸ hx.clean hF c hc he⟩

/-- Where what is known cannot be, checking leads anywhere. -/
theorem of_not {x : Check α} (hF : ¬ F) (hl : ∀ c : Checker, c.Later (x c).2) :
    Leads F Γ x Γ' Q := ⟨hl, fun h => absurd h hF⟩

/-- What is known of a checker that is asked. -/
theorem get {f : Checker → Check α} (h : ∀ c, Leads (F ∧ c.At Γ) Γ (f c) Γ' Q) :
    Leads F Γ (MonadState.get >>= f) Γ' Q :=
  ⟨fun c => (h c).later c, fun hF c hc => (h c).clean ⟨hF, hc⟩ c hc⟩

/-- What a checker that is asked goes on with, from where it is. -/
theorem see {f : Checker → Check α} (hl : ∀ c : Checker, c.Later (f c c).2)
    (hc : F → ∀ c : Checker, c.At Γ → (f c c).2.errors = c.errors →
      (f c c).2.At Γ' ∧ Q (f c c).1) : Leads F Γ (MonadState.get >>= f) Γ' Q := ⟨hl, hc⟩

/-- A step that reports leads anywhere. -/
theorem report (cause : Cause) (p : Position) {Q : Unit → Prop} :
    Leads F Γ (Check.report cause p) Γ' Q where
  later c := by
    have e : (Check.report cause p c).2.errors = c.errors.push ⟨cause, p⟩ := rfl
    refine ⟨?_, List.prefix_rfl, rfl, rfl, rfl, .refl _, fun _ _ _ _ => rfl⟩
    rw [e, Array.toList_push]
    exact List.prefix_append _ _
  clean _ c _ e := by
    have e' : c.errors.push ⟨cause, p⟩ = c.errors := e
    have := congrArg Array.size e'
    simp at this

/-- After a report anything may be done: it is never the end of checking that reports nothing. -/
theorem report_bind (cause : Cause) (p : Position) {f : Unit → Check α}
    (h : ∀ a, Leads False Γ (f a) Γ' Q) : Leads F Γ (Check.report cause p >>= f) Γ' Q :=
  bind (Q := fun _ => False) (report cause p) fun a => (h a).given And.right

/-- What is done after a report that a test calls for, where the test does not. -/
theorem reportIf {b : Prop} [Decidable b] (cause : Cause) (p : Position) {k : Unit → Check α}
    (h : Leads (F ∧ ¬ b) Γ (k ()) Γ' Q) :
    Leads F Γ (if b then Check.report cause p >>= k else k ()) Γ' Q := by
  split
  · exact report_bind cause p fun _ => ⟨h.later, False.elim⟩
  · rename_i hb
    exact h.given fun hF => ⟨hF, hb⟩

theorem warn (cause : Cause) (p : Position) :
    Leads F Γ (Check.warn cause p) Γ (fun _ => True) where
  later c := by
    have e : (Check.warn cause p c).2.warnings = c.warnings.push ⟨cause, p⟩ := rfl
    refine ⟨List.prefix_rfl, ?_, rfl, rfl, rfl, .refl _, fun _ _ _ _ => rfl⟩
    rw [e, Array.toList_push]
    exact List.prefix_append _ _
  clean _ c hc _ := ⟨⟨hc.lt, hc.below, hc.levels, hc.classes, hc.inLoop, hc.function⟩, trivial⟩

end Leads

/-! ### Names -/

/-- A name that can be looked up means what is found. -/
theorem means_of_lookup {c : Checker} {Γ : Scene} (hc : c.At Γ) {x : String} {s : Symbol}
    (h : c.scopes.lookup c.here x = .ok s) : Γ.means x = some s := by
  rw [← hc.means x]
  simp only [Forest.lookup] at h
  split at h
  · cases h
  · cases h
  · rename_i e
    cases h
    rw [e]
    rfl

variable {F : Prop} {Γ : Scene}

/-- A name that is found has a meaning. -/
theorem lookup_leads (x : String) (p : Position) :
    Leads F Γ (lookup x p) Γ fun r => ∃ s, r = some s ∧ Γ.means x = some s := by
  refine .get fun c => ?_
  split
  · rename_i s e
    exact .pure fun ⟨_, hc⟩ => ⟨s, rfl, means_of_lookup hc e⟩
  · exact .report_bind _ _ fun _ => .pure False.elim

theorem tyOfName_leads (x : String) (p : Position) :
    Leads F Γ (tyOfName x p) Γ fun t => ∃ s, Γ.means x = some s ∧ t = s.ty := by
  refine .bind (lookup_leads x p) fun r => ?_
  split
  · rename_i s
    exact .pure fun ⟨_, s', e, hs⟩ => by cases e; exact ⟨s, hs, rfl⟩
  · exact .pure fun ⟨_, s', e, hs⟩ => by cases e

theorem elementTy_leads (x : String) (p : Position) :
    Leads F Γ (elementTy x p) Γ fun t => ∃ s, Γ.means x = some s ∧ s.Elements t := by
  refine .bind (lookup_leads x p) fun r => ?_
  split
  · exact .pure fun ⟨_, s', e, hs⟩ => by cases e
  · rename_i s
    split
    · rename_i t e
      exact .pure fun ⟨_, s', e', hs⟩ => by cases e'; exact ⟨s, hs, .array e⟩
    · rename_i e
      exact .pure fun ⟨_, s', e', hs⟩ => by cases e'; exact ⟨s, hs, .unknown e⟩
    · exact .report_bind _ _ fun _ => .pure False.elim

/-- A name that may be assigned to is that of a variable. -/
theorem assignable_leads (x : String) (p : Position) :
    Leads F Γ (assignable x p) Γ fun r => ∃ t, r = some t ∧ Γ.means x = some (.var t) := by
  refine .bind (lookup_leads x p) fun r => ?_
  split
  · exact .pure fun ⟨_, s', e, hs⟩ => by cases e
  · rename_i t
    exact .pure fun ⟨_, s', e, hs⟩ => by cases e; exact ⟨t, rfl, hs⟩
  · exact .report_bind _ _ fun _ => .pure False.elim
  · exact .report_bind _ _ fun _ => .pure False.elim

/-- What is found of the class of an object of type `t`. -/
def ClassFound (Γ : Scene) (t : Ty) (c : Option ClassInfo) : Prop :=
  (t = .any ∧ c = none) ∨ ∃ x, t = .object x ∧ c = Γ.classes.get? x

/-- Whose methods are called is told by the type. -/
theorem classOf_leads (t : Ty) (p : Position) :
    Leads F Γ (classOf t p) Γ (ClassFound Γ t) := by
  simp only [classOf]
  split
  · rename_i x
    exact .get fun c => .pure fun ⟨_, hc⟩ => .inr ⟨x, rfl, by rw [hc.classes]⟩
  · exact .pure fun _ => .inl ⟨rfl, rfl⟩
  · exact .report_bind _ _ fun _ => .pure False.elim

/-- The method of a superclass is found in the class that `super` means. -/
theorem superMethod_leads (x : String) (p : Position) :
    Leads F Γ (superMethod x p) Γ fun r => ∃ s, Γ.means "super" = some s ∧
      (∀ info, s = .cls info → (info.method? x).isSome) ∧
      ∀ sig, r = some sig → ∃ info, s = .cls info ∧ info.method? x = some sig := by
  refine .bind (lookup_leads "super" p) fun r => ?_
  split
  · rename_i info
    split
    · rename_i sig e
      refine .pure fun ⟨_, s, es, hs⟩ => ⟨s, hs, fun info' e' => ?_, fun sig' e' => ?_⟩
      · cases es
        cases e'
        rw [e]
        rfl
      · cases es
        cases e'
        exact ⟨info, rfl, e⟩
    · exact .report_bind _ _ fun _ => .pure False.elim
  · rename_i notClass
    refine .pure fun ⟨_, s, es, hs⟩ => ⟨s, hs, fun info e => ?_, fun sig e => by cases e⟩
    exact absurd (es.trans (congrArg some e)) (notClass info)

/-! ### Types -/

/-- A written type that is not reported names only classes that are known. -/
theorem resolveTy_leads (p : Position) :
    ∀ t : Ty, Leads F Γ (resolveTy p t) Γ fun _ => t.Known Γ.classes
  | .object x => by
      refine .get fun c => ?_
      split
      · rename_i h
        obtain ⟨info, hi⟩ := Option.isSome_iff_exists.mp h
        exact .pure fun ⟨_, hc⟩ => ⟨info, by rw [hc.classes, hi]⟩
      · exact .report_bind _ _ fun _ => .pure False.elim
  | .array t => resolveTy_leads p t
  | .void | .bool | .int | .float | .str | .nil | .function | .any => .pure fun _ => trivial

/-- A type that is not reported is accepted. -/
theorem expectAccepted_leads (expected received : Ty) (p : Position) :
    Leads F Γ (expectAccepted expected received p) Γ fun _ => Γ.Accepts expected received := by
  refine .get fun c => ?_
  split
  · exact .report _ _
  · rename_i h
    exact .pure fun ⟨_, hc⟩ => Scene.accepts_of hc.classes (by simpa using h)

theorem expectTy_leads (expected received : Ty) (p : Position) :
    Leads F Γ (expectTy expected received p) Γ fun _ => received = expected ∨ received = .any := by
  simp only [expectTy]
  split
  · exact .report _ _
  · rename_i h
    refine .pure fun _ => ?_
    cases received <;> simp_all [Ty.isAny]

theorem expectIndex_leads (t : Ty) (p : Position) :
    Leads F Γ (expectIndex t p) Γ fun _ => t = .int ∨ t = .any := by
  simp only [expectIndex]
  split
  · exact .report _ _
  · refine .pure fun _ => ?_
    cases t <;> simp_all [Ty.isAny]

end Check

end Brace
