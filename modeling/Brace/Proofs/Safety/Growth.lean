import Brace.Proofs.Safety.Site

/-!
# Safety — what stays as a run goes on

A run only adds to a site: frames, arrays and objects come, and frames may get names, but those
that are shut do not (`Site.Grown`). What is fit for a run at one site is fit at every site that
grows out of it (`Value.Ok.grown`).

A job adds names to no frame that was there before; what runs in a frame of its own adds names to
that one alone (`Site.Later`). So what is known at a place of the program is known there again when
a job has been answered (`Ready.later`).
-/

namespace Brace

variable {P : Plan} {s s' : Site}

/-- Whatever was there is there still. -/
structure Site.Grown (s s' : Site) : Prop where
  scopes : s.machine.scopes.Grown s'.machine.scopes
  heap   : s.heap.Grown s'.heap
  gains  : ∀ i x known, s.world.means i x = some known → s'.world.means i x = some known
  shut   : ∀ i, i < s.next → (s'.world.shut i ↔ s.world.shut i)
  kept   : ∀ i, i < s.next → s.world.shut i → ∀ x, s'.world.means i x = s.world.means i x

namespace Site.Grown

theorem refl (s : Site) : s.Grown s :=
  ⟨.refl _, .refl _, fun _ _ _ h => h, fun _ _ => Iff.rfl, fun _ _ _ _ => rfl⟩

/-- There are as many frames as there were, or more. -/
theorem next (h : s.Grown s') : s.next ≤ s'.next := h.scopes.next

theorem trans {s₁ s₂ s₃ : Site} (h : s₁.Grown s₂) (h' : s₂.Grown s₃) : s₁.Grown s₃ where
  scopes := h.scopes.trans h'.scopes
  heap := h.heap.trans h'.heap
  gains i x known e := h'.gains i x known (h.gains i x known e)
  shut i hi := (h'.shut i (Nat.lt_of_lt_of_le hi h.next)).trans (h.shut i hi)
  kept i hi hs x := by
    rw [h'.kept i (Nat.lt_of_lt_of_le hi h.next) ((h.shut i hi).mpr hs) x, h.kept i hi hs x]

/-- What is seen from a frame stays the same. -/
theorem chain (h : s.Grown s') {k : Handle} (hk : k.frame < s.next) : s'.chain k = s.chain k := by
  rw [Site.chain, Forest.chain, h.scopes.outer k.frame hk]
  rfl

end Site.Grown

/-! ### Scopes that values carry along -/

namespace Site.Rooted

variable {k : Handle}

/-- All frames are there that are seen from a rooted scope. -/
theorem inside (hk : s.Rooted k) (hf : s.Framed P) : ∀ i ∈ s.chain k, i < s.next := by
  obtain ⟨is, e, his⟩ := hk
  intro i hi
  rw [e, List.mem_append] at hi
  rcases hi with hi | hi
  · exact (his i hi).1
  · simp only [List.mem_cons, List.not_mem_nil, or_false] at hi
    rcases hi with rfl | rfl
    · exact Nat.lt_of_lt_of_le Nat.one_lt_two hf.size
    · exact Nat.lt_of_lt_of_le Nat.zero_lt_two hf.size

/-- A rooted scope is in a frame that is there. -/
theorem lt (hk : s.Rooted k) (hf : s.Framed P) : k.frame < s.next :=
  hk.inside hf _ List.mem_cons_self

/-- A rooted scope stays rooted. -/
theorem grown (h : s.Grown s') (hf : s.Framed P) (hk : s.Rooted k) : s'.Rooted k := by
  have e := h.chain (hk.lt hf)
  obtain ⟨is, e', his⟩ := hk
  refine ⟨is, e.trans e', fun i hi => ?_⟩
  obtain ⟨hlt, hs⟩ := his i hi
  exact ⟨Nat.lt_of_lt_of_le hlt h.next, (h.shut i hlt).mpr hs⟩

end Site.Rooted

namespace Plan.Stands

variable {x : String} {a b c : Symbol}

/-- What stands for something that stands for a third thing stands for that. -/
theorem trans (h : P.Stands x a b) (h' : P.Stands x b c) : P.Stands x a c := by
  rcases h with rfl | h
  · exact h'
  · exact .inr h

/-- A name that is not taken stands for what it meant. -/
theorem exact (h : P.Stands x a b) (hx : a.isFixed = true → ¬ P.program.Takes x) : b = a := by
  rcases h with rfl | ⟨hf, ht⟩
  · rfl
  · exact absurd ht (hx hf)

/-- Something that is not predefined stands for itself. -/
theorem eq (h : P.Stands x a b) (ha : a.isFixed = false) : b = a :=
  h.exact fun hf => by rw [ha] at hf; cases hf

end Plan.Stands

/-! ### What frames bear -/

namespace World.Bears

variable {W W' : World} {is : List FrameId} {Fs : List Names}

/-- Frames bear what they bore if the world knows the same of them. -/
theorem congr (h : W.Bears is Fs) (e : ∀ i ∈ is, ∀ x, W'.means i x = W.means i x) :
    W'.Bears is Fs := by
  induction h with
  | base top root =>
      refine .base (fun x known hx => ?_) fun x => ?_
      · rw [e 1 List.mem_cons_self, top x known hx]
      · rw [e 0 (List.mem_cons_of_mem 1 (List.mem_singleton_self 0)), root]
  | inner h _ ih =>
      obtain ⟨hi, his⟩ := List.forall_mem_cons.mp e
      exact .inner (fun x => by rw [hi, h]) (ih his)

/-- The innermost frame gets a name, or what it does not have is told to be missing. -/
theorem put {i : FrameId} {F : Names} (h : W.Bears (i :: is) (F :: Fs)) {x : String}
    {b : Option Symbol} (hi : ∀ y, W'.means i y = if y = x then b else W.means i y)
    (his : ∀ j ∈ is, ∀ y, W'.means j y = W.means j y) : W'.Bears (i :: is) (F.put x b :: Fs) := by
  cases h with
  | base top root =>
      refine .base (fun y known hy => ?_) fun y => ?_
      · rw [Names.put] at hy
        rw [hi]
        split at hy
        · rw [if_pos ‹_›, Option.some.inj hy]
        · rw [if_neg ‹_›, top y known hy]
      · rw [his 0 (List.mem_singleton_self 0), root]
  | inner h hs =>
      refine .inner (fun y => ?_) (hs.congr his)
      rw [hi, h, Names.put]
      split <;> rfl

/-- Where only the frame of the program gets names, frames outside of which it is go on. -/
theorem grown : ∀ {is : List FrameId} {Fs : List Names}, W.Bears (is ++ [1, 0]) Fs →
    (∀ i ∈ is, ∀ x, W'.means i x = W.means i x) →
    (∀ x known, W.means 1 x = some known → W'.means 1 x = some known) →
    (∀ x, W'.means 0 x = W.means 0 x) → W'.Bears (is ++ [1, 0]) Fs
  | [], _, h, _, top, root => by
      cases h with
      | base ht hr => exact .base (fun x known hx => top x known (ht x known hx)) fun x => by rw [root, hr]
      | inner _ hs => cases hs with | inner _ hs => cases hs
  | i :: is, _, h, e, top, root => by
      obtain ⟨hi, his⟩ := List.forall_mem_cons.mp e
      rw [List.cons_append] at h ⊢
      generalize hj : is ++ [1, 0] = js at h
      cases h with
      | base => exact absurd (congrArg List.length hj) (by simp)
      | inner h hs =>
          subst hj
          exact .inner (fun x => by rw [hi, h]) (grown hs his top root)

end World.Bears

/-- What a scope that values carry along sees, it goes on seeing. -/
theorem Site.Sees.grown (h : s.Grown s') (hf : s.Framed P) (hf' : s'.Framed P) {k : Handle}
    (hk : s.Rooted k) {Γ : Scene} (hs : s.Sees (s.chain k) Γ) : s'.Sees (s'.chain k) Γ := by
  rw [h.chain (hk.lt hf)]
  obtain ⟨is, e, his⟩ := hk
  rw [e] at hs ⊢
  exact World.Bears.grown hs (fun i hi => h.kept i (his i hi).1 (his i hi).2) (h.gains 1)
    fun x => by rw [hf.root, hf'.root]

/-- A scope in which checking has seen a scene goes on to have the names of that scene. -/
theorem Plan.Scoped.grown (h : s.Grown s') (hf : s.Framed P) (hf' : s'.Framed P) {k : Handle}
    {Γ : Scene} (hk : P.Scoped s k Γ) : P.Scoped s' k Γ :=
  ⟨hk.rooted.grown h hf, hk.sees.grown h hf hf' hk.rooted, hk.seated⟩

/-! ### Values -/

section

variable (h : s.Grown s') (hf : s.Framed P) (hf' : s'.Framed P)

include h hf hf'

/-- A function goes on to be as it should. -/
theorem Closure.Ok.grown {f : Closure} (hv : f.Ok P s) : f.Ok P s' := by
  obtain ⟨Γ, hk, hd, hp⟩ := hv
  exact ⟨Γ, hk.grown h hf hf', hd, hp⟩

/-- A class goes on to be as it should. -/
theorem Class.Ok.grown {c : Class} (hv : c.Ok P s) : c.Ok P s' where
  tiers t ht := by
    obtain ⟨Γ, receiver, joined, hk, hs, hm⟩ := hv.tiers t ht
    exact ⟨Γ, receiver, joined, hk.grown h hf, hs.grown h hf hf' hk, hm⟩
  known := hv.known

/-- A value that is fit for a run stays so. -/
theorem Value.Ok.grown {v : Value} (hv : v.Ok P s) : v.Ok P s' := by
  cases v with
  | array id => exact Nat.lt_of_lt_of_le hv h.heap.arrays
  | function f => exact Closure.Ok.grown h hf hf' hv
  | cls c => exact Class.Ok.grown h hf hf' hv
  | object o => exact ⟨hv.1, Class.Ok.grown h hf hf' hv.2⟩
  | _ => trivial

end

/-- A plain value is as it should be wherever it is. -/
theorem Value.ok_of_plain {v : Value} (hv : v.isPlain = true) : v.Ok P s := by
  cases v <;> trivial

/-- A value suits a type still when the heap has grown. -/
theorem Plan.Suits.grown {h h' : Heap} (le : h.Grown h') {t : Ty} {v : Value}
    (hv : P.Suits h t v) : P.Suits h' t v := fun ht ha => (hv ht ha).grown le

/-- What a name may hold it may hold still when the heap has grown. -/
theorem Symbol.Takes.grown {h h' : Heap} (le : h.Grown h') {known : Symbol} {v : Value}
    (hv : known.Takes P h v) : known.Takes P h' v := by
  cases known with
  | var t => exact Plan.Suits.grown (t := t) le hv
  | const t => exact Plan.Suits.grown (t := t) le hv
  | receiver t => exact Plan.Suits.grown (t := t) le hv
  | function sig => exact hv
  | cls info => exact hv
  | builtin b => exact hv

/-! ### From one place of a run to a later one -/

/-- Functions and classes are what their names stand for still, unless something may be stored
there. -/
def Site.Steady (P : Plan) (s s' : Site) : Prop :=
  P.program.Firm → ∀ i x b known, s.machine.scopes.binding? i x = some b →
    s.world.means i x = some known → known.isDeclared = true →
      s'.machine.scopes.binding? i x = some b

/-- Functions and classes keep their names from one place to a later one, and on to a later one. -/
theorem Site.Steady.trans {s₁ s₂ s₃ : Site} (h : s₁.Steady P s₂) (hg : s₁.Grown s₂)
    (h' : s₂.Steady P s₃) : s₁.Steady P s₃ := fun hF i x b known hb hm hd =>
  h' hF i x b known (h hF i x b known hb hm hd) (hg.gains i x known hm) hd

/-- The frames are as they were. -/
theorem Site.Steady.of_scopes (e : s'.machine.scopes = s.machine.scopes) : s.Steady P s' :=
  fun _ _ _ _ _ hb _ _ => by rw [e, hb]

/-- The run goes on, wherever it is. Functions and classes have kept their names, and the frames that
were there have got no more names, except that `own` may have. -/
structure Site.Stays (P : Plan) (own : Option FrameId) (s s' : Site) : Prop
    extends Site.Grown s s' where
  steady : s.Steady P s'
  others : ∀ i, i < s.next → own ≠ some i → ∀ x, s'.world.means i x = s.world.means i x

namespace Site.Stays

variable {own : Option FrameId}

theorem refl (s : Site) : s.Stays P own s := ⟨.refl s, .of_scopes rfl, fun _ _ _ _ => rfl⟩

theorem trans {s₁ s₂ s₃ : Site} (h : s₁.Stays P own s₂) (h' : s₂.Stays P own s₃) :
    s₁.Stays P own s₃ where
  toGrown := h.toGrown.trans h'.toGrown
  steady := h.steady.trans h.toGrown h'.steady
  others i hi ne x := by
    rw [h'.others i (Nat.lt_of_lt_of_le hi h.next) ne x, h.others i hi ne x]

/-- What gives no frame more names may well be where one is allowed to get some. -/
theorem weaken (h : s.Stays P none s') : s.Stays P own s' :=
  ⟨h.toGrown, h.steady, fun i hi _ => h.others i hi nofun⟩

/-- A frame that was not there may get names. -/
theorem forget {i : FrameId} (hi : s.next ≤ i) (h : s.Stays P (some i) s') : s.Stays P none s' :=
  ⟨h.toGrown, h.steady, fun j hj _ => h.others j hj
    fun e => Nat.not_lt.mpr hi (Option.some.inj e ▸ hj)⟩

end Site.Stays

/-- The run goes on in the same scope, and the frames that were there have got no more names,
except that `own` may have. -/
structure Site.Later (own : Option FrameId) (s s' : Site) : Prop extends Site.Grown s s' where
  here   : s'.machine.here = s.machine.here
  others : ∀ i, i < s.next → own ≠ some i → ∀ x, s'.world.means i x = s.world.means i x

namespace Site.Later

variable {own : Option FrameId}

theorem refl (s : Site) : s.Later own s := ⟨.refl s, rfl, fun _ _ _ _ => rfl⟩

theorem trans {s₁ s₂ s₃ : Site} (h : s₁.Later own s₂) (h' : s₂.Later own s₃) :
    s₁.Later own s₃ where
  toGrown := h.toGrown.trans h'.toGrown
  here := h'.here.trans h.here
  others i hi ne x := by
    rw [h'.others i (Nat.lt_of_lt_of_le hi h.next) ne x, h.others i hi ne x]

/-- What gives no frame more names may well be where one is allowed to get some. -/
theorem weaken (h : s.Later none s') : s.Later own s' := ⟨h.toGrown, h.here, fun i hi _ =>
  h.others i hi nofun⟩

/-- A frame that is new in between is no frame that was there before. -/
theorem forget {s₁ s₂ s₃ : Site} {i : FrameId} (h : s₁.Later none s₂) (hi : s₁.next ≤ i)
    (h' : s₂.Later (some i) s₃) : s₁.Later none s₃ where
  toGrown := h.toGrown.trans h'.toGrown
  here := h'.here.trans h.here
  others j hj _ x := by
    have ne : some i ≠ some j := by rintro ⟨⟩; exact Nat.not_lt.mpr hi hj
    rw [h'.others j (Nat.lt_of_lt_of_le hj h.next) ne x, h.others j hj nofun x]

end Site.Later

/-- The run is at a place where checking knew `Γ`. -/
structure Ready (P : Plan) (Γ : Scene) (s : Site) : Prop where
  ok     : s.Ok P
  inside : ∀ i ∈ s.chain s.machine.here, i < s.next
  sees   : s.Sees (s.chain s.machine.here) Γ
  seated : P.program.Unreserved → Γ.Seated

/-- The run may give names to a frame, which has those that `Γ` tells of. -/
structure Open (Γ : Scene) (i : FrameId) (s : Site) : Prop where
  lt    : i < s.next
  inner : i ≠ 0
  shut  : ¬ s.world.shut i
  own   : ∀ x, (s.world.means i x).isSome = Γ.own x

/-- The run is ready for the same scene later on. -/
theorem Ready.later {Γ : Scene} (h : s.Later none s') (ok : s'.Ok P) (hr : Ready P Γ s) :
    Ready P Γ s' := by
  have e : s'.chain s'.machine.here = s.chain s.machine.here := by
    rw [h.here]
    exact h.chain (hr.inside _ List.mem_cons_self)
  refine ⟨ok, ?_, ?_, hr.seated⟩
  · rw [e]
    exact fun i hi => Nat.lt_of_lt_of_le (hr.inside i hi) h.next
  · rw [e]
    exact hr.sees.congr fun i hi => h.others i (hr.inside i hi) nofun

/-- The frame is open still later on. -/
theorem Open.later {Γ : Scene} {i : FrameId} (h : s.Later none s') (ho : Open Γ i s) :
    Open Γ i s' where
  lt := Nat.lt_of_lt_of_le ho.lt h.next
  inner := ho.inner
  shut := fun hs => ho.shut ((h.shut i ho.lt).mp hs)
  own x := by rw [h.others i ho.lt nofun x, ho.own x]

end Brace
