import Brace.Proofs.Safety.Growth

/-!
# Safety — what a single change does to a site

Each change that a run makes to its machine leads to a site that is as it should be, provided that
what is stored is fit for its place (`Site.Reaches`). Most changes leave the world as it is. A name
that is bound for the first time is told to the world, and the frames in which a method finds its
receiver or its superclass are shut as soon as they have it (`Site.frameWith`).
-/

namespace Brace

/-- The second site comes after the first, and is as it should be. -/
structure Site.Reaches (P : Plan) (own : Option FrameId) (s s' : Site) : Prop where
  later  : s.Later own s'
  steady : s.Steady P s'
  ok     : s'.Ok P

variable {P : Plan} {s s' : Site} {own : Option FrameId}

namespace Site.Reaches

theorem refl (ok : s.Ok P) : s.Reaches P own s := ⟨.refl s, .of_scopes rfl, ok⟩

theorem trans {s₁ s₂ s₃ : Site} (h : s₁.Reaches P own s₂) (h' : s₂.Reaches P own s₃) :
    s₁.Reaches P own s₃ where
  later := h.later.trans h'.later
  steady := h.steady.trans h.later.toGrown h'.steady
  ok := h'.ok

/-- What gives no frame more names may well be where one is allowed to get some. -/
theorem weaken (h : s.Reaches P none s') : s.Reaches P own s' :=
  ⟨h.later.weaken, h.steady, h.ok⟩

/-- If names go to a frame that was not there at first, no frame that was there has got more. -/
theorem forget {s₁ s₂ s₃ : Site} {i : FrameId} (h : s₁.Reaches P none s₂)
    (hi : s₁.next ≤ i) (h' : s₂.Reaches P (some i) s₃) : s₁.Reaches P none s₃ where
  later := h.later.forget hi h'.later
  steady := h.steady.trans h.later.toGrown h'.steady
  ok := h'.ok

/-- A site that is reached is one at which the run stays sound. -/
theorem stays (h : s.Reaches P own s') : s.Stays P own s' :=
  ⟨h.later.toGrown, h.steady, h.later.others⟩

end Site.Reaches

/-! ### Changes of the heap -/

/-- The frames are as they were. -/
theorem Site.Framed.on (hf : s.Framed P) {m : Machine} (e : m.scopes = s.machine.scopes) :
    Site.Framed P ⟨s.world, m⟩ where
  names := by simp only [e]; exact hf.names
  root := hf.root
  top := hf.top
  lives := hf.lives
  size := by simp only [Site.next, e]; exact hf.size
  base := by simp only [e]; exact hf.base
  order := by simp only [e]; exact hf.order
  ice := by simp only [e]; exact hf.ice
  shut := by simp only [Site.next, e]; exact hf.shut

/-- Where only the heap grows, the site does. -/
theorem Site.Grown.on {m : Machine} (e : m.scopes = s.machine.scopes)
    (hh : s.heap.Grown m.heap) : s.Grown ⟨s.world, m⟩ where
  scopes := by simp only [e]; exact .refl _
  heap := hh
  gains _ _ _ h := h
  shut _ _ := Iff.rfl
  kept _ _ _ _ := rfl

/-- The frames stay, and the heap grows by what is fit for its place. -/
theorem Site.Ok.on (ok : s.Ok P) {m : Machine} (e : m.scopes = s.machine.scopes)
    (hh : s.heap.Grown m.heap)
    (items : ∀ id, ∀ v ∈ (m.heap.cells id).items,
      v.Ok P s ∧ P.Suits m.heap (m.heap.cells id).element v)
    (fields : ∀ id x v, m.heap.field? id x = some v → v.Ok P s ∧ P.program.Writes x)
    (arrays : P.program.Settled → ∀ id, id < m.heap.arrays.size →
      (m.heap.cells id).element.isAnyFree = true) : Site.Ok P ⟨s.world, m⟩ := by
  have grown := Site.Grown.on e hh
  have hf := ok.toFramed.on e
  refine ⟨hf, fun i x v known hb hk => ?_, fun id v hv => ?_, arrays, fun id x v hv => ?_⟩
  · rw [e] at hb
    obtain ⟨hv, ht⟩ := ok.values i x v known hb hk
    exact ⟨hv.grown grown ok.toFramed hf, ht.grown hh⟩
  · obtain ⟨hv', ht⟩ := items id v hv
    exact ⟨hv'.grown grown ok.toFramed hf, ht⟩
  · obtain ⟨hv', hw⟩ := fields id x v hv
    exact ⟨hv'.grown grown ok.toFramed hf, hw⟩

/-- A change of the heap is sound if all that is stored then is fit for its place. -/
theorem Site.Reaches.on (ok : s.Ok P) {m : Machine} (e : m.scopes = s.machine.scopes)
    (hk : m.here = s.machine.here) (hh : s.heap.Grown m.heap)
    (items : ∀ id, ∀ v ∈ (m.heap.cells id).items,
      v.Ok P s ∧ P.Suits m.heap (m.heap.cells id).element v)
    (fields : ∀ id x v, m.heap.field? id x = some v → v.Ok P s ∧ P.program.Writes x)
    (arrays : P.program.Settled → ∀ id, id < m.heap.arrays.size →
      (m.heap.cells id).element.isAnyFree = true) : s.Reaches P own ⟨s.world, m⟩ where
  later := ⟨Site.Grown.on e hh, hk, fun _ _ _ _ => rfl⟩
  steady := .of_scopes e
  ok := ok.on e hh items fields arrays

/-- The arrays are as they were. -/
theorem Site.Ok.items_of_eq (ok : s.Ok P) {h : Heap} (ha : h.arrays = s.heap.arrays)
    (hh : s.heap.Grown h) (id : ArrayId) :
    ∀ v ∈ (h.cells id).items, v.Ok P s ∧ P.Suits h (h.cells id).element v := by
  intro v hv
  have hc : h.cells id = s.heap.cells id := by simp only [Heap.cells, ha]
  rw [hc] at hv ⊢
  obtain ⟨hok, ht⟩ := ok.items id v hv
  exact ⟨hok, ht.grown hh⟩

/-- There are no more arrays than before. -/
theorem Site.Ok.arrays_of_size (ok : s.Ok P) {h : Heap} (hh : s.heap.Grown h)
    (e : h.arrays.size = s.heap.arrays.size) (settled : P.program.Settled) (id : ArrayId)
    (hi : id < h.arrays.size) : (h.cells id).element.isAnyFree = true := by
  rw [e] at hi
  rw [hh.element id hi]
  exact ok.arrays settled id hi

/-- Neither frames nor arrays nor objects change. -/
theorem Site.Ok.same (ok : s.Ok P) {m : Machine} (e : m.scopes = s.machine.scopes)
    (ha : m.heap.arrays = s.heap.arrays) (ho : m.heap.objects = s.heap.objects) :
    Site.Ok P ⟨s.world, m⟩ := by
  have hh : s.heap.Grown m.heap := .of_eq ha ho
  refine ok.on e hh (ok.items_of_eq ha hh) (fun id x v h => ok.fields id x v ?_)
    (ok.arrays_of_size hh (congrArg Array.size ha))
  rw [← h]
  simp only [Heap.field?, ho]

/-- A change of what is neither in frames nor in the heap is sound. -/
theorem Site.Reaches.same (ok : s.Ok P) {m : Machine} (e : m.scopes = s.machine.scopes)
    (hk : m.here = s.machine.here) (ha : m.heap.arrays = s.heap.arrays)
    (ho : m.heap.objects = s.heap.objects) : s.Reaches P own ⟨s.world, m⟩ where
  later := ⟨Site.Grown.on e (.of_eq ha ho), hk, fun _ _ _ _ => rfl⟩
  steady := .of_scopes e
  ok := ok.same e ha ho

namespace Heap

/-- A new array has the elements that it is made with. -/
theorem cells_addArray_new (h : Heap) (t : Ty) (items : Array Value) :
    (h.addArray t items).2.cells h.arrays.size = ⟨t, items⟩ := by
  simp [cells, addArray]

/-- Where there is no array, there are no elements. -/
theorem cells_beyond (h : Heap) {id : ArrayId} (hi : h.arrays.size ≤ id) :
    h.cells id = ⟨.any, #[]⟩ := by
  simp [cells, hi]

/-- What a field holds after one has been set. -/
theorem field?_of_setField (h : Heap) {id other : ObjectId} {x y : String} {v w : Value}
    (e : (h.setField id x v).field? other y = some w) :
    y = x ∧ w = v ∨ h.field? other y = some w := by
  by_cases hy : x = y
  · subst hy
    by_cases hi : id = other
    · subst hi
      by_cases hlt : id < h.objects.size
      · rw [field?_setField_self h hlt] at e
        cases e
        exact .inl ⟨rfl, rfl⟩
      · right
        simp [field?, setField, Nat.not_lt.mp hlt] at e
    · right
      simpa [field?, setField, Array.getElem?_modify, hi] using e
  · right
    rwa [field?_setField_name h id other hy] at e

end Heap

namespace Site.Ok

variable (ok : s.Ok P)

include ok

/-- One more array, of items that are fit for it. -/
theorem addArray {t : Ty} {items : Array Value}
    (hi : ∀ v ∈ items, v.Ok P s ∧ P.Suits s.heap t v)
    (ht : P.program.Settled → t.isAnyFree = true) :
    s.Reaches P own ⟨s.world, { s.machine with heap := (s.heap.addArray t items).2 }⟩ := by
  have hh := Heap.Grown.addArray s.heap t items
  refine .on ok rfl rfl hh (fun id v hv => ?_) ok.fields fun settled id hlt => ?_
  · by_cases hlt : id < s.heap.arrays.size
    · have e := Heap.Grown.cells_addArray_old s.heap t items hlt
      simp only [e] at hv ⊢
      obtain ⟨hok, ht⟩ := ok.items id v hv
      exact ⟨hok, ht.grown hh⟩
    · by_cases he : id = s.heap.arrays.size
      · subst he
        simp only [Heap.cells_addArray_new] at hv ⊢
        obtain ⟨hok, ht⟩ := hi v hv
        exact ⟨hok, ht.grown hh⟩
      · have hle : (s.heap.addArray t items).2.arrays.size ≤ id := by
          simp only [Heap.addArray, Array.size_push]
          exact Nat.lt_of_le_of_ne (Nat.not_lt.mp hlt) (Ne.symm he)
        simp only [Heap.cells_beyond _ hle] at hv
        cases hv
        contradiction
  · simp only [Heap.addArray, Array.size_push] at hlt
    rcases Nat.lt_succ_iff_lt_or_eq.mp hlt with hlt | rfl
    · rw [hh.element id hlt]
      exact ok.arrays settled id hlt
    · simp only [Heap.cells_addArray_new]
      exact ht settled

/-- An element may be set to a value that is of the type for it. -/
theorem writeElement {id : ArrayId} {k : Nat} {v : Value} (hv : v.Ok P s)
    (ht : P.Suits s.heap (s.heap.cells id).element v) :
    s.Reaches P own ⟨s.world, s.machine.writeElement id k v⟩ := by
  have hh := Heap.Grown.write s.heap id k v
  refine .on ok rfl rfl hh (fun other w hw => ?_) ok.fields
    (ok.arrays_of_size hh (Array.size_modify ..))
  have hw : w ∈ ((s.heap.write id k v).cells other).items := hw
  show w.Ok P s ∧ P.Suits (s.heap.write id k v) ((s.heap.write id k v).cells other).element w
  by_cases e : id = other
  · subst e
    rw [Heap.cells_write_self] at hw ⊢
    rcases Array.mem_or_eq_of_mem_setIfInBounds hw with hw | rfl
    · obtain ⟨hok, ht'⟩ := ok.items id w hw
      exact ⟨hok, ht'.grown hh⟩
    · exact ⟨hv, ht.grown hh⟩
  · rw [Heap.cells_write_other _ e] at hw ⊢
    obtain ⟨hok, ht'⟩ := ok.items other w hw
    exact ⟨hok, ht'.grown hh⟩

/-- A field may be set if the program writes fields of this name. -/
theorem setField {o : Object} {x : String} {v : Value} (hv : v.Ok P s)
    (hx : P.program.Writes x) : s.Reaches P own ⟨s.world, s.machine.setField o x v⟩ := by
  have hh := Heap.Grown.setField s.heap o.id x v
  refine .on ok rfl rfl hh (ok.items_of_eq rfl hh) (fun id y w hw => ?_) (ok.arrays_of_size hh rfl)
  rcases Heap.field?_of_setField _ hw with ⟨rfl, rfl⟩ | hw
  · exact ⟨hv, hx⟩
  · exact ok.fields id y w hw

/-- A new object has no fields, so all of them are fit. -/
theorem newObject {c : Class} : s.Reaches P own ⟨s.world, (s.machine.newObject c).2⟩ :=
  .on ok rfl rfl (.newObject _) (ok.items_of_eq rfl (.newObject _))
    (fun id x v hv => ok.fields id x v (by rw [← hv]; exact (Heap.field?_newObject s.heap id x).symm))
    (ok.arrays_of_size (.newObject _) rfl)

end Site.Ok

/-! ### Changes of frames -/

namespace Forest

variable {α : Type} (t : Forest α)

/-- A name that is bound in a frame is bound there to what it has been bound to, and all else is as it
was. -/
theorem binding?_bind {i : FrameId} (hi : i < t.next) (j : FrameId) (x y : String) (b : Option α) :
    (t.bind i x b).binding? j y = if j = i ∧ y = x then some b else t.binding? j y := by
  split
  · rename_i e
    obtain ⟨rfl, rfl⟩ := e
    exact binding?_bind_self t hi _ b
  · rename_i e
    by_cases hj : i = j
    · exact binding?_bind_name t i j (fun hx => e ⟨hj.symm, hx.symm⟩) b
    · exact binding?_bind_frame t hj x y b

/-- A frame that does not exist binds nothing. -/
theorem binding?_beyond {i : FrameId} (hi : t.next ≤ i) (x : String) : t.binding? i x = none := by
  have hi : t.frames.size ≤ i := hi
  simp [binding?, hi]

/-- A frame that does not exist is in none. -/
theorem outer_beyond {i : FrameId} (hi : t.next ≤ i) : t.outer i = [] := by
  have hi : t.frames.size ≤ i := hi
  simp [outer, hi]

/-- A frame that does not exist is not frozen. -/
theorem isFrozen_beyond {i : FrameId} (hi : t.next ≤ i) : t.isFrozen i = false := by
  have hi : t.frames.size ≤ i := hi
  simp [isFrozen, hi]

/-- A new frame freezes no other. -/
theorem isFrozen_push (h : Handle) (i : FrameId) : (t.push h).1.isFrozen i = t.isFrozen i := by
  by_cases hi : i < t.next
  · exact isFrozen_push_old t h hi
  · rw [isFrozen_beyond t (Nat.not_lt.mp hi)]
    by_cases e : i = t.next
    · subst e
      simp [push, isFrozen, next]
    · refine isFrozen_beyond _ ?_
      rw [next_push]
      exact Nat.lt_of_le_of_ne (Nat.not_lt.mp hi) (Ne.symm e)

/-- A new frame has no names. -/
theorem binding?_push (h : Handle) (i : FrameId) (x : String) :
    (t.push h).1.binding? i x = t.binding? i x := by
  by_cases hi : i < t.next
  · exact binding?_push_old t h hi x
  · rw [binding?_beyond t (Nat.not_lt.mp hi)]
    by_cases e : i = t.next
    · subst e
      simp [push, binding?, next]
    · refine binding?_beyond _ ?_ x
      rw [next_push]
      exact Nat.lt_of_le_of_ne (Nat.not_lt.mp hi) (Ne.symm e)

end Forest

/-- The world in which a frame has one more name, or an old one with another meaning. -/
def World.put (W : World) (i : FrameId) (x : String) (known : Symbol) : World :=
  { W with means := fun j y => if j = i ∧ y = x then some known else W.means j y }

/-- The world knows what a name has been said to mean. -/
theorem World.means_put_self (W : World) (i : FrameId) (x : String) (known : Symbol) :
    (W.put i x known).means i x = some known := if_pos ⟨rfl, rfl⟩

/-- Of other names the world knows what it knew. -/
theorem World.means_put_other (W : World) {i j : FrameId} {x y : String} (known : Symbol)
    (ne : ¬(j = i ∧ y = x)) : (W.put i x known).means j y = W.means j y := if_neg ne

/-- Where the frame is that of the program, a declaration gives it the name. -/
def Plan.Declares (P : Plan) (i : FrameId) (x : String) (known : Symbol) : Prop :=
  i = 1 → ∃ d ∈ P.program, d.name = x ∧ d.Makes known

namespace Site

/-- Of frames that are not there the world knows nothing. -/
theorem Framed.means_beyond (hf : s.Framed P) {i : FrameId} (hi : s.next ≤ i) (x : String) :
    s.world.means i x = none := by
  have hb : s.machine.scopes.binding? i x = none := Forest.binding?_beyond _ hi x
  have hn := hf.names i x
  rw [hb] at hn
  exact Option.isSome_eq_false_iff.mp hn.symm |> Option.isNone_iff_eq_none.mp

/-- Arrays and objects stay, and frames grow by what is fit for its place. -/
theorem Ok.grow (ok : s.Ok P) (h : s.Grown s') (hf : s'.Framed P)
    (ha : s'.heap.arrays = s.heap.arrays) (ho : s'.heap.objects = s.heap.objects)
    (values : ∀ i x v known, s'.machine.scopes.binding? i x = some (some v) →
      s'.world.means i x = some known →
      (s.machine.scopes.binding? i x = some (some v) ∧ s.world.means i x = some known) ∨
        v.Ok P s' ∧ known.Takes P s'.heap v) : s'.Ok P := by
  have lift {v : Value} (hv : v.Ok P s) : v.Ok P s' := hv.grown h ok.toFramed hf
  refine ⟨hf, fun i x v known hb hk => ?_, fun id v hv => ?_,
    ok.arrays_of_size h.heap (congrArg Array.size ha), fun id x v hv => ?_⟩
  · rcases values i x v known hb hk with ⟨hb, hk⟩ | hv
    · obtain ⟨hv, ht⟩ := ok.values i x v known hb hk
      exact ⟨lift hv, ht.grown h.heap⟩
    · exact hv
  · obtain ⟨hv', ht⟩ := ok.items_of_eq ha h.heap id v hv
    exact ⟨lift hv', ht⟩
  · have hv : s.heap.field? id x = some v := by
      rw [← hv]
      simp only [Heap.field?, ho]
    obtain ⟨hv, hx⟩ := ok.fields id x v hv
    exact ⟨lift hv, hx⟩

/-- The site in which a name of a frame is bound anew, or for the first time. -/
def name (s : Site) (i : FrameId) (x : String) (known : Symbol) (b : Option Value) : Site :=
  ⟨s.world.put i x known, s.machine.bind i x b⟩

/-- A frame may get the name, which it does not have, or it has the name with this meaning. -/
structure MayName (P : Plan) (s : Site) (i : FrameId) (x : String) (known : Symbol) : Prop where
  lt    : i < s.next
  slot  : s.world.means i x = some known ∧ (P.program.Firm → known.isDeclared = false) ∨
    s.world.means i x = none ∧ ¬ s.world.shut i
  root  : i = 0 → s.world.means i x = some known
  top   : P.Declares i x known
  lives : known.Lives i

section

variable {i : FrameId} {x : String} {known : Symbol}

/-- To name something in a frame binds the name, and nothing else. -/
theorem binding?_name (hi : i < s.next) (b : Option Value) (j : FrameId) (y : String) :
    (s.name i x known b).machine.scopes.binding? j y =
      if j = i ∧ y = x then some b else s.machine.scopes.binding? j y :=
  Forest.binding?_bind _ hi j x y b

/-- The frames are as they should be where a name has been given that may be given. -/
theorem Framed.name (hf : s.Framed P) (h : MayName P s i x known) (b : Option Value) :
    (s.name i x known b).Framed P where
  names j y := by
    rw [binding?_name h.lt]
    simp only [Site.name, World.put]
    split
    · rfl
    · exact hf.names j y
  root y := by
    rw [← hf.root]
    by_cases e : 0 = i ∧ y = x
    · obtain ⟨rfl, rfl⟩ := e
      exact (World.means_put_self ..).trans (h.root rfl).symm
    · exact World.means_put_other _ _ e
  top y k hy := by
    by_cases e : 1 = i ∧ y = x
    · obtain ⟨rfl, rfl⟩ := e
      cases (World.means_put_self ..).symm.trans hy
      exact h.top rfl
    · exact hf.top y k ((World.means_put_other s.world known e).symm.trans hy)
  lives j y k hy := by
    by_cases e : j = i ∧ y = x
    · obtain ⟨rfl, rfl⟩ := e
      cases (World.means_put_self ..).symm.trans hy
      exact h.lives
    · exact hf.lives j y k ((World.means_put_other s.world known e).symm.trans hy)
  order j := by
    intro k hk
    exact hf.order j k ((Forest.outer_bind ..) ▸ hk)
  ice j := (Forest.isFrozen_bind ..).trans (hf.ice j)
  size := Nat.le_trans hf.size (Nat.le_of_eq (Forest.next_bind ..).symm)
  base := (Forest.outer_bind ..).trans hf.base
  shut j hj := ⟨(hf.shut j hj).1, Nat.lt_of_lt_of_eq (hf.shut j hj).2 (Forest.next_bind ..).symm⟩

/-- A frame that gets one more name has grown. -/
theorem Grown.name (h : MayName P s i x known) (b : Option Value) :
    s.Grown (s.name i x known b) where
  scopes := .bind ..
  heap := .refl _
  gains j y k e := by
    by_cases e' : j = i ∧ y = x
    · obtain ⟨rfl, rfl⟩ := e'
      rcases h.slot with ⟨ho, -⟩ | ⟨ho, -⟩
      · cases ho.symm.trans e
        exact World.means_put_self ..
      · cases ho.symm.trans e
    · exact (World.means_put_other _ _ e').trans e
  shut _ _ := Iff.rfl
  kept j _ hj y := by
    by_cases e' : j = i ∧ y = x
    · obtain ⟨rfl, rfl⟩ := e'
      rcases h.slot with ⟨ho, -⟩ | ⟨-, ho⟩
      · exact (World.means_put_self ..).trans ho.symm
      · exact absurd hj ho
    · exact World.means_put_other _ _ e'

/-- Functions and classes keep their names where a new name is given. -/
theorem Steady.name (h : MayName P s i x known) (b : Option Value) :
    s.Steady P (s.name i x known b) := by
  intro hF j y c k hb hm hd
  rw [binding?_name h.lt]
  split
  · rename_i e
    obtain ⟨rfl, rfl⟩ := e
    rcases h.slot with ⟨ho, hn⟩ | ⟨ho, -⟩
    · cases ho.symm.trans hm
      rw [hn hF] at hd
      cases hd
    · cases ho.symm.trans hm
  · exact hb

/-- A name gets a value that it may hold, or none. -/
theorem Ok.bind (ok : s.Ok P) (h : MayName P s i x known) {b : Option Value}
    (hb : ∀ v, b = some v → v.Ok P (s.name i x known b) ∧ known.Takes P s.heap v) :
    s.Reaches P (some i) (s.name i x known b) := by
  have grown := Grown.name h b
  have others : ∀ j, some i ≠ some j → ∀ y, (s.name i x known b).world.means j y =
      s.world.means j y := fun j ne y =>
    World.means_put_other _ _ (by rintro ⟨rfl, -⟩; exact ne rfl)
  refine ⟨⟨grown, rfl, fun j _ => others j⟩, .name h b,
    ok.grow grown (ok.toFramed.name h b) rfl rfl fun j y w k e hk => ?_⟩
  · rw [binding?_name h.lt] at e
    simp only [Site.name, World.put] at hk
    split at e
    · rename_i e'
      rw [if_pos e'] at hk
      cases hk
      cases e
      exact .inr (hb w rfl)
    · rename_i e'
      rw [if_neg e'] at hk
      exact .inl ⟨e, hk⟩

/-- A name that there is gets a value that it may hold. -/
theorem Ok.store (ok : s.Ok P) {v : Value} (hm : s.world.means i x = some known)
    (hd : P.program.Firm → known.isDeclared = false) (hv : v.Ok P s)
    (ht : known.Takes P s.heap v) :
    s.Reaches P own ⟨s.world, s.machine.bind i x (some v)⟩ := by
  have e : s.world.put i x known = s.world := by
    simp only [World.put]
    congr 1
    funext j y
    split
    · rename_i e
      rw [e.1, e.2, hm]
    · rfl
  have hi : i < s.next := by
    by_contra hn
    rw [ok.means_beyond (Nat.not_lt.mp hn)] at hm
    cases hm
  have h : MayName P s i x known :=
    ⟨hi, .inl ⟨hm, hd⟩, fun _ => hm, fun e => ok.top x known (e ▸ hm), ok.lives i x known hm⟩
  have hs := ok.bind h (b := some v) fun w e => by
    cases e
    exact ⟨hv.grown (Grown.name h _) ok.toFramed (ok.toFramed.name h _), ht⟩
  rw [Site.name, e] at hs
  exact ⟨⟨hs.later.toGrown, rfl, fun _ _ _ _ => rfl⟩, hs.steady, hs.ok⟩

/-- What is fit for the run is so after the change. -/
theorem MayName.lift (h : MayName P s i x known) (ok : s.Ok P) {v : Value} (hv : v.Ok P s)
    (b : Option Value) : v.Ok P (s.name i x known b) :=
  hv.grown (Grown.name h b) ok.toFramed (ok.toFramed.name h b)

end

/-- What a new frame is in was there before. -/
theorem Framed.order_push (hf : s.Framed P) {k : Handle} (hk : k.frame < s.next) (i : FrameId) :
    ∀ j ∈ (s.machine.scopes.push k).1.outer i, j < i := by
  intro j hj
  by_cases hi : i < s.next
  · rw [Forest.outer_push_old _ _ hi] at hj
    exact hf.order i j hj
  · by_cases e : i = s.next
    · subst e
      have hj : j ∈ s.machine.scopes.chain k := (Forest.outer_push_new s.machine.scopes k) ▸ hj
      rcases List.mem_cons.mp hj with rfl | hj
      · exact hk
      · exact Nat.lt_trans (hf.order _ j hj) hk
    · rw [Forest.outer_beyond] at hj
      · cases hj
      · rw [Forest.next_push]
        exact Nat.lt_of_le_of_ne (Nat.not_lt.mp hi) (Ne.symm e)

/-- A new frame is opened. -/
theorem Ok.openFrame (ok : s.Ok P) {k : Handle} (hk : k.frame < s.next) :
    s.Reaches P own ⟨s.world, (s.machine.openFrame k).2⟩ := by
  have grown : s.Grown ⟨s.world, (s.machine.openFrame k).2⟩ :=
    ⟨.push .., .refl _, fun _ _ _ h => h, fun _ _ => Iff.rfl, fun _ _ _ _ => rfl⟩
  have hf : Framed P ⟨s.world, (s.machine.openFrame k).2⟩ := by
    refine ⟨fun j y => ?_, ok.root, ok.top, ok.lives, ?_, ?_, fun j => ?_, fun j => ?_,
      fun j hj => ?_⟩
    · exact (congrArg Option.isSome (Forest.binding?_push ..)).trans (ok.names j y)
    · exact Nat.le_trans ok.size grown.next
    · exact (Forest.outer_push_old _ _ ok.size).trans ok.base
    · exact ok.order_push hk j
    · exact (Forest.isFrozen_push ..).trans (ok.ice j)
    · exact ⟨(ok.shut j hj).1, Nat.lt_of_lt_of_le (ok.shut j hj).2 grown.next⟩
  refine ⟨⟨grown, rfl, fun _ _ _ _ => rfl⟩, fun _ i x b known hb _ _ =>
    (Forest.binding?_push ..).trans hb, ok.grow grown hf rfl rfl fun j y w known hb hk => ?_⟩
  exact .inl ⟨(Forest.binding?_push ..).symm.trans hb, hk⟩

/-- The site seen from another scope. -/
def moved (s : Site) (k : Handle) : Site := ⟨s.world, { s.machine with here := k }⟩

/-- It does not matter to a site where one is in it. -/
theorem Ok.moved (ok : s.Ok P) (k : Handle) : (s.moved k).Ok P := ok.same rfl rfl rfl

/-- To go elsewhere in a site makes nothing less. -/
theorem Grown.moved (s : Site) (k : Handle) : s.Grown (s.moved k) := .on rfl (.refl _)

/-- Only frames and what is on the heap matter. -/
theorem Stays.on {m : Machine} (e : m.scopes = s.machine.scopes) (hh : s.heap.Grown m.heap) :
    s.Stays P own ⟨s.world, m⟩ := ⟨.on e hh, .of_scopes e, fun _ _ _ _ => rfl⟩

end Site

/-! ### Places -/

section

variable {Γ : Scene}

/-- A new frame is seen first, and then what was seen before. -/
theorem Forest.chain_push {α : Type} (t : Forest α) (k : Handle) :
    (t.push k).1.chain (t.push k).2 = t.next :: t.chain k := by
  rw [Forest.chain, Forest.outer_push_new]
  rfl

/-- In a new frame, names stand for what they stood for outside. -/
theorem Site.Ok.openFrame_ready (ok : s.Ok P) {k : Handle} (inside : ∀ i ∈ s.chain k, i < s.next)
    (sees : s.Sees (s.chain k) Γ) (seated : P.program.Unreserved → Γ.Seated) :
    Ready P Γ.enter
        (Site.moved ⟨s.world, (s.machine.openFrame k).2⟩ (s.machine.openFrame k).1) ∧
      Open Γ.enter s.next
        (Site.moved ⟨s.world, (s.machine.openFrame k).2⟩ (s.machine.openFrame k).1) := by
  have e : Site.chain (Site.moved ⟨s.world, (s.machine.openFrame k).2⟩ (s.machine.openFrame k).1)
      (s.machine.openFrame k).1 = s.next :: s.chain k := Forest.chain_push ..
  have next : s.next < s.next + 1 := Nat.lt_succ_self _
  have opened : s.Reaches P none ⟨s.world, (s.machine.openFrame k).2⟩ :=
    ok.openFrame (inside _ List.mem_cons_self)
  refine ⟨⟨opened.ok.moved _, ?_, ?_, seated⟩, ?_, ?_, ?_, ?_⟩
  · intro i hi
    refine Nat.lt_of_lt_of_eq ?_ (Forest.next_push ..).symm
    rcases List.mem_cons.mp (e ▸ hi) with rfl | hi
    · exact next
    · exact Nat.lt_trans (inside i hi) next
  · have bears : s.world.Bears (s.next :: s.chain k) Γ.enter.frames :=
      .inner (fun x => ok.means_beyond (Nat.le_refl _) x) sees
    rw [← e] at bears
    exact bears
  · exact Nat.lt_of_lt_of_eq next (Forest.next_push ..).symm
  · exact Nat.ne_of_gt (Nat.lt_of_lt_of_le Nat.zero_lt_two ok.size)
  · exact fun hs => Nat.lt_irrefl _ (ok.shut _ hs).2
  · intro x
    rw [Scene.own_enter]
    exact congrArg Option.isSome (ok.means_beyond (Nat.le_refl _) x)

/-- The site with a new frame inside `k` that has one name and gets no more. -/
def Site.frameWith (s : Site) (k : Handle) (x : String) (known : Symbol) (v : Value) : Site where
  world :=
    { s.world.put s.next x known with shut := fun i => i = s.next ∨ s.world.shut i }
  machine := (s.machine.openFrame k).2.bind s.next x (some v)

/-- A frame may be opened that has one name from the start. -/
theorem Site.Ok.frameWith (ok : s.Ok P) {k : Handle} (hk : k.frame < s.next) {x : String}
    {known : Symbol} {v : Value} (hl : known.Lives s.next) (hv : v.Ok P s)
    (ht : known.Takes P s.heap v) : s.Reaches P own (s.frameWith k x known v) := by
  have opened : s.Reaches P none ⟨s.world, (s.machine.openFrame k).2⟩ := ok.openFrame hk
  have hlt : s.next < Site.next ⟨s.world, (s.machine.openFrame k).2⟩ :=
    Nat.lt_of_lt_of_eq (Nat.lt_succ_self _) (Forest.next_push ..).symm
  have inner : 1 < s.next := ok.size
  have may : Site.MayName P ⟨s.world, (s.machine.openFrame k).2⟩ s.next x known :=
    ⟨hlt, .inr ⟨ok.means_beyond (Nat.le_refl _) x, fun h => Nat.lt_irrefl _ (ok.shut _ h).2⟩,
      fun e => absurd e (Nat.ne_of_gt (Nat.lt_trans Nat.zero_lt_one inner)),
      fun e => absurd e (Nat.ne_of_gt inner), hl⟩
  have named := opened.later.toGrown.trans (.name may (some v))
  have framed := opened.ok.toFramed.name may (some v)
  have grown : s.Grown (s.frameWith k x known v) :=
    ⟨named.scopes, named.heap, named.gains,
      fun i hi => ⟨fun h => h.resolve_left (Nat.ne_of_lt hi), .inr⟩, named.kept⟩
  have hf : (s.frameWith k x known v).Framed P := by
    refine ⟨framed.names, framed.root, framed.top, framed.lives, framed.size, framed.base,
      framed.order, framed.ice, fun i hi => ?_⟩
    rcases hi with rfl | hi
    · exact ⟨inner, Nat.lt_of_lt_of_eq hlt (Forest.next_bind ..).symm⟩
    · exact framed.shut i hi
  refine ⟨⟨grown, rfl, fun i hi _ y => ?_⟩,
    opened.steady.trans opened.later.toGrown (.name may (some v)),
    ok.grow grown hf rfl rfl fun i y w met hb hm => ?_⟩
  · exact World.means_put_other _ _ fun e => Nat.ne_of_lt hi e.1
  · have hb : (Site.name ⟨s.world, (s.machine.openFrame k).2⟩ s.next x known
        (some v)).machine.scopes.binding? i y = some (some w) := hb
    rw [Site.binding?_name hlt] at hb
    simp only [Site.frameWith, World.put] at hm
    split at hb
    · rename_i e
      rw [if_pos e] at hm
      cases hm
      cases hb
      exact .inr ⟨hv.grown grown ok.toFramed hf, ht⟩
    · rename_i e
      rw [if_neg e] at hm
      exact .inl ⟨(Forest.binding?_push ..).symm.trans hb, hm⟩

section

variable {k : Handle} {x : String} {known : Symbol} {v : Value}

/-- The new frame is seen first, and then what was seen before. -/
theorem Site.chain_frameWith :
    (s.frameWith k x known v).chain (s.machine.openFrame k).1 = s.next :: s.chain k :=
  (Forest.chain_bind ..).trans (Forest.chain_push ..)

/-- There is one more frame then. -/
theorem Site.next_frameWith : (s.frameWith k x known v).next = s.next + 1 :=
  (Forest.next_bind ..).trans (Forest.next_push ..)

/-- The new frame is the innermost one of a scope that values can carry along. -/
theorem Site.Rooted.frameWith (hk : s.Rooted k) :
    (s.frameWith k x known v).Rooted (s.machine.openFrame k).1 := by
  obtain ⟨is, e, his⟩ := hk
  refine ⟨s.next :: is, by rw [Site.chain_frameWith, e]; rfl, fun i hi => ?_⟩
  rw [Site.next_frameWith]
  rcases List.mem_cons.mp hi with rfl | hi
  · exact ⟨Nat.lt_succ_self _, .inl rfl⟩
  · exact ⟨Nat.lt_succ_of_lt (his i hi).1, .inr (his i hi).2⟩

/-- What is seen through the new frame later on: its name, and what is seen from where it was
opened. -/
theorem Site.Sees.frameWith (hf : s.Framed P) (h : (s.frameWith k x known v).Grown s')
    (hs : s'.Sees (s.chain k) Γ) :
    s'.Sees (s'.chain (s.machine.openFrame k).1) (Γ.enter.bind x known) := by
  have inner : s.next < (s.frameWith k x known v).next := by
    rw [Site.next_frameWith]
    exact Nat.lt_succ_self _
  rw [h.chain (k := (s.machine.openFrame k).1) inner, Site.chain_frameWith]
  refine .inner (fun y => ?_) hs
  show s'.world.means s.next y = (Names.empty.put x (some known) y).join
  rw [h.kept s.next inner (.inl rfl) y]
  simp only [Site.frameWith, World.put, true_and, hf.means_beyond (Nat.le_refl _), Names.put,
    Names.empty]
  split <;> rfl

end

/-- Where a name has been given to the innermost frame of a scope. -/
theorem Site.Sees.named (hf : s.Framed P) {k : Handle} (hs : s.Sees (s.chain k) Γ) (x : String)
    (known : Symbol) (b : Option Value) :
    (s.name k.frame x known b).Sees (s.chain k) (Γ.bind x known) := by
  refine World.Bears.put hs (fun y => ?_) fun j hj y => ?_
  · simp only [Site.name, World.put, true_and]
  · exact World.means_put_other _ _ fun e => Nat.lt_irrefl _ (e.1 ▸ hf.order _ j hj)

/-- A variable of another name does not hide the superclass. -/
theorem Scene.Seated.bind (h : Γ.Seated) {x : String} (hx : x ≠ "super") (known : Symbol) :
    (Γ.bind x known).Seated := by
  intro hs
  rw [Scene.bind, Scene.means_put_other Γ hx.symm] at hs
  by_cases ht : "this" = x
  · rw [← ht, Scene.bind, Scene.means_put_self]
    rfl
  · rw [Scene.bind, Scene.means_put_other Γ ht]
    exact h hs

/-- Where a name has been given in the current frame, the run is where checking knows this name. -/
theorem Ready.named (hr : Ready P Γ s) {x : String} {known : Symbol} {b : Option Value}
    (hx : P.program.Unreserved → x ≠ "super")
    (ok : (s.name s.machine.here.frame x known b).Ok P) :
    Ready P (Γ.bind x known) (s.name s.machine.here.frame x known b) := by
  have e : Site.chain (s.name s.machine.here.frame x known b) s.machine.here =
      s.chain s.machine.here := Forest.chain_bind ..
  refine ⟨ok, fun i hi => ?_, ?_, fun hu => (hr.seated hu).bind (hx hu) known⟩
  · exact Nat.lt_of_lt_of_eq (hr.inside i (e ▸ hi)) (Forest.next_bind ..).symm
  · show Site.Sees _ (Site.chain (s.name s.machine.here.frame x known b) s.machine.here) _
    rw [e]
    exact hr.sees.named hr.ok.toFramed x known b

/-- A frame that is not shut may get a name that is new to it. -/
theorem Open.missing {i : FrameId} (ho : Open Γ i s) {x : String} (hx : Γ.own x = false) :
    s.world.means i x = none := by
  rw [← Option.not_isSome_iff_eq_none, ho.own, hx]
  exact Bool.false_ne_true

/-- A name that is new to an open frame may be given there. -/
theorem Open.mayName {i : FrameId} (ho : Open Γ i s) {x : String} (hx : Γ.own x = false)
    {known : Symbol} (top : P.Declares i x known) (lives : known.Lives i) :
    Site.MayName P s i x known :=
  ⟨ho.lt, .inr ⟨ho.missing hx, ho.shut⟩, fun e => absurd e ho.inner, top, lives⟩

/-- The frame is open still when a name has been given. -/
theorem Open.named {i : FrameId} (ho : Open Γ i s) (x : String) (known : Symbol)
    (b : Option Value) : Open (Γ.bind x known) i (s.name i x known b) where
  lt := Nat.lt_of_lt_of_eq ho.lt (Forest.next_bind ..).symm
  inner := ho.inner
  shut := ho.shut
  own y := by
    rw [Scene.bind, Scene.own_put]
    by_cases e : y = x
    · subst e
      simp [Site.name, World.means_put_self]
    · simp only [Site.name, World.means_put_other s.world known (fun h => e h.2), ho.own,
        beq_eq_false_iff_ne.mpr e, Bool.false_or]

end

end Brace
