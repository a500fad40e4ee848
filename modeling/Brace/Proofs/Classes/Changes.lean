import Brace.Proofs.Classes.Made

/-!
# Classes — changes of a machine

Each change of a machine keeps the frames that classes and functions see, and what it stores has been
made as the program makes it, if that is so of what it is given (`Machine.Leads`). A method that is
bound to an object, and a class below another, are made by the changes that open a frame for them.

* `Machine.Leads.bindMethod`, `Closure.bound_bindMethod`: a method is bound to an object.
* `Machine.Leads.superFrame`, `Tier.seated_superFrame`: a class is made below another.
-/

namespace Brace

variable {p : Program}

/-- The second machine works where the first does, and classes and functions see there what they saw. If
whatever the first stores has been made as the program makes it, so has what the second stores. -/
structure Machine.Leads (p : Program) (m m' : Machine) : Prop extends m.Restored m' where
  reserved : p.Unmentioned → ∀ i < m.scopes.next, ∀ x, Reserved x →
    m'.scopes.binding? i x = m.scopes.binding? i x
  made : m.Made p → m'.Made p

namespace Machine

variable {m m' m₁ m₂ m₃ : Machine}

/-- A machine that another one leads to has all the frames that this one has, and they rest. -/
theorem Leads.rests (h : m.Leads p m') : m.scopes.Rests p m'.scopes := ⟨h.scopes, h.reserved⟩

namespace Made

/-- Whatever a name holds has been made. -/
theorem lookup (hm : m.Made p) {x : String} {v : Value} (e : m.lookup x = .ok v) :
    v.Made p m.scopes := hm.stored v (.of_lookup e)

/-- Whatever an array has as an element has been made. -/
theorem element (hm : m.Made p) {id : ArrayId} {i : Int64} {v : Value}
    (e : m.heap.element id i = .ok v) : v.Made p m.scopes := hm.stored v (.of_element e)

/-- Where one works does not matter. -/
theorem congr (hm : m.Made p) (hs : m'.scopes = m.scopes) (hh : m'.heap = m.heap) : m'.Made p where
  based := hs ▸ hm.based
  stored v hv := hs ▸ hm.stored v (hv.congr hs hh)

/-- Where nothing has been run, only predefined values are stored. -/
theorem start (settings : Settings) (stdin : String) : (Machine.start settings stdin).Made p where
  based := by
    refine ⟨Nat.le_refl 2, rfl, fun _ i _ x hx => ?_⟩
    refine (Site.binding?_start settings stdin i x).trans ?_
    split
    · rw [Option.map_eq_none_iff]
      rcases hx with rfl | rfl <;> decide +kernel
    · rfl
  stored v hv := by
    rcases hv.start with h | ⟨b, rfl⟩
    · exact Value.made_of_plain h
    · trivial

end Made

namespace Leads

theorem refl (m : Machine) : m.Leads p m := ⟨.refl m, fun _ _ _ _ _ => rfl, id⟩

theorem trans (h₁ : m₁.Leads p m₂) (h₂ : m₂.Leads p m₃) : m₁.Leads p m₃ :=
  ⟨h₁.toRestored.trans h₂.toRestored, (h₁.rests.trans h₂.rests).reserved, h₂.made ∘ h₁.made⟩

/-- What is stored was stored before, or has been made. -/
theorem of_stores (h : m.Restored m')
    (hr : p.Unmentioned → ∀ i < m.scopes.next, ∀ x, Reserved x →
      m'.scopes.binding? i x = m.scopes.binding? i x)
    (hs : ∀ v, m'.Stores v → m.Stores v ∨ v.Made p m.scopes) : m.Leads p m' where
  toRestored := h
  reserved := hr
  made hm := by
    have rests : m.scopes.Rests p m'.scopes := ⟨h.scopes, hr⟩
    refine ⟨rests.based hm.based, fun v hv => ?_⟩
    rcases hs v hv with hv | hv
    · exact (hm.stored v hv).rests rests hm.based
    · exact hv.rests rests hm.based

/-- The heap alone is changed. -/
theorem ofHeap {heap : Heap} (h : m.heap.Grown heap)
    (hs : ∀ v, Machine.Stores { m with heap } v → m.Stores v ∨ v.Made p m.scopes) :
    m.Leads p { m with heap } := of_stores (.ofHeap h) (fun _ _ _ _ _ => rfl) hs

/-- Reading and writing stores nothing. -/
theorem io (m : Machine) (input : Input) (output : String) :
    m.Leads p { m with input, output } :=
  of_stores (m.restored_io input output) (fun _ _ _ _ _ => rfl) fun _ hv => .inl (hv.congr rfl rfl)

/-- A name is bound that is not reserved. -/
theorem bind (m : Machine) (i : FrameId) {x : String} (hx : p.Unmentioned → ¬ Reserved x)
    {b : Option Value} (hb : ∀ v, b = some v → v.Made p m.scopes) : m.Leads p (m.bind i x b) := by
  refine of_stores (m.restored_bind i x b) (fun hp j _ y hy => ?_) fun v hv => hv.bind.imp_right (hb v)
  have ne : x ≠ y := by
    rintro rfl
    exact hx hp hy
  exact Forest.binding?_bind_name _ i j ne b

/-- A new frame leads on: it is empty. -/
theorem openFrame (m : Machine) (k : Handle) : m.Leads p (m.openFrame k).2 :=
  of_stores (m.restored_openFrame k) (fun _ i _ x _ => Forest.binding?_push m.scopes k i x)
    fun _ hv => .inl hv.openFrame

/-- A new number leads on. -/
theorem newId (m : Machine) : m.Leads p { m with heap := m.heap.newId.2 } :=
  ofHeap (.newId _) fun _ hv => .inl hv.newId

/-- A new object leads on: it has no fields yet. -/
theorem newObject (m : Machine) (c : Class) : m.Leads p (m.newObject c).2 :=
  ofHeap (.newObject _) fun _ hv => .inl (Stores.newObject (c := c) hv)

/-- A new array leads on: its elements are plain. -/
theorem newArray {t : Ty} {n : Nat} {id : ArrayId} {heap : Heap}
    (e : m.heap.newArray t n = .ok (id, heap)) : m.Leads p { m with heap } :=
  ofHeap (.newArray e) fun v hv => (hv.newArray e).imp_right <| by
    rintro rfl
    exact Value.made_of_plain (by cases t <;> rfl)

/-- An element may be set to what has been made. -/
theorem writeElement (m : Machine) (id : ArrayId) (k : Nat) {v : Value} (hv : v.Made p m.scopes) :
    m.Leads p (m.writeElement id k v) :=
  ofHeap (.write ..) fun _ hw => (Stores.writeElement hw).imp_right <| by
    rintro rfl
    exact hv

/-- A field may be set to what has been made. -/
theorem setField (m : Machine) (o : Object) (x : String) {v : Value} (hv : v.Made p m.scopes) :
    m.Leads p (m.setField o x v) :=
  ofHeap (.setField ..) fun _ hw => (Stores.setField (o := o) hw).imp_right <| by
    rintro rfl
    exact hv

/-- A new frame binds a name. -/
theorem bindNew (m : Machine) (k : Handle) (x : String) {v : Value} (hv : v.Made p m.scopes) :
    m.Leads p ((m.openFrame k).2.bind (m.openFrame k).1.frame x (some v)) := by
  refine of_stores ((m.restored_openFrame k).trans (restored_bind ..)) (fun _ i hi y _ => ?_)
    fun w hw => ?_
  · refine (Forest.binding?_bind_frame _ (Nat.ne_of_gt hi) x y _).trans ?_
    exact Forest.binding?_push m.scopes k i y
  · refine hw.bind.imp .openFrame ?_
    rintro ⟨⟩
    exact hv

/-- The frame of a class binds `super`, but it is new, so the others rest. -/
theorem superFrame (m : Machine) {c : Class} (hc : c.Made p m.scopes) :
    m.Leads p (m.superFrame c).2 := bindNew m m.here "super" (v := .cls c) hc

/-- The frame of a method binds `this`, but it is new, so the others rest. -/
theorem bindMethod (m : Machine) {o : Object} (ho : o.cls.Made p m.scopes)
    (method : Tier × FuncDecl) : m.Leads p (m.bindMethod o method).2 :=
  (bindNew m method.1.scope "this" (v := .object o) ho).trans (newId _)

/-- A block has all that has been made. -/
theorem of_pushScope (hm : m.Made p) : m.pushScope.Made p :=
  ((openFrame m m.here).made hm).congr rfl rfl

/-- A frame is left again. -/
theorem leave (h : m.pushScope.Leads p m') : m.Leads p { m' with here := m.here } where
  toRestored := h.toRestored.leave
  reserved hp i hi x hx := by
    refine (h.reserved hp i (Nat.lt_of_lt_of_le hi (Forest.Grown.push m.scopes m.here).next) x hx).trans ?_
    exact Forest.binding?_push m.scopes m.here i x
  made hm := (h.made (of_pushScope hm)).congr rfl rfl

end Leads

/-! ### What is made -/

/-- What a frame that has just been opened binds. -/
theorem binding?_bindNew (m : Machine) (k : Handle) (x : String) (v : Value) (y : String) :
    ((m.openFrame k).2.bind (m.openFrame k).1.frame x (some v)).scopes.binding?
      (m.openFrame k).1.frame y = if y = x then some (some v) else none := by
  have there : m.scopes.next < (m.scopes.push k).1.next := by simp
  refine (Forest.binding?_bind _ there _ x y _).trans ?_
  by_cases e : y = x
  · rw [if_pos ⟨rfl, e⟩, if_pos e]
  · rw [if_neg fun h => e h.2, if_neg e, Forest.binding?_push]
    exact Forest.binding?_beyond _ (Nat.le_refl _) y

/-- A new frame with one name is seen before those that were seen. -/
theorem chain_bindNew (m : Machine) (k : Handle) (x : String) (v : Value) :
    ((m.openFrame k).2.bind (m.openFrame k).1.frame x (some v)).scopes.chain (m.openFrame k).1 =
      (m.openFrame k).1.frame :: m.scopes.chain k := by
  rw [Forest.chain]
  congr 1
  exact (Forest.outer_bind ..).trans (Forest.outer_push_new m.scopes k)

end Machine

/-- A method of a tier of an object's class, bound to the object. -/
theorem Closure.bound_bindMethod {m : Machine} (hm : m.Made p) (hp : p.Unmentioned) {o : Object}
    (ho : o.cls.Made p m.scopes) {above below : List Tier} {method : Tier × FuncDecl}
    (ht : o.cls.tiers = above ++ method.1 :: below) (hf : method.2 ∈ method.1.methods) :
    (m.bindMethod o method).1.Bound p (m.bindMethod o method).2.scopes o above method.1 below where
  cls := (Machine.Leads.bindMethod m ho method).rests.lineage hm.based ho
  tiers := ht
  decl := hf
  chain := by
    have whole : Lineage p m.scopes (above ++ method.1 :: below) := ht ▸ ho
    have seen := (Machine.Leads.bindMethod m ho method).rests.chain
      ((whole.drop.2.1 hp).frame hm.based)
    rw [seen]
    exact Machine.chain_bindNew m method.1.scope "this" (.object o)
  this := Machine.binding?_bindNew m method.1.scope "this" (.object o) "this"
  super := Machine.binding?_bindNew m method.1.scope "this" (.object o) "super"

/-- The methods of a class that is declared below another see the other. -/
theorem Tier.seated_superFrame {m : Machine} (hm : m.Made p) (top : m.here.frame = 1) (c : Class)
    {t : Tier} (ht : t.scope = (m.superFrame c).1) : t.Seated (m.superFrame c).2.scopes c.tiers := by
  refine ⟨(m.superFrame c).1.frame, ?_, ?_, ?_⟩
  · rw [ht, ← hm.based.chain top]
    exact Machine.chain_bindNew m m.here "super" (.cls c)
  · exact Machine.binding?_bindNew m m.here "super" (.cls c) "super"
  · exact Machine.binding?_bindNew m m.here "super" (.cls c) "this"

end Brace
