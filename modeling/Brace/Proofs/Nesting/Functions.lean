import Brace.Proofs.Run.Restore
import Brace.Proofs.Safety.Start

/-!
# Nesting — whose functions a machine has

Which bodies a run may come to is told by the functions that there are, as values of their own and as
methods of classes. Evaluation makes functions of methods alone, and otherwise only passes functions
on. So whatever is so of the functions and methods that a machine has stays so (`Machine.Follows`).

* `Machine.Of`: every function of a machine is in `P`.
* `Machine.of_start`: a machine that has run nothing has no functions.
-/

namespace Brace

variable {P : FuncDecl → Prop}

/-! ### Values -/

/-- Every method of the class is in `P`. -/
def Class.Of (P : FuncDecl → Prop) (c : Class) : Prop := ∀ t ∈ c.tiers, ∀ f ∈ t.methods, P f

/-- What can be called through the value is in `P`. -/
def Value.Of (P : FuncDecl → Prop) : Value → Prop
  | .function f => P f.decl
  | .cls c      => c.Of P
  | .object o   => o.cls.Of P
  | _           => True

def Flow.Of (P : FuncDecl → Prop) : Flow → Prop
  | .ret v => v.Of P
  | _      => True

/-- The methods that are found in a class are its own or inherited. -/
theorem Class.Of.method {c : Class} (hc : c.Of P) {x : String} {method : Tier × FuncDecl}
    (e : c.method? x = some method) : P method.2 :=
  have inside := Class.mem_of_methodIn e
  hc _ inside.1 _ inside.2

/-- A plain value cannot be called. -/
theorem Value.of_plain {v : Value} (h : v.isPlain = true) : v.Of P := by
  cases v <;> trivial

/-- What an operation gives that gives plain values. -/
theorem Value.Settles.of {r : Except Cause Value} (h : Settles (·.isPlain = true) r) :
    ∀ v, r = .ok v → v.Of P := by
  rintro v rfl
  exact of_plain h

theorem Value.of_ofLiteral (l : Literal) : (ofLiteral l).Of P := by
  cases l <;> trivial

theorem Value.of_default (t : Ty) : (default t).Of P := by
  cases t <;> trivial

/-! ### Machines -/

structure Heap.Of (P : FuncDecl → Prop) (h : Heap) : Prop where
  items  : ∀ id, ∀ v ∈ (h.cells id).items, v.Of P
  fields : ∀ id x v, h.field? id x = some v → v.Of P

/-- Every function that the machine has, under a name or on the heap, is in `P`. -/
structure Machine.Of (P : FuncDecl → Prop) (m : Machine) : Prop where
  names : ∀ i x v, m.scopes.binding? i x = some (some v) → v.Of P
  heap  : m.heap.Of P

/-- The second machine works where the first does, under the same settings, and its functions are
in `P` if those of the first are. -/
structure Machine.Follows (P : FuncDecl → Prop) (m m' : Machine) : Prop extends m.Restored m' where
  settings : m'.settings = m.settings
  of       : m.Of P → m'.Of P

/-- Where every function is in `P`, nothing else can be called. -/
theorem Value.of_all (v : Value) (h : ∀ f, P f) : v.Of P := by
  cases v with
  | function f => exact h _
  | cls c => exact fun _ _ f _ => h f
  | object o => exact fun _ _ f _ => h f
  | _ => trivial

namespace Heap.Of

variable {h : Heap}

theorem addArray (hh : h.Of P) {t : Ty} {items : Array Value} (hi : ∀ v ∈ items, v.Of P) :
    (h.addArray t items).2.Of P := by
  refine ⟨fun id v hv => ?_, hh.fields⟩
  by_cases old : id < h.arrays.size
  · rw [Grown.cells_addArray_old h t items old] at hv
    exact hh.items id v hv
  · rcases Nat.eq_or_lt_of_le (Nat.not_lt.mp old) with rfl | beyond
    · rw [cells_addArray_new] at hv
      exact hi v hv
    · rw [cells_beyond _ (by simpa [Heap.addArray] using Nat.succ_le_of_lt beyond)] at hv
      exact absurd hv (Array.not_mem_empty v)

/-- Writing an element brings in no functions but those of the value. -/
theorem write (hh : h.Of P) {id : ArrayId} {k : Nat} {v : Value} (hv : v.Of P) :
    (h.write id k v).Of P := by
  refine ⟨fun other w hw => ?_, hh.fields⟩
  by_cases e : id = other
  · subst e
    rw [cells_write_self] at hw
    rcases Array.mem_or_eq_of_mem_setIfInBounds hw with hw | rfl
    · exact hh.items id w hw
    · exact hv
  · rw [cells_write_other _ e] at hw
    exact hh.items other w hw

/-- Writing a field brings in no functions but those of the value. -/
theorem setField (hh : h.Of P) {id : ObjectId} {x : String} {v : Value} (hv : v.Of P) :
    (h.setField id x v).Of P := by
  refine ⟨hh.items, fun other y w e => ?_⟩
  rcases field?_of_setField h e with ⟨-, rfl⟩ | e
  · exact hv
  · exact hh.fields other y w e

end Heap.Of

namespace Machine

theorem of_all (h : ∀ f, P f) (m : Machine) : m.Of P :=
  ⟨fun _ _ v _ => v.of_all h, fun _ v _ => v.of_all h, fun _ _ v _ => v.of_all h⟩

theorem of_start (settings : Settings) (stdin : String) : (start settings stdin).Of P where
  names i x v hb := by
    rw [show (start settings stdin).scopes.binding? i x = _ from
      Site.binding?_start settings stdin i x] at hb
    split at hb
    · obtain ⟨c, -, e⟩ := Option.map_eq_some_iff.mp hb
      cases e
      cases c with
      | inl l => exact Value.of_ofLiteral l
      | inr b => trivial
    · cases hb
  heap := by
    refine ⟨fun id v hv => ?_, nofun⟩
    rw [show (start settings stdin).heap.cells id = _ from
      Heap.cells_beyond _ (Nat.zero_le id)] at hv
    exact absurd hv (Array.not_mem_empty v)

namespace Of

variable {m : Machine}

/-- What is looked up under a name is a value of the machine. -/
theorem lookup (hm : m.Of P) {x : String} {v : Value} (e : m.lookup x = .ok v) : v.Of P := by
  obtain ⟨i, found⟩ := nearest?_of_lookup e
  exact hm.names i x v (Forest.binding?_of_nearestIn found).2

/-- Where one works does not matter. -/
theorem congr {m' : Machine} (hm : m.Of P) (hs : m'.scopes = m.scopes) (hh : m'.heap = m.heap) :
    m'.Of P := ⟨hs ▸ hm.names, hh ▸ hm.heap⟩

/-- What is read from an array is a value of the machine. -/
theorem element (hm : m.Of P) {id : ArrayId} {i : Int64} {v : Value}
    (e : m.heap.element id i = .ok v) : v.Of P := hm.heap.items id v (Heap.mem_of_element e)

end Of

namespace Follows

variable {m m' m₁ m₂ m₃ : Machine}

theorem refl (m : Machine) : m.Follows P m := ⟨.refl m, rfl, id⟩

theorem trans (h₁ : m₁.Follows P m₂) (h₂ : m₂.Follows P m₃) : m₁.Follows P m₃ :=
  ⟨h₁.toRestored.trans h₂.toRestored, h₂.settings.trans h₁.settings, h₂.of ∘ h₁.of⟩

/-- Where names hold what they held, there are no other functions. -/
theorem of_names (h : m.Restored m') (hs : m'.settings = m.settings) (hh : m.Of P → m'.heap.Of P)
    (hn : ∀ i x v, m'.scopes.binding? i x = some (some v) →
      m.scopes.binding? i x = some (some v) ∨ v.Of P) : m.Follows P m' where
  toRestored := h
  settings := hs
  of hm := ⟨fun i x v e => (hn i x v e).elim (hm.names i x v) id, hh hm⟩

/-- The heap alone is changed. -/
theorem ofHeap {heap : Heap} (h : m.heap.Grown heap) (hh : m.heap.Of P → heap.Of P) :
    m.Follows P { m with heap } :=
  of_names (.ofHeap h) rfl (fun hm => hh hm.heap) fun _ _ _ e => .inl e

/-- What is read or written makes no function. -/
theorem io (m : Machine) (input : Input) (output : String) :
    m.Follows P { m with input, output } :=
  of_names (m.restored_io input output) rfl (fun hm => hm.heap) fun _ _ _ e => .inl e

/-- A name is bound. -/
theorem bind (m : Machine) (i : FrameId) (x : String) {b : Option Value}
    (hb : ∀ v, b = some v → v.Of P) : m.Follows P (m.bind i x b) := by
  refine of_names (m.restored_bind i x b) rfl (fun hm => hm.heap) fun j y v e => ?_
  have e : (m.scopes.bind i x b).binding? j y = some (some v) := e
  by_cases here : i = j ∧ x = y
  · obtain ⟨rfl, rfl⟩ := here
    have there := Forest.lt_of_binding? e
    rw [Forest.next_bind] at there
    rw [Forest.binding?_bind_self _ there] at e
    exact .inr (hb v (Option.some.inj e))
  · left
    rw [← e]
    by_cases hi : i = j
    · exact (Forest.binding?_bind_name _ i j (fun hx => here ⟨hi, hx⟩) b).symm
    · exact (Forest.binding?_bind_frame _ hi x y b).symm

theorem openFrame (m : Machine) (h : Handle) : m.Follows P (m.openFrame h).2 :=
  of_names (m.restored_openFrame h) rfl (fun hm => hm.heap) fun i x _ e =>
    .inl ((Forest.binding?_push m.scopes h i x).symm.trans e)

theorem of_pushScope (hm : m.Of P) : m.pushScope.Of P :=
  ((openFrame m m.here).of hm).congr rfl rfl

/-- A frame is left again. -/
theorem leave (h : m.pushScope.Follows P m') : m.Follows P { m' with here := m.here } :=
  ⟨h.toRestored.leave, h.settings, fun hm => (h.of (of_pushScope hm)).congr rfl rfl⟩

theorem newId (m : Machine) : m.Follows P { m with heap := m.heap.newId.2 } :=
  ofHeap (.newId _) fun hh => ⟨hh.items, hh.fields⟩

/-- A method that is bound was one of the object's class before. -/
theorem bindMethod (m : Machine) {o : Object} (ho : o.cls.Of P) (method : Tier × FuncDecl) :
    m.Follows P (m.bindMethod o method).2 :=
  (openFrame m method.1.scope).trans ((bind _ _ "this" (by rintro v ⟨⟩; exact ho)).trans (newId _))

theorem superFrame (m : Machine) {c : Class} (hc : c.Of P) : m.Follows P (m.superFrame c).2 :=
  (openFrame m m.here).trans (bind _ _ "super" (by rintro v ⟨⟩; exact hc))

theorem newObject (m : Machine) (c : Class) : m.Follows P (m.newObject c).2 :=
  ofHeap (.newObject _) fun hh =>
    ⟨hh.items, fun id x v e => hh.fields id x v (by rw [← Heap.field?_newObject]; exact e)⟩

theorem newArray {t : Ty} {n : Nat} {id : ArrayId} {heap : Heap}
    (e : m.heap.newArray t n = .ok (id, heap)) : m.Follows P { m with heap } :=
  ofHeap (.newArray e) fun hh => by
    simp only [Heap.newArray] at e
    split at e <;> cases e
    exact hh.addArray fun v hv => (Array.mem_replicate.mp hv).2 ▸ Value.of_default t

theorem writeElement (m : Machine) (id : ArrayId) (k : Nat) {v : Value} (hv : v.Of P) :
    m.Follows P (m.writeElement id k v) := ofHeap (.write ..) fun hh => hh.write hv

theorem setField (m : Machine) (o : Object) (x : String) {v : Value} (hv : v.Of P) :
    m.Follows P (m.setField o x v) := ofHeap (.setField ..) fun hh => hh.setField hv

end Follows

end Machine

end Brace
