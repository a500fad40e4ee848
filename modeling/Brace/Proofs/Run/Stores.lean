import Brace.Proofs.Run.Restore
import Brace.Proofs.Safety.Start

/-!
# Run — the values that a machine stores

A machine holds values under names, in arrays and in the fields of objects. Each change of a machine
stores at most one value that was not stored before, and whatever evaluation reads was stored. So what
is so of all values that are stored stays so, if it is so of the values that are added.
-/

namespace Brace

/-- The machine holds the value, under a name or on the heap. -/
inductive Machine.Stores (m : Machine) : Value → Prop where
  | name {i : FrameId} {x : String} {v : Value} (h : m.scopes.binding? i x = some (some v)) :
      m.Stores v
  | item {id : ArrayId} {v : Value} (h : v ∈ (m.heap.cells id).items) : m.Stores v
  | field {id : ObjectId} {x : String} {v : Value} (h : m.heap.field? id x = some v) : m.Stores v

namespace Machine.Stores

variable {m m' : Machine} {v w : Value}

/-- Where one works does not matter. -/
theorem congr (h : m'.Stores v) (hs : m'.scopes = m.scopes) (hh : m'.heap = m.heap) :
    m.Stores v := by
  cases h with
  | name h => exact .name (hs ▸ h)
  | item h => exact .item (hh ▸ h)
  | field h => exact .field (hh ▸ h)

/-! ### What is read -/

/-- What a name holds is stored. -/
theorem of_lookup {x : String} (e : m.lookup x = .ok v) : m.Stores v := by
  obtain ⟨i, found⟩ := nearest?_of_lookup e
  exact .name (Forest.binding?_of_nearestIn found).2

/-- What is an element of an array is stored. -/
theorem of_element {id : ArrayId} {i : Int64} (e : m.heap.element id i = .ok v) : m.Stores v :=
  .item (Heap.mem_of_element e)

/-! ### What changes add -/

/-- A machine that has run nothing stores constants and built-in functions. -/
theorem start {settings : Settings} {stdin : String} (h : (Machine.start settings stdin).Stores v) :
    v.isPlain = true ∨ ∃ b, v = .builtin b := by
  cases h with
  | @name i x v h =>
      rw [show (Machine.start settings stdin).scopes.binding? i x = _ from
        Site.binding?_start settings stdin i x] at h
      split at h
      · obtain ⟨c, -, e⟩ := Option.map_eq_some_iff.mp h
        cases e
        cases c with
        | inl l => exact .inl (by cases l <;> rfl)
        | inr b => exact .inr ⟨b, rfl⟩
      · cases h
  | @item id v h =>
      rw [show (Machine.start settings stdin).heap.cells id = _ from
        Heap.cells_beyond _ (Nat.zero_le id)] at h
      exact absurd h (Array.not_mem_empty v)
  | field h => cases h

/-- To bind a name stores nothing but what it is bound to. -/
theorem bind {i : FrameId} {x : String} {b : Option Value} (h : (m.bind i x b).Stores v) :
    m.Stores v ∨ b = some v := by
  cases h with
  | @name j y v h =>
      have h : (m.scopes.bind i x b).binding? j y = some (some v) := h
      by_cases here : i = j ∧ x = y
      · obtain ⟨rfl, rfl⟩ := here
        have there := Forest.lt_of_binding? h
        rw [Forest.next_bind] at there
        rw [Forest.binding?_bind_self _ there] at h
        exact .inr (Option.some.inj h)
      · refine .inl (.name (i := j) (x := y) ?_)
        rw [← h]
        by_cases hi : i = j
        · exact (Forest.binding?_bind_name _ i j (fun hx => here ⟨hi, hx⟩) b).symm
        · exact (Forest.binding?_bind_frame _ hi x y b).symm
  | item h => exact .inl (.item h)
  | field h => exact .inl (.field h)

/-- A new frame stores nothing. -/
theorem openFrame {k : Handle} (h : (m.openFrame k).2.Stores v) : m.Stores v := by
  cases h with
  | @name i x v h => exact .name ((Forest.binding?_push m.scopes k i x).symm.trans h)
  | item h => exact .item h
  | field h => exact .field h

theorem pushScope (h : m.pushScope.Stores v) : m.Stores v :=
  (h.congr (m := (m.openFrame m.here).2) rfl rfl).openFrame

theorem newId (h : Machine.Stores { m with heap := m.heap.newId.2 } v) : m.Stores v := by
  cases h with
  | name h => exact .name h
  | item h => exact .item h
  | field h => exact .field h

/-- To bind a method stores nothing but the object. -/
theorem bindMethod {o : Object} {method : Tier × FuncDecl} (h : (m.bindMethod o method).2.Stores v) :
    m.Stores v ∨ v = .object o := by
  rcases h.newId.bind with h | e
  · exact .inl h.openFrame
  · exact .inr (Option.some.inj e).symm

/-- The frame of a class stores nothing but its superclass. -/
theorem superFrame {c : Class} (h : (m.superFrame c).2.Stores v) : m.Stores v ∨ v = .cls c := by
  rcases h.bind with h | e
  · exact .inl h.openFrame
  · exact .inr (Option.some.inj e).symm

/-- A new object stores nothing. -/
theorem newObject {c : Class} (h : (m.newObject c).2.Stores v) : m.Stores v := by
  cases h with
  | name h => exact .name h
  | item h => exact .item h
  | @field id x v h => exact .field ((Heap.field?_newObject m.heap id x).symm.trans h)

/-- A new array stores nothing but the default of its elements. -/
theorem newArray {t : Ty} {n : Nat} {id : ArrayId} {heap : Heap}
    (e : m.heap.newArray t n = .ok (id, heap)) (h : Machine.Stores { m with heap } v) :
    m.Stores v ∨ v = .default t := by
  simp only [Heap.newArray] at e
  split at e <;> cases e
  cases h with
  | name h => exact .inl (.name h)
  | @item other v h =>
      let items : Array Value := Array.replicate n (.default t)
      have h : v ∈ ((m.heap.addArray t items).2.cells other).items := h
      by_cases old : other < m.heap.arrays.size
      · rw [Heap.Grown.cells_addArray_old m.heap t items old] at h
        exact .inl (.item h)
      · rcases Nat.eq_or_lt_of_le (Nat.not_lt.mp old) with rfl | beyond
        · rw [Heap.cells_addArray_new] at h
          exact .inr (Array.mem_replicate.mp h).2
        · rw [Heap.cells_beyond _ (by simpa [Heap.addArray] using Nat.succ_le_of_lt beyond)] at h
          exact absurd h (Array.not_mem_empty v)
  | field h => exact .inl (.field h)

/-- To set an element stores nothing but the value. -/
theorem writeElement {id : ArrayId} {k : Nat} (h : (m.writeElement id k w).Stores v) :
    m.Stores v ∨ v = w := by
  cases h with
  | name h => exact .inl (.name h)
  | @item other v h =>
      have h : v ∈ ((m.heap.write id k w).cells other).items := h
      by_cases e : id = other
      · subst e
        rw [Heap.cells_write_self] at h
        exact (Array.mem_or_eq_of_mem_setIfInBounds h).imp_left .item
      · rw [Heap.cells_write_other _ e] at h
        exact .inl (.item h)
  | field h => exact .inl (.field h)

/-- To set a field stores nothing but the value. -/
theorem setField {o : Object} {x : String} (h : (m.setField o x w).Stores v) :
    m.Stores v ∨ v = w := by
  cases h with
  | name h => exact .inl (.name h)
  | item h => exact .inl (.item h)
  | field h =>
      rcases Heap.field?_of_setField m.heap h with ⟨-, rfl⟩ | h
      · exact .inr rfl
      · exact .inl (.field h)

end Machine.Stores

end Brace
