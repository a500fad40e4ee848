import Brace.Heap

/-!
# Heap — heaps only grow

Whatever is done with a heap, its arrays and objects stay: an array keeps the element type and the
length that it was made with, and an object the fields that it has got. New ones may come, and what
is stored in them may change.
-/

namespace Brace.Heap

/-- A new object has no fields. -/
theorem field?_newObject (h : Heap) (id : ObjectId) (x : String) :
    h.newObject.2.field? id x = h.field? id x := by
  simp only [field?, newObject, Array.getElem?_push]
  by_cases e : id = h.objects.size
  · subst e; simp
  · simp [e]

/-- The second heap has the arrays and objects of the first, and perhaps more. -/
structure Grown (h h' : Heap) : Prop where
  arrays  : h.arrays.size ≤ h'.arrays.size
  objects : h.objects.size ≤ h'.objects.size
  element : ∀ id, id < h.arrays.size → (h'.cells id).element = (h.cells id).element
  length  : ∀ id, id < h.arrays.size → h'.length id = h.length id
  fields  : ∀ id x, (h.field? id x).isSome = true → (h'.field? id x).isSome = true

namespace Grown

theorem refl (h : Heap) : h.Grown h :=
  ⟨Nat.le_refl _, Nat.le_refl _, fun _ _ => rfl, fun _ _ => rfl, fun _ _ => id⟩

theorem trans {h₁ h₂ h₃ : Heap} (h : h₁.Grown h₂) (h' : h₂.Grown h₃) : h₁.Grown h₃ where
  arrays := Nat.le_trans h.arrays h'.arrays
  objects := Nat.le_trans h.objects h'.objects
  element id hi := by
    rw [h'.element id (Nat.lt_of_lt_of_le hi h.arrays), h.element id hi]
  length id hi := by
    rw [h'.length id (Nat.lt_of_lt_of_le hi h.arrays), h.length id hi]
  fields id x := h'.fields id x ∘ h.fields id x

/-- A change that leaves the arrays alone and takes no object and no field away. -/
theorem of_arrays_eq {h h' : Heap} (ha : h'.arrays = h.arrays)
    (ho : h.objects.size ≤ h'.objects.size)
    (hf : ∀ id x, (h.field? id x).isSome = true → (h'.field? id x).isSome = true) :
    h.Grown h' := by
  have hc : ∀ id, h'.cells id = h.cells id := fun id => by simp only [cells, ha]
  refine ⟨Nat.le_of_eq (by rw [ha]), ho, fun id _ => ?_, fun id _ => ?_, hf⟩
  · rw [hc]
  · rw [Heap.length, Heap.length, hc]

theorem of_eq {h h' : Heap} (ha : h'.arrays = h.arrays) (ho : h'.objects = h.objects) :
    h.Grown h' :=
  of_arrays_eq ha (Nat.le_of_eq (by rw [ho])) fun id x hx => by rwa [field?, ho]

theorem newId (h : Heap) : h.Grown h.newId.2 := of_eq rfl rfl

/-- An object that has fields is there. -/
theorem lt_of_field? {h : Heap} {id : ObjectId} {x : String} (hx : (h.field? id x).isSome = true) :
    id < h.objects.size := by
  rw [field?] at hx
  split at hx
  · exact (Array.getElem?_eq_some_iff.mp ‹_›).1
  · cases hx

theorem newObject (h : Heap) : h.Grown h.newObject.2 :=
  of_arrays_eq rfl (by simp [Heap.newObject]) fun id x hx => by rwa [field?_newObject]

theorem setField (h : Heap) (id : ObjectId) (x : String) (v : Value) :
    h.Grown (h.setField id x v) := by
  refine of_arrays_eq rfl (by simp [Heap.setField]) fun other y hy => ?_
  by_cases e : x = y
  · subst e
    by_cases same : id = other
    · subst same
      rw [field?_setField_self h (lt_of_field? hy)]
      rfl
    · simpa [field?, Heap.setField, Array.getElem?_modify, same] using hy
  · rwa [field?_setField_name h id other e]

theorem write (h : Heap) (id : ArrayId) (k : Nat) (v : Value) : h.Grown (h.write id k v) where
  arrays := by simp [Heap.write]
  objects := Nat.le_refl _
  element other _ := by
    by_cases ne : id = other
    · subst ne; simp
    · rw [cells_write_other h ne]
  length other _ := length_write h id other k v
  fields _ _ := fun hx => hx

/-- An old array is found where it was when another has been added. -/
theorem cells_addArray_old (h : Heap) (t : Ty) (items : Array Value) {id : ArrayId}
    (hi : id < h.arrays.size) : (h.addArray t items).2.cells id = h.cells id := by
  simp [cells, addArray, Array.getElem?_push, Nat.ne_of_lt hi]

theorem addArray (h : Heap) (t : Ty) (items : Array Value) : h.Grown (h.addArray t items).2 where
  arrays := by simp [Heap.addArray]
  objects := Nat.le_refl _
  element id hi := by rw [cells_addArray_old h t items hi]
  length id hi := by rw [Heap.length, Heap.length, cells_addArray_old h t items hi]
  fields _ _ := fun hx => hx

theorem newArray {h h' : Heap} {t : Ty} {n : Nat} {id : ArrayId}
    (e : h.newArray t n = .ok (id, h')) : h.Grown h' := by
  simp only [Heap.newArray] at e
  split at e
  · cases e
  · cases e
    exact addArray h t _

end Grown

end Brace.Heap
