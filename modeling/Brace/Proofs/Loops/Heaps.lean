import Brace.Proofs.Loops.Matching
import Brace.Proofs.Safety.Changes

/-!
# Loops — heaps alike

Heaps alike have the same arrays and objects, whose elements and fields are alike. A value is shown the
same in both, and what is done to both leaves them alike.

* `Heap.Alike.text?`: alike values have the same text.
-/

namespace Brace

variable {α β : Type} {w w₁ : Matching} {h h' : Heap} {v v' : Value}

/-! ### Lists -/

/-- What stands at one place of two related lists. -/
theorem rel_getElem? {R : α → β → Prop} {as : List α} {bs : List β} (h : List.Forall₂ R as bs) :
    ∀ i : Nat, Option.Rel R as[i]? bs[i]? := by
  induction h with
  | nil => exact fun _ => .none
  | cons h _ ih =>
      intro i
      cases i with
      | zero => exact .some h
      | succ i => exact ih i

theorem forall₂_set {R : α → β → Prop} {as : List α} {bs : List β} (h : List.Forall₂ R as bs) {a : α}
    {b : β} (hab : R a b) : ∀ i, List.Forall₂ R (as.set i a) (bs.set i b) := by
  induction h with
  | nil => exact fun _ => .nil
  | cons h t ih =>
      intro i
      cases i with
      | zero => exact .cons hab t
      | succ i => exact .cons h (ih i)

/-! ### Heaps -/

namespace Heap

theorem cells_addArray (h : Heap) (t : Ty) (items : Array Value) (id : ArrayId) :
    (h.addArray t items).2.cells id = if id = h.arrays.size then ⟨t, items⟩ else h.cells id := by
  simp only [cells, addArray, Array.getElem?_push]
  by_cases new : id = h.arrays.size
  · rw [if_pos new, if_pos new]
  · rw [if_neg new, if_neg new]

theorem field?_setField (h : Heap) (id other : ObjectId) (x y : String) (v : Value) :
    (h.setField id x v).field? other y =
      if id = other ∧ x = y ∧ id < h.objects.size then some v else h.field? other y := by
  by_cases name : x = y
  · subst name
    by_cases object : id = other
    · subst object
      by_cases there : id < h.objects.size
      · rw [field?_setField_self h there, if_pos ⟨rfl, rfl, there⟩]
      · simp [field?, setField, there]
    · simp [field?, setField, Array.getElem?_modify, object]
  · rw [field?_setField_name h id other name, if_neg fun hxy => name hxy.2.1]

end Heap

structure Heap.Alike (w : Matching) (h h' : Heap) : Prop where
  arrays  : h.arrays.size = h'.arrays.size
  objects : h.objects.size = h'.objects.size
  fresh   : h.fresh = h'.fresh
  element : ∀ id, (h.cells id).element = (h'.cells id).element
  items   : ∀ id, List.Forall₂ (Value.Alike w) (h.cells id).items.toList (h'.cells id).items.toList
  fields  : ∀ id x, Option.Rel (Value.Alike w) (h.field? id x) (h'.field? id x)

namespace Heap.Alike

theorem later (le : w.Later w₁) (hh : h.Alike w h') : h.Alike w₁ h' where
  arrays := hh.arrays
  objects := hh.objects
  fresh := hh.fresh
  element := hh.element
  items id := (hh.items id).imp fun _ _ hv => hv.later le
  fields id x := rel_imp (fun _ _ hv => hv.later le) (hh.fields id x)

/-- Only an array is shown by what it holds. -/
theorem textWithin_of_ne (hv : v.Alike w v') (other : ∀ id, v ≠ .array id) (n : Nat) :
    h.textWithin n v = h'.textWithin n v' := by
  cases hv with
  | function hf =>
      have shown := congrArg (fun d : FuncDecl => some ("<function " ++ d.name ++ ">")) hf.decl
      cases n <;> exact shown
  | cls hc =>
      have shown := congrArg some hc.own.name
      cases n <;> exact shown
  | object ho =>
      have shown := congrArg (fun x => some (x ++ " instance")) ho.cls.own.name
      cases n <;> exact shown
  | array id => exact absurd rfl (other id)
  | _ => cases n <;> rfl

variable (hh : h.Alike w h')

include hh

/-! ### Reading -/

theorem length (id : ArrayId) : h.length id = h'.length id := (hh.items id).length_eq

theorem slot (id : ArrayId) (i : Int64) : h.slot id i = h'.slot id i := by
  rw [Heap.slot, Heap.slot, hh.length]

theorem at? (id : ArrayId) (i : Int64) :
    Agree (Value.Alike w) (Heap.element h id i) (Heap.element h' id i) := by
  rw [Heap.element, Heap.element, hh.slot]
  cases h'.slot id i with
  | error c => exact .error c
  | ok k =>
      have found := rel_getElem? (hh.items id) k
      simp only [Array.getD_eq_getD_getElem?, ← Array.getElem?_toList]
      generalize (h.cells id).items.toList[k]? = v, (h'.cells id).items.toList[k]? = v' at found
      cases found with
      | none => exact .ok .nil
      | some hv => exact .ok hv

theorem textWithin : ∀ (n : Nat) {v v' : Value}, v.Alike w v' →
    h.textWithin n v = h'.textWithin n v' := by
  intro n
  induction n with
  | zero =>
      intro v v' hv
      by_cases array : ∃ id, v = .array id
      · obtain ⟨id, rfl⟩ := array
        cases hv
        rfl
      · exact textWithin_of_ne hv (fun id e => array ⟨id, e⟩) 0
  | succ n ih =>
      intro v v' hv
      -- What an array holds is shown one level further down.
      by_cases array : ∃ id, v = .array id
      · obtain ⟨id, rfl⟩ := array
        cases hv
        have items := hh.items id
        rw [Heap.textWithin, Heap.textWithin]
        generalize (h.cells id).items.toList = vs, (h'.cells id).items.toList = vs' at items
        congr 1
        induction items with
        | nil => rfl
        | cons hv _ ihs => rw [List.mapM_cons, List.mapM_cons, ih hv, ihs]
      · exact textWithin_of_ne hv (fun id e => array ⟨id, e⟩) _

/-- Alike values have the same text. -/
theorem text? (hv : v.Alike w v') : h.text? v = h'.text? v' := by
  rw [Heap.text?, Heap.text?, hh.arrays]
  exact hh.textWithin _ hv

/-! ### Changes -/

theorem addArray (t : Ty) {items items' : Array Value}
    (hi : List.Forall₂ (Value.Alike w) items.toList items'.toList) :
    (h.addArray t items).1 = (h'.addArray t items').1 ∧
      (h.addArray t items).2.Alike w (h'.addArray t items').2 where
  left := hh.arrays
  right := {
    arrays := by simp only [Heap.addArray, Array.size_push, hh.arrays]
    objects := hh.objects
    fresh := hh.fresh
    element := fun id => by
      rw [cells_addArray, cells_addArray, hh.arrays]
      split
      · rfl
      · exact hh.element id
    items := fun id => by
      rw [cells_addArray, cells_addArray, hh.arrays]
      split
      · exact hi
      · exact hh.items id
    fields := hh.fields }

theorem newId : h.newId.1 = h'.newId.1 ∧ h.newId.2.Alike w h'.newId.2 where
  left := hh.fresh
  right := { hh with fresh := congrArg (· + 1) hh.fresh }

theorem newArray (t : Ty) (n : Nat) :
    Agree (fun r r' => r.1 = r'.1 ∧ r.2.Alike w r'.2) (h.newArray t n) (h'.newArray t n) := by
  rw [Heap.newArray, Heap.newArray]
  split
  · exact .error _
  · exact .ok (hh.addArray t (List.forall₂_same.mpr fun v hv => by
      rw [Array.toList_replicate] at hv
      exact List.eq_of_mem_replicate hv ▸ .default t))

theorem write (id : ArrayId) (k : Nat) (hv : v.Alike w v') :
    (h.write id k v).Alike w (h'.write id k v') where
  arrays := by simp only [Heap.write, Array.size_modify]; exact hh.arrays
  objects := hh.objects
  fresh := hh.fresh
  element other := by
    by_cases same : id = other
    · subst same
      rw [cells_write_self, cells_write_self]
      exact hh.element id
    · rw [cells_write_other h same, cells_write_other h' same]
      exact hh.element other
  items other := by
    by_cases same : id = other
    · subst same
      rw [cells_write_self, cells_write_self]
      simp only [Array.toList_setIfInBounds]
      exact forall₂_set (hh.items id) hv k
    · rw [cells_write_other h same, cells_write_other h' same]
      exact hh.items other
  fields := hh.fields

theorem newObject : h.newObject.1 = h'.newObject.1 ∧ h.newObject.2.Alike w h'.newObject.2 where
  left := hh.objects
  right := {
    arrays := hh.arrays
    objects := by simp only [Heap.newObject, Array.size_push, hh.objects]
    fresh := hh.fresh
    element := hh.element
    items := hh.items
    fields := fun id x => by rw [field?_newObject, field?_newObject]; exact hh.fields id x }

theorem setField (id : ObjectId) (x : String) (hv : v.Alike w v') :
    (h.setField id x v).Alike w (h'.setField id x v') where
  arrays := hh.arrays
  objects := by simp only [Heap.setField, Array.size_modify]; exact hh.objects
  fresh := hh.fresh
  element := hh.element
  items := hh.items
  fields other y := by
    rw [field?_setField, field?_setField, hh.objects]
    split
    · exact .some hv
    · exact hh.fields other y

end Heap.Alike

end Brace
