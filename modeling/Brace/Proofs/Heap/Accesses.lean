import Brace.Proofs.Heap.Growth

/-!
# Heap — arrays as maps

What is done with arrays is to make them, to get what they have at an index and to set it. A history lists
what has been done, with any arrays in any order, and what has come of it. In a history each array is a map
from the indexes below the length that it was made with: one gets what was set there last, or else the
default of the element type, and an index that is none is refused with the length.

* `Heap.Mirrors.access`: whatever is done next, an array goes on to have what has been set last.
* `Heap.accesses_agree`: whatever is done with a heap, the history is one of maps.
-/

namespace Brace

/-! ### Histories -/

/-- What is done with arrays. -/
inductive Access where
  /-- An array of so many defaults of a type is made. -/
  | make (element : Ty) (length : Nat)
  | get (id : ArrayId) (i : Int64)
  | set (id : ArrayId) (i : Int64) (v : Value)

/-- What an access gives. -/
abbrev Access.Answer : Access → Type
  | .make .. => ArrayId
  | .get ..  => Value
  | .set ..  => Unit

/-- What has been done, and what has come of it. -/
structure Event where
  what   : Access
  result : Except Cause what.Answer

/-- What has been set at an index of an array, if that has been done. -/
def Event.sets? (id : ArrayId) (i : Int64) : Event → Option Value
  | ⟨.set id' i' v, .ok ()⟩ => if id' = id ∧ i' = i then some v else none
  | _                       => none

/-- What comes first is what has been done first. -/
abbrev History := List Event

namespace History

/-- What has been set last at an index of an array. -/
def lastSet? (es : History) (id : ArrayId) (i : Int64) : Option Value :=
  es.reverse.findSome? (·.sets? id i)

theorem lastSet?_concat (es : History) (e : Event) (id : ArrayId) (i : Int64) :
    lastSet? (es ++ [e]) id i = (e.sets? id i).or (es.lastSet? id i) := by
  simp only [lastSet?, List.reverse_append, List.reverse_singleton, List.singleton_append,
    List.findSome?_cons]
  cases e.sets? id i <;> rfl

end History

/-- An array of this length has something at the index. -/
def IsIndex (length : Nat) (i : Int64) : Prop := 0 ≤ i.toInt ∧ i.toInt < length

instance (length : Nat) (i : Int64) : Decidable (IsIndex length i) :=
  inferInstanceAs (Decidable (0 ≤ i.toInt ∧ i.toInt < length))

/-- What has come of it is what it should be where an array of this element type and this length has been
made, and this is what has been done since: an index that is none is refused, one gets what has been set
there last or else the default, and no other array has the same number. -/
def Event.Agrees (id : ArrayId) (t : Ty) (n : Nat) (since : History) : Event → Prop
  | ⟨.make _ _, r⟩    => r ≠ .ok id
  | ⟨.get id' i, r⟩   => id' = id → r = if IsIndex n i
      then .ok ((since.lastSet? id i).getD (.default t)) else .error (.indexOutOfBounds i.toInt n)
  | ⟨.set id' i _, r⟩ => id' = id → r = if IsIndex n i
      then .ok () else .error (.indexOutOfBounds i.toInt n)

/-- All that has come of what has been done with arrays is what it should be for maps. -/
def History.OfMaps (es : History) : Prop :=
  ∀ before id t n since e after, es = before ++ ⟨.make t n, .ok id⟩ :: since ++ e :: after →
    e.Agrees id t n since

namespace Heap

/-! ### What is done with a heap -/

/-- What comes of it, and the heap afterwards. Where it fails, nothing has changed. -/
def access (h : Heap) : (a : Access) → Except Cause a.Answer × Heap
  | .make element length =>
      match h.newArray element length with
      | .ok (id, h') => (.ok id, h')
      | .error c     => (.error c, h)
  | .get id i => (h.element id i, h)
  | .set id i v =>
      match h.setElement id i v with
      | .ok h'   => (.ok (), h')
      | .error c => (.error c, h)

/-- What comes of one thing after another. -/
def accesses : Heap → List Access → History × Heap
  | h, []      => ([], h)
  | h, a :: as =>
      let rest := (h.access a).2.accesses as
      (⟨a, (h.access a).1⟩ :: rest.1, rest.2)

theorem accesses_append (h : Heap) (as bs : List Access) :
    h.accesses (as ++ bs) = ((h.accesses as).1 ++ ((h.accesses as).2.accesses bs).1,
      ((h.accesses as).2.accesses bs).2) := by
  induction as generalizing h with
  | nil => rfl
  | cons a as ih =>
      rw [List.cons_append, accesses, accesses, ih]
      rfl

/-- The beginning of a history is the history of a beginning. -/
theorem accesses_split {es es' : History} : ∀ {as : List Access} {h : Heap},
    (h.accesses as).1 = es ++ es' → ∃ bs cs, as = bs ++ cs ∧ (h.accesses bs).1 = es ∧
      ((h.accesses bs).2.accesses cs).1 = es' := by
  induction es with
  | nil => exact fun {as h} e => ⟨[], as, rfl, rfl, e⟩
  | cons e es ih =>
      intro as h same
      cases as with
      | nil => cases same
      | cons a as =>
          obtain ⟨first, rest⟩ := List.cons.inj same
          obtain ⟨bs, cs, rfl, rfl, later⟩ := ih rest
          exact ⟨a :: bs, cs, rfl, by rw [← first]; rfl, later⟩

theorem accesses_cons {e : Event} {es : History} {as : List Access} {h : Heap}
    (same : (h.accesses as).1 = e :: es) : ∃ a bs, as = a :: bs ∧ e = ⟨a, (h.access a).1⟩ ∧
      ((h.access a).2.accesses bs).1 = es := by
  cases as with
  | nil => cases same
  | cons a bs =>
      obtain ⟨first, rest⟩ := List.cons.inj same
      exact ⟨a, bs, rfl, first.symm, rest⟩

/-! ### What an array has -/

/-- An array is made where there is room for it, and gets the next number. -/
theorem access_make (h : Heap) (t : Ty) (n : Nat) : h.access (.make t n) = if maxLength < n
    then (.error (.allocationFailure (min n Decimal.maxInt)), h)
    else (.ok h.arrays.size, (h.addArray t (Array.replicate n (Value.default t))).2) := by
  by_cases large : maxLength < n
  · simp only [access, newArray, if_pos large]
  · simp only [access, newArray, if_neg large]
    rfl

theorem slot_eq (h : Heap) (id : ArrayId) (i : Int64) : h.slot id i =
    if IsIndex (h.length id) i then .ok i.toInt.toNat
    else .error (.indexOutOfBounds i.toInt (h.length id)) := rfl

theorem access_get (h : Heap) (id : ArrayId) (i : Int64) : h.access (.get id i) =
    (if IsIndex (h.length id) i then .ok ((h.cells id).items.getD i.toInt.toNat .nil)
      else .error (.indexOutOfBounds i.toInt (h.length id)), h) := by
  by_cases is : IsIndex (h.length id) i
  · simp only [access, element, slot_eq, if_pos is]
  · simp only [access, element, slot_eq, if_neg is]

theorem access_set (h : Heap) (id : ArrayId) (i : Int64) (v : Value) :
    h.access (.set id i v) = if IsIndex (h.length id) i
      then (.ok (), h.write id i.toInt.toNat v)
      else (.error (.indexOutOfBounds i.toInt (h.length id)), h) := by
  by_cases is : IsIndex (h.length id) i
  · simp only [access, setElement, slot_eq, if_pos is]
  · simp only [access, setElement, slot_eq, if_neg is]

/-- The array has the length that it was made with, and has at each index what has been set there last
since then, or else the default of its element type. -/
structure Mirrors (h : Heap) (id : ArrayId) (t : Ty) (n : Nat) (since : History) : Prop where
  there  : id < h.arrays.size
  length : h.length id = n
  has    : ∀ i : Int64, IsIndex n i → (h.cells id).items.getD i.toInt.toNat .nil =
    (since.lastSet? id i).getD (.default t)

variable {h : Heap} {id : ArrayId} {t : Ty} {n : Nat} {since : History}

/-- An array that has just been made. -/
theorem mirrors_made (made : (h.access (.make t n)).1 = .ok id) :
    (h.access (.make t n)).2.Mirrors id t n [] := by
  rw [access_make] at made ⊢
  split at made
  · cases made
  · rename_i room
    cases made
    rw [if_neg room]
    have new : (h.addArray t (Array.replicate n (Value.default t))).2.cells h.arrays.size =
        ⟨t, Array.replicate n (Value.default t)⟩ := by
      simp [cells, addArray]
    refine ⟨by simp [addArray], ?_, fun i is => ?_⟩
    · rw [length, new, Array.size_replicate]
    · obtain ⟨low, high⟩ := is
      have below : i.toInt.toNat < n := by omega
      rw [new, Array.getD_eq_getD_getElem?, Array.getElem?_replicate, if_pos below]
      rfl

/-- Indexes of one array that mean the same place are the same. -/
theorem eq_of_isIndex {i j : Int64} (hi : IsIndex n i) (hj : IsIndex n j)
    (e : i.toInt.toNat = j.toInt.toNat) : i = j := by
  obtain ⟨hi, -⟩ := hi
  obtain ⟨hj, -⟩ := hj
  exact Int64.toInt_inj.mp (by omega)

namespace Mirrors

/-- What is done next goes as it should. -/
theorem agrees (hm : h.Mirrors id t n since) (a : Access) :
    Event.Agrees id t n since ⟨a, (h.access a).1⟩ := by
  cases a with
  | make t' n' =>
      show (h.access (.make t' n')).1 ≠ .ok id
      rw [access_make]
      split
      · exact nofun
      · intro same
        exact absurd hm.there (by cases same; exact Nat.lt_irrefl _)
  | get id' i =>
      rintro rfl
      rw [access_get, hm.length]
      split
      · rename_i is
        rw [hm.has i is]
      · rfl
  | set id' i v =>
      rintro rfl
      rw [access_set, hm.length]
      split <;> rfl

/-- Nothing has been set in the array, and it is as it was. -/
theorem other {h' : Heap} {e : Event} (hm : h.Mirrors id t n since)
    (size : h.arrays.size ≤ h'.arrays.size) (same : h'.cells id = h.cells id)
    (none : ∀ i, e.sets? id i = none) : h'.Mirrors id t n (since ++ [e]) where
  there := Nat.lt_of_lt_of_le hm.there size
  length := by rw [Heap.length, same, ← Heap.length, hm.length]
  has i is := by rw [same, hm.has i is, History.lastSet?_concat, none, Option.none_or]

/-- The array has been set at an index. -/
theorem set (hm : h.Mirrors id t n since) {i : Int64} (hi : IsIndex n i) (v : Value) :
    (h.write id i.toInt.toNat v).Mirrors id t n (since ++ [⟨.set id i v, .ok ()⟩]) where
  there := Nat.lt_of_lt_of_le hm.there (Grown.write ..).arrays
  length := by rw [length_write, hm.length]
  has j hj := by
    have below : i.toInt.toNat < (h.cells id).items.size := by
      have size : (h.cells id).items.size = n := hm.length
      obtain ⟨low, high⟩ := hi
      omega
    rw [cells_write_self, History.lastSet?_concat, Event.sets?, Array.getD_eq_getD_getElem?,
      Array.getElem?_setIfInBounds]
    by_cases same : i = j
    · subst same
      rw [if_pos rfl, if_pos below, if_pos ⟨rfl, rfl⟩]
      rfl
    · have apart : i.toInt.toNat ≠ j.toInt.toNat := fun e => same (eq_of_isIndex hi hj e)
      rw [if_neg apart, if_neg fun both => same both.2, Option.none_or, ← hm.has j hj,
        Array.getD_eq_getD_getElem?]

/-- Whatever is done next, the array has what has been set last. -/
theorem access (hm : h.Mirrors id t n since) (a : Access) :
    (h.access a).2.Mirrors id t n (since ++ [⟨a, (h.access a).1⟩]) := by
  cases a with
  | make t' n' =>
      rw [access_make]
      split
      · exact hm.other (Nat.le_refl _) rfl fun _ => rfl
      · exact hm.other (Grown.addArray h t' _).arrays (Grown.cells_addArray_old h t' _ hm.there)
          fun _ => rfl
  | get id' i => exact hm.other (Nat.le_refl _) rfl fun _ => rfl
  | set id' i v =>
      rw [access_set]
      split
      · rename_i is
        by_cases this : id' = id
        · subst this
          exact hm.set (hm.length ▸ is) v
        · exact hm.other (Grown.write ..).arrays (cells_write_other h this ..) fun j =>
            if_neg fun both => this both.1
      · exact hm.other (Nat.le_refl _) rfl fun _ => rfl

/-- However much is done next. -/
theorem accesses (hm : h.Mirrors id t n since) (as : List Access) :
    (h.accesses as).2.Mirrors id t n (since ++ (h.accesses as).1) := by
  induction as generalizing h since with
  | nil =>
      rw [Heap.accesses, List.append_nil]
      exact hm
  | cons a as ih =>
      have rest := ih (hm.access a)
      rw [List.append_assoc] at rest
      exact rest

end Mirrors

/-- In the end an array that has been made has what has been set last since then. -/
theorem accesses_mirror {as : List Access} {before : History}
    (made : (h.accesses as).1 = before ++ ⟨.make t n, .ok id⟩ :: since) :
    (h.accesses as).2.Mirrors id t n since := by
  obtain ⟨bs, cs, rfl, -, later⟩ := accesses_split made
  obtain ⟨a, ds, rfl, e, rfl⟩ := accesses_cons later
  obtain ⟨what, result⟩ := Event.mk.inj e
  subst what
  rw [accesses_append]
  exact (mirrors_made (eq_of_heq result).symm).accesses ds

/-- Whatever is done with a heap, each array that is made behaves as a map. -/
theorem accesses_agree (h : Heap) (as : List Access) : (h.accesses as).1.OfMaps := by
  intro before id t n since e after same
  obtain ⟨bs, cs, rfl, past, next⟩ := accesses_split same
  obtain ⟨a, ds, rfl, rfl, -⟩ := accesses_cons next
  exact (accesses_mirror past).agrees a

/-! ### Heaps with the same arrays -/

theorem cells_congr {h h' : Heap} (e : h'.arrays = h.arrays) (id : ArrayId) :
    h'.cells id = h.cells id := by simp only [cells, e]

/-- What is done with arrays depends on the arrays alone. -/
theorem access_congr {h h' : Heap} (e : h'.arrays = h.arrays) (a : Access) :
    (h'.access a).1 = (h.access a).1 ∧ (h'.access a).2.arrays = (h.access a).2.arrays := by
  have length (id : ArrayId) : h'.length id = h.length id :=
    congrArg (·.items.size) (cells_congr e id)
  cases a with
  | make t n =>
      rw [access_make, access_make, addArray, addArray, e]
      split
      · exact ⟨rfl, e⟩
      · exact ⟨rfl, rfl⟩
  | get id i =>
      rw [access_get, access_get, length, cells_congr e]
      exact ⟨rfl, e⟩
  | set id i v =>
      rw [access_set, access_set, length, write, write, e]
      split
      · exact ⟨rfl, rfl⟩
      · exact ⟨rfl, e⟩

theorem Mirrors.congr {h' : Heap} (hm : h.Mirrors id t n since) (e : h'.arrays = h.arrays) :
    h'.Mirrors id t n since where
  there := e ▸ hm.there
  length := (congrArg (·.items.size) (cells_congr e id)).trans hm.length
  has i is := by rw [cells_congr e, hm.has i is]

end Heap

end Brace
