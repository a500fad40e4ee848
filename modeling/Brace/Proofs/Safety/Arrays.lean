import Brace.Proofs.Heap.Text
import Brace.Proofs.Safety.Changes

/-!
# Safety — arrays in arrays

Arrays are shared, and what they hold may be written at any time. Where no type has `any` in it, an
array may only hold arrays of the type of its elements, and that type nests arrays one time less than
the array's own. The type that an array was made with never changes. So however arrays are written
into each other, no array contains itself, and every value has a text.

* `Site.Ok.depth_lt_of_contains`: what an array contains nests arrays fewer times.
* `Site.Ok.straight`: no array contains itself, and every value has a text.
-/

namespace Brace

variable {P : Plan} {s : Site}

/-- How many times the type nests arrays. -/
def Ty.depth : Ty → Nat
  | .array t => t.depth + 1
  | _        => 0

/-- What is fit for the run is there. -/
theorem Value.Ok.has {v : Value} (hv : v.Ok P s) : s.heap.Has v := by
  cases v with
  | array id => exact hv
  | _ => trivial

namespace Site.Ok

/-- All arrays are there that arrays contain, where types are known. -/
theorem closed (ok : s.Ok P) : s.heap.Closed := fun id v hv => (ok.items id v hv).1.has

variable (ok : s.Ok P) (settled : P.program.Settled)

include ok settled

/-- An array that is an element of another is of the type of its elements. -/
theorem element_of_holds {id inner : ArrayId} (hh : s.heap.Holds id inner) :
    (s.heap.cells id).element = .array (s.heap.cells inner).element := by
  -- An array that is not there would hold nothing.
  have there : id < s.heap.arrays.size := by
    by_contra beyond
    rw [Heap.Holds, Heap.cells_beyond _ (Nat.not_lt.mp beyond)] at hh
    exact Array.not_mem_empty _ hh
  have fits := (ok.items id _ hh).2 settled (ok.arrays settled id there)
  generalize (s.heap.cells id).element = t at fits
  cases fits with
  | array hi ht => rw [ht]

/-- An array has a deeper type than those that it contains, where types are known. -/
theorem depth_lt_of_contains {id inner : ArrayId} (hc : s.heap.Contains id inner) :
    (s.heap.cells inner).element.depth < (s.heap.cells id).element.depth := by
  have step {id inner : ArrayId} (hh : s.heap.Holds id inner) :
      (s.heap.cells inner).element.depth < (s.heap.cells id).element.depth := by
    rw [ok.element_of_holds settled hh]
    exact Nat.lt_succ_self _
  induction hc with
  | single hh => exact step hh
  | tail _ hh ih => exact Nat.lt_trans (step hh) ih

/-- No array contains itself, and every value has a text. -/
theorem straight : s.heap.Straight := .of_closed ok.closed fun _ hc =>
  Nat.lt_irrefl _ (ok.depth_lt_of_contains settled hc)

/-- Where types are known, each value has a text. -/
theorem text?_ne_none {v : Value} (hv : v.Ok P s) : s.heap.text? v ≠ none := by
  have found := (ok.straight settled).texts v hv.has
  intro e
  rw [e] at found
  cases found

end Site.Ok

end Brace
