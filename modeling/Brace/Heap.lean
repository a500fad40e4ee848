import Brace.Value.Cast

/-!
# Heap — arrays and objects

The contents of arrays and the fields of objects, by number. An array keeps the element type and
the length that it was made with; an object starts without fields and gains one when it is first
set. Nothing is ever taken out.

The text of a value needs the heap, since an array shows its elements. An array that contains
itself has no text: following it down never ends (`text?`).

* `cells_write_self`, `cells_write_other`: a write changes one place of one array.
* `length_write`: it changes the length of none.
-/

namespace Brace

/-- An array's element type and elements. -/
structure Cells where
  element : Ty
  items   : Array Value
  deriving Inhabited

structure Heap where
  arrays  : Array Cells
  objects : Array (Table Value)
  /-- The number for the next function or class. -/
  fresh   : Nat
  deriving Inhabited

namespace Heap

def empty : Heap := ⟨#[], #[], 0⟩

/-! ### Arrays -/

/-- The longest array that the heap has room for. -/
def maxLength : Nat := Nat.pow 2 58

/-- The heap with one more array, holding `items`. -/
def addArray (h : Heap) (element : Ty) (items : Array Value) : ArrayId × Heap :=
  let id := h.arrays.size
  (id, { h with arrays := h.arrays.push ⟨element, items⟩ })

/-- An array of defaults, if there is room for it. A length that no `int` holds is reported as the
greatest one. -/
def newArray (h : Heap) (element : Ty) (length : Nat) : Except Cause (ArrayId × Heap) :=
  if maxLength < length then .error (.allocationFailure (min length Decimal.maxInt))
  else .ok (h.addArray element (Array.replicate length (Value.default element)))

def cells (h : Heap) (id : ArrayId) : Cells :=
  match h.arrays[id]? with
  | some c => c
  | none   => ⟨.any, #[]⟩

def length (h : Heap) (id : ArrayId) : Nat := (h.cells id).items.size

/-- The place in the array that the index means: it counts from zero, and is within the length. -/
def slot (h : Heap) (id : ArrayId) (i : Int64) : Except Cause Nat :=
  let length := h.length id
  if 0 ≤ i.toInt ∧ i.toInt < length then .ok i.toInt.toNat
  else .error (.indexOutOfBounds i.toInt length)

/-- The element at an index. -/
def element (h : Heap) (id : ArrayId) (i : Int64) : Except Cause Value :=
  match h.slot id i with
  | .error c => .error c
  | .ok k    => .ok ((h.cells id).items.getD k .nil)

/-- The heap with one place of one array written. -/
def write (h : Heap) (id : ArrayId) (k : Nat) (v : Value) : Heap :=
  { h with arrays := h.arrays.modify id fun c => { c with items := c.items.setIfInBounds k v } }

/-- Sets the element at an index. -/
def setElement (h : Heap) (id : ArrayId) (i : Int64) (v : Value) : Except Cause Heap :=
  match h.slot id i with
  | .error c => .error c
  | .ok k    => .ok (h.write id k v)

@[simp] theorem cells_write_self (h : Heap) (id : ArrayId) (k : Nat) (v : Value) :
    (h.write id k v).cells id =
      { h.cells id with items := (h.cells id).items.setIfInBounds k v } := by
  simp only [cells, write, Array.getElem?_modify]
  cases h.arrays[id]? <;> simp

theorem cells_write_other (h : Heap) {id other : ArrayId} (ne : id ≠ other) (k : Nat)
    (v : Value) : (h.write id k v).cells other = h.cells other := by
  simp [cells, write, Array.getElem?_modify, ne]

/-- Writing changes the length of no array. -/
@[simp] theorem length_write (h : Heap) (id other : ArrayId) (k : Nat) (v : Value) :
    (h.write id k v).length other = h.length other := by
  by_cases ne : id = other
  · subst ne; simp [length]
  · simp [length, cells_write_other h ne]

/-! ### Objects -/

/-- The heap with one more object, without fields. -/
def newObject (h : Heap) : ObjectId × Heap :=
  let id := h.objects.size
  (id, { h with objects := h.objects.push .empty })

def field? (h : Heap) (id : ObjectId) (x : String) : Option Value :=
  match h.objects[id]? with
  | some fields => fields.get? x
  | none        => none

def setField (h : Heap) (id : ObjectId) (x : String) (v : Value) : Heap :=
  { h with objects := h.objects.modify id fun fields => fields.put x v }

theorem field?_setField_self (h : Heap) {id : ObjectId} (hi : id < h.objects.size) (x : String)
    (v : Value) : (h.setField id x v).field? id x = some v := by
  have : h.objects[id]? = some h.objects[id] := Array.getElem?_eq_getElem hi
  simp only [field?, setField, Array.getElem?_modify, this]
  simp

theorem field?_setField_name (h : Heap) (id other : ObjectId) {x y : String} (ne : x ≠ y)
    (v : Value) : (h.setField id x v).field? other y = h.field? other y := by
  simp only [field?, setField, Array.getElem?_modify]
  by_cases hi : id = other
  · subst hi; cases h.objects[id]? <;> simp [Table.get?_put_other _ ne]
  · simp [hi]

/-! ### Identities -/

/-- A number that no function or class has had. -/
def newId (h : Heap) : Nat × Heap :=
  let id := h.fresh
  (id, { h with fresh := id + 1 })

/-! ### Text -/

/-- The text of a value that has arrays at most `depth` deep. -/
def textWithin (h : Heap) : (depth : Nat) → Value → Option String
  | _, .nil        => some "nil"
  | _, .function f => some f.tag
  | _, .builtin b  => some b.tag
  | _, .cls c      => some c.name
  | _, .object o   => some (o.cls.name ++ " instance")
  | 0, .array _    => none
  | depth + 1, .array id =>
      ((h.cells id).items.toList.mapM (h.textWithin depth)).map fun texts =>
        "[" ++ ", ".intercalate texts ++ "]"
  | _, v           => v.plainText?

/-- The text of a value. Arrays deeper than there are arrays contain themselves, and have none. -/
def text? (h : Heap) (v : Value) : Option String := h.textWithin h.arrays.size v

/-- The text of a value for debugging, where text is quoted. -/
def debugText? (h : Heap) (v : Value) : Option String :=
  match v with
  | .str s => some (Text.quote s)
  | _      => h.text? v

end Heap

end Brace
