import Brace.Heap

/-!
# Datum — values that can be written out

Values that can be written out: constants, built-in functions, and arrays of such values. Storing a
piece of data makes its arrays anew, so no array in it is shared.
-/

namespace Brace

inductive Datum where
  | literal (l : Literal)
  | builtin (b : Builtin)
  | array (element : Ty) (items : List Datum)
  deriving Inhabited

namespace Datum

mutual

/-- The value that a piece of data describes, and the heap that holds it. -/
def store : Datum → Heap → Value × Heap
  | .literal l, h           => (.ofLiteral l, h)
  | .builtin b, h           => (.builtin b, h)
  | .array element items, h =>
      let (values, h) := storeAll items h
      let (id, h) := h.addArray element values.toArray
      (.array id, h)

/-- The values that a list of data describes, stored from left to right. -/
def storeAll : List Datum → Heap → List Value × Heap
  | [], h      => ([], h)
  | d :: ds, h =>
      let (v, h) := d.store h
      let (vs, h) := storeAll ds h
      (v :: vs, h)

end

end Datum

end Brace
