import Brace.Predefined
import Brace.Scope

/-!
# Scope — the frame of predefined names

A program starts in an open frame inside a frozen one, which has the predefined names. What these
stand for is read off one table, whatever a constant or a built-in function stands for.
-/

namespace Brace

/-- A constant or a built-in function, by its name. -/
def predefined? (x : String) : Option (Literal ⊕ Builtin) :=
  (Table.ofList (predefined .inl .inr)).get? x

theorem get?_predefined {α : Type} (constant : Literal → α) (builtin : Builtin → α) (x : String) :
    (Table.ofList (predefined constant builtin)).get? x =
      (predefined? x).map (Sum.elim constant builtin) := by
  rw [predefined?, ← Table.get?_ofList_map]
  simp only [predefined, List.map_append, List.map_map]
  rfl

namespace Forest

variable {α : Type} (bs : List (String × α))

theorem binding?_root (x : String) : (withFrozenRoot bs).1.binding? 0 x =
    ((Table.ofList bs).get? x).map some := Table.get?_ofList_map some bs x

theorem binding?_open (x : String) : (withFrozenRoot bs).1.binding? 1 x = none := rfl

/-- Only the outermost frame has names. -/
theorem binding?_withFrozenRoot (i : FrameId) (x : String) : (withFrozenRoot bs).1.binding? i x =
    if i = 0 then ((Table.ofList bs).get? x).map some else none := by
  match i with
  | 0     => exact binding?_root bs x
  | 1     => exact binding?_open bs x
  | i + 2 => simp [withFrozenRoot, binding?]

end Forest

end Brace
