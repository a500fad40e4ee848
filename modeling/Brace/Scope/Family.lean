import Brace.Scope

/-!
# Scope — several handles on one forest

Several handles on one forest, used side by side: each action goes through one of them and may add
another. Moving a handle leaves the others where they are, while what is written through one is
seen through all that share the frame. Every family that a program can come to have arises from a
first handle by such actions.
-/

namespace Brace

/-- A forest and the handles that are in use on it. -/
structure Family (α : Type) where
  forest  : Forest α
  handles : Array Handle
  deriving Inhabited

namespace Family

variable {α : Type}

/-- What can be done through a handle. -/
inductive Action (α : Type) where
  | push
  | pop
  | define (x : String) (v : α)
  | declare (x : String)
  | assign (x : String) (v : α)
  | lookup (x : String)
  | readOnly (x : String)
  /-- Adds a handle on a new frame inside this one's. -/
  | child
  /-- Adds a handle on the same frame. -/
  | copy

/-- What an action answers when it is not refused. -/
inductive Reply (α : Type) where
  | done
  | value (v : α)
  | flag (b : Bool)
  /-- The number of a handle that was added. -/
  | handle (n : Nat)

/-- A family with one handle. -/
def single (start : Forest α × Handle) : Family α := ⟨start.1, #[start.2]⟩

/-- Replaces the forest after a write, or passes the refusal on and changes nothing. -/
private def written (f : Family α) : Except Cause (Forest α) → Except Cause (Reply α) × Family α
  | .error c => (.error c, f)
  | .ok s    => (.ok .done, { f with forest := s })

/-- One action through the handle of number `i`. A refused action changes nothing. -/
def act (f : Family α) (i : Fin f.handles.size) : Action α →
    Except Cause (Reply α) × Family α
  | .push =>
      let (s, h) := f.forest.push f.handles[i]
      (.ok .done, ⟨s, f.handles.set i h⟩)
  | .pop =>
      match f.forest.pop f.handles[i] with
      | .error c => (.error c, f)
      | .ok h    => (.ok .done, { f with handles := f.handles.set i h })
  | .define x v => f.written (f.forest.define f.handles[i] x v)
  | .declare x  => f.written (f.forest.declare f.handles[i] x)
  | .assign x v => f.written (f.forest.assign f.handles[i] x v)
  | .lookup x   => ((f.forest.lookup f.handles[i] x).map .value, f)
  | .readOnly x => (.ok (.flag (f.forest.isReadOnly f.handles[i] x)), f)
  | .child =>
      let (s, h) := f.forest.push f.handles[i]
      (.ok (.handle f.handles.size), ⟨s, f.handles.push h⟩)
  | .copy => (.ok (.handle f.handles.size), { f with handles := f.handles.push f.handles[i] })

/-- The handle of number `i`. -/
abbrev handle (f : Family α) (i : Fin f.handles.size) : Handle := f.handles[i]

/-- What has been done, each time with the handle as it was before. -/
inductive Does (f : Family α) : List (Handle × Action α) → Family α → Prop where
  | nothing : Does f [] f
  | more {done : List (Handle × Action α)} {f' : Family α} (h : Does f done f')
      (i : Fin f'.handles.size) (a : Action α) :
      Does f (done ++ [(getElem f'.handles i i.2, a)]) (f'.act i a).2

/-- One action after another, with the answers. -/
abbrev Done (α : Type) : Type := List (Action α × Except Cause (Reply α))

/-- What has been done through the handle of number `i` alone. -/
inductive Acts (i : Nat) : Family α → Done α → Family α → Prop where
  | nothing (f : Family α) : Acts i f [] f
  | more {f f' : Family α} {done : Done α}
      (hi : i < f.handles.size) (a : Action α) (t : Acts i (f.act ⟨i, hi⟩ a).2 done f') :
      Acts i f ((a, (f.act ⟨i, hi⟩ a).1) :: done) f'

/-- The depth that a handle gives. -/
def depth (f : Family α) (i : Nat) : Nat :=
  match f.handles[i]? with
  | some h => h.depth
  | none   => 0

end Family

end Brace
