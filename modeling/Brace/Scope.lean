import Brace.Error
import Brace.Table

/-!
# Scope — frames and the handles on them

A scope is a chain of frames, each binding some names. Frames live in a `Forest`, which only ever
grows; a `Handle` points at the innermost frame of a chain, and a frame knows the frames outside
it. Handles are values: a function keeps the handle of the scope that it was declared in, and two
handles that share a frame see the same bindings there.

A name is bound to a value or to a placeholder, which holds its place until the value is known. The
outermost frame may be frozen, so that nothing in it can be assigned to.

Everything that resolves a name goes by its `nearest?` binding. An operation that may be refused
comes in two parts, so that a refusal leaves the forest as it was: a check that names the frame to
write to or the cause of the refusal, and the write, which cannot fail.

* `pop_push`: leaving a frame that was just entered leads back to where one came from.
* `outer_bind`, `isFrozen_bind`: a write moves no frame and freezes none.
* `binding?_bind_self`, `binding?_bind_name`, `binding?_bind_frame`: a write changes one name of
  one frame.
* `outer_push_old`, `binding?_push_old`: a new frame leaves the old ones as they are.
-/

namespace Brace

/-- A frame, by its number in the forest. -/
abbrev FrameId := Nat

/-- One frame of bindings. -/
structure Frame (α : Type) where
  /-- The frames outside this one, innermost first. -/
  outer    : List FrameId
  frozen   : Bool
  /-- A name without a value is a placeholder. -/
  bindings : Table (Option α)
  deriving Inhabited

/-- All frames of a run, by number. -/
structure Forest (α : Type) where
  frames : Array (Frame α)
  deriving Inhabited

/-- The innermost frame of a scope, and how many frames lie above the outermost one. -/
structure Handle where
  frame : FrameId
  depth : Nat
  deriving DecidableEq, Repr, Inhabited

namespace Forest

variable {α : Type}

/-! ### Building and moving -/

/-- One open frame. -/
def bare : Forest α × Handle := (⟨#[⟨[], false, .empty⟩]⟩, ⟨0, 0⟩)

/-- A frozen outermost frame with these bindings, and an open frame inside it. -/
def withFrozenRoot (bindings : List (String × α)) : Forest α × Handle :=
  let root : Frame α := ⟨[], true, .ofList (bindings.map fun p => (p.1, some p.2))⟩
  (⟨#[root, ⟨[0], false, .empty⟩]⟩, ⟨1, 1⟩)

/-- The frames outside a frame, innermost first. -/
def outer (s : Forest α) (i : FrameId) : List FrameId :=
  match s.frames[i]? with
  | some f => f.outer
  | none   => []

/-- The frames of a scope, innermost first. -/
def chain (s : Forest α) (h : Handle) : List FrameId := h.frame :: s.outer h.frame

/-- The number that the next frame will have. -/
def next (s : Forest α) : FrameId := s.frames.size

/-- A new frame inside the one of the handle. -/
def push (s : Forest α) (h : Handle) : Forest α × Handle :=
  let frame : Frame α := ⟨s.chain h, false, .empty⟩
  let id := s.next
  (⟨s.frames.push frame⟩, ⟨id, h.depth + 1⟩)

/-- The frame just outside; the outermost frame has none. -/
def pop (s : Forest α) (h : Handle) : Except Cause Handle :=
  match s.outer h.frame with
  | []     => .error .scopeUnderflow
  | i :: _ => .ok ⟨i, h.depth - 1⟩

/-! ### Reading -/

/-- What a frame binds a name to. -/
def binding? (s : Forest α) (i : FrameId) (x : String) : Option (Option α) :=
  match s.frames[i]? with
  | some f => f.bindings.get? x
  | none   => none

def isFrozen (s : Forest α) (i : FrameId) : Bool :=
  match s.frames[i]? with
  | some f => f.frozen
  | none   => false

/-- The innermost of the frames that binds the name, with what it binds it to. -/
def nearestIn (s : Forest α) (x : String) : List FrameId → Option (FrameId × Option α)
  | []      => none
  | i :: is =>
      match s.binding? i x with
      | some b => some (i, b)
      | none   => nearestIn s x is

/-- The innermost frame of the scope that binds the name, with what it binds it to. -/
def nearest? (s : Forest α) (h : Handle) (x : String) : Option (FrameId × Option α) :=
  s.nearestIn x (s.chain h)

/-- The value of a name. A placeholder has none yet. -/
def lookup (s : Forest α) (h : Handle) (x : String) : Except Cause α :=
  match s.nearest? h x with
  | none             => .error (.undefinedSymbol x)
  | some (_, none)   => .error (.selfReferentialInit x)
  | some (_, some v) => .ok v

/-- The name resolves to a frozen frame. -/
def isReadOnly (s : Forest α) (h : Handle) (x : String) : Bool :=
  match s.nearest? h x with
  | none        => false
  | some (i, _) => s.isFrozen i

/-! ### Writing -/

/-- The forest with a name of one frame bound anew. -/
def bind (s : Forest α) (i : FrameId) (x : String) (b : Option α) : Forest α :=
  ⟨s.frames.modify i fun f => { f with bindings := f.bindings.put x b }⟩

/-- The frame in which an assignment to the name writes. -/
def assignable (s : Forest α) (h : Handle) (x : String) : Except Cause FrameId :=
  match s.nearest? h x with
  | none        => .error (.undefinedSymbol x)
  | some (i, _) => if s.isFrozen i then .error (.assignToConstant x) else .ok i

/-- The frame in which a definition of the name writes: the innermost one, unless it is frozen or
the name has a value there. -/
def definable (s : Forest α) (h : Handle) (x : String) : Except Cause FrameId :=
  if s.isFrozen h.frame then .error (.assignToConstant x)
  else match s.binding? h.frame x with
    | some (some _) => .error (.redefinition x)
    | _             => .ok h.frame

/-- The frame in which a placeholder for the name is put: the innermost one, unless the name is
bound there in whatever way. A frozen frame takes placeholders. -/
def declarable (s : Forest α) (h : Handle) (x : String) : Except Cause FrameId :=
  match s.binding? h.frame x with
  | some _ => .error (.redefinition x)
  | none   => .ok h.frame

/-- Gives a new value to the nearest binding of the name. -/
def assign (s : Forest α) (h : Handle) (x : String) (v : α) : Except Cause (Forest α) :=
  match s.assignable h x with
  | .error c => .error c
  | .ok i    => .ok (s.bind i x (some v))

/-- Binds the name in the innermost frame, where it may have a placeholder but no value yet. -/
def define (s : Forest α) (h : Handle) (x : String) (v : α) : Except Cause (Forest α) :=
  match s.definable h x with
  | .error c => .error c
  | .ok i    => .ok (s.bind i x (some v))

/-- Puts a placeholder for the name in the innermost frame. -/
def declare (s : Forest α) (h : Handle) (x : String) : Except Cause (Forest α) :=
  match s.declarable h x with
  | .error c => .error c
  | .ok i    => .ok (s.bind i x none)

/-! ### What the operations do to the frames -/

@[simp] theorem next_bind (s : Forest α) (i : FrameId) (x : String) (b : Option α) :
    (s.bind i x b).next = s.next := by simp [bind, next]

@[simp] theorem outer_bind (s : Forest α) (i j : FrameId) (x : String) (b : Option α) :
    (s.bind i x b).outer j = s.outer j := by
  simp only [outer, bind, Array.getElem?_modify]
  by_cases h : i = j
  · subst h; cases s.frames[i]? <;> simp
  · simp [h]

@[simp] theorem isFrozen_bind (s : Forest α) (i j : FrameId) (x : String) (b : Option α) :
    (s.bind i x b).isFrozen j = s.isFrozen j := by
  simp only [isFrozen, bind, Array.getElem?_modify]
  by_cases h : i = j
  · subst h; cases s.frames[i]? <;> simp
  · simp [h]

@[simp] theorem chain_bind (s : Forest α) (h : Handle) (i : FrameId) (x : String)
    (b : Option α) : (s.bind i x b).chain h = s.chain h := by simp [chain]

theorem binding?_bind_self (s : Forest α) {i : FrameId} (hi : i < s.next) (x : String)
    (b : Option α) : (s.bind i x b).binding? i x = some b := by
  have : s.frames[i]? = some s.frames[i] := Array.getElem?_eq_getElem hi
  simp [binding?, bind, Array.getElem?_modify, this]

theorem binding?_bind_name (s : Forest α) (i j : FrameId) {x y : String} (h : x ≠ y)
    (b : Option α) : (s.bind i x b).binding? j y = s.binding? j y := by
  simp only [binding?, bind, Array.getElem?_modify]
  by_cases hij : i = j
  · subst hij; cases s.frames[i]? <;> simp [Table.get?_put_other _ h]
  · simp [hij]

theorem binding?_bind_frame (s : Forest α) {i j : FrameId} (h : i ≠ j) (x y : String)
    (b : Option α) : (s.bind i x b).binding? j y = s.binding? j y := by
  simp [binding?, bind, Array.getElem?_modify, h]

@[simp] theorem next_push (s : Forest α) (h : Handle) : (s.push h).1.next = s.next + 1 := by
  simp [push, next]

theorem isFrozen_push_old (s : Forest α) (h : Handle) {i : FrameId} (hi : i < s.next) :
    (s.push h).1.isFrozen i = s.isFrozen i := by
  have hi' : i < s.frames.size := hi
  simp [push, isFrozen, Array.getElem?_push, Nat.ne_of_lt hi']

theorem binding?_push_old (s : Forest α) (h : Handle) {i : FrameId} (hi : i < s.next)
    (x : String) : (s.push h).1.binding? i x = s.binding? i x := by
  have hi' : i < s.frames.size := hi
  simp [push, binding?, Array.getElem?_push, Nat.ne_of_lt hi']

theorem outer_push_new (s : Forest α) (h : Handle) :
    (s.push h).1.outer (s.push h).2.frame = s.chain h := by
  simp [push, outer, next]

theorem outer_push_old (s : Forest α) (h : Handle) {i : FrameId} (hi : i < s.next) :
    (s.push h).1.outer i = s.outer i := by
  have hi' : i < s.frames.size := hi
  simp [push, outer, Array.getElem?_push, Nat.ne_of_lt hi']

/-- Leaving a frame that was just entered leads back to where one came from. -/
theorem pop_push (s : Forest α) (h : Handle) :
    (s.push h).1.pop (s.push h).2 = .ok h := by
  rw [pop, outer_push_new, chain]
  simp [push]

end Forest

end Brace
