import Brace.Proofs.Scope.Growth
import Brace.Proofs.Scope.Root
import Brace.Proofs.Scope.Steps

/-!
# Scope — what becomes of a frozen outermost frame

A family that starts with a frozen outermost frame may be used through any number of handles, and
each of them may leave frames until it stands at the outermost one, which all share. What is done
there is refused, with one exception: a placeholder for a name that the frame does not have is put
into it.

* `Family.act_root`: what one action does to the outermost frame.
* `root_binds`: what the outermost frame has when any number of actions have been done.
* `root_takes_placeholders`: it may have got a name that it was not built with.
-/

namespace Brace

variable {α : Type}

namespace Family

/-- The action puts a placeholder for the name where its handle is. -/
def Action.places (x : String) : Action α → Bool
  | .declare y => y == x
  | _          => false

/-- One of these actions was to put a placeholder for the name into the outermost frame. -/
def placedInRoot (x : String) (done : List (Handle × Action α)) : Bool :=
  done.any fun a => a.1.frame == 0 && a.2.places x

/-- What a frame has for a name when there was an attempt to put a placeholder for it. -/
def placed (attempted : Bool) (b : Option (Option α)) : Option (Option α) :=
  b.or (if attempted then some none else none)

/-- The outermost frame is frozen, with these names. -/
structure Rooted (root : String → Option (Option α)) (s : Forest α) : Prop where
  lt     : 0 < s.next
  outer  : s.outer 0 = []
  frozen : s.isFrozen 0 = true
  binds  : ∀ x, s.binding? 0 x = root x

namespace Rooted

variable {root root' : String → Option (Option α)} {s : Forest α}

theorem start (bs : List (String × α)) :
    Rooted (fun x => ((Table.ofList bs).get? x).map some) (Forest.withFrozenRoot bs).1 :=
  ⟨Nat.zero_lt_two, rfl, rfl, Forest.binding?_root bs⟩

theorem congr (h : Rooted root s) (e : ∀ x, root x = root' x) : Rooted root' s :=
  ⟨h.lt, h.outer, h.frozen, fun x => (h.binds x).trans (e x)⟩

theorem push (h : Rooted root s) (k : Handle) : Rooted root (s.push k).1 where
  lt := Nat.lt_of_lt_of_le h.lt (Forest.Grown.push s k).next
  outer := by rw [Forest.outer_push_old s k h.lt, h.outer]
  frozen := by rw [Forest.isFrozen_push_old s k h.lt, h.frozen]
  binds x := by rw [Forest.binding?_push_old s k h.lt, h.binds]

/-- A name of another frame is bound. -/
theorem bindOther (h : Rooted root s) {i : FrameId} (ne : i ≠ 0) (x : String) (b : Option α) :
    Rooted root (s.bind i x b) where
  lt := by rw [Forest.next_bind]; exact h.lt
  outer := by rw [Forest.outer_bind, h.outer]
  frozen := by rw [Forest.isFrozen_bind, h.frozen]
  binds y := by rw [Forest.binding?_bind_frame s ne, h.binds]

/-- What is assigned to is not in a frozen frame. -/
theorem ne_of_assignable (h : Rooted root s) {k : Handle} {x : String} {i : FrameId}
    (e : s.assignable k x = .ok i) : i ≠ 0 := by
  rintro rfl
  simp only [Forest.assignable] at e
  split at e
  · cases e
  · split at e
    · cases e
    · rename_i thawed
      cases e
      exact thawed h.frozen

/-- Nor is what is defined. -/
theorem ne_of_definable (h : Rooted root s) {k : Handle} {x : String} {i : FrameId}
    (e : s.definable k x = .ok i) : i ≠ 0 := by
  rintro rfl
  have here := Forest.eq_of_definable e
  rw [Forest.definable, ← here, h.frozen] at e
  cases e

/-- An attempt to put a placeholder is without effect where the name is bound already. -/
theorem refused (h : Rooted root s) {k : Handle} {x : String} {c : Cause}
    (e : s.declarable k x = .error c) :
    Rooted (fun y => placed (k.frame == 0 && x == y) (root y)) s := by
  refine h.congr fun y => ?_
  by_cases at0 : k.frame = 0 ∧ x = y
  · obtain ⟨at0, rfl⟩ := at0
    rw [Forest.declarable, at0, h.binds] at e
    cases b : root x with
    | none => rw [b] at e; cases e
    | some b => rfl
  · have elsewhere : (k.frame == 0 && x == y) = false := by simpa using at0
    simp [placed, elsewhere]

/-- A placeholder goes where the handle is. -/
theorem declare (h : Rooted root s) {k : Handle} {x : String} {i : FrameId}
    (e : s.declarable k x = .ok i) :
    Rooted (fun y => placed (k.frame == 0 && x == y) (root y)) (s.bind i x none) := by
  have here := Forest.eq_of_declarable e
  subst here
  by_cases at0 : k.frame = 0
  · have free : root x = none := by
      rw [Forest.declarable, at0, h.binds] at e
      cases b : root x with
      | none => rfl
      | some b => rw [b] at e; cases e
    rw [at0]
    refine ⟨?_, ?_, ?_, fun y => ?_⟩
    · rw [Forest.next_bind]
      exact h.lt
    · rw [Forest.outer_bind, h.outer]
    · rw [Forest.isFrozen_bind, h.frozen]
    · by_cases e : x = y
      · subst e
        rw [Forest.binding?_bind_self s h.lt]
        simp [placed, free]
      · rw [Forest.binding?_bind_name s _ _ e, h.binds]
        simp [placed, e]
  · refine (h.bindOther at0 x none).congr fun y => ?_
    simp [placed, at0]

end Rooted

/-- Two attempts are as good as one. -/
theorem placed_placed (a b : Bool) (c : Option (Option α)) :
    placed b (placed a c) = placed (a || b) c := by
  cases c <;> cases a <;> cases b <;> rfl

/-- **One action.** Whatever is done through whatever handle, the outermost frame keeps the names that
it has, and may get a placeholder if the handle is there. -/
theorem act_root {root : String → Option (Option α)} {f : Family α} (h : Rooted root f.forest)
    (i : Fin f.handles.size) (a : Action α) :
    Rooted (fun x => placed ((getElem f.handles i i.2).frame == 0 && a.places x) (root x))
      (f.act i a).2.forest := by
  -- Only a placeholder makes a difference.
  have same {a : Action α} {s : Forest α} (ha : ∀ x, a.places x = false) (hs : Rooted root s) :
      Rooted (fun x => placed ((getElem f.handles i i.2).frame == 0 && a.places x) (root x)) s :=
    hs.congr fun x => by simp [placed, ha x]
  have st := act_step f i a
  generalize (f.act i a).1 = r, (f.act i a).2 = f' at st
  cases st with
  | lookup | readOnly | pop | copy => exact same (fun _ => rfl) h
  | push | child => exact same (fun _ => rfl) (h.push _)
  | refused refused =>
      cases refused with
      | declare e => exact h.refused e
      | _ => exact same (fun _ => rfl) h
  | binds binds =>
      cases binds with
      | define e => exact same (fun _ => rfl) (h.bindOther (h.ne_of_definable e) _ _)
      | declare e => exact h.declare e
      | assign e => exact same (fun _ => rfl) (h.bindOther (h.ne_of_assignable e) _ _)

theorem Does.rooted {root : String → Option (Option α)} {f f' : Family α}
    {done : List (Handle × Action α)} (hf : Rooted root f.forest) (h : f.Does done f') :
    Rooted (fun x => placed (placedInRoot x done) (root x)) f'.forest := by
  induction h with
  | nothing => exact hf.congr fun x => by cases root x <;> rfl
  | more _ i a ih =>
      refine (act_root ih i a).congr fun x => ?_
      rw [placed_placed, placedInRoot, placedInRoot, List.any_append]
      simp

/-- What a handle at the outermost frame finds. -/
theorem Rooted.lookup {root : String → Option (Option α)} {s : Forest α} (h : Rooted root s)
    {k : Handle} (at0 : k.frame = 0) (x : String) : s.lookup k x = match root x with
      | some (some v) => .ok v
      | some none     => .error (.selfReferentialInit x)
      | none          => .error (.undefinedSymbol x) := by
  rw [Forest.lookup, Forest.nearest?, Forest.chain, at0, h.outer, Forest.nearestIn, h.binds]
  cases root x with
  | none => rfl
  | some b => cases b <;> rfl

end Family

open Family

/-- **The outermost frame.**  Whatever is done through whatever handles, a frozen outermost frame stays
so and keeps every name that it was built with, with the value that the name had. It has no other
names, unless a placeholder for one was put there through a handle that had come to this frame; nothing
else adds, removes or rebinds a name. So what a name means there does not change either, apart from
names of such placeholders. -/
theorem root_binds (bs : List (String × α)) {done : List (Handle × Action α)} {f : Family α}
    (h : (single (Forest.withFrozenRoot bs)).Does done f) :
    f.forest.outer 0 = [] ∧ f.forest.isFrozen 0 = true ∧
    (∀ x v, (Table.ofList bs).get? x = some v → f.forest.binding? 0 x = some (some v) ∧
      ∀ k ∈ f.handles, k.frame = 0 → f.forest.lookup k x = .ok v) ∧
    ∀ x, (Table.ofList bs).get? x = none →
      if placedInRoot x done then
        f.forest.binding? 0 x = some none ∧
        ∀ k ∈ f.handles, k.frame = 0 → f.forest.lookup k x = .error (.selfReferentialInit x)
      else
        f.forest.binding? 0 x = none ∧
        ∀ k ∈ f.handles, k.frame = 0 → f.forest.lookup k x = .error (.undefinedSymbol x) := by
  have kept := h.rooted (Rooted.start bs)
  refine ⟨kept.outer, kept.frozen, fun x v e => ?_, fun x e => ?_⟩
  · have has : placed (placedInRoot x done) (((Table.ofList bs).get? x).map some) =
        some (some v) := by rw [e]; rfl
    refine ⟨(kept.binds x).trans has, fun k _ at0 => ?_⟩
    rw [kept.lookup at0, has]
  · have has : placed (placedInRoot x done) (((Table.ofList bs).get? x).map some) =
        if placedInRoot x done then some none else none := by rw [e]; rfl
    split
    · rename_i put
      rw [if_pos put] at has
      refine ⟨(kept.binds x).trans has, fun k _ at0 => ?_⟩
      rw [kept.lookup at0, has]
    · rename_i unput
      rw [if_neg unput] at has
      refine ⟨(kept.binds x).trans has, fun k _ at0 => ?_⟩
      rw [kept.lookup at0, has]

/-- One handle, which has left the frame that it was on for an outermost frame that has `PI`. -/
def Family.lowered : Family Nat :=
  ((single (Forest.withFrozenRoot [("PI", 3)])).act ⟨0, by decide⟩ .pop).2

/-- And then a placeholder for `x` was put. -/
def Family.marked : Family Nat := (lowered.act ⟨0, by decide⟩ (.declare "x")).2

theorem Family.does_lowered :
    (single (Forest.withFrozenRoot [("PI", 3)])).Does [(⟨1, 1⟩, .pop)] lowered :=
  .more .nothing ⟨0, by decide⟩ .pop

theorem Family.does_marked : (single (Forest.withFrozenRoot [("PI", 3)])).Does
    [(⟨1, 1⟩, .pop), (⟨0, 0⟩, .declare "x")] marked :=
  .more does_lowered ⟨0, by decide⟩ (.declare "x")

theorem Family.mem_marked : (⟨0, 0⟩ : Handle) ∈ marked.handles := by decide +kernel

theorem root_binds_marked :
    marked.forest.binding? 0 "PI" = some (some 3) ∧
    marked.forest.lookup ⟨0, 0⟩ "PI" = .ok 3 ∧
    marked.forest.lookup ⟨0, 0⟩ "x" = .error (.selfReferentialInit "x") ∧
    marked.forest.lookup ⟨0, 0⟩ "y" = .error (.undefinedSymbol "y") := by
  obtain ⟨-, -, kept, others⟩ := root_binds [("PI", 3)] does_marked
  obtain ⟨bound, found⟩ := kept "PI" 3 (by decide)
  have placed := others "x" (by decide)
  have unbound := others "y" (by decide)
  rw [if_pos (by decide)] at placed
  rw [if_neg (by decide)] at unbound
  exact ⟨bound, found _ mem_marked rfl, placed.2 _ mem_marked rfl, unbound.2 _ mem_marked rfl⟩

/-- **A frozen frame takes placeholders.**  A name that the outermost frame was not built with is
added to it, and what the handle there answers to the name is another failure than before. -/
theorem root_takes_placeholders :
    ∃ (f f' : Family Nat) (k : Handle) (done : List (Handle × Action Nat)),
      (single (Forest.withFrozenRoot [("PI", 3)])).Does done f ∧
      (single (Forest.withFrozenRoot [("PI", 3)])).Does (done ++ [(k, .declare "x")]) f' ∧
      k.frame = 0 ∧ k ∈ f'.handles ∧ f'.forest.isFrozen 0 = true ∧
      f.forest.binding? 0 "x" = none ∧ f'.forest.binding? 0 "x" = some none ∧
      f.forest.lookup k "x" = .error (.undefinedSymbol "x") ∧
      f'.forest.lookup k "x" = .error (.selfReferentialInit "x") :=
  ⟨lowered, marked, ⟨0, 0⟩, _, does_lowered, does_marked, rfl, mem_marked, by decide, by decide,
    by decide, by rfl, by rfl⟩

end Brace
