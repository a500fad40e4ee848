import Brace.Proofs.Scope.Chain

/-!
# Scope — the frame that a name belongs to

A name belongs to the first frame that has it on the way out (`Forest.Owns`). Looking a name up, asking
whether it can be assigned to and assigning to it are all about this frame. What is bound in a frame
makes a difference to the handles that see it: those that get there on the way out and meet the name
nowhere before (`Forest.Sees`).

* `Forest.nearest?_eq_some_iff`: what is found is what the first frame has that has the name.
* `Forest.bind_resets`: who notices that a name of a frame has been bound anew.
* `assign_follows_lookup`: looking up, assigning and asking agree.
-/

namespace Brace

variable {α : Type}

namespace Forest

variable {s s' : Forest α} {x : String} {i o : FrameId}

/-- Going out from the frame one gets to `o`, and none of the frames before has the name. -/
inductive Sees (s : Forest α) (x : String) (o : FrameId) : FrameId → Prop where
  | here : Sees s x o o
  | out {i p : FrameId} (h : s.binding? i x = none) (up : s.parent? i = some p)
      (t : Sees s x o p) : Sees s x o i

/-- The name belongs to `o`: no frame has it that is nearer, on the way out. -/
def Owns (s : Forest α) (x : String) (o i : FrameId) : Prop :=
  s.Sees x o i ∧ ∃ b, s.binding? o x = some b

/-- Neither the frame nor any on the way out has the name. -/
def Lacks (s : Forest α) (x : String) (i : FrameId) : Prop :=
  ∃ is, s.Climbs i is ∧ ∀ j ∈ i :: is, s.binding? j x = none

/-! ### What is found -/

theorem nearestIn_of_some {is : List FrameId} {b : Option α} (h : s.binding? i x = some b) :
    s.nearestIn x (i :: is) = some (i, b) := by rw [nearestIn, h]

theorem nearestIn_of_none {is : List FrameId} (h : s.binding? i x = none) :
    s.nearestIn x (i :: is) = s.nearestIn x is := by rw [nearestIn, h]

theorem Climbs.nearestIn_iff {is : List FrameId} (h : s.Climbs i is) {b : Option α} :
    s.nearestIn x (i :: is) = some (o, b) ↔ s.Sees x o i ∧ s.binding? o x = some b := by
  constructor
  · intro found
    induction h with
    | top h =>
        obtain ⟨hm, hb⟩ := binding?_of_nearestIn found
        cases List.mem_singleton.mp hm
        exact ⟨.here, hb⟩
    | @out i p is up _ ih =>
        cases e : s.binding? i x with
        | none =>
            rw [nearestIn_of_none e] at found
            obtain ⟨seen, hb⟩ := ih found
            exact ⟨.out e up seen, hb⟩
        | some b' =>
            rw [nearestIn_of_some e] at found
            cases found
            exact ⟨.here, e⟩
  · rintro ⟨seen, hb⟩
    induction h with
    | top h =>
        cases seen with
        | here => exact nearestIn_of_some hb
        | out _ up _ => rw [h] at up; cases up
    | out h _ ih =>
        cases seen with
        | here => exact nearestIn_of_some hb
        | out e up t =>
            rw [h] at up
            cases up
            rw [nearestIn_of_none e]
            exact ih t

theorem nearestIn_eq_none_iff : ∀ {is : List FrameId},
    s.nearestIn x is = none ↔ ∀ j ∈ is, s.binding? j x = none
  | []      => by simp [nearestIn]
  | i :: is => by
      rw [nearestIn, List.forall_mem_cons]
      cases e : s.binding? i x with
      | none => simpa using nearestIn_eq_none_iff
      | some b => simp

theorem nearest?_eq_some_iff (linked : s.Linked) {k : Handle} {b : Option α} :
    s.nearest? k x = some (o, b) ↔ s.Sees x o k.frame ∧ s.binding? o x = some b :=
  (linked.climbs k.frame).nearestIn_iff

theorem nearest?_eq_none_iff (linked : s.Linked) {k : Handle} :
    s.nearest? k x = none ↔ s.Lacks x k.frame := by
  rw [nearest?, chain, nearestIn_eq_none_iff]
  constructor
  · intro h
    exact ⟨_, linked.climbs k.frame, h⟩
  · rintro ⟨is, climbs, h⟩
    rwa [(linked.climbs k.frame).unique climbs]

theorem lacks_or_owns (linked : s.Linked) (k : Handle) (x : String) :
    s.Lacks x k.frame ∨ ∃ o, s.Owns x o k.frame := by
  cases e : s.nearest? k x with
  | none => exact .inl ((nearest?_eq_none_iff linked).mp e)
  | some p =>
      obtain ⟨seen, hb⟩ := (nearest?_eq_some_iff linked).mp e
      exact .inr ⟨p.1, seen, p.2, hb⟩

/-- What a name stands for that is bound so. -/
def meaning (x : String) : Option α → Except Cause α
  | some v => .ok v
  | none   => .error (.selfReferentialInit x)

theorem lookup_of_nearest? {k : Handle} {b : Option α} (h : s.nearest? k x = some (o, b)) :
    s.lookup k x = meaning x b := by
  rw [lookup, h]
  cases b <;> rfl

theorem of_lacks (linked : s.Linked) {k : Handle} (h : s.Lacks x k.frame) :
    s.lookup k x = .error (.undefinedSymbol x) ∧
    s.assignable k x = .error (.undefinedSymbol x) ∧ s.isReadOnly k x = false := by
  have e := (nearest?_eq_none_iff linked).mpr h
  simp only [lookup, assignable, isReadOnly, e, and_self]

theorem of_sees (linked : s.Linked) {k : Handle} {b : Option α} (h : s.Sees x o k.frame)
    (hb : s.binding? o x = some b) :
    s.lookup k x = meaning x b ∧ s.isReadOnly k x = s.isFrozen o ∧
    s.assignable k x = if s.isFrozen o then .error (.assignToConstant x) else .ok o := by
  have e := (nearest?_eq_some_iff linked).mpr ⟨h, hb⟩
  refine ⟨lookup_of_nearest? e, ?_, ?_⟩
  · simp only [isReadOnly, e]
  · simp only [assignable, e]

/-! ### Binding a name anew -/

/-- The name stands for something else in the second forest, for the handles that saw `o`. All other
names, and this one for all other handles, stand for what they stood for. -/
structure Resets (x : String) (o : FrameId) (r : Except Cause α) (s s' : Forest α) : Prop where
  seen   : ∀ k : Handle, s.Sees x o k.frame → s'.lookup k x = r
  unseen : ∀ k : Handle, ¬ s.Sees x o k.frame → s'.lookup k x = s.lookup k x
  others : ∀ k y, y ≠ x → s'.lookup k y = s.lookup k y

/-- A binding is met where the frame is seen. -/
theorem Sees.bind (h : s.Sees x o i) (b : Option α) : (s.bind o x b).Sees x o i := by
  induction h with
  | here => exact .here
  | @out i p h up _ ih =>
      by_cases e : i = o
      · rw [e]
        exact .here
      · refine .out ?_ (by rwa [parent?, outer_bind]) ih
        rwa [binding?_bind_frame s (Ne.symm e)]

/-- And it is not met elsewhere. -/
theorem Climbs.nearestIn_bind {is : List FrameId} (h : s.Climbs i is) (unseen : ¬ s.Sees x o i)
    (b : Option α) : (s.bind o x b).nearestIn x (i :: is) = s.nearestIn x (i :: is) := by
  induction h with
  | @top i h =>
      have ne : o ≠ i := fun e => unseen (e ▸ .here)
      exact nearestIn_congr fun j hj => by
        cases List.mem_singleton.mp hj
        exact binding?_bind_frame s ne x x b
  | @out i p is up _ ih =>
      have ne : o ≠ i := fun e => unseen (e ▸ .here)
      have same := binding?_bind_frame s ne x x b
      cases e : s.binding? i x with
      | some b' => rw [nearestIn_of_some (same.trans e), nearestIn_of_some e]
      | none =>
          rw [nearestIn_of_none (same.trans e), nearestIn_of_none e]
          exact ih fun seen => unseen (.out e up seen)

/-- Who notices that a name of a frame has been bound anew. -/
theorem bind_resets (linked : s.Linked) (ho : o < s.next) (x : String) (b : Option α) :
    s.Resets x o (meaning x b) (s.bind o x b) where
  seen k h := by
    refine lookup_of_nearest? ((nearest?_eq_some_iff (linked.bind o x b)).mpr ⟨h.bind b, ?_⟩)
    exact binding?_bind_self s ho x b
  unseen k h := by
    rw [lookup, lookup, nearest?, nearest?, chain_bind]
    rw [chain, (linked.climbs k.frame).nearestIn_bind h]
  others k y ne := by
    rw [lookup, lookup, nearest?, nearest?, chain_bind]
    rw [nearestIn_congr fun j _ => binding?_bind_name s o j ne.symm b]

end Forest

open Family Forest

/-- **Looking up and assigning.**  Whatever has been done: if no frame on the way out has the name, it
is undefined for looking up and for assigning alike, and is not read-only. If it belongs to a frame, it
stands for what this frame binds it to, and is read-only if the frame is frozen, when it cannot be
assigned to. Else it can; then it stands for the new value through every handle for which it belongs to
this frame, and whatever else is looked up stands for what it stood for. -/
theorem assign_follows_lookup {f : Family α} (hf : f.Reached) (i : Fin f.handles.size) (x : String) :
    (f.forest.Lacks x (f.handle i).frame ∨ ∃ o, f.forest.Owns x o (f.handle i).frame) ∧
    (f.forest.Lacks x (f.handle i).frame →
      (f.act i (.lookup x)).1 = .error (.undefinedSymbol x) ∧
      (∀ v, (f.act i (.assign x v)).1 = .error (.undefinedSymbol x)) ∧
      (f.act i (.readOnly x)).1 = .ok (.flag false)) ∧
    ∀ o, f.forest.Owns x o (f.handle i).frame →
      (∀ b, f.forest.binding? o x = some b →
        (f.act i (.lookup x)).1 = (meaning x b).map .value) ∧
      (f.act i (.readOnly x)).1 = .ok (.flag (f.forest.isFrozen o)) ∧
      (f.forest.isFrozen o = true →
        ∀ v, (f.act i (.assign x v)).1 = .error (.assignToConstant x)) ∧
      (f.forest.isFrozen o = false → ∀ v f', (f.act i (.assign x v)).2 = f' →
        (f.act i (.assign x v)).1 = .ok .done ∧ f'.handles = f.handles ∧
        (∀ k ∈ f.handles, f.forest.Owns x o k.frame → f'.forest.lookup k x = .ok v) ∧
        ∀ k ∈ f.handles, ∀ y, ¬ (y = x ∧ f.forest.Owns x o k.frame) →
          f'.forest.lookup k y = f.forest.lookup k y) := by
  have linked := hf.sound.linked
  refine ⟨lacks_or_owns linked _ x, fun lacks => ?_, fun o ⟨seen, b, hb⟩ => ?_⟩
  · obtain ⟨undefined, unassignable, open_⟩ := of_lacks linked lacks
    refine ⟨?_, fun v => ?_, ?_⟩
    · rw [act_of_refused (.lookup undefined)]
    · rw [act_of_refused (.assign unassignable)]
    · rw [act, open_]
  · obtain ⟨means, readOnly, assignable⟩ := of_sees linked seen hb
    refine ⟨fun b' hb' => ?_, ?_, fun frozen v => ?_, fun thawed v f' e => ?_⟩
    · rw [hb] at hb'
      cases hb'
      rw [act, means]
    · rw [act, readOnly]
    · rw [if_pos frozen] at assignable
      rw [act_of_refused (.assign assignable)]
    · rw [thawed, if_neg Bool.false_ne_true] at assignable
      rw [act_of_binds (.assign assignable)] at e
      cases e
      have resets := bind_resets linked (lt_of_binding? hb) x (some v)
      refine ⟨?_, rfl, fun k _ owns => resets.seen k owns.1, fun k _ y other => ?_⟩
      · rw [act_of_binds (.assign assignable)]
      · by_cases e : y = x
        · subst e
          exact resets.unseen k fun seen => other ⟨rfl, seen, b, hb⟩
        · exact resets.others k y e

/-- The first of the two handles is on a frame that has `x`. -/
def Family.named : Family Nat := (nested.act ⟨0, by decide⟩ (.define "x" 1)).2

theorem Family.reached_named : named.Reached :=
  ⟨_, _, .withFrozenRoot _, .more (.more .nothing ⟨0, by decide⟩ .child) ⟨0, by decide⟩
    (.define "x" 1)⟩

/-- The second handle assigns to `x`, which belongs to the frame of the first. -/
theorem assign_follows_lookup_outer : named.Reached ∧ named.forest.Owns "x" 1 2 ∧
    (named.act ⟨1, by decide⟩ (.lookup "y")).1 = .error (.undefinedSymbol "y") ∧
    (named.act ⟨1, by decide⟩ (.assign "PI" 4)).1 = .error (.assignToConstant "PI") ∧
    (named.act ⟨1, by decide⟩ (.assign "x" 5)).2.forest.lookup ⟨1, 1⟩ "x" = .ok 5 := by
  have lacks : named.forest.Lacks "y" 2 :=
    ⟨[1, 0], .out rfl (.out rfl (.top rfl)), by decide⟩
  have constant : named.forest.Owns "PI" 0 2 := ⟨.out rfl rfl (.out rfl rfl .here), some 3, rfl⟩
  have owns : named.forest.Owns "x" 1 2 := ⟨.out rfl rfl .here, some 1, rfl⟩
  have owned : named.forest.Owns "x" 1 1 := ⟨.here, some 1, rfl⟩
  obtain ⟨-, missing, -⟩ := assign_follows_lookup reached_named ⟨1, by decide⟩ "y"
  obtain ⟨-, -, frozen, -⟩ :=
    (assign_follows_lookup reached_named ⟨1, by decide⟩ "PI").2.2 0 constant
  obtain ⟨-, -, -, assigned⟩ :=
    (assign_follows_lookup reached_named ⟨1, by decide⟩ "x").2.2 1 owns
  obtain ⟨-, -, seen, -⟩ := assigned rfl 5 _ rfl
  have first : (⟨1, 1⟩ : Handle) ∈ named.handles := by decide +kernel
  exact ⟨reached_named, owns, (missing lacks).1, frozen rfl 4, seen _ first owned⟩

end Brace
