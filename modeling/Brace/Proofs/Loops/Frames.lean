import Brace.Proofs.Loops.Matching
import Brace.Proofs.Safety.Changes
import Brace.Proofs.Scope.Chain

/-!
# Loops — forests alike

Of frames that go together, one has the names of the other, with values that are alike. Outside of them
are frames that go together too, but the second may have frames to spare in between (`Thins`). These have
no names, so every name is found alike in the two forests, and what is done through handles that lead to
frames alike leaves the forests alike.

* `Forest.Alike.nearest?`: where a name is found.
* `Forest.Alike.push`, `Forest.Alike.besides`: a frame for each of the two, and one for the second alone.
-/

namespace Brace

variable {w w₁ : Matching} {s s' : Forest Value}

/-! ### Chains of frames -/

/-- The first list is what the second comes to without the frames that are to spare. -/
inductive Thins (w : Matching) : List FrameId → List FrameId → Prop where
  | nil : Thins w [] []
  | keep {i j : FrameId} {is js : List FrameId} (h : w.pairs i j) (t : Thins w is js) :
      Thins w (i :: is) (j :: js)
  | skip {j : FrameId} {is js : List FrameId} (h : w.spare j) (t : Thins w is js) : Thins w is (j :: js)

namespace Thins

theorem later (le : w.Later w₁) {is js : List FrameId} (h : Thins w is js) : Thins w₁ is js := by
  induction h with
  | nil => exact .nil
  | keep h _ ih => exact .keep (le.pairs h) ih
  | skip h _ ih => exact .skip (le.spare h) ih

theorem paired {is js : List FrameId} (h : Thins w is js) : ∀ i ∈ is, ∃ j, w.pairs i j := by
  induction h with
  | nil => exact nofun
  | keep h _ ih => exact List.forall_mem_cons.mpr ⟨⟨_, h⟩, ih⟩
  | skip _ _ ih => exact ih

/-- Every frame of the second list is in the second machine. -/
theorem inside {n n' : FrameId} (hw : w.Between n n') {is js : List FrameId} (h : Thins w is js) :
    ∀ j ∈ js, j < n' := by
  induction h with
  | nil => exact nofun
  | keep h _ ih => exact List.forall_mem_cons.mpr ⟨hw.right h, ih⟩
  | skip h _ ih => exact List.forall_mem_cons.mpr ⟨hw.there h, ih⟩

/-- Nothing is to spare. -/
theorem same {n : FrameId} : ∀ {is : List FrameId}, (∀ i ∈ is, i < n) → Thins (.same n) is is
  | [], _      => .nil
  | _ :: _, h => .keep ⟨rfl, h _ (.head _)⟩ (same fun j hj => h j (.tail _ hj))

end Thins

/-! ### Forests -/

/-- The two forests are alike in the frames that go together. -/
structure Forest.Alike (w : Matching) (s s' : Forest Value) : Prop extends
    w.Between s.next s'.next where
  names  : ∀ {i j}, w.pairs i j → ∀ x,
    Option.Rel (Option.Rel (Value.Alike w)) (s.binding? i x) (s'.binding? j x)
  frozen : ∀ {i j}, w.pairs i j → s.isFrozen i = s'.isFrozen j
  outer  : ∀ {i j}, w.pairs i j → Thins w (s.outer i) (s'.outer j)
  empty  : ∀ {j}, w.spare j → ∀ x, s'.binding? j x = none

theorem Value.rel_later (le : w.Later w₁) {b b' : Option (Option Value)}
    (h : Option.Rel (Option.Rel (Value.Alike w)) b b') : Option.Rel (Option.Rel (Value.Alike w₁)) b b' :=
  rel_imp (fun _ _ => rel_imp fun _ _ hv => hv.later le) h

namespace Forest.Alike

variable (hs : s.Alike w s')

include hs

/-! ### Reading -/

theorem nearestIn {is js : List FrameId} (h : Thins w is js) (x : String) :
    Option.Rel (fun b b' => w.pairs b.1 b'.1 ∧ Option.Rel (Value.Alike w) b.2 b'.2)
      (s.nearestIn x is) (s'.nearestIn x js) := by
  induction h with
  | nil => exact .none
  | @keep i j is js h _ ih =>
      have names := hs.names h x
      rw [Forest.nearestIn, Forest.nearestIn]
      generalize s.binding? i x = b, s'.binding? j x = b' at names
      cases names with
      | none => exact ih
      | some hb => exact .some ⟨h, hb⟩
  | skip h _ ih =>
      -- A frame to spare binds nothing, so the search goes past it.
      rw [Forest.nearestIn, hs.empty h x]
      exact ih

section Scope

variable {k k' : Handle} (h : Thins w (s.chain k) (s'.chain k')) (x : String)

include h

/-- Where a name is found, and with what. -/
theorem nearest? : Option.Rel (fun b b' => w.pairs b.1 b'.1 ∧ Option.Rel (Value.Alike w) b.2 b'.2)
    (s.nearest? k x) (s'.nearest? k' x) := hs.nearestIn h x

theorem lookup : Agree (Value.Alike w) (s.lookup k x) (s'.lookup k' x) := by
  have found := hs.nearest? h x
  rw [Forest.lookup, Forest.lookup]
  generalize s.nearest? k x = b, s'.nearest? k' x = b' at found
  cases found with
  | none => exact .error _
  | @some b b' hb =>
      obtain ⟨i, v⟩ := b
      obtain ⟨j, v'⟩ := b'
      cases hb.2 with
      | none => exact .error _
      | some hv => exact .ok hv

theorem assignable : Agree w.pairs (s.assignable k x) (s'.assignable k' x) := by
  have found := hs.nearest? h x
  rw [Forest.assignable, Forest.assignable]
  generalize s.nearest? k x = b, s'.nearest? k' x = b' at found
  cases found with
  | none => exact .error _
  | @some b b' hb =>
      simp only [hs.frozen hb.1]
      split
      · exact .error _
      · exact .ok hb.1

end Scope

section Frame

variable {k k' : Handle} (h : w.pairs k.frame k'.frame)

include h

theorem chain : Thins w (s.chain k) (s'.chain k') := .keep h (hs.outer h)

theorem definable (x : String) : Agree w.pairs (s.definable k x) (s'.definable k' x) := by
  have names := hs.names h x
  rw [Forest.definable, Forest.definable, hs.frozen h]
  split
  · exact .error _
  · generalize s.binding? k.frame x = b, s'.binding? k'.frame x = b' at names
    cases names with
    | none => exact .ok h
    | some hb =>
        cases hb with
        | none => exact .ok h
        | some _ => exact .error _

theorem declarable (x : String) : Agree w.pairs (s.declarable k x) (s'.declarable k' x) := by
  have names := hs.names h x
  rw [Forest.declarable, Forest.declarable]
  generalize s.binding? k.frame x = b, s'.binding? k'.frame x = b' at names
  cases names with
  | none => exact .ok h
  | some _ => exact .error _

end Frame

/-! ### Changes -/

theorem bind {i j : FrameId} (h : w.pairs i j) (x : String) {b b' : Option Value}
    (hb : Option.Rel (Value.Alike w) b b') : (s.bind i x b).Alike w (s'.bind j x b') where
  toBetween := by rw [next_bind, next_bind]; exact hs.toBetween
  names {k l} hkl y := by
    by_cases frame : i = k
    · subst frame
      cases hs.single h hkl
      by_cases name : x = y
      · subst name
        rw [binding?_bind_self s (hs.left h), binding?_bind_self s' (hs.right h)]
        exact .some hb
      · rw [binding?_bind_name s i i name, binding?_bind_name s' j j name]
        exact hs.names h y
    · -- Two frames of the first never go with one of the second.
      have other : j ≠ l := fun e => frame (hs.apart h (e ▸ hkl))
      rw [binding?_bind_frame s frame, binding?_bind_frame s' other]
      exact hs.names hkl y
  frozen hkl := by rw [isFrozen_bind, isFrozen_bind]; exact hs.frozen hkl
  outer hkl := by rw [outer_bind, outer_bind]; exact hs.outer hkl
  empty {l} hl y := by
    have other : j ≠ l := fun e => hs.alone hl (e ▸ h)
    rw [binding?_bind_frame s' other]
    exact hs.empty hl y

/-- A new frame for each of the two. -/
theorem push {k k' : Handle} (h : Thins w (s.chain k) (s'.chain k')) :
    (s.push k).1.Alike (w.pair s.next s'.next) (s'.push k').1 where
  toBetween := by rw [next_push, next_push]; exact hs.toBetween.pair
  names := by
    rintro i j (hij | ⟨rfl, rfl⟩) x
    · rw [binding?_push, binding?_push]
      exact Value.rel_later (w.later_pair ..) (hs.names hij x)
    · rw [binding?_push, binding?_push, binding?_beyond _ (Nat.le_refl _),
        binding?_beyond _ (Nat.le_refl _)]
      exact .none
  frozen := by
    rintro i j (hij | ⟨rfl, rfl⟩)
    · rw [isFrozen_push, isFrozen_push]
      exact hs.frozen hij
    · rw [isFrozen_push, isFrozen_push, isFrozen_beyond _ (Nat.le_refl _),
        isFrozen_beyond _ (Nat.le_refl _)]
  outer := by
    rintro i j (hij | ⟨rfl, rfl⟩)
    · rw [outer_push_old s k (hs.left hij), outer_push_old s' k' (hs.right hij)]
      exact (hs.outer hij).later (w.later_pair ..)
    · rw [outer_push, outer_push, if_pos rfl, if_pos rfl]
      exact h.later (w.later_pair ..)
  empty hj x := by rw [binding?_push]; exact hs.empty hj x

/-- A new frame for the second alone. -/
theorem besides (k' : Handle) : s.Alike (w.besides s'.next) (s'.push k').1 where
  toBetween := by rw [next_push]; exact hs.toBetween.besides
  names hij x := by
    rw [binding?_push]
    exact Value.rel_later (w.later_besides _) (hs.names hij x)
  frozen hij := by rw [isFrozen_push]; exact hs.frozen hij
  outer hij := by
    rw [outer_push_old s' k' (hs.right hij)]
    exact (hs.outer hij).later (w.later_besides _)
  empty := by
    rintro j (hj | rfl) x
    · rw [binding?_push]; exact hs.empty hj x
    · rw [binding?_push, binding?_beyond _ (Nat.le_refl _)]

end Forest.Alike

end Brace
