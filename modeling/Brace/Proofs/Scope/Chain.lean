import Brace.Proofs.Scope.Growth
import Brace.Proofs.Scope.Steps

/-!
# Scope — chains of frames

A frame is entered from another one, its parent, and is left for it again. So one gets from any frame,
by way of parents, to an outermost one (`Forest.Climbs`); and what the forest says of all the frames
outside one is what is passed on this way (`Forest.Linked`). A handle counts them, and whatever is done
with the handles of a family, they count right (`Family.Sound`).

* `Family.Sound.step`: one action keeps the frames linked and the counts right.
* `Family.Reached.sound`: so does any number of them.
* `depth_counts_frames`: the depth of a handle, and what it says about leaving the frame.
-/

namespace Brace

variable {α : Type}

namespace Forest

variable {s s' : Forest α}

/-- The frame just outside, if there is one. -/
def parent? (s : Forest α) (i : FrameId) : Option FrameId := (s.outer i).head?

/-- Going out from the frame one passes these frames, parent by parent, and then there are no more. -/
inductive Climbs (s : Forest α) : FrameId → List FrameId → Prop where
  | top {i : FrameId} (h : s.parent? i = none) : Climbs s i []
  | out {i p : FrameId} {is : List FrameId} (h : s.parent? i = some p) (t : Climbs s p is) :
      Climbs s i (p :: is)

/-- There is one way out. -/
theorem Climbs.unique {i : FrameId} {is js : List FrameId} (h : s.Climbs i is)
    (h' : s.Climbs i js) : is = js := by
  induction h generalizing js with
  | top h =>
      cases h' with
      | top => rfl
      | out h₁ _ => rw [h] at h₁; cases h₁
  | out h _ ih =>
      cases h' with
      | top h₁ => rw [h] at h₁; cases h₁
      | out h₁ t =>
          rw [h] at h₁
          cases h₁
          rw [ih t]

/-! ### Linked frames -/

/-- What is outside a frame is its parent, which is there, and what is outside that. -/
def Linked (s : Forest α) : Prop :=
  ∀ i p is, s.outer i = p :: is → p < s.next ∧ s.outer p = is

/-- Entering a frame tells where the new one is and leaves the others where they were. -/
theorem outer_push (s : Forest α) (k : Handle) (i : FrameId) :
    (s.push k).1.outer i = if i = s.next then s.chain k else s.outer i := by
  simp only [push, outer, next, Array.getElem?_push]
  by_cases h : i = s.frames.size <;> simp [h]

namespace Linked

theorem bare : (bare : Forest α × Handle).1.Linked
  | 0, _, _, h | _ + 1, _, _, h => by cases h

theorem withFrozenRoot (bs : List (String × α)) : (withFrozenRoot bs).1.Linked
  | 0, _, _, h     => by cases h
  | 1, _, _, h     => by cases h; exact ⟨Nat.zero_lt_two, rfl⟩
  | _ + 2, _, _, h => by cases h

/-- Binding a name moves no frame. -/
theorem bind (h : s.Linked) (i : FrameId) (x : String) (b : Option α) : (s.bind i x b).Linked := by
  intro j p is e
  rw [outer_bind] at e
  rw [next_bind, outer_bind]
  exact h j p is e

/-- A frame that is entered from one that is there is linked. -/
theorem push (h : s.Linked) {k : Handle} (hk : k.frame < s.next) : (s.push k).1.Linked := by
  intro i p is e
  -- Whatever is outside a frame has been there before.
  have old : p < s.next ∧ s.outer p = is := by
    rw [outer_push] at e
    split at e
    · cases e
      exact ⟨hk, rfl⟩
    · exact h i p is e
  rw [next_push, outer_push_old s k old.1]
  exact ⟨Nat.lt_succ_of_lt old.1, old.2⟩

/-- The frames outside a frame are those that are passed on the way out. -/
theorem climbs (h : s.Linked) (i : FrameId) : s.Climbs i (s.outer i) := by
  generalize e : s.outer i = is
  induction is generalizing i with
  | nil => exact .top (by rw [parent?, e]; rfl)
  | cons p is ih => exact .out (by rw [parent?, e]; rfl) (ih p (h i p is e).2)

/-- Every frame on the way out is there. -/
theorem lt_next (linked : s.Linked) {i j : FrameId} (hi : i < s.next)
    (hj : j ∈ i :: s.outer i) : j < s.next := by
  generalize e : s.outer i = is at hj
  induction is generalizing i with
  | nil =>
      cases List.mem_singleton.mp hj
      exact hi
  | cons p is ih =>
      obtain ⟨hp, out⟩ := linked i p is e
      cases hj with
      | head => exact hi
      | tail _ hj => exact ih hp out hj

end Linked

/-! ### Handles that count right -/

/-- The handle is on a frame that there is, and its depth is the number of frames outside. -/
structure Carries (s : Forest α) (k : Handle) : Prop where
  lt    : k.frame < s.next
  depth : k.depth = (s.outer k.frame).length

namespace Carries

variable {k : Handle}

/-- A handle counts right while the forest grows. -/
theorem grown (h : s.Carries k) (grown : s.Grown s') : s'.Carries k where
  lt := Nat.lt_of_lt_of_le h.lt grown.next
  depth := by rw [grown.outer _ h.lt, h.depth]

/-- Entering a frame counts one more. -/
theorem push (h : s.Carries k) : (s.push k).1.Carries (s.push k).2 where
  lt := by rw [next_push]; exact Nat.lt_succ_self s.next
  depth := by
    rw [outer_push_new, chain, List.length_cons, ← h.depth]
    rfl

/-- A handle that counts no frame cannot leave its own. -/
theorem pop_of_zero (h : s.Carries k) (zero : k.depth = 0) : s.pop k = .error .scopeUnderflow := by
  have none := List.eq_nil_of_length_eq_zero (h.depth.symm.trans zero)
  rw [pop, none]

/-- Any other goes to the parent, and counts one frame less. -/
theorem pop_of_pos (h : s.Carries k) (linked : s.Linked) (pos : k.depth ≠ 0) :
    ∃ k', s.pop k = .ok k' ∧ s.parent? k.frame = some k'.frame ∧ k'.depth + 1 = k.depth ∧
      s.Carries k' := by
  cases e : s.outer k.frame with
  | nil =>
      rw [h.depth, e] at pos
      exact absurd rfl pos
  | cons p is =>
      obtain ⟨lt, out⟩ := linked _ _ _ e
      have depth : k.depth = is.length + 1 := by rw [h.depth, e, List.length_cons]
      refine ⟨⟨p, k.depth - 1⟩, by rw [pop, e], by rw [parent?, e]; rfl, ?_, lt, ?_⟩
      · show k.depth - 1 + 1 = k.depth
        rw [depth, Nat.add_sub_cancel]
      · show k.depth - 1 = (s.outer p).length
        rw [out, depth, Nat.add_sub_cancel]

/-- Leaving a frame counts one less. -/
theorem pop (h : s.Carries k) (linked : s.Linked) {k' : Handle} (e : s.pop k = .ok k') :
    s.Carries k' := by
  by_cases zero : k.depth = 0
  · rw [h.pop_of_zero zero] at e
    cases e
  · obtain ⟨k₁, e₁, -, -, hk⟩ := h.pop_of_pos linked zero
    rw [e] at e₁
    cases e₁
    exact hk

end Carries

end Forest

namespace Family

open Forest

/-! ### Families that come about -/

/-- The frames of the family are linked, and its handles count right. -/
structure Sound (f : Family α) : Prop where
  linked  : f.forest.Linked
  carries : ∀ k ∈ f.handles, f.forest.Carries k

/-- How a family may begin. -/
inductive Begins : Forest α × Handle → Prop where
  | bare : Begins Forest.bare
  | withFrozenRoot (bs : List (String × α)) : Begins (Forest.withFrozenRoot bs)

/-- The family has come about by any number of actions. -/
def Reached (f : Family α) : Prop := ∃ start done, Begins start ∧ (single start).Does done f

namespace Sound

variable {f : Family α}

theorem single {start : Forest α × Handle} (h : Begins start) : (single start).Sound := by
  cases h with
  | bare =>
      refine ⟨.bare, fun k hk => ?_⟩
      cases Array.mem_singleton.mp hk
      exact ⟨Nat.zero_lt_one, rfl⟩
  | withFrozenRoot bs =>
      refine ⟨.withFrozenRoot bs, fun k hk => ?_⟩
      cases Array.mem_singleton.mp hk
      exact ⟨Nat.one_lt_two, rfl⟩

/-- The forest grows, and a handle is moved or added. -/
theorem moved (h : f.Sound) {s : Forest α} {hs : Array Handle} {k : Handle}
    (grown : f.forest.Grown s) (linked : s.Linked) (hk : s.Carries k)
    (others : ∀ k' ∈ hs, k' ∈ f.handles ∨ k' = k) : (⟨s, hs⟩ : Family α).Sound where
  linked := linked
  carries k' hk' := by
    rcases others k' hk' with old | rfl
    · exact (h.carries k' old).grown grown
    · exact hk

/-- A name is bound anew, in some frame. -/
theorem bind (h : f.Sound) (i : FrameId) (x : String) (b : Option α) :
    ({ f with forest := f.forest.bind i x b } : Family α).Sound where
  linked := h.linked.bind i x b
  carries k hk := (h.carries k hk).grown (.bind f.forest i x b)

theorem here (h : f.Sound) (i : Fin f.handles.size) : f.forest.Carries (f.handle i) :=
  h.carries _ (Array.getElem_mem i.2)

/-- **One action.**  It keeps the frames linked, and the handles count right. -/
theorem step (h : f.Sound) {i : Fin f.handles.size} {a : Action α} {r : Except Cause (Reply α)}
    {f' : Family α} (st : f.Step i a r f') : f'.Sound := by
  have hk := h.here i
  have entered := h.linked.push hk.lt
  have grown := Grown.push f.forest (f.handle i)
  cases st with
  | refused _ | lookup _ _ | readOnly _ _ => exact h
  | binds _ => exact h.bind _ _ _
  | push => exact h.moved grown entered hk.push fun _ hm => Array.mem_or_eq_of_mem_set hm
  | child => exact h.moved grown entered hk.push fun _ hm => Array.mem_push.mp hm
  | copy => exact h.moved (.refl f.forest) h.linked hk fun _ hm => Array.mem_push.mp hm
  | pop e =>
      exact h.moved (.refl f.forest) h.linked (hk.pop h.linked e) fun _ hm =>
        Array.mem_or_eq_of_mem_set hm

/-- Whatever is done to a family, its handles count right. -/
theorem does (h : f.Sound) {done : List (Handle × Action α)} {f' : Family α}
    (hd : f.Does done f') : f'.Sound := by
  induction hd with
  | nothing => exact h
  | more _ i a ih => exact ih.step (act_step _ i a)

end Sound

/-- Whatever has been done, the frames are linked and the handles count right. -/
theorem Reached.sound {f : Family α} (h : f.Reached) : f.Sound := by
  obtain ⟨start, done, begins, hd⟩ := h
  exact (Sound.single begins).does hd

theorem depth_eq (f : Family α) (i : Fin f.handles.size) : f.depth i = (f.handle i).depth := by
  simp [depth]

/-! ### Leaving a frame -/

section

variable {f : Family α} {i : Fin f.handles.size}

theorem act_pop_of_zero (h : f.Sound) (zero : (f.handle i).depth = 0) :
    f.act i .pop = (.error .scopeUnderflow, f) := by
  simp only [act, (h.here i).pop_of_zero zero]

theorem act_pop_of_pos (h : f.Sound) (pos : (f.handle i).depth ≠ 0) :
    ∃ k, f.act i .pop = (.ok .done, { f with handles := f.handles.set i k i.2 }) ∧
      f.forest.parent? (f.handle i).frame = some k.frame ∧ k.depth + 1 = (f.handle i).depth := by
  obtain ⟨k, e, up, less, -⟩ := (h.here i).pop_of_pos h.linked pos
  exact ⟨k, by simp only [act, e], up, less⟩

/-- A handle leaves the frame that it has entered, whatever has been done in between, and is where it
was before. -/
theorem act_pop_of_entered {s : Forest α} {k : Handle} (at_ : f.handle i = (s.push k).2)
    (grown : (s.push k).1.Grown f.forest) :
    f.act i .pop = (.ok .done, { f with handles := f.handles.set i k i.2 }) := by
  have back : f.forest.pop (f.handle i) = .ok k := by rw [at_, pop_of_grown grown]
  simp only [act, back]

theorem act_push_pop (hi : i.1 < (f.act i .push).2.handles.size) :
    (f.act i .push).2.act ⟨i, hi⟩ .pop =
      (.ok .done, { (f.act i .push).2 with handles := f.handles }) := by
  have entered : (f.act i .push).2.handles[i.1] = (f.forest.push (f.handle i)).2 := by simp [act]
  rw [act_pop_of_entered entered (.refl _)]
  simp [act]

end

end Family

open Family

/-- **Depth.**  Whatever has been done, the depth of a handle is the number of frames that lie outside
its own, up to the outermost one. So a frame cannot be left exactly where the depth is zero, and
wherever it can, the handle is on the parent then, and its depth is one less. To leave a frame that was
just entered leads back to where the handle was, and a handle that is added on a new frame is one frame
deeper than the one that it was added from. -/
theorem depth_counts_frames {f : Family α} (hf : f.Reached) (i : Fin f.handles.size) :
    (∃ is, f.forest.Climbs (f.handle i).frame is ∧ f.depth i = is.length) ∧
    ((f.act i .pop).1 = .error .scopeUnderflow ↔ f.depth i = 0) ∧
    (f.depth i ≠ 0 → ∃ k, f.act i .pop = (.ok .done, { f with handles := f.handles.set i k i.2 }) ∧
      f.forest.parent? (f.handle i).frame = some k.frame ∧ k.depth + 1 = f.depth i) ∧
    (∀ done f', Acts i f done f' → done.map Prod.fst = [.push, .pop] →
      (∀ a ∈ done, a.2 = .ok .done) ∧ f'.handles = f.handles) ∧
    (f.act i .child).1 = .ok (.handle f.handles.size) ∧
      (f.act i .child).2.depth f.handles.size = f.depth i + 1 := by
  rw [depth_eq]
  refine ⟨⟨_, hf.sound.linked.climbs _, (hf.sound.here i).depth⟩, ⟨fun refused => ?_, fun zero => ?_⟩,
    fun pos => act_pop_of_pos hf.sound pos, fun done f' hd pushPop => ?_, rfl, ?_⟩
  · by_cases zero : (f.handle i).depth = 0
    · exact zero
    · obtain ⟨k, e, -⟩ := act_pop_of_pos hf.sound zero
      rw [e] at refused
      cases refused
  · rw [act_pop_of_zero hf.sound zero]
  · obtain ⟨_, _, rfl, e, hd⟩ := hd.of_cons pushPop
    obtain ⟨hi, _, rfl, e, hd⟩ := hd.of_cons e
    cases List.map_eq_nil_iff.mp e
    cases hd
    rw [act_push_pop hi]
    exact ⟨by simp [act], rfl⟩
  · simp [act, depth, Forest.push]

/-- Two handles, of which the second was added on a new frame inside the first one's. -/
def Family.nested : Family Nat :=
  ((single (Forest.withFrozenRoot [("PI", 3)])).act ⟨0, Nat.zero_lt_one⟩ .child).2

theorem Family.reached_nested : nested.Reached :=
  ⟨_, _, .withFrozenRoot _, .more .nothing ⟨0, by decide⟩ .child⟩

theorem depth_counts_frames_nested : nested.Reached ∧ nested.forest.Climbs 2 [1, 0] ∧
    nested.depth 1 = 2 ∧ ∃ k, nested.act ⟨1, by decide⟩ .pop =
      (.ok .done, { nested with handles := nested.handles.set 1 k (by decide) }) ∧ k.depth + 1 = 2 := by
  have climbs : nested.forest.Climbs 2 [1, 0] := .out rfl (.out rfl (.top rfl))
  obtain ⟨⟨is, out, depth⟩, -, left, -⟩ :=
    depth_counts_frames reached_nested ⟨1, by decide⟩
  cases climbs.unique out
  have two : nested.depth 1 = 2 := depth
  obtain ⟨k, e, -, less⟩ := left (by rw [two]; decide)
  exact ⟨reached_nested, climbs, two, k, e, less.trans two⟩

end Brace
