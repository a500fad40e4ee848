import Brace.Scope

/-!
# Scope — forests only grow

Whatever is done with a forest, its frames stay: none loses its place among the others and none is
frozen or thawed. New frames may come, and names may be bound.

What is done inside some frames may leave those outside as they are: they keep their names, and
only an assignment gives a name another value (`Keeps`).

* `pop_of_grown`: a frame that was entered can be left again after any growth, back to where it was
  entered from.
* `Keeps.assign`: an assignment gives a value to a name that there is already.
-/

namespace Brace.Forest

variable {α : Type}

/-- The second forest has the frames of the first, and perhaps more. -/
structure Grown (s s' : Forest α) : Prop where
  next   : s.next ≤ s'.next
  outer  : ∀ i, i < s.next → s'.outer i = s.outer i
  frozen : ∀ i, i < s.next → s'.isFrozen i = s.isFrozen i

namespace Grown

theorem refl (s : Forest α) : s.Grown s := ⟨Nat.le_refl _, fun _ _ => rfl, fun _ _ => rfl⟩

theorem trans {s₁ s₂ s₃ : Forest α} (h₁ : s₁.Grown s₂) (h₂ : s₂.Grown s₃) : s₁.Grown s₃ where
  next := Nat.le_trans h₁.next h₂.next
  outer i hi := by rw [h₂.outer i (Nat.lt_of_lt_of_le hi h₁.next), h₁.outer i hi]
  frozen i hi := by rw [h₂.frozen i (Nat.lt_of_lt_of_le hi h₁.next), h₁.frozen i hi]

theorem bind (s : Forest α) (i : FrameId) (x : String) (b : Option α) : s.Grown (s.bind i x b) where
  next := by simp
  outer := by simp
  frozen := by simp

theorem push (s : Forest α) (h : Handle) : s.Grown (s.push h).1 where
  next := by simp
  outer _ hi := outer_push_old s h hi
  frozen _ hi := isFrozen_push_old s h hi

end Grown

/-! ### Frames that keep their names -/

/-- The innermost of the frames that has the name is one of them. -/
theorem binding?_of_nearestIn {s : Forest α} {x : String} {i : FrameId} {b : Option α} :
    ∀ {is : List FrameId}, s.nearestIn x is = some (i, b) → i ∈ is ∧ s.binding? i x = some b
  | j :: is, h => by
      rw [nearestIn] at h
      split at h
      · cases h
        exact ⟨.head _, ‹_›⟩
      · obtain ⟨hi, hb⟩ := binding?_of_nearestIn h
        exact ⟨.tail _ hi, hb⟩

/-- A frame that binds a name is there. -/
theorem lt_of_binding? {s : Forest α} {i : FrameId} {x : String} {b : Option α}
    (h : s.binding? i x = some b) : i < s.next := by
  rw [binding?] at h
  split at h
  · exact (Array.getElem?_eq_some_iff.mp ‹_›).1
  · cases h

/-- In the scope of the handle, the name is found in this frame. -/
def Finds (s : Forest α) (h : Handle) (x : String) (i : FrameId) : Prop :=
  ∃ b, s.nearest? h x = some (i, b)

theorem finds_of_assignable {s : Forest α} {h : Handle} {x : String} {i : FrameId}
    (hi : s.assignable h x = .ok i) : s.Finds h x i := by
  rw [assignable] at hi
  split at hi
  · cases hi
  · split at hi <;> cases hi
    exact ⟨_, ‹_›⟩

/-- The frames with numbers below `n` have the names that they had. A name that had a value has one
still, and nothing is changed in a frozen frame. Only the names of frames that are in `A` may have
got other values. -/
structure Keeps (A : FrameId → String → Prop) (n : FrameId) (s s' : Forest α) : Prop where
  names  : ∀ i, i < n → ∀ x, (s'.binding? i x).isSome = (s.binding? i x).isSome
  filled : ∀ i, i < n → ∀ x v, s.binding? i x = some (some v) → ∃ v', s'.binding? i x = some (some v')
  frozen : ∀ i, i < n → s.isFrozen i = true → ∀ x, s'.binding? i x = s.binding? i x
  others : ∀ i, i < n → ∀ x, ¬ A i x → s'.binding? i x = s.binding? i x

namespace Keeps

variable {A B : FrameId → String → Prop} {n n' : FrameId} {s s' s₁ s₂ s₃ : Forest α}

/-- Nothing is changed below `n`. -/
theorem of_same (h : ∀ i, i < n → ∀ x, s'.binding? i x = s.binding? i x) : s.Keeps A n s' where
  names i hi x := congrArg Option.isSome (h i hi x)
  filled i hi x v e := ⟨v, (h i hi x).trans e⟩
  frozen i hi _ := h i hi
  others i hi x _ := h i hi x

theorem refl (A : FrameId → String → Prop) (n : FrameId) (s : Forest α) : s.Keeps A n s :=
  of_same fun _ _ _ => rfl

theorem trans (grown : s₁.Grown s₂) (hn : n ≤ s₁.next) (h₁ : s₁.Keeps A n s₂)
    (h₂ : s₂.Keeps A n s₃) : s₁.Keeps A n s₃ where
  names i hi x := (h₂.names i hi x).trans (h₁.names i hi x)
  filled i hi x v e := by
    obtain ⟨v', e'⟩ := h₁.filled i hi x v e
    exact h₂.filled i hi x v' e'
  frozen i hi ice x := by
    have ice' := (grown.frozen i (Nat.lt_of_lt_of_le hi hn)).trans ice
    exact (h₂.frozen i hi ice' x).trans (h₁.frozen i hi ice x)
  others i hi x hx := (h₂.others i hi x hx).trans (h₁.others i hi x hx)

theorem mono (le : n' ≤ n) (hA : ∀ i, i < n' → ∀ x, A i x → B i x) (h : s.Keeps A n s') :
    s.Keeps B n' s' where
  names i hi := h.names i (Nat.lt_of_lt_of_le hi le)
  filled i hi := h.filled i (Nat.lt_of_lt_of_le hi le)
  frozen i hi := h.frozen i (Nat.lt_of_lt_of_le hi le)
  others i hi x hx := h.others i (Nat.lt_of_lt_of_le hi le) x fun ha => hx (hA i hi x ha)

/-- A frame that is not below is bound in. -/
theorem bind {i : FrameId} (hi : n ≤ i) (s : Forest α) (x : String) (b : Option α) :
    s.Keeps A n (s.bind i x b) := of_same fun _ hj y =>
  binding?_bind_frame s (Nat.ne_of_gt (Nat.lt_of_lt_of_le hj hi)) x y b

theorem push (hn : n ≤ s.next) (h : Handle) : s.Keeps A n (s.push h).1 :=
  of_same fun _ hi x => binding?_push_old s h (Nat.lt_of_lt_of_le hi hn) x

/-- A name is assigned to. -/
theorem assign {h : Handle} {x : String} {i : FrameId} (hi : s.assignable h x = .ok i)
    (hx : A i x) (v : α) : s.Keeps A n (s.bind i x (some v)) := by
  obtain ⟨b, found⟩ := finds_of_assignable hi
  have hb := (binding?_of_nearestIn found).2
  have thawed : s.isFrozen i = false := by
    simp only [assignable, found] at hi
    split at hi
    · cases hi
    · exact Bool.eq_false_iff.mpr ‹_›
  -- Only this name of this frame is bound anew.
  have same {j : FrameId} {y : String} (ne : ¬(i = j ∧ x = y)) :
      (s.bind i x (some v)).binding? j y = s.binding? j y := by
    by_cases e : i = j
    · exact binding?_bind_name s i j (fun e' => ne ⟨e, e'⟩) _
    · exact binding?_bind_frame s e x y _
  have self := binding?_bind_self s (lt_of_binding? hb) x (some v)
  refine ⟨fun j _ y => ?_, fun j _ y w e => ?_, fun j _ ice y => ?_, fun j _ y hy => ?_⟩
  · by_cases e : i = j ∧ x = y
    · obtain ⟨rfl, rfl⟩ := e
      rw [self, hb]
      rfl
    · rw [same e]
  · by_cases e' : i = j ∧ x = y
    · obtain ⟨rfl, rfl⟩ := e'
      exact ⟨v, self⟩
    · exact ⟨w, (same e').trans e⟩
  · refine same ?_
    rintro ⟨rfl, -⟩
    rw [thawed] at ice
    cases ice
  · refine same ?_
    rintro ⟨rfl, rfl⟩
    exact hy hx

/-- What is found in an old frame later has been found there before. -/
theorem finds (h : s.Keeps A s.next s') (grown : s.Grown s') {handle : Handle} {x : String}
    {i : FrameId} (hi : i < s.next) (there : handle.frame < s.next) (found : s'.Finds handle x i) :
    s.Finds handle x i := by
  have before : ∀ {is : List FrameId} {b : Option α}, s'.nearestIn x is = some (i, b) →
      ∃ b', s.nearestIn x is = some (i, b') := by
    intro is
    induction is with
    | nil => nofun
    | cons j is ih =>
        intro b e
        rw [nearestIn] at e ⊢
        cases e' : s'.binding? j x with
        | some b' =>
            simp only [e', Option.some.injEq, Prod.mk.injEq] at e
            obtain ⟨rfl, rfl⟩ := e
            have named := h.names j hi x
            rw [e'] at named
            obtain ⟨b₀, e₀⟩ := Option.isSome_iff_exists.mp named.symm
            exact ⟨b₀, by rw [e₀]⟩
        | none =>
            -- A frame that is not there yet binds nothing.
            have unnamed : s.binding? j x = none := by
              cases e₀ : s.binding? j x with
              | none => rfl
              | some b₀ =>
                  have named := h.names j (lt_of_binding? e₀) x
                  rw [e', e₀] at named
                  cases named
            simp only [e'] at e
            simp only [unnamed]
            exact ih e
  obtain ⟨b, e⟩ := found
  rw [nearest?, chain, grown.outer _ there] at e
  exact before e

end Keeps

/-! ### Where names are found -/

theorem eq_of_definable {s : Forest α} {h : Handle} {x : String} {i : FrameId}
    (e : s.definable h x = .ok i) : i = h.frame := by
  simp only [definable] at e
  split at e
  · cases e
  · split at e <;> cases e
    rfl

theorem eq_of_declarable {s : Forest α} {h : Handle} {x : String} {i : FrameId}
    (e : s.declarable h x = .ok i) : i = h.frame := by
  simp only [declarable] at e
  split at e <;> cases e
  rfl

/-- What a name stands for is decided by what the frames bind it to. -/
theorem nearestIn_congr {s s' : Forest α} {x : String} : ∀ {is : List FrameId},
    (∀ i ∈ is, s'.binding? i x = s.binding? i x) → s'.nearestIn x is = s.nearestIn x is
  | [], _      => rfl
  | i :: is, h => by
      obtain ⟨hi, his⟩ := List.forall_mem_cons.mp h
      simp only [nearestIn, hi, nearestIn_congr his]

/-- Where frames have the same names, a name is found in the same frame. -/
theorem nearestIn_isSome {s s' : Forest α} {x : String} {i : FrameId} {b : Option α} :
    ∀ {is : List FrameId}, (∀ i ∈ is, (s'.binding? i x).isSome = (s.binding? i x).isSome) →
      s.nearestIn x is = some (i, b) → ∃ b', s'.nearestIn x is = some (i, b')
  | j :: is, same, h => by
      obtain ⟨hj, his⟩ := List.forall_mem_cons.mp same
      rw [nearestIn] at h ⊢
      cases e : s.binding? j x with
      | some b₀ =>
          simp only [e, Option.some.injEq, Prod.mk.injEq] at h
          rw [e] at hj
          obtain ⟨b', hb⟩ := Option.isSome_iff_exists.mp hj
          simp only [hb]
          exact ⟨b', by rw [h.1]⟩
      | none =>
          simp only [e] at h
          rw [e] at hj
          simp only [Option.isNone_iff_eq_none.mp (Option.isSome_eq_false_iff.mp hj)]
          exact nearestIn_isSome his h

/-- A frame that was entered can be left after any growth. -/
theorem pop_of_grown {s s' : Forest α} {h : Handle} (hs : (s.push h).1.Grown s') :
    s'.pop (s.push h).2 = .ok h := by
  have inner : (s.push h).2.frame < (s.push h).1.next := by simp [Forest.push, Forest.next]
  rw [pop, hs.outer _ inner, outer_push_new, chain]
  simp [Forest.push]

end Brace.Forest
