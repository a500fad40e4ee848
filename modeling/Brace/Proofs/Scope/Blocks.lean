import Brace.Proofs.Scope.Owner

/-!
# Scope — what is done in a block stays there

A new name is seen through the handles that get to its frame on the way out and meet the name nowhere
before. What is done through a handle between entering a frame and leaving it again is a block, and
blocks may be nested (`Family.Balanced`). Of what is done in a block, only assignments are seen by
those who were there before (`Family.Within`).

* `Family.Balanced.within`: what is done between two places of a block, by induction on its nesting.
* `scopes_isolate`: new names, and whole blocks.
-/

namespace Brace

variable {α : Type}

namespace Family

open Forest

/-- What the action binds in the frame of its handle: a name with its value, or a placeholder. -/
def Action.introduces : Action α → Option (String × Option α)
  | .define x v => some (x, some v)
  | .declare x  => some (x, none)
  | _           => none

/-- The action leaves its handle where it is. -/
def Action.stays : Action α → Bool
  | .push | .pop => false
  | _            => true

/-- A value was assigned to the name. -/
def Assigned (x : String) (done : Done α) : Prop := ∃ v, (.assign x v, .ok .done) ∈ done

theorem Assigned.of_sub {x : String} {done done' : Done α} (h : Assigned x done)
    (sub : done ⊆ done') : Assigned x done' := by
  obtain ⟨v, hv⟩ := h
  exact ⟨v, sub hv⟩

/-- Each frame that is entered is left again, and no other. -/
inductive Balanced : List (Action α) → Prop where
  | nil : Balanced []
  | stay {a : Action α} {as : List (Action α)} (ha : a.stays = true) (t : Balanced as) :
      Balanced (a :: as)
  | block {as bs : List (Action α)} (inner : Balanced as) (t : Balanced bs) :
      Balanced (.push :: as ++ .pop :: bs)

/-- A frame is entered, and left in the end; then there is the rest. -/
theorem Acts.of_block {i : Nat} {as bs : List (Action α)} {f f' : Family α} {done : Done α}
    (h : Acts i f done f') (e : done.map Prod.fst = .push :: as ++ .pop :: bs) :
    ∃ (hi : i < f.handles.size) (f₁ : Family α) (hi' : i < f₁.handles.size) (inner rest : Done α),
      done = (.push, .ok .done) :: inner ++ (.pop, (f₁.act ⟨i, hi'⟩ .pop).1) :: rest ∧
      inner.map Prod.fst = as ∧ Acts i (f.act ⟨i, hi⟩ .push).2 inner f₁ ∧
      rest.map Prod.fst = bs ∧ Acts i (f₁.act ⟨i, hi'⟩ .pop).2 rest f' := by
  obtain ⟨hi, _, rfl, e, t⟩ := h.of_cons e
  obtain ⟨f₁, inner, _, rfl, e₁, h₁, e, t⟩ := t.of_append e
  obtain ⟨hi', rest, rfl, e₂, h₂⟩ := t.of_cons e
  exact ⟨hi, f₁, hi', inner, rest, rfl, e₁, h₁, e₂, h₂⟩

/-! ### What those outside notice -/

/-- The handles are where they were, and there may be more of them. The frames with numbers below `n`
have the names that they had, and only those of `A` may have got other values. -/
structure Within (A : String → Prop) (n : FrameId) (f f' : Family α) : Prop where
  handles : ∀ (j : Nat) (k : Handle), f.handles[j]? = some k → f'.handles[j]? = some k
  grown   : f.forest.Grown f'.forest
  keeps   : f.forest.Keeps (fun _ => A) n f'.forest

namespace Within

variable {A : String → Prop} {n : FrameId} {f f₁ f₂ f' : Family α}

theorem refl (A : String → Prop) (n : FrameId) (f : Family α) : f.Within A n f :=
  ⟨fun _ _ h => h, .refl _, .refl _ n _⟩

theorem trans (hn : n ≤ f.forest.next) (h₁ : f.Within A n f₁) (h₂ : f₁.Within A n f₂) :
    f.Within A n f₂ where
  handles j k h := h₂.handles j k (h₁.handles j k h)
  grown := h₁.grown.trans h₂.grown
  keeps := h₁.keeps.trans h₁.grown hn h₂.keeps

/-- A handle is added, and perhaps a frame for it. -/
theorem added {s : Forest α} (k : Handle) (grown : f.forest.Grown s)
    (keeps : f.forest.Keeps (fun _ => A) n s) : f.Within A n ⟨s, f.handles.push k⟩ where
  handles j k' h := by
    obtain ⟨lt, rfl⟩ := Array.getElem?_eq_some_iff.mp h
    exact Array.getElem?_push_lt lt
  grown := grown
  keeps := keeps

/-- An action that leaves its handle where it is, in a frame that is not below. -/
theorem step {i : Fin f.handles.size} {a : Action α} {r : Except Cause (Reply α)}
    (st : f.Step i a r f') (stays : a.stays = true) (hn : n ≤ f.forest.next)
    (inside : n ≤ (f.handle i).frame) (hA : ∀ x v, a = .assign x v → r = .ok .done → A x) :
    f.Within A n f' := by
  cases st with
  | refused _ | lookup _ _ | readOnly _ _ => exact refl A n f
  | push | pop _ => cases stays
  | child => exact .added _ (.push ..) (.push hn _)
  | copy => exact .added _ (.refl _) (.refl _ n _)
  | binds h =>
      refine ⟨fun _ _ h => h, .bind .., ?_⟩
      cases h with
      | define e => exact .bind (eq_of_definable e ▸ inside) _ _ _
      | declare e => exact .bind (eq_of_declarable e ▸ inside) _ _ _
      | assign e => exact .assign e (hA _ _ rfl rfl) _

/-- A frame is entered and, after what else is done, left again: the handle is back. -/
theorem block {i : Nat} {hi : i < f.handles.size} (hn : n ≤ f.forest.next)
    (inner : (f.act ⟨i, hi⟩ .push).2.Within A n f₁) (hi' : i < f₁.handles.size) :
    (f₁.act ⟨i, hi'⟩ .pop).1 = .ok .done ∧ f.Within A n (f₁.act ⟨i, hi'⟩ .pop).2 := by
  have entered : f₁.handles[i] = (f.forest.push f.handles[i]).2 := by
    have there := inner.handles i (f.forest.push f.handles[i]).2 (by simp [act])
    exact (Array.getElem?_eq_some_iff.mp there).2
  have grown : (f.forest.push f.handles[i]).1.Grown f₁.forest := inner.grown
  rw [act_pop_of_entered entered grown]
  refine ⟨rfl, fun j k h => ?_, (Grown.push ..).trans grown, ?_⟩
  · by_cases e : i = j
    · subst e
      rw [(Array.getElem?_eq_some_iff.mp h).2.symm]
      exact Array.getElem?_set_self hi'
    · show (f₁.handles.set i f.handles[i])[j]? = some k
      rw [Array.getElem?_set_ne hi' e]
      exact inner.handles j k ((Array.getElem?_set_ne hi e).trans h)
  · exact (Keeps.push hn f.handles[i]).trans (Grown.push ..) hn inner.keeps

end Within

/-- **Between two places of a block.**  What is done through a handle that is not below leads it back
to where it was, and only assignments are noticed below. -/
theorem Balanced.within {A : String → Prop} {n : FrameId} {i : Nat} {as : List (Action α)}
    (h : Balanced as) : ∀ {f f' : Family α} {done : Done α} {k : Handle}, Acts i f done f' →
      done.map Prod.fst = as → f.handles[i]? = some k → n ≤ k.frame → n ≤ f.forest.next →
      (∀ x, Assigned x done → A x) → f.Within A n f' := by
  induction h with
  | nil =>
      intro f f' done k acts e _ _ _ _
      cases List.map_eq_nil_iff.mp e
      cases acts
      exact .refl A n f
  | @stay a as stays _ ih =>
      intro f f' done k acts e here inside hn hA
      obtain ⟨hi, done, rfl, e, rest⟩ := acts.of_cons e
      have at_ : f.handle ⟨i, hi⟩ = k := (Array.getElem?_eq_some_iff.mp here).2
      have once : f.Within A n (f.act ⟨i, hi⟩ a).2 :=
        .step (act_step f ⟨i, hi⟩ a) stays hn (at_ ▸ inside) fun x v assign done =>
          hA x ⟨v, by rw [← assign, ← done]; exact .head _⟩
      refine once.trans hn (ih rest e (once.handles i k here) inside ?_ fun x hx => hA x ?_)
      · exact Nat.le_trans hn once.grown.next
      · exact hx.of_sub (List.subset_cons_self _ _)
  | @block as bs _ _ ihInner ihRest =>
      intro f f' done k acts e here inside hn hA
      obtain ⟨hi, f₁, hi', inner, later, rfl, e₁, acts₁, e₂, acts₂⟩ := acts.of_block e
      -- In the frame that is entered, the handle is not below either.
      have grown := Grown.push f.forest f.handles[i]
      have within : (f.act ⟨i, hi⟩ .push).2.Within A n f₁ :=
        ihInner acts₁ e₁ (k := (f.forest.push f.handles[i]).2) (by simp [act]) hn
          (Nat.le_trans hn grown.next) fun x hx => hA x <| hx.of_sub fun _ h =>
            .tail _ (List.mem_append_left _ h)
      have whole := (Within.block hn within hi').2
      refine whole.trans hn (ihRest acts₂ e₂ (whole.handles i k here) inside ?_ fun x hx => ?_)
      · exact Nat.le_trans hn whole.grown.next
      · exact hA x <| hx.of_sub fun _ h => .tail _ (List.mem_append_right _ (.tail _ h))

end Family

open Family Forest

/-- What introduces a name binds it in the frame of its handle. -/
theorem Family.Step.introduces {f f' : Family α} {i : Fin f.handles.size} {a : Action α} {x : String}
    {b : Option α} {r : Reply α} (st : f.Step i a (.ok r) f') (ha : a.introduces = some (x, b)) :
    f' = { f with forest := f.forest.bind (f.handle i).frame x b } := by
  cases st with
  | lookup | readOnly | push | pop | child | copy => cases ha
  | binds h =>
      cases h with
      | define e => cases ha; rw [← eq_of_definable e]
      | declare e => cases ha; rw [← eq_of_declarable e]
      | assign => cases ha

/-- A name that was not assigned to stands for what it stood for, where there was a handle. -/
theorem Family.Within.lookup {A : String → Prop} {f f' : Family α} {k : Handle} {x : String}
    (h : f.Within A f.forest.next f') (linked : f.forest.Linked) (there : k.frame < f.forest.next)
    (hx : ¬ A x) : f'.forest.lookup k x = f.forest.lookup k x := by
  have same : f'.forest.nearest? k x = f.forest.nearest? k x := by
    rw [nearest?, nearest?, chain, chain, h.grown.outer _ there]
    exact nearestIn_congr fun j hj => h.keeps.others j (linked.lt_next there hj) x hx
  rw [Forest.lookup, Forest.lookup, same]

/-- **What is done in a block stays there.**  Whatever has been done before: a new name, with a value
or as a placeholder, changes what this name stands for only where the frame is seen that has it now,
and changes no other binding of any frame. And when a frame is entered through a handle and left again,
with any number of such blocks in between, the handle is back on its frame with its depth, as is every
other one; the frames there were have the same names; and whatever is looked up through a handle there
was stands for what it stood for, unless a value was assigned to the name in the meantime. -/
theorem scopes_isolate {f : Family α} (hf : f.Reached) (i : Fin f.handles.size) :
    (∀ a x b r, a.introduces = some (x, b) → (f.act i a).1 = .ok r →
      (f.act i a).2.handles = f.handles ∧
      f.forest.Resets x (f.handle i).frame (meaning x b) (f.act i a).2.forest ∧
      ∀ j y, (j, y) ≠ ((f.handle i).frame, x) →
        (f.act i a).2.forest.binding? j y = f.forest.binding? j y) ∧
    ∀ as done f', Balanced as → Acts i f done f' → done.map Prod.fst = .push :: as ++ [.pop] →
      done.getLast? = some (.pop, .ok .done) ∧
      (∀ (j : Nat) k, f.handles[j]? = some k → f'.handles[j]? = some k) ∧
      (∀ j, j < f.forest.next → f'.forest.outer j = f.forest.outer j ∧
        ∀ x, (f'.forest.binding? j x).isSome = (f.forest.binding? j x).isSome) ∧
      ∀ k ∈ f.handles, ∀ x, ¬ Assigned x done → f'.forest.lookup k x = f.forest.lookup k x := by
  have sound := hf.sound
  refine ⟨fun a x b r ha ok => ?_, fun as done f' balanced acts e => ?_⟩
  · have st := act_step f i a
    rw [ok] at st
    rw [st.introduces ha]
    refine ⟨rfl, bind_resets sound.linked (sound.here i).lt x b, fun j y ne => ?_⟩
    by_cases e : (f.handle i).frame = j
    · refine binding?_bind_name f.forest _ j (fun e' => ne ?_) b
      rw [e, e']
    · exact binding?_bind_frame f.forest e x y b
  · obtain ⟨hi, f₁, hi', inner, _, rfl, e₁, acts₁, e₂, acts₂⟩ := acts.of_block e
    cases List.map_eq_nil_iff.mp e₂
    cases acts₂
    have grown := Grown.push f.forest (f.handle i)
    have within : (f.act i .push).2.Within (fun x => Assigned x inner) f.forest.next f₁ :=
      balanced.within acts₁ e₁ (k := (f.forest.push (f.handle i)).2) (by simp [act])
        (Nat.le_refl _) grown.next fun _ hx => hx
    obtain ⟨left, whole⟩ := Within.block (Nat.le_refl _) within hi'
    refine ⟨by rw [left, List.getLast?_concat], whole.handles,
      fun j hj => ⟨whole.grown.outer j hj, whole.keeps.names j hj⟩, fun k hk x hx => ?_⟩
    refine whole.lookup sound.linked (sound.carries k hk).lt fun assigned => hx ?_
    exact assigned.of_sub fun _ h => .tail _ (List.mem_append_left _ h)

/-- What the second handle does in a block. -/
def Family.shadowing : List (Action Nat) :=
  [.define "x" 7, .push, .declare "PI", .pop, .assign "PI" 4]

/-- Outside the block, `x` stands for what it stood for; a new `y` is seen from further in. -/
theorem scopes_isolate_shadowed : named.Reached ∧ Balanced shadowing ∧
    (∃ done f', Acts 1 named done f' ∧ done.map Prod.fst = .push :: shadowing ++ [.pop] ∧
      done.getLast? = some (.pop, .ok .done) ∧ f'.handles[1]? = some ⟨2, 2⟩ ∧
      f'.forest.lookup ⟨2, 2⟩ "x" = named.forest.lookup ⟨2, 2⟩ "x") ∧
    (named.act ⟨0, by decide⟩ (.define "y" 2)).2.forest.lookup ⟨2, 2⟩ "y" = .ok 2 := by
  have inner : Balanced ([.declare "PI"] : List (Action Nat)) := .stay rfl .nil
  have balanced : Balanced shadowing := .stay rfl (inner.block (.stay rfl .nil))
  have second : (⟨2, 2⟩ : Handle) ∈ named.handles := by decide +kernel
  obtain ⟨done, f', acts, e⟩ :=
    exists_acts (.push :: shadowing ++ [.pop]) named (by decide : 1 < _)
  obtain ⟨left, back, -, same⟩ :=
    (scopes_isolate reached_named ⟨1, by decide⟩).2 _ _ _ balanced acts e
  obtain ⟨-, resets, -⟩ := (scopes_isolate reached_named ⟨0, by decide⟩).1
    (.define "y" 2) "y" (some 2) .done rfl rfl
  refine ⟨reached_named, balanced, ⟨done, f', acts, e, left, back 1 _ rfl, same _ second "x" ?_⟩,
    resets.seen ⟨2, 2⟩ (.out rfl rfl .here)⟩
  rintro ⟨v, hv⟩
  have among : (.assign "x" v : Action Nat) ∈ (.push :: shadowing ++ [.pop] : List (Action Nat)) :=
    e ▸ List.mem_map_of_mem hv
  simp [shadowing] at among

end Brace
