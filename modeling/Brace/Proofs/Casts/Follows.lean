import Brace.Proofs.Casts.Edits
import Brace.Proofs.Reports.Program
import Mathlib.Data.Fintype.EquivFin

/-!
# Casts — checking that follows other checking

Checking a program with casts left out goes side by side with checking the program, as long as nothing
is reported. Whether a cast is redundant shows only in what checking has given back at the end. So what
is said of two pieces of checking (`Follows`) is on the condition that the result of the first is such
as the whole will need it, and one thing after another says what the condition on the whole means for
the parts (`Follows.bind`). The second result is a function of the first.
-/

namespace Brace

variable {α : Type}

/-- There is a name that no frame has, besides another. -/
theorem Checker.exists_lacks (c : Checker) (y : String) : ∃ x, y ≠ x ∧ c.Lacks x := by
  let names := y :: c.scopes.frames.toList.flatMap fun frame => frame.bindings.entries.map (·.1)
  have : Infinite String := .of_injective String.ofList fun _ _ h => String.ofList_injective h
  obtain ⟨x, hx⟩ := Infinite.exists_notMem_finset names.toFinset
  rw [List.mem_toFinset, List.mem_cons, not_or] at hx
  refine ⟨x, Ne.symm hx.1, fun i => ?_⟩
  cases h : c.scopes.binding? i x with
  | none => rfl
  | some b =>
      rw [Forest.binding?] at h
      split at h
      · rename_i frame hf
        have member := List.mem_map_of_mem (f := (·.1)) (Table.mem_of_get? h)
        have inside := Array.mem_toList_iff.mpr (Array.mem_of_getElem? hf)
        exact absurd (List.mem_flatMap.mpr ⟨frame, inside, member⟩) hx.2
      · cases h

namespace Check

open Checker

/-- Where the first reports nothing and its result is in `P`, the second reports nothing either, ends
alike and gives what `F` makes of the result. -/
structure Follows (P : α → Prop) (u v : Check α) (F : α → α) : Prop where
  later   : ∀ c : Checker, c.Later (u c).2
  follows : ∀ c c' : Checker, c.Alike c' → (u c).2.errors = c.errors → P (u c).1 →
    (u c).2.Alike (v c').2 ∧ (v c').2.errors = c'.errors ∧ (v c').1 = F (u c).1

namespace Follows

variable {β : Type} {P : α → Prop} {R : β → Prop} {u v : Check α} {f g : α → Check β} {F : α → α}
  {G : β → β} {l : Check β}

theorem pure {a b : α} (h : P a → b = F a) : Follows P (Pure.pure a) (Pure.pure b) F :=
  ⟨fun c => .refl c, fun _ _ hc _ hp => ⟨hc, rfl, h hp⟩⟩

/-! ### One thing after another -/

/-- What goes on after a result in `P` need only follow there. Of every result, `K` is known. -/
theorem bindGood {K : α → Prop} (hu : Follows P u v F) (hk : Always u K)
    (hP : ∀ a, Always (f a) fun b => R b → P a)
    (hl : ∀ a, K a → ∀ c : Checker, c.Later (f a c).2)
    (hf : ∀ a, K a → P a → Follows R (f a) (g (F a)) G) : Follows R (u >>= f) (v >>= g) G where
  later c := (hu.later c).trans (hl _ (hk c) (u c).2)
  follows c c' hc e hr := by
    obtain ⟨e₁, e₂⟩ := (hu.later c).clean (hl _ (hk c) (u c).2) e
    have good : P (u c).1 := hP (u c).1 (u c).2 hr
    obtain ⟨alike, clean, same⟩ := hu.follows c c' hc e₁ good
    have then' := (hf _ (hk c) good).follows (u c).2 (v c').2 alike e₂ hr
    rw [← same] at then'
    obtain ⟨alike', clean', same'⟩ := then'
    exact ⟨alike', clean'.trans clean, same'⟩

theorem bindKnown {K : α → Prop} (hu : Follows P u v F) (hk : Always u K)
    (hP : ∀ a, Always (f a) fun b => R b → P a)
    (hf : ∀ a, K a → Follows R (f a) (g (F a)) G) : Follows R (u >>= f) (v >>= g) G :=
  bindGood hu hk hP (fun a ha => (hf a ha).later) fun a ha _ => hf a ha

theorem bind (hu : Follows P u v F) (hP : ∀ a, Always (f a) fun b => R b → P a)
    (hf : ∀ a, Follows R (f a) (g (F a)) G) : Follows R (u >>= f) (v >>= g) G :=
  bindKnown (K := fun _ => True) hu (fun _ => trivial) hP fun a _ => hf a

/-! ### What does the same -/

/-- What does the same in both runs, if they lack a name. -/
theorem of_adds {still : Prop} {y : String} (h : ∀ x, y ≠ x → Adds x still u v [] Eq) :
    Follows (fun _ => True) u v id where
  later := (h _ (start.exists_lacks y).choose_spec.1).later
  follows c c' hc e _ := by
    obtain ⟨x, hx, hl⟩ := c.exists_lacks y
    have m := (h x hx).adds c c' hc hl e
    refine ⟨m.alike, ?_, m.result.symm⟩
    rw [← Array.toList_inj, m.errors, List.append_nil]

/-- After a name has been bound in both runs. -/
theorem bound {still : Prop} {y : String} (h : ∀ x, y ≠ x → Adds x still u v [] Eq)
    (hf : ∀ a, Follows R (f a) (g a) G) : Follows R (u >>= f) (v >>= g) G :=
  bind (of_adds h) (fun _ _ _ => trivial) hf

/-- After what does the same in both runs. -/
theorem after (h : ∀ x, Adds x True u v [] Eq) (hf : ∀ a, Follows R (f a) (g a) G) :
    Follows R (u >>= f) (v >>= g) G :=
  bound (y := "") (fun x _ => h x) hf

/-- What only reports may be left out. -/
theorem dropped {S : α → α → Prop} (h : ∀ x, Adds x True u u [] S)
    (hf : ∀ a, Follows R (f a) l G) : Follows R (u >>= f) l G where
  later c := ((h "").later c).trans ((hf _).later (u c).2)
  follows c c' hc e hr := by
    obtain ⟨x, -, lacks⟩ := c.exists_lacks ""
    obtain ⟨e₁, e₂⟩ := ((h "").later c).clean ((hf _).later (u c).2) e
    have alike := ((h x).adds c c (.refl c) lacks e₁).still trivial
    exact (hf _).follows (u c).2 c' (alike.symm.trans hc) e₂ hr

/-! ### Reports -/

/-- The first reports something, so whatever follows is no matter. -/
theorem report (cause : Cause) (p : Position) {k : Unit → Check α}
    (hk : ∀ c : Checker, c.Later (k () c).2) : Follows P (Check.report cause p >>= k) v F where
  later c := (Adds.report_later cause p c).trans (hk _)
  follows c _ _ e _ := absurd ((Adds.report_later cause p c).clean (hk _) e).1 (Adds.not_clean cause p c)

/-- After a report that is made in the second run only where it is made in the first. -/
theorem reportIf {b b' : Prop} [Decidable b] [Decidable b'] (h : ¬ b → ¬ b') (cause cause' : Cause)
    (p p' : Position) {k k' : Unit → Check α} (hk : Follows P (k ()) (k' ()) F) :
    Follows P (if b then Check.report cause p >>= k else k ())
      (if b' then Check.report cause' p' >>= k' else k' ()) F := by
  by_cases hb : b
  · rw [if_pos hb]
    exact .report cause p hk.later
  · rw [if_neg hb, if_neg (h hb)]
    exact hk

/-! ### Lists and frames -/

/-- Member by member, where the results are known from the members. -/
theorem mapM {r o : α → α} {f : α → Check α}
    (h : ∀ a, Follows (· = r a) (f a) (f (o a)) fun _ => o a) : ∀ as : List α,
    Follows (· = as.map r) (as.mapM f) ((as.map o).mapM f) fun _ => as.map o
  | []      => .pure fun _ => rfl
  | a :: as => by
      rw [List.map_cons, List.map_cons, List.mapM_cons, List.mapM_cons]
      exact (h a).bind (fun b => .after fun bs => .pure fun e => (List.cons.inj e).1) fun b =>
        (mapM h as).bind (fun bs => .pure fun e => (List.cons.inj e).2) fun bs => .pure fun _ => rfl

theorem forM {γ : Type} {f : γ → Check Unit} (h : ∀ a, Follows (fun _ => True) (f a) (f a) id) :
    ∀ as : List γ, Follows (fun _ => True) (as.forM f) (as.forM f) id
  | []      => .pure fun _ => rfl
  | a :: as => (h a).bind (fun _ _ _ => trivial) fun _ => forM h as

theorem inFrame (p : Position) (h : Follows P u v F) :
    Follows P (inFrame p u) (inFrame p v) F where
  later := later_inFrame p h.later
  follows := by
    rintro c _ ⟨errors, warnings, rfl⟩ clean hp
    have entered : c.entered.Alike { c with errors, warnings }.entered := ⟨errors, warnings, rfl⟩
    rw [inFrame_apply p h.later] at clean hp
    obtain ⟨⟨errors', warnings', alike⟩, same, result⟩ := h.follows _ _ entered clean hp
    have pop' : (v { c with errors, warnings }.entered).2.scopes.pop
        (v { c with errors, warnings }.entered).2.here = .ok c.here := by
      rw [alike]
      exact (h.later c.entered).pop
    have left : Check.inFrame p v { c with errors, warnings } = _ := inFrame_of_pop p pop'
    rw [inFrame_apply p h.later, left]
    refine ⟨⟨errors', warnings', ?_⟩, same, result⟩
    rw [alike]

theorem withLoop (inLoop : Bool) (h : Follows P u v F) :
    Follows P (withLoop inLoop u) (withLoop inLoop v) F where
  later := later_withLoop inLoop h.later
  follows := by
    rintro c _ ⟨errors, warnings, rfl⟩ clean hp
    obtain ⟨⟨errors', warnings', alike⟩, same, result⟩ :=
      h.follows { c with inLoop } { c with inLoop, errors, warnings } ⟨errors, warnings, rfl⟩ clean hp
    have left : (Check.withLoop inLoop v { c with errors, warnings }).2 =
      { (v { c with inLoop, errors, warnings }).2 with inLoop := c.inLoop } := rfl
    refine ⟨⟨errors', warnings', ?_⟩, same, result⟩
    rw [left, alike]
    rfl

theorem withFunction (f : Context) (h : Follows P u v F) :
    Follows P (withFunction f u) (withFunction f v) F where
  later := later_withFunction f h.later
  follows := by
    rintro c _ ⟨errors, warnings, rfl⟩ clean hp
    obtain ⟨⟨errors', warnings', alike⟩, same, result⟩ :=
      h.follows { c with function := some f } { c with function := some f, errors, warnings }
        ⟨errors, warnings, rfl⟩ clean hp
    have left : (Check.withFunction f v { c with errors, warnings }).2 =
      { (v { c with function := some f, errors, warnings }).2 with function := c.function } := rfl
    refine ⟨⟨errors', warnings', ?_⟩, same, result⟩
    rw [left, alike]
    rfl

end Follows

end Check

end Brace
