import Brace.Proofs.Run.Asks

/-!
# Run — inside calls

A call of a function, or of a class that has an `init` method, comes down to the body of one function
(`Machine.Enters`), which is run one call deeper. Whatever the call asks for, this body asks for.

* `asks_of_applyTo`: what a call asks for, the function asks for that it enters.
* `Progress.InCallOf`: a call of a function is under way.
-/

namespace Brace

variable {α β : Type} {j : Job} {m m' : Machine}

/-! ### What is put around the work -/

namespace Progress

/-- What is done in the end asks for nothing. -/
theorem AsksFor.of_ending {x : Progress α} {k : Except Error α → Machine → Progress β}
    (hk : ∀ r m, ∃ r' m', k r m = .finished r' m') (h : (x.andThen k).AsksFor j m) :
    x.AsksFor j m := by
  rcases h.of_andThen with h | ⟨r, m₁, -, h⟩
  · exact h
  · obtain ⟨r', m', e⟩ := hk r m₁
    rw [e] at h
    cases h

end Progress

namespace Eval

variable {x : Eval α} {pos : Position}

/-- What a block asks for is asked for in a frame of its own. -/
theorem asks_of_inBlock (h : (inBlock pos x m).AsksFor j m') : (x m.pushScope).AsksFor j m' := by
  refine h.of_ending fun r m₁ => ?_
  split <;> exact ⟨_, _, rfl⟩

/-- What is done elsewhere is asked for there. -/
theorem asks_of_inScope {scope : Handle} (h : (inScope scope x m).AsksFor j m') :
    (x { m with here := scope }).AsksFor j m' :=
  h.of_ending fun _ _ => ⟨_, _, rfl⟩

/-- What is done as a call is asked for one call deeper. -/
theorem asks_of_counted (h : (counted pos x m).AsksFor j m') :
    (x { m with callDepth := m.callDepth + 1 }).AsksFor j m' := by
  simp only [counted] at h
  split at h
  · exact h.of_ending fun _ _ => ⟨_, _, rfl⟩
  · cases h

/-- It is asked for all the same where failures get another place. -/
theorem asks_of_orAt (h : (orAt pos x m).AsksFor j m') : (x m).AsksFor j m' :=
  h.of_ending fun _ _ => ⟨_, _, rfl⟩

/-- Parameters are bound without asking for anything. -/
theorem silent_bindParams (h : Handle) (pos : Position) : ∀ (xs : List Param) (vs : List Value),
    (bindParams h pos xs vs).Silent
  | [], _           => .pure _
  | _ :: _, []      => .pure _
  | _ :: xs, _ :: vs => .bind (.update _ _ _) fun _ => silent_bindParams h pos xs vs

/-- To make a value of how a body ended asks for nothing. -/
theorem silent_result (f : FuncDecl) : ∀ flow : Flow, (result f flow).Silent
  | .normal | .ret _           => .pure _
  | .breakLoop | .continueLoop => .fail _ _

end Eval

/-! ### What a call enters -/

/-- What is called in the end is this function, in the other machine: a class that is called makes an
object first, and binds its `init` method to it. -/
inductive Machine.Enters (m : Machine) : Value → Closure → Machine → Prop where
  | function (g : Closure) : m.Enters (.function g) g m
  | init {k : Class} {method : Tier × FuncDecl} (found : k.method? "init" = some method) :
      m.Enters (.cls k) ((m.newObject k).2.bindMethod (m.newObject k).1 method).1
        ((m.newObject k).2.bindMethod (m.newObject k).1 method).2

/-- A call enters one function at most. -/
theorem Machine.Enters.eq {callee : Value} {g g' : Closure} {m₁ m₂ : Machine}
    (h : m.Enters callee g m₁) (h' : m.Enters callee g' m₂) : g = g' ∧ m₁ = m₂ := by
  cases h with
  | function g =>
      cases h'
      exact ⟨rfl, rfl⟩
  | init found =>
      cases h' with
      | init found' =>
          cases found.symm.trans found'
          exact ⟨rfl, rfl⟩

namespace Eval

/-- A function that is called asks for the pieces of its body, when its parameters have got their
values. -/
theorem asks_of_callClosure {g : Closure} {args : List Value} (h : (callClosure g args m).AsksFor j m') :
    args.length = g.decl.arity ∧ ∃ m₁, (bindParams (m.openFrame g.scope).1 g.decl.pos g.decl.params args
      (m.openFrame g.scope).2).Steps (.finished (.ok ()) m₁) ∧
      (runBody g.decl.locals g.decl.body { m₁ with
        here := (m.openFrame g.scope).1, callDepth := m₁.callDepth + 1 }).AsksFor j m' := by
  rw [callClosure] at h
  split at h
  · rename_i arity
    rcases asks_of_bind h with opening | ⟨frame, m₁, opened, h⟩
    · exact absurd opening (Silent.make _ _ _ _)
    cases opened
    rcases asks_of_bind h with binding | ⟨_, m₂, bound, h⟩
    · exact absurd binding (silent_bindParams _ _ _ _ _ _ _)
    have inside := Silent.asks_fst (silent_result g.decl) h
    exact ⟨arity, m₂, bound, asks_of_inScope (asks_of_counted inside)⟩
  · cases h

/-- Whatever is called asks for what the function asks for that is called in the end. -/
theorem asks_of_applyTo {callee : Value} {args : List Value} {pos : Position}
    (h : (applyTo callee args pos m).AsksFor j m') :
    ∃ g m₁, m.Enters callee g m₁ ∧ (callClosure g args m₁).AsksFor j m' := by
  cases callee with
  | function g => exact ⟨g, m, .function g, asks_of_orAt h⟩
  | cls k =>
      have h : (instantiate k args m).AsksFor j m' := asks_of_orAt h
      rcases asks_of_bind h with making | ⟨o, m₁, made, h⟩
      · exact absurd making (Silent.make _ _ _ _)
      cases made
      cases found : k.method? "init" with
      | none =>
          simp only [found] at h
          split at h <;> cases h
      | some init =>
          simp only [found] at h
          rcases asks_of_bind h with binding | ⟨g, m₂, bound, h⟩
          · exact absurd binding (Silent.make _ _ _ _)
          cases bound
          exact ⟨_, _, .init found, Silent.asks_fst (fun _ => .pure _) h⟩
  | builtin b =>
      simp only [applyTo, Builtin.apply] at h
      split at h
      · split at h <;> cases h
      · cases h
  | _ => exact absurd h (Silent.bind (.textOf _) (fun _ => .fail _ _) _ _ _)

end Eval

/-! ### The call under way -/

namespace Progress

/-- Where the run asks for the job, a call of the function is under way, and none inside that: what is
called in `m₀` enters the function, and the job is asked for there at the call depth of its body. -/
def InCallOf (run : Progress α) (g : Closure) (j : Job) (m : Machine) : Prop :=
  ∃ callee args pos m₀ m₁, run.Involves (.apply callee args pos) m₀ ∧ m₀.Enters callee g m₁ ∧
    (Eval.callClosure g args m₁).Involves j m ∧ m.callDepth = m₀.callDepth + 1

/-- What is asked for at the same call depth is asked for in the same call. -/
theorem InCallOf.within {run : Progress α} {g : Closure} {j' : Job} (h : run.InCallOf g j m)
    (asks : (j.start m).AsksFor j' m') (same : m'.callDepth = m.callDepth) :
    run.InCallOf g j' m' := by
  obtain ⟨callee, args, pos, m₀, m₁, called, enters, inside, depth⟩ := h
  exact ⟨callee, args, pos, m₀, m₁, called, enters, inside.within asks, same.trans depth⟩

end Progress

end Brace
