import Brace.Proofs.Run.Restore

/-!
# Run — calls do not depend on where they are made

What is called runs in the scope of its declaration, and comes back to whatever scope was current
before it looks at that again. So two calls with the same arguments in machines that differ in nothing
but the current scope are the same call: they ask for the same in the same machines, and where one ends
the other ends alike, each in its own caller's scope.

A step of a call is portable when it only hands the current scope on (`Eval.Portable`). What works in
another scope than the current one is portable whatever it does there (`Portable.inScope`): this is
where the body of a function is run.

* `Eval.applyTo_portable`: a call of anything is portable.
* `calls_ignore_caller`: what two calls give that are made from different scopes.
-/

namespace Brace

variable {α β γ : Type}

namespace Machine

/-- The machine with another scope as the current one. -/
def elsewhere (m : Machine) (h : Handle) : Machine := { m with here := h }

/-- A machine is where it is. -/
theorem elsewhere_here (m : Machine) : m.elsewhere m.here = m := rfl

end Machine

namespace Progress

/-- What the computation gives is given in another scope. -/
def elsewhere (p : Progress α) (h : Handle) : Progress α :=
  p.andThen fun r m => .finished r (m.elsewhere h)

/-- Where jobs are answered alike, what is done elsewhere ends alike, elsewhere. -/
theorem complete_elsewhere (answer : (j : Job) → Machine → Option (Except Error j.Answer × Machine))
    (p : Progress α) (h : Handle) : (p.elsewhere h).complete answer =
      (p.complete answer).map fun x => (x.1, x.2.elsewhere h) := by
  rw [elsewhere, complete_andThen]
  cases p.complete answer <;> rfl

end Progress

/-- The computation does the same in whatever scope it is started, and leaves that as it is. -/
def Eval.Portable (x : Eval α) : Prop := ∀ m h, x (m.elsewhere h) = (x m).elsewhere h

namespace Eval.Portable

open Machine

theorem pure (a : α) : Portable (Pure.pure a) := fun _ _ => rfl

theorem fail (c : Cause) (p : Position) : Portable (fail c p : Eval α) := fun _ _ => rfl

theorem textOf (v : Value) : Portable (textOf v) := fun m h => by
  have same : (m.elsewhere h).heap.text? v = m.heap.text? v := rfl
  simp only [Eval.textOf, same]
  cases m.heap.text? v <;> rfl

/-- What is made anew does not depend on the scope if `f` does not. -/
theorem make {f : Machine → α × Machine}
    (hf : ∀ m h, f (m.elsewhere h) = ((f m).1, (f m).2.elsewhere h)) : Portable (make f) :=
  fun m h => by
    simp only [Eval.make, hf]
    rfl

/-- A change that may be refused does not depend on the scope if neither part does. -/
theorem update {p : Position} {check : Machine → Except Cause β} {write : β → Machine → Machine}
    (hc : ∀ m h, check (m.elsewhere h) = check m)
    (hw : ∀ b m h, write b (m.elsewhere h) = (write b m).elsewhere h) :
    Portable (update p check write) := fun m h => by
  simp only [Eval.update, hc, hw]
  cases check m <;> rfl

/-- One thing after another does not depend on the scope if neither part does. -/
theorem bind {x : Eval α} {f : α → Eval β} (hx : x.Portable) (hf : ∀ a, (f a).Portable) :
    (x >>= f).Portable := fun m h => by
  rw [bind_apply, bind_apply, hx m h, Progress.elsewhere, Progress.elsewhere,
    Progress.andThen_andThen, Progress.andThen_andThen]
  congr 1
  funext r m'
  cases r with
  | ok a => exact hf a m' h
  | error e => rfl

theorem forM {f : γ → Eval Unit} (hf : ∀ c, (f c).Portable) : ∀ cs : List γ, (cs.forM f).Portable
  | []      => pure ()
  | c :: cs => bind (hf c) fun _ => forM hf cs

/-- Whatever is done in another scope, it is the same from wherever that is entered. -/
theorem inScope (k : Handle) (x : Eval α) : (inScope k x).Portable := fun m h => by
  show (x { m with here := k }).andThen _ = ((x { m with here := k }).andThen _).andThen _
  rw [Progress.andThen_andThen]
  rfl

/-- What is done one call deeper does not depend on the scope. -/
theorem counted (p : Position) {x : Eval α} (hx : x.Portable) : (counted p x).Portable :=
  fun m h => by
    have counting := hx { m with callDepth := m.callDepth + 1 } h
    simp only [Eval.counted]
    by_cases room : m.callDepth < m.settings.maxCallDepth
    · have room' : (m.elsewhere h).callDepth < (m.elsewhere h).settings.maxCallDepth := room
      rw [if_pos room, if_pos room', Progress.elsewhere, Progress.andThen_andThen]
      show (x ({ m with callDepth := m.callDepth + 1 }.elsewhere h)).andThen _ = _
      rw [counting, Progress.elsewhere, Progress.andThen_andThen]
      rfl
    · have full : ¬ (m.elsewhere h).callDepth < (m.elsewhere h).settings.maxCallDepth := room
      rw [if_neg room, if_neg full]
      rfl

/-- Nor does the place of a failure. -/
theorem orAt (p : Position) {x : Eval α} (hx : x.Portable) : (orAt p x).Portable := fun m h => by
  simp only [Eval.orAt, hx m h, Progress.elsewhere, Progress.andThen_andThen]
  rfl

/-! ### Calls -/

/-- To define a name in a given frame does not depend on the scope. -/
theorem defineAt (k : Handle) (x : String) (v : Value) (p : Position) :
    (defineAt k x v p).Portable := update (fun _ _ => rfl) fun _ _ _ => rfl

/-- Nor do parameters. -/
theorem bindParams (k : Handle) (p : Position) (params : List Param) (args : List Value) :
    (bindParams k p params args).Portable :=
  forM (f := fun x : Param × Value => Eval.defineAt k x.1.name x.2 p)
    (fun x => defineAt k x.1.name x.2 p) _

theorem result (f : FuncDecl) : ∀ flow : Flow, (result f flow).Portable
  | .normal       => pure _
  | .ret _        => pure _
  | .breakLoop    => fail _ _
  | .continueLoop => fail _ _

end Eval.Portable

/-- A built-in function does not look at the current scope. -/
theorem Builtin.call_elsewhere (b : Builtin) (args : List Value) (m : Machine) (h : Handle) :
    b.call args (m.elsewhere h) = (b.call args m).map fun x => (x.1, x.2.elsewhere h) := by
  unfold Builtin.call
  split
  · rename_i v
    show Option.map _ (m.heap.text? v) = Option.map _ (Option.map _ (m.heap.text? v))
    cases m.heap.text? v <;> rfl
  · rename_i v
    show Option.map _ (m.heap.text? v) = Option.map _ (Option.map _ (m.heap.text? v))
    cases m.heap.text? v with
    | none => rfl
    | some text =>
        have read : ((m.elsewhere h).print text).readLine =
            ((m.print text).readLine.1, (m.print text).readLine.2.elsewhere h) := rfl
        simp only [Option.map_some, read]
        cases (m.print text).readLine with
        | mk line m' => cases line <;> rfl
  all_goals rfl

open Eval

/-- Nor do builtins. -/
theorem Builtin.apply_portable (b : Builtin) (args : List Value) (p : Position) :
    (b.apply args p).Portable := fun m h => by
  simp only [Builtin.apply, b.call_elsewhere]
  split
  · cases b.call args m with
    | none => rfl
    | some x =>
        obtain ⟨r, m'⟩ := x
        cases r <;> rfl
  · rfl

namespace Eval

/-- A call of a function does not depend on the scope of the caller. -/
theorem callClosure_portable (f : Closure) (args : List Value) : (callClosure f args).Portable := by
  simp only [callClosure]
  split
  · exact .bind (.make fun _ _ => rfl) fun frame => .bind (.bindParams _ _ _ _) fun _ =>
      .bind (.counted _ (.inScope frame _)) fun flow => .result f.decl flow
  · exact .fail _ _

/-- Nor does a call of a class. -/
theorem instantiate_portable (c : Class) (args : List Value) : (instantiate c args).Portable := by
  refine .bind (.make fun _ _ => rfl) fun o => ?_
  split
  · exact .bind (.make fun _ _ => rfl) fun f =>
      .bind (callClosure_portable f args) fun _ => .pure _
  · split
    · exact .pure _
    · exact .fail _ _

/-- A call of anything is portable: be it a function, a method, a class or a built-in function, or
nothing that can be called. -/
theorem applyTo_portable (callee : Value) (args : List Value) (p : Position) :
    (applyTo callee args p).Portable := by
  cases callee with
  | function f => exact .orAt p (callClosure_portable f args)
  | builtin b => exact b.apply_portable args p
  | cls c => exact .orAt p (instantiate_portable c args)
  | _ => exact .bind (.textOf _) fun _ => .fail _ _

end Eval

/-- At each depth, a call made from another scope gives what it gives from this one, there. -/
theorem Job.run_elsewhere (depth : Nat) (callee : Value) (args : List Value) (p : Position)
    (m : Machine) (h : Handle) : Job.run depth (.apply callee args p) (m.elsewhere h) =
      (Job.run depth (.apply callee args p) m).map fun x => (x.1, x.2.elsewhere h) := by
  cases depth with
  | zero => rfl
  | succ depth =>
      have portable := applyTo_portable callee args p m h
      rw [Job.run, Job.start, portable, Progress.complete_elsewhere]
      rfl

/-- A job is answered in the scope where it was asked for. -/
theorem Job.Answers.here {j : Job} {m m' : Machine} {r : Except Error j.Answer}
    (h : j.Answers m r m') : m'.here = m.here := (restoring_kept.answers (g := ()) trivial h).here

/-- **Calls do not depend on where they are made.**  Take any value that is called, any arguments and
any place to blame, and two machines that differ in the current scope alone. Either the call ends in
neither, or it gives the same value or error in both, and leaves machines that differ in the current
scope alone, which is for each the one of its own caller. The two calls nest jobs equally deep. -/
theorem calls_ignore_caller (callee : Value) (args : List Value) (p : Position) (m : Machine)
    (h₁ h₂ : Handle) :
    ((∀ depth, Job.run depth (.apply callee args p) (m.elsewhere h₁) = none ∧
        Job.run depth (.apply callee args p) (m.elsewhere h₂) = none) ∨
      ∃ r, ∃ m' : Machine,
        (Job.apply callee args p).Answers (m.elsewhere h₁) r (m'.elsewhere h₁) ∧
        (Job.apply callee args p).Answers (m.elsewhere h₂) r (m'.elsewhere h₂)) ∧
    ∀ depth, Job.run depth (.apply callee args p) (m.elsewhere h₂) =
      (Job.run depth (.apply callee args p) (m.elsewhere h₁)).map
        fun x => (x.1, x.2.elsewhere h₂) := by
  have same (depth : Nat) := Job.run_elsewhere depth callee args p (m.elsewhere h₁) h₂
  refine ⟨?_, same⟩
  by_cases ends : ∃ depth x, Job.run depth (.apply callee args p) (m.elsewhere h₁) = some x
  · obtain ⟨depth, ⟨r, m'⟩, e⟩ := ends
    -- A call comes back to its caller's scope, so the first one has nothing to move.
    have back : m'.elsewhere h₁ = m' := by
      rw [← (show m'.here = h₁ from Job.Answers.here ⟨depth, e⟩), Machine.elsewhere_here]
    refine .inr ⟨r, m', ⟨depth, by rw [back]; exact e⟩, depth, ?_⟩
    have e' := same depth
    rw [e] at e'
    exact e'
  · refine .inl fun depth => ?_
    have none₁ : Job.run depth (.apply callee args p) (m.elsewhere h₁) = none :=
      Option.eq_none_iff_forall_ne_some.mpr fun x e => ends ⟨depth, x, e⟩
    have e' := same depth
    rw [none₁] at e'
    exact ⟨none₁, e'⟩

end Brace
