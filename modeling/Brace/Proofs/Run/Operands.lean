import Brace.Proofs.Run.Blame

/-!
# Run — failures about operands

An operator that does not take its operands fails for a cause that nothing else fails for, and so does
the index of something that is no array. So where a run fails for such a cause, it has evaluated an
expression with an operator, or one that indexes, and that has failed itself.

* `Job.refuses_of_answers`, `Program.refuses_of_steps`: a job or a program that fails for operands has
  come to an expression that refuses them.
* `Expr.misses_of_passes`: an expression that indexes fails so where the name holds no array.
-/

namespace Brace

open Eval Progress

variable {α β : Type} {e : Error} {m m' : Machine}

/-- The run evaluates an expression with an operator, or one that indexes, which fails itself, and for
this cause. -/
def Progress.Refuses (run : Progress α) (c : Cause) : Prop :=
  ∃ (a : Expr) (m : Machine) (e : Error) (m' : Machine), a.operates = true ∧
    run.Involves (.expr a) m ∧ (a.start m).Passes (.finished (.error e) m') ∧ e.cause = c

/-- What has been refused on the way to an answer has been refused in the run. -/
theorem Progress.Refuses.within {run : Progress α} {j : Job} {c : Cause} (asked : run.Involves j m)
    (h : (Eval.ask j m).Refuses c) : run.Refuses c := by
  obtain ⟨a, m₁, e, m₂, operates, involves, failed⟩ := h
  exact ⟨a, m₁, e, m₂, operates, asked.trans involves, failed⟩

/-! ### What a computation itself fails for -/

/-- What comes of a computation with a continuation, without failures on the way, comes of the one and
then of the other. -/
theorem Progress.Passes.of_andThen {k : Except Error α → Machine → Progress β} {r : Except Error β} :
    ∀ {p : Progress α}, (p.andThen k).Passes (.finished r m) →
      ∃ r₁ m₁, p.Passes (.finished r₁ m₁) ∧ (k r₁ m₁).Passes (.finished r m) := by
  intro p
  induction p with
  | finished r₁ m₁ => exact fun h => ⟨r₁, m₁, .refl _, h⟩
  | endless => nofun
  | waiting j m₁ resume ih =>
      intro h
      cases h with
      | more answered h =>
          obtain ⟨r₁, m₂, first, rest⟩ := ih _ _ h
          exact ⟨r₁, m₂, .more answered first, rest⟩

namespace Eval

variable {x : Eval α} {f : α → Eval β}

/-- Of one thing after another, the first fails, or it gives something and the second fails. -/
theorem passes_of_bind (h : ((x >>= f) m).Passes (.finished (.error e) m')) :
    (x m).Passes (.finished (.error e) m') ∨ ∃ a m₁, (x m).Passes (.finished (.ok a) m₁) ∧
      (f a m₁).Passes (.finished (.error e) m') := by
  obtain ⟨r, m₁, first, rest⟩ := h.of_andThen
  cases r with
  | ok a => exact .inr ⟨a, m₁, first, rest⟩
  | error e₁ =>
      cases rest
      exact .inl first

/-- If what is asked for has been answered without a failure, the computation has passed on. -/
theorem passes_of_ask {j : Job} {r : Except Error j.Answer}
    (h : (ask j m).Passes (.finished r m')) : ∃ a, r = .ok a ∧ j.Answers m (.ok a) m' := by
  cases h with
  | more answered rest =>
      cases rest
      exact ⟨_, rfl, answered⟩

/-- What a given result fails for is its own cause. -/
theorem passes_of_ofExcept {p : Position} {r : Except Cause α}
    (h : (ofExcept p r m).Passes (.finished (.error e) m')) : r = .error e.cause := by
  cases r <;> cases h
  rfl

/-- What a lookup has found is what the name holds. -/
theorem passes_of_lookup {p : Position} {x : String} {v : Value}
    (h : (lookup x p m).Passes (.finished (.ok v) m')) : m' = m ∧ m.lookup x = .ok v := by
  simp only [Eval.lookup, consult] at h
  split at h <;> cases h
  exact ⟨rfl, ‹_›⟩

end Eval

/-- Whatever the computation itself fails for is not about operands. -/
def Eval.Takes (x : Eval α) : Prop :=
  ∀ m e m', (x m).Passes (.finished (.error e) m') → e.cause.isOfOperands = false

/-- What fails for another cause than its operands refuses none. -/
theorem Eval.Takes.fail {c : Cause} (h : c.isOfOperands = false) (p : Position) :
    (fail c p : Eval α).Takes := by
  intro m e m' failed
  cases failed
  exact h

/-- All that is done on the way has the property, but operators and what finds an array. -/
theorem Eval.Takes.plain : Eval.Plain Takes where
  ends h m e m' failed := by
    obtain e₁ | ⟨r, m₁, e₁, -, ordinary⟩ := h m <;> rw [e₁] at failed <;> cases failed
    exact ordinary.2
  ask j m e m' failed := by
    obtain ⟨a, e, -⟩ := passes_of_ask failed
    cases e
  bind hx hf m e m' failed := by
    rcases passes_of_bind failed with first | ⟨a, m₁, -, rest⟩
    · exact hx m e m' first
    · exact hf a m₁ e m' rest
  inBlock p x hx m e m' failed := by
    obtain ⟨r, m₁, inside, rest⟩ := failed.of_andThen
    split at rest
    · cases rest
      exact hx _ e m₁ inside
    · cases rest
      exact (Machine.ordinary_popScope _ |>.error ‹_›).2
  inScope h x hx m e m' failed := by
    obtain ⟨r, m₁, inside, rest⟩ := failed.of_andThen
    cases rest
    exact hx _ e m₁ inside
  counted p x hx m e m' failed := by
    simp only [Eval.counted] at failed
    split at failed
    · obtain ⟨r, m₁, inside, rest⟩ := failed.of_andThen
      cases rest
      exact hx _ e m₁ inside
    · cases failed
      rfl

/-! ### Where it was refused -/

namespace Job

/-- What is asked for in the body of a job is asked for by the job. -/
theorem asks_of_passes {j j' : Job} {resume : Except Error j'.Answer → Machine → Progress j.Answer}
    (h : (j.body m).Passes (.waiting j' m' resume)) : (j.start m).AsksFor j' m' := by
  have asks {p : Progress j.Answer} {k : Except Error j.Answer → Machine → Progress j.Answer}
      (h : p.Passes (.waiting j' m' resume)) : (p.andThen k).AsksFor j' m' := by
    generalize waits : Progress.waiting j' m' resume = q at h
    induction h with
    | refl p =>
        cases waits
        exact .here ..
    | more answered _ ih => exact .later answered (ih waits)
  rw [start_eq]
  exact asks h

/-- What is raised and is about operands is raised by an expression with an operator, or by one that
indexes. -/
theorem Raises.refuses {j : Job} {js : List Job} (h : j.Raises m e js)
    (operands : e.cause.isOfOperands = true) : (Eval.ask j m).Refuses e.cause := by
  induction h with
  | @here j m m' e h =>
      by_contra none
      have takes : j.body.Takes := by
        refine body_closed Eval.Takes.plain j fun a ha operates => ?_
        cases ha
        exact absurd ⟨a, m, e, m', operates, .itself (.here ..), h, rfl⟩ none
      rw [takes m e m' h] at operands
      cases operands
  | @inside j j' m m' e js resume h hr ih =>
      have inside : (Eval.ask j m).Involves j' m' := .within (.itself (.here ..)) (asks_of_passes h)
      exact (ih operands).within inside

/-- A job that fails for operands has come to an expression that fails for them. -/
theorem refuses_of_answers {j : Job} (h : j.Answers m (.error e) m')
    (operands : e.cause.isOfOperands = true) : (Eval.ask j m).Refuses e.cause := by
  obtain ⟨depth, run⟩ := id h
  obtain ⟨e₀, js, raised⟩ := exists_raises run
  obtain ⟨m₁, answered⟩ := raised.answers
  obtain ⟨same, -⟩ := h.unique answered
  have cause : e.cause = e₀.cause := by
    rw [Except.error.inj same, Error.blamed_cause]
  rw [cause] at operands ⊢
  exact raised.refuses operands

end Job

/-- A computation that is told of failures by what it asks for has come to an expression that fails for
operands, if it fails for them. -/
theorem Eval.refuses_of_steps {x : Eval α} (takes : x.Takes) (relays : x.Relays)
    (h : (x m).Steps (.finished (.error e) m')) (operands : e.cause.isOfOperands = true) :
    (x m).Refuses e.cause := by
  obtain ⟨depth, done⟩ := complete_of_steps h
  rcases Job.fails_of_complete done with own | ⟨j, m₁, resume, e₁, m₂, passes, failed⟩
  · rw [takes m e m' own] at operands
    cases operands
  · have answered : j.Answers m₁ (.error e₁) m₂ := ⟨depth, failed⟩
    have restored := restoring_kept.answers (g := ()) trivial answered
    obtain ⟨m₃, told⟩ := ((relays.relays m).passes passes m₂ restored).1 e₁
    have ends : (x m).Steps (.finished (.error e₁) m₃) :=
      passes.steps.trans (told ▸ answered.steps resume)
    have same : e = e₁ := by
      rcases h.linear ends with t | t <;> cases t <;> rfl
    rw [same] at operands ⊢
    have asked : (x m).Involves j m₁ := involves_iff.mpr ⟨resume, passes.steps⟩
    exact (Job.refuses_of_answers answered operands).within asked

/-- A program that fails for operands has come to an expression that fails for them. -/
theorem Program.refuses_of_steps {p : Program} (h : (Program.run p m).Steps (.finished (.error e) m'))
    (operands : e.cause.isOfOperands = true) : (Program.run p m).Refuses e.cause :=
  Eval.refuses_of_steps (p.run_sparing_of_fail Eval.Takes.plain.sparing fun _ q => .fail rfl q)
    (p.run_sparing_of_fail Eval.Relays.plain.sparing fun _ q => .fail _ q) h operands

/-! ### Names that hold no array -/

/-- The arrays that the expression itself looks for by name. -/
def Expr.indexed : Expr → List String
  | .indexAssign _ x _ _ => [x]
  | .step _ _ target     => target.arrayOf?.toList
  | .scanf _ _ targets   => targets.filterMap arrayOf?
  | e                    => e.arrayOf?.toList

/-- In this machine the name holds no array, which is the cause of a failure. -/
def Machine.Misses (m : Machine) (x : String) (c : Cause) : Prop :=
  ∃ v, m.lookup x = .ok v ∧ (∀ id, v ≠ .array id) ∧
    c = .internalError (Text.quote x ++ " holds a " ++ v.typeName ++ ", not an array")

namespace Eval

variable (operands : e.cause.isOfOperands = true)

include operands

/-- What does not fail for operands has not failed for these. -/
theorem Takes.absurd {x : Eval α} {C : Prop} (h : x.Takes)
    (failed : (x m).Passes (.finished (.error e) m')) : C := by
  rw [h m e m' failed] at operands
  cases operands

/-- If no array is found under a name, this is what the name holds in the same machine. -/
theorem misses_of_lookupArray {x : String} {p : Position}
    (failed : (lookupArray x p m).Passes (.finished (.error e) m')) : m'.Misses x e.cause := by
  rcases passes_of_bind failed with looking | ⟨v, m₁, looked, rest⟩
  · exact (Takes.plain.sparing.lookup x p).absurd operands looking
  · obtain ⟨rfl, found⟩ := passes_of_lookup looked
    cases v with
    | array id => cases rest
    | _ =>
        cases rest
        exact ⟨_, found, nofun, rfl⟩

/-- Where a place is looked for and operands are refused, the place was to be an element of an array. -/
theorem misses_of_place {target : Expr}
    (failed : (place target m).Passes (.finished (.error e) m')) :
    ∃ x, target.arrayOf? = some x ∧ m'.Misses x e.cause := by
  have sparing := Takes.plain.sparing
  cases array : target.arrayOf? with
  | none =>
      refine (sparing.place target fun x p found => ?_).absurd operands failed
      rw [array] at found
      cases found
  | some x =>
      cases target with
      | index n y i =>
          cases array
          refine ⟨x, rfl, ?_⟩
          rcases passes_of_bind failed with looking | ⟨id, m₁, -, rest⟩
          · exact misses_of_lookupArray operands looking
          · refine Takes.absurd operands ?_ rest
            exact sparing.bind (sparing.ask (.expr i)) fun _ => sparing.bind (sparing.expectInt _ _)
              fun _ => sparing.pure _
      | _ => cases array

/-- So it is with what is stepped. -/
theorem misses_of_step {form : StepForm} {target : Expr}
    (failed : (step form target m).Passes (.finished (.error e) m')) :
    ∃ x, target.arrayOf? = some x ∧ m'.Misses x e.cause := by
  have sparing := Takes.plain.sparing
  rcases passes_of_bind failed with looking | ⟨here, m₁, -, rest⟩
  · exact misses_of_place operands looking
  · refine Takes.absurd operands ?_ rest
    exact sparing.bind (sparing.read _ here) fun _ =>
      sparing.bind (sparing.ofExcept _ (Value.ordinary_stepped ..)) fun _ =>
        sparing.bind (Takes.plain.write _ _ here) fun _ => sparing.pure _

/-- And with what is read from the input. -/
theorem misses_of_scanInto {p : Position} {s : Specifier} {target : Expr}
    (failed : (scanInto p s target m).Passes (.finished (.error e) m')) :
    ∃ x, target.arrayOf? = some x ∧ m'.Misses x e.cause := by
  have fails (c : Cause) (hc : c.isOfOperands = false) : (Eval.fail c p : Eval Unit).Takes := .fail hc p
  rcases passes_of_bind failed with reading | ⟨word, m₁, -, rest⟩
  · exact (Takes.plain.sparing.make fun m => ⟨.readWord m, rfl⟩).absurd operands reading
  · cases word with
    | none => exact (fails _ rfl).absurd operands rest
    | some word =>
        dsimp only at rest
        cases read : s.read word with
        | none =>
            rw [read] at rest
            exact (fails _ rfl).absurd operands rest
        | some v =>
            rw [read] at rest
            rcases passes_of_bind rest with looking | ⟨here, m₂, -, written⟩
            · exact misses_of_place operands looking
            · exact (Takes.plain.write v _ here).absurd operands written

omit operands in
/-- Of what is done for one after another, the failure of the whole is that of one. -/
theorem passes_of_forM {γ : Type} {f : γ → Eval Unit} : ∀ {cs : List γ} {m : Machine},
    ((cs.forM f) m).Passes (.finished (.error e) m') →
      ∃ c ∈ cs, ∃ m₁, (f c m₁).Passes (.finished (.error e) m')
  | [], _, failed => nomatch failed
  | c :: cs, m, failed => by
      rcases passes_of_bind (x := f c) (f := fun _ => cs.forM f) failed with first | ⟨_, m₁, -, rest⟩
      · exact ⟨c, .head _, m, first⟩
      · obtain ⟨c', hc, m₂, failed⟩ := passes_of_forM rest
        exact ⟨c', .tail _ hc, m₂, failed⟩

end Eval

/-- An expression that indexes fails for operands where the name of one of its arrays holds something
else. -/
theorem Expr.misses_of_passes {a : Expr} (indexes : a.indexes = true)
    (failed : (a.start m).Passes (.finished (.error e) m')) (operands : e.cause.isOfOperands = true) :
    ∃ x ∈ a.indexed, m'.Misses x e.cause := by
  have sparing := Eval.Takes.plain.sparing
  cases a with
  | index n x i =>
      refine ⟨x, .head _, ?_⟩
      rcases passes_of_bind failed with looking | ⟨id, m₁, -, rest⟩
      · exact misses_of_lookupArray operands looking
      · refine Takes.absurd operands ?_ rest
        exact sparing.bind (sparing.ask (.expr i)) fun _ => sparing.bind (sparing.expectInt _ _) fun _ =>
          sparing.element _ _ _
  | indexAssign n x i b =>
      refine ⟨x, .head _, ?_⟩
      rcases passes_of_bind failed with looking | ⟨id, m₁, -, rest⟩
      · exact misses_of_lookupArray operands looking
      · refine Takes.absurd operands ?_ rest
        exact sparing.bind (sparing.ask (.expr i)) fun _ => sparing.bind (sparing.expectInt _ _) fun _ =>
          sparing.bind (sparing.ask (.expr b)) fun _ =>
            sparing.bind (Takes.plain.setElement _ _ _ _) fun _ => sparing.pure _
  | step n form target =>
      obtain ⟨x, array, misses⟩ := misses_of_step operands failed
      exact ⟨x, Option.mem_toList.mpr array, misses⟩
  | scanf n format targets =>
      rcases passes_of_bind failed with first | ⟨v, m₁, -, rest⟩
      · obtain ⟨_, e, -⟩ := passes_of_ask first
        cases e
      rcases passes_of_bind rest with expecting | ⟨template, m₂, -, rest⟩
      · exact (sparing.expectString v n.pos).absurd operands expecting
      rcases passes_of_bind rest with scanning | ⟨_, m₃, -, rest⟩
      · simp only [scan] at scanning
        split at scanning
        · obtain ⟨c, hc, m₄, failed⟩ := passes_of_forM scanning
          obtain ⟨x, array, misses⟩ := misses_of_scanInto operands failed
          exact ⟨x, List.mem_filterMap.mpr ⟨c.2, (List.of_mem_zip hc).2, array⟩, misses⟩
        · exact (Takes.fail rfl n.pos).absurd operands scanning
      · cases rest
  | _ => cases indexes

end Brace
