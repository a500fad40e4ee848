import Brace.Session
import Brace.Proofs.Loops.Jobs

/-!
# Loops — where machines are sound

What goes abreast goes on abreast, job after job, so it waits and ends in machines alike, and these are
sound. A sound machine is like itself. So from a sound machine, whatever goes abreast with itself gets to
sound machines only. That is so of jobs, of declarations, of programs and of the steps of a session, and a
machine that has run nothing is sound.

* `Eval.Abreast.sound`: where a computation that goes abreast with another has got to.
* `Session.Reached.sound`: every machine that a session gets to is sound.
-/

namespace Brace

open Eval

variable {α β : Type} {w : Matching} {m m' m₁ : Machine} {R : Matching → α → β → Prop}

/-! ### Job after job -/

namespace Progress.Abreast

variable {Q : Except Error α → Machine → Except Error β → Machine → Prop} {p p₁ : Progress α}
  {q : Progress β}

/-- The ends are ones that the computations do come to. -/
theorem reached (h : p.Abreast Q q) : p.Abreast (fun r m r' m' =>
    Q r m r' m' ∧ p.Steps (.finished r m) ∧ q.Steps (.finished r' m')) q := by
  induction h with
  | finished h => exact .finished ⟨h, .refl _, .refl _⟩
  | waiting hm hj _ ih =>
      refine .waiting hm hj fun w₁ r m₁ r' m₁' s hr t t' => (ih _ _ _ _ _ s hr t t').mono ?_
      rintro _ _ _ _ ⟨hQ, u, u'⟩
      exact ⟨hQ, (t.steps _).trans u, (t'.steps _).trans u'⟩
  | endless => exact .endless

/-- What goes abreast goes on abreast, job after job. -/
theorem steps (h : p.Abreast Q q) (t : p.Steps p₁) : ∃ q₁, q.Steps q₁ ∧ p₁.Abreast Q q₁ := by
  induction t generalizing q with
  | refl => exact ⟨q, .refl q, h⟩
  | @more j m resume p₁ _ ih =>
      cases h with
      | @waiting _ _ j' _ m' _ resume' hm hj hk =>
          -- The jobs that are begun go abreast, and then what waits for their answers does.
          have begun : ((j.start m).andThen resume).Abreast Q ((j'.start m').andThen resume') := by
            refine (hj.abreast hm).reached.andThen ?_
            rintro r m₁ r' m₁' ⟨⟨s, hr⟩, t, t'⟩
            exact hk _ _ _ _ _ s hr ((Job.answers_iff_steps ..).mpr t) ((Job.answers_iff_steps ..).mpr t')
          obtain ⟨q₁, t, h⟩ := ih begun
          exact ⟨q₁, .more t, h⟩

end Progress.Abreast

/-- Wherever a computation gets to that goes abreast with another, the machine is sound. -/
theorem Eval.Abreast.sound {x : Eval α} {y : Eval β} (h : Abreast w m m' R x y) {p : Progress α}
    (t : (x m).Steps p) (e : p.machine? = some m₁) : m₁.Sound := by
  obtain ⟨q, -, h⟩ := Progress.Abreast.steps h t
  cases h with
  | finished ended =>
      cases e
      obtain ⟨s, -⟩ := ended
      exact s.alike.sound
  | waiting hm _ _ =>
      cases e
      exact hm.sound
  | endless => cases e

/-! ### Declarations -/

namespace Eval.Abreast

theorem map {γ δ : Type} {Q : Matching → γ → δ → Prop} {x : Eval α} {y : Eval β} {f : α → γ} {g : β → δ}
    (hx : Abreast w m m' R x y) (hfg : ∀ {w a b}, R w a b → Q w (f a) (g b)) :
    Abreast w m m' Q (f <$> x) (g <$> y) := by
  simp only [map_eq_pure_bind]
  exact hx.bind fun s h => pure s.alike (hfg h)

/-- A failure that is given as an answer. -/
theorem attempt {x : Eval α} {y : Eval β} (hx : Abreast w m m' R x y) :
    Abreast w m m' (fun w => Agree (R w)) (Eval.attempt x) (Eval.attempt y) := by
  refine Progress.Abreast.andThen hx ?_
  rintro r m₁ r' m₁' ⟨s, hr⟩
  exact .finished ⟨s, .ok hr⟩

section Step

variable (h : m.Alike w m')

include h

theorem lookupClass (x : String) (p : Position) :
    Abreast w m m' Class.Alike (Eval.lookupClass x p) (Eval.lookupClass x p) := by
  refine (lookup h p x).bind fun {w₁ m₁ m₁' v v'} s hv => ?_
  have refused : Abreast w₁ m₁ m₁' Class.Alike
      (Eval.fail (.internalError
        ("superclass " ++ Text.quote x ++ " is a " ++ v.typeName ++ ", not a class")) p)
      (Eval.fail (.internalError
        ("superclass " ++ Text.quote x ++ " is a " ++ v'.typeName ++ ", not a class")) p) := by
    rw [hv.typeName]
    exact fail s.alike _ p
  cases hv with
  | cls hc => exact pure s.alike hc
  | _ => exact refused

theorem superclassOf (d : ClassDecl) : Abreast w m m' (fun w => Option.Rel (Class.Alike w))
    (Eval.superclassOf d) (Eval.superclassOf d) := by
  rw [Eval.superclassOf]
  split
  · exact (lookupClass h _ d.pos).map .some
  · exact pure h .none

theorem newId : Abreast w m m' Same Eval.newId Eval.newId :=
  make (h.withHeap h.heap.newId.2 (.newId _) (.newId _)) h.heap.newId.1

theorem echo {v v' : Value} (hv : v.Alike w v') : Abreast w m m' Same (Eval.echo v) (Eval.echo v') := by
  refine (view (R := Same) h (congrArg Settings.echoReturn h.settings)).bind fun s e => ?_
  subst e
  rw [hv.isNil]
  split
  · refine (textOf s.alike (hv.later s.later)).bind fun s e => ?_
    subst e
    exact change ((s.alike.print _).trans ((s.alike.print _).alike.print _))
  · exact pure s.alike rfl

variable (here : m.here.Alike w m'.here)

include here

theorem defineFunction (f : FuncDecl) :
    Abreast w m m' Same (Eval.defineFunction f) (Eval.defineFunction f) := by
  obtain ⟨closure, made⟩ := h.newClosure f here
  refine (make (R := Closure.Alike) (f := fun m => m.newClosure f m.here)
    (g := fun m => m.newClosure f m.here) made closure).bind fun s hf => ?_
  exact define s.alike f.pos (.function hf) (s.here here.frame) f.name

theorem methodScope {c c' : Option Class} (hc : Option.Rel (Class.Alike w) c c') :
    Abreast w m m' Handle.Alike (Eval.methodScope c) (Eval.methodScope c') := by
  cases hc with
  | none => exact view h here
  | @some c c' hc =>
      obtain ⟨w₁, opened, scope⟩ := h.superFrame here hc
      exact make (f := (·.superFrame c)) (g := (·.superFrame c')) opened scope

theorem defineClass (d : ClassDecl) :
    Abreast w m m' Same (Eval.defineClass d) (Eval.defineClass d) := by
  refine (superclassOf h d).bind fun {w₁ m₁ m₁' c c'} s hc => ?_
  refine (methodScope s.alike (s.handle here) hc).bind fun {w₂ m₂ m₂' k k'} s₁ hk => ?_
  refine (newId s₁.alike).bind fun {w₃ m₃ m₃' id id'} s₂ e => ?_
  subst e
  have inherited : List.Forall₂ (Tier.Alike w₃) (inheritedTiers c) (inheritedTiers c') := by
    cases hc with
    | none => exact .nil
    | some hc => exact ((hc.later s₁.later).later s₂.later).tiers
  have cls : Value.Alike w₃ (.cls ⟨⟨id, d.name, d.methods, k⟩, inheritedTiers c⟩)
      (.cls ⟨⟨id, d.name, d.methods, k'⟩, inheritedTiers c'⟩) :=
    .cls ⟨⟨rfl, rfl, rfl, hk.later s₂.later⟩, inherited⟩
  exact define s₂.alike d.pos cls (((s.trans s₁).trans s₂).here here.frame) d.name

end Step

end Eval.Abreast

theorem Decl.abreast_run (d : Decl) (h : m.Alike w m') (here : m.here.Alike w m'.here) :
    Abreast w m m' Same d.run d.run := by
  cases d with
  | var v => exact v.abreast_run h here.frame
  | func f => exact .defineFunction h here f
  | cls c => exact .defineClass h here c

theorem Decl.abreast_runAll (ds : List Decl) (h : m.Alike w m') (here : m.here.Alike w m'.here) :
    Abreast w m m' Same (ds.forM Decl.run) (ds.forM Decl.run) :=
  .forM (S := Same) (fun _ => id) h (List.forall₂_same.mpr fun _ _ => rfl) fun s e =>
    e ▸ Decl.abreast_run _ s.alike (s.handle here)

theorem Program.abreast_run (p : Program) (h : m.Alike w m') (here : m.here.Alike w m'.here) :
    Abreast w m m' Value.Alike (Program.run p) (Program.run p) := by
  rw [Program.run]
  split
  · exact .fail h _ _
  · split
    · refine (Decl.abreast_runAll p h here).bind fun s _ => ?_
      refine (Abreast.lookup s.alike _ "main").bind fun s hv => ?_
      refine (Abreast.ask s.alike (.apply hv .nil _)).bind fun s hv => ?_
      refine (Abreast.echo s.alike hv).bind fun s' _ => ?_
      exact .pure s'.alike (hv.later s'.later)
    · exact .fail h _ _

/-! ### Data -/

mutual

/-- On heaps alike, data is stored alike. -/
theorem Datum.alike_store : ∀ (d : Datum) {h h' : Heap}, h.Alike w h' →
    (d.store h).1.Alike w (d.store h').1 ∧ (d.store h).2.Alike w (d.store h').2
  | .literal l, _, _, hh => ⟨.ofLiteral l, hh⟩
  | .builtin b, _, _, hh => ⟨.builtin b, hh⟩
  | .array t ds, _, _, hh => by
      obtain ⟨items, heap⟩ := alike_storeAll ds hh
      have same {id id' : ArrayId} (e : id = id') : Value.Alike w (.array id) (.array id') :=
        e ▸ .array id
      exact ⟨same heap.arrays, (heap.addArray t items).2⟩

theorem Datum.alike_storeAll : ∀ (ds : List Datum) {h h' : Heap}, h.Alike w h' →
    List.Forall₂ (Value.Alike w) (Datum.storeAll ds h).1 (Datum.storeAll ds h').1 ∧
      (Datum.storeAll ds h).2.Alike w (Datum.storeAll ds h').2
  | [], _, _, hh => ⟨.nil, hh⟩
  | d :: ds, _, _, hh =>
      have first := d.alike_store hh
      have rest := Datum.alike_storeAll ds first.2
      ⟨.cons first.1 rest.1, rest.2⟩

end

mutual

theorem Datum.grown_store : ∀ (d : Datum) (h : Heap), h.Grown (d.store h).2
  | .literal _, h => .refl h
  | .builtin _, h => .refl h
  | .array _ ds, h => (Datum.grown_storeAll ds h).trans (.addArray ..)

theorem Datum.grown_storeAll : ∀ (ds : List Datum) (h : Heap), h.Grown (Datum.storeAll ds h).2
  | [], h => .refl h
  | d :: ds, h => (d.grown_store h).trans (Datum.grown_storeAll ds _)

end

/-! ### Sessions -/

/-- The programs gave alike values, with the same warnings. -/
structure Outcome.Alike (w : Matching) (o o' : Outcome) : Prop where
  value    : o.value.Alike w o'.value
  warnings : o.warnings = o'.warnings

theorem Program.abreast_checkAndRun (p : Program) (h : m.Alike w m') (here : m.here.Alike w m'.here) :
    Abreast w m m' (fun w => Agree (Outcome.Alike w)) p.checkAndRun p.checkAndRun := by
  rw [Program.checkAndRun]
  split
  · exact .pure h (.error _)
  · rename_i checked _
    refine (Abreast.attempt (checked.program.abreast_run h here)).bind fun s hr => ?_
    cases hr with
    | ok hv => exact .pure s.alike (.ok ⟨hv, rfl⟩)
    | error e => exact .pure s.alike (.error _)

namespace Session

inductive Reply.Alike (w : Matching) : Reply → Reply → Prop where
  | done : Alike w .done .done
  | flow {f f' : Flow} (h : f.Alike w f') : Alike w (.flow f) (.flow f')
  | value {v v' : Value} (h : v.Alike w v') : Alike w (.value v) (.value v')
  | outcome {r r' : Except (List Error) Outcome} (h : Agree (Outcome.Alike w) r r') :
      Alike w (.outcome r) (.outcome r')

theorem abreast_storeDatum (d : Datum) (h : m.Alike w m') :
    Abreast w m m' Value.Alike (storeDatum d) (storeDatum d) :=
  have stored := d.alike_store h.heap
  .make (h.withHeap stored.2 (d.grown_store _) (d.grown_store _)) stored.1

theorem abreast_storeData (ds : List Datum) (h : m.Alike w m') :
    Abreast w m m' (fun w => List.Forall₂ (Value.Alike w)) (storeData ds) (storeData ds) :=
  have stored := Datum.alike_storeAll ds h.heap
  .make (h.withHeap stored.2 (Datum.grown_storeAll ds _) (Datum.grown_storeAll ds _)) stored.1

/-- A step that stays in its scope. -/
theorem Step.abreast_eval {step : Step} (push : step ≠ .push) (pop : step ≠ .pop) (h : m.Alike w m')
    (here : m.here.Alike w m'.here) : Abreast w m m' Reply.Alike step.eval step.eval := by
  cases step with
  | decl d => exact (d.abreast_run h here).bind fun s _ => .pure s.alike .done
  | stmt st => exact (st.abreast_exec h).map .flow
  | expr e => exact (e.abreast_eval h).map .value
  | push => exact absurd rfl push
  | pop => exact absurd rfl pop
  | lookup x => exact (Abreast.lookup h _ x).map .value
  | assign x d =>
      refine (abreast_storeDatum d h).bind fun s hv => ?_
      exact (Abreast.assign s.alike _ hv x).bind fun s _ => .pure s.alike .done
  | define x d =>
      refine (abreast_storeDatum d h).bind fun s hv => ?_
      exact (Abreast.define s.alike _ hv (s.here here.frame) x).bind fun s _ => .pure s.alike .done
  | call x args line =>
      refine (Abreast.lookup h _ x).bind fun s hf => ?_
      refine (abreast_storeData args s.alike).bind fun s ha => ?_
      exact (Abreast.ask s.alike (.apply (hf.later s.later) ha _)).map .value
  | program p => exact (p.abreast_checkAndRun h here).map .outcome
  | unchecked p => exact (p.abreast_run h here).map .value

end Session

namespace Machine

theorem sound_start (settings : Settings) (stdin : String) : (start settings stdin).Sound where
  here := Nat.one_lt_two
  outer i j hj := by
    match i with
    | 0 => cases hj
    | 1 => rw [List.mem_singleton.mp hj]; exact Nat.zero_lt_two
    | i + 2 => cases hj
  stored v hv := by
    rcases hv.start with plain | ⟨b, rfl⟩
    · cases v with
      | function | cls | object => cases plain
      | _ => exact nofun
    · exact nofun

namespace Sound

variable (sound : m.Sound)

include sound

/-- One may work in any scope that is there. -/
theorem enter {k : Handle} (hk : k.frame < m.scopes.next) : Sound { m with here := k } :=
  ⟨hk, sound.outer, fun v hv => sound.stored v (hv.congr rfl rfl)⟩

theorem pushScope : m.pushScope.Sound := by
  obtain ⟨w, -, alike, -⟩ := sound.alike.pushScope
  exact alike.sound

theorem pop {k : Handle} (e : m.scopes.pop m.here = .ok k) : Sound { m with here := k } := by
  rw [Forest.pop] at e
  split at e
  · cases e
  · rename_i i is outer
    cases e
    exact sound.enter (sound.outer m.here.frame i (outer ▸ List.mem_cons_self))

/-- Wherever a step of a session gets to from a sound machine, the machine is sound. -/
theorem step (step : Session.Step) {p : Progress Session.Reply} (t : (step.eval m).Steps p)
    (e : p.machine? = some m₁) : m₁.Sound := by
  by_cases push : step = .push
  · subst push
    have ends : Session.Step.push.eval m = .finished (.ok .done) m.pushScope := rfl
    rw [ends] at t
    cases t
    cases e
    exact sound.pushScope
  by_cases pop : step = .pop
  · subst pop
    cases hp : m.scopes.pop m.here with
    | error c =>
        have ends : Session.Step.pop.eval m = .finished (.error ⟨c, .unknown⟩) m := by
          simp only [Session.Step.eval, bind_apply, consult, hp]
          rfl
        rw [ends] at t
        cases t
        cases e
        exact sound
    | ok k =>
        have ends : Session.Step.pop.eval m = .finished (.ok .done) { m with here := k } := by
          simp only [Session.Step.eval, bind_apply, consult, hp]
          rfl
        rw [ends] at t
        cases t
        cases e
        exact sound.pop hp
  exact (step.abreast_eval push pop sound.alike ⟨⟨rfl, sound.here⟩, rfl⟩).sound t e

end Sound

end Machine

namespace Session

/-- The machine is one that a session has got to, between two steps or in the middle of one. -/
inductive Reached : Machine → Prop where
  | start (settings : Settings) (stdin : String) : Reached (.start settings stdin)
  | step {m m₁ : Machine} {s : Step} {p : Progress Reply} (h : Reached m) (t : (s.eval m).Steps p)
      (e : p.machine? = some m₁) : Reached m₁

/-- Every machine that a session gets to is sound. -/
theorem Reached.sound (h : Reached m) : m.Sound := by
  induction h with
  | start settings stdin => exact Machine.sound_start settings stdin
  | step _ t e sound => exact sound.step _ t e

end Session

end Brace
