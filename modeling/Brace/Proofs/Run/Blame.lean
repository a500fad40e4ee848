import Mathlib.Data.List.Induction
import Brace.Proofs.Run.Asks
import Brace.Proofs.Run.Closed

/-!
# Run — what failures are blamed on

A failure is raised somewhere in a run, at a place or at no known one, and ends everything that is under
way, from the inside out. On its way out nothing happens to it, except that a call blames on itself what
is blamed on no known place yet.

* `Job.body`, `Job.start_eq`: what a job does, apart from blaming failures on itself.
* `Eval.Relays`: a computation that is told of a failure ends with it, unless it is a call that blames.
* `Job.Raises.answers`, `Job.exists_raises`: what is raised gets out, and what gets out was raised.
* `call_blames_innermost`: where it was raised, or else the innermost call with a known place.
-/

namespace Brace

open Eval Progress

variable {α β : Type}

/-- What a call does, apart from blaming failures on itself. -/
def Eval.calledBody (callee : Value) (args : List Value) (p : Position) : Eval Value :=
  match callee with
  | .function f => callClosure f args
  | .cls c      => instantiate c args
  | _           => applyTo callee args p

namespace Job

/-- What a job does, apart from blaming failures on itself. -/
def body : (j : Job) → Eval j.Answer
  | .expr e                => e.start
  | .stmt s                => s.start
  | .loop cond update body => loopTurn cond update body
  | .apply callee args p   => calledBody callee args p

/-- A failure when it has got out of the job. -/
def blame : Job → Error → Error
  | .apply _ _ p, e => e.orAt p
  | _, e            => e

/-- Where a call stands, if that is known. -/
def site? : Job → Option Position
  | .apply _ _ p => if p.isUnknown then none else some p
  | _            => none

/-- The place of the innermost call that has a known one, of jobs from the outermost to the innermost. -/
def innermost? (js : List Job) : Option Position := js.reverse.findSome? site?

end Job

/-! ### Blame -/

namespace Error

/-- A failure when it has got out of all the jobs. -/
def blamed (js : List Job) (e : Error) : Error := js.foldr Job.blame e

/-- To blame calls for a failure does not change its cause. -/
theorem blamed_cause (js : List Job) (e : Error) : (e.blamed js).cause = e.cause := by
  induction js with
  | nil => rfl
  | cons j js ih =>
      show (j.blame (e.blamed js)).cause = e.cause
      cases j <;> exact ih

/-- A failure at a place stays there. -/
theorem orAt_self (c : Cause) (p : Position) : (⟨c, p⟩ : Error).orAt p = ⟨c, p⟩ := by
  rw [orAt, Position.orElse]
  split <;> rfl

/-- A failure with a known position stays as it is. -/
theorem blame_of_known {e : Error} (h : e.position.isUnknown = false) (j : Job) : j.blame e = e := by
  cases j with
  | apply callee args p =>
      show { e with position := e.position.orElse p } = e
      rw [Position.orElse_of_known h]
  | _ => rfl

/-- What is blamed on a place stays blamed on it. -/
theorem blamed_of_known {e : Error} (h : e.position.isUnknown = false) (js : List Job) :
    e.blamed js = e := by
  induction js with
  | nil => rfl
  | cons j js ih =>
      show j.blame (e.blamed js) = e
      rw [ih, blame_of_known h]

/-- A failure without one gets that of the call, if the call has one. -/
theorem blame_of_site {e : Error} (h : e.position.isUnknown = true) {j : Job} {q : Position}
    (hq : j.site? = some q) : (j.blame e).position = q ∧ q.isUnknown = false := by
  cases j with
  | apply callee args p =>
      simp only [Job.site?] at hq
      split at hq
      · cases hq
      · rename_i known
        cases hq
        exact ⟨Position.orElse_of_isUnknown h q, Bool.not_eq_true _ ▸ known⟩
  | _ => cases hq

/-- Where neither has one, there is none. -/
theorem blame_of_no_site {e : Error} (h : e.position.isUnknown = true) {j : Job}
    (hq : j.site? = none) : (j.blame e).position.isUnknown = true := by
  cases j with
  | apply callee args p =>
      simp only [Job.site?] at hq
      split at hq
      · show (e.position.orElse p).isUnknown = true
        rw [Position.orElse_of_isUnknown h]
        assumption
      · cases hq
  | _ => exact h

/-- What is blamed on no known place is blamed on the innermost call that has one. -/
theorem blamed_of_innermost {js : List Job} {q : Position} : ∀ {e : Error},
    e.position.isUnknown = true → Job.innermost? js = some q → (e.blamed js).position = q := by
  induction js using List.reverseRecOn with
  | nil => intro e _ h; cases h
  | append_singleton js j ih =>
      intro e unknown h
      have out : e.blamed (js ++ [j]) = (j.blame e).blamed js := List.foldr_append ..
      rw [Job.innermost?, List.reverse_append, List.reverse_singleton, List.singleton_append,
        List.findSome?_cons] at h
      rw [out]
      cases site : j.site? with
      | some p =>
          rw [site] at h
          cases h
          obtain ⟨here, known⟩ := blame_of_site unknown site
          rw [blamed_of_known (here ▸ known), here]
      | none =>
          rw [site] at h
          exact ih (blame_of_no_site unknown site) h

end Error

/-- A call that has a position is the innermost one that has, unless there is one inside. -/
theorem Job.innermost?_isSome {p : Position} (h : p.isUnknown = false) (callee : Value)
    (args : List Value) (js : List Job) : ∃ q, innermost? (.apply callee args p :: js) = some q := by
  rw [← Option.isSome_iff_exists, innermost?, List.findSome?_isSome_iff]
  exact ⟨.apply callee args p, by simp, by simp [site?, h]⟩

/-- The position of the innermost call that has one is known. -/
theorem Job.known_of_innermost? {js : List Job} {q : Position} (h : innermost? js = some q) :
    q.isUnknown = false := by
  obtain ⟨j, -, site⟩ := List.exists_of_findSome?_eq_some h
  exact (Error.blame_of_site (e := ⟨.divisionByZero, .unknown⟩) rfl site).2

/-! ### What gets out -/

namespace Progress

/-- One computation is left of another when jobs that it waits for have been answered, any number of
times and without failures. -/
inductive Passes : Progress α → Progress α → Prop where
  | refl (p : Progress α) : Passes p p
  | more {j : Job} {m m' : Machine} {a : j.Answer} {resume : Except Error j.Answer → Machine → Progress α}
      {q : Progress α} (h : j.Answers m (.ok a) m') (t : Passes (resume (.ok a) m') q) :
      Passes (.waiting j m resume) q

/-- What is passed through is come to. -/
theorem Passes.steps {p q : Progress α} (h : p.Passes q) : p.Steps q := by
  induction h with
  | refl p => exact .refl p
  | more h _ ih => exact (h.steps _).trans ih

/-- Told of a failure in a machine where things have been put back, the computation ends with it. -/
def Relays : Progress α → Prop
  | .finished _ _       => True
  | .waiting _ m resume => ∀ m', m.Restored m' →
      (∀ e, ∃ m₂, resume (.error e) m' = .finished (.error e) m₂) ∧ ∀ a, (resume (.ok a) m').Relays
  | .endless            => True

namespace Relays

/-- With a continuation that passes on failures. -/
theorem andThen {Q : Machine → Prop} {k : Except Error α → Machine → Progress β} {p : Progress α}
    (ends : p.Meets restoring fun _ m => Q m) (hp : p.Relays)
    (hk : ∀ r m, Q m → (k r m).Relays)
    (he : ∀ e m, Q m → ∃ m', k (.error e) m = .finished (.error e) m') : (p.andThen k).Relays := by
  induction p with
  | finished r m => exact hk r m ends
  | endless => trivial
  | waiting j m resume ih =>
      intro m' restored
      have resumed := fun r => ends.choose_spec.2 r m' restored
      refine ⟨fun e => ?_, fun a => ih _ _ (resumed _) ((hp m' restored).2 a)⟩
      obtain ⟨m₂, told⟩ := (hp m' restored).1 e
      have end₂ := resumed (.error e)
      rw [told] at end₂
      obtain ⟨m₃, passed⟩ := he e m₂ end₂
      exact ⟨m₃, by simpa only [told, finished_andThen] using passed⟩

/-- What relays failures relays them as far as it gets. -/
theorem passes {p q : Progress α} (h : p.Passes q) : p.Relays → q.Relays := by
  induction h with
  | refl p => exact id
  | more h _ ih => exact fun hp => ih ((hp _ (restoring_kept.answers (g := ()) trivial h)).2 _)

end Relays

end Progress

/-- Wherever it is started, the computation restores and relays. -/
structure Eval.Relays (x : Eval α) : Prop where
  restores : x.Restores
  relays   : ∀ m, (x m).Relays

/-- What ends at once or never, and puts things back. -/
theorem Eval.Relays.of_ends {x : Eval α}
    (h : ∀ m, x m = .endless ∨ ∃ r m', x m = .finished r m' ∧ m.Restored m') : x.Relays := by
  refine ⟨.of_ends h, fun m => ?_⟩
  obtain e | ⟨r, m', e, -⟩ := h m <;> rw [e] <;> trivial

/-- A failure is relayed at its own place. -/
theorem Eval.Relays.fail (c : Cause) (p : Position) : Relays (fail c p : Eval α) :=
  .of_ends fun m => .inr ⟨_, m, rfl, .refl m⟩

/-- So is that of an operator. -/
theorem Eval.Relays.operates : Eval.Operates Relays := .of_begun fun h => .of_ends fun m => by
  obtain ⟨r, e, -⟩ := h m
  exact .inr ⟨r, m, e, .refl m⟩

/-- Plain pieces of evaluation relay failures. -/
theorem Eval.Relays.plain : Eval.Plain Relays where
  ends h := .of_ends fun m => by
    obtain e | ⟨r, m', e, hm, -⟩ := h m
    · exact .inl e
    · exact .inr ⟨r, m', e, hm.toRestored⟩
  ask j := ⟨.ask j, fun m m' _ => ⟨fun e => ⟨m', rfl⟩, fun _ => trivial⟩⟩
  bind hx hf := by
    refine ⟨hx.restores.bind fun a => (hf a).restores, fun m => ?_⟩
    refine .andThen (Q := fun _ => True) ((hx.restores.meets m).mono fun _ _ _ => trivial) (hx.relays m)
      (fun r m₁ _ => ?_) fun e m₁ _ => ⟨m₁, rfl⟩
    cases r with
    | ok a => exact (hf a).relays m₁
    | error e => trivial
  inBlock p x hx := by
    refine ⟨.inBlock p hx.restores, fun m => ?_⟩
    refine .andThen (hx.restores.meets m.pushScope) (hx.relays m.pushScope) (fun r m₁ h => ?_)
      fun e m₁ h => ?_
    · rw [Machine.popScope_of_restored h]
      trivial
    · rw [Machine.popScope_of_restored h]
      exact ⟨_, rfl⟩
  inScope h x hx := by
    refine ⟨.inScope h hx.restores, fun m => ?_⟩
    exact .andThen (hx.restores.meets { m with here := h }) (hx.relays { m with here := h })
      (fun _ _ _ => trivial) fun _ _ _ => ⟨_, rfl⟩
  counted p x hx := by
    refine ⟨.counted p hx.restores, fun m => ?_⟩
    simp only [Eval.counted]
    split
    · exact .andThen (hx.restores.meets { m with callDepth := m.callDepth + 1 })
        (hx.relays { m with callDepth := m.callDepth + 1 }) (fun _ _ _ => trivial) fun _ _ _ => ⟨_, rfl⟩
    · trivial

namespace Job

/-- A property that passes to whatever is made of parts holds of the bodies of all jobs. -/
theorem body_closed {P : {α : Type} → Eval α → Prop} (hP : Eval.Plain P) (j : Job)
    (operates : ∀ e, j = .expr e → e.operates = true → Eval.Operates P) : P j.body := by
  have sparing := hP.sparing
  cases j with
  | expr e => exact e.start_closed hP (operates e rfl)
  | stmt s => exact s.start_closed sparing
  | loop cond update body => exact loopTurn_closed sparing cond update body
  | apply callee args p =>
      cases callee with
      | function f => exact callClosure_closed sparing f args
      | cls c => exact instantiate_closed sparing c args
      | builtin b => exact b.apply_closed sparing args p
      | _ => exact sparing.bind (sparing.textOf _) fun _ => sparing.fail _ _ ⟨rfl, rfl⟩

/-- No job blames anything before its body has ended. -/
theorem body_relays (j : Job) : j.body.Relays :=
  body_closed Eval.Relays.plain j fun _ _ _ => Eval.Relays.operates

/-- A builtin gives its own failures a place. -/
theorem blame_builtin (b : Builtin) (args : List Value) (p : Position) (m : Machine) :
    orAt p (b.apply args p) m = b.apply args p m := by
  simp only [orAt, Builtin.apply]
  split
  · split
    · rfl
    · rw [finished_andThen, Except.mapError, Error.orAt_self]
    · rfl
  · rw [finished_andThen, Except.mapError, Error.orAt_self]

/-- So does the failure to call what cannot be called. -/
theorem blame_uncallable (v : Value) (p : Position) (m : Machine) :
    orAt p (textOf v >>= fun text => (fail (.notCallable text) p : Eval Value)) m =
      (textOf v >>= fun text => (fail (.notCallable text) p : Eval Value)) m := by
  simp only [orAt, bind_apply, textOf]
  cases m.heap.text? v with
  | some text =>
      show Progress.finished (.error ((⟨.notCallable text, p⟩ : Error).orAt p)) m = _
      rw [Error.orAt_self]
      rfl
  | none => rfl

/-- A job ends as its body does, only that a call blames failures on itself. Some calls do so from the
start, and need not do it again. -/
theorem start_eq (j : Job) (m : Machine) :
    j.start m = (j.body m).andThen fun r m' => .finished (r.mapError j.blame) m' := by
  have unblamed (p : Progress j.Answer) (h : j.blame = id) :
      p = p.andThen fun r m' => .finished (r.mapError j.blame) m' := by
    have same : (fun (r : Except Error j.Answer) m' => Progress.finished (r.mapError j.blame) m') =
        Progress.finished := by
      funext r m'
      rw [h]
      cases r <;> rfl
    rw [same, andThen_finished]
  cases j with
  | expr e => exact unblamed _ rfl
  | stmt s => exact unblamed _ rfl
  | loop cond update body => exact unblamed _ rfl
  | apply callee args p =>
      cases callee with
      | function f => rfl
      | cls c => rfl
      | builtin b => exact (blame_builtin b args p m).symm
      | _ => exact (blame_uncallable _ p m).symm

/-- Something fails in the job, before anything is blamed on a call: the job itself does, or one that it
asks for. The jobs between are told from the outermost to the innermost. -/
inductive Raises : Job → Machine → Error → List Job → Prop where
  | here {j : Job} {m m' : Machine} {e : Error}
      (h : (j.body m).Passes (.finished (.error e) m')) : Raises j m e []
  | inside {j j' : Job} {m m' : Machine} {e : Error} {js : List Job}
      {resume : Except Error j'.Answer → Machine → Progress j.Answer}
      (h : (j.body m).Passes (.waiting j' m' resume)) (hr : Raises j' m' e js) :
      Raises j m e (j' :: js)

/-- What ends the body ends the job. -/
theorem answers_of_body {j : Job} {m m' : Machine} {e : Error}
    (h : (j.body m).Steps (.finished (.error e) m')) : j.Answers m (.error (j.blame e)) m' := by
  rw [answers_iff_steps, start_eq]
  exact h.andThen _

/-- What is raised gets out. -/
theorem Raises.answers {j : Job} {m : Machine} {e : Error} {js : List Job} (h : j.Raises m e js) :
    ∃ m', j.Answers m (.error (e.blamed (j :: js))) m' := by
  induction h with
  | here h => exact ⟨_, answers_of_body h.steps⟩
  | @inside j j' m m₁ e js resume h hr ih =>
      obtain ⟨m₂, answered⟩ := ih
      have restored := restoring_kept.answers (g := ()) trivial answered
      obtain ⟨m₃, told⟩ := ((j.body_relays.relays m).passes h m₂ restored).1 (e.blamed (j' :: js))
      refine ⟨m₃, answers_of_body (e := e.blamed (j' :: js)) ?_⟩
      exact told ▸ h.steps.trans (answered.steps resume)

/-- A computation that fails has come to its own failure, or to a job that fails. -/
theorem fails_of_complete {depth : Nat} {p : Progress α} {e : Error} {m : Machine}
    (h : p.complete (run depth) = some (.error e, m)) :
    p.Passes (.finished (.error e) m) ∨ ∃ (j : Job) (m₁ : Machine) (resume : _) (e₁ : Error) (m₂ : _),
      p.Passes (.waiting j m₁ resume) ∧ j.run depth m₁ = some (.error e₁, m₂) := by
  induction p with
  | finished r m₁ =>
      cases h
      exact .inl (.refl _)
  | endless => cases h
  | waiting j m₁ resume ih =>
      simp only [complete] at h
      split at h
      · rename_i r m₂ answered
        cases r with
        | error e₁ => exact .inr ⟨j, m₁, resume, e₁, m₂, .refl _, answered⟩
        | ok a =>
            rcases ih _ _ h with own | ⟨j', m₃, resume', e₁, m₄, passes, failed⟩
            · exact .inl (.more ⟨depth, answered⟩ own)
            · exact .inr ⟨j', m₃, resume', e₁, m₄, .more ⟨depth, answered⟩ passes, failed⟩
      · cases h

/-- What gets out was raised. -/
theorem exists_raises {depth : Nat} : ∀ {j : Job} {m : Machine} {e : Error} {m' : Machine},
    j.run depth m = some (.error e, m') → ∃ e₀ js, j.Raises m e₀ js := by
  induction depth with
  | zero => intro j m e m' h; cases h
  | succ depth ih =>
      intro j m e m' h
      have h : (j.start m).complete (run depth) = some (.error e, m') := h
      rw [start_eq, complete_andThen] at h
      obtain ⟨⟨r, m₁⟩, ended, h⟩ := Option.bind_eq_some_iff.mp h
      cases r with
      | ok a => cases h
      | error e₁ =>
          rcases fails_of_complete ended with own | ⟨j', m₂, resume, e₂, m₃, passes, failed⟩
          · exact ⟨e₁, [], .here own⟩
          · obtain ⟨e₀, js, raised⟩ := ih failed
            exact ⟨e₀, j' :: js, .inside passes raised⟩

end Job

/-- **Failures keep the innermost known place.** A call with a known place that fails reports a known
place, and what it reports was raised somewhere in it. Whatever is raised in it, however deep, makes the
call fail for that cause: at the place where it was raised, if that is known, and otherwise at the
innermost call around it that has a known place. -/
theorem call_blames_innermost (callee : Value) (args : List Value) {p : Position}
    (known : p.isUnknown = false) (m : Machine) :
    (∀ e m', (Job.apply callee args p).Answers m (.error e) m' →
      e.position.isUnknown = false ∧ ∃ e₀ js, (Job.apply callee args p).Raises m e₀ js) ∧
    (∀ e₀ js, (Job.apply callee args p).Raises m e₀ js →
      ∃ e m', (Job.apply callee args p).Answers m (.error e) m' ∧ e.cause = e₀.cause ∧
        (e₀.position.isUnknown = false → e.position = e₀.position) ∧
        (e₀.position.isUnknown = true →
          Job.innermost? (.apply callee args p :: js) = some e.position)) := by
  have raised : ∀ e₀ js, (Job.apply callee args p).Raises m e₀ js →
      ∃ e m', (Job.apply callee args p).Answers m (.error e) m' ∧ e.cause = e₀.cause ∧
        (e₀.position.isUnknown = false → e.position = e₀.position) ∧
        (e₀.position.isUnknown = true →
          Job.innermost? (.apply callee args p :: js) = some e.position) := by
    intro e₀ js h
    obtain ⟨m', answered⟩ := h.answers
    refine ⟨_, m', answered, e₀.blamed_cause _, fun at₀ => ?_, fun unknown => ?_⟩
    · rw [Error.blamed_of_known at₀]
    · obtain ⟨q, innermost⟩ := Job.innermost?_isSome known callee args js
      rw [innermost, Error.blamed_of_innermost unknown innermost]
  refine ⟨fun e m' h => ?_, raised⟩
  obtain ⟨depth, run⟩ := h
  obtain ⟨e₀, js, h₀⟩ := Job.exists_raises run
  obtain ⟨e', m₁, answered, -, own, call⟩ := raised e₀ js h₀
  obtain ⟨same, -⟩ := Job.Answers.unique ⟨depth, run⟩ answered
  cases same
  refine ⟨?_, e₀, js, h₀⟩
  cases at₀ : e₀.position.isUnknown with
  | false => rw [own at₀, at₀]
  | true => exact Job.known_of_innermost? (call at₀)

/-- `function f() { return print(); }`, where the call of `print` stands at no known place. -/
def printing : FuncDecl := ⟨.ofLine 3, .any, "f", [], [],
  [.ret .unknown (some (.call .blank (.name .blank "print") []))]⟩

/-- The call of `print` is the one that is raised, without a position. -/
theorem printing_raises : (Job.apply (.function ⟨9, printing, (Machine.start .standard "").here⟩) []
    (.ofLine 7)).Raises (Machine.start .standard "") ⟨.callArityMismatch "print" 1 0, .unknown⟩
      [.stmt (.ret .unknown (some (.call .blank (.name .blank "print") []))),
        .expr (.call .blank (.name .blank "print") []), .apply (.builtin .print) [] .unknown] :=
  .inside (.refl _) (.inside (.refl _) (.inside (.more ⟨1, rfl⟩ (.refl _)) (.here (.refl _))))

/-- The failure gets the position of the call of the function, since the call inside has none. -/
theorem call_blames_innermost_printing : ∃ e m', (Job.apply (.function ⟨9, printing,
    (Machine.start .standard "").here⟩) [] (.ofLine 7)).Answers (Machine.start .standard "") (.error e) m' ∧
      e = ⟨.callArityMismatch "print" 1 0, .ofLine 7⟩ := by
  obtain ⟨e, m', answered, cause, -, call⟩ := (call_blames_innermost _ [] (by decide) _).2 _ _
    printing_raises
  refine ⟨e, m', answered, ?_⟩
  have place : Job.innermost? _ = some e.position := call rfl
  cases e
  cases cause
  cases place
  rfl

end Brace
