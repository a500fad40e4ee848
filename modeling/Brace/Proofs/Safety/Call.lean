import Brace.Proofs.Run.Restore
import Brace.Proofs.Safety.Stmt

/-!
# Safety — calls

A function that is fit for the run, called with arguments that are of the types of its parameters,
gives a value of the type that it is declared to give. Its body runs in a new frame inside the scope
that the function carries along, so what checking knew at the declaration is known there.

* `sound_kept`: every job keeps the contract, so what it says holds all along a run.
-/

namespace Brace

open Eval

variable {P : Plan} {s : Site} {Γ : Scene}

/-! ### Built-in functions -/

/-- What a built-in function gives is plain and of the type that it is said to give. -/
theorem Builtin.call_settles {b : Builtin} {args : List Value} {m m' : Machine}
    {r : Except Cause Value} (h : b.call args m = some (r, m')) :
    Value.Settles (fun v => v.isPlain = true ∧ ∀ full heap, v.Fits full heap b.returns) r := by
  unfold Builtin.call at h
  split at h
  · obtain ⟨text, -, e⟩ := Option.map_eq_some_iff.mp h
    cases e
    exact ⟨rfl, fun _ _ => .void⟩
  · obtain ⟨text, -, e⟩ := Option.map_eq_some_iff.mp h
    split at e <;> cases e
    · exact ⟨rfl, fun _ _ => .str _⟩
    · rfl
  · cases h
    exact ⟨rfl, fun _ _ => .int _⟩
  · cases h
    exact ⟨rfl, fun _ _ => .int _⟩
  · cases h
    rfl
  · cases h
    exact ⟨rfl, fun _ _ => .str _⟩
  · cases h
    rfl

/-- A built-in function blames what it is given. -/
theorem Builtin.call_fails {b : Builtin} {args : List Value} {m m' : Machine} {c : Cause}
    (h : b.call args m = some (.error c, m')) (reason : String) : c ≠ .internalError reason := by
  unfold Builtin.call at h
  split at h
  · obtain ⟨text, -, e⟩ := Option.map_eq_some_iff.mp h
    cases e
  · obtain ⟨text, -, e⟩ := Option.map_eq_some_iff.mp h
    split at e <;> cases e
    nofun
  all_goals
    cases h
    try nofun

/-- A built-in function only goes on forever over an argument without a text. -/
theorem Builtin.call_endless {b : Builtin} {args : List Value} {m : Machine}
    (h : b.call args m = none) : ∃ v ∈ args, m.heap.text? v = none := by
  unfold Builtin.call at h
  split at h
  · exact ⟨_, List.mem_singleton_self _, Option.map_eq_none_iff.mp h⟩
  · exact ⟨_, List.mem_singleton_self _, Option.map_eq_none_iff.mp h⟩
  all_goals cases h

/-- What is passed to a function is of the types of its parameters, also later on. -/
theorem Plan.Calls.passed {f : Closure} {args : List Value} (h : P.Calls (.function f) args s)
    {own : Option FrameId} {s' : Site} (reached : s.Reaches P own s') :
    ∀ x ∈ f.decl.params.zip args, x.2.Ok P s' ∧ P.Suits s'.heap x.1.ty x.2 := by
  intro x hx
  have given : x.2.Ok P s := h.given x.2 (List.of_mem_zip hx).2
  have paired : (x.1.ty, x.2) ∈ (Value.function f).params.zip args := by
    rw [Value.params, List.zip_map_left]
    exact List.mem_map_of_mem hx
  exact ⟨given.grown reached.later.toGrown h.ok.toFramed reached.ok.toFramed,
    (h.suits _ paired).grown reached.later.heap⟩

namespace Eval.Gives

/-- A builtin gives a value of the type that it returns, whatever it gets. -/
theorem builtin (ok : s.Ok P) (b : Builtin) {args : List Value} (hargs : ∀ v ∈ args, v.Ok P s)
    (p : Position) :
    (b.apply args p).Gives P none s fun v s' => v.Ok P s' ∧ P.Suits s'.heap b.returns v := by
  have kept {r : Except Cause Value} {m : Machine} (e : b.call args s.machine = some (r, m)) :
      s.Reaches P none ⟨s.world, m⟩ := by
    obtain ⟨input, output, rfl⟩ := Builtin.call_io e
    exact .same ok rfl rfl rfl rfl
  simp only [Gives, Builtin.apply]
  split
  · split
    · rename_i e
      obtain ⟨hp, hfits⟩ := Builtin.call_settles e
      exact ⟨s.world, kept e, Value.ok_of_plain hp, fun _ _ => hfits _ _⟩
    · rename_i e
      exact ⟨s.world, kept e, .other (Builtin.call_settles e) fun reason h =>
        absurd h (Builtin.call_fails e reason)⟩
    · rename_i e
      obtain ⟨v, hv, missing⟩ := Builtin.call_endless e
      exact fun settled => ok.text?_ne_none settled (hargs v hv) missing
  · exact ⟨s.world, .refl ok, .other rfl (by rintro _ ⟨⟩)⟩

/-! ### Functions -/

/-- Parameters are bound one after another in a frame that is new. -/
theorem params {k : Handle} (p : Position) (inner : 1 < k.frame) :
    ∀ {ps : List Param} {vs : List Value} {Γ : Scene} {s : Site}, Ready P Γ (s.moved k) →
      Open Γ k.frame s → Γ.NewParams ps → ps.length = vs.length →
      (∀ x ∈ ps, .name x.name ∈ P.program.parts) →
      (∀ x ∈ ps.zip vs, x.2.Ok P s ∧ P.Suits s.heap x.1.ty x.2) →
      (bindParams k p ps vs).Gives P (some k.frame) s fun _ s' =>
        Ready P (Γ.bindParams ps) (s'.moved k) ∧ Open (Γ.bindParams ps) k.frame s' := by
  intro ps
  induction ps with
  | nil =>
      intro vs Γ s hr ho _ hl _ _
      exact pure (hr.ok.moved s.machine.here) ⟨hr, ho⟩
  | cons x ps ih =>
      intro vs Γ s hr ho hnew hl hnames hvs
      cases vs with
      | nil => cases hl
      | cons v vs =>
          obtain ⟨⟨hv, hsuits⟩, hvs⟩ := List.forall_mem_cons.mp hvs
          obtain ⟨hname, hnames⟩ := List.forall_mem_cons.mp hnames
          have ok : s.Ok P := hr.ok.moved s.machine.here
          have top : P.Declares k.frame x.name (.var x.ty) := fun e =>
            absurd e (Nat.ne_of_gt inner)
          have takes : (Symbol.var x.ty).Takes P s.heap v := hsuits
          have first := Adds.defineAt hr ho hnew.1 (fun hu => (hu _ hname).2) top trivial
            ((ho.mayName hnew.1 top trivial).lift ok hv _) takes p
          refine bind_own first.gives ?_
          rintro _ s₁ h₁ ⟨-, hr₁, ho₁, -⟩
          refine ih hr₁ ho₁ hnew.2 (Nat.succ.inj hl) hnames fun y hy => ?_
          obtain ⟨hok, hs⟩ := hvs y hy
          exact ⟨hok.grown h₁.later.toGrown ok.toFramed h₁.ok.toFramed, hs.grown h₁.later.heap⟩

/-- What the body leaves is of the type that the function gives. No loop is left open. -/
theorem result (ok : s.Ok P) {f : FuncDecl} (hs : f.Sound P.classes Γ) {flow : Flow}
    (hf : flow.Ok P (Γ.ofFunction f) s) (hret : Stmt.anyReturns f.body = true → flow ≠ .normal) :
    (result f flow).Gives P none s fun v s' => v.Ok P s' ∧ P.Suits s'.heap f.returns v := by
  cases flow with
  | normal =>
      refine pure ok ⟨trivial, ?_⟩
      rcases hs.returns with e | e
      · rw [e]
        exact fun _ _ => .void
      · exact absurd rfl (hret e)
  | ret v => exact pure ok ⟨hf.1, hf.2 _ rfl⟩
  | breakLoop => cases hf
  | continueLoop => cases hf

/-- The body of a function, in the frame that has its parameters. -/
theorem inCall {f : FuncDecl} {k : Handle} (ok : s.Ok P)
    (hr : Ready P (Γ.enter.bindParams f.params) (s.moved k))
    (ho : Open (Γ.enter.bindParams f.params) k.frame s) (inner : 1 < k.frame)
    (hf : f.Sound P.classes Γ)
    (hc : P.Covers (VarDecl.placedAll (Γ.ofFunction f) f.locals ++
      Stmt.placedAll ((Γ.ofFunction f).declareAll f.locals) f.body)) :
    (Eval.counted f.pos (Eval.inScope k (runBody f.locals f.body))).Gives P (some k.frame) s
      fun flow s' => flow.Ok P (Γ.ofFunction f) s' ∧
        (Stmt.anyReturns f.body = true → flow ≠ .normal) := by
  have stable := Flow.Ok.stable_and (P := P) (Γ.ofFunction f) fun flow =>
    Stmt.anyReturns f.body = true → flow ≠ .normal
  have deeper : (s.moved k).Reaches P none ⟨s.world,
      { (s.moved k).machine with callDepth := s.machine.callDepth + 1 }⟩ :=
    .same hr.ok rfl rfl rfl rfl
  have hr' := hr.later deeper.later deeper.ok
  have done := body (Γ := Γ.ofFunction f) ⟨hr'.ok, hr'.inside, hr'.sees, hr'.seated⟩
    ⟨ho.lt, ho.inner, ho.shut, ho.own⟩ inner hf.locals hf.body hc
  exact counted ok stable _ (inScope stable done)

/-- A function gives a value of the type that it returns. -/
theorem callClosure {f : Closure} {args : List Value} (h : P.Calls (.function f) args s) :
    (callClosure f args).Gives P none s fun v s' => v.Ok P s' ∧ P.Suits s'.heap f.decl.returns v := by
  obtain ⟨Γ, hk, hd, declared⟩ := h.fit
  have hc := Plan.Covers.function declared
  rw [FuncDecl.placed] at hc
  simp only [Eval.callClosure]
  split
  · rename_i hl
    have opened : s.Reaches P (some s.next) ⟨s.world, (s.machine.openFrame f.scope).2⟩ :=
      h.ok.openFrame (hk.rooted.lt h.ok.toFramed)
    obtain ⟨hr, ho⟩ := h.ok.openFrame_ready (hk.rooted.inside h.ok.toFramed) hk.sees hk.seated
    have inner : 1 < s.next := h.ok.size
    -- The call leaves behind only names in a frame that the caller does not have.
    refine forget (Nat.le_refl _) (bind_own (make opened (R := fun k s₁ =>
      k.frame = s.next ∧ Ready P Γ.enter (s₁.moved k) ∧ Open Γ.enter k.frame s₁ ∧
        ∀ x ∈ f.decl.params.zip args, x.2.Ok P s₁ ∧ P.Suits s₁.heap x.1.ty x.2) ?_) ?_) h.ok
    · exact ⟨rfl, hr, ⟨ho.lt, ho.inner, ho.shut, ho.own⟩, h.passed opened⟩
    · rintro k s₁ h₁ ⟨hnext, hr₁, ho₁, hargs⟩
      have names : ∀ x ∈ f.decl.params, .name x.name ∈ P.program.parts := fun x hx =>
        hc.left.name (List.mem_map_of_mem hx)
      rw [← hnext] at inner ⊢
      refine bind_own (params f.decl.pos inner hr₁ ho₁ hd.params hl.symm names hargs) ?_
      rintro _ s₂ h₂ ⟨hr₂, ho₂⟩
      refine bind_own (inCall h₂.ok hr₂ ho₂ inner hd hc.right) ?_
      rintro flow s₃ h₃ ⟨hf, hret⟩
      exact (result h₃.ok hd hf hret).weaken
  · exact fail_other h.ok _ rfl (by rintro _ ⟨⟩)

/-! ### Classes -/

/-- A class gives an object of the class, when its `init` method has been run. -/
theorem instantiate {c : Class} {args : List Value} (h : P.Calls (.cls c) args s) :
    (instantiate c args).Gives P none s fun v s' => v.Ok P s' := by
  have hn := h.classless c rfl
  have made : s.Reaches P none ⟨s.world, (s.machine.newObject c).2⟩ := h.ok.newObject
  refine bind (make made (R := fun o s₁ => o.cls = c ∧ s.Reaches P none s₁) ⟨rfl, made⟩) ?_
  rintro o s₁ h₁ ⟨rfl, -⟩
  have lift {v : Value} (hv : v.Ok P s) : v.Ok P s₁ :=
    hv.grown h₁.later.toGrown h.ok.toFramed h₁.ok.toFramed
  have ho : (Value.object o).Ok P s₁ := lift (v := .object o) ⟨hn, h.fit⟩
  split
  · rename_i init e
    obtain ⟨ht, hm⟩ := Class.mem_of_methodIn e
    refine bind (bindMethod h₁.ok ho (ho.2.tiers _ ht) hm) fun f s₂ h₂ hf => ?_
    have lift₂ {v : Value} (hv : v.Ok P s₁) : v.Ok P s₂ :=
      hv.grown h₂.later.toGrown h₁.ok.toFramed h₂.ok.toFramed
    have calls : P.Calls (.function f) args s₂ :=
      ⟨h₂.ok, hf, fun v hv => lift₂ (lift (h.given v hv)), fun _ _ hT => absurd hT hn, nofun⟩
    refine bind (callClosure calls) fun _ s₃ h₃ _ => pure h₃.ok ?_
    exact Value.ok_stable (.object o) _ _ h₃.later.toGrown h₂.ok h₃.ok (lift₂ (v := .object o) ho)
  · split
    · exact pure h₁.ok ho
    · exact fail_other h₁.ok _ rfl (by rintro _ ⟨⟩)

/-- Calls of whatever can be called. -/
theorem applyTo {callee : Value} {args : List Value} (h : P.Calls callee args s) (p : Position) :
    (applyTo callee args p).Gives P none s fun v s' =>
      v.Ok P s' ∧ P.Suits s'.heap callee.returns v := by
  cases callee with
  | function f => exact orAt p (callClosure h)
  | builtin b => exact builtin h.ok b h.given p
  | cls c =>
      exact orAt p ((instantiate h).mono fun v s' _ hv =>
        ⟨hv, fun hT => absurd hT (h.classless c rfl)⟩)
  | _ => exact bind (textOf h.ok h.fit) fun text s₁ h₁ _ => fail_other h₁.ok p rfl (by rintro _ ⟨⟩)

end Eval.Gives

/-- What a job starts with gives what the job is answered with. -/
theorem Job.gives_start (j : Job) (h : P.Asks Γ j s) : j.start.Gives P none s (P.Answers Γ j) := by
  cases j with
  | expr e => exact e.gives_start h.1 h.2.1 h.2.2
  | stmt t => exact t.gives_start h.1 h.2.1 h.2.2
  | loop cond update body => exact Gives.turn h
  | apply callee args p => exact Gives.applyTo h p

/-- Every job keeps the contract. -/
theorem sound_kept (P : Plan) : P.sound.Kept := fun ⟨W, _⟩ j m h =>
  (j.gives_start (s := ⟨W, m⟩) h).of_having

/-- Whatever a run has come by, every job comes by. -/
theorem since_kept (P : Plan) (own : Option FrameId) (s : Site) : (P.since own s).Kept :=
  fun ⟨W, _⟩ j m h =>
    Progress.Meets.having_mono (fun _ _ hs => h.2.trans hs.weaken) (j.gives_start (s := ⟨W, m⟩) h.1)

end Brace
