import Brace.Proofs.Run.Begun
import Brace.Proofs.Run.Contract
import Brace.Proofs.Safety.Arrays
import Brace.Proofs.Safety.Reasons

/-!
# Safety — the contract that runs of accepted programs keep

A job for a piece of a program may be asked for where the run is at a place of that piece
(`Plan.Asks`): the piece is sound in a scene, and the names of the scene are what checking knew.
What the answer is like is told by `Plan.Answers`. The scene and the world are the ghosts of the
contract: checking has thrown the one away, and no machine shows the other. Where types are known,
whatever is shown has a text.

`Eval.Gives` is what is said of a piece of evaluation: it keeps the contract, comes to a site that
is as it should be, and gives a result with `R`. It adds names to no frame but `own`. Wherever it
asks for a job, that is so, and functions and classes have kept their names (`Plan.since`). What
gives a name to a frame does so at its very end, so nothing is added where it fails (`Eval.Adds`).
-/

namespace Brace

variable {α β : Type}

/-- How a site carries on is no matter to `R`. -/
def Plan.Stable (P : Plan) (R : α → Site → Prop) : Prop :=
  ∀ a s s', s.Grown s' → s.Ok P → s'.Ok P → R a s → R a s'

/-! ### The contract -/

/-- What is known of the value of an expression by its form: a literal gives itself, a name gives
what it may hold, and where types are known, nothing has properties. -/
def Expr.Shows (P : Plan) (Γ : Scene) : Expr → Value → Heap → Prop
  | .literal _ l, v, _ => v = .ofLiteral l
  | .name _ x, v, h => ∃ known met, Γ.means x = some known ∧ P.Stands x known met ∧ met.Takes P h v
  | .get .., _, _ | .superMethod .., _, _ => ¬ P.program.Settled
  | _, _, _ => True

/-- What evaluating the expression may give where `Γ` is known. -/
structure Expr.Yields (P : Plan) (Γ : Scene) (e : Expr) (v : Value) (s : Site) : Prop where
  ok    : v.Ok P s
  typed : P.program.Settled →
    ∃ t, e.ty? = some t ∧ (t.isAnyFree = true → v.Fits P.program.Typed s.heap t)
  shows : e.Shows P Γ v s.heap

/-- Where types are known, a value that an expression gives fits the type that checking has noted. -/
theorem Expr.Yields.suits {P : Plan} {Γ : Scene} {e : Expr} {v : Value} {s : Site}
    (h : e.Yields P Γ v s) (ht : P.program.Typed) :
    ∃ t, e.ty? = some t ∧ (t.isAnyFree = true → v.Fits P.program.Typed s.heap t) :=
  h.typed ht.settled

/-- How a statement may end that stands where `Γ` is known. -/
def Flow.Ok (P : Plan) (Γ : Scene) : Flow → Site → Prop
  | .normal, _ => True
  | .ret v, s => v.Ok P s ∧ ∀ f, Γ.function = some f → P.Suits s.heap f.returns v
  | .breakLoop, _ | .continueLoop, _ => Γ.inLoop = true

namespace Value

/-- The types of the arguments of a function. -/
def params : Value → List Ty
  | .function f => f.decl.params.map (·.ty)
  | .builtin b  => b.params
  | _           => []

/-- The type of what a function gives. -/
def returns : Value → Ty
  | .function f => f.decl.returns
  | .builtin b  => b.returns
  | _           => .any

end Value

namespace Plan

variable (P : Plan)

/-- What a run may give as the reason of an internal error. Where types are known, it is about
operands, or about what a name holds in the place of an array. -/
structure Excuses (reason : String) : Prop where
  contained : ¬ Escaped reason
  settled   : P.program.Settled → P.program.SupersClasses →
    (Cause.internalError reason).isOfOperands = true

/-- A run may fail so. -/
structure Allows (c : Cause) : Prop where
  names     : P.program.Unreserved → c.isOfNames = false
  constants : P.program.ScansVariables → ∀ x, c ≠ .assignToConstant x
  internal  : ∀ reason, c = .internalError reason → P.Excuses reason

/-- A call may be asked for: what is called and the arguments are fit for the run, and each argument
is of the type of its parameter. Where types are known, no class is called. -/
structure Calls (callee : Value) (args : List Value) (s : Site) : Prop where
  ok        : s.Ok P
  fit       : callee.Ok P s
  given     : ∀ v ∈ args, v.Ok P s
  suits     : ∀ x ∈ callee.params.zip args, P.Suits s.heap x.1 x.2
  classless : ∀ c, callee = .cls c → ¬ P.program.Settled

/-- The job may be asked for where `Γ` is known. -/
def Asks (Γ : Scene) : Job → Site → Prop
  | .expr e, s => Ready P Γ s ∧ e.Sound P.classes Γ ∧ P.Covers (e.placed Γ)
  | .stmt t, s => Ready P Γ s ∧ t.Sound P.classes Γ ∧ P.Covers (t.placed Γ)
  | .loop cond update body, s => Ready P Γ s ∧
      (cond.Sound P.classes Γ ∧ P.Covers (cond.placed Γ)) ∧
      (∀ u, update = some u → u.Sound P.classes Γ ∧ P.Covers (u.placed Γ)) ∧
      body.Sound P.classes (Γ.looping true) ∧ P.Covers (body.placed (Γ.looping true))
  | .apply callee args _, s => P.Calls callee args s

/-- What the job may be answered with. -/
def Answers (Γ : Scene) : (j : Job) → j.Answer → Site → Prop
  | .expr e, v, s => e.Yields P Γ v s
  | .stmt t, flow, s => flow.Ok P Γ s ∧ (t.alwaysReturns = true → flow ≠ .normal)
  | .loop .., flow, s => flow.Ok P (Γ.looping false) s
  | .apply callee _ _, v, s => v.Ok P s ∧ P.Suits s.heap callee.returns v

/-- A result, or a failure that a run may end in. -/
def Ends (R : α → Site → Prop) : Except Error α → Site → Prop
  | .ok a, s    => R a s
  | .error e, _ => P.Allows e.cause

/-- What runs of the program keep. -/
def sound : Contract where
  Ghost := World × Scene
  pre g j m := P.Asks g.2 j ⟨g.1, m⟩
  post g j m r m' := ∃ W, Site.Reaches P none ⟨g.1, m⟩ ⟨W, m'⟩ ∧ P.Ends (P.Answers g.2 j) r ⟨W, m'⟩
  endless := ¬ P.program.Settled

/-- What runs of the program keep that have come by the site. -/
def since (own : Option FrameId) (s : Site) : Contract :=
  P.sound.having fun (g : World × Scene) m => s.Stays P own ⟨g.1, m⟩

end Plan

namespace Plan.Allows

variable {P : Plan} {c : Cause}

/-- A failure that is not about bindings. -/
theorem other (hc : c.isOfBindings = false)
    (hi : ∀ reason, c = .internalError reason → P.Excuses reason) : P.Allows c := by
  refine ⟨fun _ => ?_, fun _ x e => ?_, hi⟩
  · cases c <;> first | rfl | cases hc
  · rw [e] at hc
    cases hc

end Plan.Allows

/-- The piece of evaluation keeps the contract from `s` on, gives what has `R`, and gives names to
`own` alone among the frames that are there. -/
def Eval.Gives (x : Eval α) (P : Plan) (own : Option FrameId) (s : Site) (R : α → Site → Prop) :
    Prop :=
  (x s.machine).Meets (P.since own s) fun r m => ∃ W, s.Reaches P own ⟨W, m⟩ ∧ P.Ends R r ⟨W, m⟩

/-- The piece of evaluation gives a name to the frame, if it does not fail, and asks for nothing after
that. -/
def Eval.Adds (x : Eval α) (P : Plan) (i : FrameId) (s : Site) (R : α → Site → Prop) : Prop :=
  (x s.machine).Meets (P.since none s) fun r m => match r with
    | .ok a    => ∃ W, s.Reaches P (some i) ⟨W, m⟩ ∧ R a ⟨W, m⟩
    | .error e => ∃ W, s.Reaches P none ⟨W, m⟩ ∧ P.Allows e.cause

variable {P : Plan} {s : Site} {own : Option FrameId} {R R' : α → Site → Prop}

/-! ### What stays so -/

/-- What an expression has shown it shows still when the heap has grown. -/
theorem Expr.Shows.grown {Γ : Scene} {h h' : Heap} (le : h.Grown h') {e : Expr} {v : Value}
    (hv : e.Shows P Γ v h) : e.Shows P Γ v h' := by
  cases e with
  | name n x =>
      obtain ⟨known, met, hx, hs, ht⟩ := hv
      exact ⟨known, met, hx, hs, ht.grown le⟩
  | _ => exact hv

/-- A value that an expression may give is one that it may give later on. -/
theorem Expr.Yields.stable (Γ : Scene) (e : Expr) : P.Stable (e.Yields P Γ) := by
  rintro v s s' h ok ok' ⟨hv, hs, hl⟩
  refine ⟨hv.grown h ok.toFramed ok'.toFramed, fun hT => ?_, hl.grown h.heap⟩
  obtain ⟨t, ht, hs⟩ := hs hT
  exact ⟨t, ht, fun ha => (hs ha).grown h.heap⟩

/-- Where a statement has ended as it may, it has done so later on. -/
theorem Flow.Ok.stable (Γ : Scene) : P.Stable (Flow.Ok P Γ) := by
  intro flow s s' h ok ok' hf
  cases flow with
  | ret v => exact ⟨hf.1.grown h ok.toFramed ok'.toFramed, fun f e => (hf.2 f e).grown h.heap⟩
  | _ => exact hf

theorem Flow.Ok.stable_and (Γ : Scene) (Q : Flow → Prop) :
    P.Stable fun (flow : Flow) s => flow.Ok P Γ s ∧ Q flow := fun flow _ _ h ok ok' hf =>
  ⟨Flow.Ok.stable Γ flow _ _ h ok ok' hf.1, hf.2⟩

/-- A value that is as it should be is so later on. -/
theorem Value.ok_stable : P.Stable fun (v : Value) s => v.Ok P s :=
  fun _ _ _ h ok ok' hv => hv.grown h ok.toFramed ok'.toFramed

namespace Eval.Gives

/-! ### Single steps -/

/-- A computation that ends at once gives what is so where it ends. -/
theorem of_finished {x : Eval α} {a : α} {W : World} {m : Machine}
    (e : x s.machine = .finished (.ok a) m) (h : s.Reaches P own ⟨W, m⟩) (hR : R a ⟨W, m⟩) :
    x.Gives P own s R := by
  rw [Gives, e]
  exact ⟨W, h, hR⟩

/-- What is so of the site is so where nothing is done. -/
theorem pure (ok : s.Ok P) {a : α} (hR : R a s) : (Pure.pure a : Eval α).Gives P own s R :=
  of_finished rfl (.refl ok) hR

/-- A failure is sound if a run may end in it. -/
theorem fail (ok : s.Ok P) {c : Cause} (p : Position) (hc : P.Allows c) :
    (fail c p : Eval α).Gives P own s R := ⟨s.world, .refl ok, hc⟩

/-- A failure that is not about bindings. -/
theorem fail_other (ok : s.Ok P) {c : Cause} (p : Position) (hc : c.isOfBindings = false)
    (hi : ∀ reason, c = .internalError reason → P.Excuses reason) :
    (Eval.fail c p : Eval α).Gives P own s R := fail ok p (.other hc hi)

/-- A result that is given from outside is sound if its failures are such that a run may end in them.
-/
theorem ofExcept (ok : s.Ok P) (p : Position) {r : Except Cause α} {Q : α → Prop}
    (hr : Value.Settles Q r) (hi : ∀ reason, r = .error (.internalError reason) → P.Excuses reason)
    (hR : ∀ a, r = .ok a → Q a → R a s) : (ofExcept p r).Gives P own s R := by
  cases r with
  | ok a => exact pure ok (hR a rfl hr)
  | error c => exact fail_other ok p hr fun reason e => hi reason (congrArg Except.error e)

/-- Only where types are not known may a run go on forever over a value without a text. -/
theorem endless (h : ¬ P.program.Settled) : (endless : Eval α).Gives P own s R := h

theorem view (ok : s.Ok P) (f : Machine → α) (hR : R (f s.machine) s) :
    (view f).Gives P own s R := of_finished rfl (.refl ok) hR

/-- What is consulted is sound if what it finds is so, and if a run may end in its failures. -/
theorem consult (ok : s.Ok P) (p : Position) {f : Machine → Except Cause α}
    (hok : ∀ a, f s.machine = .ok a → R a s)
    (herr : ∀ c, f s.machine = .error c → P.Allows c) : (consult p f).Gives P own s R := by
  simp only [Gives, Eval.consult]
  split
  · exact ⟨s.world, .refl ok, hok _ ‹_›⟩
  · exact ⟨s.world, .refl ok, herr _ ‹_›⟩

/-- A value may be shown: if it has no text, types are not known. -/
theorem textOf (ok : s.Ok P) {v : Value} (hv : v.Ok P s) :
    (textOf v).Gives P own s fun _ _ => True := by
  simp only [Gives, Eval.textOf]
  split
  · exact ⟨s.world, .refl ok, trivial⟩
  · exact fun settled => ok.text?_ne_none settled hv ‹_›

/-- A change is sound if it leads to a site that is as it should be. -/
theorem change {f : Machine → Machine} {W : World} {R : Unit → Site → Prop}
    (h : s.Reaches P own ⟨W, f s.machine⟩) (hR : R () ⟨W, f s.machine⟩) :
    (change f).Gives P own s R := of_finished rfl h hR

/-- So is what is made anew. -/
theorem make {f : Machine → α × Machine} {W : World}
    (h : s.Reaches P own ⟨W, (f s.machine).2⟩) (hR : R (f s.machine).1 ⟨W, (f s.machine).2⟩) :
    (make f).Gives P own s R := of_finished rfl h hR

/-- What may be asked for is answered as it may be. -/
theorem ask {Γ : Scene} {j : Job} (h : P.Asks Γ j s) :
    (ask j).Gives P none s (P.Answers Γ j) :=
  ⟨(s.world, Γ), ⟨h, .refl s⟩, fun _ _ hp => hp⟩

/-! ### One thing after another -/

/-- What is given may be said to be less. -/
theorem mono {x : Eval α} (hx : x.Gives P own s R) (le : ∀ a s', s'.Ok P → R a s' → R' a s') :
    x.Gives P own s R' := Progress.Meets.mono (fun r m ⟨W, h, hr⟩ => by
  cases r with
  | ok a => exact ⟨W, h, le a _ h.ok hr⟩
  | error e => exact ⟨W, h, hr⟩) hx

/-- What gives no frame more names may well be where one is allowed to get some. -/
theorem weaken {x : Eval α} (hx : x.Gives P none s R) : x.Gives P own s R :=
  Progress.Meets.having_mono (fun _ _ => Site.Stays.weaken)
    (Progress.Meets.mono (fun _ _ ⟨W, h, hr⟩ => ⟨W, h.weaken, hr⟩) hx)

/-- The frame that got names was not there before. -/
theorem forget {x : Eval α} {i : FrameId} (hi : s.next ≤ i) (hx : x.Gives P (some i) s R)
    (ok : s.Ok P) : x.Gives P none s R :=
  Progress.Meets.having_mono (fun _ _ => Site.Stays.forget hi) (Progress.Meets.mono
    (fun _ _ ⟨W, h, hr⟩ => ⟨W, (Site.Reaches.refl ok).forget hi h, hr⟩) hx)

/-- What has stayed since a site that comes later has stayed since. -/
theorem since {s' : Site} (h : s.Stays P own s') {p : Progress α}
    {Q : Except Error α → Machine → Prop} (hp : p.Meets (P.since own s') Q) :
    p.Meets (P.since own s) Q :=
  Progress.Meets.having_mono (fun _ _ => h.trans) hp

/-- The second of two computations starts at a site that the first one reaches, and in which one frame
may have got names. -/
theorem bind_own {x : Eval α} {f : α → Eval β} {Q : β → Site → Prop}
    (hx : x.Gives P own s R)
    (hf : ∀ a s', s.Reaches P own s' → R a s' → (f a).Gives P own s' Q) :
    (x >>= f).Gives P own s Q := by
  refine Progress.Meets.andThen (Progress.Meets.mono ?_ hx)
  rintro r m ⟨W, h, hr⟩
  cases r with
  | ok a =>
      exact since h.stays (Progress.Meets.mono (fun r' m' ⟨W', h', hr'⟩ =>
        ⟨W', h.trans h', hr'⟩) (hf a ⟨W, m⟩ h hr))
  | error e => exact ⟨W, h, hr⟩

/-- The first of two adds names to no frame that was there. -/
theorem bind {x : Eval α} {f : α → Eval β} {Q : β → Site → Prop} (hx : x.Gives P none s R)
    (hf : ∀ a s', s.Reaches P none s' → R a s' → (f a).Gives P own s' Q) :
    (x >>= f).Gives P own s Q := by
  have hx : (x s.machine).Meets (P.since own s) _ :=
    Progress.Meets.having_mono (fun _ _ => Site.Stays.weaken) hx
  refine Progress.Meets.andThen (Progress.Meets.mono ?_ hx)
  rintro r m ⟨W, h, hr⟩
  cases r with
  | ok a =>
      exact since h.stays.weaken (Progress.Meets.mono (fun r' m' ⟨W', h', hr'⟩ =>
        ⟨W', h.weaken.trans h', hr'⟩) (hf a ⟨W, m⟩ h hr))
  | error e => exact ⟨W, h.weaken, hr⟩

end Eval.Gives

namespace Eval.Adds

variable {i : FrameId}

/-- A computation that adds names to one frame gives what it gives. -/
theorem gives {x : Eval α} (hx : x.Adds P i s R) : x.Gives P (some i) s R := by
  refine Progress.Meets.having_mono (fun _ _ => Site.Stays.weaken) (Progress.Meets.mono ?_ hx)
  intro r m h
  cases r with
  | ok a => exact h
  | error e =>
      obtain ⟨W, h, hc⟩ := h
      exact ⟨W, h.weaken, hc⟩

/-- What is given may be said to be less. -/
theorem mono {x : Eval α} (hx : x.Adds P i s R)
    (le : ∀ a s', s.Reaches P (some i) s' → R a s' → R' a s') : x.Adds P i s R' := by
  refine Progress.Meets.mono ?_ hx
  intro r m h
  cases r with
  | ok a =>
      obtain ⟨W, h, hr⟩ := h
      exact ⟨W, h, le a _ h hr⟩
  | error e => exact h

/-- The name is given after something else has been done. -/
theorem after {x : Eval α} {f : α → Eval β} {Q : β → Site → Prop} (hx : x.Gives P none s R)
    (hf : ∀ a s', s.Reaches P none s' → R a s' → (f a).Adds P i s' Q) :
    (x >>= f).Adds P i s Q := by
  refine Progress.Meets.andThen (Progress.Meets.mono ?_ hx)
  rintro r m ⟨W, h, hr⟩
  cases r with
  | ok a =>
      refine Gives.since h.stays (Progress.Meets.mono ?_ (hf a ⟨W, m⟩ h hr))
      intro r' m' h'
      cases r' with
      | ok b =>
          obtain ⟨W', h', hr'⟩ := h'
          exact ⟨W', h.weaken.trans h', hr'⟩
      | error e =>
          obtain ⟨W', h', hc⟩ := h'
          exact ⟨W', h.trans h', hc⟩
  | error e => exact ⟨W, h, hr⟩

end Eval.Adds

/-- One thing after another at one place of the program. -/
theorem Ready.bind {Γ : Scene} (hr : Ready P Γ s) {x : Eval α} {f : α → Eval β}
    {Q : β → Site → Prop} (hx : x.Gives P none s R)
    (hf : ∀ a s', s.Reaches P none s' → Ready P Γ s' → R a s' → (f a).Gives P own s' Q) :
    (x >>= f).Gives P own s Q :=
  Eval.Gives.bind hx fun a s' h ha => hf a s' h (hr.later h.later h.ok) ha

end Brace
