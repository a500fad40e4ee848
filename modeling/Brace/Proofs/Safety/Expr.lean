import Brace.Proofs.Safety.Places

/-!
# Safety — expressions

An expression that is sound in the scene of its place, and is evaluated there, gives a value that
is fit for the run and of the type that checking has noted on it. It fails for no name.
-/

namespace Brace

open Eval

variable {P : Plan} {s : Site} {Γ : Scene}

/-- An operator that does not go with its operands says so in its own words. -/
theorem Value.isOfOperands_unsupported (op : BinaryOp) (v w : Value) :
    (unsupported op v w).isOfOperands = true := by
  simp [unsupported, Cause.isOfOperands, List.isPrefixOf]

/-- Where types are known, an internal error of a binary operator is about the operands. -/
theorem Plan.excuses_binary {op : BinaryOp} {v w : Value} (h : P.program.Settled → ∃ a b t,
      op.Gives a b t ∧ a.isAnyFree = true ∧ b.isAnyFree = true ∧
        v.Fits P.program.Typed s.heap a ∧ w.Fits P.program.Typed s.heap b) (reason : String)
    (e : Value.binary op v w = .error (.internalError reason)) : P.Excuses reason := by
  refine ⟨Value.binary_reason e, fun hT _ => ?_⟩
  obtain ⟨a, b, t, hg, ha, hb, hv, hw⟩ := h hT
  obtain ⟨-, x, y, -, -, -, e⟩ := hv.binary_fails hg ha hb hw e
  exact e ▸ Value.isOfOperands_unsupported op v w

/-- The expressions may be evaluated one after another where the run is. -/
theorem Ready.evalAll : ∀ {es : List Expr} {s : Site}, Ready P Γ s →
    (∀ e ∈ es, e.Sound P.classes Γ ∧ P.Covers (e.placed Γ)) →
      (es.mapM Expr.eval).Gives P none s fun vs s' =>
        List.Forall₂ (fun (e : Expr) v => e.Yields P Γ v s') es vs
  | [], _, hr, _ => by
      rw [List.mapM_nil]
      exact .pure hr.ok .nil
  | e :: es, _, hr, h => by
      obtain ⟨⟨he, hc⟩, hes⟩ := List.forall_mem_cons.mp h
      rw [List.mapM_cons]
      refine hr.bind (hr.eval he hc) fun v s₁ h₁ hr₁ hv => ?_
      refine hr₁.bind (hr₁.evalAll hes) fun vs s₂ h₂ hr₂ hvs => .pure hr₂.ok ?_
      exact .cons (Expr.Yields.stable Γ e v s₁ s₂ h₂.later.toGrown hr₁.ok hr₂.ok hv) hvs

/-- What expressions give is as it should be. -/
theorem ok_of_yields {es : List Expr} {vs : List Value}
    (h : List.Forall₂ (fun (e : Expr) v => e.Yields P Γ v s) es vs) : ∀ v ∈ vs, v.Ok P s := by
  induction h with
  | nil => nofun
  | cons h _ ih => exact List.forall_mem_cons.mpr ⟨h.ok, ih⟩

/-- A name cannot be looked up if it is not there or has no value yet. -/
theorem Machine.lookup_fails {m : Machine} {x : String} {c : Cause} (e : m.lookup x = .error c) :
    c = .undefinedSymbol x ∨ c = .uninitializedVariable x := by
  simp only [Machine.lookup, Forest.lookup] at e
  rcases hn : m.scopes.nearest? m.here x with _ | ⟨i, _ | v⟩ <;> rw [hn] at e <;> cases e
  · exact .inl rfl
  · exact .inr rfl

namespace Eval.Gives

/-! ### Forms -/

section

variable (hr : Ready P Γ s)

include hr

/-- An element is got of the type that checking has found for those of the array. -/
theorem index {n : Note} {x : String} {i : Expr} (hs : (Expr.index n x i).Sound P.classes Γ)
    (hc : P.Covers ((Expr.index n x i).placed Γ)) :
    (Expr.index n x i).start.Gives P none s ((Expr.index n x i).Yields P Γ) := by
  obtain ⟨known, t, hx, he, ht, hint⟩ := hs.rule
  have hi : i ∈ (Expr.index n x i).children := List.mem_singleton_self i
  have untaken (hT : P.program.Settled) := hc.untaken (List.mem_singleton_self x) hx hT
  refine hr.bind (lookupArray hr hx n.pos) ?_
  rintro id s₁ h₁ hr₁ ⟨met, hm, hid⟩
  refine hr₁.bind (hr₁.eval (hs.child hi) (hc.child hi)) fun v s₂ h₂ hr₂ hy => ?_
  refine expectInt_bind hr₂.ok (hy.int (hc.child hi) hint) n.pos fun k _ => ?_
  refine (element hr₂.ok id k n.pos).mono fun w s' _ ⟨hw, hw'⟩ =>
    ⟨hw, fun hT => ⟨t, ht, fun ha => ?_⟩, trivial⟩
  rw [hm.element untaken he (hid.grown h₂.later.heap) hT ha] at hw'
  exact hw' hT ha

/-- An element is set to a value of the type of the array's elements, and this value is given. -/
theorem indexAssign {n : Note} {x : String} {i e : Expr}
    (hs : (Expr.indexAssign n x i e).Sound P.classes Γ)
    (hc : P.Covers ((Expr.indexAssign n x i e).placed Γ)) :
    (Expr.indexAssign n x i e).start.Gives P none s ((Expr.indexAssign n x i e).Yields P Γ) := by
  obtain ⟨known, t, hx, he, ht, hint, hacc⟩ := hs.rule
  have hi : i ∈ (Expr.indexAssign n x i e).children := List.mem_cons_self
  have hv : e ∈ (Expr.indexAssign n x i e).children := List.mem_cons_of_mem i (List.mem_singleton_self e)
  have untaken (hT : P.program.Settled) := hc.untaken (List.mem_singleton_self x) hx hT
  refine hr.bind (lookupArray hr hx n.pos) ?_
  rintro id s₁ h₁ hr₁ ⟨met, hm, hid⟩
  refine hr₁.bind (hr₁.eval (hs.child hi) (hc.child hi)) fun k s₂ h₂ hr₂ hk => ?_
  refine expectInt_bind hr₂.ok (hk.int (hc.child hi) hint) n.pos fun k _ => ?_
  refine hr₂.bind (hr₂.eval (hs.child hv) (hc.child hv)) fun v s₃ h₃ hr₃ hy => ?_
  have suits := hy.accepted (hc.child hv) hacc
  have hid := (hid.grown h₂.later.heap).grown h₃.later.heap
  have fit : P.Suits s₃.heap (s₃.heap.cells id).element v := fun hT _ => by
    rw [hm.element untaken he hid hT (hc.anyFree ht hT)]
    exact suits hT (hc.anyFree ht hT)
  have stored : (Eval.setElement id k v n.pos).Gives P none s₃ fun _ _ => True :=
    setElement hr₃.ok k hy.ok fit n.pos
  refine hr₃.bind stored fun _ s₄ h₄ hr₄ _ => .pure hr₄.ok ?_
  exact ⟨Value.ok_stable v _ _ h₄.later.toGrown hr₃.ok hr₄.ok hy.ok,
    fun hT => ⟨t, ht, suits.grown h₄.later.heap hT⟩, trivial⟩

/-- A variable is assigned a value that it may hold. -/
theorem assignment {n : Note} {x : String} {e : Expr} (hs : (Expr.assign n x e).Sound P.classes Γ)
    (hc : P.Covers ((Expr.assign n x e).placed Γ)) :
    (Expr.assign n x e).start.Gives P none s ((Expr.assign n x e).Yields P Γ) := by
  obtain ⟨t, hx, ht, hacc⟩ := hs.rule
  have he : e ∈ (Expr.assign n x e).children := List.mem_singleton_self e
  refine hr.bind (hr.eval (hs.child he) (hc.child he)) fun v s₁ h₁ hr₁ hy => ?_
  have suits := hy.accepted (hc.child he) hacc
  refine hr₁.bind (assign hr₁ hx hy.ok (.var suits) n.pos) fun _ s₂ h₂ hr₂ _ => .pure hr₂.ok ?_
  exact ⟨Value.ok_stable v _ _ h₂.later.toGrown hr₁.ok hr₂.ok hy.ok,
    fun hT => ⟨t, ht, suits.grown h₂.later.heap hT⟩, trivial⟩

/-- A compound assignment gives what the operator does, which the variable may hold. -/
theorem compound {n : Note} {op : BinaryOp} {x : String} {e : Expr}
    (hs : (Expr.compound n op x e).Sound P.classes Γ)
    (hc : P.Covers ((Expr.compound n op x e).placed Γ)) :
    (Expr.compound n op x e).start.Gives P none s ((Expr.compound n op x e).Yields P Γ) := by
  obtain ⟨t, hx, ht, r, hr', u, hg, hacc⟩ := hs.rule
  have he : e ∈ (Expr.compound n op x e).children := List.mem_singleton_self e
  refine hr.bind (lookup hr hx n.pos) ?_
  rintro old s₁ h₁ hr₁ ⟨_, met, hm, hold⟩
  refine hr₁.bind (hr₁.eval (hs.child he) (hc.child he)) fun v s₂ h₂ hr₂ hy => ?_
  have hold : P.Suits s₂.heap t old := by
    cases hm.eq rfl
    exact Plan.Suits.grown (t := t) h₂.later.heap hold
  have hfree (hT : P.program.Settled) := (hc.child he).anyFree hr' hT
  have operands (hT : P.program.Settled) : ∃ a b c, op.Gives a b c ∧ a.isAnyFree = true ∧
      b.isAnyFree = true ∧ old.Fits P.program.Typed s₂.heap a ∧ v.Fits P.program.Typed s₂.heap b :=
    ⟨t, r, u, hg, hc.anyFree ht hT, hfree hT, hold hT (hc.anyFree ht hT),
      hy.fits hr' hT (hc.child he)⟩
  have fails := P.excuses_binary operands
  refine ofExcept_bind hr₂.ok n.pos (Value.binary_settles op old v) fails fun new hnew hp => ?_
  have suits : P.Suits s₂.heap t new := by
    intro hT ha
    have hnew' := (hold hT ha).binary hg ha (hfree hT) (hy.fits hr' hT (hc.child he)) hnew
    refine hnew'.accepted ha ?_ hacc
    cases hg <;> first | rfl | exact ha | exact hfree hT
  refine hr₂.bind (assign hr₂ hx (Value.ok_of_plain hp) (.var suits) n.pos)
    fun _ s₃ h₃ hr₃ _ => .pure hr₃.ok ?_
  exact .of_plain hp ht (suits.grown h₃.later.heap) trivial

/-- A step stores a number of the type that the place has. -/
theorem step {n : Note} {form : StepForm} {target : Expr}
    (hs : (Expr.step n form target).Sound P.classes Γ)
    (hc : P.Covers ((Expr.step n form target).placed Γ)) :
    (Expr.step n form target).start.Gives P none s ((Expr.step n form target).Yields P Γ) := by
  obtain ⟨t, hn, ht, hnum, hkind⟩ := hs.rule
  have hm : target ∈ (Expr.step n form target).children := List.mem_singleton_self target
  have hk : target.kind = .name ∨ target.isPart = true := by
    rcases hkind with h | ⟨k, x, rfl, -⟩
    · exact .inr h
    · exact .inl rfl
  have var : P.program.ScansVariables → ∀ k x, target = .name k x →
      ∃ u, Γ.means x = some (.var u) := by
    rintro - k x rfl
    rcases hkind with h | ⟨k', x', e, hx⟩
    · cases h
    · cases e
      exact ⟨t, hx⟩
  have writes : ∀ k object x, target = .get k object x → P.program.Writes x := by
    rintro k object x rfl
    exact ⟨_, hc.self, beq_self_eq_true x⟩
  refine hr.bind (place hr (hs.child hm) (hc.child hm) hk writes) fun pl s₁ h₁ hr₁ hp => ?_
  refine hr₁.bind (read hr₁ (hc.child hm) hp ht target.pos) ?_
  rintro old s₂ h₂ hr₂ ⟨hold, hsuits⟩
  have free (hT : P.program.Settled) := (hc.child hm).anyFree ht hT
  have fails (reason : String) (e : stepped form old = .error (.internalError reason)) :
      P.Excuses reason := ⟨Value.stepped_reason e, fun hT _ =>
    absurd e ((hsuits hT (free hT)).stepped_fails hnum (free hT))⟩
  refine ofExcept_bind hr₂.ok target.pos (Value.stepped_settles form old) fails fun new hnew hscalar => ?_
  have hplain := Value.isPlain_of_isScalar hscalar
  have hp₂ := Place.Ok.stable target pl _ _ h₂.later.toGrown hr₁.ok hr₂.ok hp
  have suits : P.Suits s₂.heap t new := fun hT ha => (hsuits hT ha).stepped hnew
  refine hr₂.bind (write hr₂ (hc.child hm) hp₂ ht var hscalar suits target.pos)
    fun _ s₃ h₃ hr₃ _ => .pure hr₃.ok ?_
  have le := h₃.later.heap
  split
  · exact .of_plain hplain hn (suits.grown le) trivial
  · exact ⟨Value.ok_stable old _ _ h₃.later.toGrown hr₂.ok hr₃.ok hold,
      fun hT => ⟨t, hn, hsuits.grown le hT⟩, trivial⟩

/-! ### Properties -/

/-- A field or a bound method is given, whatever the type. -/
theorem get {n : Note} {object : Expr} {x : String}
    (hs : (Expr.get n object x).Sound P.classes Γ) (hc : P.Covers ((Expr.get n object x).placed Γ)) :
    (Expr.get n object x).start.Gives P none s ((Expr.get n object x).Yields P Γ) := by
  have ho : object ∈ (Expr.get n object x).children := List.mem_singleton_self object
  refine hr.bind (hr.eval (hs.child ho) (hc.child ho)) fun v s₁ h₁ hr₁ hv => ?_
  refine expectObject_bind hr₁.ok hv.ok n.pos fun o e => ?_
  have hobj : (Value.object o).Ok P s₁ := e ▸ hv.ok
  exact (property hr₁.ok hobj x n.pos).mono fun w s' _ hw => .of_unsettled hobj.1 hw hobj.1

/-- A field is set that the program writes. -/
theorem set {n : Note} {object e : Expr} {x : String}
    (hs : (Expr.set n object x e).Sound P.classes Γ) (hc : P.Covers ((Expr.set n object x e).placed Γ)) :
    (Expr.set n object x e).start.Gives P none s ((Expr.set n object x e).Yields P Γ) := by
  have ho : object ∈ (Expr.set n object x e).children := List.mem_cons_self
  have he : e ∈ (Expr.set n object x e).children := List.mem_cons_of_mem _ (List.mem_singleton_self e)
  refine hr.bind (hr.eval (hs.child ho) (hc.child ho)) fun v s₁ h₁ hr₁ hv => ?_
  refine expectObject_bind hr₁.ok hv.ok n.pos fun o e' => ?_
  have hobj : (Value.object o).Ok P s₁ := e' ▸ hv.ok
  refine hr₁.bind (hr₁.eval (hs.child he) (hc.child he)) fun w s₂ h₂ hr₂ hw => ?_
  have written : P.program.Writes x := ⟨_, hc.self, beq_self_eq_true x⟩
  refine hr₂.bind (setField hr₂.ok hw.ok written) fun _ s₃ h₃ hr₃ _ => .pure hr₃.ok ?_
  exact .of_unsettled hobj.1 (Value.ok_stable w _ _ h₃.later.toGrown hr₂.ok hr₃.ok hw.ok) trivial

/-- The value of a name that is known if nothing has a reserved name. -/
theorem lookup_reserved {x : String} (hx : P.program.Unreserved → (Γ.means x).isSome)
    (p : Position) : (Eval.lookup x p).Gives P none s fun v s' => v.Ok P s' := by
  by_cases hu : P.program.Unreserved
  · obtain ⟨known, hk⟩ := Option.isSome_iff_exists.mp (hx hu)
    exact (lookup hr hk p).mono fun v s' _ hv => hv.1
  · refine consult hr.ok p (fun v e => ?_) fun c e => ?_
    · simp only [Machine.lookup, Forest.lookup] at e
      split at e
      · cases e
      · split at e
        · cases e
        · cases e
        · rename_i i w hn
          cases e
          obtain ⟨hb, met, hm⟩ := hr.ok.bound_of_nearest hn
          exact (hr.ok.values i x v met hb hm).1
    · refine ⟨fun h => absurd h hu, fun _ y e' => ?_, fun reason e' => ?_⟩
      · rcases Machine.lookup_fails e with rfl | rfl <;> cases e'
      · rcases Machine.lookup_fails e with rfl | rfl <;> cases e'

/-- A method is found in the superclass where checking has found one. -/
theorem superMethod {n : Note} {x : String} (hs : (Expr.superMethod n x).Sound P.classes Γ)
    (hc : P.Covers ((Expr.superMethod n x).placed Γ)) :
    (Expr.superMethod n x).start.Gives P none s ((Expr.superMethod n x).Yields P Γ) := by
  obtain ⟨known, hx, -⟩ := hs.rule
  refine hr.bind (lookup hr hx n.pos) ?_
  rintro v s₁ h₁ hr₁ ⟨hv, met, hm, htakes⟩
  have isClass (hT : P.program.Settled) (hS : P.program.SupersClasses) : ∃ c, v = .cls c := by
    obtain ⟨info, hi⟩ := hS Γ n x hc.place
    cases hx.symm.trans hi
    cases hm.eq rfl
    exact htakes.2 (.inr hT)
  cases v with
  | cls c =>
      have hthis : P.program.Unreserved → (Γ.means "this").isSome := fun hu =>
        hr.seated hu (by rw [hx]; rfl)
      refine hr₁.bind (lookup_reserved hr₁ hthis n.pos) fun w s₂ h₂ hr₂ hw => ?_
      refine expectObject_bind hr₂.ok hw n.pos fun o e => ?_
      have hobj : (Value.object o).Ok P s₂ := e ▸ hw
      have hcls : (Value.cls c).Ok P s₂ :=
        Value.ok_stable (.cls c) _ _ h₂.later.toGrown hr₁.ok hr₂.ok hv
      exact (bound hr₂.ok hobj hcls x n.pos).mono fun w s' _ hw =>
        .of_unsettled hobj.1 hw hobj.1
  | _ =>
      refine fail_other hr₁.ok n.pos rfl ?_
      rintro reason ⟨⟩
      refine ⟨not_escaped (c := Char.ofNat 96) (by simp) (by decide), fun hT hS => ?_⟩
      obtain ⟨c, e⟩ := isClass hT hS
      cases e

/-! ### Formats -/

/-- A format is a text with a specifier for each argument, so it can be filled in. -/
theorem formatted {format : Expr} {args : List Expr} (hf : format.Formats args)
    (hs : ∀ e ∈ format :: args, e.Sound P.classes Γ ∧ P.Covers (e.placed Γ)) :
    (formatted format args).Gives P none s fun _ _ => True := by
  obtain ⟨n, template, rfl, -, hl, -⟩ := hf
  obtain ⟨⟨hs₀, hc₀⟩, hs⟩ := List.forall_mem_cons.mp hs
  refine hr.bind (hr.eval hs₀ hc₀) fun v s₁ h₁ hr₁ hv => ?_
  refine expectString_bind hr₁.ok (fun _ => ⟨template, hv.shows⟩) _ fun t e => ?_
  cases hv.shows.symm.trans e
  refine hr₁.bind (hr₁.evalAll hs) fun vs s₂ h₂ hr₂ hvs => ?_
  have count : (Template.specifiers template).length = vs.length := hl.trans hvs.length_eq
  have fills (settled : P.program.Settled) :
      (Template.fill s₂.heap.text? template vs).isSome = true :=
    Template.isSome_fill fun w hw => (hr₂.ok.straight settled).texts w (ok_of_yields hvs w hw).has
  refine bind (view hr₂.ok (R := fun o _ => o = Template.fill s₂.heap.text? template vs) _ rfl)
    fun o s₃ h₃ ho => ?_
  subst ho
  split
  · rename_i r e
    obtain ⟨t, rfl⟩ := Template.fill_gives count e
    exact pure h₃.ok trivial
  · rename_i e
    refine endless fun settled => ?_
    have found := fills settled
    rw [e] at found
    cases found

/-- What is read is of the type of the specifier, and so it fits the target. -/
theorem scanInto {spec : Specifier} {target : Expr} (ht : target.Has (spec.ty.fits · = true))
    (hk : target.kind = .name ∨ target.kind = .index)
    (hvar : P.program.ScansVariables → ∀ n x, target = .name n x → ∃ u, Γ.means x = some (.var u))
    (hs : target.Sound P.classes Γ) (hc : P.Covers (target.placed Γ)) (p : Position) :
    (scanInto p spec target).Gives P none s fun _ _ => True := by
  obtain ⟨t, ht, hfits⟩ := ht
  have hread : s.Reaches P none ⟨s.world, s.machine.readWord.2⟩ := .same hr.ok rfl rfl rfl rfl
  refine hr.bind (make (R := fun _ _ => True) hread trivial) fun word s₁ h₁ hr₁ _ => ?_
  cases word with
  | none => exact fail_other hr₁.ok p rfl nofun
  | some word =>
      dsimp only
      cases e : spec.read word with
      | none => exact fail_other hr₁.ok p rfl nofun
      | some v =>
          have noField : ∀ n object x, target = .get n object x → P.program.Writes x := by
            rintro n object x rfl
            rcases hk with hk | hk <;> cases hk
          have part : target.kind = .name ∨ target.isPart = true :=
            hk.imp_right fun hk => by cases target <;> first | rfl | cases hk
          refine hr₁.bind (place hr₁ hs hc part noField) fun pl s₂ h₂ hr₂ hp => ?_
          refine write hr₂ hc hp ht hvar (Value.scalar_read e) (fun hT ha => ?_) target.pos
          have hspec : spec.ty.isAnyFree = true := by cases spec <;> rfl
          rw [← Ty.eq_of_fits hspec ha hfits]
          exact Value.fits_read _ e

end

/-- Steps that are each sound where the run is ready are sound one after another. -/
theorem forM {γ : Type} {f : γ → Eval Unit} : ∀ {cs : List γ} {s : Site}, Ready P Γ s →
    (∀ c ∈ cs, ∀ s', Ready P Γ s' → (f c).Gives P none s' fun _ _ => True) →
      (cs.forM f).Gives P none s fun _ _ => True
  | [], _, hr, _ => pure hr.ok trivial
  | c :: cs, s, hr, h => by
      obtain ⟨hc, hcs⟩ := List.forall_mem_cons.mp h
      exact hr.bind (hc s hr) fun _ s₁ h₁ hr₁ _ => forM hr₁ hcs

/-- Words are read for the targets, one for each specifier. -/
theorem scan (hr : Ready P Γ s) {template : String} {targets : List Expr}
    (hl : (Template.specifiers template).length = targets.length)
    (ht : ∀ x ∈ (Template.specifiers template).zip targets, x.2.Has (x.1.ty.fits · = true))
    (hk : ∀ e ∈ targets, e.kind = .name ∨ e.kind = .index)
    (hvar : P.program.ScansVariables → ∀ n x, .name n x ∈ targets → ∃ u, Γ.means x = some (.var u))
    (hs : ∀ e ∈ targets, e.Sound P.classes Γ ∧ P.Covers (e.placed Γ)) (p : Position) :
    (scan p template targets).Gives P none s fun _ _ => True := by
  simp only [Eval.scan, if_pos hl]
  refine forM hr fun x hx s' hr' => ?_
  have hmem : x.2 ∈ targets := (List.of_mem_zip hx).2
  have var (hV : P.program.ScansVariables) (n : Note) (y : String) (e : x.2 = .name n y) :=
    hvar hV n y (e ▸ hmem)
  exact scanInto hr' (ht x hx) (hk _ hmem) var (hs _ hmem).1 (hs _ hmem).2 p

end Eval.Gives

/-! ### Calls -/

/-- What is known of the value that goes with a place of the second list, by the one that goes with
it in the first. -/
theorem exists_of_mem_zip {α β γ : Type} {R : α → β → Prop} {as : List α} {bs : List β}
    (h : List.Forall₂ R as bs) : ∀ {cs : List γ} {x : γ × β}, x ∈ cs.zip bs →
      ∃ a, (x.1, a) ∈ cs.zip as ∧ R a x.2 := by
  induction h with
  | nil => intro cs x hx; simp at hx
  | @cons a b as bs hab _ ih =>
      intro cs x hx
      cases cs with
      | nil => simp at hx
      | cons c cs =>
          rw [List.zip_cons_cons, List.mem_cons] at hx
          rcases hx with rfl | hx
          · exact ⟨a, List.mem_cons_self, hab⟩
          · obtain ⟨a', ha, hR⟩ := ih hx
            exact ⟨a', List.mem_cons_of_mem _ ha, hR⟩

/-- Where types are known, what is called is a function, and it is the one that checking knew. -/
theorem Expr.Yields.called {callee : Expr} {args : List Expr} {t : Ty} {f : Value}
    (hf : callee.Yields P Γ f s) (hrule : Γ.CallRule P.classes t args callee)
    (hT : P.program.Settled) (hc : P.Covers (callee.placed Γ)) (ht : t.isAnyFree = true) :
    Γ.Passes f.params args ∧ f.returns = t := by
  cases callee with
  | name n x =>
      obtain ⟨known, hx, hn, hcalls⟩ := hrule
      obtain ⟨known', met, hx', hm, htakes⟩ := hf.shows
      cases hx.symm.trans hx'
      cases hm.exact (hc.untaken (List.mem_singleton_self x) hx hT)
      cases hcalls with
      | function h =>
          obtain ⟨g, rfl, -, rfl⟩ := htakes (.inr hT)
          exact ⟨h, rfl⟩
      | builtin h =>
          cases htakes
          exact ⟨h, rfl⟩
      | cls info => exact absurd (hc.anyFree hn hT) Bool.false_ne_true
      | closure => cases ht
      | unknown => cases ht
  | get n object x => exact absurd hT hf.shows
  | superMethod n x => exact absurd hT hf.shows
  | _ =>
      obtain ⟨-, rfl⟩ := hrule
      cases ht

namespace Eval.Gives

/-- A call is made of what checking has found to be callable with these arguments. -/
theorem call (hr : Ready P Γ s) {n : Note} {callee : Expr} {args : List Expr}
    (hs : (Expr.call n callee args).Sound P.classes Γ)
    (hc : P.Covers ((Expr.call n callee args).placed Γ)) :
    (Expr.call n callee args).start.Gives P none s ((Expr.call n callee args).Yields P Γ) := by
  obtain ⟨t, ht, hrule⟩ := hs.rule
  have hm : callee ∈ (Expr.call n callee args).children := List.mem_cons_self
  have hargs : ∀ e ∈ args, e.Sound P.classes Γ ∧ P.Covers (e.placed Γ) := fun e he =>
    have he : e ∈ (Expr.call n callee args).children := List.mem_cons_of_mem _ he
    ⟨hs.child he, hc.child he⟩
  refine hr.bind (hr.eval (hs.child hm) (hc.child hm)) fun f s₁ h₁ hr₁ hf => ?_
  refine hr₁.bind (hr₁.evalAll hargs) fun vs s₂ h₂ hr₂ hvs => ?_
  have hf : callee.Yields P Γ f s₂ :=
    Expr.Yields.stable Γ callee f _ _ h₂.later.toGrown hr₁.ok hr₂.ok hf
  have known (hT : P.program.Settled) := hf.called hrule hT (hc.child hm) (hc.anyFree ht hT)
  have calls : P.Calls f vs s₂ := by
    refine ⟨hr₂.ok, hf.ok, ok_of_yields hvs, fun x hx hT ha => ?_, ?_⟩
    · obtain ⟨e, he, hy⟩ := exists_of_mem_zip hvs hx
      have hmem : e ∈ args := (List.of_mem_zip he).2
      exact hy.accepted (hargs e hmem).2 ((known hT).1.2 _ he) hT ha
    · rintro c rfl hT
      obtain ⟨u, hu, fits⟩ := hf.typed hT
      cases fits ((hc.child hm).anyFree hu hT)
  refine (ask (Γ := Γ) (j := .apply f vs n.pos) calls).mono ?_
  rintro v s' _ ⟨hv, hsuits⟩
  refine ⟨hv, fun hT => ⟨t, ht, fun ha => ?_⟩, trivial⟩
  have hret := (known hT).2
  exact hret ▸ hsuits hT (hret.symm ▸ ha)

/-! ### Operators and formats -/

section

variable (hr : Ready P Γ s)

include hr

/-- An array is made of elements that have the default of their type. -/
theorem arrayNew {n : Note} {t : Ty} {e : Expr} (hs : (Expr.arrayNew n t e).Sound P.classes Γ)
    (hc : P.Covers ((Expr.arrayNew n t e).placed Γ)) :
    (Expr.arrayNew n t e).start.Gives P none s ((Expr.arrayNew n t e).Yields P Γ) := by
  obtain ⟨ht, hint⟩ := hs.rule
  have hm : e ∈ (Expr.arrayNew n t e).children := List.mem_singleton_self e
  refine hr.bind (hr.eval (hs.child hm) (hc.child hm)) fun v s₁ h₁ hr₁ hv => ?_
  refine expectInt_bind hr₁.ok (hv.int (hc.child hm) hint) n.pos fun k _ => ?_
  have filled : P.program.Typed → t ≠ .function := fun hT => hT.elements n t e hc.self
  have anyFree (hT : P.program.Settled) : t.isAnyFree = true :=
    (hc.anyFree ht hT : t.array.isAnyFree = true)
  refine (newArray hr₁.ok anyFree filled k n.pos).mono ?_
  rintro w s' _ ⟨hw, hsuits⟩
  exact ⟨hw, fun hT => ⟨_, ht, hsuits hT⟩, trivial⟩

/-- An operator gets operands of the types that checking has noted, and gives a value of its own type.
-/
theorem binary {n : Note} {op : BinaryOp} {l r : Expr}
    (hs : (Expr.binary n op l r).Sound P.classes Γ)
    (hc : P.Covers ((Expr.binary n op l r).placed Γ)) :
    (Expr.binary n op l r).start.Gives P none s ((Expr.binary n op l r).Yields P Γ) := by
  obtain ⟨t, ht, a, ha, b, hb, hg⟩ := hs.rule
  have hl : l ∈ (Expr.binary n op l r).children := List.mem_cons_self
  have hr' : r ∈ (Expr.binary n op l r).children := List.mem_cons_of_mem _ (List.mem_singleton_self r)
  refine hr.bind (hr.eval (hs.child hl) (hc.child hl)) fun v s₁ h₁ hr₁ hv => ?_
  refine hr₁.bind (hr₁.eval (hs.child hr') (hc.child hr')) fun w s₂ h₂ hr₂ hw => ?_
  have operands (hT : P.program.Settled) : op.Gives a b t ∧ a.isAnyFree = true ∧
      b.isAnyFree = true ∧ v.Fits P.program.Typed s₂.heap a ∧
        w.Fits P.program.Typed s₂.heap b :=
    ⟨hg, (hc.child hl).anyFree ha hT, (hc.child hr').anyFree hb hT,
      (hv.fits ha hT (hc.child hl)).grown h₂.later.heap, hw.fits hb hT (hc.child hr')⟩
  refine ofExcept hr₂.ok n.pos (Value.binary_settles op v w)
    (P.excuses_binary fun hT => ⟨a, b, t, operands hT⟩) fun z e hz => ?_
  refine .of_plain hz ht (fun hT _ => ?_) trivial
  obtain ⟨hg, ha, hb, hv, hw⟩ := operands hT
  exact hv.binary hg ha hb hw e

/-- A logical operator gives one of its operands. -/
theorem logical {n : Note} {op : LogicalOp} {l r : Expr}
    (hs : (Expr.logical n op l r).Sound P.classes Γ)
    (hc : P.Covers ((Expr.logical n op l r).placed Γ)) :
    (Expr.logical n op l r).start.Gives P none s ((Expr.logical n op l r).Yields P Γ) := by
  obtain ⟨ht, hl, hr'⟩ := hs.rule
  -- Either operand may be the outcome.
  have outcome : ∀ c ∈ (Expr.logical n op l r).children, c.Has Expr.boolLike →
      ∀ {v : Value} {s' : Site}, c.Yields P Γ v s' →
        (Expr.logical n op l r).Yields P Γ v s' := by
    intro c hm hb v s' hv
    refine ⟨hv.ok, fun hT => ⟨.bool, ht, fun _ => ?_⟩, trivial⟩
    obtain ⟨t, ht', rfl | rfl⟩ := hb
    · exact hv.fits ht' hT (hc.child hm)
    · exact absurd ((hc.child hm).anyFree ht' hT) Bool.false_ne_true
  refine hr.bind (hr.eval (hs.child List.mem_cons_self) (hc.child List.mem_cons_self))
    fun a s₁ h₁ hr₁ hv => ?_
  split
  · exact .pure hr₁.ok (outcome l List.mem_cons_self hl hv)
  · have hm : r ∈ (Expr.logical n op l r).children :=
      List.mem_cons_of_mem _ (List.mem_singleton_self r)
    exact (hr₁.eval (hs.child hm) (hc.child hm)).mono fun w s' _ hw => outcome r hm hr' hw

theorem unary {n : Note} {op : UnaryOp} {e : Expr} (hs : (Expr.unary n op e).Sound P.classes Γ)
    (hc : P.Covers ((Expr.unary n op e).placed Γ)) :
    (Expr.unary n op e).start.Gives P none s ((Expr.unary n op e).Yields P Γ) := by
  obtain ⟨a, ha, hrule⟩ := hs.rule
  have hm : e ∈ (Expr.unary n op e).children := List.mem_singleton_self e
  refine hr.bind (hr.eval (hs.child hm) (hc.child hm)) fun v s₁ h₁ hr₁ hv => ?_
  have fails (reason : String) (e' : Eval.unary op v = .error (.internalError reason)) :
      P.Excuses reason := by
    refine ⟨Value.unary_reason e', fun hT _ => ?_⟩
    rcases hrule with ⟨rfl, -⟩ | ⟨-, hnum, -⟩
    · cases e'
    · have hfree := (hc.child hm).anyFree ha hT
      exact absurd e' ((hv.fits ha hT (hc.child hm)).unary_fails hnum hfree)
  refine ofExcept hr₁.ok n.pos (Value.unary_settles op v) fails fun z e' hz => ?_
  rcases hrule with ⟨rfl, ht⟩ | ⟨hop, -, ht⟩
  · cases e'
    exact .of_plain rfl ht (fun _ _ => .bool _) trivial
  · refine .of_plain hz ht (fun hT _ => ?_) trivial
    exact (hv.fits ha hT (hc.child hm)).unary_number hop e'

theorem cast {n : Note} {target : String} {e : Expr}
    (hs : (Expr.cast n target e).Sound P.classes Γ)
    (hc : P.Covers ((Expr.cast n target e).placed Γ)) :
    (Expr.cast n target e).start.Gives P none s ((Expr.cast n target e).Yields P Γ) := by
  obtain ⟨t, hn, hprim, ht, a, ha, hcast⟩ := hs.rule
  have hm : e ∈ (Expr.cast n target e).children := List.mem_singleton_self e
  refine hr.bind (hr.eval (hs.child hm) (hc.child hm)) fun v s₁ h₁ hr₁ hv => ?_
  have fails (reason : String) (e' : v.castTo target = .error (.internalError reason)) :
      P.Excuses reason := by
    refine ⟨Value.castTo_reason e', fun hT _ => ?_⟩
    have hfree := (hc.child hm).anyFree ha hT
    rcases hcast with hcast | rfl
    · have hscalar := (hv.fits ha hT (hc.child hm)).isScalar hcast
      exact absurd e' (Value.castTo_fails hn hprim hscalar)
    · cases hfree
  refine ofExcept hr₁.ok n.pos (Value.castTo_settles target v) fails fun z e' hz => ?_
  exact .of_plain hz ht (fun _ _ => Value.fits_castTo _ hn e') trivial

theorem intToFloat {n : Note} {e : Expr} (hs : (Expr.intToFloat n e).Sound P.classes Γ)
    (hc : P.Covers ((Expr.intToFloat n e).placed Γ)) :
    (Expr.intToFloat n e).start.Gives P none s ((Expr.intToFloat n e).Yields P Γ) := by
  obtain ⟨ht, a, ha, hrule⟩ := hs.rule
  have hm : e ∈ (Expr.intToFloat n e).children := List.mem_singleton_self e
  refine hr.bind (hr.eval (hs.child hm) (hc.child hm)) fun v s₁ h₁ hr₁ hv => ?_
  -- A value that is no whole number is left alone, but where types are known there is none.
  have kept : (∀ k, v ≠ .int k) → (Expr.intToFloat n e).Yields P Γ v s₁ := by
    refine fun hne => ⟨hv.ok, fun hT => ?_, trivial⟩
    have hfree := (hc.child hm).anyFree ha hT
    have hfits := hv.fits ha hT (hc.child hm)
    rcases hrule with rfl | rfl
    · cases hfits with
      | int k => exact absurd rfl (hne k)
    · cases hfree
  cases v with
  | int k => exact .pure hr₁.ok (.of_plain rfl ht (fun _ _ => .float _) trivial)
  | _ => exact .pure hr₁.ok (kept nofun)

theorem printf {n : Note} {format : Expr} {args : List Expr}
    (hs : (Expr.printf n format args).Sound P.classes Γ)
    (hc : P.Covers ((Expr.printf n format args).placed Γ)) :
    (Expr.printf n format args).start.Gives P none s ((Expr.printf n format args).Yields P Γ) := by
  obtain ⟨ht, hf⟩ := hs.rule
  refine hr.bind (formatted hr hf fun c hm => ⟨hs.child hm, hc.child hm⟩)
    fun text s₁ h₁ hr₁ _ => ?_
  have printed : s₁.Reaches P none ⟨s₁.world, s₁.machine.print text⟩ :=
    .same hr₁.ok rfl rfl rfl rfl
  refine .bind (.change (R := fun _ _ => True) printed trivial) fun _ s₂ h₂ _ => ?_
  exact .pure h₂.ok (.of_plain rfl ht (fun _ _ => .void) trivial)

theorem scanf {n : Note} {format : Expr} {targets : List Expr}
    (hs : (Expr.scanf n format targets).Sound P.classes Γ)
    (hc : P.Covers ((Expr.scanf n format targets).placed Γ)) :
    (Expr.scanf n format targets).start.Gives P none s ((Expr.scanf n format targets).Yields P Γ) := by
  obtain ⟨ht, ⟨k, template, rfl, -, hl, hspec⟩, hk⟩ := hs.rule
  refine hr.bind (hr.eval (hs.child List.mem_cons_self) (hc.child List.mem_cons_self))
    fun v s₁ h₁ hr₁ hv => ?_
  refine expectString_bind hr₁.ok (fun _ => ⟨template, hv.shows⟩) n.pos fun text e => ?_
  cases hv.shows.symm.trans e
  have targetsSound (c : Expr) (hm : c ∈ targets) :
      c.Sound P.classes Γ ∧ P.Covers (c.placed Γ) :=
    ⟨hs.child (List.mem_cons_of_mem _ hm), hc.child (List.mem_cons_of_mem _ hm)⟩
  have var (hV : P.program.ScansVariables) (k : Note) (x : String) (hx : .name k x ∈ targets) :=
    hV Γ _ _ _ k x hc.place hx
  refine .bind (scan hr₁ hl hspec hk var targetsSound n.pos) fun _ s₂ h₂ _ => ?_
  exact .pure h₂.ok (.of_plain rfl ht (fun _ _ => .void) trivial)

theorem sprintf {n : Note} {x : String} {format : Expr} {args : List Expr}
    (hs : (Expr.sprintf n x format args).Sound P.classes Γ)
    (hc : P.Covers ((Expr.sprintf n x format args).placed Γ)) :
    (Expr.sprintf n x format args).start.Gives P none s ((Expr.sprintf n x format args).Yields P Γ) := by
  obtain ⟨ht, hf, t, hx, htext⟩ := hs.rule
  refine hr.bind (formatted hr hf fun c hm => ⟨hs.child hm, hc.child hm⟩)
    fun text s₁ h₁ hr₁ _ => ?_
  have suits : P.Suits s₁.heap t (.str text) := by
    rcases htext with rfl | rfl
    · exact fun _ _ => .str text
    · exact fun _ ha => by cases ha
  refine .bind (assign hr₁ hx (v := .str text) trivial (.var suits) n.pos) fun _ s₂ h₂ _ => ?_
  exact .pure h₂.ok (.of_plain rfl ht (fun _ _ => .void) trivial)

end

end Eval.Gives

/-! ### Every form -/

/-- What evaluating a sound expression gives. -/
theorem Expr.gives_start (hr : Ready P Γ s) (e : Expr) (hs : e.Sound P.classes Γ)
    (hc : P.Covers (e.placed Γ)) : e.start.Gives P none s (e.Yields P Γ) := by
  cases e with
  | literal n l =>
      refine .pure hr.ok (.of_plain ?_ hs.rule (fun _ _ => Value.fits_ofLiteral _ l) rfl)
      cases l <;> rfl
  | name n x =>
      obtain ⟨known, hx, ht⟩ := hs.rule
      refine (Eval.Gives.lookup hr hx n.pos).mono ?_
      rintro v s' _ ⟨hv, met, hm, htakes⟩
      have suits := hm.suits (hc.untaken (List.mem_singleton_self x) hx) htakes
      exact ⟨hv, fun hT => ⟨known.ty, ht, suits hT⟩, known, met, hx, hm, htakes⟩
  | group n e =>
      have hm : e ∈ (Expr.group n e).children := List.mem_singleton_self e
      refine (hr.eval (hs.child hm) (hc.child hm)).mono fun v s' _ hv => ?_
      refine ⟨hv.ok, fun hT => ?_, trivial⟩
      obtain ⟨t, ht, hsuits⟩ := hv.typed hT
      exact ⟨t, hs.rule.trans ht, hsuits⟩
  | arrayNew n t e => exact .arrayNew hr hs hc
  | index n x i => exact .index hr hs hc
  | indexAssign n x i e => exact .indexAssign hr hs hc
  | call n callee args => exact .call hr hs hc
  | assign n x e => exact .assignment hr hs hc
  | compound n op x e => exact .compound hr hs hc
  | binary n op l r => exact .binary hr hs hc
  | logical n op l r => exact .logical hr hs hc
  | unary n op e => exact .unary hr hs hc
  | step n form target => exact .step hr hs hc
  | cast n target e => exact .cast hr hs hc
  | intToFloat n e => exact .intToFloat hr hs hc
  | get n object x => exact .get hr hs hc
  | set n object x e => exact .set hr hs hc
  | receiver n =>
      obtain ⟨known, hx, ht⟩ := hs.rule
      refine (Eval.Gives.lookup hr hx n.pos).mono ?_
      rintro v s' _ ⟨hv, met, hm, htakes⟩
      have suits := hm.suits (hc.untaken (List.mem_singleton_self "this") hx) htakes
      exact ⟨hv, fun hT => ⟨known.ty, ht, suits hT⟩, trivial⟩
  | superMethod n x => exact .superMethod hr hs hc
  | printf n format args => exact .printf hr hs hc
  | scanf n format targets => exact .scanf hr hs hc
  | sprintf n x format args => exact .sprintf hr hs hc

end Brace
