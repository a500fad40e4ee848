import Brace.Proofs.Reports.Mistakes
import Brace.Proofs.Reports.Pieces

/-!
# Reports — expressions with one mistake

Two expressions are set against each other (`Expr.Swaps`): as an expression of its own, as what is
called, as the target of a step and as one that input is read into, checking the second reports just
what is said more than checking the first. An expression whose operands are set against each other is
set against the one with the others (`Swaps.node`), so every expression is set against itself
(`Swaps.refl`), and then against a mistake (`Swaps.mistake`), wherever in it the mistake is made.

* `Expr.Replaces.swaps`: a mistake in an expression adds one report.
-/

namespace Brace

open Check

variable {x : String}

namespace Expr

/-- What is found of the first expression is found of the second, or is no longer known; and `rs` is
reported more. -/
structure Swaps (x : String) (e : Expr) (rs : List Error) (e' : Expr) : Prop where
  check   : Adds x True e.check e'.check rs Found.Fades
  callee  : ∀ {args args' : List (Ty × Expr)} (p : Position), List.Forall₂ Found.Fades args args' →
    Adds x True (checkCallee e args p e.check) (checkCallee e' args' p e'.check) rs Found.Fades
  target  : ∀ form : StepForm,
    Adds x True (stepTarget form e e.check) (stepTarget form e' e'.check) rs Found.Fades
  scanned : Adds x True (expectTarget e) (expectTarget e') [] Eq

variable {e e' : Expr} {rs : List Error}

/-! ### What expressions of one kind are to the form that they stand in -/

theorem callee_of_kind (hk : e'.kind = e.kind) (he : e.kind = .index ∨ e.kind = .other)
    (h : Adds x True e.check e'.check rs Found.Fades) (args args' : List (Ty × Expr))
    (p : Position) :
    Adds x True (checkCallee e args p e.check) (checkCallee e' args' p e'.check) rs Found.Fades := by
  rw [checkCallee_of_kind he, checkCallee_of_kind (hk ▸ he)]
  refine .andThen h .refl fun r r' hr => .reportIf (fun ht => ?_) _ _ _ _ (.pure (.refl _))
  rcases hr with hr | hr
  · rwa [hr]
  · rw [hr]
    simp [Ty.isAny]

theorem target_of_kind (hk : e'.kind = e.kind) (he : e.kind ≠ .name)
    (h : Adds x True e.check e'.check rs Found.Fades) (form : StepForm) :
    Adds x True (stepTarget form e e.check) (stepTarget form e' e'.check) rs Found.Fades := by
  rw [stepTarget_of_kind he, stepTarget_of_kind (hk ▸ he)]
  have part : e'.isPart = e.isPart := by rw [isPart_eq, isPart_eq, hk]
  refine .andThen h .refl fun r r' hr => ?_
  rw [part]
  split
  · exact .next (stepTy_fades form hr _ _) .refl fun t t' ht => .pure ht
  · exact .report_bind _ _ .refl

theorem scanned_of_kind (hk : e'.kind = e.kind) :
    Adds x True (expectTarget e) (expectTarget e') [] Eq := by
  cases e <;> first
    | exact .report _ _
    | (cases e' <;> first | exact .pure rfl | cases hk)

/-- What is nothing of its own to a call or a step. -/
theorem Swaps.of_check (hk : e'.kind = e.kind) (he : e.kind = .index ∨ e.kind = .other)
    (h : Adds x True e.check e'.check rs Found.Fades) : Swaps x e rs e' where
  check := h
  callee p _ := callee_of_kind hk he h _ _ p
  target := target_of_kind hk (by rcases he with he | he <;> rw [he] <;> nofun) h
  scanned := scanned_of_kind hk

/-! ### Operands that are set against each other -/

theorem checkAll_adds : ∀ {es es' : List Expr} {rs : List Error}, Each (Swaps x) es rs es' →
    Adds x True (checkAll es) (checkAll es') rs (List.Forall₂ Found.Fades)
  | _, _, _, .nil => by
      rw [checkAll]
      exact .pure .nil
  | _, _, _, .cons h hs => by
      rw [checkAll, checkAll]
      exact .bind h.check .refl fun r r' hr => .andThen (checkAll_adds hs) Found.Fades.refl_all
        fun rs rs' hrs => .pure (.cons hr hrs)

theorem targets_adds : ∀ {es es' : List Expr} {rs : List Error}, Each (Swaps x) es rs es' →
    Adds x True (es.forM expectTarget) (es'.forM expectTarget) [] Eq
  | _, _, _, .nil => .pure rfl
  | _, _, _, .cons h hs => .after h.scanned fun _ => targets_adds hs

/-- The arguments of an input or output statement, and then its format. -/
theorem filled_adds {es es' : List Expr} (h : Each (Swaps x) es rs es') (format : Expr)
    {f g : List (Ty × Expr) → Ty × Expr} (hf : ∀ args args', Found.Fades (f args) (g args')) :
    Adds x True (do
      let args ← checkAll es
      expectFormat format args
      pure (f args)) (do
      let args ← checkAll es'
      expectFormat format args
      pure (g args)) rs Found.Fades :=
  .andThen (checkAll_adds h) Found.Fades.refl_all fun args args' hargs =>
    .after (expectFormat_fades format hargs) fun _ => .pure (hf args args')

namespace Swaps

/-- A name is looked up in both runs, whatever it is to the form that it stands in. -/
theorem name (n : Note) (y : String) : Swaps x (.name n y) [] (.name n y) where
  check := by
    rw [Expr.check]
    exact .after (tyOfName_agrees ..) fun _ => .pure (.refl _)
  callee p h := by
    rw [checkCallee, checkCallee]
    refine .after (lookup_agrees ..) fun s => ?_
    cases s with
    | some s => exact .after (callTy_fades s h p) fun _ => .pure (.refl _)
    | none => exact .pure (.refl _)
  target form :=
    .after (assignable_agrees ..) fun t => .next (stepTy_fades form (.refl (t.getD .any)) _ _) .refl
      fun _ _ h => .pure h
  scanned := scanned_of_kind rfl

theorem superMethod (n : Note) (y : String) :
    Swaps x (.superMethod n y) [] (.superMethod n y) := by
  have check : Adds x True (Expr.superMethod n y).check (Expr.superMethod n y).check []
      Found.Fades := by
    rw [Expr.check]
    exact .after (superMethod_agrees ..) fun _ => .pure (.refl _)
  refine ⟨check, fun p h => ?_, target_of_kind rfl nofun check, scanned_of_kind rfl⟩
  rw [checkCallee, checkCallee]
  exact .after (superMethod_agrees ..) fun sig => .next (methodCallTy_fades y h p (.inl rfl)) .refl
    fun _ _ ht => .pure ht

/-- Nothing is known of the class of an object that is no longer known, so it has any property. -/
theorem get (n : Note) (y : String) {o o' : Expr} (h : Swaps x o rs o') :
    Swaps x (.get n o y) rs (.get n o' y) := by
  have check : Adds x True (Expr.get n o y).check (Expr.get n o' y).check rs Found.Fades := by
    rw [Expr.check, Expr.check]
    exact .andThen h.check .refl fun r r' hr => .next (classOf_fades hr _ _) (fun _ => .inl rfl)
      fun c c' hc => .pure (propertyTy_fades y hc)
  refine ⟨check, fun p hargs => ?_, target_of_kind rfl nofun check, scanned_of_kind rfl⟩
  rw [checkCallee, checkCallee]
  refine .andThen h.check .refl fun r r' hr => .next (classOf_fades hr _ _) (fun _ => .inl rfl)
    fun c c' hc => .next (methodCallTy_fades y hargs p ?_) .refl fun _ _ ht => .pure ht
  rcases hc with rfl | rfl
  · exact .inl rfl
  · exact .inr rfl

theorem set (n : Note) (y : String) {o o' e e' : Expr} {rs rs' : List Error}
    (ho : Swaps x o rs o') (he : Swaps x e rs' e') :
    Swaps x (.set n o y e) (rs ++ rs') (.set n o' y e') := .of_check rfl (.inr rfl) <| by
  rw [Expr.check, Expr.check]
  refine .bind ho.check .refl fun r r' hr => .next (classOf_fades hr _ _) (fun _ => .inl rfl)
    fun c c' hc => .andThen he.check .refl ?_
  rintro ⟨t, e⟩ ⟨t', e'⟩ ht
  dsimp only
  cases hf : c.bind (·.field? y) with
  | some field =>
      rcases hc with rfl | rfl
      · rw [hf]
        exact .after (expectAccepted_fades field ht _ _) fun _ => .pure ht
      · -- Of the field nothing is known either, so anything may be stored.
        have dropped : Adds x True (expectAccepted field t e.pos) (pure ()) [] Eq :=
          .dropped (expectAccepted_fades field (.refl t) _ e.pos) fun _ => rfl
        have stored : Adds x True
            (expectAccepted field t e.pos >>= fun _ => pure (yield t (.set n r.2 y e)))
            (pure () >>= fun _ => pure (yield t' (.set n r'.2 y e'))) [] Found.Fades :=
          .after dropped fun _ => .pure ht
        exact stored
  | none =>
      have hf' : c'.bind (·.field? y) = none := by
        rcases hc with rfl | rfl
        · exact hf
        · rfl
      rw [hf']
      exact .pure ht

/-- Expressions whose operands are set against each other are. -/
theorem node (e : Expr) {es : List Expr} {rs : List Error} (h : Each (Swaps x) e.operands rs es) :
    Swaps x e rs (e.withOperands es) := by
  cases e with
  | literal n l =>
      cases h
      refine .of_check rfl (.inr rfl) ?_
      show Adds x True (Expr.literal n l).check (Expr.literal n l).check _ _
      rw [Expr.check]
      exact .pure (.refl _)
  | name n y =>
      cases h
      exact name n y
  | group n e =>
      obtain ⟨e', rfl, he⟩ := h.of_one
      refine .of_check rfl (.inr rfl) ?_
      dsimp only [withOperands]
      rw [Expr.check, Expr.check]
      exact .andThen he.check .refl fun r r' hr => .pure hr
  | arrayNew n t size =>
      obtain ⟨e', rfl, he⟩ := h.of_one
      refine .of_check rfl (.inr rfl) ?_
      dsimp only [withOperands]
      rw [Expr.check, Expr.check]
      exact .reportIf id _ _ _ _ <| .after (resolveTy_agrees ..) fun _ => .andThen he.check .refl
        fun r r' hr => .after (expectIndex_fades hr _ _) fun _ => .pure (.refl _)
  | index n y i =>
      obtain ⟨e', rfl, he⟩ := h.of_one
      refine .of_check rfl (.inl rfl) ?_
      dsimp only [withOperands]
      rw [Expr.check, Expr.check]
      exact .after (elementTy_agrees ..) fun _ => .andThen he.check .refl
        fun r r' hr => .after (expectIndex_fades hr _ _) fun _ => .pure (.refl _)
  | indexAssign n y i e =>
      obtain ⟨a', b', rs₁, rs₂, rfl, rfl, hi, he⟩ := h.of_two
      refine .of_check rfl (.inr rfl) ?_
      dsimp only [withOperands]
      rw [Expr.check, Expr.check]
      exact .after (elementTy_agrees ..) fun _ => .bind hi.check .refl fun i i' hi =>
        .after (expectIndex_fades hi _ _) fun _ => .andThen he.check .refl fun r r' hr =>
          .after (expectAccepted_fades _ hr _ _) fun _ => .pure (.refl _)
  | assign n y e =>
      obtain ⟨e', rfl, he⟩ := h.of_one
      refine .of_check rfl (.inr rfl) ?_
      dsimp only [withOperands]
      rw [Expr.check, Expr.check]
      refine .after (assignable_agrees ..) fun target => .andThen he.check .refl fun r r' hr => ?_
      cases target with
      | some t => exact .after (expectAccepted_fades _ hr _ _) fun _ => .pure (.refl _)
      | none => exact .pure (.refl _)
  | compound n op y e =>
      obtain ⟨e', rfl, he⟩ := h.of_one
      refine .of_check rfl (.inr rfl) ?_
      dsimp only [withOperands]
      rw [Expr.check, Expr.check]
      refine .after (assignable_agrees ..) fun target => .andThen he.check .refl fun r r' hr => ?_
      cases target with
      | some t =>
          refine .next (binaryTy_fades op (.refl t) hr n.pos) Ty.Fades.refl_option fun u u' hu => ?_
          cases hu with
          | some hu => exact .after (expectAccepted_fades _ hu _ _) fun _ => .pure (.refl _)
          | none => exact .pure (.refl _)
      | none => exact .pure (.refl _)
  | binary n op l r =>
      obtain ⟨a', b', rs₁, rs₂, rfl, rfl, hl, hr⟩ := h.of_two
      refine .of_check rfl (.inr rfl) ?_
      dsimp only [withOperands]
      rw [Expr.check, Expr.check]
      refine .bind hl.check .refl fun a a' ha => .andThen hr.check .refl fun b b' hb =>
        .next (binaryTy_fades op ha hb n.pos) Ty.Fades.refl_option fun t t' ht => .pure ?_
      cases ht with
      | some ht => exact ht
      | none => exact .refl _
  | logical n op l r =>
      obtain ⟨a', b', rs₁, rs₂, rfl, rfl, hl, hr⟩ := h.of_two
      refine .of_check rfl (.inr rfl) ?_
      dsimp only [withOperands]
      rw [Expr.check, Expr.check]
      exact .bind hl.check .refl fun a a' ha => .andThen hr.check .refl fun b b' hb =>
        .after (expectBools_fades op ha hb n.pos) fun _ => .pure (.refl _)
  | unary n op e =>
      obtain ⟨e', rfl, he⟩ := h.of_one
      refine .of_check rfl (.inr rfl) ?_
      dsimp only [withOperands]
      rw [Expr.check, Expr.check]
      exact .andThen he.check .refl fun r r' hr => .next (unaryTy_fades op hr n.pos) .refl
        fun t t' ht => .pure ht
  | step n form target =>
      obtain ⟨e', rfl, he⟩ := h.of_one
      refine .of_check rfl (.inr rfl) ?_
      dsimp only [withOperands]
      rw [Expr.check, Expr.check]
      exact .andThen (he.target form) .refl fun r r' hr => .pure hr
  | cast n target e =>
      obtain ⟨e', rfl, he⟩ := h.of_one
      refine .of_check rfl (.inr rfl) ?_
      dsimp only [withOperands]
      rw [Expr.check, Expr.check]
      exact .andThen he.check .refl fun r r' hr => .after (castTy_fades target hr n.pos)
        fun _ => .pure (.refl _)
  | intToFloat n e =>
      obtain ⟨e', rfl, he⟩ := h.of_one
      refine .of_check rfl (.inr rfl) ?_
      dsimp only [withOperands]
      rw [Expr.check, Expr.check]
      exact .andThen he.check .refl fun r r' hr => .after (expectTy_fades .int hr _ _)
        fun _ => .pure (.refl _)
  | get n o y =>
      obtain ⟨e', rfl, he⟩ := h.of_one
      exact get n y he
  | set n o y e =>
      obtain ⟨a', b', rs₁, rs₂, rfl, rfl, ho, he⟩ := h.of_two
      exact set n y ho he
  | receiver n =>
      cases h
      refine .of_check rfl (.inr rfl) ?_
      show Adds x True (Expr.receiver n).check (Expr.receiver n).check _ _
      rw [Expr.check]
      exact .after (tyOfName_agrees ..) fun _ => .pure (.refl _)
  | superMethod n y =>
      cases h
      exact superMethod n y
  | call n callee args =>
      refine .of_check rfl (.inr rfl) ?_
      obtain ⟨args', callee', rs₁, rs₂, rfl, rfl, hargs, hcallee⟩ := h.of_concat
      simp only [withOperands, List.getLastD_concat, List.dropLast_concat]
      rw [Expr.check, Expr.check]
      exact .bind (checkAll_adds hargs) Found.Fades.refl_all fun rs rs' hrs =>
        .andThen (hcallee.callee n.pos hrs) .refl fun r r' hr => .pure hr
  | printf n format args =>
      refine .of_check rfl (.inr rfl) ?_
      show Adds x True (Expr.printf n format args).check (Expr.printf n format es).check _ _
      rw [Expr.check, Expr.check]
      exact filled_adds h format fun _ _ => .refl _
  | scanf n format targets =>
      refine .of_check rfl (.inr rfl) ?_
      show Adds x True (Expr.scanf n format targets).check (Expr.scanf n format es).check _ _
      rw [Expr.check, Expr.check]
      exact .after (targets_adds h) fun _ => filled_adds h format fun _ _ => .refl _
  | sprintf n y format args =>
      refine .of_check rfl (.inr rfl) ?_
      show Adds x True (Expr.sprintf n y format args).check (Expr.sprintf n y format es).check _ _
      rw [Expr.check, Expr.check]
      refine .after (assignable_agrees ..) fun target => ?_
      cases target with
      | some t =>
          exact .after (expectTy_fades .str (.refl t) _ _) fun _ =>
            filled_adds h format fun _ _ => .refl _
      | none => exact filled_adds h format fun _ _ => .refl _

theorem refl (e : Expr) : Swaps x e [] e := by
  have h := node e (Each.refl fun a _ => refl a)
  rwa [withOperands_operands] at h
termination_by sizeOf e
decreasing_by exact sizeOf_child (mem_children_of_operands ‹_›)

/-- An expression against a name that is bound nowhere. -/
theorem mistake (e : Expr) (n : Note) :
    Swaps x e [⟨.undefinedSymbol x, n.pos⟩] (.name n x) where
  check := by
    refine .instead (refl e).check (fun c hc => ?_)
      fun r => .unknown r ((Expr.name n x).typed .any)
    show (Expr.check (.name n x)).run c = _
    rw [Expr.check]
    simp only [tyOfName, lookup, StateT.run_bind, StateT.run_get, pure_bind, hc.lookup]
    rfl
  callee p h := by
    refine .instead ((refl e).callee p h) (fun c hc => ?_) fun r => .unknown r (.name n x)
    show (checkCallee (.name n x) _ p _).run c = _
    rw [checkCallee]
    simp only [lookup, StateT.run_bind, StateT.run_get, pure_bind, hc.lookup]
    rfl
  target form := by
    refine .instead ((refl e).target form) (fun c hc => ?_)
      fun r => .unknown r ((Expr.name n x).typed .any)
    show (stepTarget form (.name n x) _).run c = _
    simp only [stepTarget, assignable, lookup, StateT.run_bind, StateT.run_get, pure_bind,
      hc.lookup]
    rfl
  scanned := .dropped (expectTarget_agrees e) fun _ => rfl

end Swaps

/-- **A mistake in an expression.**  Wherever in an expression a name stands that is bound nowhere,
one report more is made, of just that name. -/
theorem Replaces.swaps {n : Note} (h : Replaces (.name n x) e e') :
    Swaps x e [⟨.undefinedSymbol x, n.pos⟩] e' := by
  induction h with
  | whole e => exact .mistake e n
  | inside h _ ih => exact .node _ (h ▸ .one ih fun c _ => .refl c)

end Expr

end Brace
