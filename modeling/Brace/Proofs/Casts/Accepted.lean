import Brace.Proofs.Casts.Follows
import Brace.Proofs.Casts.Jobs
import Brace.Proofs.Casts.Notes

/-!
# Casts — programs without redundant casts are accepted

A marked cast is redundant if checking notes on it the type of its operand, that is, if it makes of the
program what `Edit.restoring` makes of it. Where all marked casts are redundant, the program without
them is accepted, and checking notes in it what it has noted in the program.

* `Program.check_omitted`: leaving out redundant casts makes no program wrong.
-/

namespace Brace

open Check

/-! ### Expressions -/

namespace Expr

/-- Checking the expression without marked casts follows checking it. -/
abbrev Omits (formed : Bool) (e : Expr) : Prop :=
  Follows (fun r => r.2 = e.editAs .restoring formed) e.check (e.editAs .omitting formed).check
    fun r => (r.1, e.editAs .omitting formed)

/-- Where the note is not changed, nothing is. -/
theorem mapNote_of_eq {f : Note → Note} {e : Expr} (h : f e.note = e.note) : e.mapNote f = e := by
  cases e <;> simp only [note] at h <;> simp only [mapNote, h]

/-- Noting what is noted changes nothing. -/
theorem typed_of_noted {e : Expr} {t : Ty} (h : e.ty? = some t) : e.typed t = e :=
  mapNote_of_eq (by rw [← h]; rfl)

/-- What is noted is in the note already. -/
theorem noted_follows {t s : Ty} {e e' e₁ e₂ : Expr} (note : e₂.note = e₁.note)
    (same : e.typed s = e₁ → e' = e₂) :
    Follows (fun r => r.2 = e₁) (pure (t, e.typed s)) (pure (t, e'.typed s)) fun r => (r.1, e₂) := by
  refine .pure fun h => ?_
  have noted : e₂.ty? = some s := by
    rw [ty?, note, ← h]
    exact ty?_typed e s
  rw [same h, typed_of_noted noted]

/-- What is yielded has its type noted on it. -/
theorem yield_noted (t : Ty) (e : Expr) :
    Always (pure (yield t e)) fun r => r.2.ty? = some r.1 := .pure (ty?_typed e t)

/-- Checking gives an expression back with its type noted on it. -/
theorem check_noted (e : Expr) : Always e.check fun r => r.2.ty? = some r.1 := by
  cases e
  all_goals
    rw [check]
    repeat' first
      | exact yield_noted _ _
      | refine .reportIf _ _ ?_
      | refine .after fun _ => ?_
      | split

/-- An edited expression that keeps its form is of the same kind. -/
theorem kind_editForm (ρ : Edit) (e : Expr) : (e.editForm ρ).kind = e.kind := by
  cases e <;> rfl

/-- The types of expressions that were found with the expressions without marked casts. -/
def omittedResults (formed : Bool) (es : List Expr) (rs : List (Ty × Expr)) : List (Ty × Expr) :=
  (rs.map (·.1)).zip (editAll .omitting formed es)

section Results

variable {formed : Bool} {es : List Expr} {rs : List (Ty × Expr)}

/-- The types of the results are the ones that were found. -/
theorem fades_omittedResults (h : rs.length = es.length) :
    List.Forall₂ Found.Fades rs (omittedResults formed es rs) := by
  induction rs generalizing es with
  | nil => exact .nil
  | cons r rs ih =>
      cases es with
      | nil => cases h
      | cons e es => exact .cons (.inl rfl) (ih (Nat.succ.inj h))

/-- The omitted results are those of the expressions without casts. -/
theorem map_omittedResults (h : rs.length = es.length) :
    (omittedResults formed es rs).map (·.2) = editAll .omitting formed es := by
  rw [omittedResults, editAll_eq_map]
  exact List.map_snd_zip (by simp [h])

theorem checkAll_length (es : List Expr) : Always (checkAll es) fun rs => rs.length = es.length :=
  fun c => by simpa using congrArg List.length (checkAll_bare es c)

end Results

/-- What may be read into stays so without casts, as a target keeps its form. -/
theorem targets_agree {x : String} {still : Prop} (ρ : Edit) (es : List Expr) :
    Adds x still (es.forM expectTarget) ((editAll ρ true es).forM expectTarget) [] Eq := by
  induction es with
  | nil => exact .pure rfl
  | cons e es ih =>
      have target : Adds x still (expectTarget e) (expectTarget (e.editForm ρ)) [] Eq := by
        cases e <;> first | exact .pure rfl | exact .report _ _
      exact target.after fun _ => ih

/-- A format that is no text written out is reported. -/
theorem format_follows {format : Expr} {rs rs' : List (Ty × Expr)}
    (h : List.Forall₂ Found.Fades rs rs') {P : Ty × Expr → Prop} {F : Ty × Expr → Ty × Expr}
    {f g : Expr → Ty × Expr} (hf : ∀ n l, format = .literal n l →
      Follows P (pure (f (format.typed .str))) (pure (g (format.typed .str))) F) :
    Follows P (do
      expectFormat format rs
      pure (f (format.typed .str))) (do
      expectFormat (format.editForm .omitting) rs'
      pure (g ((format.editForm .omitting).typed .str))) F := by
  cases format with
  | literal n l =>
      cases l with
      | str template => exact .after (fun _ => expectFormat_fades _ h) fun _ => hf n _ rfl
      | _ => exact .report _ _ .refl
  | _ => exact .report _ _ .refl

/-- Stepping without casts follows stepping. -/
theorem stepTarget_omits (form : StepForm) (e : Expr) (h : e.Omits true) :
    Follows (fun r => r.2 = e.editForm .restoring) (stepTarget form e e.check)
      (stepTarget form (e.editForm .omitting) (e.editForm .omitting).check)
      fun r => (r.1, e.editForm .omitting) := by
  by_cases hk : e.kind = .name
  · cases e with
    | name n x =>
        exact .after (fun _ => assignable_agrees ..) fun t => .after (fun _ => stepTy_agrees ..)
          fun s => noted_follows rfl fun _ => rfl
    | _ => cases hk
  · have kind := kind_editForm .omitting e
    have part : (e.editForm .omitting).isPart = e.isPart := by rw [isPart_eq, isPart_eq, kind]
    rw [stepTarget_of_kind hk, stepTarget_of_kind (by rwa [kind]), part, pos_editForm]
    refine .bind h (fun r => ?_) fun r => ?_
    · split
      · exact .after fun s => .pure id
      · exact .after fun s => .pure id
    · split
      · exact .after (fun _ => stepTy_agrees ..) fun s => .pure fun _ => rfl
      · exact .report _ _ .refl

/-- A callee of no kind of its own. -/
theorem callee_omits {rs rs' : List (Ty × Expr)} {p : Position} {e : Expr}
    (hk : e.kind = .index ∨ e.kind = .other) (h : e.Omits true) :
    Follows (fun r => r.2 = e.editForm .restoring) (checkCallee e rs p e.check)
      (checkCallee (e.editForm .omitting) rs' p (e.editForm .omitting).check)
      fun r => (r.1, e.editForm .omitting) := by
  rw [checkCallee_of_kind hk, checkCallee_of_kind (by rwa [kind_editForm])]
  exact .bind h (fun r => .reportIf _ _ (.pure id)) fun r =>
    .reportIf id _ _ _ _ (.pure fun _ => rfl)

section Casts

variable {n : Note} {formed : Bool} (t : String) (a : Expr)

/-- A cast that is kept stays around its edited operand. -/
theorem editAs_kept (h : formed = true ∨ n.ty?.isNone = false) :
    (cast n t a).editAs .restoring formed = .cast n t (a.edit .restoring) ∧
    (cast n t a).editAs .omitting formed = .cast n t (a.edit .omitting) := by
  cases formed with
  | true => exact ⟨rfl, rfl⟩
  | false =>
      have kept := h.resolve_left nofun
      have restored : Edit.restoring.cast n (a.edit .restoring) = some n :=
        congrArg some (if_neg (by rw [kept]; exact nofun))
      have omitted : Edit.omitting.cast n (a.edit .omitting) = some n :=
        if_neg (by rw [kept]; exact nofun)
      simp only [editAs, restored, omitted, and_self]

/-- A cast that is marked is left out, or has the type of its operand noted on it. -/
theorem editAs_marked (h : n.ty?.isNone = true) :
    (cast n t a).editAs .restoring false =
      .cast { n with ty? := (a.edit .restoring).ty? } t (a.edit .restoring) ∧
    (cast n t a).editAs .omitting false = a.edit .omitting := by
  have restored : Edit.restoring.cast n (a.edit .restoring) =
    some { n with ty? := (a.edit .restoring).ty? } := congrArg some (if_pos h)
  have omitted : Edit.omitting.cast n (a.edit .omitting) = none := if_pos h
  simp only [editAs, restored, omitted, and_self]

variable {t a}

/-- The cast that is left out: the operand alone gives the type that the cast had. -/
theorem cast_omits (h : a.Omits false) : (cast n t a).Omits formed := by
  by_cases kept : formed = true ∨ n.ty?.isNone = false
  · obtain ⟨restored, omitted⟩ := editAs_kept t a kept
    rw [Omits, restored, omitted, check, check]
    exact h.bind (fun r => .after fun _ => .pure fun h => (cast.inj h).2.2) fun r =>
      .after (fun _ => castTy_fades _ (.refl _) _) fun s => noted_follows rfl fun _ => rfl
  · rw [not_or, Bool.not_eq_true, Bool.not_eq_false] at kept
    obtain ⟨rfl, marked⟩ := kept
    obtain ⟨restored, omitted⟩ := editAs_marked t a marked
    rw [Omits, restored, omitted, check, ← bind_pure (a.edit .omitting).check]
    refine h.bindKnown (check_noted a) (fun r => .after fun _ => .pure fun h => (cast.inj h).2.2)
      fun r noted => .dropped (fun _ => castTy_fades _ (.refl _) _) fun s => .pure fun h => ?_
    -- The type that is noted on the cast is the one that its operand has.
    obtain ⟨note, -, operand⟩ := cast.inj h
    have same : some s = some r.1 := by
      rw [← noted, operand]
      exact congrArg Note.ty? note
    exact Prod.ext (Option.some.inj same).symm rfl

end Casts

/-- Arguments and a format, of which an expression is made. -/
theorem fill_omits {C : Expr → List Expr → Expr}
    (inj : ∀ e e' es es', (C e es).typed .void = C e' es' → e = e' ∧ es = es')
    (note : ∀ e e' es es', (C e es).note = (C e' es').note) (format : Expr) {formed : Bool}
    {args : List Expr} (h : Follows (fun rs => rs.map (·.2) = editAll .restoring formed args)
      (checkAll args) (checkAll (editAll .omitting formed args)) (omittedResults formed args)) :
    Follows (fun r => r.2 = C (format.editForm .restoring) (editAll .restoring formed args)) (do
      let args ← checkAll args
      expectFormat format args
      pure (yield .void (C (format.typed .str) (args.map (·.2))))) (do
      let args ← checkAll (editAll .omitting formed args)
      expectFormat (format.editForm .omitting) args
      pure (yield .void (C ((format.editForm .omitting).typed .str) (args.map (·.2)))))
      fun r => (r.1, C (format.editForm .omitting) (editAll .omitting formed args)) := by
  refine h.bindKnown (checkAll_length args)
    (fun rs => .after fun _ => .pure fun h => (inj _ _ _ _ h).2) fun rs hrs =>
      format_follows (fades_omittedResults hrs)
        (f := fun e => yield .void (C e (rs.map (·.2)))) (g := fun e => yield .void (C e _)) ?_
  rintro m l rfl
  refine noted_follows (note ..) fun h => ?_
  rw [map_omittedResults hrs]
  exact congrArg (C · _) (inj _ _ _ _ h).1

mutual

/-- Checking an expression without marked casts follows checking it, one case for each form. -/
theorem check_omits : ∀ (formed : Bool) (e : Expr), e.Omits formed
  | _, .literal n l => by
      rw [Omits, editAs, editAs, check, check]
      exact noted_follows rfl fun _ => rfl
  | _, .name n x => by
      rw [Omits, editAs, editAs, check, check]
      exact .after (fun _ => tyOfName_agrees ..) fun t => noted_follows rfl fun _ => rfl
  | _, .group n e => by
      rw [Omits, editAs, editAs, check, check]
      exact (check_omits false e).bind (fun r => .pure fun h => (group.inj h).2) fun r =>
        noted_follows rfl fun _ => rfl
  | _, .arrayNew n t size => by
      rw [Omits, editAs, editAs, check, check]
      exact .reportIf id _ _ _ _ <| .after (fun _ => resolveTy_agrees ..) fun _ =>
        (check_omits false size).bind (fun r => .after fun _ => .pure fun h => (arrayNew.inj h).2.2)
          fun r => .after (fun _ => expectIndex_fades (.refl _) _ _) fun _ =>
            noted_follows rfl fun _ => rfl
  | _, .index n x i => by
      rw [Omits, editAs, editAs, check, check]
      exact .after (fun _ => elementTy_agrees ..) fun t =>
        (check_omits false i).bind (fun r => .after fun _ => .pure fun h => (index.inj h).2.2)
          fun r => .after (fun _ => expectIndex_fades (.refl _) _ _) fun _ =>
            noted_follows rfl fun _ => rfl
  | _, .indexAssign n x i e => by
      rw [Omits, editAs, editAs, check, check]
      exact .after (fun _ => elementTy_agrees ..) fun t =>
        (check_omits false i).bind (fun r => .after fun _ => .after fun r' => .after fun _ =>
            .pure fun h => (indexAssign.inj h).2.2.1) fun r =>
          .after (fun _ => expectIndex_fades (.refl _) _ _) fun _ =>
            (check_omits false e).bind (fun r' => .after fun _ =>
                .pure fun h => (indexAssign.inj h).2.2.2) fun r' =>
              .after (fun _ => expectAccepted_fades _ (.refl _) _ _) fun _ =>
                noted_follows rfl fun _ => rfl
  | _, .assign n x e => by
      rw [Omits, editAs, editAs, check, check]
      refine .after (fun _ => assignable_agrees ..) fun target =>
        (check_omits false e).bind (fun r => ?_) fun r => ?_
      · cases target with
        | some t => exact .after fun _ => .pure fun h => (assign.inj h).2.2
        | none => exact .pure fun h => (assign.inj h).2.2
      · cases target with
        | some t =>
            exact .after (fun _ => expectAccepted_fades _ (.refl _) _ _) fun _ =>
              noted_follows rfl fun _ => rfl
        | none => exact noted_follows rfl fun _ => rfl
  | _, .compound n op x e => by
      rw [Omits, editAs, editAs, check, check]
      refine .after (fun _ => assignable_agrees ..) fun target =>
        (check_omits false e).bind (fun r => ?_) fun r => ?_
      · cases target with
        | some t =>
            refine .after fun result => ?_
            cases result with
            | some u => exact .after fun _ => .pure fun h => (compound.inj h).2.2.2
            | none => exact .pure fun h => (compound.inj h).2.2.2
        | none => exact .pure fun h => (compound.inj h).2.2.2
      · cases target with
        | some t =>
            refine .after (fun _ => binaryTy_agrees ..) fun result => ?_
            cases result with
            | some u =>
                exact .after (fun _ => expectAccepted_fades _ (.refl _) _ _) fun _ =>
                  noted_follows rfl fun _ => rfl
            | none => exact noted_follows rfl fun _ => rfl
        | none => exact noted_follows rfl fun _ => rfl
  | _, .binary n op l r => by
      rw [Omits, editAs, editAs, check, check]
      exact (check_omits false l).bind (fun a => .after fun b => .after fun _ =>
          .pure fun h => (binary.inj h).2.2.1) fun a =>
        (check_omits false r).bind (fun b => .after fun _ => .pure fun h => (binary.inj h).2.2.2)
          fun b => .after (fun _ => binaryTy_agrees ..) fun t => noted_follows rfl fun _ => rfl
  | _, .logical n op l r => by
      rw [Omits, editAs, editAs, check, check]
      exact (check_omits false l).bind (fun a => .after fun b => .after fun _ =>
          .pure fun h => (logical.inj h).2.2.1) fun a =>
        (check_omits false r).bind (fun b => .after fun _ => .pure fun h => (logical.inj h).2.2.2)
          fun b => .after (fun _ => expectBools_fades op (.refl _) (.refl _) _) fun _ =>
            noted_follows rfl fun _ => rfl
  | _, .unary n op e => by
      rw [Omits, editAs, editAs, check, check]
      exact (check_omits false e).bind (fun r => .after fun _ => .pure fun h => (unary.inj h).2.2)
        fun r => .after (fun _ => unaryTy_agrees ..) fun t => noted_follows rfl fun _ => rfl
  | _, .step n form target => by
      rw [Omits, editAs, editAs, check, check]
      exact (stepTarget_omits form target (check_omits true target)).bind
        (fun r => .pure fun h => (step.inj h).2.2) fun r => noted_follows rfl fun _ => rfl
  | _, .cast n t e => cast_omits (check_omits false e)
  | _, .intToFloat n e => by
      rw [Omits, editAs, editAs, check, check]
      exact (check_omits false e).bind (fun r => .after fun _ => .pure fun h => (intToFloat.inj h).2)
        fun r => .after (fun _ => expectTy_fades .int (.refl _) _ _) fun _ =>
          noted_follows rfl fun _ => rfl
  | _, .get n o x => by
      rw [Omits, editAs, editAs, check, check]
      exact (check_omits false o).bind (fun r => .after fun _ => .pure fun h => (get.inj h).2.1)
        fun r => .after (fun _ => classOf_agrees ..) fun c => noted_follows rfl fun _ => rfl
  | _, .set n o x e => by
      rw [Omits, editAs, editAs, check, check]
      refine (check_omits false o).bind (fun r => .after fun c => .after fun r' => ?_) fun r =>
        .after (fun _ => classOf_agrees ..) fun c => (check_omits false e).bind (fun r' => ?_)
          fun r' => ?_
      · dsimp only
        cases c.bind (·.field? x) with
        | some field => exact .after fun _ => .pure fun h => (set.inj h).2.1
        | none => exact .pure fun h => (set.inj h).2.1
      · dsimp only
        cases c.bind (·.field? x) with
        | some field => exact .after fun _ => .pure fun h => (set.inj h).2.2.2
        | none => exact .pure fun h => (set.inj h).2.2.2
      · dsimp only
        cases c.bind (·.field? x) with
        | some field =>
            exact .after (fun _ => expectAccepted_fades _ (.refl _) _ _) fun _ =>
              noted_follows rfl fun _ => rfl
        | none => exact noted_follows rfl fun _ => rfl
  | _, .receiver n => by
      rw [Omits, editAs, editAs, check, check]
      exact .after (fun _ => tyOfName_agrees ..) fun t => noted_follows rfl fun _ => rfl
  | _, .superMethod n x => by
      rw [Omits, editAs, editAs, check, check]
      exact .after (fun _ => superMethod_agrees ..) fun sig => noted_follows rfl fun _ => rfl
  | _, .call n callee args => by
      rw [Omits, editAs, editAs, check, check]
      exact (checkAll_omits false args).bindKnown (checkAll_length args)
        (fun rs => .after fun r => .pure fun h => (call.inj h).2.2) fun rs hrs =>
          (checkCallee_omits hrs n.pos callee (check_omits true callee)).bind
            (fun r => .pure fun h => (call.inj h).2.1) fun r => noted_follows rfl fun _ => by
              rw [map_omittedResults hrs]
  | _, .printf n format args => by
      rw [Omits, editAs, editAs, check, check]
      exact fill_omits (C := printf n) (fun _ _ _ _ h => (printf.inj h).2) (fun _ _ _ _ => rfl) format
        (checkAll_omits false args)
  | _, .scanf n format targets => by
      rw [Omits, editAs, editAs, check, check]
      exact .after (fun _ => targets_agree _ targets) fun _ =>
        fill_omits (C := scanf n) (fun _ _ _ _ h => (scanf.inj h).2) (fun _ _ _ _ => rfl) format
          (checkAll_omits true targets)
  | _, .sprintf n x format args => by
      rw [Omits, editAs, editAs, check, check]
      have filled := fill_omits (C := sprintf n x) (fun _ _ _ _ h => (sprintf.inj h).2.2)
        (fun _ _ _ _ => rfl) format (checkAll_omits false args)
      refine .after (fun _ => assignable_agrees ..) fun target => ?_
      cases target with
      | some t => exact .after (fun _ => expectTy_fades .str (.refl _) _ _) fun _ => filled
      | none => exact filled

/-- The callee of a call is checked without casts as with them. -/
theorem checkCallee_omits {es : List Expr} {rs : List (Ty × Expr)} (hrs : rs.length = es.length)
    (p : Position) : ∀ e : Expr, e.Omits true →
      Follows (fun r => r.2 = e.editForm .restoring) (checkCallee e rs p e.check)
        (checkCallee (e.editForm .omitting) (omittedResults false es rs) p
          (e.editForm .omitting).check)
        fun r => (r.1, e.editForm .omitting)
  | .name m x, _ => by
      rw [editForm, editForm, editAs, editAs, checkCallee, checkCallee]
      refine .after (fun _ => lookup_agrees ..) fun s => ?_
      cases s with
      | some s =>
          exact .after (fun _ => callTy_fades s (fades_omittedResults hrs) p) fun t =>
            noted_follows rfl fun _ => rfl
      | none => exact .pure fun _ => rfl
  | .get m o x, _ => by
      rw [editForm, editForm, editAs, editAs, checkCallee, checkCallee]
      exact (check_omits false o).bind (fun r => .after fun c => .after fun t =>
          .pure fun h => (get.inj h).2.1) fun r =>
        .after (fun _ => classOf_agrees ..) fun c =>
          .after (fun _ => methodCallTy_agrees x (fades_omittedResults hrs) p _) fun t =>
            noted_follows rfl fun _ => rfl
  | .superMethod m x, _ => by
      rw [editForm, editForm, editAs, editAs, checkCallee, checkCallee]
      exact .after (fun _ => superMethod_agrees ..) fun sig =>
        .after (fun _ => methodCallTy_agrees x (fades_omittedResults hrs) p _) fun t =>
          noted_follows rfl fun _ => rfl
  | .index .., h => callee_omits (.inl rfl) h
  | .literal .., h | .group .., h | .arrayNew .., h | .indexAssign .., h | .call .., h
  | .assign .., h | .compound .., h | .binary .., h | .logical .., h | .unary .., h
  | .step .., h | .cast .., h | .intToFloat .., h | .set .., h | .receiver .., h
  | .printf .., h | .scanf .., h | .sprintf .., h => callee_omits (.inr rfl) h

/-- So do the expressions of a list. -/
theorem checkAll_omits : ∀ (formed : Bool) (es : List Expr),
    Follows (fun rs => rs.map (·.2) = editAll .restoring formed es) (checkAll es)
      (checkAll (editAll .omitting formed es)) (omittedResults formed es)
  | _, []      => by
      rw [editAll, editAll, checkAll]
      exact .pure fun _ => rfl
  | formed, e :: es => by
      rw [editAll, editAll, checkAll, checkAll]
      refine (check_omits formed e).bind (fun r => .after fun rs =>
          .pure fun h => (List.cons.inj h).1) fun r =>
        (checkAll_omits formed es).bind (fun rs => .pure fun h => (List.cons.inj h).2) fun rs =>
          .pure fun _ => ?_
      rw [omittedResults, omittedResults, editAll, List.map_cons, List.zip_cons_cons]

end

end Expr

/-! ### Statements -/

theorem VarDecl.check_omits (v : VarDecl) : Follows (· = v.edit .restoring) v.check
    (v.edit .omitting).check fun _ => v.edit .omitting := by
  obtain ⟨p, t, x, init⟩ := v
  have settle (declared : Bool) (w : VarDecl) : Always (do
      if declared then
        let _ ← define x (.var t) p
      pure w) (· = w) := by
    cases declared with
    | true => exact .after fun _ => .pure rfl
    | false => exact .pure rfl
  have settled {P : VarDecl → Prop} (declared : Bool) (w w' : VarDecl) : Follows P (do
      if declared then
        let _ ← define x (.var t) p
      pure w) (do
      if declared then
        let _ ← define x (.var t) p
      pure w') fun _ => w' := by
    cases declared with
    | true => exact .bound (fun _ hx => define_agrees hx ..) fun _ => .pure fun _ => rfl
    | false => exact .pure fun _ => rfl
  rw [check, check]
  refine .reportIf id _ _ _ _ <| .after (fun _ => resolveTy_agrees ..) fun _ =>
    .bound (fun _ hx => declare_agrees hx ..) fun declared => ?_
  cases init with
  | none => exact settled declared _ _
  | some e =>
      refine (e.check_omits false).bind (fun r => .after fun _ => fun c h => ?_) fun r =>
        .after (fun _ => expectAccepted_fades _ (.refl _) _ _) fun _ => settled declared _ _
      have same := (settle declared ⟨p, t, x, some r.2⟩ c).symm.trans h
      exact Option.some.inj (VarDecl.mk.inj same).2.2.2

/-- A loop starts without casts as it does with them. -/
theorem ForInit.check_omits (init : ForInit) : Follows (· = init.edit .restoring) init.check
    (init.edit .omitting).check fun _ => init.edit .omitting := by
  cases init with
  | decl v => exact v.check_omits.bind (fun _ => .pure decl.inj) fun _ => .pure fun _ => rfl
  | expr e =>
      have form : (e.editForm .omitting).isAssignment = e.isAssignment := by cases e <;> rfl
      rw [edit, edit, check, check, form]
      exact .reportIf id _ _ _ _ <| (e.check_omits true).bind (fun _ => .pure expr.inj) fun _ =>
        .pure fun _ => rfl

theorem Expr.condition_omits (e : Expr) : Follows (· = e.edit .restoring) e.checkCondition
    (e.edit .omitting).checkCondition fun _ => e.edit .omitting :=
  (e.check_omits false).bind (fun _ => .after fun _ => .pure id) fun _ =>
    .after (fun _ => expectTy_fades _ (.refl _) _ _) fun _ => .pure fun _ => rfl

theorem Check.update_omits (e : Expr) : Follows (· = e.editForm .restoring) (update e)
    (update (e.editForm .omitting)) fun _ => e.editForm .omitting := by
  have form : (e.editForm .omitting).isStep = e.isStep := by
    cases e with
    | compound n op x e => cases op <;> rfl
    | _ => rfl
  rw [update, update, form]
  exact .reportIf id _ _ _ _ <| (e.check_omits true).bind (fun _ => .pure id) fun _ =>
    .pure fun _ => rfl

namespace Stmt

mutual

/-- Checking a statement without marked casts follows checking it, one case for each form. -/
theorem check_omits : ∀ s : Stmt, Follows (· = s.edit .restoring) s.check (s.edit .omitting).check
    fun _ => s.edit .omitting
  | .block p locals body => by
      rw [edit, edit, check, check]
      exact .inFrame p <| (Follows.mapM VarDecl.check_omits locals).bind (fun _ => .after fun _ =>
          .pure fun h => (block.inj h).2.1) fun locals' =>
        (checkAll_omits body).bind (fun _ => .pure fun h => (block.inj h).2.2) fun body' =>
          .pure fun _ => rfl
  | .ifElse p cond t e => by
      rw [edit, edit, check, check]
      exact cond.condition_omits.bind (fun _ => .after fun _ => .after fun _ =>
          .pure fun h => (ifElse.inj h).2.1) fun cond' =>
        (check_omits t).bind (fun _ => .after fun _ => .pure fun h => (ifElse.inj h).2.2.1) fun t' =>
          (check_omits e).bind (fun _ => .pure fun h => (ifElse.inj h).2.2.2) fun e' =>
            .pure fun _ => rfl
  | .whileLoop p cond body => by
      rw [edit, edit, check, check]
      exact cond.condition_omits.bind (fun _ => .after fun _ => .pure fun h => (whileLoop.inj h).2.1)
        fun cond' => ((check_omits body).withLoop true).bind
          (fun _ => .pure fun h => (whileLoop.inj h).2.2) fun body' => .pure fun _ => rfl
  | .forLoop p init cond update body => by
      rw [edit, edit, check, check]
      exact .inFrame p <| init.check_omits.bind (fun _ => .after fun _ => .after fun _ =>
          .after fun _ => .pure fun h => (forLoop.inj h).2.1) fun init' =>
        cond.condition_omits.bind (fun _ => .after fun _ => .after fun _ =>
            .pure fun h => (forLoop.inj h).2.2.1) fun cond' =>
          (update_omits update).bind (fun _ => .after fun _ =>
              .pure fun h => (forLoop.inj h).2.2.2.1) fun update' =>
            ((check_omits body).withLoop true).bind (fun _ => .pure fun h => (forLoop.inj h).2.2.2.2)
              fun body' => .pure fun _ => rfl
  | .ret p (some e) => by
      rw [edit, edit, Option.map_some, Option.map_some, check, check]
      exact (e.check_omits false).bind (fun _ => .after fun _ =>
          .pure fun h => Option.some.inj (ret.inj h).2) fun r =>
        .after (fun _ => expectReturn_fades (.some (.refl _)) p) fun _ => .pure fun _ => rfl
  | .ret p none => by
      rw [edit, edit, Option.map_none, Option.map_none, check]
      exact .after (fun _ => expectReturn_fades .none p) fun _ => .pure fun _ => rfl
  | .breakLoop p => by
      rw [edit, edit, check]
      exact .after (fun _ => loopSignal_agrees ..) fun _ => .pure fun _ => rfl
  | .continueLoop p => by
      rw [edit, edit, check]
      exact .after (fun _ => loopSignal_agrees ..) fun _ => .pure fun _ => rfl
  | .expr p e => by
      rw [edit, edit, check, check]
      exact (e.check_omits false).bind (fun _ => .pure fun h => (expr.inj h).2) fun r =>
        .pure fun _ => rfl
  | .empty p => by
      rw [edit, edit, check]
      exact .pure fun _ => rfl

theorem checkAll_omits : ∀ ss : List Stmt, Follows (· = editAll .restoring ss) (checkAll ss)
    (checkAll (editAll .omitting ss)) fun _ => editAll .omitting ss
  | []      => by
      rw [editAll, editAll, checkAll]
      exact .pure fun _ => rfl
  | s :: ss => by
      rw [editAll, editAll, checkAll, checkAll]
      exact (check_omits s).bind (fun _ => .after fun _ => .pure fun h => (List.cons.inj h).1)
        fun s' => (checkAll_omits ss).bind (fun _ => .pure fun h => (List.cons.inj h).2) fun ss' =>
          .pure fun _ => rfl

end

/-! ### What always returns -/

mutual

/-- Whether a statement always returns is not told by casts. -/
theorem alwaysReturns_edit (ρ : Edit) : ∀ s : Stmt, (s.edit ρ).alwaysReturns = s.alwaysReturns
  | .block p locals body => by
      rw [edit, alwaysReturns, alwaysReturns]
      exact anyReturns_edit ρ body
  | .ifElse p cond t e => by
      rw [edit, alwaysReturns, alwaysReturns, alwaysReturns_edit ρ t, alwaysReturns_edit ρ e]
  | .ret p e => by rw [edit, alwaysReturns, alwaysReturns]
  | .whileLoop .. | .forLoop .. | .expr .. => by
      rw [edit, alwaysReturns, alwaysReturns] <;> nofun
  | .breakLoop _ | .continueLoop _ | .empty _ => by rw [edit]

theorem anyReturns_edit (ρ : Edit) : ∀ ss : List Stmt, anyReturns (editAll ρ ss) = anyReturns ss
  | []      => by rw [editAll]
  | s :: ss => by
      rw [editAll, anyReturns, anyReturns, alwaysReturns_edit ρ s, anyReturns_edit ρ ss]

end

end Stmt

/-! ### Programs -/

namespace FuncDecl

/-- The body of a function is checked without casts as with them. -/
theorem checkBody_omits (f : FuncDecl) : Follows (· = f.edit .restoring) f.checkBody
    (f.edit .omitting).checkBody fun _ => f.edit .omitting := by
  have params : Follows (fun _ => True) (f.params.forM fun x => do
      let _ ← resolveTy f.pos x.ty
      let _ ← define x.name (.var x.ty) f.pos) (f.params.forM fun x => do
      let _ ← resolveTy f.pos x.ty
      let _ ← define x.name (.var x.ty) f.pos) id :=
    .forM (fun x => .after (fun _ => resolveTy_agrees ..) fun _ =>
      .bound (fun _ hx => define_agrees hx ..) fun _ => .pure fun _ => rfl) f.params
  rw [checkBody, checkBody]
  refine .after (fun _ => resolveTy_agrees ..) fun _ => .bindGood (P := (· = f.edit .restoring))
    (K := fun _ => True) (F := fun _ => f.edit .omitting) (.inFrame f.pos ?_) (fun _ => trivial)
    (fun g => .reportIf _ _ (.pure id)) (fun g _ => later_reportIf _ _ (later_pure g)) ?_
  · exact params.bind (fun _ _ _ => trivial) fun _ => .withLoop false <| .withFunction _ <|
      (Follows.mapM VarDecl.check_omits f.locals).bind (fun _ => .after fun _ =>
          .pure fun h => (FuncDecl.mk.inj h).2.2.2.2.1) fun locals =>
        (Stmt.checkAll_omits f.body).bind (fun _ => .pure fun h => (FuncDecl.mk.inj h).2.2.2.2.2)
          fun body => .pure fun _ => rfl
  · rintro g - rfl
    have returns (ρ : Edit) : Stmt.anyReturns (f.edit ρ).body = Stmt.anyReturns f.body :=
      Stmt.anyReturns_edit ρ f.body
    refine .reportIf (fun h => ?_) _ _ _ _ (.pure fun _ => rfl)
    rw [returns] at h ⊢
    exact h

theorem check_omits (f : FuncDecl) : Follows (· = f.edit .restoring) f.check
    (f.edit .omitting).check fun _ => f.edit .omitting :=
  .bound (fun _ hx => define_agrees hx ..) fun _ => f.checkBody_omits

end FuncDecl

namespace ClassDecl

variable (d : ClassDecl)

/-- The table of methods has their signatures, in which there is no code. -/
theorem methodTable_edit (ρ : Edit) (fields : Table Ty) :
    (d.edit ρ).methodTable fields = d.methodTable fields := by
  rw [methodTable, methodTable]
  exact List.foldlM_map ..

theorem methodTable_agrees {x : String} {still : Prop} (fields : Table Ty) :
    Agrees x still (d.methodTable fields) := by
  refine .foldlM_agrees (fun t f => ?_) d.methods _
  dsimp only
  split
  · exact .report_bind _ _ .refl
  · exact .reportIf id _ _ _ _ (.pure rfl)

/-- The inside of a class is checked without casts as with them. -/
theorem checkInside_omits (superclass : Option ClassInfo) :
    Follows (· = d.edit .restoring) (d.checkInside superclass)
      ((d.edit .omitting).checkInside superclass) fun _ => d.edit .omitting := by
  have methods : Follows (· = d.edit .restoring) (do
      let methods ← d.methods.mapM FuncDecl.checkBody
      pure { d with methods }) (do
      let methods ← (d.edit .omitting).methods.mapM FuncDecl.checkBody
      pure { d.edit .omitting with methods }) fun _ => d.edit .omitting :=
    (Follows.mapM FuncDecl.checkBody_omits d.methods).bind
      (fun _ => .pure fun h => (ClassDecl.mk.inj h).2.2.2.2) fun _ => .pure fun _ => rfl
  refine .inFrame d.pos (.bound (fun _ hx => define_agrees hx ..) fun _ => ?_)
  cases superclass with
  | none => exact methods
  | some c => exact .bound (fun _ hx => define_agrees hx ..) fun _ => methods

theorem checkBelow_omits (superclass : Option ClassInfo) :
    Follows (· = d.edit .restoring) (d.checkBelow superclass)
      ((d.edit .omitting).checkBelow superclass) fun _ => d.edit .omitting := by
  have known : Follows (fun _ => True) (d.fields.forM fun x => do
      let _ ← resolveTy d.pos x.ty) (d.fields.forM fun x => do
      let _ ← resolveTy d.pos x.ty) id :=
    .forM (fun x => .after (fun _ => resolveTy_agrees ..) fun _ => .pure fun _ => rfl) d.fields
  have inside : Follows (· = d.edit .restoring) (do
      d.fields.forM fun x => do
        let _ ← resolveTy d.pos x.ty
      d.checkInside superclass) (do
      d.fields.forM fun x => do
        let _ ← resolveTy d.pos x.ty
      (d.edit .omitting).checkInside superclass) fun _ => d.edit .omitting :=
    known.bind (fun _ _ _ => trivial) fun _ => d.checkInside_omits superclass
  refine .after (fun _ => d.fieldTable_agrees) fun fields => ?_
  rw [methodTable_edit]
  refine .after (fun _ => d.methodTable_agrees fields) fun methods =>
    .bound (fun _ hx => define_agrees hx ..) fun defined => ?_
  cases defined with
  | true => exact .bound (y := "") (fun _ _ => putClass_agrees ..) fun _ => inside
  | false => exact inside

/-- A class is checked without casts as with them. -/
theorem check_omits : Follows (· = d.edit .restoring) d.check (d.edit .omitting).check
    fun _ => d.edit .omitting := by
  rw [check_eq_below, check_eq_below]
  exact .after (fun _ => d.superInfo_agrees) fun superclass => d.checkBelow_omits superclass

end ClassDecl

/-- A declaration is checked without casts as with them. -/
theorem Decl.check_omits (d : Decl) : Follows (· = d.edit .restoring) d.check
    (d.edit .omitting).check fun _ => d.edit .omitting := by
  cases d with
  | var v => exact v.check_omits.bind (fun _ => .pure var.inj) fun _ => .pure fun _ => rfl
  | func f => exact f.check_omits.bind (fun _ => .pure func.inj) fun _ => .pure fun _ => rfl
  | cls d => exact d.check_omits.bind (fun _ => .pure cls.inj) fun _ => .pure fun _ => rfl

namespace Program

/-- **Leaving out redundant casts makes no program wrong.**  If checking notes on each marked cast the
type of its operand, the program without the marked casts is accepted, and is given back as it is. -/
theorem check_omitted {q : Program} {checked : Checked} (h : q.check = .ok checked)
    (redundant : checked.program = q.restored) :
    ∃ warnings, q.omitted.check = .ok ⟨q.omitted, warnings⟩ := by
  obtain ⟨clean, same⟩ := clean_of_check h
  have follows : Follows (· = q.restored) (q.mapM Decl.check) (q.omitted.mapM Decl.check)
    fun _ => q.omitted := .mapM Decl.check_omits q
  obtain ⟨-, clean', same'⟩ :=
    follows.follows .start .start (.refl _) clean (same.symm.trans redundant)
  have given : ((q.omitted.mapM Decl.check).run .start).1 = q.omitted := same'
  refine ⟨((q.omitted.mapM Decl.check).run .start).2.warnings.toList, ?_⟩
  rw [check_of_clean clean', given]

end Program

end Brace
