import Brace.Proofs.Reports.Expr

/-!
# Reports — statements with one mistake

Statements are set against those with a mistake in one place, as expressions are: the parts that have
no mistake are set against themselves, and the one that has it adds its report. Two things have to be
the same in both runs besides: which names are bound, so none of them may be `x`, and whether a
statement always returns.

* `Stmt.Replaces.swaps`: a mistake in a statement adds one report.
-/

namespace Brace

open Check

variable {x : String} {rs : List Error}

/-! ### Lists with one mistake -/

section Lists

variable {α : Type} {parts : α → List Part} {S : α → List Error → α → Prop} {as bs : List α}

/-- What has not the name among its parts has it not in any of them. -/
theorem spared_of_flatMap (hx : .name x ∉ as.flatMap parts) : ∀ a ∈ as, .name x ∉ parts a :=
  fun a ha h => hx (List.mem_flatMap.mpr ⟨a, ha, h⟩)

/-- A list without the name is set against itself. -/
theorem Each.spared (hx : .name x ∉ as.flatMap parts) (refl : ∀ a, .name x ∉ parts a → S a [] a) :
    Each S as [] as := .refl fun a ha => refl a (spared_of_flatMap hx a ha)

/-- What is reported of the changed member is reported of the list. -/
theorem OneOf.each {R : α → α → Prop} {spared : α → Prop} (h : OneOf R as bs)
    (hs : ∀ a ∈ as, spared a) (refl : ∀ a, spared a → S a [] a)
    (one : ∀ a b, R a b → spared a → S a rs b) : Each S as rs bs := by
  cases h with
  | @mk a b as bs h =>
      have others (c : α) (hc : c ∈ as ++ bs) : c ∈ as ++ a :: bs := by
        rw [List.mem_append] at hc ⊢
        exact hc.imp id (List.mem_cons_of_mem a)
      exact .one (one a b h (hs a (List.mem_append_right as List.mem_cons_self)))
        fun c hc => refl c (hs c (others c hc))

end Lists

/-! ### Variables and the parts of a loop -/

/-- A condition with a mistake adds what its expression adds. -/
theorem Expr.Swaps.condition {e e' : Expr} (h : e.Swaps x rs e') :
    Adds x False e.checkCondition e'.checkCondition rs fun _ _ => True := by
  rw [checkCondition, checkCondition]
  exact .andThen h.check.moving .refl fun r r' hr => .after (expectTy_fades .bool hr _ _)
    fun _ => .pure trivial

namespace VarDecl

/-- Checking the second declaration reports `rs` more. -/
def Swaps (x : String) (v : VarDecl) (rs : List Error) (v' : VarDecl) : Prop :=
  Adds x False v.check v'.check rs fun _ _ => True

variable {v v' : VarDecl}

/-- A variable without the name among its parts has another name. -/
theorem name_ne (v : VarDecl) (h : .name x ∉ v.parts) : v.name ≠ x := by
  rintro rfl
  exact h (List.mem_cons_self)

/-- Declarations of the same variable, with first values that are set against each other. -/
theorem swaps_init (hv : v.name ≠ x) {init : Option Expr}
    (h : Each (Expr.Swaps x) v.init.toList rs init.toList) : v.Swaps x rs { v with init } := by
  have settle (declared : Bool) (w w' : VarDecl) : Adds x False (do
      if declared then
        let _ ← define v.name (.var v.ty) v.pos
      pure w) (do
      if declared then
        let _ ← define v.name (.var v.ty) v.pos
      pure w') [] fun _ _ => True := by
    cases declared with
    | true => exact .after (define_agrees hv ..) fun _ => .pure trivial
    | false => exact .pure trivial
  rw [Swaps, VarDecl.check, VarDecl.check]
  refine .reportIf id _ _ _ _ <| .after (resolveTy_agrees ..) fun _ =>
    .after (declare_agrees hv ..) fun declared => ?_
  obtain ⟨p, t, y, init₀⟩ := v
  cases init₀ with
  | none =>
      cases init with
      | none =>
          cases h
          exact settle declared _ _
      | some e => cases h
  | some e =>
      cases init with
      | none => cases h
      | some e' =>
          cases h with
          | cons h hs =>
              cases hs
              exact .bind h.check.moving .refl fun r r' hr =>
                .after (expectAccepted_fades t hr _ _) fun _ => settle declared _ _

theorem swaps_refl (v : VarDecl) (hv : .name x ∉ v.parts) : v.Swaps x [] v :=
  swaps_init (v.name_ne hv) (.refl fun e _ => .refl e)

theorem Replaces.swaps {n : Note} (h : VarDecl.Replaces (.name n x) v v') (hv : .name x ∉ v.parts) :
    v.Swaps x [⟨.undefinedSymbol x, n.pos⟩] v' := by
  cases h with
  | init h he =>
      refine swaps_init (v.name_ne hv) ?_
      rw [h]
      exact .single he.swaps

end VarDecl

/-- Other operands leave an assignment an assignment. -/
theorem Expr.isAssignment_withOperands (e : Expr) (es : List Expr) :
    (e.withOperands es).isAssignment = e.isAssignment := by
  unfold withOperands
  split <;> rfl

/-- Other operands leave a step a step. -/
theorem Expr.isStep_withOperands (e : Expr) (es : List Expr) :
    (e.withOperands es).isStep = e.isStep := by
  unfold withOperands
  split <;> first
    | rfl
    | (rename_i op _ _ _; cases op <;> rfl)

namespace ForInit

/-- Checking the second start of a loop reports `rs` more. -/
def Swaps (x : String) (i : ForInit) (rs : List Error) (i' : ForInit) : Prop :=
  Adds x False i.check i'.check rs fun _ _ => True

variable {i i' : ForInit}

theorem swaps_decl {v v' : VarDecl} (h : v.Swaps x rs v') :
    (decl v).Swaps x rs (decl v') :=
  .andThen h (fun _ => trivial) fun _ _ _ => .pure trivial

theorem swaps_expr {e e' : Expr} (h : e.Swaps x rs e') (form : e'.isAssignment = e.isAssignment) :
    (expr e).Swaps x rs (expr e') := by
  rw [Swaps, ForInit.check, ForInit.check, form]
  exact .reportIf id _ _ _ _ <| .andThen h.check.moving .refl fun _ _ _ => .pure trivial

theorem swaps_refl (hi : .name x ∉ i.parts) : i.Swaps x [] i := by
  cases i with
  | decl v => exact swaps_decl (v.swaps_refl hi)
  | expr e => exact swaps_expr (.refl e) rfl

/-- A mistake in the start of a loop adds one report. -/
theorem Replaces.swaps {n : Note} (h : ForInit.Replaces (.name n x) i i') (hi : .name x ∉ i.parts) :
    i.Swaps x [⟨.undefinedSymbol x, n.pos⟩] i' := by
  cases h with
  | decl h => exact swaps_decl (h.swaps hi)
  | expr h =>
      cases h with
      | mk h ha =>
          exact swaps_expr (Expr.Replaces.inside h ha).swaps (Expr.isAssignment_withOperands ..)

end ForInit

/-- Changing the number of a loop in another way, but of the same form. -/
theorem update_adds {e e' : Expr} (h : e.Swaps x rs e') (form : e'.isStep = e.isStep) :
    Adds x False (update e) (update e') rs fun _ _ => True := by
  rw [update, update, form]
  exact .reportIf id _ _ _ _ <| .andThen h.check.moving .refl fun _ _ _ => .pure trivial

/-! ### Statements -/

namespace Stmt

/-- Checking the second statement reports `rs` more. It always returns where the first does. -/
def Swaps (x : String) (s : Stmt) (rs : List Error) (s' : Stmt) : Prop :=
  Adds x False s.check s'.check rs fun t t' => t'.alwaysReturns = t.alwaysReturns

/-- Statements with a mistake add its report, and return as before. -/
theorem checkAll_adds {ss ss' : List Stmt} {rs : List Error} (h : Each (Swaps x) ss rs ss') :
    Adds x False (checkAll ss) (checkAll ss') rs fun ts ts' => anyReturns ts' = anyReturns ts := by
  induction h with
  | nil =>
      rw [checkAll]
      exact .pure rfl
  | cons h _ ih =>
      rw [checkAll, checkAll]
      refine .bind h (fun _ => rfl) fun t t' ht => .andThen ih (fun _ => rfl)
        fun ts ts' hts => .pure ?_
      rw [anyReturns, anyReturns, ht, hts]

namespace Swaps

theorem reporting {rs' : List Error} {s s' : Stmt} (h : s.Swaps x rs s') (e : rs = rs') :
    s.Swaps x rs' s' := e ▸ h

variable {p : Position} {cond cond' : Expr} {t t' e e' body body' : Stmt} {rs₁ rs₂ rs₃ : List Error}

theorem block {vs vs' : List VarDecl} {ss ss' : List Stmt} (hvs : Each (VarDecl.Swaps x) vs rs₁ vs')
    (hss : Each (Swaps x) ss rs₂ ss') :
    (Stmt.block p vs ss).Swaps x (rs₁ ++ rs₂) (.block p vs' ss') := by
  rw [Swaps, check, check]
  refine inFrame_adds p <| .bind (.mapM (fun _ _ _ h => h) hvs) (fun _ => trivial) fun _ _ _ =>
    .andThen (checkAll_adds hss) (fun _ => rfl) fun ts ts' hts => .pure ?_
  rw [alwaysReturns, alwaysReturns, hts]

theorem ifElse (hcond : cond.Swaps x rs₁ cond') (ht : t.Swaps x rs₂ t') (he : e.Swaps x rs₃ e') :
    (Stmt.ifElse p cond t e).Swaps x (rs₁ ++ (rs₂ ++ rs₃)) (.ifElse p cond' t' e') := by
  rw [Swaps, check, check]
  refine .bind hcond.condition (fun _ => trivial) fun _ _ _ => .bind ht (fun _ => rfl)
    fun a a' ha => .andThen he (fun _ => rfl) fun b b' hb => .pure ?_
  rw [alwaysReturns, alwaysReturns, ha, hb]

/-- A mistake in the condition or in the body of a loop is reported. -/
theorem whileLoop (hcond : cond.Swaps x rs₁ cond') (hbody : body.Swaps x rs₂ body') :
    (Stmt.whileLoop p cond body).Swaps x (rs₁ ++ rs₂) (.whileLoop p cond' body') := by
  rw [Swaps, check, check]
  refine .bind hcond.condition (fun _ => trivial) fun _ _ _ =>
    .andThen (withLoop_adds true hbody) (fun _ => rfl) fun _ _ _ => .pure ?_
  rw [alwaysReturns, alwaysReturns] <;> nofun

/-- A mistake in any of the four parts of a loop is reported. -/
theorem forLoop {init init' : ForInit} {update update' : Expr} {rs₄ : List Error}
    (hinit : init.Swaps x rs₁ init') (hcond : cond.Swaps x rs₂ cond')
    (hupdate : update.Swaps x rs₃ update') (form : update'.isStep = update.isStep)
    (hbody : body.Swaps x rs₄ body') :
    (Stmt.forLoop p init cond update body).Swaps x (rs₁ ++ (rs₂ ++ (rs₃ ++ rs₄)))
      (.forLoop p init' cond' update' body') := by
  rw [Swaps, check, check]
  refine inFrame_adds p <| .bind hinit (fun _ => trivial) fun _ _ _ =>
    .bind hcond.condition (fun _ => trivial) fun _ _ _ =>
      .bind (update_adds hupdate form) (fun _ => trivial) fun _ _ _ =>
        .andThen (withLoop_adds true hbody) (fun _ => rfl) fun _ _ _ => .pure ?_
  rw [alwaysReturns, alwaysReturns] <;> nofun

theorem ret {v v' : Expr} (h : v.Swaps x rs v') :
    (Stmt.ret p (some v)).Swaps x rs (.ret p (some v')) := by
  rw [Swaps, check, check]
  refine .andThen h.check.moving .refl fun r r' hr =>
    .after (expectReturn_fades (.some hr) p) fun _ => .pure ?_
  rw [alwaysReturns, alwaysReturns]

theorem expr {v v' : Expr} (h : v.Swaps x rs v') : (Stmt.expr p v).Swaps x rs (.expr p v') := by
  rw [Swaps, check, check]
  refine .andThen h.check.moving .refl fun _ _ _ => .pure ?_
  rw [alwaysReturns, alwaysReturns] <;> nofun

end Swaps

/-! ### Statements with a mistake -/

theorem partsOf_eq_flatMap (ss : List Stmt) : partsOf ss = ss.flatMap parts := by
  induction ss with
  | nil => rw [partsOf, List.flatMap_nil]
  | cons s ss ih => rw [partsOf, List.flatMap_cons, ih]

mutual

/-- A statement without the name is set against itself. -/
theorem swaps_refl : ∀ s : Stmt, .name x ∉ s.parts → s.Swaps x [] s
  | .block p vs ss, hs => by
      simp only [parts, List.mem_append, not_or] at hs
      exact .block (.spared hs.1 VarDecl.swaps_refl) (swapsAll_refl ss hs.2)
  | .ifElse p cond t e, hs => by
      simp only [parts, List.mem_append, not_or] at hs
      exact .ifElse (.refl cond) (swaps_refl t hs.2.1) (swaps_refl e hs.2.2)
  | .whileLoop p cond body, hs => by
      simp only [parts, List.mem_append, not_or] at hs
      exact .whileLoop (.refl cond) (swaps_refl body hs.2)
  | .forLoop p init cond update body, hs => by
      simp only [parts, List.mem_append, not_or] at hs
      exact .forLoop (init.swaps_refl hs.1) (.refl cond) (.refl update) rfl
        (swaps_refl body hs.2.2.2)
  | .ret p (some e), _ => .ret (.refl e)
  | .ret p none, _ => by
      rw [Swaps, check]
      exact .after (expectReturn_fades .none p) fun _ => .pure rfl
  | .breakLoop p, _ => by
      rw [Swaps, check]
      exact .after (loopSignal_agrees ..) fun _ => .pure rfl
  | .continueLoop p, _ => by
      rw [Swaps, check]
      exact .after (loopSignal_agrees ..) fun _ => .pure rfl
  | .expr p e, _ => .expr (.refl e)
  | .empty p, _ => by
      rw [Swaps, check]
      exact .pure rfl

theorem swapsAll_refl : ∀ ss : List Stmt, .name x ∉ partsOf ss → Each (Swaps x) ss [] ss
  | [], _ => .nil
  | s :: ss, hs => by
      rw [partsOf, List.mem_append, not_or] at hs
      exact .cons (swaps_refl s hs.1) (swapsAll_refl ss hs.2)

end

/-- A mistake in a statement adds one report. -/
theorem Replaces.swaps {n : Note} {s s' : Stmt} (h : Stmt.Replaces (.name n x) s s') :
    .name x ∉ s.parts → s.Swaps x [⟨.undefinedSymbol x, n.pos⟩] s' := by
  induction h with
  | «local» h =>
      intro hs
      simp only [parts, List.mem_append, not_or] at hs
      have locals := h.each (spared_of_flatMap hs.1) VarDecl.swaps_refl fun _ _ h => h.swaps
      exact .reporting (.block locals (swapsAll_refl _ hs.2)) (List.append_nil _)
  | @member p vs s s' ss ss' _ ih =>
      intro hs
      simp only [parts, List.mem_append, not_or, partsOf_eq_flatMap] at hs
      have changed : OneOf (fun s s' => .name x ∉ s.parts →
        s.Swaps x [⟨.undefinedSymbol x, n.pos⟩] s') (ss ++ s :: ss') (ss ++ s' :: ss') :=
          .mk ss ss' ih
      have body := changed.each (spared_of_flatMap hs.2) swaps_refl fun _ _ h => h
      exact .block (.spared hs.1 VarDecl.swaps_refl) body
  | ifCond h =>
      intro hs
      simp only [parts, List.mem_append, not_or] at hs
      exact .reporting (.ifElse h.swaps (swaps_refl _ hs.2.1) (swaps_refl _ hs.2.2))
        (List.append_nil _)
  | ifThen h ih =>
      intro hs
      simp only [parts, List.mem_append, not_or] at hs
      exact .reporting (.ifElse (.refl _) (ih hs.2.1) (swaps_refl _ hs.2.2)) (List.append_nil _)
  | ifElse h ih =>
      intro hs
      simp only [parts, List.mem_append, not_or] at hs
      exact .ifElse (.refl _) (swaps_refl _ hs.2.1) (ih hs.2.2)
  | whileCond h =>
      intro hs
      simp only [parts, List.mem_append, not_or] at hs
      exact .reporting (.whileLoop h.swaps (swaps_refl _ hs.2)) (List.append_nil _)
  | whileBody h ih =>
      intro hs
      simp only [parts, List.mem_append, not_or] at hs
      exact .whileLoop (.refl _) (ih hs.2)
  | forInit h =>
      intro hs
      simp only [parts, List.mem_append, not_or] at hs
      exact .reporting (.forLoop (h.swaps hs.1) (.refl _) (.refl _) rfl (swaps_refl _ hs.2.2.2))
        (List.append_nil _)
  | forCond h =>
      intro hs
      simp only [parts, List.mem_append, not_or] at hs
      exact .reporting (.forLoop (ForInit.swaps_refl hs.1) h.swaps (.refl _) rfl
        (swaps_refl _ hs.2.2.2)) (List.append_nil _)
  | forUpdate h =>
      intro hs
      simp only [parts, List.mem_append, not_or] at hs
      cases h with
      | mk h ha =>
          exact .reporting (.forLoop (ForInit.swaps_refl hs.1) (.refl _)
            (Expr.Replaces.inside h ha).swaps (Expr.isStep_withOperands ..)
            (swaps_refl _ hs.2.2.2)) (List.append_nil _)
  | forBody h ih =>
      intro hs
      simp only [parts, List.mem_append, not_or] at hs
      exact .forLoop (ForInit.swaps_refl hs.1) (.refl _) (.refl _) rfl (ih hs.2.2.2)
  | ret h => exact fun _ => .ret h.swaps
  | expr h => exact fun _ => .expr h.swaps

end Stmt

end Brace
