import Brace.Proofs.Safety.Parts
import Brace.Typing.Program

/-!
# Typing — what all checking of expressions has in common

An expression is checked by looks at the checker and by reports, one after another, and by nothing
else. So a property that reports have, and that passes from pieces of checking to what is made of
them (`Check.Closed`), holds of every expression, whatever it violates.

The property may be one of what is reported. Nearly all rules find violations of the phase `check`,
none of them a loop signal (`Check.Violations`); one finds that a superclass lacks a method
(`Part.Supers`).

* `Check.Closed.lookup` and its like: the pieces of checking that only look and report.
* `Expr.check_closed`, `Expr.checkCondition_closed`: all expressions.
-/

namespace Brace

def Cause.isLoopSignal : Cause → Bool
  | .illegalBreakOrContinue _ => true
  | _                         => false

variable {α β γ : Type} {R : Error → Prop}

/-! ### Reports -/

/-- The violations that the rules can find, loose loop signals and what superclasses lack apart. -/
def Check.Violations (R : Error → Prop) : Prop :=
  ∀ e : Error, e.phase = .check → e.cause.isLoopSignal = false → R e

/-- `R` holds of whatever has the phase `check`. -/
def Check.Admits (R : Error → Prop) : Prop := ∀ e : Error, e.phase = .check → R e

/-- What holds of all that has the phase `check` holds of violations. -/
theorem Check.Admits.violations (hR : Admits R) : Violations R := fun e phase _ => hR e phase

/-- `R` holds of what may be reported of the superclass methods used here. -/
def Part.Supers (R : Error → Prop) (ps : List Part) : Prop :=
  ∀ n x, .expr (.superMethod n x) ∈ ps → R ⟨.undefinedProperty x, n.pos⟩

namespace Part.Supers

variable {ps qs : List Part}

theorem of_sub (h : Supers R ps) (le : ∀ a ∈ qs, a ∈ ps) : Supers R qs :=
  fun n x hx => h n x (le _ hx)

theorem left (h : Supers R (ps ++ qs)) : Supers R ps := h.of_sub fun _ => List.mem_append_left qs

theorem right (h : Supers R (ps ++ qs)) : Supers R qs := h.of_sub fun _ => List.mem_append_right ps

theorem tail {a : Part} (h : Supers R (a :: ps)) : Supers R ps :=
  h.of_sub fun _ => List.mem_cons_of_mem a

/-- What is so for several parts is so for each. -/
theorem mem {f : α → List Part} {as : List α} (h : Supers R (as.flatMap f)) {a : α} (ha : a ∈ as) :
    Supers R (f a) := h.of_sub fun _ hp => List.mem_flatMap.mpr ⟨a, ha, hp⟩

/-- What is so for the parts of an expression is so for those of a child. -/
theorem child {e e' : Expr} (h : Supers R e.parts) (he : e' ∈ e.children) : Supers R e'.parts :=
  h.of_sub fun _ => Expr.parts_child he

/-- Nothing is asked of reports. -/
theorem any (ps : List Part) : Supers (fun _ => True) ps := fun _ _ _ => trivial

end Part.Supers

open Brace.Part (Supers)

/-- The property passes from pieces of checking to what is made of them. Warnings have it, and the
reports of which `R` holds. -/
structure Check.Passed (R : Error → Prop) (P : {α : Type} → Check α → Prop) : Prop where
  pure   : ∀ {α : Type} (a : α), P (Pure.pure a)
  bind   : ∀ {α β : Type} {x : Check α} {f : α → Check β}, P x → (∀ a, P (f a)) → P (x >>= f)
  see    : ∀ {α : Type} {f : Checker → Check α}, (∀ c, P (f c)) → P (MonadState.get >>= f)
  report : ∀ {cause : Cause} {p : Position}, R ⟨cause, p⟩ → P (Check.report cause p)
  warn   : ∀ {cause : Cause} (p : Position), cause.phase = .warning → P (Check.warn cause p)

/-- So it is for all that the rules can find. -/
structure Check.Closed (R : Error → Prop) (P : {α : Type} → Check α → Prop) : Prop
    extends Check.Passed R P where
  violations : Violations R

namespace Check.Passed

variable {P : {α : Type} → Check α → Prop} (hP : Passed R P)

include hP

/-- A report, and something given. -/
theorem reporting {cause : Cause} {p : Position} (h : R ⟨cause, p⟩) (a : α) :
    P (Check.report cause p >>= fun _ => Pure.pure a) :=
  hP.bind (hP.report h) fun _ => hP.pure a

/-- A report that a test may call for. -/
theorem reportIf {b : Prop} [Decidable b] {cause : Cause} {p : Position} {k : Unit → Check α}
    (h : R ⟨cause, p⟩) (hk : P (k ())) : P (if b then Check.report cause p >>= k else k ()) := by
  split
  · exact hP.bind (hP.report h) fun _ => hk
  · exact hk

/-- The same with nothing left to do. -/
theorem test {b : Prop} [Decidable b] {cause : Cause} {p : Position} (h : R ⟨cause, p⟩) :
    P (if b then Check.report cause p else Pure.pure ()) := by
  split
  · exact hP.report h
  · exact hP.pure ()

/-- What is checked for one after another has the property if each of the steps has. -/
theorem forM {f : γ → Check Unit} (hf : ∀ a, P (f a)) : ∀ as : List γ, P (as.forM f)
  | []      => hP.pure ()
  | a :: as => hP.bind (hf a) fun _ => forM hf as

theorem foldlM {f : β → γ → Check β} (hf : ∀ b a, P (f b a)) :
    ∀ (as : List γ) (b : β), P (as.foldlM f b)
  | [], b      => hP.pure b
  | a :: as, b => hP.bind (hf b a) fun b => foldlM hf as b

theorem mapM {f : γ → Check β} : ∀ {as : List γ}, (∀ a ∈ as, P (f a)) → P (as.mapM f)
  | [], _       => by
      rw [List.mapM_nil]
      exact hP.pure []
  | a :: as, hf => by
      rw [List.mapM_cons]
      exact hP.bind (hf a (.head _)) fun b =>
        hP.bind (mapM fun a ha => hf a (.tail _ ha)) fun bs => hP.pure (b :: bs)

end Check.Passed

namespace Check.Closed

variable {P : {α : Type} → Check α → Prop} (hP : Closed R P)

include hP

/-! ### Names and types -/

/-- To look a name up may report that it is not there. -/
theorem lookup (x : String) (p : Position) : P (lookup x p) := by
  refine hP.see fun c => ?_
  cases h : c.scopes.lookup c.here x with
  | ok s => exact hP.pure (some s)
  | error e =>
      refine hP.reporting (hP.violations _ ?_ ?_) none
      all_goals
        simp only [Forest.lookup] at h
        split at h <;> cases h <;> rfl

/-- To resolve a type may report that there is no such class. -/
theorem resolveTy (p : Position) : ∀ t : Ty, P (resolveTy p t)
  | .object x => by
      refine hP.see fun c => ?_
      split
      · exact hP.pure true
      · exact hP.reporting (hP.violations _ rfl rfl) false
  | .array t => resolveTy p t
  | .void | .bool | .int | .float | .str | .nil | .function | .any => hP.pure true

/-- A value of another type than is accepted may be reported. -/
theorem expectAccepted (expected received : Ty) (p : Position) :
    P (expectAccepted expected received p) := hP.see fun _ => hP.test (hP.violations _ rfl rfl)

theorem expectTy (expected received : Ty) (p : Position) : P (expectTy expected received p) :=
  hP.test (hP.violations _ rfl rfl)

theorem expectIndex (t : Ty) (p : Position) : P (expectIndex t p) :=
  hP.test (hP.violations _ rfl rfl)

/-- The type of a name is that of what it is found to mean. -/
theorem tyOfName (x : String) (p : Position) : P (tyOfName x p) := by
  refine hP.bind (hP.lookup x p) fun s => ?_
  cases s with
  | some s => exact hP.pure s.ty
  | none => exact hP.pure Ty.any

/-- What is no array may be reported. -/
theorem elementTy (x : String) (p : Position) : P (elementTy x p) := by
  refine hP.bind (hP.lookup x p) fun s => ?_
  split
  · exact hP.pure _
  · split
    · exact hP.pure _
    · exact hP.pure _
    · exact hP.reporting (hP.violations _ rfl rfl) _

/-- What is no variable may be reported. -/
theorem assignable (x : String) (p : Position) : P (assignable x p) := by
  refine hP.bind (hP.lookup x p) fun s => ?_
  split
  · exact hP.pure _
  · exact hP.pure _
  · exact hP.reporting (hP.violations _ rfl rfl) _
  · exact hP.reporting (hP.violations _ rfl rfl) _

/-- What is no object may be reported. -/
theorem classOf (t : Ty) (p : Position) : P (classOf t p) := by
  simp only [Check.classOf]
  split
  · exact hP.see fun _ => hP.pure _
  · exact hP.pure _
  · exact hP.reporting (hP.violations _ rfl rfl) _

/-- Only of a method that the superclass lacks something else is reported. -/
theorem superMethod {x : String} {p : Position} (h : R ⟨.undefinedProperty x, p⟩) :
    P (superMethod x p) := by
  refine hP.bind (hP.lookup "super" p) fun s => ?_
  split
  · split
    · exact hP.pure _
    · exact hP.reporting h _
  · exact hP.pure _

/-! ### What operators, casts and calls give -/

/-- Operands that an operator does not take may be reported. -/
theorem binaryTy (op : BinaryOp) (a b : Ty) (p : Position) : P (binaryTy op a b p) := by
  rw [Check.binaryTy]
  repeat' split
  all_goals first
    | exact hP.pure _
    | exact hP.reporting (hP.violations _ rfl rfl) _

theorem expectBools (op : LogicalOp) (a b : Ty) (p : Position) : P (expectBools op a b p) :=
  hP.test (hP.violations _ rfl rfl)

theorem unaryTy (op : UnaryOp) (t : Ty) (p : Position) : P (unaryTy op t p) := by
  rw [Check.unaryTy]
  split
  · exact hP.pure _
  · split
    · exact hP.pure _
    · exact hP.reporting (hP.violations _ rfl rfl) _

theorem stepTy (form : StepForm) (t : Ty) (p : Position) : P (stepTy form t p) := by
  rw [Check.stepTy]
  split
  · exact hP.pure _
  · exact hP.reporting (hP.violations _ rfl rfl) _

/-- A cast between types that cannot be cast may be reported. -/
theorem castTy (target : String) (source : Ty) (p : Position) : P (castTy target source p) := by
  rw [Check.castTy]
  split
  · exact hP.reporting (hP.violations _ rfl rfl) _
  · split
    · exact hP.reporting (hP.violations _ rfl rfl) _
    · split
      · exact hP.bind (hP.warn p rfl) fun _ => hP.pure _
      · exact hP.pure _

/-- Arguments that do not go with the parameters may be reported. -/
theorem expectArgs (callee : String) (params : List Ty) (args : List (Ty × Expr)) (p : Position) :
    P (expectArgs callee params args p) := by
  rw [Check.expectArgs]
  split
  · exact hP.forM (fun x : Ty × Ty × Expr => hP.expectAccepted x.1 x.2.1 x.2.2.pos) _
  · exact hP.report (hP.violations _ rfl rfl)

/-- What cannot be called may be reported. -/
theorem callTy (s : Symbol) (args : List (Ty × Expr)) (p : Position) : P (callTy s args p) := by
  unfold Check.callTy
  split
  · exact hP.bind (hP.expectArgs ..) fun _ => hP.pure _
  · exact hP.bind (hP.expectArgs ..) fun _ => hP.pure _
  · exact hP.bind (hP.expectArgs ..) fun _ => hP.pure _
  · exact hP.pure _
  · exact hP.pure _
  · exact hP.reporting (hP.violations _ rfl rfl) _

theorem methodCallTy (x : String) (args : List (Ty × Expr)) (p : Position) :
    ∀ sig : Option Signature, P (methodCallTy x args p sig)
  | some sig => hP.bind (hP.expectArgs ..) fun _ => hP.pure sig.returns
  | none     => hP.pure Ty.any

/-- Arguments that do not go with a format may be reported. -/
theorem expectFormat (format : Expr) (args : List (Ty × Expr)) : P (expectFormat format args) := by
  unfold Check.expectFormat
  split
  · dsimp only
    split
    · refine hP.forM (fun x : Specifier × Ty × Expr => ?_) _
      exact hP.test (hP.violations _ rfl rfl)
    · exact hP.report (hP.violations _ rfl rfl)
  · exact hP.report (hP.violations _ rfl rfl)

theorem expectTarget (e : Expr) : P (expectTarget e) := by
  unfold Check.expectTarget
  split
  · exact hP.pure ()
  · exact hP.pure ()
  · exact hP.report (hP.violations _ rfl rfl)

/-! ### Statements and classes -/

/-- A `return` that does not go with the function may be reported. -/
theorem expectReturn (received : Option Ty) (p : Position) : P (expectReturn received p) := by
  refine hP.see fun c => ?_
  split
  · exact hP.report (hP.violations _ rfl rfl)
  · split
    · exact hP.report (hP.violations _ rfl rfl)
    · exact hP.pure ()
    · exact hP.report (hP.violations _ rfl rfl)
    · exact hP.expectAccepted _ _ p

/-- A loop signal outside of loops may be reported. -/
theorem loopSignal (hR : Admits R) (statement : String) (p : Position) :
    P (loopSignal statement p) := hP.see fun _ => hP.test (hR _ rfl)

/-- A superclass that is none may be reported. -/
theorem superInfo (d : ClassDecl) : P d.superInfo := by
  unfold ClassDecl.superInfo
  split
  · exact hP.pure none
  · refine hP.bind (hP.lookup _ d.pos) fun s => ?_
    split
    · exact hP.pure _
    · exact hP.pure _
    · exact hP.reporting (hP.violations _ rfl rfl) _

/-- The types of fields are resolved. -/
theorem fieldTable (d : ClassDecl) : P d.fieldTable := by
  refine hP.foldlM (fun t x => ?_) d.fields _
  exact hP.reportIf (hP.violations _ rfl rfl) (hP.pure (t.put x.name x.ty))

/-- Methods that do not go with those above may be reported. -/
theorem methodTable (d : ClassDecl) (fields : Table Ty) : P (d.methodTable fields) := by
  refine hP.foldlM (fun t f => ?_) d.methods _
  dsimp only
  split
  · exact hP.reporting (hP.violations _ rfl rfl) t
  · exact hP.reportIf (hP.violations _ rfl rfl) (hP.pure (t.put f.name f.signature))

/-- The types of the fields name only classes that exist. -/
theorem fieldTypes (d : ClassDecl) : P (d.fields.forM fun x => do
    let _ ← Check.resolveTy d.pos x.ty) :=
  hP.forM (fun x => hP.bind (hP.resolveTy d.pos x.ty) fun _ => hP.pure ()) d.fields

end Check.Closed

open Check

/-! ### Expressions -/

namespace Expr

variable {P : {α : Type} → Check α → Prop} (hP : Closed R P)

include hP

/-- The target of a step is checked as an expression is, or as a name. -/
theorem stepTarget_closed (form : StepForm) (target : Expr) {general : Check (Ty × Expr)}
    (h : P general) : P (stepTarget form target general) := by
  unfold stepTarget
  split
  · exact hP.bind (hP.assignable ..) fun _ => hP.bind (hP.stepTy ..) fun _ => hP.pure _
  · refine hP.bind h fun r => ?_
    dsimp only
    split
    · exact hP.bind (hP.stepTy ..) fun _ => hP.pure _
    · exact hP.reporting (hP.violations _ rfl rfl) _

mutual

/-- A closed property holds of the checking of every expression. -/
theorem check_closed : ∀ e : Expr, Supers R e.parts → P e.check
  | .literal n l, _ => by
      rw [check]
      exact hP.pure _
  | .name n x, _ => by
      rw [check]
      exact hP.bind (hP.tyOfName x n.pos) fun _ => hP.pure _
  | .group n e, h => by
      rw [check]
      exact hP.bind (check_closed e (h.child (.head _))) fun _ => hP.pure _
  | .arrayNew n t size, h => by
      rw [check]
      refine hP.reportIf (hP.violations _ rfl rfl) (hP.bind (hP.resolveTy n.pos t) fun _ => ?_)
      refine hP.bind (check_closed size (h.child (.head _))) fun _ => ?_
      exact hP.bind (hP.expectIndex ..) fun _ => hP.pure _
  | .index n x i, h => by
      rw [check]
      refine hP.bind (hP.elementTy x n.pos) fun _ => ?_
      refine hP.bind (check_closed i (h.child (.head _))) fun _ => ?_
      exact hP.bind (hP.expectIndex ..) fun _ => hP.pure _
  | .indexAssign n x i e, h => by
      rw [check]
      refine hP.bind (hP.elementTy x n.pos) fun _ => ?_
      refine hP.bind (check_closed i (h.child (.head _))) fun _ => ?_
      refine hP.bind (hP.expectIndex ..) fun _ => ?_
      refine hP.bind (check_closed e (h.child (.tail _ (.head _)))) fun _ => ?_
      exact hP.bind (hP.expectAccepted ..) fun _ => hP.pure _
  | .assign n x e, h => by
      rw [check]
      refine hP.bind (hP.assignable x n.pos) fun target => ?_
      refine hP.bind (check_closed e (h.child (.head _))) fun _ => ?_
      cases target with
      | some t => exact hP.bind (hP.expectAccepted ..) fun _ => hP.pure _
      | none => exact hP.pure _
  | .compound n op x e, h => by
      rw [check]
      refine hP.bind (hP.assignable x n.pos) fun target => ?_
      refine hP.bind (check_closed e (h.child (.head _))) fun _ => ?_
      cases target with
      | some t =>
          refine hP.bind (hP.binaryTy ..) fun r => ?_
          cases r with
          | some r => exact hP.bind (hP.expectAccepted ..) fun _ => hP.pure _
          | none => exact hP.pure _
      | none => exact hP.pure _
  | .binary n op l r, h => by
      rw [check]
      refine hP.bind (check_closed l (h.child (.head _))) fun _ => ?_
      refine hP.bind (check_closed r (h.child (.tail _ (.head _)))) fun _ => ?_
      exact hP.bind (hP.binaryTy ..) fun _ => hP.pure _
  | .logical n op l r, h => by
      rw [check]
      refine hP.bind (check_closed l (h.child (.head _))) fun _ => ?_
      refine hP.bind (check_closed r (h.child (.tail _ (.head _)))) fun _ => ?_
      exact hP.bind (hP.expectBools ..) fun _ => hP.pure _
  | .unary n op e, h => by
      rw [check]
      refine hP.bind (check_closed e (h.child (.head _))) fun _ => ?_
      exact hP.bind (hP.unaryTy ..) fun _ => hP.pure _
  | .step n form target, h => by
      rw [check]
      have general := check_closed target (h.child (.head _))
      exact hP.bind (stepTarget_closed hP form target general) fun _ => hP.pure _
  | .cast n target e, h => by
      rw [check]
      refine hP.bind (check_closed e (h.child (.head _))) fun _ => ?_
      exact hP.bind (hP.castTy ..) fun _ => hP.pure _
  | .intToFloat n e, h => by
      rw [check]
      refine hP.bind (check_closed e (h.child (.head _))) fun _ => ?_
      exact hP.bind (hP.expectTy ..) fun _ => hP.pure _
  | .get n o x, h => by
      rw [check]
      refine hP.bind (check_closed o (h.child (.head _))) fun _ => ?_
      exact hP.bind (hP.classOf ..) fun _ => hP.pure _
  | .set n o x e, h => by
      rw [check]
      refine hP.bind (check_closed o (h.child (.head _))) fun _ => ?_
      refine hP.bind (hP.classOf ..) fun c => ?_
      refine hP.bind (check_closed e (h.child (.tail _ (.head _)))) fun _ => ?_
      cases c.bind (·.field? x) with
      | some t => exact hP.bind (hP.expectAccepted ..) fun _ => hP.pure _
      | none => exact hP.pure _
  | .receiver n, _ => by
      rw [check]
      exact hP.bind (hP.tyOfName "this" n.pos) fun _ => hP.pure _
  | .superMethod n x, h => by
      rw [check]
      exact hP.bind (hP.superMethod (h n x (self_mem_parts _))) fun _ => hP.pure _
  | .call n callee args, h => by
      rw [check]
      refine hP.bind (checkAll_closed args fun a ha => h.child (.tail _ ha)) fun _ => ?_
      have inside : Supers R callee.parts := h.child (.head _)
      have general := check_closed callee inside
      exact hP.bind (checkCallee_closed callee _ n.pos inside general) fun _ => hP.pure _
  | .printf n format args, h => by
      rw [check]
      refine hP.bind (checkAll_closed args fun a ha => h.child (.tail _ ha)) fun _ => ?_
      exact hP.bind (hP.expectFormat ..) fun _ => hP.pure _
  | .scanf n format targets, h => by
      rw [check]
      refine hP.bind (hP.forM hP.expectTarget targets) fun _ => ?_
      refine hP.bind (checkAll_closed targets fun a ha => h.child (.tail _ ha)) fun _ => ?_
      exact hP.bind (hP.expectFormat ..) fun _ => hP.pure _
  | .sprintf n x format args, h => by
      rw [check]
      refine hP.bind (hP.assignable x n.pos) fun t => ?_
      have rest : P (do
          let args ← checkAll args
          expectFormat format args
          Pure.pure (yield .void (.sprintf n x (format.typed .str) (args.map (·.2))))) := by
        refine hP.bind (checkAll_closed args fun a ha => h.child (.tail _ ha)) fun _ => ?_
        exact hP.bind (hP.expectFormat ..) fun _ => hP.pure _
      cases t with
      | some t => exact hP.bind (hP.expectTy ..) fun _ => rest
      | none => exact rest

/-- What is called is checked as an expression is, or as a name or a property. -/
theorem checkCallee_closed : ∀ (callee : Expr) (args : List (Ty × Expr)) (p : Position)
    {general : Check (Ty × Expr)}, Supers R callee.parts → P general →
      P (checkCallee callee args p general)
  | .name m x, args, p, _, _, _ => by
      rw [checkCallee]
      refine hP.bind (hP.lookup x m.pos) fun s => ?_
      cases s with
      | some s => exact hP.bind (hP.callTy ..) fun _ => hP.pure _
      | none => exact hP.pure _
  | .get m o x, args, p, _, h, _ => by
      rw [checkCallee]
      refine hP.bind (check_closed o (h.child (.head _))) fun _ => ?_
      exact hP.bind (hP.classOf ..) fun _ => hP.bind (hP.methodCallTy ..) fun _ => hP.pure _
  | .superMethod m x, args, p, _, h, _ => by
      rw [checkCallee]
      refine hP.bind (hP.superMethod (h m x (self_mem_parts _))) fun _ => ?_
      exact hP.bind (hP.methodCallTy ..) fun _ => hP.pure _
  | .literal .., _, p, _, _, h | .group .., _, p, _, _, h | .arrayNew .., _, p, _, _, h
  | .index .., _, p, _, _, h | .indexAssign .., _, p, _, _, h | .call .., _, p, _, _, h
  | .assign .., _, p, _, _, h | .compound .., _, p, _, _, h | .binary .., _, p, _, _, h
  | .logical .., _, p, _, _, h | .unary .., _, p, _, _, h | .step .., _, p, _, _, h
  | .cast .., _, p, _, _, h | .intToFloat .., _, p, _, _, h | .set .., _, p, _, _, h
  | .receiver _, _, p, _, _, h | .printf .., _, p, _, _, h | .scanf .., _, p, _, _, h
  | .sprintf .., _, p, _, _, h => by
      exact hP.bind h fun _ => hP.reportIf (hP.violations _ rfl rfl) (hP.pure _)

/-- Expressions are checked one after another. -/
theorem checkAll_closed : ∀ es : List Expr, (∀ e ∈ es, Supers R e.parts) → P (checkAll es)
  | [], _      => by
      rw [checkAll]
      exact hP.pure []
  | e :: es, h => by
      rw [checkAll]
      refine hP.bind (check_closed e (h e (.head _))) fun _ => ?_
      exact hP.bind (checkAll_closed es fun a ha => h a (.tail _ ha)) fun _ => hP.pure _

end

/-- A condition is an expression. -/
theorem checkCondition_closed (e : Expr) (h : Supers R e.parts) : P e.checkCondition :=
  hP.bind (check_closed hP e h) fun _ => hP.bind (hP.expectTy ..) fun _ => hP.pure _

end Expr

end Brace
