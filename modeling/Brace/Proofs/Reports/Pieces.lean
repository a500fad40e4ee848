import Brace.Proofs.Reports.Adds

/-!
# Reports — the pieces of checking

What the steps of checking do in two runs side by side. What looks up names does the same in both.
What consumes a type goes through with `any` in its place, and gives what it gave or `any`.
-/

namespace Brace

variable {α : Type} {x : String} {still : Prop}

/-- The type is the same, or no longer known. -/
def Ty.Fades (t t' : Ty) : Prop := t' = t ∨ t' = .any

namespace Ty.Fades

theorem refl (t : Ty) : t.Fades t := .inl rfl

theorem any (t : Ty) : t.Fades .any := .inr rfl

end Ty.Fades

/-- A value of a type that is not known fits everywhere. -/
theorem Ty.fits_any (t : Ty) : t.fits .any = true := by cases t <;> rfl

/-- A test of a type that holds for `any` holds for what the type fades to. -/
theorem Ty.Fades.holds {t t' : Ty} (h : t.Fades t') {test : Ty → Bool} (any : test .any = true)
    (ht : test t = true) : test t' = true := by
  rcases h with rfl | rfl
  · exact ht
  · exact any

namespace Check

open Checker Adds

/-! ### Names -/

/-- What is done with what is found in the scopes. -/
theorem asks {y : String} {p : Position} {f : Symbol → Check α} {none : Check α}
    (hf : ∀ s, Agrees x still (f s)) (hn : ∀ c : Checker, c.Later (none c).2) :
    Agrees x still (do
      let c ← get
      match c.scopes.lookup c.here y with
      | .ok s    => f s
      | .error e => do
          report e p
          none) := by
  have found : ∀ r : Except Cause Symbol, Agrees x still (match r with
      | .ok s    => f s
      | .error e => do
          report e p
          none) := fun r => by
    cases r with
    | ok s => exact hf s
    | error e => exact .report_bind e p hn
  refine .see ?_
  rintro c _ ⟨_, _, rfl⟩
  exact found (c.scopes.lookup c.here y)

/-- A name is looked up alike in both runs. -/
theorem lookup_agrees (y : String) (p : Position) : Agrees x still (lookup y p) :=
  asks (fun _ => .pure rfl) .refl

theorem tyOfName_agrees (y : String) (p : Position) : Agrees x still (tyOfName y p) :=
  .after (lookup_agrees y p) fun s => by cases s <;> exact .pure rfl

theorem elementTy_agrees (y : String) (p : Position) : Agrees x still (elementTy y p) := by
  refine .after (lookup_agrees y p) fun s => ?_
  split
  · exact .pure rfl
  · split
    · exact .pure rfl
    · exact .pure rfl
    · exact .report_bind _ _ .refl

/-- Whether a name may be assigned to is told alike. -/
theorem assignable_agrees (y : String) (p : Position) : Agrees x still (assignable y p) := by
  refine .after (lookup_agrees y p) fun s => ?_
  split
  · exact .pure rfl
  · exact .pure rfl
  · exact .report_bind _ _ .refl
  · exact .report_bind _ _ .refl

/-- The method of a superclass is found alike. -/
theorem superMethod_agrees (y : String) (p : Position) : Agrees x still (superMethod y p) := by
  refine .after (lookup_agrees "super" p) fun s => ?_
  split
  · split
    · exact .pure rfl
    · exact .report_bind _ _ .refl
  · exact .pure rfl

/-- What a written type means is found alike, and so is a class that is not there. -/
theorem resolveTy_agrees (p : Position) : ∀ t : Ty, Agrees x still (resolveTy p t)
  | .object y => by
      refine .see ?_
      rintro c _ ⟨_, _, rfl⟩
      dsimp only
      split
      · exact .pure rfl
      · exact .report_bind _ _ .refl
  | .array t => resolveTy_agrees p t
  | .void | .bool | .int | .float | .str | .nil | .function | .any => .pure rfl

/-! ### Types that are consumed -/

/-- What is expected accepts a type that is not known any more. -/
theorem expectAccepted_fades (expected : Ty) {t t' : Ty} (h : t.Fades t') (p p' : Position) :
    Adds x still (expectAccepted expected t p) (expectAccepted expected t' p') [] Eq := by
  refine .see ?_
  rintro c _ ⟨_, _, rfl⟩
  have any : c.accepts expected .any = true := by simp [accepts, Ty.fits_any]
  refine .test (fun ht => ?_) _ _ _ _
  have ht : c.accepts expected t = true := by simpa using ht
  have ht' : c.accepts expected t' = true := h.holds any ht
  show ¬ (!c.accepts expected t') = true
  simpa using ht'

/-- What is expected is found in a type that is not known any more. -/
theorem expectTy_fades (expected : Ty) {t t' : Ty} (h : t.Fades t') (p p' : Position) :
    Adds x still (expectTy expected t p) (expectTy expected t' p') [] Eq := by
  refine .test (fun ht => ?_) _ _ _ _
  rcases h with rfl | rfl
  · exact ht
  · simp [Ty.isAny]

theorem expectIndex_fades {t t' : Ty} (h : t.Fades t') (p p' : Position) :
    Adds x still (expectIndex t p) (expectIndex t' p') [] Eq := by
  refine .test (fun ht => ?_) _ _ _ _
  rcases h with rfl | rfl
  · exact ht
  · simp [Ty.isAny]

/-- Operands of a logical operator may lose their types. -/
theorem expectBools_fades (op : LogicalOp) {a a' b b' : Ty} (ha : a.Fades a') (hb : b.Fades b')
    (p : Position) : Adds x still (expectBools op a b p) (expectBools op a' b' p) [] Eq := by
  refine .test (fun ht => ?_) _ _ _ _
  rcases ha with rfl | rfl <;> rcases hb with rfl | rfl <;> simp_all [Ty.isAny]

theorem unaryTy_agrees (op : UnaryOp) (t : Ty) (p : Position) :
    Agrees x still (unaryTy op t p) := by
  simp only [unaryTy]
  split
  · exact .pure rfl
  · split
    · exact .pure rfl
    · exact .report_bind _ _ .refl

/-- An operand of a unary operator may lose its type: then so does the result, or it is the same. -/
theorem unaryTy_fades (op : UnaryOp) {t t' : Ty} (h : t.Fades t') (p : Position) :
    Adds x still (unaryTy op t p) (unaryTy op t' p) [] Ty.Fades := by
  simp only [unaryTy]
  split
  · exact .pure (.refl _)
  · split
    · rename_i ht
      rw [if_pos (h.holds rfl ht)]
      exact .pure h
    · exact .report_bind _ _ .refl

theorem stepTy_agrees (form : StepForm) (t : Ty) (p : Position) :
    Agrees x still (stepTy form t p) := by
  simp only [stepTy]
  split
  · exact .pure rfl
  · exact .report_bind _ _ .refl

/-- What is stepped may lose its type. -/
theorem stepTy_fades (form : StepForm) {t t' : Ty} (h : t.Fades t') (p p' : Position) :
    Adds x still (stepTy form t p) (stepTy form t' p') [] Ty.Fades := by
  simp only [stepTy]
  split
  · rename_i ht
    rw [if_pos (h.holds rfl ht)]
    exact .pure h
  · exact .report_bind _ _ .refl

/-- The type of a cast is the one that is written, whatever is cast. Only the warning may go. -/
theorem castTy_fades (target : String) {t t' : Ty} (h : t.Fades t') (p : Position) :
    Adds x still (castTy target t p) (castTy target t' p) [] Eq := by
  simp only [castTy]
  split
  · exact .report_bind _ _ .refl
  · rename_i s _
    split
    · exact .report_bind _ _ .refl
    · rename_i ht
      have ht' : ¬ (!t'.isPrimitive && !t'.isAny) = true := by
        rcases h with rfl | rfl
        · exact ht
        · simp [Ty.isAny]
      rw [if_neg ht']
      exact .warnIf _ _ _ _ (.pure rfl)

/-- The type of an operation is found alike of the same types. -/
theorem binaryTy_agrees (op : BinaryOp) (a b : Ty) (p : Position) :
    Agrees x still (binaryTy op a b p) := by
  rw [binaryTy]
  repeat' split
  all_goals first
    | exact .pure rfl
    | exact .report_bind _ _ .refl

theorem Ty.Fades.refl_option : ∀ t : Option Ty, Option.Rel Ty.Fades t t
  | none   => .none
  | some t => .some (.refl t)

/-- A type of `a op b` that is the one of each side that is known, if the operator computes with
them, still is so where one side fades. -/
theorem joined_fades {op : BinaryOp} {a a' b b' t : Ty} (ha : a.Fades a') (hb : b.Fades b')
    (unknown : (a'.isAny || b'.isAny) = true)
    (ht : if op.isArithmetic then (a.isAny = false → t = a) ∧ (b.isAny = false → t = b)
      else t = .bool) :
    t.Fades (if !op.isArithmetic then .bool else if a'.isAny then b' else a') := by
  cases arithmetic : op.isArithmetic with
  | false =>
      rw [arithmetic] at ht
      exact .inl ht.symm
  | true =>
      rw [arithmetic] at ht
      obtain ⟨left, right⟩ := ht
      show t.Fades (if a'.isAny then b' else a')
      cases known : a'.isAny with
      | true =>
          -- The right side decides, and is what it was or unknown too.
          rcases hb with rfl | rfl
          · cases known' : b'.isAny with
            | true => cases b' <;> first | exact .any _ | cases known'
            | false => exact .inl (right known').symm
          · exact .any _
      | false =>
          rcases ha with rfl | rfl
          · exact .inl (left known).symm
          · cases known

/-- What an operator takes it still takes where one side is no longer known. -/
theorem binaryTy_fades (op : BinaryOp) {a a' b b' : Ty} (ha : a.Fades a') (hb : b.Fades b')
    (p : Position) :
    Adds x still (binaryTy op a b p) (binaryTy op a' b' p) [] (Option.Rel Ty.Fades) := by
  by_cases known : a' = a ∧ b' = b
  · obtain ⟨rfl, rfl⟩ := known
    exact (binaryTy_agrees op a' b' p).imp fun r _ e => e ▸ Ty.Fades.refl_option r
  have unknown : (a'.isAny || b'.isAny) = true := by
    rcases ha with rfl | rfl <;> rcases hb with rfl | rfl <;> simp_all [Ty.isAny]
  rw [binaryTy, binaryTy, if_pos unknown]
  split
  · refine .pure (.some (joined_fades ha hb unknown ?_))
    cases op.isArithmetic <;> cases a <;> simp_all [Ty.isAny]
  split
  · refine .pure (.some (joined_fades ha hb unknown ?_))
    simp_all [BinaryOp.isArithmetic]
  split
  · refine .pure (.some (joined_fades ha hb unknown ?_))
    simp_all
  split
  · refine .pure (.some (joined_fades ha hb unknown ?_))
    cases op <;> simp_all [BinaryOp.isArithmetic, BinaryOp.isRelational]
  split
  · refine .pure (.some (joined_fades ha hb unknown ?_))
    cases op <;> simp_all [BinaryOp.isArithmetic, BinaryOp.isEquality]
  · exact .report_bind _ _ .refl

/-- What is known of a class is the same, or nothing any more. -/
def Loses (o o' : Option α) : Prop := o' = o ∨ o' = none

theorem classOf_agrees (t : Ty) (p p' : Position) :
    Adds x still (classOf t p) (classOf t p') [] Eq := by
  simp only [classOf]
  split
  · refine .see ?_
    rintro c _ ⟨_, _, rfl⟩
    exact .pure rfl
  · exact .pure rfl
  · exact .report_bind _ _ .refl

/-- Whose methods are called may not be known any more. -/
theorem classOf_fades {t t' : Ty} (h : t.Fades t') (p p' : Position) :
    Adds x still (classOf t p) (classOf t' p') [] Loses := by
  rcases h with rfl | rfl
  · exact (classOf_agrees t' p p').imp fun _ _ e => .inl e.symm
  · exact .dropped (classOf_agrees t p p) fun _ => .inr rfl

/-- A property of a class that is not known any more has a type that is not known. -/
theorem propertyTy_fades (y : String) {c c' : Option ClassInfo} (h : Loses c c') :
    (propertyTy y c).Fades (propertyTy y c') := by
  rcases h with rfl | rfl
  · exact .refl _
  · exact .any _

/-! ### Arguments -/

/-- The types that checking found for expressions, whatever was noted on them. -/
def Found.Fades (r r' : Ty × Expr) : Prop := r.1.Fades r'.1

theorem Found.Fades.refl (r : Ty × Expr) : Found.Fades r r := .inl rfl

theorem Found.Fades.unknown (r : Ty × Expr) (e : Expr) : Found.Fades r (.any, e) := .any r.1

theorem Found.Fades.refl_all (rs : List (Ty × Expr)) : List.Forall₂ Found.Fades rs rs :=
  List.forall₂_same.mpr fun r _ => .refl r

variable {rs rs' : List (Ty × Expr)}

/-- Arguments are accepted when their types are not known any more. -/
theorem expectArgs_fades (callee : String) (params : List Ty) (h : List.Forall₂ Found.Fades rs rs')
    (p : Position) :
    Adds x still (expectArgs callee params rs p) (expectArgs callee params rs' p) [] Eq := by
  rw [expectArgs, expectArgs, ← h.length_eq]
  split
  · exact .forM_zip h (fun t r r' h => expectAccepted_fades t h r.2.pos r'.2.pos) params
  · exact .report _ _

/-- A call has the same type, whatever has become of the types of its arguments. -/
theorem callTy_fades (s : Symbol) (h : List.Forall₂ Found.Fades rs rs') (p : Position) :
    Adds x still (callTy s rs p) (callTy s rs' p) [] Eq := by
  unfold callTy
  split
  · exact .after (expectArgs_fades _ _ h p) fun _ => .pure rfl
  · exact .after (expectArgs_fades _ _ h p) fun _ => .pure rfl
  · exact .after (expectArgs_fades _ _ h p) fun _ => .pure rfl
  · exact .pure rfl
  · exact .pure rfl
  · exact .report_bind _ _ .refl

theorem methodCallTy_agrees (y : String) (h : List.Forall₂ Found.Fades rs rs') (p : Position)
    (sig : Option Signature) :
    Adds x still (methodCallTy y rs p sig) (methodCallTy y rs' p sig) [] Eq := by
  cases sig with
  | some sig => exact .after (expectArgs_fades _ _ h p) fun _ => .pure rfl
  | none => exact .pure rfl

/-- A method that is no longer known takes any arguments. -/
theorem methodCallTy_fades (y : String) (h : List.Forall₂ Found.Fades rs rs') (p : Position)
    {sig sig' : Option Signature} (hs : Loses sig sig') :
    Adds x still (methodCallTy y rs p sig) (methodCallTy y rs' p sig') [] Ty.Fades := by
  rcases hs with rfl | rfl
  · exact (methodCallTy_agrees y h p sig').imp fun _ _ e => .inl e.symm
  · exact .dropped (methodCallTy_agrees y (Found.Fades.refl_all rs) p sig) fun _ => .any _

/-- What a specifier takes, it takes where it is no longer known what it is. -/
theorem expectFormat_fades (format : Expr) (h : List.Forall₂ Found.Fades rs rs') :
    Adds x still (expectFormat format rs) (expectFormat format rs') [] Eq := by
  unfold expectFormat
  split
  · rename_i n template
    dsimp only
    rw [← h.length_eq]
    split
    · refine .forM_zip h (fun s r r' h => .test (fun ht => ?_) _ _ _ _) _
      have ht := h.holds s.ty.fits_any (by simpa using ht)
      simpa using ht
    · exact .report _ _
  · exact .report _ _

/-! ### Places, names and frames -/

theorem expectTarget_agrees (e : Expr) : Agrees x still (expectTarget e) := by
  unfold expectTarget
  split
  · exact .pure rfl
  · exact .pure rfl
  · exact .report _ _

/-- A name other than `x` is bound in a frame, or a report says why it cannot be. -/
theorem write_agrees {y : String} (hy : y ≠ x) (b : Option Symbol) (p : Position)
    (check : Forest Symbol → Handle → Except Cause FrameId) {u : Check Bool}
    (hu : ∀ c : Checker, u c = match check c.scopes c.here with
      | .ok i    => (true, { c with scopes := c.scopes.bind i y b })
      | .error e => (false, { c with errors := c.errors.push ⟨e, p⟩ }))
    (hl : ∀ c : Checker, c.Later (u c).2) : Agrees x False u where
  later := hl
  adds := by
    rintro c _ ⟨errors, warnings, rfl⟩ lacks clean
    have run (errors warnings : Array Error) := hu { c with errors, warnings }
    have here := hu c
    dsimp only at run
    cases h : check c.scopes c.here with
    | error e =>
        rw [here, h] at clean
        exact absurd clean (not_clean e p c)
    | ok i =>
        simp only [h] at run here
        refine ⟨?_, ?_, False.elim, ?_, ?_⟩
        · rw [here, run]
          exact ⟨errors, warnings, rfl⟩
        · rw [here]
          exact fun j => (Forest.binding?_bind_name c.scopes i j hy b).trans (lacks j)
        · rw [run, List.append_nil]
        · rw [here, run]

/-- Another name is defined alike, and `x` stays free. -/
theorem define_agrees {y : String} (hy : y ≠ x) (s : Symbol) (p : Position) :
    Agrees x False (define y s p) := by
  refine write_agrees hy (some s) p (fun scopes here => scopes.definable here y) (fun c => ?_)
    (define_leads y s p : Leads True .start _ _ _).later
  show (define y s p).run c = _
  simp only [define, StateT.run_bind, StateT.run_get, pure_bind]
  cases c.scopes.definable c.here y <;> rfl

/-- Another name is declared alike, and `x` stays free. -/
theorem declare_agrees {y : String} (hy : y ≠ x) (p : Position) :
    Agrees x False (declare y p) := by
  refine write_agrees hy none p (fun scopes here => scopes.declarable here y) (fun c => ?_)
    (declare_leads y p : Leads True .start _ _ _).later
  show (declare y p).run c = _
  simp only [declare, StateT.run_bind, StateT.run_get, pure_bind]
  cases c.scopes.declarable c.here y <;> rfl

variable {u v : Check α} {es : List Error} {Q : α → α → Prop}

/-- A new frame lacks the name too. -/
theorem inFrame_adds (p : Position) (h : Adds x False u v es Q) :
    Adds x False (inFrame p u) (inFrame p v) es Q where
  later := later_inFrame p h.later
  adds := by
    rintro c _ ⟨errors, warnings, rfl⟩ lacks clean
    have entered : c.entered.Alike { c with errors, warnings }.entered := ⟨errors, warnings, rfl⟩
    rw [inFrame_apply p h.later] at clean
    have m := h.adds _ _ entered (fun i => (Forest.binding?_push ..).trans (lacks i)) clean
    have pop := (h.later c.entered).pop
    obtain ⟨errors', warnings', alike⟩ := m.alike
    have pop' : (v { c with errors, warnings }.entered).2.scopes.pop
        (v { c with errors, warnings }.entered).2.here = .ok c.here := by
      rw [alike]
      exact pop
    have left := inFrame_apply p h.later c
    have left' : inFrame p v { c with errors, warnings } = _ := inFrame_of_pop p pop'
    refine ⟨?_, ?_, False.elim, ?_, ?_⟩
    · rw [left, left', alike]
      exact ⟨errors', warnings', rfl⟩
    · rw [left]
      exact m.lacks
    · rw [left']
      exact m.errors
    · rw [left, left']
      exact m.result

/-- Inside a loop the second run reports what it reports outside. -/
theorem withLoop_adds (inLoop : Bool) (h : Adds x False u v es Q) :
    Adds x False (withLoop inLoop u) (withLoop inLoop v) es Q where
  later := later_withLoop inLoop h.later
  adds := by
    rintro c _ ⟨errors, warnings, rfl⟩ lacks clean
    have m := h.adds { c with inLoop } { c with inLoop, errors, warnings } ⟨errors, warnings, rfl⟩
      lacks clean
    obtain ⟨errors', warnings', alike⟩ := m.alike
    have left : (withLoop inLoop v { c with errors, warnings }).2 =
      { (v { c with inLoop, errors, warnings }).2 with inLoop := c.inLoop } := rfl
    refine ⟨⟨errors', warnings', ?_⟩, m.lacks, False.elim, m.errors, m.result⟩
    rw [left, alike]
    rfl

theorem withFunction_adds (f : Context) (h : Adds x False u v es Q) :
    Adds x False (withFunction f u) (withFunction f v) es Q where
  later := later_withFunction f h.later
  adds := by
    rintro c _ ⟨errors, warnings, rfl⟩ lacks clean
    have m := h.adds { c with function := some f } { c with function := some f, errors, warnings }
      ⟨errors, warnings, rfl⟩ lacks clean
    obtain ⟨errors', warnings', alike⟩ := m.alike
    have left : (withFunction f v { c with errors, warnings }).2 =
      { (v { c with function := some f, errors, warnings }).2 with function := c.function } := rfl
    refine ⟨⟨errors', warnings', ?_⟩, m.lacks, False.elim, m.errors, m.result⟩
    rw [left, alike]
    rfl

theorem loopSignal_agrees (statement : String) (p : Position) :
    Agrees x still (loopSignal statement p) := by
  refine .see ?_
  rintro c _ ⟨_, _, rfl⟩
  exact .test id _ _ _ _

/-- A `return` gives a value in both runs or in neither. -/
theorem expectReturn_fades {t t' : Option Ty} (h : Option.Rel Ty.Fades t t') (p : Position) :
    Adds x still (expectReturn t p) (expectReturn t' p) [] Eq := by
  refine .see ?_
  rintro c _ ⟨_, _, rfl⟩
  dsimp only
  cases c.function with
  | none => exact .report _ _
  | some f =>
      obtain ⟨name, returns⟩ := f
      cases h with
      | none => cases returns <;> first | exact .pure rfl | exact .report _ _
      | some h => cases returns <;> first | exact expectAccepted_fades _ h p p | exact .report _ _

end Check

end Brace
