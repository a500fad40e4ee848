import Brace.Proofs.Typing.Framed

/-!
# Typing — what the rules may report

Of a piece of checking it is said what holds of all its reports, from whatever checker it starts
(`Check.Tells`); what it warns of has the phase `warning` always. That a frame cannot be left is never
reported: one that has been entered can be.

* `Check.Tells.framed`: what holds of all violations holds of all reports.
* `Expr.check_tells`, `Stmt.check_tells`, `Decl.check_tells`: what may be reported of expressions,
  statements and declarations.
-/

namespace Brace

open Brace.Part (Supers)

variable {α β : Type} {R : Error → Prop} {c c₁ c₂ c₃ : Checker}

/-- The second checker is later than the first, and `R` holds of what it has reported since. -/
structure Checker.Told (R : Error → Prop) (c c' : Checker) : Prop extends c.Later c' where
  reports : ∀ es, c'.errors.toList = c.errors.toList ++ es → ∀ e ∈ es, R e
  warns   : ∀ ws, c'.warnings.toList = c.warnings.toList ++ ws → ∀ w ∈ ws, w.phase = .warning

namespace Checker.Told

/-- Nothing has been reported since. -/
theorem of_later (h : c₁.Later c₂) (he : c₂.errors = c₁.errors) (hw : c₂.warnings = c₁.warnings) :
    c₁.Told R c₂ := by
  refine ⟨h, ?_, ?_⟩
  · intro es e
    simp only [he, List.self_eq_append_right] at e
    simp [e]
  · intro ws e
    simp only [hw, List.self_eq_append_right] at e
    simp [e]

/-- What has been added to a list has been added in two parts. -/
theorem forall_added {P : Error → Prop} {as bs cs : List Error} (hab : as <+: bs) (hbc : bs <+: cs)
    (h : ∀ es, bs = as ++ es → ∀ e ∈ es, P e) (h' : ∀ es, cs = bs ++ es → ∀ e ∈ es, P e) :
    ∀ es, cs = as ++ es → ∀ e ∈ es, P e := by
  obtain ⟨xs, rfl⟩ := hab
  obtain ⟨ys, rfl⟩ := hbc
  intro es eq e he
  rw [List.append_assoc, List.append_cancel_left_eq] at eq
  subst eq
  rcases List.mem_append.mp he with he | he
  · exact h xs rfl e he
  · exact h' ys rfl e he

/-- What has been told from one state to a second and from there to a third has been told from the
first to the third. -/
theorem trans (h : c₁.Told R c₂) (h' : c₂.Told R c₃) : c₁.Told R c₃ where
  toLater := h.toLater.trans h'.toLater
  reports := forall_added h.errors h'.errors h.reports h'.reports
  warns := forall_added h.warnings h'.warnings h.warns h'.warns

end Checker.Told

namespace Check

/-- Of whatever the piece of checking reports, `R` holds. -/
structure Tells (R : Error → Prop) (x : Check α) : Prop where
  told : ∀ c : Checker, c.Told R (x c).2

namespace Tells

/-! ### Pieces of checking -/

/-- What tells leads to a later state. -/
theorem later {x : Check α} (hx : x.Tells R) (c : Checker) : c.Later (x c).2 := (hx.told c).toLater

/-- A piece that changes nothing but names and classes. -/
theorem of_same {x : Check α} (hl : ∀ c : Checker, c.Later (x c).2)
    (he : ∀ c : Checker, (x c).2.errors = c.errors)
    (hw : ∀ c : Checker, (x c).2.warnings = c.warnings) : x.Tells R :=
  ⟨fun c => .of_later (hl c) (he c) (hw c)⟩

theorem pure (a : α) : Tells R (Pure.pure a) := of_same .refl (fun _ => rfl) fun _ => rfl

/-- One thing after another tells what both parts tell. -/
theorem bind {x : Check α} {f : α → Check β} (hx : x.Tells R) (hf : ∀ a, (f a).Tells R) :
    (x >>= f).Tells R :=
  ⟨fun c => (hx.told c).trans ((hf (x c).1).told (x c).2)⟩

/-- A look at the checker. -/
theorem see {f : Checker → Check α} (hf : ∀ c, (f c).Tells R) : (MonadState.get >>= f).Tells R :=
  ⟨fun c => (hf c).told c⟩

/-! ### Reports -/

/-- A report tells what is reported. -/
theorem report {cause : Cause} {p : Position} (h : R ⟨cause, p⟩) : Tells R (report cause p) := by
  have leads : Leads True .start (Check.report cause p) .start fun _ => True := .report cause p
  refine ⟨fun c => ⟨leads.later c, ?_, ?_⟩⟩
  · intro es eq
    have eq : (c.errors.push ⟨cause, p⟩).toList = c.errors.toList ++ es := eq
    rw [Array.toList_push, List.append_cancel_left_eq] at eq
    subst eq
    simpa using h
  · intro ws eq
    have eq : c.warnings.toList = c.warnings.toList ++ ws := eq
    rw [List.self_eq_append_right] at eq
    simp [eq]

/-- A warning tells of no error. -/
theorem warn {cause : Cause} (h : cause.phase = .warning) (p : Position) :
    Tells R (warn cause p) := by
  have leads : Leads True .start (Check.warn cause p) .start fun _ => True := .warn cause p
  refine ⟨fun c => ⟨leads.later c, ?_, ?_⟩⟩
  · intro es eq
    have eq : c.errors.toList = c.errors.toList ++ es := eq
    rw [List.self_eq_append_right] at eq
    simp [eq]
  · intro ws eq
    have eq : (c.warnings.push ⟨cause, p⟩).toList = c.warnings.toList ++ ws := eq
    rw [Array.toList_push, List.append_cancel_left_eq] at eq
    subst eq
    simpa [Error.phase] using h

/-! ### Frames, loops and functions -/

/-- A frame that is entered can be left. -/
theorem inFrame (p : Position) {x : Check α} (hx : x.Tells R) : (inFrame p x).Tells R := by
  refine ⟨fun c => ?_⟩
  have inside := hx.told c.entered
  rw [inFrame_apply p hx.later c]
  exact ⟨inside.toLater.left, inside.reports, inside.warns⟩

/-- What is checked in a loop tells what it tells. -/
theorem withLoop (inLoop : Bool) {x : Check α} (hx : x.Tells R) : (withLoop inLoop x).Tells R := by
  refine ⟨fun c => ?_⟩
  have inside := hx.told { c with inLoop }
  exact ⟨later_withLoop inLoop hx.later c, inside.reports, inside.warns⟩

/-- So does what is checked in a function. -/
theorem withFunction (f : Context) {x : Check α} (hx : x.Tells R) :
    (withFunction f x).Tells R := by
  refine ⟨fun c => ?_⟩
  have inside := hx.told { c with function := some f }
  exact ⟨later_withFunction f hx.later c, inside.reports, inside.warns⟩

/-! ### All checking -/

/-- What is made of parts that tell of no more than `R` tells of no more. -/
theorem passed : Passed R (Tells R) where
  pure := pure
  bind := bind
  see := see
  report := report
  warn p h := warn h p

/-- All that expressions need tells of no more, if `R` holds of violations. -/
theorem closed (hR : Violations R) : Closed R (Tells R) := ⟨passed, hR⟩

/-- Which names are bound is no matter to what is reported. -/
theorem framed (hR : Violations R) : Framed R fun _ => Tells R where
  closed _ := closed hR
  put {_ x} _ b := of_same (fun c => .put c x b) (fun _ => rfl) fun _ => rfl
  inFrame := inFrame
  withLoop := withLoop
  withFunction := withFunction

/-- Things that are checked one after another tell what each of them tells. -/
theorem mapM {γ : Type} {f : γ → Check β} {as : List γ} (hf : ∀ a ∈ as, (f a).Tells R) :
    (as.mapM f).Tells R := passed.mapM hf

/-- That a class gets known is not reported. -/
theorem known (x : String) (info : ClassInfo) :
    Tells R (modify fun c => { c with classes := c.classes.put x info } : Check Unit) := by
  have leads := putClass_leads (F := True) (Γ := .start) x info
  exact of_same leads.later (fun _ => rfl) fun _ => rfl

end Tells

end Check

open Check

/-- Of an expression nothing is reported but violations, and what superclasses lack. -/
theorem Expr.check_tells (hR : Violations R) (e : Expr) (h : Supers R e.parts) :
    e.check.Tells R := e.check_closed (Tells.closed hR) h

/-- Nor does checking of a condition tell of more. -/
theorem Expr.checkCondition_tells (hR : Violations R) (e : Expr) (h : Supers R e.parts) :
    e.checkCondition.Tells R := e.checkCondition_closed (Tells.closed hR) h

/-- Nor does checking of a statement. -/
theorem Stmt.check_tells (hR : Admits R) (s : Stmt) (h : Supers R s.parts) : s.check.Tells R :=
  s.check_framed (Tells.framed hR.violations) hR (N := fun _ => True) h

/-- Nor does checking of a class. -/
theorem ClassDecl.check_tells (hR : Admits R) (d : ClassDecl)
    (h : Supers R (d.methods.flatMap FuncDecl.parts)) : d.check.Tells R := by
  have hP : Framed R fun _ => Tells R := Tells.framed hR.violations
  rw [check_eq]
  refine .bind (d.announce_framed hP (N := fun _ => True) trivial (.known d.name)) fun superclass => ?_
  exact d.methods_framed hP hR superclass (N := fun _ => True) h

/-- Nor does checking of any declaration. -/
theorem Decl.check_tells (hR : Admits R) : ∀ d : Decl, Supers R d.parts → d.check.Tells R
  | .var v, h  => by
      have hP : Framed R fun _ => Tells R := Tells.framed hR.violations
      exact .bind (v.check_framed hP (N := fun _ => True) trivial h) fun _ => .pure _
  | .func f, h => by
      have hP : Framed R fun _ => Tells R := Tells.framed hR.violations
      exact .bind (f.check_framed hP hR (N := fun _ => True) trivial h.tail) fun _ => .pure _
  | .cls d, h  => .bind (d.check_tells hR h.tail) fun _ => .pure _

end Brace
