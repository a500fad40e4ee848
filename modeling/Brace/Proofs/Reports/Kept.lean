import Brace.Proofs.Reports.Adds
import Brace.Proofs.Typing.Told

/-!
# Reports — checking leaves things as they were

Checking goes on after each violation, and what it reports later is worth something only if it has
come back to where it was. The scope, the loop and the function that it works in are set aside and
taken up again by hand, in rules that call each other and may find something wrong at any step.

* `Expr.check_keeps`, `Stmt.check_keeps`: expressions and statements change no name and no class.
* `ClassDecl.check_enrolls`: a class changes what its frame says of its own name, and what is known
  of the class of that name.
* `check_restores`: where checking is, and what it knows, after anything that it has been given.
-/

namespace Brace

open Check Checker

variable {α β : Type} {N : String → Prop} {c c' c₁ c₂ c₃ : Checker}

/-- The second checker is later than the first, it knows the same classes, and of the names in the
innermost frame none has changed but those in `N`. -/
structure Checker.Kept (N : String → Prop) (c c' : Checker) : Prop extends c.Later c' where
  classes : c'.classes = c.classes
  names   : c.here.frame < c.scopes.next → ∀ x, ¬ N x →
    c'.scopes.binding? c.here.frame x = c.scopes.binding? c.here.frame x

namespace Checker.Kept

theorem trans (h : c₁.Kept N c₂) (h' : c₂.Kept N c₃) : c₁.Kept N c₃ where
  toLater := h.toLater.trans h'.toLater
  classes := h'.classes.trans h.classes
  names hi x hx := by
    have hi' : c₂.here.frame < c₂.scopes.next := by
      rw [h.here]
      exact Nat.lt_of_lt_of_le hi h.scopes.next
    have same := h'.names hi' x hx
    rw [h.here] at same
    exact same.trans (h.names hi x hx)

/-- A name of any of the frames. -/
theorem binding? (h : c.Kept N c') {i : FrameId} (hi : i < c.scopes.next) {x : String}
    (hx : i = c.here.frame → ¬ N x) : c'.scopes.binding? i x = c.scopes.binding? i x := by
  by_cases e : i = c.here.frame
  · subst e
    exact h.names hi x (hx rfl)
  · exact h.others i hi e x

/-- Something has been reported. -/
theorem of_alike (h : c.Alike c') (later : c.Later c') : c.Kept N c' := by
  obtain ⟨errors, warnings, rfl⟩ := h
  exact ⟨later, rfl, fun _ _ _ => rfl⟩

theorem put (c : Checker) {x : String} (hx : N x) (b : Option Symbol) :
    c.Kept N { c with scopes := c.scopes.bind c.here.frame x b } :=
  ⟨.put c x b, rfl, fun _ y hy =>
    Forest.binding?_bind_name c.scopes _ _ (fun e : x = y => hy (e ▸ hx)) b⟩

/-- A frame that is left takes all its names with it. -/
theorem left (h : c.entered.Later c') (classes : c'.classes = c.classes) :
    c.Kept N { c' with here := c.here } where
  toLater := h.left
  classes := classes
  names hi x _ := by
    have hi' : c.here.frame < c.entered.scopes.next := by
      simp only [Checker.entered, Forest.next_push]
      exact Nat.lt_succ_of_lt hi
    have same := h.others c.here.frame hi' (Nat.ne_of_lt hi) x
    exact same.trans (Forest.binding?_push_old c.scopes c.here hi x)

end Checker.Kept

namespace Check

/-- The piece of checking reports, and does nothing else. -/
structure Still (x : Check α) : Prop where
  alike : ∀ c : Checker, c.Alike (x c).2
  later : ∀ c : Checker, c.Later (x c).2

theorem Still.closed : Closed (fun _ => True) Still where
  pure _ := ⟨.refl, .refl⟩
  bind hx hf :=
    ⟨fun c => (hx.alike c).trans ((hf _).alike _), fun c => (hx.later c).trans ((hf _).later _)⟩
  see hf := ⟨fun c => (hf c).alike c, fun c => (hf c).later c⟩
  report _ := ⟨fun c => ⟨_, c.warnings, rfl⟩, Adds.report_later _ _⟩
  warn {cause} p _ :=
    ⟨fun c => ⟨c.errors, _, rfl⟩,
      (Leads.warn cause p : Leads True .start _ .start fun _ => True).later⟩
  violations _ _ _ := trivial

/-- The piece of checking changes no names that there are but those in `N`, in the innermost
frame. -/
structure Keeps (N : String → Prop) (x : Check α) : Prop where
  kept : ∀ c : Checker, c.Kept N (x c).2

namespace Keeps

/-- What changes no name at all keeps all others. -/
theorem of_still {x : Check α} (h : x.Still) : x.Keeps N :=
  ⟨fun c => .of_alike (h.alike c) (h.later c)⟩

/-- What is made of pieces that keep the names keeps them. -/
theorem closed : Closed (fun _ => True) (Keeps N) where
  pure _     := of_still (Still.closed.pure _)
  bind hx hf := ⟨fun c => (hx.kept c).trans ((hf _).kept _)⟩
  see hf     := ⟨fun c => (hf c).kept c⟩
  report _   := of_still (Still.closed.report trivial)
  warn p h   := of_still (Still.closed.warn p h)
  violations _ _ _ := trivial

/-- In a frame that is left again, any name may change. -/
theorem inFrame (p : Position) {x : Check α} (hx : x.Keeps fun _ => True) :
    (inFrame p x).Keeps N := by
  refine ⟨fun c => ?_⟩
  rw [inFrame_apply p (fun c => (hx.kept c).toLater) c]
  exact .left (hx.kept c.entered).toLater (hx.kept c.entered).classes

theorem withLoop (inLoop : Bool) {x : Check α} (hx : x.Keeps N) : (withLoop inLoop x).Keeps N := by
  refine ⟨fun c => ?_⟩
  have inside := hx.kept { c with inLoop }
  exact ⟨later_withLoop inLoop (fun c => (hx.kept c).toLater) c, inside.classes, inside.names⟩

theorem withFunction (f : Context) {x : Check α} (hx : x.Keeps N) :
    (withFunction f x).Keeps N := by
  refine ⟨fun c => ?_⟩
  have inside := hx.kept { c with function := some f }
  exact ⟨later_withFunction f (fun c => (hx.kept c).toLater) c, inside.classes, inside.names⟩

theorem framed : Framed (fun _ => True) fun N => Keeps N where
  closed _     := closed
  put hx b     := ⟨fun c => .put c hx b⟩
  inFrame      := inFrame
  withLoop     := withLoop
  withFunction := withFunction

end Keeps

end Check

/-! ### Expressions and statements -/

/-- Checking an expression changes no name. -/
theorem Expr.check_keeps (e : Expr) : e.check.Keeps N := e.check_closed Keeps.closed (.any _)

/-- Checking a condition changes no name. -/
theorem Expr.checkCondition_keeps (e : Expr) : e.checkCondition.Keeps N :=
  e.checkCondition_closed Keeps.closed (.any _)

/-- A statement changes no name that there is: those that it declares go with their frame. -/
theorem Stmt.check_keeps (s : Stmt) : s.check.Keeps N :=
  s.check_framed Keeps.framed (fun _ _ => trivial) (.any _)

/-! ### Classes -/

/-- A class is defined, if its name is free, and is known from then on. -/
def Check.enroll (info : ClassInfo) (p : Position) : Check Unit := do
  if ← define info.name (.cls info) p then
    modify fun c => { c with classes := c.classes.put info.name info }

/-- A class is entered under its name where that is free. -/
theorem Check.enroll_of_ok {info : ClassInfo} {i : FrameId}
    (h : c.scopes.definable c.here info.name = .ok i) (p : Position) :
    enroll info p c = ((), { c with
      scopes := c.scopes.bind c.here.frame info.name (some (.cls info))
      classes := c.classes.put info.name info }) := by
  cases Forest.eq_of_definable h
  show (enroll info p).run c = _
  simp only [enroll, define, StateT.run_bind, StateT.run_get, pure_bind, bind_assoc, h]
  rfl

/-- A class whose name is taken is reported, and not entered. -/
theorem Check.enroll_of_error {info : ClassInfo} {cause : Cause}
    (h : c.scopes.definable c.here info.name = .error cause) (p : Position) :
    enroll info p c = report cause p c := by
  show (enroll info p).run c = _
  simp only [enroll, define, StateT.run_bind, StateT.run_get, pure_bind, bind_assoc, h]
  rfl

/-- The superclass, and what is known of the class by its own declaration and by it. -/
def ClassDecl.gather (d : ClassDecl) : Check (Option ClassInfo × ClassInfo) := do
  let superclass ← d.superInfo
  let fields ← d.fieldTable
  let methods ← d.methodTable fields
  let inherited := match superclass with
    | some c => c.tiers
    | none   => []
  pure (superclass, ⟨⟨d.name, fields, methods⟩, inherited⟩)

/-- What is left to do for a class that is enrolled. -/
def ClassDecl.finish (d : ClassDecl) (superclass : Option ClassInfo) : Check ClassDecl := do
  d.fields.forM fun x => do
    let _ ← resolveTy d.pos x.ty
  inFrame d.pos do
    d.receive superclass
    let methods ← d.methods.mapM FuncDecl.checkBody
    pure { d with methods }

/-- Checking a class gathers what is known of it, enters it, and checks its methods. -/
theorem ClassDecl.check_gathered (d : ClassDecl) : d.check = (do
    let r ← d.gather
    enroll r.2 d.pos
    d.finish r.1) := by
  have apply {α β : Type} (x : Check α) (f : α → Check β) (c : Checker) :
      (x >>= f) c = f (x c).1 (x c).2 := rfl
  have given {α : Type} (a : α) (c : Checker) : (pure a : Check α) c = (a, c) := rfl
  funext c
  -- Run on one checker both do the same steps; only the choices have to be made in the same order.
  simp only [check, gather, enroll, finish, receive, inFrame, ClassInfo.name, apply, given]
  generalize d.superInfo c = r
  cases r.1 <;> dsimp only <;> split <;> rfl

/-- Gathering what is known of a class changes no name. -/
theorem ClassDecl.gather_still (d : ClassDecl) : d.gather.Still :=
  Still.closed.bind (Still.closed.superInfo d) fun _ =>
    Still.closed.bind (Still.closed.fieldTable d) fun _ =>
      Still.closed.bind (Still.closed.methodTable d _) fun _ => Still.closed.pure _

theorem ClassDecl.gather_name (d : ClassDecl) (c : Checker) : (d.gather c).1.2.name = d.name := rfl

/-- What is left to do for a class changes no name that there was. -/
theorem ClassDecl.finish_keeps (d : ClassDecl) (superclass : Option ClassInfo) :
    (d.finish superclass).Keeps N :=
  Keeps.closed.bind (Keeps.closed.fieldTypes d) fun _ =>
    d.methods_framed Keeps.framed (fun _ _ => trivial) superclass (.any _)

/-- A class is enrolled, after steps that only report; whatever else is done for it changes no name
that there is. -/
theorem ClassDecl.check_enrolls (d : ClassDecl) (c : Checker) : ∃ c₁ info,
    c.Alike c₁ ∧ c.Later c₁ ∧ info.name = d.name ∧
      (enroll info d.pos c₁).2.Kept N (d.check c).2 := by
  rw [d.check_gathered]
  exact ⟨(d.gather c).2, (d.gather c).1.2, d.gather_still.alike c, d.gather_still.later c,
    d.gather_name c, (d.finish_keeps (d.gather c).1.1).kept _⟩

/-! ### Where checking is afterwards -/

/-- The second checker is where the first was, with all that had been reported and perhaps more. That
a frame could not be left has not been reported. -/
structure Checker.Returned (c c' : Checker) : Prop where
  errors   : ∃ es, c'.errors.toList = c.errors.toList ++ es ∧ ∀ e ∈ es, e.cause ≠ .scopeUnderflow
  warnings : ∃ ws, c'.warnings.toList = c.warnings.toList ++ ws ∧
    ∀ w ∈ ws, w.cause ≠ .scopeUnderflow
  here     : c'.here = c.here
  frames   : c.scopes.Grown c'.scopes
  inLoop   : c'.inLoop = c.inLoop
  function : c'.function = c.function

/-- The frames that there were bind their names as before, and the same classes are known. -/
structure Checker.Unmoved (c c' : Checker) : Prop where
  bindings : ∀ i, i < c.scopes.next → ∀ x, c'.scopes.binding? i x = c.scopes.binding? i x
  classes  : c'.classes = c.classes

/-- What is known of classes: one more if the declaration is of a class and its name is free, which
then stands for the class. -/
def Checker.Enrolled (c c' : Checker) : Decl → Prop
  | .cls d =>
      match c.scopes.definable c.here d.name with
      | .ok _    => ∃ info, info.name = d.name ∧ c'.classes = c.classes.put d.name info ∧
          (c.here.frame < c.scopes.next →
            c'.scopes.binding? c.here.frame d.name = some (some (.cls info)))
      | .error _ => c'.classes = c.classes
  | .var _ | .func _ => c'.classes = c.classes

/-- The frames that there were bind their names as before, except that the innermost one may bind the
declared name anew; and a class that could be defined is known. -/
structure Checker.Declares (d : Decl) (c c' : Checker) : Prop where
  bindings : ∀ i, i < c.scopes.next → ∀ x, (i = c.here.frame → x ≠ d.name) →
    c'.scopes.binding? i x = c.scopes.binding? i x
  classes  : c.Enrolled c' d

/-- What was told of the errors says that checking is back where it was. -/
theorem Checker.Told.returned (h : c.Told (·.cause ≠ .scopeUnderflow) c') : c.Returned c' where
  errors := by
    obtain ⟨es, e⟩ := h.errors
    exact ⟨es, e.symm, h.reports es e.symm⟩
  warnings := by
    obtain ⟨ws, e⟩ := h.warnings
    refine ⟨ws, e.symm, fun w hw cause => ?_⟩
    have phase := h.warns ws e.symm w hw
    rw [Error.phase, cause] at phase
    cases phase
  here := h.here
  frames := h.scopes
  inLoop := h.inLoop
  function := h.function

theorem Checker.Kept.unmoved (h : c.Kept (fun _ => False) c') : c.Unmoved c' :=
  ⟨fun _ hi _ => h.binding? hi fun _ => id, h.classes⟩

/-- An underflow of scopes has not the phase of checking. -/
theorem Check.no_underflow : Admits (·.cause ≠ .scopeUnderflow) := fun e phase cause => by
  rw [Error.phase, cause] at phase
  cases phase

/-- A method that a superclass lacks is no frame that cannot be left. -/
theorem Part.Supers.no_underflow (ps : List Part) : Supers (·.cause ≠ .scopeUnderflow) ps :=
  fun _ _ _ cause => by cases cause

/-- A class whose name is free is known in the end, and its name stands for it. -/
theorem Checker.Kept.enrolled {info : ClassInfo} {i : FrameId} {p : Position}
    (h : (enroll info p c).2.Kept (fun _ => False) c')
    (free : c.scopes.definable c.here info.name = .ok i) :
    (∀ i, i < c.scopes.next → ∀ x, (i = c.here.frame → x ≠ info.name) →
      c'.scopes.binding? i x = c.scopes.binding? i x) ∧
    c'.classes = c.classes.put info.name info ∧ (c.here.frame < c.scopes.next →
      c'.scopes.binding? c.here.frame info.name = some (some (.cls info))) := by
  rw [enroll_of_ok free] at h
  have there {i : FrameId} (hi : i < c.scopes.next) :
      i < (c.scopes.bind c.here.frame info.name (some (.cls info))).next := by
    rwa [Forest.next_bind]
  refine ⟨fun i hi x hx => ?_, h.classes, fun hi => ?_⟩
  · have named := Kept.put (N := (· = info.name)) c rfl (some (.cls info))
    exact (h.binding? (there hi) fun _ => id).trans (named.binding? hi hx)
  · exact (h.binding? (there hi) fun _ => id).trans (Forest.binding?_bind_self c.scopes hi ..)

/-- A class declares its own name and nothing else. -/
theorem ClassDecl.check_declares (d : ClassDecl) (c : Checker) :
    c.Declares (.cls d) (d.check c).2 := by
  obtain ⟨_, info, ⟨errors, warnings, rfl⟩, later, name, kept⟩ :=
    d.check_enrolls (N := fun _ => False) c
  cases found : c.scopes.definable c.here d.name with
  | ok i =>
      obtain ⟨bindings, classes, bound⟩ := kept.enrolled (by rw [name]; exact found)
      rw [name] at bindings classes bound
      refine ⟨bindings, ?_⟩
      rw [Enrolled, found]
      exact ⟨info, name, classes, bound⟩
  | error cause =>
      have taken : c.scopes.definable c.here info.name = .error cause := by rw [name, found]
      rw [enroll_of_error (c := { c with errors, warnings }) taken] at kept
      have reported : c.Kept (fun _ => False) _ := .of_alike ⟨errors, warnings, rfl⟩ later
      have refused := reported.trans (((Keeps.closed.report trivial).kept _).trans kept)
      refine ⟨fun i hi x _ => refused.binding? hi fun _ => id, ?_⟩
      rw [Enrolled, found]
      exact refused.classes

/-- A declaration declares its own name and nothing else. -/
theorem Decl.check_declares (c : Checker) : ∀ d : Decl, c.Declares d (d.check c).2
  | .var v  => by
      have keeps : v.check.Keeps (· = v.name) := v.check_framed Keeps.framed rfl (.any _)
      exact ⟨fun i hi x hx => (keeps.kept c).binding? hi hx, (keeps.kept c).classes⟩
  | .func f => by
      have keeps : f.check.Keeps (· = f.name) :=
        f.check_framed Keeps.framed (fun _ _ => trivial) rfl (.any _)
      exact ⟨fun i hi x hx => (keeps.kept c).binding? hi hx, (keeps.kept c).classes⟩
  | .cls d  => d.check_declares c

/-- **Checking leaves things as they were.**  Whatever checker it starts with and however much it
finds wrong: checking an expression, a condition, a statement, a declaration or a whole program only
adds to what has been reported, never that a frame could not be left, and comes back to the scope, the
loop and the function where it was. An expression, a condition or a statement changes no name of a
frame that there was, and no class. A declaration changes at most its own name in the innermost frame,
and, if it defines a class there, what is known of the class of that name. -/
theorem check_restores (c : Checker) :
    (∀ e : Expr, c.Returned (e.check c).2 ∧ c.Unmoved (e.check c).2) ∧
    (∀ e : Expr, c.Returned (e.checkCondition c).2 ∧ c.Unmoved (e.checkCondition c).2) ∧
    (∀ s : Stmt, c.Returned (s.check c).2 ∧ c.Unmoved (s.check c).2) ∧
    (∀ d : Decl, c.Returned (d.check c).2 ∧ c.Declares d (d.check c).2) ∧
    ∀ p : Program, c.Returned (p.mapM Decl.check c).2 := by
  have violations := no_underflow.violations
  refine ⟨fun e => ⟨?_, ?_⟩, fun e => ⟨?_, ?_⟩, fun s => ⟨?_, ?_⟩, fun d => ⟨?_, ?_⟩, fun p => ?_⟩
  · exact ((e.check_tells violations (.no_underflow _)).told c).returned
  · exact (e.check_keeps.kept c).unmoved
  · exact ((e.checkCondition_tells violations (.no_underflow _)).told c).returned
  · exact (e.checkCondition_keeps.kept c).unmoved
  · exact ((s.check_tells no_underflow (.no_underflow _)).told c).returned
  · exact (s.check_keeps.kept c).unmoved
  · exact ((d.check_tells no_underflow (.no_underflow _)).told c).returned
  · exact d.check_declares c
  · exact ((Tells.mapM fun d _ => d.check_tells no_underflow (.no_underflow _)).told c).returned

end Brace
