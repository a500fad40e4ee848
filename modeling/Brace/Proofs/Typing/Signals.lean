import Brace.Proofs.Typing.Framed

/-!
# Typing — loop signals that are reported

A `break` or a `continue` is loose where no `while` and no `for` of the same function is around it.
Checking reports just these, one by one and in the order in which they are written, whatever else it
finds. Of a piece of checking it is said which loop signals it reports, in a loop and outside of one
(`Check.Signals`); most report none.

* `Stmt.check_signals`: what is reported of a statement.
* `Program.check_reports_signals`: what is reported of a program.
-/

namespace Brace

/-! ### Signals in a program -/

namespace Stmt

mutual

/-- What is to be reported of the statement where it is in no loop: each `break` and `continue` in it
that is in no loop in the statement either. -/
def looseSignals : Stmt → List Error
  | .breakLoop p       => [⟨.illegalBreakOrContinue "break", p⟩]
  | .continueLoop p    => [⟨.illegalBreakOrContinue "continue", p⟩]
  | .block _ _ ss      => looseSignalsOf ss
  | .ifElse _ _ t e    => t.looseSignals ++ e.looseSignals
  | .whileLoop .. | .forLoop .. | .ret .. | .expr .. | .empty _ => []

def looseSignalsOf : List Stmt → List Error
  | []      => []
  | s :: ss => s.looseSignals ++ looseSignalsOf ss

end

end Stmt

/-- The functions and methods that a declaration declares. -/
def Decl.bodies : Decl → List FuncDecl
  | .var _  => []
  | .func f => [f]
  | .cls d  => d.methods

/-- The functions of the program and the methods of its classes. -/
def Program.bodies (p : Program) : List FuncDecl := p.flatMap Decl.bodies

def Decl.looseSignals (d : Decl) : List Error :=
  d.bodies.flatMap fun f => Stmt.looseSignalsOf f.body

def Program.looseSignals (p : Program) : List Error :=
  p.bodies.flatMap fun f => Stmt.looseSignalsOf f.body

/-- The loop signals that have been reported. -/
def Checker.signals (c : Checker) : List Error := c.errors.toList.filter (·.cause.isLoopSignal)

variable {α β : Type}

namespace Check

/-- These are the loop signals that the piece of checking reports from here. -/
def Emits (x : Check α) (c : Checker) (es : List Error) : Prop :=
  (x c).2.inLoop = c.inLoop ∧ (x c).2.signals = c.signals ++ es

/-- In a loop or outside of one, these are the loop signals that the piece of checking reports. -/
structure Signals (x : Check α) (es : Bool → List Error) : Prop where
  emits : ∀ c : Checker, x.Emits c (es c.inLoop)

/-- It reports none. -/
abbrev Quiet (x : Check α) : Prop := x.Signals fun _ => []

namespace Signals

variable {es es' : Bool → List Error}

/-! ### Pieces of checking -/

/-- A piece that changes nothing but names and classes. -/
theorem of_same {x : Check α} {c : Checker} (hl : (x c).2.inLoop = c.inLoop)
    (he : (x c).2.errors = c.errors) : x.Emits c [] :=
  ⟨hl, by rw [Checker.signals, he, List.append_nil]; rfl⟩

theorem pure (a : α) : Quiet (Pure.pure a : Check α) := ⟨fun _ => of_same rfl rfl⟩

/-- One thing after another signals what the one and then what the other signals. -/
theorem bind {x : Check α} {f : α → Check β} (hx : x.Signals es) (hf : ∀ a, (f a).Signals es') :
    Signals (x >>= f) fun b => es b ++ es' b := by
  refine ⟨fun c => ?_⟩
  obtain ⟨l, e⟩ := hx.emits c
  obtain ⟨l', e'⟩ := (hf (x c).1).emits (x c).2
  rw [e, l, List.append_assoc] at e'
  exact ⟨l'.trans l, e'⟩

/-- What comes before reports nothing. -/
theorem after {x : Check α} {f : α → Check β} (hx : x.Quiet) (hf : ∀ a, (f a).Signals es) :
    (x >>= f).Signals es := bind hx hf

/-- What comes afterwards reports nothing. -/
theorem andQuiet {x : Check α} {f : α → Check β} (hx : x.Signals es) (hf : ∀ a, (f a).Quiet) :
    (x >>= f).Signals es := by
  have h := bind hx hf
  simp only [List.append_nil] at h
  exact h

/-- A look at the checker. -/
theorem see {f : Checker → Check α} (hf : ∀ c, (f c).Emits c (es c.inLoop)) :
    (MonadState.get >>= f).Signals es := ⟨hf⟩

/-- Things that are checked one after another signal in their order. -/
theorem mapM {γ : Type} {f : γ → Check β} {es : γ → List Error}
    (hf : ∀ a, (f a).Signals fun _ => es a) :
    ∀ as : List γ, Signals (as.mapM f) fun _ => as.flatMap es
  | []      => by rw [List.mapM_nil]; exact pure _
  | a :: as => by
      rw [List.mapM_cons]
      exact bind (hf a) fun _ => andQuiet (mapM hf as) fun _ => pure _

/-- What is no loop signal may be reported. -/
theorem report {cause : Cause} (p : Position) (h : cause.isLoopSignal = false) :
    Quiet (report cause p) := by
  refine ⟨fun c => ⟨rfl, ?_⟩⟩
  show List.filter _ (c.errors.push _).toList = _
  simp [Checker.signals, h]

/-- A new frame is entered and left. -/
theorem inFrame (p : Position) {x : Check α} (hx : x.Signals es) : (inFrame p x).Signals es := by
  refine after ⟨fun _ => of_same rfl rfl⟩ fun _ => andQuiet hx fun a => ?_
  refine after (see fun c => ?_) fun _ => pure a
  split
  · exact of_same rfl rfl
  · rename_i e h
    refine (report p ?_).emits c
    simp only [Forest.pop] at h
    split at h <;> cases h
    rfl

/-- In a loop the piece reports what it reports there, wherever the loop is. -/
theorem withLoop (inLoop : Bool) {x : Check α} (hx : x.Signals es) :
    (withLoop inLoop x).Signals fun _ => es inLoop :=
  ⟨fun c => ⟨rfl, (hx.emits { c with inLoop }).2⟩⟩

/-- What is checked in a function signals what it signals. -/
theorem withFunction (f : Context) {x : Check α} (hx : x.Signals es) :
    (withFunction f x).Signals es := ⟨fun c => hx.emits { c with function := some f }⟩

end Signals

namespace Quiet

/-- Checking of everything but statements is quiet. -/
theorem closed : Closed (fun e => e.cause.isLoopSignal = false) Quiet where
  pure := Signals.pure
  bind := Signals.after
  see hf := Signals.see fun c => (hf c).emits c
  report h := Signals.report _ h
  warn _ _ := ⟨fun _ => Signals.of_same rfl rfl⟩
  violations _ _ h := h

/-- No rule for anything but statements reports a loop signal. -/
theorem framed : Framed (fun e => e.cause.isLoopSignal = false) fun _ => Quiet where
  closed _ := closed
  put _ _ := ⟨fun _ => Signals.of_same rfl rfl⟩
  inFrame := Signals.inFrame
  withLoop := Signals.withLoop
  withFunction := Signals.withFunction

end Quiet

/-- A method that a superclass lacks is no loop signal. -/
theorem supers (ps : List Part) : Part.Supers (fun e => e.cause.isLoopSignal = false) ps :=
  fun _ _ _ => rfl

/-! ### Statements -/

/-- What is reported outside of loops alone. -/
def outside (es : List Error) (inLoop : Bool) : List Error := if inLoop then [] else es

/-- Where there are no loose signals, there are none outside of loops. -/
theorem outside_nil : outside [] = fun _ => [] := by
  funext inLoop
  exact ite_self _

/-- Outside of loops, loose signals are reported in their order. -/
theorem outside_append (es es' : List Error) :
    outside (es ++ es') = fun inLoop => outside es inLoop ++ outside es' inLoop := by
  funext inLoop
  cases inLoop <;> rfl

/-- A loop signal is reported where checking is in no loop. -/
theorem loopSignal_signals (statement : String) (p : Position) :
    (loopSignal statement p).Signals (outside [⟨.illegalBreakOrContinue statement, p⟩]) :=
  .see fun c => by
    cases e : c.inLoop with
    | true => exact (Signals.pure ()).emits c
    | false =>
        refine ⟨rfl, ?_⟩
        show List.filter _ (c.errors.push _).toList = _
        simp [Checker.signals, Cause.isLoopSignal, outside]

/-- An expression signals nothing. -/
theorem expr_quiet (e : Expr) : e.check.Quiet := e.check_closed Quiet.closed (supers _)

/-- Nor does a condition. -/
theorem condition_quiet (e : Expr) : e.checkCondition.Quiet :=
  e.checkCondition_closed Quiet.closed (supers _)

/-- Nor do variables. -/
theorem locals_quiet (vs : List VarDecl) : Quiet (vs.mapM VarDecl.check) :=
  VarDecl.checkAll_framed Quiet.framed vs (supers _)

end Check

open Check

namespace Stmt

mutual

/-- Of a statement that is in no loop its loose signals are reported, and nothing of one that is. -/
theorem check_signals : ∀ s : Stmt, s.check.Signals (outside s.looseSignals)
  | .block p locals body => by
      rw [check]
      refine .inFrame p (.after (locals_quiet locals) fun _ => ?_)
      exact .andQuiet (checkAll_signals body) fun _ => .pure _
  | .ifElse p cond t e => by
      rw [check, looseSignals, outside_append]
      refine .after (condition_quiet cond) fun _ => .bind (check_signals t) fun _ => ?_
      exact .andQuiet (check_signals e) fun _ => .pure _
  | .whileLoop p cond body => by
      rw [check, looseSignals, outside_nil]
      refine .after (condition_quiet cond) fun _ => ?_
      exact .andQuiet (.withLoop true (check_signals body)) fun _ => .pure _
  | .forLoop p init cond update body => by
      rw [check, looseSignals, outside_nil]
      have updated : (Check.update update).Quiet :=
        Quiet.framed.update (N := fun _ => True) update (supers _)
      refine .inFrame p (.after (init.check_framed Quiet.framed (supers _)) fun _ => ?_)
      refine .after (condition_quiet cond) fun _ => .after updated fun _ => ?_
      exact .andQuiet (.withLoop true (check_signals body)) fun _ => .pure _
  | .ret p (some e) => by
      rw [check, looseSignals, outside_nil]
      refine .after (expr_quiet e) fun _ => ?_
      exact .after (Quiet.closed.expectReturn ..) fun _ => .pure _
  | .ret p none => by
      rw [check, looseSignals, outside_nil]
      exact .after (Quiet.closed.expectReturn ..) fun _ => .pure _
  | .breakLoop p => by
      rw [check]
      exact .andQuiet (loopSignal_signals "break" p) fun _ => .pure _
  | .continueLoop p => by
      rw [check]
      exact .andQuiet (loopSignal_signals "continue" p) fun _ => .pure _
  | .expr p e => by
      rw [check, looseSignals, outside_nil]
      exact .after (expr_quiet e) fun _ => .pure _
  | .empty p => by
      rw [check, looseSignals, outside_nil]
      exact .pure _

/-- Statements signal in their order. -/
theorem checkAll_signals : ∀ ss : List Stmt, (checkAll ss).Signals (outside (looseSignalsOf ss))
  | []      => by
      rw [checkAll, looseSignalsOf, outside_nil]
      exact .pure _
  | s :: ss => by
      rw [checkAll, looseSignalsOf, outside_append]
      exact .bind (check_signals s) fun _ => .andQuiet (checkAll_signals ss) fun _ => .pure _

end

end Stmt

/-! ### Functions, classes and programs -/

/-- The body of a function is in no loop, wherever it is. -/
theorem FuncDecl.checkBody_signals (f : FuncDecl) :
    f.checkBody.Signals fun _ => Stmt.looseSignalsOf f.body := by
  have body : Signals (do
      let locals ← f.locals.mapM VarDecl.check
      let body ← Stmt.checkAll f.body
      pure { f with locals, body }) (outside (Stmt.looseSignalsOf f.body)) := by
    refine .after (locals_quiet f.locals) fun _ => ?_
    exact .andQuiet (Stmt.checkAll_signals f.body) fun _ => .pure _
  rw [checkBody]
  refine .after (Quiet.closed.resolveTy ..) fun _ => .andQuiet (.inFrame f.pos ?_) fun _ => ?_
  · refine .after (Quiet.framed.params ..) fun _ => ?_
    exact .withLoop false (.withFunction _ body)
  · exact Quiet.closed.reportIf rfl (.pure _)

/-- The methods of a class are in no loop. -/
theorem ClassDecl.check_signals (d : ClassDecl) :
    d.check.Signals fun _ => d.methods.flatMap fun f => Stmt.looseSignalsOf f.body := by
  rw [check_eq]
  have announced : d.announce.Quiet := d.announce_framed Quiet.framed (N := fun _ => True) trivial
    fun _ => ⟨fun _ => Signals.of_same rfl rfl⟩
  refine .after announced fun superclass => .inFrame d.pos ?_
  refine .after (d.receive_framed Quiet.framed superclass) fun _ => ?_
  exact .andQuiet (.mapM FuncDecl.checkBody_signals d.methods) fun _ => .pure _

/-- A declaration signals what is loose in it. -/
theorem Decl.check_signals : ∀ d : Decl, d.check.Signals fun _ => d.looseSignals
  | .var v => by
      have quiet : v.check.Quiet :=
        v.check_framed Quiet.framed (N := fun _ => True) trivial (supers _)
      exact .after quiet fun _ => .pure _
  | .func f => by
      have body : f.check.Signals fun _ => Stmt.looseSignalsOf f.body :=
        .after (Quiet.framed.define (N := fun _ => True) trivial ..) fun _ => f.checkBody_signals
      rw [looseSignals, bodies, List.flatMap_singleton]
      exact .andQuiet body fun _ => .pure _
  | .cls d => .andQuiet d.check_signals fun _ => .pure _

/-- **What is reported of loop signals.**  Whatever the program, and whatever else is wrong with it:
checking reports an illegal `break` or `continue` for each one that no loop of the same function or
method is around, in the order in which they are written, and no others. -/
theorem Program.check_reports_signals (p : Program) :
    (match p.check with
      | .ok _     => []
      | .error es => es.filter (·.cause.isLoopSignal)) = p.looseSignals := by
  have reported := ((Signals.mapM Decl.check_signals p).emits .start).2
  have written : p.flatMap Decl.looseSignals = p.looseSignals := by
    rw [looseSignals, bodies, List.flatMap_assoc]
    rfl
  rw [written] at reported
  -- Where checking starts, nothing has been reported.
  have reported : ((p.mapM Decl.check) Checker.start).2.signals = p.looseSignals := reported
  rw [p.check_eq, ← reported]
  by_cases clean : ((p.mapM Decl.check) Checker.start).2.errors.isEmpty = true
  · rw [if_pos clean, Checker.signals, Array.isEmpty_iff.mp clean]
    rfl
  · rw [if_neg clean]
    rfl

end Brace
