import Brace.Proofs.Run.Returns
import Brace.Proofs.Safety.Start

/-!
# Safety — how calls end

Checking takes a function that gives something only if its body always returns, and takes a `break`
or `continue` only in a loop of the same function. What it has looked at is the text of the body;
what follows is about every call of the function, whatever the machine.

* `calls_return`: a function that gives something ends by a `return` with a value.
* `check_contains_signals`: checking reports the loop signals that are in no loop, and in an accepted
  program none gets out of a function.
-/

namespace Brace

open Eval

variable {K : Table ClassInfo} {Γ : Scene}

/-! ### Sound bodies -/

/-- An `init` clause is in the function that it is written in. -/
theorem Scene.function_afterInit (Γ : Scene) (init : ForInit) :
    (Γ.afterInit init).function = Γ.function := by
  cases init <;> rfl

namespace Stmt

mutual

/-- Outside of loops, what is sound has no loose signals. -/
theorem Sound.contained : ∀ {s : Stmt} {Γ : Scene}, s.Sound K Γ → Γ.inLoop = false →
    s.looseSignals = []
  | .block .., Γ, h, out => by
      rw [looseSignals]
      exact SoundAll.contained h.2 ((Scene.inLoop_declareAll _ Γ.enter).trans out)
  | .ifElse .., _, h, out => by
      rw [looseSignals, Sound.contained h.2.1 out, Sound.contained h.2.2 out]
      rfl
  | .whileLoop .., _, _, _ => by rw [looseSignals]
  | .forLoop .., _, _, _ => by rw [looseSignals]
  | .ret _ (some _), _, _, _ => by rw [looseSignals]
  | .ret _ none, _, _, _ => by rw [looseSignals]
  | .breakLoop _, _, h, out => nomatch out.symm.trans h
  | .continueLoop _, _, h, out => nomatch out.symm.trans h
  | .expr .., _, _, _ => by rw [looseSignals]
  | .empty _, _, _, _ => by rw [looseSignals]

/-- Statements outside of loops have no loop signals that are loose. -/
theorem SoundAll.contained : ∀ {ss : List Stmt} {Γ : Scene}, SoundAll K Γ ss → Γ.inLoop = false →
    looseSignalsOf ss = []
  | [], _, _, _ => by rw [looseSignalsOf]
  | _ :: _, _, h, out => by
      rw [looseSignalsOf, Sound.contained h.1 out, SoundAll.contained h.2 out]
      rfl

end

mutual

/-- In a function that gives something, each sound `return` gives a value. -/
theorem Sound.valued : ∀ {s : Stmt} {Γ : Scene}, s.Sound K Γ →
    (∀ f, Γ.function = some f → f.returns ≠ .void) → Valued s.substmts
  | .block .., Γ, h, gives => by
      rw [substmts]
      refine .cons nofun (SoundAll.valued h.2 ?_)
      rw [Scene.function_declareAll]
      exact gives
  | .ifElse .., _, h, gives => by
      rw [substmts]
      exact .cons nofun ((Sound.valued h.2.1 gives).append (Sound.valued h.2.2 gives))
  | .whileLoop .., _, h, gives => by
      rw [substmts]
      exact .cons nofun (Sound.valued h.2 gives)
  | .forLoop .., Γ, h, gives => by
      rw [substmts]
      refine .cons nofun (Sound.valued h.2.2.2 fun f hf => gives f ?_)
      exact (Scene.function_afterInit Γ.enter _).symm.trans hf
  | .ret _ (some _), _, _, _ => by
      rw [substmts]
      exact .cons nofun nofun
  | .ret _ none, _, h, gives => by
      obtain ⟨f, hf, void⟩ := h
      exact absurd void (gives f hf)
  | .breakLoop _, _, _, _ => by
      rw [substmts]
      exact .cons nofun nofun
  | .continueLoop _, _, _, _ => by
      rw [substmts]
      exact .cons nofun nofun
  | .expr .., _, _, _ => by
      rw [substmts]
      exact .cons nofun nofun
  | .empty _, _, _, _ => by
      rw [substmts]
      exact .cons nofun nofun

/-- In a function that gives something, each `return` gives a value. -/
theorem SoundAll.valued : ∀ {ss : List Stmt} {Γ : Scene}, SoundAll K Γ ss →
    (∀ f, Γ.function = some f → f.returns ≠ .void) → Valued (substmtsOf ss)
  | [], _, _, _ => nofun
  | _ :: _, _, h, gives => by
      rw [substmtsOf]
      exact (Sound.valued h.1 gives).append (SoundAll.valued h.2 gives)

end

end Stmt

namespace FuncDecl.Sound

variable {f : FuncDecl}

/-- The body of a function has no loop signals that are loose. -/
theorem contained (h : f.Sound K Γ) : Stmt.looseSignalsOf f.body = [] :=
  h.body.contained (Scene.inLoop_declareAll f.locals (Γ.ofFunction f))

/-- The body of a function that gives something gives a value by each `return`. -/
theorem valued (h : f.Sound K Γ) (gives : f.returns ≠ .void) :
    Valued (Stmt.substmtsOf f.body) := by
  refine h.body.valued ?_
  rw [Scene.function_declareAll]
  rintro _ ⟨⟩
  exact gives

/-- The body of a function that gives something always returns. -/
theorem always (h : f.Sound K Γ) (gives : f.returns ≠ .void) :
    Stmt.anyReturns f.body = true := h.returns.resolve_left gives

end FuncDecl.Sound

/-- Each of the bodies that a program declares has been found to be sound. -/
theorem Decl.SoundAll.bodies : ∀ {ds : List Decl} {Γ : Scene}, Decl.SoundAll K Γ ds →
    ∀ f ∈ Program.bodies ds, ∃ Γ', f.Sound K Γ'
  | d :: ds, Γ, h, f, hf => by
      rw [Program.bodies, List.flatMap_cons, List.mem_append] at hf
      rcases hf with hf | hf
      · cases d with
        | var v => cases hf
        | func g =>
            cases List.mem_singleton.mp hf
            exact ⟨_, h.1.2⟩
        | cls d => exact ⟨_, h.1.methods f hf⟩
      · exact SoundAll.bodies h.2 f hf

/-- The functions and methods of an accepted program are sound. -/
theorem Program.sound_of_bodies {p : Program} {checked : Checked} (h : p.check = .ok checked)
    {f : FuncDecl} (hf : f ∈ checked.program.bodies) : ∃ Γ, f.Sound p.classes Γ :=
  (sound_of_check h).bodies f hf

/-! ### Calls -/

section

variable {p : Program} {checked : Checked}

/-- **Calls return.**  A call of a function or a method that gives something ends, unless it fails,
by a `return` of its own body, and what it gives is the value of the expression there. -/
theorem calls_return (h : p.check = .ok checked) {f : Closure}
    (declared : f.decl ∈ checked.program.bodies) (gives : f.decl.returns ≠ .void)
    {args : List Value} {m m' : Machine} {v : Value}
    (ends : (callClosure f args m).Steps (.finished (.ok v) m')) :
    (callClosure f args m).ReturnsBy (Stmt.substmtsOf f.decl.body) (m.callDepth + 1) v (.ok v)
      m' := by
  obtain ⟨Γ, sound⟩ := Program.sound_of_bodies h declared
  exact callClosure_returns sound.contained (sound.always gives) (sound.valued gives) ends

/-- `int f(int n) { while (true) { if (n < 1) return 7; n--; } return 0; }`
`int main() { return f(1); }` -/
def returning : Program := [.func ⟨.ofLine 1, .int, "f", [⟨.int, "n"⟩], [],
    [.whileLoop (.ofLine 1) (.literal .blank (.bool true)) (.block (.ofLine 1) []
      [.ifElse (.ofLine 1) (.binary .blank .lt (.name .blank "n") (.literal .blank (.int 1)))
        (.ret (.ofLine 1) (some (.literal .blank (.int 7)))) (.empty (.ofLine 1)),
      .expr (.ofLine 1) (.step .blank .postDec (.name .blank "n"))]),
    .ret (.ofLine 1) (some (.literal .blank (.int 0)))]⟩,
  .func ⟨.ofLine 2, .int, "main", [], [], [.ret (.ofLine 2)
    (some (.call .blank (.name .blank "f") [.literal .blank (.int 1)]))]⟩]

/-- The call ends in the loop. -/
theorem calls_return_loop : ∃ checked, returning.check = .ok checked ∧ ∃ f m m',
    f.decl ∈ checked.program.bodies ∧ f.decl.returns ≠ .void ∧
    (callClosure f [.int 1] m).Steps (.finished (.ok (.int 7)) m') ∧
    (callClosure f [.int 1] m).ReturnsBy (Stmt.substmtsOf f.decl.body) (m.callDepth + 1)
      (.int 7) (.ok (.int 7)) m' := by
  have accepted : returning.admits (fun checked => checked.program.bodies.head?.any fun f =>
      let m := Machine.start .standard ""
      f.returns == .int && ((callClosure ⟨0, f, m.here⟩ [.int 1]).run 12 m).any
        fun x => x.1.toOption.any (·.isInt 7)) = true := by decide +kernel
  obtain ⟨checked, hc, test⟩ := Program.of_admits accepted
  obtain ⟨f, first, test⟩ := (Option.any_eq_true ..).mp test
  rw [Bool.and_eq_true, beq_iff_eq, Option.any_eq_true] at test
  obtain ⟨int, ⟨r, m'⟩, ends, seven⟩ := test
  have declared : f ∈ checked.program.bodies := List.mem_of_head? first
  have gives : f.returns ≠ .void := by
    rw [int]
    nofun
  cases Value.ok_of_isInt seven
  have steps := steps_of_run ends
  exact ⟨checked, hc, _, _, m', declared, gives, steps, calls_return hc declared gives steps⟩

/-! ### Loop signals -/

/-- **Loop signals.**  Checking reports each `break` and `continue` that is in no loop of its
function, and none that is in one. So where a program is accepted, no body of a function or a method
ends by one, and no run of the program, nor anything that is done on the way, fails because one has
got out of a function. -/
theorem check_contains_signals (p : Program) :
    (match p.check with
      | .ok _     => []
      | .error es => es.filter (·.cause.isLoopSignal)) = p.looseSignals ∧
    ∀ checked, p.check = .ok checked →
      (∀ f ∈ checked.program.bodies, ∀ m flow m',
        (runBody f.locals f.body m).Steps (.finished (.ok flow) m') →
          flow ≠ .breakLoop ∧ flow ≠ .continueLoop) ∧
      ∀ settings stdin q, (checked.program.run (.start settings stdin)).Steps q →
        (∀ e m, q = .finished (.error e) m →
          ∀ reason, e.cause = .internalError reason → ¬ Escaped reason) ∧
        ∀ j m resume, q = .waiting j m resume → ∀ e m', j.Answers m (.error e) m' →
          ∀ reason, e.cause = .internalError reason → ¬ Escaped reason := by
  refine ⟨p.check_reports_signals, fun checked h => ⟨fun f hf m flow m' ends => ?_, ?_⟩⟩
  · obtain ⟨Γ, sound⟩ := Program.sound_of_bodies h hf
    exact runBody_contained sound.contained ends
  · intro settings stdin q hq
    have left := (Program.ends_run h settings stdin).steps (sound_kept _) hq
    refine ⟨?_, ?_⟩
    · rintro e m rfl reason he
      obtain ⟨W, -, allowed⟩ := left
      exact (allowed.internal reason he).contained
    · rintro j m resume rfl e m' answers reason he
      obtain ⟨W, Γ, -, answered⟩ := left.asked
      obtain ⟨-, W', -, allowed⟩ := answered _ _ answers
      exact (allowed.internal reason he).contained

/-- `int f() { while (true) break; <body> return 1; }` `int main() { return f(); }` -/
def breaking (body : List Stmt) : Program := [.func ⟨.ofLine 1, .int, "f", [], [],
    .whileLoop (.ofLine 1) (.literal .blank (.bool true)) (.breakLoop (.ofLine 1)) :: body ++
      [.ret (.ofLine 1) (some (.literal .blank (.int 1)))]⟩,
  .func ⟨.ofLine 2, .int, "main", [], [], [.ret (.ofLine 2)
    (some (.call .blank (.name .blank "f") []))]⟩]

/-- Two signals that are in no loop are reported, and the one that is in a loop stays in it. -/
theorem check_contains_signals_breaking :
    (∃ es, (breaking [.breakLoop (.ofLine 3), .block (.ofLine 4) [] [.continueLoop (.ofLine 5)]]).check =
        .error es ∧ es.filter (·.cause.isLoopSignal) =
      [⟨.illegalBreakOrContinue "break", .ofLine 3⟩,
        ⟨.illegalBreakOrContinue "continue", .ofLine 5⟩]) ∧
    ∃ checked, (breaking []).check = .ok checked ∧ ∃ f ∈ checked.program.bodies, ∃ m flow m',
      (runBody f.locals f.body m).Steps (.finished (.ok flow) m') ∧
      flow ≠ .breakLoop ∧ flow ≠ .continueLoop := by
  constructor
  · have reported := (check_contains_signals
      (breaking [.breakLoop (.ofLine 3), .block (.ofLine 4) [] [.continueLoop (.ofLine 5)]])).1
    split at reported
    · cases reported
    · rename_i es e
      exact ⟨es, e, reported⟩
  · have accepted : (breaking []).admits (fun checked => match checked.program.bodies with
        | f :: _ => ((runBody f.locals f.body).run 12 (.start .standard "")).any fun x =>
            match x.1 with
            | .ok _    => true
            | .error _ => false
        | [] => false) = true := by decide +kernel
    obtain ⟨checked, hc, test⟩ := Program.of_admits accepted
    split at test
    · rename_i f fs bodies
      obtain ⟨⟨r, m'⟩, ends, fine⟩ := (Option.any_eq_true _ _).mp test
      have declared : f ∈ checked.program.bodies := bodies ▸ List.mem_cons_self
      split at fine
      · rename_i flow e
        cases e
        have steps := steps_of_run ends
        have contained := ((check_contains_signals (breaking [])).2 checked hc).1 f declared
        exact ⟨checked, hc, f, declared, _, flow, m', steps, contained _ flow m' steps⟩
      · cases fine
    · cases test

end

end Brace
