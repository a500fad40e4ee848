import Brace.Proofs.Loops.Sound
import Brace.Proofs.Loops.Turns

/-!
# Loops — what `for` stands for

`for (init; cond; update) body` is written for `{ init; while (cond) { body; update; } }`, where `body` has
no `continue` of its own, which would leave the update out. The two are evaluated by rules of their own,
and the `while` enters one more frame in each turn.

* `Stmt.forLoop_is_whileLoop`: they come to the same from any sound machine. The machines that sessions
  get to are sound (`Session.Reached.sound`).
-/

namespace Brace

open Eval Progress

variable {w w₁ : Matching} {m m' m₁ m₁' : Machine}

/-- A block that starts as a `for` does and then runs a statement. -/
def ForInit.before (init : ForInit) (p q : Position) (s : Stmt) : Stmt :=
  match init with
  | .decl v => .block p [v] [s]
  | .expr e => .block p [] [.expr q e, s]

/-- Where the parts of the block stand that is written for a `for`. -/
structure ForPlaces where
  block  : Position
  init   : Position
  loop   : Position
  body   : Position
  update : Position
  deriving Inhabited

/-- The block that is written for a `for`: it runs a `while` whose body ends in the update. -/
def Stmt.whileFor (places : ForPlaces) (init : ForInit) (cond update : Expr) (body : Stmt) : Stmt :=
  init.before places.block places.init
    (.whileLoop places.loop cond (.block places.body [] [body, .expr places.update update]))

/-- The block, for which the start of the `for` is done in place. -/
theorem ForInit.ends_before (init : ForInit) (p q : Position) (s : Stmt) :
    SameEnds (init.before p q s).start (inBlock p (runInit init >>= fun _ => s.exec)) := by
  cases init with
  | decl v =>
      refine .inBlock p ?_
      show SameEnds ((do v.run; pure ()) >>= fun _ => runStmts [s]) (v.run >>= fun _ => s.exec)
      rw [runStmts_singleton]
      simp only [bind_assoc, pure_bind]
      exact .refl _
  | expr e =>
      refine .inBlock p ?_
      show SameEnds (runStmts [.expr q e, s]) ((e.eval >>= fun _ => pure ()) >>= fun _ => s.exec)
      simp only [bind_assoc, pure_bind]
      rw [← runStmts_singleton s, runStmts]
      exact ends_expr q e

/-- From machines alike, the two loops come to the same. -/
theorem Eval.coincide_loops (cond update : Expr) {body : Stmt} (once : body.continues = false)
    (p u : Position) (h : m.Alike w m') :
    (ask (.loop cond (some update) body) m).Coincide (Ended w m m' Flow.Alike)
      (ask (.loop cond none (.block p [] [body, .expr u update])) m') := by
  have paired := Loops.paired_block cond update once p u
  -- To ask for a loop is to do its turns.
  have ends {cond : Expr} {update : Option Expr} {body : Stmt} {turn : Eval (Option Flow)}
      (e : loopTurn cond update body = turn >>= onward cond update body) {m m' : Machine}
      {r : Except Error Flow} :
      (ask (.loop cond update body) m).Steps (.finished r m') ↔ turn.Loops m r m' :=
    (SameEnds.ask (.loop cond update body) m r m').trans
      ((Job.answers_iff_steps ..).symm.trans (Job.answers_iff_loops e))
  constructor
  · intro r m₁ t
    obtain ⟨r', m₁', t', ended⟩ := Loops.forth paired ((ends (loopTurn_some cond update body)).mp t) h
    exact ⟨r', m₁', (ends (loopTurn_none cond _)).mpr t', ended⟩
  · intro r' m₁' t
    obtain ⟨r, m₁, t', ended⟩ := Loops.back paired ((ends (loopTurn_none cond _)).mp t) h
    exact ⟨r, m₁, (ends (loopTurn_some cond update body)).mpr t', ended⟩

/-- From machines alike, the two statements come to the same. -/
theorem Stmt.coincide_for (p : Position) (places : ForPlaces) (init : ForInit) (cond update : Expr)
    {body : Stmt} (once : body.continues = false) (h : m.Alike w m') :
    ((Stmt.forLoop p init cond update body).start m).Coincide (Ended w m m' Flow.Alike)
      ((whileFor places init cond update body).start m') := by
  refine Coincide.congr ?_ (init.ends_before places.block places.init (.whileLoop ..))
  obtain ⟨w₁, le, alike, here⟩ := h.pushScope
  have started : Abreast w₁ m.pushScope m'.pushScope Same (runInit init) (runInit init) :=
    .runInit init alike here
  -- Where the start fails, both leave the frame at once.
  have work : ((runInit init >>= fun _ => ask (.loop cond (some update) body)) m.pushScope).Coincide
      (Ended w₁ m.pushScope m'.pushScope Flow.Alike) ((runInit init >>= fun _ =>
        (whileLoop places.loop cond (.block places.body [] [body, .expr places.update update])).exec)
          m'.pushScope) := by
    refine started.coincide.andThen ?_
    rintro r m₁ r' m₁' ⟨s, hr⟩
    cases hr with
    | error e => exact .finished ⟨s, .error e⟩
    | ok _ =>
        have loops := coincide_loops cond update once places.body places.update s.alike
        exact (loops.congr (SameEnds.ask (.stmt (.whileLoop places.loop cond _)))).mono
          fun _ _ _ _ => .since s
  refine work.andThen ?_
  rintro r m₁ r' m₁' ⟨s, hr⟩
  simp only [Machine.popScope_of_restored s.left, Machine.popScope_of_restored s.right]
  exact .finished ⟨h.leave le s, hr⟩

/-- **A `for` is the `while` that it is written for.**  Where its body has no `continue` of its own, from
any sound machine, either both go on forever, or both come to an end: with the same failure or alike flows,
in the scope that they were started in, with the same left to read and the same written, and alike in every
frame, array and object, those that were there before each with itself. -/
theorem Stmt.forLoop_is_whileLoop {m : Machine} (sound : m.Sound) (p : Position) (places : ForPlaces)
    (init : ForInit) (cond update : Expr) {body : Stmt} (once : body.continues = false) :
    ((∀ r m₁, ¬ (Job.stmt (.forLoop p init cond update body)).Answers m r m₁) ∧
      ∀ r m₁, ¬ (Job.stmt (whileFor places init cond update body)).Answers m r m₁) ∨
    ∃ r m₁ r' m₁' w, (Job.stmt (.forLoop p init cond update body)).Answers m r m₁ ∧
      (Job.stmt (whileFor places init cond update body)).Answers m r' m₁' ∧
      Agree (Flow.Alike w) r r' ∧ m₁.here = m.here ∧ m₁'.here = m.here ∧ m₁.Alike w m₁' ∧
      ∀ i, i < m.scopes.next → w.pairs i i := by
  have both := coincide_for p places init cond update once sound.alike
  by_cases ends : ∃ r m₁, (Job.stmt (.forLoop p init cond update body)).Answers m r m₁
  · obtain ⟨r, m₁, answered⟩ := ends
    obtain ⟨r', m₁', t, s, hr⟩ := both.forth ((Job.answers_iff_steps ..).mp answered)
    refine .inr ⟨r, m₁, r', m₁', _, answered, (Job.answers_iff_steps ..).mpr t, hr, s.left.here,
      s.right.here, s.alike, fun i hi => s.later.pairs ⟨rfl, hi⟩⟩
  · refine .inl ⟨fun r m₁ answered => ends ⟨r, m₁, answered⟩, fun r' m₁' answered => ?_⟩
    obtain ⟨r, m₁, t, -⟩ := both.back ((Job.answers_iff_steps ..).mp answered)
    exact ends ⟨r, m₁, (Job.answers_iff_steps ..).mpr t⟩

/-! `for (int i = 0; i < 2; i += 1) printf("%d ", i);` -/

def countInit : ForInit := .decl ⟨.unknown, .int, "i", some (.literal .blank (.int 0))⟩
def countCond : Expr := .binary .blank .lt (.name .blank "i") (.literal .blank (.int 2))
def countUpdate : Expr := .compound .blank .add "i" (.literal .blank (.int 1))
def countBody : Stmt := .expr .unknown (.printf .blank (.literal .blank (.str "%d ")) [.name .blank "i"])

theorem Stmt.forLoop_is_whileLoop_count :
    (Machine.start .standard "").Sound ∧ countBody.continues = false ∧
    ∃ r m₁ r' m₁' w, (Job.stmt (.forLoop .unknown countInit countCond countUpdate countBody)).Answers
        (.start .standard "") r m₁ ∧
      (Job.stmt (whileFor default countInit countCond countUpdate countBody)).Answers
        (.start .standard "") r' m₁' ∧
      Agree (Flow.Alike w) r r' ∧ m₁.Alike w m₁' ∧ m₁.output = "0 1 " := by
  have sound := Machine.sound_start .standard ""
  have once : countBody.continues = false := rfl
  refine ⟨sound, once, ?_⟩
  have answered : (Job.stmt (.forLoop .unknown countInit countCond countUpdate countBody)).yields 12
      (.start .standard "") (fun _ m => m.output == "0 1 ") = true := by decide +kernel
  obtain ⟨flow, m₁, h, shown⟩ := Job.answers_of_yields answered
  rcases forLoop_is_whileLoop sound .unknown default countInit countCond countUpdate once with
    ⟨never, -⟩ | ⟨r, m₁', r', m₁'', w, h', h'', hr, -, -, alike, -⟩
  · exact absurd h (never _ _)
  · obtain ⟨rfl, rfl⟩ := h.unique h'
    exact ⟨_, m₁, r', m₁'', w, h, h'', hr, alike, beq_iff_eq.mp shown⟩

end Brace
