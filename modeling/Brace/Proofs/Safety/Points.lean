import Brace.Proofs.Run.Calls
import Brace.Proofs.Safety.Origin
import Brace.Proofs.Safety.Site

/-!
# Safety — points that checking and a run come to

Checking comes to each piece of a program once, and a run comes to the pieces in an order of its own,
to some again and again. At a point, the same piece lies ahead of both: checking is in the state in
which it takes up the piece, and the run is in a machine in which it begins it. From one point to the
next, both get past the same pieces (`Point.Next`), so that of several pieces that read the same, a
point is at one of them. Declarations are run in the order in which they are checked; calls begin at
a point of their own, which is where checking has taken up the function (`Program.Comes`).

A run opens a frame where checking has opened one: at the points of functions, blocks and `for` loops
(`Program.Alike`).

* `Program.Comes`: the points that a run comes to.
* `Program.Evaluates`: the occurrence of an expression that a run evaluates.
-/

namespace Brace

open Eval

/-! ### From one point to the next -/

/-- What lies ahead of checking and of a run. -/
inductive Ahead where
  /-- Declarations of the program, with those that follow them. -/
  | decls (ds : List Decl)
  /-- A function that is called with these arguments, and the scope that its body sees. -/
  | func (f : FuncDecl) (scope : Handle) (args : List Value)
  /-- Variables and statements that share the current frame. -/
  | body (vs : List VarDecl) (ss : List Stmt)
  | stmt (s : Stmt)
  /-- A loop from the test of its condition on. -/
  | loop (cond : Expr) (update : Option Expr) (body : Stmt)
  | expr (e : Expr)

/-- A frame is opened here. -/
def Ahead.opens : Ahead → Bool
  | .func .. | .stmt (.block ..) | .stmt (.forLoop ..) => true
  | _ => false

structure Point where
  /-- The state in which checking takes up what lies ahead. -/
  checker : Checker
  ahead   : Ahead
  /-- The machine in which a run begins it. -/
  machine : Machine

/-- The state in which the body of a loop is taken up, where the condition is taken up in `c`. -/
def Checker.intoLoop (c : Checker) (cond : Expr) : Option Expr → Checker
  | some u => { (Check.update u (cond.checkCondition c).2).2 with inLoop := true }
  | none   => { (cond.checkCondition c).2 with inLoop := true }

/-- In one turn of a loop, its condition is true, and its body ends in a way that lets the loop go
on. -/
def Machine.Turns (m : Machine) (cond : Expr) (body : Stmt) (m' : Machine) : Prop :=
  ∃ v m₁ flow, (Job.expr cond).Answers m (.ok v) m₁ ∧ v.isTruthy = true ∧
    (Job.stmt body).Answers m₁ (.ok flow) m' ∧ (flow = .normal ∨ flow = .continueLoop)

namespace Point

/-- What a run is asked for at a point: what checking has made of the piece. -/
def job : Point → Option Job
  | ⟨c, .stmt s, _⟩ => some (.stmt (s.check c).1)
  | ⟨c, .loop cond update body, _⟩ => some (.loop (cond.check c).1.2
      (update.map fun u => (u.check (cond.checkCondition c).2).1.2) (body.check (c.intoLoop cond update)).1)
  | ⟨c, .expr e, _⟩ => some (.expr (e.check c).1.2)
  | ⟨_, .decls _, _⟩ | ⟨_, .func .., _⟩ | ⟨_, .body .., _⟩ => none

/-- From a point, the next is that of a piece inside, or that of what comes after. Checking has got
past the pieces in between, and so has the run, which each of them has let go on. -/
inductive Next : Point → Point → Prop where
  | decl {c : Checker} {d : Decl} {ds : List Decl} {m m' : Machine}
      (runs : ((d.check c).1.run m).Steps (.finished (.ok ()) m')) :
      Next ⟨c, .decls (d :: ds), m⟩ ⟨(d.check c).2, .decls ds, m'⟩
  | global {c : Checker} {v : VarDecl} {ds : List Decl} {e : Expr} {m : Machine}
      (init : v.init = some e) : Next ⟨c, .decls (.var v :: ds), m⟩ ⟨(v.announce c).2, .expr e, m⟩
  /-- The body of a function is entered when its parameters have got their values. -/
  | entered {c : Checker} {f : FuncDecl} {scope : Handle} {args : List Value} {m m' : Machine}
      (arity : args.length = f.arity)
      (binds : (bindParams (m.openFrame scope).1 f.pos f.params args (m.openFrame scope).2).Steps
        (.finished (.ok ()) m')) :
      Next ⟨c, .func f scope args, m⟩ ⟨(f.enter c).2, .body f.locals f.body,
        { m' with here := (m.openFrame scope).1, callDepth := m'.callDepth + 1 }⟩
  | var {c : Checker} {v : VarDecl} {vs : List VarDecl} {ss : List Stmt} {m m' : Machine}
      (runs : ((v.check c).1.run m).Steps (.finished (.ok ()) m')) :
      Next ⟨c, .body (v :: vs) ss, m⟩ ⟨(v.check c).2, .body vs ss, m'⟩
  | init {c : Checker} {v : VarDecl} {vs : List VarDecl} {ss : List Stmt} {e : Expr} {m : Machine}
      (init : v.init = some e) : Next ⟨c, .body (v :: vs) ss, m⟩ ⟨(v.announce c).2, .expr e, m⟩
  | first {c : Checker} {s : Stmt} {ss : List Stmt} {m : Machine} :
      Next ⟨c, .body [] (s :: ss), m⟩ ⟨c, .stmt s, m⟩
  | rest {c : Checker} {s : Stmt} {ss : List Stmt} {m m' : Machine}
      (runs : (Job.stmt (s.check c).1).Answers m (.ok .normal) m') :
      Next ⟨c, .body [] (s :: ss), m⟩ ⟨(s.check c).2, .body [] ss, m'⟩
  | block {c : Checker} {pos : Position} {vs : List VarDecl} {ss : List Stmt} {m : Machine} :
      Next ⟨c, .stmt (.block pos vs ss), m⟩ ⟨c.entered, .body vs ss, m.pushScope⟩
  | cond {c : Checker} {pos : Position} {cond : Expr} {s t : Stmt} {m : Machine} :
      Next ⟨c, .stmt (.ifElse pos cond s t), m⟩ ⟨c, .expr cond, m⟩
  | yes {c : Checker} {pos : Position} {cond : Expr} {s t : Stmt} {m m' : Machine} {w : Value}
      (is : (Job.expr (cond.check c).1.2).Answers m (.ok w) m') (holds : w.isTruthy = true) :
      Next ⟨c, .stmt (.ifElse pos cond s t), m⟩ ⟨(cond.checkCondition c).2, .stmt s, m'⟩
  | no {c : Checker} {pos : Position} {cond : Expr} {s t : Stmt} {m m' : Machine} {w : Value}
      (is : (Job.expr (cond.check c).1.2).Answers m (.ok w) m') (fails : w.isTruthy = false) :
      Next ⟨c, .stmt (.ifElse pos cond s t), m⟩
        ⟨(s.check (cond.checkCondition c).2).2, .stmt t, m'⟩
  | whileLoop {c : Checker} {pos : Position} {cond : Expr} {s : Stmt} {m : Machine} :
      Next ⟨c, .stmt (.whileLoop pos cond s), m⟩ ⟨c, .loop cond none s, m⟩
  | forVar {c : Checker} {pos : Position} {v : VarDecl} {e cond u : Expr} {s : Stmt} {m : Machine}
      (init : v.init = some e) : Next ⟨c, .stmt (.forLoop pos (.decl v) cond u s), m⟩
        ⟨(v.announce c.entered).2, .expr e, m.pushScope⟩
  | forExpr {c : Checker} {pos : Position} {e cond u : Expr} {s : Stmt} {m : Machine} :
      Next ⟨c, .stmt (.forLoop pos (.expr e) cond u s), m⟩ ⟨c.entered, .expr e, m.pushScope⟩
  | forLoop {c : Checker} {pos : Position} {init : ForInit} {cond u : Expr} {s : Stmt}
      {m m' : Machine}
      (runs : (runInit (init.check c.entered).1 m.pushScope).Steps (.finished (.ok ()) m')) :
      Next ⟨c, .stmt (.forLoop pos init cond u s), m⟩
        ⟨(init.check c.entered).2, .loop cond (some u) s, m'⟩
  | test {c : Checker} {cond : Expr} {u : Option Expr} {s : Stmt} {m : Machine} :
      Next ⟨c, .loop cond u s, m⟩ ⟨c, .expr cond, m⟩
  | turn {c : Checker} {cond : Expr} {u : Option Expr} {s : Stmt} {m m' : Machine} {w : Value}
      (is : (Job.expr (cond.check c).1.2).Answers m (.ok w) m') (holds : w.isTruthy = true) :
      Next ⟨c, .loop cond u s, m⟩ ⟨c.intoLoop cond u, .stmt s, m'⟩
  | again {c : Checker} {cond : Expr} {s : Stmt} {m m' : Machine}
      (turns : m.Turns (cond.check c).1.2 (s.check (c.intoLoop cond none)).1 m') :
      Next ⟨c, .loop cond none s, m⟩ ⟨c, .loop cond none s, m'⟩
  | update {c : Checker} {cond u : Expr} {s : Stmt} {m m' : Machine}
      (turns : m.Turns (cond.check c).1.2 (s.check (c.intoLoop cond (some u))).1 m') :
      Next ⟨c, .loop cond (some u) s, m⟩ ⟨(cond.checkCondition c).2, .expr u, m'⟩
  | updated {c : Checker} {cond u : Expr} {s : Stmt} {m m₁ m' : Machine} {w : Value}
      (turns : m.Turns (cond.check c).1.2 (s.check (c.intoLoop cond (some u))).1 m₁)
      (is : (Job.expr (u.check (cond.checkCondition c).2).1.2).Answers m₁ (.ok w) m') :
      Next ⟨c, .loop cond (some u) s, m⟩ ⟨c, .loop cond (some u) s, m'⟩
  | ret {c : Checker} {pos : Position} {e : Expr} {m : Machine} :
      Next ⟨c, .stmt (.ret pos (some e)), m⟩ ⟨c, .expr e, m⟩
  | expr {c : Checker} {pos : Position} {e : Expr} {m : Machine} :
      Next ⟨c, .stmt (.expr pos e), m⟩ ⟨c, .expr e, m⟩

end Point

/-! ### Frames that a function sees -/

/-- The frame has the names that mean something to checking. -/
def Forest.Has (s : Forest Value) (i : FrameId) (F : Names) : Prop :=
  ∀ x, (s.binding? i x).isSome = (F x).join.isSome

/-- The frame of the program has these names, which its declarations have given, and the one outside
has those that are predefined. The frame of the program may have got more. -/
structure Forest.Grounds (s : Forest Value) (p : Program) (T : Names) : Prop where
  top  : ∀ x known, T x = some (some known) →
    (s.binding? 1 x).isSome = true ∧ ∃ d ∈ p, d.name = x ∧ d.Makes known
  root : s.Has 0 Scene.predefinedNames

/-- The receiver of the methods of a class. -/
def ClassDecl.receiver (d : ClassDecl) : Names :=
  Names.empty.put "this" (some (.receiver (.object d.name)))

/-- The frames that a function sees of a run, besides its own, where checking has these frames with
the names of these levels. A method sees one more than a function does, where its receiver is. Where
there is a superclass, checking has it in that frame too, and a run has it in another. -/
inductive Program.Outside (p : Program) (checked : Checked) (s : Forest Value) :
    List Level → List FrameId → List FrameId → Prop where
  | top {T : Names} (grounds : s.Grounds checked.program T) :
      Outside p checked s [⟨T, false⟩, ⟨Scene.predefinedNames, false⟩] [1, 0] [1, 0]
  | method {T : Names} {c : Checker} {d : ClassDecl} {i : FrameId} (taken : (c, .cls d) ∈ p.moments)
      (this : s.Has i d.receiver) (grounds : s.Grounds checked.program T) :
      Outside p checked s [⟨d.receiver, false⟩, ⟨T, false⟩, ⟨Scene.predefinedNames, false⟩]
        [c.scopes.next, 1, 0] [i, 1, 0]
  | below {T : Names} {c : Checker} {d : ClassDecl} {info : ClassInfo} {i j : FrameId}
      (taken : (c, .cls d) ∈ p.moments) (this : s.Has i d.receiver)
      (super : s.Has j (Names.empty.put "super" (some (.cls info))))
      (grounds : s.Grounds checked.program T) :
      Outside p checked s [⟨d.receiver, true⟩, ⟨Names.empty.put "super" (some (.cls info)), false⟩,
        ⟨T, false⟩, ⟨Scene.predefinedNames, false⟩] [c.scopes.next, 1, 0] [i, j, 1, 0]

/-! ### Where a run comes to -/

/-- The points that checking of the program and a run of what it gives, from `m₀` on, come to. A
function that is called is one that checking has taken up, and sees what checking saw there. -/
inductive Program.Comes (p : Program) (checked : Checked) (m₀ : Machine) : Point → Prop where
  | start : Comes p checked m₀ ⟨.start, .decls p, m₀⟩
  | call {callee : Value} {args : List Value} {pos : Position} {g : Closure} {m m' : Machine}
      {c : Checker} {f : FuncDecl} {Γ : Scene} {ks : List FrameId}
      (runs : (checked.program.run m₀).Involves (.apply callee args pos) m)
      (enters : m.Enters callee g m') (moments : ∀ a ∈ f.moments c, a ∈ p.moments)
      (taken : f.checkBody.Taken c Γ ks) (made : g.decl = (f.checkBody c).1)
      (outside : p.Outside checked m'.scopes Γ.levels ks (m'.scopes.chain g.scope)) :
      Comes p checked m₀ ⟨c, .func f g.scope args, m'⟩
  | next {a b : Point} (comes : Comes p checked m₀ a) (step : a.Next b) : Comes p checked m₀ b

/-- The run evaluates this expression in the machine, which is part of what checking has made of the
expression that it takes up in `c`. -/
inductive Program.Evaluates (p : Program) (checked : Checked) (m₀ : Machine) (c : Checker) (e₀ : Expr) :
    Expr → Machine → Prop where
  | whole {m : Machine} (comes : p.Comes checked m₀ ⟨c, .expr e₀, m⟩) :
      Evaluates p checked m₀ c e₀ (e₀.check c).1.2 m
  | part {e a : Expr} {m m' : Machine} (h : Evaluates p checked m₀ c e₀ e m)
      (asks : ((Job.expr e).start m).AsksFor (.expr a) m') : Evaluates p checked m₀ c e₀ a m'

/-- The second frame has been opened in a run for the construct for which checking has opened the
first. Either gets the number that is next at the point of the construct. -/
inductive Program.Alike (p : Program) (checked : Checked) (m₀ : Machine) : FrameId → FrameId → Prop where
  | intro {a : Point} (comes : p.Comes checked m₀ a) (opens : a.ahead.opens = true) :
      Alike p checked m₀ a.checker.scopes.next a.machine.scopes.next

end Brace
