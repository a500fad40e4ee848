import Brace.Proofs.Classes.Jobs
import Brace.Proofs.Safety.Program

/-!
# Classes — what programs make

A declaration of a class makes one tier, on top of those of the class that it names. So wherever a run of
a program gets to, every class and every function that it has come to has been made as the program
makes it.

* `Program.makes_run`: a program keeps the contract from its start to its end.
* `Program.code_of_involves`: whatever a run asks for is asked for by some code, and if that is the body
  of a function, in a call of this function.
* `Progress.Comes`: the values that a run has come to.
* `Program.made_of_comes`: whatever they carry along has been made as the program makes it.
-/

namespace Brace

open Eval

variable {α : Type} {p : Program} {m : Machine}

/-! ### Declarations -/

/-- What the program declares is not reserved. -/
theorem Program.Unmentioned.decl {d : Decl} (hd : d ∈ p) (hx : .name d.name ∈ d.parts) :
    p.Unmentioned → ¬ Reserved d.name := fun hp =>
  hp (.name d.name) (List.mem_flatMap.mpr ⟨d, hd, hx⟩) _ (.head _)

/-- What is run when no call is under way. -/
def Code.outside : Code := ⟨none, 0⟩

/-- Between two declarations of a program. -/
structure Machine.Between (p : Program) (m : Machine) : Prop where
  made  : m.Made p
  here  : m.here.frame = 1
  depth : m.callDepth = 0

namespace Machine.Between

variable (h : m.Between p)

include h

/-- A declaration sees the frame of the program and the one of predefined names. -/
theorem chain : m.scopes.chain m.here = [1, 0] := h.made.based.chain h.here

/-- First values of variables are evaluated there, outside of all functions. -/
theorem code : Code.outside.At p m := ⟨h.made, h.depth, fun _ => ⟨nofun, [], h.chain, nofun⟩⟩

/-- After a declaration, the next may follow. -/
theorem later {m' : Machine} (hm : m.Leads p m') : m'.Between p :=
  ⟨hm.made h.made, (congrArg Handle.frame hm.here).trans h.here, hm.callDepth.trans h.depth⟩

/-- A function that is declared sees the frame of the program. -/
theorem defineFunction {f : FuncDecl} (hd : .func f ∈ p) :
    (defineFunction f).Makes p .outside m fun _ _ => True := by
  refine h.code.bind (R := fun g s => Value.Made p s (.function g))
    (.make (.newId m) fun _ => .function hd h.chain) fun g _ _ _ hg => ?_
  exact .define (Program.Unmentioned.decl hd (.head _)) (v := .function g) hg _

/-- The superclass that a declaration names has been made. -/
theorem superclassOf (d : ClassDecl) :
    (superclassOf d).Makes p .outside m fun cls s => ∀ c, cls = some c → c.Made p s := by
  simp only [Eval.superclassOf]
  split
  · refine h.code.bind (R := fun c s => c.Made p s) ?_ fun c _ _ _ hc => .pure (by
      rintro _ ⟨⟩
      exact hc)
    refine h.code.bind (.lookup h.made _ _) fun v _ _ _ hv => ?_
    cases v with
    | cls c => exact .pure hv
    | _ => exact .fail _ _
  · exact .pure (by rintro _ ⟨⟩)

/-- From the scope that the methods of a class get, they see the superclass. -/
theorem methodScope {superclass : Option Class} (hs : ∀ c, superclass = some c → c.Made p m.scopes) :
    (methodScope superclass).Makes p .outside m fun scope s =>
      ∀ t : Tier, t.scope = scope → t.Seated s (inheritedTiers superclass) := by
  cases superclass with
  | none =>
      refine .view fun t ht => ?_
      show m.scopes.chain t.scope = [1, 0]
      rw [ht]
      exact h.chain
  | some c =>
      exact .make (f := (·.superFrame c)) (.superFrame m (hs c rfl)) fun t ht =>
        Tier.seated_superFrame h.made h.here c ht

/-- A class that is declared has a new tier on top of those that it inherits. -/
theorem defineClass {d : ClassDecl} (hd : .cls d ∈ p) :
    (defineClass d).Makes p .outside m fun _ _ => True := by
  refine h.code.bind (h.superclassOf d) fun superclass m₁ h₁ at₁ hs => ?_
  have between₁ := h.later h₁
  refine at₁.bind (between₁.methodScope hs) fun scope m₂ h₂ at₂ seated => ?_
  refine at₂.bind (R := fun _ s => s = m₂.scopes) (.make (.newId m₂) rfl) fun id m₃ h₃ _ _ => ?_
  refine .define (Program.Unmentioned.decl hd (.head _)) ?_ _
  -- The tier of the declaration is on top of those that it inherits.
  have inherited : Lineage p m₃.scopes (inheritedTiers superclass) := by
    cases superclass with
    | none => trivial
    | some c =>
        have hc : Value.Made p m₂.scopes (.cls c) := Value.Made.later at₁ h₂ (hs c rfl)
        exact hc.later at₂ h₃
  refine ⟨⟨d, hd, rfl, rfl⟩, fun hp => ?_, inherited⟩
  exact h₃.rests.seated hp at₂.made.based (seated _ rfl)

/-- What a declaration makes. -/
theorem decl {d : Decl} (hd : d ∈ p) : d.run.Makes p .outside m fun _ _ => True := by
  cases d with
  | var v => exact h.code.var fun a ha => List.mem_flatMap.mpr ⟨_, hd, ha⟩
  | func f => exact h.defineFunction hd
  | cls d => exact h.defineClass hd

/-- Showing the result makes nothing. -/
theorem echo (v : Value) : (echo v).Makes p .outside m fun _ _ => True := by
  refine h.code.bind (R := fun _ _ => True) (.view trivial) fun shown _ _ at₁ _ => ?_
  split
  · exact at₁.bind (.textOf v) fun _ m₂ _ _ _ => .change (.io m₂ _ _)
  · exact .pure trivial

end Machine.Between

/-! ### Programs -/

/-- A program keeps the contract from its start to its end. -/
theorem Program.makes_run (h : m.Between p) :
    (Program.run p).Makes p .outside m fun v s => Value.Made p s v := by
  simp only [Program.run]
  split
  · exact .fail _ _
  · split
    · have decls : (p.forM Decl.run).Makes p .outside m fun _ _ => True :=
        h.code.forM fun d hd m₁ h₁ _ => (h.later h₁).decl hd
      refine h.code.bind decls fun _ m₁ h₁ at₁ _ => ?_
      refine at₁.bind (.lookup at₁.made _ _) fun entry m₂ h₂ at₂ he => ?_
      refine at₂.bind (.ask at₂ (j := .apply entry [] _) (by rintro _ ⟨⟩) ⟨he, by rintro _ ⟨⟩⟩) fun v m₃ h₃ at₃ hv => ?_
      have between₃ := ((h.later h₁).later h₂).later h₃
      exact at₃.bind (between₃.echo v) fun _ _ h₄ _ _ => .pure (Value.Made.later at₃ h₄ hv)
    · exact .fail _ _

/-- Where nothing has been run before, a program may be run. -/
theorem Machine.Between.start (p : Program) (settings : Settings) (stdin : String) :
    (Machine.start settings stdin).Between p := ⟨.start settings stdin, rfl, rfl⟩

/-- A program keeps the contract where nothing has been run before. -/
theorem Program.makes_start (p : Program) (settings : Settings) (stdin : String) :
    (Program.run p (.start settings stdin)).Meets p.made fun r m =>
      m.Made p ∧ ∀ v, r = .ok v → v.Made p m.scopes := by
  have between := Machine.Between.start p settings stdin
  exact Progress.Meets.mono (fun _ _ h => ⟨h.1.made between.made, h.2⟩)
    (Progress.Meets.of_having (Program.makes_run between))

/-! ### What code is run -/

/-- The code that is run is the code that asks. -/
theorem Eval.Makes.asks {c : Code} {R : α → Forest Value → Prop} {x : Eval α} (h : x.Makes p c m R)
    {j : Job} {m' : Machine} (asks : (x m).AsksFor j m') : p.made.pre c j m' := by
  obtain ⟨c', pre, same⟩ := Progress.Meets.asks asks h fun _ _ _ _ _ _ pre answers =>
    p.made_kept.answers pre.1 answers
  cases same
  exact pre

/-- Whatever a run asks for is asked for by some code. Where that is the body of a function, a call of
this function is under way. -/
theorem Program.code_of_involves {settings : Settings} {stdin : String} {j : Job} {m : Machine}
    (comes : (p.run (.start settings stdin)).Involves j m) : ∃ c : Code, p.made.pre c j m ∧
      ∀ g, c.body = some g → (p.run (.start settings stdin)).InCallOf g j m := by
  induction comes with
  | itself asks => exact ⟨_, (Program.makes_run (.start p settings stdin)).asks asks, nofun⟩
  | @within j j' m m' comes asks ih =>
      obtain ⟨c, ⟨at', inside, given⟩, under⟩ := ih
      cases j with
      | apply callee args pos =>
          obtain ⟨g, m₁, enters, begun⟩ := asks_of_applyTo asks
          have makes : (applyTo callee args pos).Makes p ⟨some g, m.callDepth + 1⟩ m _ :=
            at'.applyTo given.1 given.2 (fun g' m₂ enters' => by rw [(enters.eq enters').1]) pos
          have pre := makes.asks asks
          refine ⟨_, pre, ?_⟩
          rintro _ ⟨⟩
          exact ⟨callee, args, pos, m, m₁, comes, enters, .itself begun, pre.1.depth⟩
      | _ =>
          have pre := (at'.start inside nofun).asks asks
          exact ⟨c, pre, fun g e => (under g e).within asks (pre.1.depth.trans at'.depth.symm)⟩

/-! ### What a run has come to -/

/-- The run has come to the value: it is stored, or about to be called or passed on in a call, or what it
waits for gives it, or it is the result. -/
inductive Progress.Comes : Progress Value → Value → Prop where
  | stored {q : Progress Value} {m : Machine} {v : Value} (e : q.machine? = some m)
      (h : m.Stores v) : q.Comes v
  | called {callee : Value} {args : List Value} {pos : Position} {m : Machine}
      {resume : Except Error Value → Machine → Progress Value} :
      (Progress.waiting (.apply callee args pos) m resume).Comes callee
  | passed {callee v : Value} {args : List Value} {pos : Position} {m : Machine}
      {resume : Except Error Value → Machine → Progress Value} (h : v ∈ args) :
      (Progress.waiting (.apply callee args pos) m resume).Comes v
  | evaluated {e : Expr} {v : Value} {m m' : Machine}
      {resume : Except Error Value → Machine → Progress Value}
      (h : (Job.expr e).Answers m (.ok v) m') : (Progress.waiting (.expr e) m resume).Comes v
  | returned {callee v : Value} {args : List Value} {pos : Position} {m m' : Machine}
      {resume : Except Error Value → Machine → Progress Value}
      (h : (Job.apply callee args pos).Answers m (.ok v) m') :
      (Progress.waiting (.apply callee args pos) m resume).Comes v
  | result {v : Value} {m : Machine} : (Progress.finished (.ok v) m).Comes v

/-- Whatever the values carry along that a run has come to, it has been made as the program makes it. -/
theorem Program.made_of_comes {settings : Settings} {stdin : String} {q : Progress Value}
    (hq : (p.run (.start settings stdin)).Steps q) {v : Value} (hv : q.Comes v) :
    ∃ s, v.Made p s := by
  have met := (p.makes_start settings stdin).steps p.made_kept hq
  cases hv with
  | @stored q m v e h =>
      have made : m.Made p := by
        cases q with
        | finished r m' =>
            cases e
            exact met.1
        | waiting j m' resume =>
            cases e
            obtain ⟨c, ⟨at', -⟩, -⟩ := met
            exact at'.made
        | endless => cases e
      exact ⟨m.scopes, made.stored v h⟩
  | called =>
      obtain ⟨c, ⟨-, -, given⟩, -⟩ := met
      exact ⟨_, given.1⟩
  | passed h =>
      obtain ⟨c, ⟨-, -, given⟩, -⟩ := met
      exact ⟨_, given.2 _ h⟩
  | evaluated h =>
      obtain ⟨c, pre, -⟩ := met
      exact ⟨_, (p.made_kept.answers pre h).2 _ rfl⟩
  | returned h =>
      obtain ⟨c, pre, -⟩ := met
      exact ⟨_, (p.made_kept.answers pre h).2 _ rfl⟩
  | result => exact ⟨_, met.2 _ rfl⟩

end Brace
