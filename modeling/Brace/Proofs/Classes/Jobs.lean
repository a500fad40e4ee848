import Brace.Proofs.Classes.Pieces
import Brace.Proofs.Run.Calls

/-!
# Classes — what jobs make

Every job keeps the contract of the pieces: expressions and statements ask for what is inside them, in
the code that they are part of, and a call asks for the body of a function, which is code of its own.

* `Program.made_kept`: every job keeps the contract.
-/

namespace Brace

open Eval

variable {p : Program} {c c₀ : Code} {m : Machine}

/-- The object of the place has been made. -/
def Eval.Place.Made (p : Program) (s : Forest Value) : Place → Prop
  | .field o _ => o.cls.Made p s
  | _          => True

/-- What is read from the input is plain. -/
theorem Specifier.made_of_read {s : Specifier} {word : List Char} {v : Value}
    (e : s.read word = some v) {t : Forest Value} : v.Made p t := by
  cases s <;> simp only [read, Option.map_eq_some_iff, Option.some.injEq] at e
  · obtain ⟨n, -, rfl⟩ := e
    trivial
  · obtain ⟨x, -, rfl⟩ := e
    trivial
  · subst e
    trivial

namespace Code.At

variable (at' : c.At p m)

include at'

/-! ### Names of the code -/

/-- What is a name in the code is not reserved. -/
theorem unreserved {a : Part} (ha : a ∈ c.parts p) {x : String} (hx : x ∈ a.mentions) :
    p.Unmentioned → ¬ Reserved x := fun hp => hp a ((at'.holds hp).parts a ha) x hx

/-- What the code assigns to is not reserved. -/
theorem unassigned {e : Expr} (he : ∀ a ∈ e.parts, a ∈ c.parts p) {x : String}
    (hx : x ∈ e.assigned) : p.Unmentioned → ¬ Reserved x := by
  obtain ⟨s, hs, hx⟩ := Expr.mentioned_of_assigned hx
  exact at'.unreserved (he _ (List.mem_map_of_mem hs)) hx

/-! ### Expressions inside expressions -/

/-- An expression inside the code may be evaluated. -/
theorem eval {e : Expr} (he : ∀ a ∈ e.parts, a ∈ c.parts p) :
    e.eval.Makes p c m fun v s => Value.Made p s v := .ask at' (j := .expr e) he trivial

/-- Expressions inside the code may be evaluated one after another. -/
theorem evalAll {es : List Expr} (h : ∀ e ∈ es, ∀ a ∈ e.parts, a ∈ c.parts p) :
    (es.mapM Expr.eval).Makes p c m fun vs s => ∀ v ∈ vs, Value.Made p s v := by
  induction es generalizing m with
  | nil =>
      rw [List.mapM_nil]
      exact .pure nofun
  | cons e es ih =>
      obtain ⟨he, hes⟩ := List.forall_mem_cons.mp h
      rw [List.mapM_cons]
      refine at'.bind (at'.eval he) fun v m₁ h₁ at₁ hv => at₁.bind (ih at₁ hes) ?_
      exact fun vs m₂ h₂ at₂ hvs => .pure (List.forall_mem_cons.mpr ⟨hv.later at₁ h₂, hvs⟩)

/-- The place that a target stands for is in an object that has been made, or it is a variable that the
target names. -/
theorem place {target : Expr} (h : ∀ t ∈ target.children, ∀ a ∈ t.parts, a ∈ c.parts p) :
    (place target).Makes p c m fun here s =>
      here.Made p s ∧ ∀ x, here = .var x → x ∈ target.named := by
  have only {e : Expr} (he : target.children = [e]) : ∀ a ∈ e.parts, a ∈ c.parts p :=
    h e (he ▸ .head _)
  cases target with
  | name n x =>
      refine .pure ⟨trivial, ?_⟩
      rintro _ ⟨⟩
      exact .head _
  | index n x i =>
      exact at'.bind (at'.lookupArray _ _) fun _ _ _ at₁ _ =>
        at₁.bind (at₁.eval (only rfl)) fun _ _ _ at₂ _ =>
          at₂.bind (.expectInt _ _) fun _ _ _ _ _ => .pure ⟨trivial, nofun⟩
  | get n o x =>
      exact at'.bind (at'.eval (only rfl)) fun _ _ _ at₁ hv =>
        at₁.bind (at₁.expectObject hv _) fun _ _ _ _ ho => .pure ⟨ho.2, nofun⟩
  | _ => exact .fail _ _

/-- What a place holds has been made. -/
theorem read {here : Place} (h : here.Made p m.scopes) (pos : Position) :
    (here.read pos).Makes p c m fun v s => Value.Made p s v := by
  cases here with
  | var x => exact .lookup at'.made x pos
  | element id i => exact .element at'.made id i pos
  | field o x => exact at'.property h x pos

end Code.At

/-- What is stored in a variable is stored under a name that is not reserved. -/
theorem Eval.Makes.write {here : Place} (hx : ∀ x, here = .var x → p.Unmentioned → ¬ Reserved x)
    {v : Value} (hv : v.Made p m.scopes) (pos : Position) :
    (here.write v pos).Makes p c m fun _ _ => True := by
  cases here with
  | var x => exact .assign (hx x rfl) hv pos
  | element id i => exact .setElement id i hv pos
  | field o x => exact .setField o x hv

namespace Code.At

variable (at' : c.At p m)

include at'

/-- A step stores a number in a place of the code, and gives what was there or what is now. -/
theorem step (form : StepForm) {target : Expr}
    (h : ∀ t ∈ target.children, ∀ a ∈ t.parts, a ∈ c.parts p)
    (hx : ∀ x ∈ target.named, p.Unmentioned → ¬ Reserved x) :
    (step form target).Makes p c m fun v s => Value.Made p s v := by
  refine at'.bind (at'.place h) fun here m₁ h₁ at₁ ⟨made, named⟩ => ?_
  refine at₁.bind (at₁.read made _) fun old m₂ h₂ at₂ hold => ?_
  have settled := (Value.stepped_settles form old).mono fun _ _ => Value.isPlain_of_isScalar
  refine at₂.bind (R := fun v s => Value.Made p s v) (.ofExcept _ settled.made)
    fun new m₃ h₃ at₃ hnew => ?_
  refine at₃.bind (.write (fun x e => hx x (named x e)) hnew _) fun _ m₄ h₄ at₄ _ => .pure ?_
  split
  · exact hnew.later at₃ h₄
  · exact (hold.later at₂ h₃).later at₃ h₄

/-- To fill a template, what it takes is evaluated. -/
theorem formatted {format : Expr} {args : List Expr}
    (h : ∀ e ∈ format :: args, ∀ a ∈ e.parts, a ∈ c.parts p) :
    (formatted format args).Makes p c m fun _ _ => True := by
  obtain ⟨hf, ha⟩ := List.forall_mem_cons.mp h
  refine at'.bind (at'.eval hf) fun _ _ _ at₁ _ => at₁.bind (.expectString _ _) fun _ _ _ at₂ _ =>
    at₂.bind (at₂.evalAll ha) fun _ _ _ at₃ _ =>
      at₃.bind (R := fun _ _ => True) (.view trivial) fun filled _ _ _ _ => ?_
  cases filled with
  | some r => exact .ofExcept _ fun _ _ => trivial
  | none => exact .endless

/-- What is read from the input is stored in a place of the code. -/
theorem scanInto (pos : Position) (s : Specifier) {target : Expr}
    (h : ∀ t ∈ target.children, ∀ a ∈ t.parts, a ∈ c.parts p)
    (hx : ∀ x ∈ target.named, p.Unmentioned → ¬ Reserved x) :
    (scanInto pos s target).Makes p c m fun _ _ => True := by
  refine at'.bind (R := fun _ _ => True) (.make (.io m _ _) trivial) fun word _ _ at₁ _ => ?_
  cases word with
  | none => exact .fail _ pos
  | some word =>
      dsimp only
      split
      · rename_i v e
        exact at₁.bind (at₁.place h) fun here _ _ _ ⟨_, named⟩ =>
          .write (fun x e => hx x (named x e)) (Specifier.made_of_read e) _
      · exact .fail _ pos

/-- Words are read for one target after another. -/
theorem scan (pos : Position) (template : String) {targets : List Expr}
    (h : ∀ t ∈ targets, ∀ e ∈ t.children, ∀ a ∈ e.parts, a ∈ c.parts p)
    (hx : ∀ t ∈ targets, ∀ x ∈ t.named, p.Unmentioned → ¬ Reserved x) :
    (scan pos template targets).Makes p c m fun _ _ => True := by
  simp only [Eval.scan]
  split
  · refine at'.forM (f := fun x : Specifier × Expr => Eval.scanInto pos x.1 x.2)
      fun x hmem m₁ _ at₁ => ?_
    have inside := (List.of_mem_zip hmem).2
    exact at₁.scanInto pos x.1 (h x.2 inside) (hx x.2 inside)
  · exact .fail _ pos

/-! ### Expressions -/

/-- What the evaluation of an expression makes. -/
theorem expr {e : Expr} (he : ∀ a ∈ e.parts, a ∈ c.parts p) :
    e.start.Makes p c m fun v s => Value.Made p s v := by
  have inner : ∀ t ∈ e.children, ∀ a ∈ t.parts, a ∈ c.parts p :=
    fun t ht a ha => he a (Expr.parts_child ht ha)
  have only {t : Expr} (ht : e.children = [t]) := inner t (ht ▸ .head _)
  have both {a b : Expr} (ht : e.children = [a, b]) :
      (∀ x ∈ a.parts, x ∈ c.parts p) ∧ ∀ x ∈ b.parts, x ∈ c.parts p :=
    ⟨inner a (ht ▸ .head _), inner b (ht ▸ .tail _ (.head _))⟩
  -- The targets of a step or of `scanf` are not evaluated themselves, but what is inside them is.
  have inTarget {t : Expr} (ht : t ∈ e.children) :
      ∀ s ∈ t.children, ∀ a ∈ s.parts, a ∈ c.parts p :=
    fun s hs a ha => inner t ht a (Expr.parts_child hs ha)
  have assigned : ∀ x ∈ e.assigned, p.Unmentioned → ¬ Reserved x := fun _ => at'.unassigned he
  cases e with
  | literal n l => exact .pure (Value.made_of_plain (by cases l <;> rfl))
  | name n x => exact .lookup at'.made x n.pos
  | group n a => exact at'.eval (only rfl)
  | arrayNew n t a =>
      exact at'.bind (at'.eval (only rfl)) fun _ _ _ at₁ _ =>
        at₁.bind (.expectInt _ _) fun _ _ _ _ _ => .newArray t _ n.pos
  | index n x i =>
      exact at'.bind (at'.lookupArray _ _) fun _ _ _ at₁ _ =>
        at₁.bind (at₁.eval (only rfl)) fun _ _ _ at₂ _ =>
          at₂.bind (.expectInt _ _) fun _ _ _ at₃ _ => .element at₃.made _ _ _
  | indexAssign n x i a =>
      exact at'.bind (at'.lookupArray _ _) fun _ _ _ at₁ _ =>
        at₁.bind (at₁.eval (both rfl).1) fun _ _ _ at₂ _ =>
          at₂.bind (.expectInt _ _) fun _ _ _ at₃ _ =>
            at₃.bind (at₃.eval (both rfl).2) fun _ _ _ at₄ hv =>
              at₄.bind (.setElement _ _ hv _) fun _ _ h₅ _ _ => .pure (hv.later at₄ h₅)
  | assign n x a =>
      exact at'.bind (at'.eval (only rfl)) fun _ _ _ at₁ hv =>
        at₁.bind (.assign (assigned x (.head _)) hv _) fun _ _ h₂ _ _ => .pure (hv.later at₁ h₂)
  | compound n op x a =>
      refine at'.bind (.lookup at'.made _ _) fun _ _ _ at₁ _ =>
        at₁.bind (at₁.eval (only rfl)) fun _ _ _ at₂ _ => ?_
      exact at₂.bind (R := fun v s => Value.Made p s v)
        (.ofExcept _ (Value.binary_settles ..).made) fun _ _ _ at₃ hv =>
          at₃.bind (.assign (assigned x (.head _)) hv _) fun _ _ h₄ _ _ => .pure (hv.later at₃ h₄)
  | binary n op a b =>
      exact at'.bind (at'.eval (both rfl).1) fun _ _ _ at₁ _ =>
        at₁.bind (at₁.eval (both rfl).2) fun _ _ _ _ _ =>
          .ofExcept _ (Value.binary_settles ..).made
  | logical n op a b =>
      refine at'.bind (at'.eval (both rfl).1) fun v m₁ _ at₁ hv => ?_
      show Eval.Makes p c m₁ _ (if Eval.settles op v then Pure.pure v else b.eval)
      split
      · exact .pure hv
      · exact at₁.eval (both rfl).2
  | unary n op a =>
      exact at'.bind (at'.eval (only rfl)) fun _ _ _ _ _ =>
        .ofExcept _ (Value.unary_settles ..).made
  | step n form target => exact at'.step form (inTarget (.head _)) assigned
  | cast n target a =>
      exact at'.bind (at'.eval (only rfl)) fun _ _ _ _ _ =>
        .ofExcept _ (Value.castTo_settles ..).made
  | intToFloat n a =>
      refine at'.bind (at'.eval (only rfl)) fun v _ _ _ hv => ?_
      cases v <;> exact .pure hv
  | get n o x =>
      exact at'.bind (at'.eval (only rfl)) fun _ _ _ at₁ hv =>
        at₁.bind (at₁.expectObject hv _) fun _ _ _ at₂ ho => at₂.property ho.2 x _
  | set n o x a =>
      exact at'.bind (at'.eval (both rfl).1) fun _ _ _ at₁ hv =>
        at₁.bind (at₁.expectObject hv _) fun _ _ _ at₂ _ =>
          at₂.bind (at₂.eval (both rfl).2) fun _ _ _ at₃ hv =>
            at₃.bind (.setField _ _ hv) fun _ _ h₄ _ _ => .pure (hv.later at₃ h₄)
  | receiver n => exact .lookup at'.made "this" n.pos
  | superMethod n x => exact at'.superMethod x n.pos
  | call n callee args =>
      refine at'.bind (at'.eval (inner _ (.head _))) fun f _ _ at₁ hf =>
        at₁.bind (at₁.evalAll fun e he => inner e (.tail _ he)) fun _ _ h₂ at₂ hvs => ?_
      exact .ask at₂ (j := .apply ..) nofun ⟨hf.later at₁ h₂, hvs⟩
  | printf n format args =>
      exact at'.bind (at'.formatted inner) fun _ _ _ at₁ _ =>
        at₁.bind (.change (.io _ _ _)) fun _ _ _ _ _ => .pure trivial
  | sprintf n x format args =>
      exact at'.bind (at'.formatted inner) fun _ _ _ at₁ _ =>
        at₁.bind (.assign (v := .str _) (assigned x (.head _)) trivial _) fun _ _ _ _ _ => .pure trivial
  | scanf n format targets =>
      refine at'.bind (at'.eval (inner _ (.head _))) fun _ _ _ at₁ _ =>
        at₁.bind (.expectString _ _) fun _ _ _ at₂ _ =>
          at₂.bind (at₂.scan n.pos _ (fun t ht => inTarget (.tail _ ht)) fun t ht x hx => ?_)
            fun _ _ _ _ _ => .pure trivial
      exact assigned x (List.mem_flatMap.mpr ⟨t, ht, hx⟩)

/-! ### Statements -/

/-- A variable is given a first value, under a name that is not reserved. -/
theorem var {v : VarDecl} (hv : ∀ a ∈ v.parts, a ∈ c.parts p) :
    v.run.Makes p c m fun _ _ => True := by
  have name : p.Unmentioned → ¬ Reserved v.name := at'.unreserved (hv _ (.head _)) (.head _)
  simp only [VarDecl.run]
  split
  · rename_i e init
    have he : ∀ a ∈ e.parts, a ∈ c.parts p := fun a ha =>
      hv a (by rw [VarDecl.parts, init]; exact .tail _ ha)
    exact at'.bind (at'.eval he) fun _ _ _ _ hx => .define name hx _
  · exact .declare name _

/-- Statements inside the code may be executed one after another. -/
theorem runStmts {ss : List Stmt} (h : ∀ a ∈ Stmt.partsOf ss, a ∈ c.parts p) :
    (runStmts ss).Makes p c m fun flow s => Flow.Made p s flow := by
  induction ss generalizing m with
  | nil => exact .pure trivial
  | cons s ss ih =>
      have hs : ∀ a ∈ s.parts, a ∈ c.parts p := fun a ha => h a (List.mem_append_left _ ha)
      refine at'.bind (.ask at' (j := .stmt s) hs trivial) fun flow _ _ at₁ hf => ?_
      cases flow with
      | normal => exact ih at₁ fun a ha => h a (List.mem_append_right _ ha)
      | _ => exact .pure hf

/-- Variables and statements that share a frame are run in their order. -/
theorem runBody {locals : List VarDecl} {body : List Stmt}
    (h : ∀ a ∈ locals.flatMap VarDecl.parts ++ Stmt.partsOf body, a ∈ c.parts p) :
    (runBody locals body).Makes p c m fun flow s => Flow.Made p s flow :=
  at'.bind (at'.forM fun v hv _ _ at₁ => at₁.var fun a ha =>
      h a (List.mem_append_left _ (List.mem_flatMap.mpr ⟨v, hv, ha⟩))) fun _ _ _ at₁ _ =>
    at₁.runStmts fun a ha => h a (List.mem_append_right _ ha)

theorem runInit {init : ForInit} (h : ∀ a ∈ init.parts, a ∈ c.parts p) :
    (runInit init).Makes p c m fun _ _ => True := by
  cases init with
  | decl v => exact at'.var h
  | expr e => exact at'.bind (at'.eval h) fun _ _ _ _ _ => .pure trivial

/-- A turn of a loop runs pieces of the code, and asks for the loop again. -/
theorem loopTurn (cond : Expr) (update : Option Expr) (body : Stmt)
    (h : ∀ a ∈ (Job.loop cond update body).parts, a ∈ c.parts p) :
    (loopTurn cond update body).Makes p c m fun flow s => Flow.Made p s flow := by
  have hcond : ∀ a ∈ cond.parts, a ∈ c.parts p := fun a ha => h a <| by
    cases update <;> exact List.mem_append_left _ ha
  have hbody : ∀ a ∈ body.parts, a ∈ c.parts p := fun a ha => h a <| by
    cases update with
    | some u => exact List.mem_append_right _ (List.mem_append_right _ ha)
    | none => exact List.mem_append_right _ ha
  refine at'.bind (at'.eval hcond) fun v _ _ at₁ _ => ?_
  split
  · refine at₁.bind (.ask at₁ (j := .stmt body) hbody trivial) fun flow _ _ at₂ hf => ?_
    cases flow with
    | breakLoop => exact .pure trivial
    | ret v => exact .pure hf
    | _ =>
        -- What is left of the turn is the update.
        cases update with
        | some u =>
            have hu : ∀ a ∈ u.parts, a ∈ c.parts p := fun a ha =>
              h a (List.mem_append_right _ (List.mem_append_left _ ha))
            exact at₂.bind (at₂.eval hu) fun _ _ _ at₃ _ =>
              .ask at₃ (j := .loop cond (some u) body) h trivial
        | none => exact .ask at₂ (j := .loop cond none body) h trivial
  · exact .pure trivial

/-- What a statement makes. -/
theorem stmt {s : Stmt} (h : ∀ a ∈ s.parts, a ∈ c.parts p) :
    s.start.Makes p c m fun flow s => Flow.Made p s flow := by
  cases s with
  | block pos locals body =>
      rw [Stmt.parts] at h
      exact .inBlock pos (at'.pushScope.runBody h)
  | ifElse pos cond t e =>
      rw [Stmt.parts] at h
      have ht : ∀ a ∈ t.parts, a ∈ c.parts p := fun a ha =>
        h a (List.mem_append_right _ (List.mem_append_left _ ha))
      have he : ∀ a ∈ e.parts, a ∈ c.parts p := fun a ha =>
        h a (List.mem_append_right _ (List.mem_append_right _ ha))
      refine at'.bind (at'.eval fun a ha => h a (List.mem_append_left _ ha)) fun v _ _ at₁ _ => ?_
      split
      · exact .ask at₁ (j := .stmt t) ht trivial
      · exact .ask at₁ (j := .stmt e) he trivial
  | whileLoop pos cond body =>
      rw [Stmt.parts] at h
      exact .ask at' (j := .loop cond none body) h trivial
  | forLoop pos init cond update body =>
      rw [Stmt.parts] at h
      exact .inBlock pos (at'.pushScope.bind
        (at'.pushScope.runInit fun a ha => h a (List.mem_append_left _ ha)) fun _ _ _ at₁ _ =>
          .ask at₁ (j := .loop cond (some update) body)
            (fun a ha => h a (List.mem_append_right _ ha)) trivial)
  | ret pos e =>
      cases e with
      | some e =>
          rw [Stmt.parts] at h
          exact at'.bind (at'.eval h) fun _ _ _ _ hv => .pure hv
      | none => exact .pure trivial
  | expr pos e =>
      rw [Stmt.parts] at h
      exact at'.bind (at'.eval h) fun _ _ _ _ _ => .pure trivial
  | _ => exact .pure trivial

/-! ### Calls -/

/-- Parameters get values that have been made. -/
theorem bindParams (k : Handle) (pos : Position) (params : List Param) {args : List Value}
    (hx : ∀ x ∈ params, p.Unmentioned → ¬ Reserved x.name) (ha : ∀ v ∈ args, v.Made p m.scopes) :
    (bindParams k pos params args).Makes p c₀ m fun _ _ => True :=
  at'.forM (f := fun x : Param × Value => Eval.defineAt k x.1.name x.2 pos)
    fun x hmem _ h₁ _ => .defineAt (hx x.1 (List.of_mem_zip hmem).1)
      ((ha x.2 (List.of_mem_zip hmem).2).later at' h₁) k pos

/-- The body of a function is code of its own, and is run one call deeper. -/
theorem callClosure {g : Closure} (hg : p.Unmentioned → g.Made p m.scopes) {args : List Value}
    (ha : ∀ v ∈ args, v.Made p m.scopes) :
    (callClosure g args).Makes p ⟨some g, m.callDepth + 1⟩ m fun v s => Value.Made p s v := by
  simp only [Eval.callClosure]
  split
  · have opened : m.Leads p (m.openFrame g.scope).2 := .openFrame m g.scope
    -- The frame for the call is one of the body's own.
    have body : p.Unmentioned → Code.Holds p (m.openFrame g.scope).2.scopes
        ⟨some g, m.callDepth + 1⟩ (m.openFrame g.scope).1 := fun hp =>
      Holds.push (k := g.scope) ⟨by rintro _ ⟨⟩; exact hg hp, [], rfl, by rintro _ ⟨⟩⟩ hp at'.made.based
    have params : ∀ x ∈ g.decl.params, p.Unmentioned → ¬ Reserved x.name := fun x hx hp =>
      hp (.name x.name) ((hg hp).parts _ (List.mem_append_left _ (List.mem_map_of_mem hx))) _
        (.head _)
    refine at'.bind (R := fun k s => p.Unmentioned → Code.Holds p s ⟨some g, m.callDepth + 1⟩ k)
      (.make opened body) fun k m₁ h₁ at₁ holds => ?_
    refine at₁.bind (at₁.bindParams k _ _ params fun v hv => (ha v hv).later at' h₁)
      fun _ m₂ h₂ at₂ _ => ?_
    have depth : m₂.callDepth + 1 = m.callDepth + 1 :=
      congrArg (· + 1) (h₂.callDepth.trans h₁.callDepth)
    have inside : Code.At p ⟨some g, m.callDepth + 1⟩
        { m₂ with callDepth := m₂.callDepth + 1, here := k } :=
      ⟨at₂.made.congr rfl rfl, depth, fun hp => (holds hp).rests hp at₁.made.based h₂.rests⟩
    refine at₂.bind (.counted _ (.inScope k (inside.runBody fun a h =>
      List.mem_append_right _ h))) fun flow _ _ _ hf => ?_
    cases flow with
    | normal => exact .pure trivial
    | ret v => exact .pure hf
    | _ => exact .fail _ _
  · exact .fail _ _

/-- A class that is called runs the body of its `init` method, if it has one. -/
theorem instantiate {cls : Class} (hc : cls.Made p m.scopes) {args : List Value}
    (ha : ∀ v ∈ args, v.Made p m.scopes)
    (enters : ∀ g m₁, m.Enters (.cls cls) g m₁ → c₀ = ⟨some g, m.callDepth + 1⟩) :
    (instantiate cls args).Makes p c₀ m fun v s => Value.Made p s v := by
  have leads : m.Leads p (m.newObject cls).2 := .newObject m cls
  have at₁ := at'.later leads
  have ho : (m.newObject cls).1.cls.Made p (m.newObject cls).2.scopes := hc
  have ha₁ : ∀ v ∈ args, v.Made p (m.newObject cls).2.scopes := fun v hv => (ha v hv).later at' leads
  refine .make_bind leads ?_
  split
  · rename_i init found
    obtain ⟨ht, hf⟩ := Class.mem_of_methodIn found
    obtain ⟨above, below, split⟩ := List.append_of_mem ht
    have leads₂ := Machine.Leads.bindMethod (m.newObject cls).2 ho init
    have at₂ := at₁.later leads₂
    have made : Value.Made p _ (.object (m.newObject cls).1) :=
      Value.Made.later at₁ leads₂ (v := .object _) ho
    rw [enters _ _ (.init found)]
    refine .make_bind leads₂ (at₂.bind (at₂.callClosure (fun hp => ?_) fun v hv =>
      (ha₁ v hv).later at₁ leads₂) fun _ _ h₃ _ _ => .pure (made.later at₂ h₃))
    exact .method (Closure.bound_bindMethod at₁.made hp ho split hf)
  · split
    · exact .pure ho
    · exact .fail _ _

end Code.At

/-- A builtin gives a plain value. -/
theorem Builtin.makes_apply (b : Builtin) (args : List Value) (pos : Position) :
    (b.apply args pos).Makes p c m fun v s => Value.Made p s v := .of_ends <| by
  simp only [Builtin.apply]
  split
  · split
    · rename_i v m' e
      obtain ⟨input, output, rfl⟩ := Builtin.call_io e
      have plain : v.isPlain = true := (Builtin.call_settles e).1
      exact .inr ⟨_, _, rfl, .io m input output, by rintro _ ⟨⟩; exact Value.made_of_plain plain⟩
    · rename_i cause m' e
      obtain ⟨input, output, rfl⟩ := Builtin.call_io e
      exact .inr ⟨_, _, rfl, .io m input output, by rintro _ ⟨⟩⟩
    · exact .inl rfl
  · exact .inr ⟨_, m, rfl, .refl m, by rintro _ ⟨⟩⟩

/-- What a call makes. What it asks for is asked for by the body of the function that it enters. -/
theorem Code.At.applyTo (at' : c.At p m) {callee : Value} (hf : callee.Made p m.scopes)
    {args : List Value} (ha : ∀ v ∈ args, v.Made p m.scopes)
    (enters : ∀ g m₁, m.Enters callee g m₁ → c₀ = ⟨some g, m.callDepth + 1⟩) (pos : Position) :
    (applyTo callee args pos).Makes p c₀ m fun v s => Value.Made p s v := by
  cases callee with
  | function g =>
      rw [enters g m (.function g)]
      exact .orAt pos (at'.callClosure hf ha)
  | builtin b => exact b.makes_apply args pos
  | cls cls => exact .orAt pos (at'.instantiate hf ha enters)
  | _ => exact at'.bind (.textOf _) fun _ _ _ _ _ => .fail _ _

/-- What a job makes that is no call. -/
theorem Code.At.start (at' : c.At p m) {j : Job} (inside : ∀ a ∈ j.parts, a ∈ c.parts p)
    (noCall : ∀ callee args pos, j ≠ .apply callee args pos) :
    j.start.Makes p c m fun a s => j.Makes p s a := by
  cases j with
  | expr e => exact at'.expr inside
  | stmt s => exact at'.stmt inside
  | loop cond update body => exact at'.loopTurn cond update body inside
  | apply callee args pos => exact absurd rfl (noCall callee args pos)

/-- **What jobs make.**  Where code runs and everything has been made as the program makes it, a job of
the code keeps that so. -/
theorem Program.made_kept (p : Program) : p.made.Kept := by
  rintro c j m ⟨at', inside, given⟩
  cases j with
  | apply callee args pos =>
      have entered : ∃ c₀ : Code, ∀ g m₁, m.Enters callee g m₁ → c₀ = ⟨some g, m.callDepth + 1⟩ := by
        by_cases enters : ∃ g m₁, m.Enters callee g m₁
        · obtain ⟨g, m₁, enters⟩ := enters
          exact ⟨⟨some g, m.callDepth + 1⟩, fun g' m₂ enters' => by rw [(enters.eq enters').1]⟩
        · exact ⟨c, fun g m₁ enters' => absurd ⟨g, m₁, enters'⟩ enters⟩
      obtain ⟨c₀, enters⟩ := entered
      exact Progress.Meets.of_having (at'.applyTo given.1 given.2 enters pos)
  | _ => exact Progress.Meets.of_having (at'.start inside nofun)

end Brace
