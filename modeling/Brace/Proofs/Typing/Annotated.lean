import Brace.Proofs.Reports.Program
import Brace.Proofs.Typing.Bare

/-!
# Typing — every expression has its type noted

Checking does not go the same way into every expression: what is called, what is stepped and what is a
format have their types noted by the form that they are part of. Nothing is missed on either way. Where
checking an expression reports nothing, whatever it knows of names and classes, the expression is given
back with the type that was found noted on it, and with types noted on all expressions in it.

A piece of checking `Finds` what holds of its result where it reports nothing.

* `Expr.check_finds`: what is noted by checking an expression.
* `check_annotates`: in an accepted program there is no expression without a type.
-/

namespace Brace

open Check

variable {α β : Type}

/-- Where nothing is reported, the result is such, whatever the checker is like. -/
structure Check.Finds (x : Check α) (Q : α → Prop) : Prop where
  later : ∀ c : Checker, c.Later (x c).2
  clean : ∀ c : Checker, (x c).2.errors = c.errors → Q (x c).1

namespace Check.Finds

variable {x : Check α} {Q : α → Prop} {R : β → Prop}

theorem pure {a : α} (h : Q a) : Finds (Pure.pure a) Q := ⟨fun c => .refl c, fun _ _ => h⟩

/-- One after another: the second may use what the first finds. -/
theorem bind {f : α → Check β} (hx : Finds x Q) (hf : ∀ a, Finds (f a) fun b => Q a → R b) :
    Finds (x >>= f) R where
  later c := (hx.later c).trans ((hf _).later _)
  clean c clean := by
    obtain ⟨e₁, e₂⟩ := (hx.later c).clean ((hf _).later _) clean
    exact (hf _).clean _ e₂ (hx.clean c e₁)

/-- The result of the first is no matter. -/
theorem after {Γ : Scene} {S : α → Prop} {f : α → Check β} (hx : Leads False .start x Γ S)
    (hf : ∀ a, Finds (f a) R) : Finds (x >>= f) R :=
  bind (Q := fun _ => True) ⟨hx.later, fun _ _ => trivial⟩ fun a => ⟨(hf a).later, fun c e _ =>
    (hf a).clean c e⟩

/-- Whatever follows a report is no matter. -/
theorem report_bind (cause : Cause) (p : Position) {f : Unit → Check α}
    (later : ∀ c : Checker, c.Later (f () c).2) : Finds (Check.report cause p >>= f) Q where
  later c := (Adds.report_later cause p c).trans (later _)
  clean c clean :=
    absurd ((Adds.report_later cause p c).clean (later _) clean).1 (Adds.not_clean cause p c)

/-- After a report that a test calls for. -/
theorem reportIf {b : Prop} [Decidable b] (cause : Cause) (p : Position) {k : Unit → Check α}
    (h : Finds (k ()) Q) : Finds (if b then Check.report cause p >>= k else k ()) Q := by
  split
  · exact report_bind cause p h.later
  · exact h

/-- A name that is looked up means something. -/
theorem lookup (y : String) (p : Position) : Finds (Check.lookup y p) fun r => ∃ s, r = some s where
  later := (lookup_leads y p : Leads False .start _ _ _).later
  clean := lookup_clean y p

/-- Over a list, what is found of each member. -/
theorem mapM {f : α → Check β} (h : ∀ a, Finds (f a) R) :
    ∀ as : List α, Finds (as.mapM f) fun bs => ∀ b ∈ bs, R b
  | []      => pure nofun
  | a :: as => by
      rw [List.mapM_cons]
      exact (h a).bind fun b => (mapM h as).bind fun bs => pure fun hbs hb =>
        List.forall_mem_cons.mpr ⟨hb, hbs⟩

theorem inFrame (p : Position) (h : Finds x Q) : Finds (inFrame p x) Q where
  later := later_inFrame p h.later
  clean c clean := by
    rw [inFrame_apply p h.later] at clean ⊢
    exact h.clean c.entered clean

theorem withLoop (inLoop : Bool) (h : Finds x Q) : Finds (withLoop inLoop x) Q where
  later := later_withLoop inLoop h.later
  clean c clean := h.clean { c with inLoop } clean

theorem withFunction (f : Context) (h : Finds x Q) : Finds (withFunction f x) Q where
  later := later_withFunction f h.later
  clean c clean := h.clean { c with function := some f } clean

end Check.Finds

/-! ### Expressions -/

namespace Expr

/-- The expression and all expressions in it have types noted on them. -/
def Annotated (e : Expr) : Prop := ∀ s ∈ e.subexprs, ∃ t, s.ty? = some t

/-- An expression is annotated where it and its operands are. -/
theorem annotated_of_children {e : Expr} {t : Ty} (ht : e.ty? = some t)
    (h : ∀ c ∈ e.children, c.Annotated) : e.Annotated := by
  intro s hs
  rw [subexprs_eq, List.mem_cons, List.mem_flatMap] at hs
  obtain rfl | ⟨c, hc, hs⟩ := hs
  · exact ⟨t, ht⟩
  · exact h c hc s hs

@[simp] theorem children_typed (e : Expr) (t : Ty) : (e.typed t).children = e.children := by
  cases e <;> rfl

theorem annotated_typed {e : Expr} (t : Ty) (h : ∀ c ∈ e.children, c.Annotated) :
    (e.typed t).Annotated :=
  annotated_of_children (ty?_typed e t) (e.children_typed t ▸ h)

/-- The type is noted on the expression, and types are noted on all expressions in it. -/
def Noting (r : Ty × Expr) : Prop := r.2.ty? = some r.1 ∧ r.2.Annotated

/-- What is yielded is annotated where its operands are. -/
theorem noting_yield {e : Expr} (t : Ty) (h : ∀ c ∈ e.children, c.Annotated) :
    Noting (yield t e) := ⟨ty?_typed e t, annotated_typed t h⟩

/-- A form of this kind has nothing in it. -/
theorem noting_leaf {e : Expr} (t : Ty) (h : e.children = []) : Noting (yield t e) :=
  noting_yield t (by simp [h])

theorem noting_one {e a : Expr} (t : Ty) (h : e.children = [a]) (ha : a.Annotated) :
    Noting (yield t e) := noting_yield t (by simpa [h] using ha)

theorem noting_two {e a b : Expr} (t : Ty) (h : e.children = [a, b]) (ha : a.Annotated)
    (hb : b.Annotated) : Noting (yield t e) := noting_yield t (by simpa [h] using ⟨ha, hb⟩)

/-- A call is annotated where its callee and its arguments are. -/
theorem noting_args {e a : Expr} {rs : List (Ty × Expr)} (t : Ty)
    (h : e.children = a :: rs.map (·.2)) (ha : a.Annotated) (hrs : ∀ r ∈ rs, Noting r) :
    Noting (yield t e) := by
  refine noting_yield t ?_
  rw [h, List.forall_mem_cons, List.forall_mem_map]
  exact ⟨ha, fun r hr => (hrs r hr).2⟩

/-- A format is a text that is written out, with nothing in it. -/
theorem finds_format (format : Expr) (args : List (Ty × Expr)) {f : Expr → Ty × Expr}
    {Q : Ty × Expr → Prop} (h : ∀ e : Expr, e.Annotated → Q (f e)) : Finds (do
      expectFormat format args
      pure (f (format.typed .str))) Q := by
  cases format with
  | literal n l =>
      exact .after (expectFormat_leads _ False.elim) fun _ => .pure (h _ (noting_leaf (e := .literal n l) _ rfl).2)
  | _ => exact .report_bind _ _ fun c => .refl c

/-- Stepping annotates the target and what is in it. -/
theorem stepTarget_finds (form : StepForm) (e : Expr) (h : Finds e.check Noting) :
    Finds (stepTarget form e e.check) fun r => r.2.Annotated := by
  by_cases hk : e.kind = .name
  · cases e with
    | name n x =>
        exact .after (assignable_leads ..) fun t => .after (stepTy_leads ..) fun s =>
          .pure (noting_leaf (e := .name n x) _ rfl).2
    | _ => cases hk
  · rw [stepTarget_of_kind hk]
    refine h.bind fun r => ?_
    split
    · exact .after (stepTy_leads ..) fun s => .pure And.right
    · exact .report_bind _ _ fun c => .refl c

/-- A callee of no kind of its own. -/
theorem callee_finds {rs : List (Ty × Expr)} {p : Position} {e : Expr}
    (hk : e.kind = .index ∨ e.kind = .other) (h : Finds e.check Noting) :
    Finds (checkCallee e rs p e.check) fun r => r.2.Annotated := by
  rw [checkCallee_of_kind hk]
  exact h.bind fun r => .reportIf _ _ (.pure And.right)

mutual

/-- Where checking an expression reports nothing, it gives the type that it has noted on the
expression, and has noted types on all expressions in it. -/
theorem check_finds : ∀ e : Expr, Finds e.check Noting
  | .literal n l => by
      rw [check]
      exact .pure (noting_leaf _ rfl)
  | .name n x => by
      rw [check]
      exact .after (tyOfName_leads ..) fun t => .pure (noting_leaf _ rfl)
  | .group n e => by
      rw [check]
      exact (check_finds e).bind fun r => .pure fun h => noting_one _ rfl h.2
  | .arrayNew n t size => by
      rw [check]
      exact .reportIf _ _ <| .after (resolveTy_leads ..) fun _ => (check_finds size).bind fun r =>
        .after (expectIndex_leads ..) fun _ => .pure fun h => noting_one _ rfl h.2
  | .index n x i => by
      rw [check]
      exact .after (elementTy_leads ..) fun t => (check_finds i).bind fun r =>
        .after (expectIndex_leads ..) fun _ => .pure fun h => noting_one _ rfl h.2
  | .indexAssign n x i e => by
      rw [check]
      exact .after (elementTy_leads ..) fun t => (check_finds i).bind fun r =>
        .after (expectIndex_leads ..) fun _ => (check_finds e).bind fun r' =>
          .after (expectAccepted_leads ..) fun _ => .pure fun h' h => noting_two _ rfl h.2 h'.2
  | .assign n x e => by
      rw [check]
      refine .after (assignable_leads ..) fun target => (check_finds e).bind fun r => ?_
      cases target with
      | some t => exact .after (expectAccepted_leads ..) fun _ => .pure fun h => noting_one _ rfl h.2
      | none => exact .pure fun h => noting_one _ rfl h.2
  | .compound n op x e => by
      rw [check]
      refine .after (assignable_leads ..) fun target => (check_finds e).bind fun r => ?_
      cases target with
      | some t =>
          refine .after (binaryTy_leads ..) fun result => ?_
          cases result with
          | some u =>
              exact .after (expectAccepted_leads ..) fun _ => .pure fun h => noting_one _ rfl h.2
          | none => exact .pure fun h => noting_one _ rfl h.2
      | none => exact .pure fun h => noting_one _ rfl h.2
  | .binary n op l r => by
      rw [check]
      exact (check_finds l).bind fun a => (check_finds r).bind fun b =>
        .after (binaryTy_leads ..) fun t => .pure fun h' h => noting_two _ rfl h.2 h'.2
  | .logical n op l r => by
      rw [check]
      exact (check_finds l).bind fun a => (check_finds r).bind fun b =>
        .after (expectBools_leads ..) fun t => .pure fun h' h => noting_two _ rfl h.2 h'.2
  | .unary n op e => by
      rw [check]
      exact (check_finds e).bind fun r => .after (unaryTy_leads ..) fun t =>
        .pure fun h => noting_one _ rfl h.2
  | .step n form target => by
      rw [check]
      exact (stepTarget_finds form target (check_finds target)).bind fun r =>
        .pure fun h => noting_one _ rfl h
  | .cast n target e => by
      rw [check]
      exact (check_finds e).bind fun r => .after (castTy_leads ..) fun t =>
        .pure fun h => noting_one _ rfl h.2
  | .intToFloat n e => by
      rw [check]
      exact (check_finds e).bind fun r => .after (expectTy_leads ..) fun _ =>
        .pure fun h => noting_one _ rfl h.2
  | .get n o x => by
      rw [check]
      exact (check_finds o).bind fun r => .after (classOf_leads ..) fun c =>
        .pure fun h => noting_one _ rfl h.2
  | .set n o x e => by
      rw [check]
      refine (check_finds o).bind fun r => .after (classOf_leads ..) fun c =>
        (check_finds e).bind fun r' => ?_
      dsimp only
      cases c.bind (·.field? x) with
      | some field =>
          exact .after (expectAccepted_leads ..) fun _ =>
            .pure fun h' h => noting_two _ rfl h.2 h'.2
      | none => exact .pure fun h' h => noting_two _ rfl h.2 h'.2
  | .receiver n => by
      rw [check]
      exact .after (tyOfName_leads ..) fun t => .pure (noting_leaf _ rfl)
  | .superMethod n x => by
      rw [check]
      exact .after (superMethod_leads ..) fun sig => .pure (noting_leaf _ rfl)
  | .call n callee args => by
      rw [check]
      exact (checkAll_finds args).bind fun rs =>
        (checkCallee_finds rs n.pos callee (check_finds callee)).bind fun r =>
          .pure fun h hrs => noting_args _ rfl h hrs
  | .printf n format args => by
      rw [check]
      exact (checkAll_finds args).bind fun rs => finds_format format rs
        (f := fun e => yield .void (.printf n e (rs.map (·.2)))) fun e he hrs =>
          noting_args _ rfl he hrs
  | .scanf n format targets => by
      rw [check]
      exact .after (.forM targets fun e _ => expectTarget_leads e) fun _ =>
        (checkAll_finds targets).bind fun rs => finds_format format rs
          (f := fun e => yield .void (.scanf n e (rs.map (·.2)))) fun e he hrs =>
            noting_args _ rfl he hrs
  | .sprintf n x format args => by
      rw [check]
      have filled : Finds (do
          let args ← checkAll args
          expectFormat format args
          pure (yield .void (.sprintf n x (format.typed .str) (args.map (·.2))))) Noting :=
        (checkAll_finds args).bind fun rs => finds_format format rs
          (f := fun e => yield .void (.sprintf n x e (rs.map (·.2)))) fun e he hrs =>
            noting_args _ rfl he hrs
      refine .after (assignable_leads ..) fun target => ?_
      cases target with
      | some t => exact .after (expectTy_leads ..) fun _ => filled
      | none => exact filled

/-- What is called is annotated, though it is not checked as other expressions are. -/
theorem checkCallee_finds (rs : List (Ty × Expr)) (p : Position) : ∀ e : Expr,
    Finds e.check Noting → Finds (checkCallee e rs p e.check) fun r => r.2.Annotated
  | .name m x, _ => by
      rw [checkCallee]
      refine (Finds.lookup x m.pos).bind fun s => ?_
      cases s with
      | some s =>
          exact .after (callTy_leads _ _ False.elim) fun t =>
            .pure fun _ => (noting_leaf (e := .name m x) _ rfl).2
      | none => exact .pure fun ⟨_, found⟩ => nomatch found
  | .get m o x, _ => by
      rw [checkCallee]
      exact (check_finds o).bind fun r => .after (classOf_leads ..) fun c =>
        .after (methodCallTy_leads _ _ False.elim _) fun t =>
          .pure fun h => (noting_one (e := .get m r.2 x) _ rfl h.2).2
  | .superMethod m x, _ => by
      rw [checkCallee]
      exact .after (superMethod_leads ..) fun sig =>
        .after (methodCallTy_leads _ _ False.elim _) fun t =>
          .pure (noting_leaf (e := .superMethod m x) _ rfl).2
  | .index .., h => callee_finds (.inl rfl) h
  | .literal .., h | .group .., h | .arrayNew .., h | .indexAssign .., h | .call .., h
  | .assign .., h | .compound .., h | .binary .., h | .logical .., h | .unary .., h
  | .step .., h | .cast .., h | .intToFloat .., h | .set .., h | .receiver .., h
  | .printf .., h | .scanf .., h | .sprintf .., h => callee_finds (.inr rfl) h

/-- All the expressions of a list are annotated. -/
theorem checkAll_finds : ∀ es : List Expr, Finds (checkAll es) fun rs => ∀ r ∈ rs, Noting r
  | []      => by
      rw [checkAll]
      exact .pure nofun
  | e :: es => by
      rw [checkAll]
      exact (check_finds e).bind fun r => (checkAll_finds es).bind fun rs =>
        .pure fun hrs hr => List.forall_mem_cons.mpr ⟨hr, hrs⟩

end

theorem checkCondition_finds (e : Expr) : Finds e.checkCondition Annotated :=
  e.check_finds.bind fun _ => .after (expectTy_leads ..) fun _ => .pure And.right

end Expr

theorem Check.update_finds (e : Expr) : Finds (update e) Expr.Annotated := by
  rw [update]
  exact .reportIf _ _ <| e.check_finds.bind fun r => .pure And.right

/-! ### Statements and declarations -/

/-- If it is an expression, it has a type noted on it. -/
def Part.Annotated : Part → Prop
  | .expr e => ∃ t, e.ty? = some t
  | .name _ => True

/-- All expressions among the parts have types noted on them. -/
def Part.AllAnnotated (parts : List Part) : Prop := ∀ a ∈ parts, a.Annotated

namespace Part.AllAnnotated

variable {as bs : List Part}

theorem nil : AllAnnotated [] := nofun

theorem cons {x : String} (h : AllAnnotated as) : AllAnnotated (.name x :: as) :=
  List.forall_mem_cons.mpr ⟨trivial, h⟩

theorem append (h : AllAnnotated as) (h' : AllAnnotated bs) : AllAnnotated (as ++ bs) :=
  List.forall_mem_append.mpr ⟨h, h'⟩

theorem flatMap {δ : Type} {f : δ → List Part} {ds : List δ} (h : ∀ d ∈ ds, AllAnnotated (f d)) :
    AllAnnotated (ds.flatMap f) := by
  intro a ha
  obtain ⟨d, hd, ha⟩ := List.mem_flatMap.mp ha
  exact h d hd a ha

end Part.AllAnnotated

open Brace.Part (AllAnnotated)

/-- The parts of an expression that are expressions are annotated with it. -/
theorem Expr.Annotated.parts {e : Expr} (h : e.Annotated) : AllAnnotated e.parts :=
  List.forall_mem_map.mpr h

theorem VarDecl.check_finds (v : VarDecl) : Finds v.check fun v' => AllAnnotated v'.parts := by
  have finish {Q : VarDecl → Prop} (declared : Bool) {v' : VarDecl} (h : Q v') : Finds (do
      if declared then
        let _ ← define v.name (.var v.ty) v.pos
      pure v') Q := by
    cases declared with
    | true => exact .after (define_leads ..) fun _ => .pure h
    | false => exact .pure h
  rw [check]
  refine .reportIf _ _ <| .after (resolveTy_leads ..) fun _ =>
    .after (declare_leads ..) fun declared => ?_
  cases v.init with
  | some e =>
      exact e.check_finds.bind fun r => .after (expectAccepted_leads ..) fun _ =>
        finish declared fun h => .cons h.2.parts
  | none => exact finish declared (.cons .nil)

theorem ForInit.check_finds (init : ForInit) :
    Finds init.check fun init' => AllAnnotated init'.parts := by
  cases init with
  | decl v => exact v.check_finds.bind fun _ => .pure id
  | expr e =>
      rw [check]
      exact .reportIf _ _ <| e.check_finds.bind fun r => .pure fun h => h.2.parts

namespace Stmt

mutual

/-- A statement is given back with all its expressions annotated, one case for each form. -/
theorem check_finds : ∀ s : Stmt, Finds s.check fun s' => AllAnnotated s'.parts
  | .block p locals body => by
      rw [check]
      exact .inFrame p <| (Finds.mapM VarDecl.check_finds locals).bind fun locals' =>
        (checkAll_finds body).bind fun body' => .pure fun hb hl => (AllAnnotated.flatMap hl).append hb
  | .ifElse p cond t e => by
      rw [check]
      exact cond.checkCondition_finds.bind fun cond' => (check_finds t).bind fun t' =>
        (check_finds e).bind fun e' => .pure fun he ht hc => hc.parts.append (ht.append he)
  | .whileLoop p cond body => by
      rw [check]
      exact cond.checkCondition_finds.bind fun cond' => ((check_finds body).withLoop true).bind
        fun body' => .pure fun hb hc => hc.parts.append hb
  | .forLoop p init cond update body => by
      rw [check]
      exact .inFrame p <| init.check_finds.bind fun init' =>
        cond.checkCondition_finds.bind fun cond' => (update_finds update).bind fun update' =>
          ((check_finds body).withLoop true).bind fun body' => .pure fun hb hu hc hi =>
            hi.append (hc.parts.append (hu.parts.append hb))
  | .ret p (some e) => by
      rw [check]
      exact e.check_finds.bind fun _ => .after (expectReturn_leads ..) fun _ =>
        .pure fun h => h.2.parts
  | .ret p none => by
      rw [check]
      exact .after (expectReturn_leads ..) fun _ => .pure .nil
  | .breakLoop p => by
      rw [check]
      exact .after (loopSignal_leads ..) fun _ => .pure .nil
  | .continueLoop p => by
      rw [check]
      exact .after (loopSignal_leads ..) fun _ => .pure .nil
  | .expr p e => by
      rw [check]
      exact e.check_finds.bind fun r => .pure fun h => h.2.parts
  | .empty p => by
      rw [check]
      exact .pure .nil

theorem checkAll_finds : ∀ ss : List Stmt, Finds (checkAll ss) fun ss' => AllAnnotated (partsOf ss')
  | []      => by
      rw [checkAll]
      exact .pure .nil
  | s :: ss => by
      rw [checkAll]
      exact (check_finds s).bind fun s' => (checkAll_finds ss).bind fun ss' =>
        .pure fun hs h => h.append hs

end

end Stmt

/-- The body of a function is given back with all its expressions annotated. -/
theorem FuncDecl.checkBody_finds (f : FuncDecl) :
    Finds f.checkBody fun f' => AllAnnotated f'.parts := by
  have params : AllAnnotated (f.params.map fun x => .name x.name) :=
    List.forall_mem_map.mpr fun _ _ => trivial
  have inside : Finds (do
      let locals ← f.locals.mapM VarDecl.check
      let body ← Stmt.checkAll f.body
      pure { f with locals, body }) fun f' => AllAnnotated f'.parts :=
    (Finds.mapM VarDecl.check_finds f.locals).bind fun locals =>
      (Stmt.checkAll_finds f.body).bind fun body => .pure fun hb hl =>
        params.append ((AllAnnotated.flatMap hl).append hb)
  rw [checkBody]
  refine .after (resolveTy_leads ..) fun _ => .bind (.inFrame f.pos ?_) fun g =>
    .reportIf _ _ (.pure id)
  exact .after (params_leads f.pos f.params Scene.start_top.full) fun _ =>
    inside.withFunction _ |>.withLoop false

theorem FuncDecl.check_finds (f : FuncDecl) : Finds f.check fun f' => AllAnnotated f'.parts :=
  .after (define_leads ..) fun _ => f.checkBody_finds

namespace ClassDecl

variable (d : ClassDecl) (superclass : Option ClassInfo)

/-- The methods of a class are given back with all their expressions annotated. -/
theorem checkInside_finds :
    Finds (d.checkInside superclass) fun d' => AllAnnotated (Decl.cls d').parts := by
  have methods : Finds (do
      let methods ← d.methods.mapM FuncDecl.checkBody
      pure { d with methods }) fun d' => AllAnnotated (Decl.cls d').parts :=
    (Finds.mapM FuncDecl.checkBody_finds d.methods).bind fun fs =>
      .pure fun hfs => .cons (.flatMap hfs)
  refine .inFrame d.pos (.after (define_leads ..) fun _ => ?_)
  cases superclass with
  | none => exact methods
  | some c => exact .after (define_leads ..) fun _ => methods

theorem checkBelow_finds :
    Finds (d.checkBelow superclass) fun d' => AllAnnotated (Decl.cls d').parts := by
  have fields : Leads False .start (d.fields.forM fun x => do
      let _ ← resolveTy d.pos x.ty) .start fun _ => ∀ x ∈ d.fields, x.ty.Known Scene.start.classes :=
    .forM d.fields fun x _ => .bind (resolveTy_leads ..) fun _ => .pure And.right
  have inside := Finds.after fields fun _ => d.checkInside_finds superclass
  refine .after d.fieldTable_leads fun fields => .after (d.methodTable_leads fields) fun methods =>
    .after (define_leads ..) fun defined => ?_
  cases defined with
  | true => exact .after (putClass_leads ..) fun _ => inside
  | false => exact inside

theorem check_finds : Finds d.check fun d' => AllAnnotated (Decl.cls d').parts := by
  rw [check_eq_below]
  exact .after d.superInfo_leads fun superclass => d.checkBelow_finds superclass

end ClassDecl

/-- A declaration is given back with all its expressions annotated. -/
theorem Decl.check_finds (d : Decl) : Finds d.check fun d' => AllAnnotated d'.parts := by
  cases d with
  | var v => exact v.check_finds.bind fun _ => .pure id
  | func f => exact f.check_finds.bind fun _ => .pure AllAnnotated.cons
  | cls d => exact d.check_finds.bind fun _ => .pure id

/-! ### Programs -/

/-- **Every expression has its type.**  When a program is accepted, it is given back with a type noted on
each expression anywhere in it, and is else the program that it was. And wherever checking an expression
reports nothing, whatever is known there, the type that it gives is the one noted on the expression, and
all expressions in it have types noted on them. -/
theorem check_annotates :
    (∀ (p : Program) (checked : Checked), p.check = .ok checked →
      checked.program.bare = p.bare ∧
        ∀ e : Expr, .expr e ∈ checked.program.parts → ∃ t, e.ty? = some t) ∧
    ∀ (c : Checker) (e : Expr), (e.check c).2.errors = c.errors →
      (e.check c).1.2.ty? = some (e.check c).1.1 ∧
        ∀ s ∈ (e.check c).1.2.subexprs, ∃ t, s.ty? = some t := by
  refine ⟨fun p checked h => ⟨Program.bare_of_check h, fun e he => ?_⟩, fun c e clean =>
    e.check_finds.clean c clean⟩
  obtain ⟨clean, given⟩ := Program.clean_of_check h
  have all := (Finds.mapM Decl.check_finds p).clean .start clean
  rw [given] at he
  obtain ⟨d, hd, he⟩ := List.mem_flatMap.mp he
  exact all d hd (.expr e) he

/-- `class A { int f(int n) { return n; } }`
`class B : A { int f(int n) { return super.f(n); } }`
`int main() { int[] xs = new int[2]; B b = B(); xs[0]++; printf("%d", b.f(xs[0]));`
`scanf("%d", xs[1]); return 0; }` -/
def labelling : Program := [
  .cls ⟨.ofLine 1, "A", none, [], [⟨.ofLine 1, .int, "f", [⟨.int, "n"⟩], [],
    [.ret (.ofLine 1) (some (.name .blank "n"))]⟩]⟩,
  .cls ⟨.ofLine 2, "B", some "A", [], [⟨.ofLine 2, .int, "f", [⟨.int, "n"⟩], [],
    [.ret (.ofLine 2) (some (.call .blank (.superMethod .blank "f") [.name .blank "n"]))]⟩]⟩,
  .func ⟨.ofLine 3, .int, "main", [],
    [⟨.ofLine 3, .array .int, "xs", some (.arrayNew .blank .int (.literal .blank (.int 2)))⟩,
      ⟨.ofLine 3, .object "B", "b", some (.call .blank (.name .blank "B") [])⟩],
    [.expr (.ofLine 3) (.step .blank .postInc (.index .blank "xs" (.literal .blank (.int 0)))),
      .expr (.ofLine 3) (.printf .blank (.literal .blank (.str "%d"))
        [.call .blank (.get .blank (.name .blank "b") "f")
          [.index .blank "xs" (.literal .blank (.int 0))]]),
      .expr (.ofLine 4) (.scanf .blank (.literal .blank (.str "%d"))
        [.index .blank "xs" (.literal .blank (.int 1))]),
      .ret (.ofLine 4) (some (.literal .blank (.int 0)))]⟩]

/-- No type is noted on it. -/
def Part.isUnnoted : Part → Bool
  | .expr e => e.ty?.isNone
  | .name _ => true

/-- Forms of all kinds that note types in ways of their own have none, and have them once the program
is accepted. So have the parts of an addition that is checked on its own, where nothing is known. -/
theorem check_annotates_labelling : labelling.parts.all Part.isUnnoted = true ∧
    (∃ checked, labelling.check = .ok checked ∧ checked.program.bare = labelling.bare ∧
      ∀ e : Expr, .expr e ∈ checked.program.parts → ∃ t, e.ty? = some t) ∧
    ∃ l r : Expr, (Expr.check (.binary .blank .add (.literal .blank (.int 1))
        (.literal .blank (.int 2))) .start).1 = (.int, .binary ⟨.unknown, some .int⟩ .add l r) ∧
      (∃ t, l.ty? = some t) ∧ ∃ t, r.ty? = some t := by
  have accepted : (labelling.admits fun _ => true) = true := by decide +kernel
  obtain ⟨checked, hc, -⟩ := Program.of_admits accepted
  refine ⟨by decide +kernel, ⟨checked, hc, check_annotates.1 labelling checked hc⟩, _, _, rfl, ?_⟩
  have all := (check_annotates.2 .start (.binary .blank .add (.literal .blank (.int 1))
    (.literal .blank (.int 2))) rfl).2
  exact ⟨all _ (.tail _ (.head _)), all _ (.tail _ (.tail _ (.head _)))⟩

end Brace
