import Brace.Proofs.Reports.Program
import Brace.Proofs.Typing.Bare

/-!
# Casts — types that are noted before checking

Checking notes a type on each expression that it goes into, whatever was noted there. So types that are
noted in a program beforehand are no matter: it is accepted where it is accepted without them, and is
given back alike. Two pieces of checking are `Twins` if they do the same where either reports nothing.
What stands for a format is not checked as an expression, and what is written there but no text is
reported and given back with its notes; hence the condition.

* `Program.check_of_bare`: programs that are the same apart from types are accepted alike.
-/

namespace Brace

open Check

variable {α β : Type}

/-- Where either of the two reports nothing, both do the same. -/
structure Check.Twins (u v : Check α) : Prop where
  left  : ∀ c : Checker, c.Later (u c).2
  right : ∀ c : Checker, c.Later (v c).2
  same  : ∀ c : Checker, (u c).2.errors = c.errors ∨ (v c).2.errors = c.errors → u c = v c

namespace Check.Twins

variable {u v : Check α}

theorem pure {a b : α} (h : a = b) : Twins (Pure.pure a) (Pure.pure b) :=
  ⟨fun c => .refl c, fun c => .refl c, fun _ _ => h ▸ rfl⟩

/-- What is no different. -/
theorem refl {Γ : Scene} {Q : α → Prop} (h : Leads False .start u Γ Q) : Twins u u :=
  ⟨h.later, h.later, fun _ _ => rfl⟩

/-- One after another, twins are twins. -/
theorem bind {f g : α → Check β} (h : Twins u v) (hf : ∀ a, Twins (f a) (g a)) :
    Twins (u >>= f) (v >>= g) where
  left c := (h.left c).trans ((hf _).left _)
  right c := (h.right c).trans ((hf _).right _)
  same c := by
    have on (e : u c = v c) (clean : (f (u c).1 (u c).2).2.errors = (u c).2.errors ∨
        (g (v c).1 (v c).2).2.errors = (v c).2.errors) : (u >>= f) c = (v >>= g) c := by
      show f (u c).1 (u c).2 = g (v c).1 (v c).2
      rw [← e] at clean ⊢
      exact (hf _).same _ clean
    rintro (clean | clean)
    · obtain ⟨e₁, e₂⟩ := (h.left c).clean ((hf _).left _) clean
      exact on (h.same c (.inl e₁)) (.inl e₂)
    · obtain ⟨e₁, e₂⟩ := (h.right c).clean ((hf _).right _) clean
      exact on (h.same c (.inr e₁)) (.inr e₂)

/-- After what is no different. -/
theorem after {Γ : Scene} {Q : α → Prop} {f g : α → Check β} (h : Leads False .start u Γ Q)
    (hf : ∀ a, Twins (f a) (g a)) : Twins (u >>= f) (u >>= g) := bind (refl h) hf

/-- An error that is reported is reported by both. -/
theorem report (cause : Cause) (p : Position) :
    Twins (Check.report cause p) (Check.report cause p) :=
  refl (.report cause p : Leads False .start _ .start fun _ => True)

/-- Both report something, so whatever follows is no matter. -/
theorem reported (cause cause' : Cause) (p p' : Position) {a b : α} :
    Twins (Check.report cause p >>= fun _ => Pure.pure a)
      (Check.report cause' p' >>= fun _ => Pure.pure b) where
  left := Adds.report_later cause p
  right := Adds.report_later cause' p'
  same c clean := by
    rcases clean with clean | clean
    · exact absurd clean (Adds.not_clean cause p c)
    · exact absurd clean (Adds.not_clean cause' p' c)

/-- A name that means nothing is reported, so what is done then is no matter. -/
theorem lookup (x : String) (p : Position) {f g : Option Symbol → Check α}
    (hf : ∀ s, Twins (f (some s)) (g (some s))) (hn : Twins (f none) (f none))
    (hn' : Twins (g none) (g none)) : Twins (lookup x p >>= f) (lookup x p >>= g) := by
  have later (c : Checker) : c.Later (Check.lookup x p c).2 :=
    (lookup_leads x p : Leads False .start _ _ _).later c
  have rest {h : Option Symbol → Check α} (hs : ∀ s, ∀ c : Checker, c.Later (h (some s) c).2)
      (hn : ∀ c : Checker, c.Later (h none c).2) (r : Option Symbol) :
      ∀ c : Checker, c.Later (h r c).2 := by
    cases r with
    | some s => exact hs s
    | none => exact hn
  have left := rest (fun s => (hf s).left) hn.left
  have right := rest (fun s => (hf s).right) hn'.left
  refine ⟨fun c => (later c).trans (left _ _), fun c => (later c).trans (right _ _), ?_⟩
  intro c clean
  have known : (Check.lookup x p c).2.errors = c.errors :=
    clean.elim (fun e => ((later c).clean (left _ _) e).1) fun e => ((later c).clean (right _ _) e).1
  obtain ⟨s, hs⟩ := lookup_clean x p c known
  have same := (hf s).same (Check.lookup x p c).2
  rw [← hs] at same
  refine same (clean.imp (fun e => ?_) fun e => ?_)
  · exact ((later c).clean (left _ _) e).2
  · exact ((later c).clean (right _ _) e).2

/-- After a report that a test calls for in both. -/
theorem reportIf {b : Prop} [Decidable b] (cause : Cause) (p : Position) {k l : Unit → Check α}
    (h : Twins (k ()) (l ())) : Twins (if b then Check.report cause p >>= k else k ())
      (if b then Check.report cause p >>= l else l ()) := by
  split
  · exact (report cause p).bind fun _ => h
  · exact h

/-- Over a list, twins are twins. -/
theorem mapM {f : α → Check α} {g : α → α} (h : ∀ a, Twins (f a) (f (g a))) :
    ∀ as : List α, Twins (as.mapM f) ((as.map g).mapM f)
  | []      => pure rfl
  | a :: as => by
      rw [List.map_cons, List.mapM_cons, List.mapM_cons]
      exact (h a).bind fun b => (mapM h as).bind fun bs => pure rfl

/-- Inside a frame of names, twins are twins. -/
theorem inFrame (p : Position) (h : Twins u v) : Twins (inFrame p u) (inFrame p v) where
  left := later_inFrame p h.left
  right := later_inFrame p h.right
  same c clean := by
    rw [inFrame_apply p h.left, inFrame_apply p h.right] at clean
    rw [inFrame_apply p h.left, inFrame_apply p h.right, h.same c.entered clean]

theorem withLoop (inLoop : Bool) (h : Twins u v) : Twins (withLoop inLoop u) (withLoop inLoop v) where
  left := later_withLoop inLoop h.left
  right := later_withLoop inLoop h.right
  same c clean := by
    have e := h.same { c with inLoop } clean
    show ((u { c with inLoop }).1, { (u { c with inLoop }).2 with inLoop := c.inLoop }) =
      ((v { c with inLoop }).1, { (v { c with inLoop }).2 with inLoop := c.inLoop })
    rw [e]

theorem withFunction (f : Context) (h : Twins u v) :
    Twins (withFunction f u) (withFunction f v) where
  left := later_withFunction f h.left
  right := later_withFunction f h.right
  same c clean := by
    have e := h.same { c with function := some f } clean
    show ((u { c with function := some f }).1,
        { (u { c with function := some f }).2 with function := c.function }) =
      ((v { c with function := some f }).1,
        { (v { c with function := some f }).2 with function := c.function })
    rw [e]

end Check.Twins

/-! ### Expressions -/

namespace Expr

theorem pos_bare (e : Expr) : e.bare.pos = e.pos := by cases e <;> rfl

theorem kind_bare (e : Expr) : e.bare.kind = e.kind := by cases e <;> rfl

/-- A format that is no text written out is reported. -/
theorem twins_format (format : Expr) (args : List (Ty × Expr)) {f g : Expr → Ty × Expr}
    (h : ∀ e, f e = g e) : Twins (do
      expectFormat format args
      pure (f (format.typed .str))) (do
      expectFormat format.bare args
      pure (g (format.bare.typed .str))) := by
  cases format with
  | literal n l =>
      cases l with
      | str template => exact .after (expectFormat_leads _ False.elim) fun _ => .pure (h _)
      | _ => exact .reported _ _ _ _
  | _ => exact .reported _ _ _ _

/-- Stepping is checked alike whatever is noted. -/
theorem stepTarget_twins (form : StepForm) (e : Expr) (h : Twins e.check e.bare.check) :
    Twins (stepTarget form e e.check) (stepTarget form e.bare e.bare.check) := by
  by_cases hk : e.kind = .name
  · cases e with
    | name n x =>
        exact .after (assignable_leads ..) fun t => .after (stepTy_leads ..) fun s => .pure rfl
    | _ => cases hk
  · have part : e.bare.isPart = e.isPart := by rw [isPart_eq, isPart_eq, kind_bare]
    rw [stepTarget_of_kind hk, stepTarget_of_kind (by rwa [kind_bare]), part]
    refine h.bind fun r => ?_
    split
    · rw [pos_bare]
      exact .after (stepTy_leads ..) fun s => .pure rfl
    · rw [pos_bare]
      exact .reported _ _ _ _

theorem twins_targets (es : List Expr) :
    Twins (es.forM expectTarget) ((bareAll es).forM expectTarget) := by
  induction es with
  | nil => exact .pure rfl
  | cons e es ih =>
      have target : Twins (expectTarget e) (expectTarget e.bare) := by
        cases e <;> first | exact .pure rfl | exact .report _ _
      exact target.bind fun _ => ih

/-- A callee of no kind of its own. -/
theorem callee_twins {rs : List (Ty × Expr)} {p : Position} {e : Expr}
    (hk : e.kind = .index ∨ e.kind = .other) (h : Twins e.check e.bare.check) :
    Twins (checkCallee e rs p e.check) (checkCallee e.bare rs p e.bare.check) := by
  rw [checkCallee_of_kind hk, checkCallee_of_kind (by rwa [kind_bare])]
  exact h.bind fun r => .reportIf _ _ (.pure rfl)

mutual

/-- An expression is checked alike whatever types are noted on it, one case for each form. -/
theorem check_twins : ∀ e : Expr, Twins e.check e.bare.check
  | .literal n l => by
      rw [bare, check, check]
      exact .pure rfl
  | .name n x => by
      rw [bare, check, check]
      exact .after (tyOfName_leads ..) fun t => .pure rfl
  | .group n e => by
      rw [bare, check, check]
      exact (check_twins e).bind fun r => .pure rfl
  | .arrayNew n t size => by
      rw [bare, check, check]
      exact .reportIf _ _ <| .after (resolveTy_leads ..) fun _ => (check_twins size).bind fun r =>
        .after (expectIndex_leads ..) fun _ => .pure rfl
  | .index n x i => by
      rw [bare, check, check]
      exact .after (elementTy_leads ..) fun t => (check_twins i).bind fun r =>
        .after (expectIndex_leads ..) fun _ => .pure rfl
  | .indexAssign n x i e => by
      rw [bare, check, check]
      exact .after (elementTy_leads ..) fun t => (check_twins i).bind fun r =>
        .after (expectIndex_leads ..) fun _ => (check_twins e).bind fun r =>
          .after (expectAccepted_leads ..) fun _ => .pure rfl
  | .assign n x e => by
      rw [bare, check, check]
      refine .after (assignable_leads ..) fun target => (check_twins e).bind fun r => ?_
      cases target with
      | some t => exact .after (expectAccepted_leads ..) fun _ => .pure rfl
      | none => exact .pure rfl
  | .compound n op x e => by
      rw [bare, check, check]
      refine .after (assignable_leads ..) fun target => (check_twins e).bind fun r => ?_
      cases target with
      | some t =>
          refine .after (binaryTy_leads ..) fun result => ?_
          cases result with
          | some u => exact .after (expectAccepted_leads ..) fun _ => .pure rfl
          | none => exact .pure rfl
      | none => exact .pure rfl
  | .binary n op l r => by
      rw [bare, check, check]
      exact (check_twins l).bind fun a => (check_twins r).bind fun b =>
        .after (binaryTy_leads ..) fun t => .pure rfl
  | .logical n op l r => by
      rw [bare, check, check]
      exact (check_twins l).bind fun a => (check_twins r).bind fun b =>
        .after (expectBools_leads ..) fun t => .pure rfl
  | .unary n op e => by
      rw [bare, check, check]
      exact (check_twins e).bind fun r => .after (unaryTy_leads ..) fun t => .pure rfl
  | .step n form target => by
      rw [bare, check, check]
      exact (stepTarget_twins form target (check_twins target)).bind fun r => .pure rfl
  | .cast n target e => by
      rw [bare, check, check]
      exact (check_twins e).bind fun r => .after (castTy_leads ..) fun t => .pure rfl
  | .intToFloat n e => by
      rw [bare, check, check]
      exact (check_twins e).bind fun r => .after (expectTy_leads ..) fun _ => .pure rfl
  | .get n o x => by
      rw [bare, check, check]
      exact (check_twins o).bind fun r => .after (classOf_leads ..) fun c => .pure rfl
  | .set n o x e => by
      rw [bare, check, check]
      refine (check_twins o).bind fun r => .after (classOf_leads ..) fun c =>
        (check_twins e).bind fun r' => ?_
      dsimp only
      cases c.bind (·.field? x) with
      | some field => exact .after (expectAccepted_leads ..) fun _ => .pure rfl
      | none => exact .pure rfl
  | .receiver n => by
      rw [bare, check, check]
      exact .after (tyOfName_leads ..) fun t => .pure rfl
  | .superMethod n x => by
      rw [bare, check, check]
      exact .after (superMethod_leads ..) fun sig => .pure rfl
  | .call n callee args => by
      rw [bare, check, check]
      exact (checkAll_twins args).bind fun rs =>
        (checkCallee_twins rs n.pos callee (check_twins callee)).bind fun r => .pure rfl
  | .printf n format args => by
      rw [bare, check, check]
      exact (checkAll_twins args).bind fun rs => twins_format format rs
        (f := fun e => yield .void (.printf n e (rs.map (·.2)))) fun _ => rfl
  | .scanf n format targets => by
      rw [bare, check, check]
      exact (twins_targets targets).bind fun _ => (checkAll_twins targets).bind fun rs =>
        twins_format format rs (f := fun e => yield .void (.scanf n e (rs.map (·.2)))) fun _ => rfl
  | .sprintf n x format args => by
      rw [bare, check, check]
      have filled : Twins (do
          let args ← checkAll args
          expectFormat format args
          pure (yield .void (.sprintf n x (format.typed .str) (args.map (·.2))))) (do
          let args ← checkAll (bareAll args)
          expectFormat format.bare args
          pure (yield .void (.sprintf n.bare x (format.bare.typed .str) (args.map (·.2))))) :=
        (checkAll_twins args).bind fun rs => twins_format format rs
          (f := fun e => yield .void (.sprintf n x e (rs.map (·.2)))) fun _ => rfl
      refine .after (assignable_leads ..) fun target => ?_
      cases target with
      | some t => exact .after (expectTy_leads ..) fun _ => filled
      | none => exact filled

/-- The callee of a call is checked alike whatever is noted. -/
theorem checkCallee_twins (rs : List (Ty × Expr)) (p : Position) : ∀ e : Expr,
    Twins e.check e.bare.check →
      Twins (checkCallee e rs p e.check) (checkCallee e.bare rs p e.bare.check)
  | .name m x, _ => by
      rw [bare, checkCallee, checkCallee]
      exact .lookup x m.pos (fun s => .after (callTy_leads _ _ False.elim) fun t => .pure rfl)
        (.pure rfl) (.pure rfl)
  | .get m o x, _ => by
      rw [bare, checkCallee, checkCallee]
      exact (check_twins o).bind fun r => .after (classOf_leads ..) fun c =>
        .after (methodCallTy_leads _ _ False.elim _) fun t => .pure rfl
  | .superMethod m x, _ => by
      rw [bare, checkCallee, checkCallee]
      exact .after (superMethod_leads ..) fun sig =>
        .after (methodCallTy_leads _ _ False.elim _) fun t => .pure rfl
  | .index .., h => callee_twins (.inl rfl) h
  | .literal .., h | .group .., h | .arrayNew .., h | .indexAssign .., h | .call .., h
  | .assign .., h | .compound .., h | .binary .., h | .logical .., h | .unary .., h
  | .step .., h | .cast .., h | .intToFloat .., h | .set .., h | .receiver .., h
  | .printf .., h | .scanf .., h | .sprintf .., h => callee_twins (.inr rfl) h

theorem checkAll_twins : ∀ es : List Expr, Twins (checkAll es) (checkAll (bareAll es))
  | []      => by
      rw [bareAll, checkAll]
      exact .pure rfl
  | e :: es => by
      rw [bareAll, checkAll, checkAll]
      exact (check_twins e).bind fun r => (checkAll_twins es).bind fun rs => .pure rfl

end

end Expr

/-! ### Statements -/

theorem VarDecl.check_twins (v : VarDecl) : Twins v.check v.bare.check := by
  have finish (declared : Bool) (v' : VarDecl) : Twins (do
      if declared then
        let _ ← define v.name (.var v.ty) v.pos
      pure v') (do
      if declared then
        let _ ← define v.name (.var v.ty) v.pos
      pure v') := by
    cases declared with
    | true => exact .after (define_leads ..) fun _ => .pure rfl
    | false => exact .pure rfl
  rw [check, check]
  refine .reportIf _ _ <| .after (resolveTy_leads ..) fun _ =>
    .after (declare_leads ..) fun declared => ?_
  simp only [bare]
  cases v.init with
  | some e =>
      exact e.check_twins.bind fun r => .after (expectAccepted_leads ..) fun _ =>
        finish declared { v with init := some r.2 }
  | none => exact finish declared { v with init := none }

theorem ForInit.check_twins (init : ForInit) : Twins init.check init.bare.check := by
  cases init with
  | decl v => exact v.check_twins.bind fun _ => .pure rfl
  | expr e =>
      have form : e.bare.isAssignment = e.isAssignment := by cases e <;> rfl
      rw [bare, check, check, form, e.pos_bare]
      exact .reportIf _ _ <| e.check_twins.bind fun r => .pure rfl

theorem Expr.condition_twins (e : Expr) : Twins e.checkCondition e.bare.checkCondition :=
  e.check_twins.bind fun _ => .after (expectTy_leads ..) fun _ => .pure rfl

theorem Check.update_twins (e : Expr) : Twins (update e) (update e.bare) := by
  have form : e.bare.isStep = e.isStep := by
    cases e with
    | compound n op x e => cases op <;> rfl
    | _ => rfl
  rw [update, update, form, e.pos_bare]
  exact .reportIf _ _ <| e.check_twins.bind fun r => .pure rfl

namespace Stmt

mutual

/-- A statement is checked alike whatever types are noted in it. -/
theorem check_twins : ∀ s : Stmt, Twins s.check s.bare.check
  | .block p locals body => by
      rw [bare, check, check]
      exact .inFrame p <| (Twins.mapM VarDecl.check_twins locals).bind fun locals' =>
        (checkAll_twins body).bind fun body' => .pure rfl
  | .ifElse p cond t e => by
      rw [bare, check, check]
      exact cond.condition_twins.bind fun cond' => (check_twins t).bind fun t' =>
        (check_twins e).bind fun e' => .pure rfl
  | .whileLoop p cond body => by
      rw [bare, check, check]
      exact cond.condition_twins.bind fun cond' => ((check_twins body).withLoop true).bind
        fun body' => .pure rfl
  | .forLoop p init cond update body => by
      rw [bare, check, check]
      exact .inFrame p <| init.check_twins.bind fun init' => cond.condition_twins.bind fun cond' =>
        (update_twins update).bind fun update' => ((check_twins body).withLoop true).bind
          fun body' => .pure rfl
  | .ret p (some e) => by
      rw [bare, check, Option.map_some, check]
      exact e.check_twins.bind fun _ => .after (expectReturn_leads ..) fun _ => .pure rfl
  | .ret p none => by
      rw [bare, check, Option.map_none, check]
      exact .after (expectReturn_leads ..) fun _ => .pure rfl
  | .breakLoop p => by
      rw [bare, check]
      exact .after (loopSignal_leads ..) fun _ => .pure rfl
  | .continueLoop p => by
      rw [bare, check]
      exact .after (loopSignal_leads ..) fun _ => .pure rfl
  | .expr p e => by
      rw [bare, check, check]
      exact e.check_twins.bind fun r => .pure rfl
  | .empty p => by
      rw [bare, check]
      exact .pure rfl

theorem checkAll_twins : ∀ ss : List Stmt, Twins (checkAll ss) (checkAll (bareAll ss))
  | []      => by
      rw [bareAll, checkAll]
      exact .pure rfl
  | s :: ss => by
      rw [bareAll, checkAll, checkAll]
      exact (check_twins s).bind fun s' => (checkAll_twins ss).bind fun ss' => .pure rfl

end

end Stmt

/-! ### Programs -/

/-- The body of a function is checked alike whatever types are noted in it. -/
theorem FuncDecl.checkBody_twins (f : FuncDecl) : Twins f.checkBody f.bare.checkBody := by
  rw [checkBody, checkBody]
  refine .after (resolveTy_leads ..) fun _ => .bind (.inFrame f.pos ?_) fun g =>
    .reportIf _ _ (.pure rfl)
  exact .after (params_leads f.pos f.params Scene.start_top.full) fun _ =>
    .withLoop false <| .withFunction _ <| (Twins.mapM VarDecl.check_twins f.locals).bind fun locals =>
      (Stmt.checkAll_twins f.body).bind fun body => .pure rfl

theorem FuncDecl.check_twins (f : FuncDecl) : Twins f.check f.bare.check :=
  .after (define_leads ..) fun _ => f.checkBody_twins

namespace ClassDecl

variable (d : ClassDecl)

/-- The table of methods has their signatures, in which there is no code. -/
theorem methodTable_bare (fields : Table Ty) : d.bare.methodTable fields = d.methodTable fields := by
  rw [methodTable, methodTable]
  exact List.foldlM_map ..

theorem checkInside_twins (superclass : Option ClassInfo) :
    Twins (d.checkInside superclass) (d.bare.checkInside superclass) := by
  have methods : Twins (do
      let methods ← d.methods.mapM FuncDecl.checkBody
      pure { d with methods }) (do
      let methods ← d.bare.methods.mapM FuncDecl.checkBody
      pure { d.bare with methods }) :=
    (Twins.mapM FuncDecl.checkBody_twins d.methods).bind fun _ => .pure rfl
  refine .inFrame d.pos (.after (define_leads ..) fun _ => ?_)
  cases superclass with
  | none => exact methods
  | some c => exact .after (define_leads ..) fun _ => methods

theorem checkBelow_twins (superclass : Option ClassInfo) :
    Twins (d.checkBelow superclass) (d.bare.checkBelow superclass) := by
  have fields : Twins (d.fields.forM fun x => do
      let _ ← resolveTy d.pos x.ty) (d.fields.forM fun x => do
      let _ ← resolveTy d.pos x.ty) :=
    .refl (.forM d.fields fun x _ => .bind (resolveTy_leads ..) fun _ => .pure And.right)
  have inside := fields.bind fun _ => d.checkInside_twins superclass
  refine .after d.fieldTable_leads fun fields => ?_
  rw [methodTable_bare]
  refine .after (d.methodTable_leads fields) fun methods => .after (define_leads ..) fun defined => ?_
  cases defined with
  | true => exact .after (putClass_leads ..) fun _ => inside
  | false => exact inside

/-- A class is checked alike whatever types are noted in it. -/
theorem check_twins : Twins d.check d.bare.check := by
  rw [check_eq_below, check_eq_below]
  exact .after d.superInfo_leads fun superclass => d.checkBelow_twins superclass

end ClassDecl

theorem Decl.check_twins (d : Decl) : Twins d.check d.bare.check := by
  cases d with
  | var v => exact v.check_twins.bind fun _ => .pure rfl
  | func f => exact f.check_twins.bind fun _ => .pure rfl
  | cls d => exact d.check_twins.bind fun _ => .pure rfl

namespace Program

variable {p p' : Program} {checked : Checked}

/-- A program is accepted where its declarations report nothing. -/
theorem check_of_clean (h : ((p.mapM Decl.check).run .start).2.errors = #[]) :
    p.check = .ok ⟨((p.mapM Decl.check).run .start).1,
      ((p.mapM Decl.check).run .start).2.warnings.toList⟩ := by
  rw [check_eq]
  exact if_pos (Array.isEmpty_iff.mpr h)

/-- The declarations of a program are checked alike whatever types are noted in them. -/
theorem check_bare : Twins (p.mapM Decl.check) (p.bare.mapM Decl.check) :=
  .mapM Decl.check_twins p

/-- **What is noted in a program before it is checked is no matter.**  If a program is accepted, so is
every program that is the same apart from types that are noted in it, and checking gives it back alike. -/
theorem check_of_bare (h : p'.bare = p.bare) (hc : p.check = .ok checked) :
    p'.check = .ok checked := by
  have clean := (clean_of_check hc).1
  have bare : (p.mapM Decl.check) Checker.start = (p.bare.mapM Decl.check) Checker.start :=
    check_bare.same .start (.inl clean)
  have bare' : (p'.mapM Decl.check) Checker.start = (p'.bare.mapM Decl.check) Checker.start := by
    refine check_bare.same .start (.inr ?_)
    rw [h, ← bare]
    exact clean
  have same : (p'.mapM Decl.check).run .start = (p.mapM Decl.check).run .start := by
    show (p'.mapM Decl.check) Checker.start = (p.mapM Decl.check) Checker.start
    rw [bare', h, bare]
  rw [← hc, check_of_clean clean, check_of_clean (by rw [same]; exact clean), same]

end Program

end Brace
