import Brace.Proofs.Typing.Program

/-!
# Typing — what checking leaves as it is

Checking notes types on expressions and leaves the rest of a program as it is. So a program that is
given back is the one that was checked, apart from the types that are noted in it, and what is said of a
program apart from its types may be said of either.

* `Program.bare_of_check`: without types, a checked program is what it was before.
-/

namespace Brace

open Check

variable {α β : Type}

/-- Whatever the checker is like, the result is such. -/
def Check.Always (x : Check α) (Q : α → Prop) : Prop := ∀ c, Q (x c).1

namespace Check.Always

variable {Q : β → Prop}

theorem pure {a : β} (h : Q a) : Always (Pure.pure a) Q := fun _ => h

/-- What always holds of one thing after another is what holds of the second. -/
theorem bind {R : α → Prop} {x : Check α} {f : α → Check β} (hx : Always x R)
    (hf : ∀ a, R a → Always (f a) Q) : Always (x >>= f) Q := fun c => hf _ (hx c) _

/-- The result of the first is no matter. -/
theorem after {x : Check α} {f : α → Check β} (hf : ∀ a, Always (f a) Q) : Always (x >>= f) Q :=
  bind (R := fun _ => True) (fun _ => trivial) fun a _ => hf a

/-- What may be reported first is no matter. -/
theorem reportIf {b : Prop} [Decidable b] (cause : Cause) (p : Position) {k : Unit → Check β}
    (h : Always (k ()) Q) : Always (if b then report cause p >>= k else k ()) Q := by
  split
  · exact after fun _ => h
  · exact h

/-- Each member is given back as it was, apart from what `g` leaves out. -/
theorem mapM {γ : Type} {f : α → Check α} {g : α → γ} (hf : ∀ a, Always (f a) fun b => g b = g a) :
    ∀ as : List α, Always (as.mapM f) fun bs => bs.map g = as.map g
  | []      => by
      rw [List.mapM_nil]
      exact pure rfl
  | a :: as => by
      rw [List.mapM_cons]
      refine bind (hf a) fun b h => bind (mapM hf as) fun bs hs => pure ?_
      rw [List.map_cons, List.map_cons, h, hs]

/-- A frame of its own makes no difference to what something gives. -/
theorem inFrame (p : Position) {x : Check β} (hx : Always x Q) : Always (inFrame p x) Q :=
  after fun _ => bind hx fun _ h => after fun _ => pure h

/-- Nor does a loop. -/
theorem withLoop (inLoop : Bool) {x : Check β} (hx : Always x Q) : Always (withLoop inLoop x) Q :=
  after fun _ => after fun _ => bind hx fun _ h => after fun _ => pure h

/-- Nor does a function. -/
theorem withFunction (f : Context) {x : Check β} (hx : Always x Q) :
    Always (withFunction f x) Q :=
  after fun _ => after fun _ => bind hx fun _ h => after fun _ => pure h

end Check.Always

/-! ### Without types -/

/-- The note without a type. -/
def Note.bare (n : Note) : Note := ⟨n.pos, none⟩

namespace Expr

mutual

/-- The expression without the types that are noted on it and in it. -/
def bare : Expr → Expr
  | .literal n v         => .literal n.bare v
  | .name n x            => .name n.bare x
  | .group n e           => .group n.bare e.bare
  | .arrayNew n t e      => .arrayNew n.bare t e.bare
  | .index n a i         => .index n.bare a i.bare
  | .indexAssign n a i v => .indexAssign n.bare a i.bare v.bare
  | .call n c args       => .call n.bare c.bare (bareAll args)
  | .assign n x v        => .assign n.bare x v.bare
  | .compound n op x v   => .compound n.bare op x v.bare
  | .binary n op l r     => .binary n.bare op l.bare r.bare
  | .logical n op l r    => .logical n.bare op l.bare r.bare
  | .unary n op e        => .unary n.bare op e.bare
  | .step n form e       => .step n.bare form e.bare
  | .cast n t e          => .cast n.bare t e.bare
  | .intToFloat n e      => .intToFloat n.bare e.bare
  | .get n o x           => .get n.bare o.bare x
  | .set n o x v         => .set n.bare o.bare x v.bare
  | .receiver n          => .receiver n.bare
  | .superMethod n m     => .superMethod n.bare m
  | .printf n t args     => .printf n.bare t.bare (bareAll args)
  | .scanf n t args      => .scanf n.bare t.bare (bareAll args)
  | .sprintf n x t args  => .sprintf n.bare x t.bare (bareAll args)

def bareAll : List Expr → List Expr
  | []      => []
  | e :: es => e.bare :: bareAll es

end

/-- To take the types out of expressions is to take them out of each. -/
@[simp] theorem bareAll_eq_map (es : List Expr) : bareAll es = es.map bare := by
  induction es with
  | nil => rw [bareAll, List.map_nil]
  | cons e es ih => rw [bareAll, ih, List.map_cons]

/-- Noting a type is no matter. -/
@[simp] theorem bare_typed (e : Expr) (t : Ty) : (e.typed t).bare = e.bare := by
  cases e <;> simp [typed, mapNote, bare, Note.bare]

end Expr

def VarDecl.bare (v : VarDecl) : VarDecl := { v with init := v.init.map Expr.bare }

def ForInit.bare : ForInit → ForInit
  | .decl v => .decl v.bare
  | .expr e => .expr e.bare

namespace Stmt

mutual

def bare : Stmt → Stmt
  | .block p locals body => .block p (locals.map VarDecl.bare) (bareAll body)
  | .ifElse p cond t e => .ifElse p cond.bare t.bare e.bare
  | .whileLoop p cond body => .whileLoop p cond.bare body.bare
  | .forLoop p init cond update body => .forLoop p init.bare cond.bare update.bare body.bare
  | .ret p value => .ret p (value.map Expr.bare)
  | .breakLoop p => .breakLoop p
  | .continueLoop p => .continueLoop p
  | .expr p e => .expr p e.bare
  | .empty p => .empty p

def bareAll : List Stmt → List Stmt
  | []      => []
  | s :: ss => s.bare :: bareAll ss

end

end Stmt

def FuncDecl.bare (f : FuncDecl) : FuncDecl :=
  { f with locals := f.locals.map VarDecl.bare, body := Stmt.bareAll f.body }

def ClassDecl.bare (d : ClassDecl) : ClassDecl := { d with methods := d.methods.map FuncDecl.bare }

def Decl.bare : Decl → Decl
  | .var v  => .var v.bare
  | .func f => .func f.bare
  | .cls d  => .cls d.bare

/-- The program without the types that are noted in it. -/
def Program.bare (p : Program) : Program := p.map Decl.bare

/-! ### Expressions -/

namespace Expr

/-- To check the target of a step changes nothing but types. -/
theorem bare_stepTarget (form : StepForm) (target : Expr) {general : Check (Ty × Expr)}
    (hg : Always general fun r => r.2.bare = target.bare) :
    Always (stepTarget form target general) fun r => r.2.bare = target.bare := by
  have part : Always (do
      let r ← general
      if target.isPart then
        let s ← stepTy form r.1 target.pos
        Pure.pure (s, r.2)
      else
        report (.unsupportedOperation form.text "a value that cannot be assigned to") target.pos
        Pure.pure (.any, r.2)) fun r => r.2.bare = target.bare := by
    refine .bind hg fun r h => ?_
    split
    · exact .after fun _ => .pure h
    · exact .after fun _ => .pure h
  cases target with
  | name n x => exact .after fun t => .after fun s => .pure (bare_typed (.name n x) _)
  | _ => exact part

/-- A callee of no kind of its own. -/
theorem bare_callee {rs : List (Ty × Expr)} {p : Position} {e : Expr}
    {general : Check (Ty × Expr)} (hk : e.kind = .index ∨ e.kind = .other)
    (hg : Always general fun r => r.2.bare = e.bare) :
    Always (checkCallee e rs p general) fun r => r.2.bare = e.bare := by
  rw [checkCallee_of_kind hk]
  exact .bind hg fun r h => .reportIf _ _ (.pure h)

mutual

/-- Checking an expression leaves it as it is, apart from types. -/
theorem check_bare : ∀ e : Expr, Always e.check fun r => r.2.bare = e.bare
  | .literal n l => by
      rw [check]
      exact .pure (bare_typed (.literal n l) _)
  | .name n x => by
      rw [check]
      exact .after fun _ => .pure (bare_typed (.name n x) _)
  | .group n e => by
      rw [check]
      refine .bind (check_bare e) fun r h => .pure ?_
      simp [yield, bare, h]
  | .arrayNew n t size => by
      rw [check]
      refine .reportIf _ _ <| .after fun _ => .bind (check_bare size) fun r h => .after fun _ => .pure ?_
      simp [yield, bare, h]
  | .index n x i => by
      rw [check]
      refine .after fun _ => .bind (check_bare i) fun r h => .after fun _ => .pure ?_
      simp [yield, bare, h]
  | .indexAssign n x i e => by
      rw [check]
      refine .after fun _ => .bind (check_bare i) fun r h => .after fun _ =>
        .bind (check_bare e) fun r' h' => .after fun _ => .pure ?_
      simp [yield, bare, h, h']
  | .assign n x e => by
      rw [check]
      refine .after fun target => .bind (check_bare e) fun r h => ?_
      cases target with
      | some t => exact .after fun _ => .pure (by simp [yield, bare, h])
      | none => exact .pure (by simp [yield, bare, h])
  | .compound n op x e => by
      rw [check]
      refine .after fun target => .bind (check_bare e) fun r h => ?_
      cases target with
      | some t =>
          refine .after fun result => ?_
          cases result with
          | some u => exact .after fun _ => .pure (by simp [yield, bare, h])
          | none => exact .pure (by simp [yield, bare, h])
      | none => exact .pure (by simp [yield, bare, h])
  | .binary n op l r => by
      rw [check]
      refine .bind (check_bare l) fun a h => .bind (check_bare r) fun b h' => .after fun _ => .pure ?_
      simp [yield, bare, h, h']
  | .logical n op l r => by
      rw [check]
      refine .bind (check_bare l) fun a h => .bind (check_bare r) fun b h' => .after fun _ => .pure ?_
      simp [yield, bare, h, h']
  | .unary n op e => by
      rw [check]
      refine .bind (check_bare e) fun r h => .after fun _ => .pure ?_
      simp [yield, bare, h]
  | .step n form target => by
      rw [check]
      refine .bind (bare_stepTarget form target (check_bare target)) fun r h => .pure ?_
      simp [yield, bare, h]
  | .cast n target e => by
      rw [check]
      refine .bind (check_bare e) fun r h => .after fun _ => .pure ?_
      simp [yield, bare, h]
  | .intToFloat n e => by
      rw [check]
      refine .bind (check_bare e) fun r h => .after fun _ => .pure ?_
      simp [yield, bare, h]
  | .get n o x => by
      rw [check]
      refine .bind (check_bare o) fun r h => .after fun _ => .pure ?_
      simp [yield, bare, h]
  | .set n o x e => by
      rw [check]
      refine .bind (check_bare o) fun r h => .after fun c => .bind (check_bare e) fun r' h' => ?_
      cases c.bind (·.field? x) with
      | some field => exact .after fun _ => .pure (by simp [yield, bare, h, h'])
      | none => exact .pure (by simp [yield, bare, h, h'])
  | .receiver n => by
      rw [check]
      exact .after fun _ => .pure (bare_typed (.receiver n) _)
  | .superMethod n x => by
      rw [check]
      exact .after fun _ => .pure (bare_typed (.superMethod n x) _)
  | .call n callee args => by
      rw [check]
      refine .bind (checkAll_bare args) fun rs h =>
        .bind (checkCallee_bare rs n.pos callee (check_bare callee)) fun r h' => .pure ?_
      simp [yield, bare, ← h, h']
  | .printf n format args => by
      rw [check]
      refine .bind (checkAll_bare args) fun rs h => .after fun _ => .pure ?_
      simp [yield, bare, ← h]
  | .scanf n format targets => by
      rw [check]
      refine .after fun _ => .bind (checkAll_bare targets) fun rs h => .after fun _ => .pure ?_
      simp [yield, bare, ← h]
  | .sprintf n x format args => by
      rw [check]
      refine .after fun target => ?_
      have rest : Always (do
          let args ← checkAll args
          expectFormat format args
          Pure.pure (yield .void (.sprintf n x (format.typed .str) (args.map (·.2)))))
          fun r => r.2.bare = (sprintf n x format args).bare := by
        refine .bind (checkAll_bare args) fun rs h => .after fun _ => .pure ?_
        simp [yield, bare, ← h]
      cases target with
      | some t => exact .after fun _ => rest
      | none => exact rest

/-- To check what is called changes nothing but types. -/
theorem checkCallee_bare (rs : List (Ty × Expr)) (p : Position) : ∀ e : Expr,
    Always e.check (fun r => r.2.bare = e.bare) →
      Always (checkCallee e rs p e.check) fun r => r.2.bare = e.bare
  | .name m x, _ => by
      rw [checkCallee]
      refine .after fun s => ?_
      cases s with
      | some s => exact .after fun _ => .pure (bare_typed (.name m x) _)
      | none => exact .pure rfl
  | .get m o x, _ => by
      rw [checkCallee]
      refine .bind (check_bare o) fun r h => .after fun _ => .after fun _ => .pure ?_
      simp [bare, h]
  | .superMethod m x, _ => by
      rw [checkCallee]
      exact .after fun _ => .after fun _ => .pure (bare_typed (.superMethod m x) _)
  | .index .., hg => bare_callee (.inl rfl) hg
  | .literal .., hg | .group .., hg | .arrayNew .., hg | .indexAssign .., hg | .call .., hg
  | .assign .., hg | .compound .., hg | .binary .., hg | .logical .., hg | .unary .., hg
  | .step .., hg | .cast .., hg | .intToFloat .., hg | .set .., hg | .receiver .., hg
  | .printf .., hg | .scanf .., hg | .sprintf .., hg => bare_callee (.inr rfl) hg

/-- To check expressions one after another changes nothing but types. -/
theorem checkAll_bare : ∀ es : List Expr,
    Always (checkAll es) fun rs => rs.map (·.2.bare) = es.map bare
  | []      => by
      rw [checkAll]
      exact .pure rfl
  | e :: es => by
      rw [checkAll]
      refine .bind (check_bare e) fun r h => .bind (checkAll_bare es) fun rs hs => .pure ?_
      rw [List.map_cons, List.map_cons, h, hs]

end

end Expr

/-! ### Statements -/

/-- To check a variable changes nothing but types. -/
theorem VarDecl.check_bare (v : VarDecl) : Always v.check fun v' => v'.bare = v.bare := by
  have finish (declared : Bool) (init : Option Expr)
      (h : init.map Expr.bare = v.init.map Expr.bare) :
      Always (do
        if declared then
          let _ ← define v.name (.var v.ty) v.pos
        Pure.pure { v with init }) fun v' => v'.bare = v.bare := by
    have same : VarDecl.bare { v with init } = v.bare := by simp only [bare, h]
    cases declared with
    | true => exact .after fun _ => .pure same
    | false => exact .pure same
  rw [check]
  refine .reportIf _ _ <| .after fun _ => .after fun declared => ?_
  cases e : v.init with
  | some e' =>
      refine .bind e'.check_bare fun r h => .after fun _ => finish declared (some r.2) ?_
      simp [e, h]
  | none => exact finish declared none (by rw [e])

/-- So it is with an `init` clause. -/
theorem ForInit.check_bare (init : ForInit) :
    Always init.check fun init' => init'.bare = init.bare := by
  cases init with
  | decl v => exact .bind v.check_bare fun _ h => .pure (congrArg ForInit.decl h)
  | expr e =>
      rw [check]
      exact .reportIf _ _ <| .bind e.check_bare fun r h => .pure (congrArg ForInit.expr h)

/-- So it is with a condition. -/
theorem Expr.checkCondition_bare (e : Expr) :
    Always e.checkCondition fun e' => e'.bare = e.bare :=
  .bind e.check_bare fun _ h => .after fun _ => .pure h

theorem Check.update_bare (e : Expr) : Always (update e) fun e' => e'.bare = e.bare := by
  rw [update]
  exact .reportIf _ _ <| .bind e.check_bare fun _ h => .pure h

namespace Stmt

mutual

/-- So it is with a statement and all those inside it. -/
theorem check_bare : ∀ s : Stmt, Always s.check fun s' => s'.bare = s.bare
  | .block p locals body => by
      rw [check]
      refine .inFrame p (.bind (.mapM VarDecl.check_bare locals) fun locals' hl =>
        .bind (checkAll_bare body) fun body' hb => .pure ?_)
      rw [bare, bare, hl, hb]
  | .ifElse p cond t e => by
      rw [check]
      refine .bind cond.checkCondition_bare fun cond' hc => .bind (check_bare t) fun t' ht =>
        .bind (check_bare e) fun e' he => .pure ?_
      rw [bare, bare, hc, ht, he]
  | .whileLoop p cond body => by
      rw [check]
      refine .bind cond.checkCondition_bare fun cond' hc =>
        .bind (.withLoop true (check_bare body)) fun body' hb => .pure ?_
      rw [bare, bare, hc, hb]
  | .forLoop p init cond update body => by
      rw [check]
      refine .inFrame p (.bind init.check_bare fun init' hi =>
        .bind cond.checkCondition_bare fun cond' hc => .bind (update_bare update) fun update' hu =>
          .bind (.withLoop true (check_bare body)) fun body' hb => .pure ?_)
      rw [bare, bare, hi, hc, hu, hb]
  | .ret p (some e) => by
      rw [check]
      refine .bind e.check_bare fun r h => .after fun _ => .pure ?_
      rw [bare, bare, Option.map_some, Option.map_some, h]
  | .ret p none => by
      rw [check]
      exact .after fun _ => .pure rfl
  | .breakLoop p => by
      rw [check]
      exact .after fun _ => .pure rfl
  | .continueLoop p => by
      rw [check]
      exact .after fun _ => .pure rfl
  | .expr p e => by
      rw [check]
      refine .bind e.check_bare fun r h => .pure ?_
      rw [bare, bare, h]
  | .empty p => by
      rw [check]
      exact .pure rfl

theorem checkAll_bare : ∀ ss : List Stmt, Always (checkAll ss) fun ss' => bareAll ss' = bareAll ss
  | []      => by
      rw [checkAll]
      exact .pure rfl
  | s :: ss => by
      rw [checkAll]
      refine .bind (check_bare s) fun s' h => .bind (checkAll_bare ss) fun ss' hs => .pure ?_
      rw [bareAll, bareAll, h, hs]

end

end Stmt

/-! ### Programs -/

/-- So it is with the body of a function. -/
theorem FuncDecl.checkBody_bare (f : FuncDecl) : Always f.checkBody fun f' => f'.bare = f.bare := by
  rw [checkBody]
  refine .after fun _ => .bind (.inFrame f.pos (.after fun _ => .withLoop false
    (.withFunction _ (.bind (.mapM VarDecl.check_bare f.locals) fun locals hl =>
      .bind (Stmt.checkAll_bare f.body) fun body hb => .pure ?_)))) fun f' h => .reportIf _ _ (.pure h)
  simp only [bare, hl, hb]

/-- So it is with a class. -/
theorem ClassDecl.check_bare (d : ClassDecl) : Always d.check fun d' => d'.bare = d.bare := by
  have methods : Always (do
      let methods ← d.methods.mapM FuncDecl.checkBody
      pure { d with methods }) fun d' => d'.bare = d.bare :=
    .bind (.mapM FuncDecl.checkBody_bare d.methods) fun methods h => .pure (by
      simp only [bare, h])
  have inside (received : Check Unit) : Always (inFrame d.pos do
      let _ ← define "this" (.receiver (.object d.name)) d.pos
      received
      let methods ← d.methods.mapM FuncDecl.checkBody
      pure { d with methods }) fun d' => d'.bare = d.bare :=
    .inFrame d.pos (.after fun _ => .after fun _ => methods)
  rw [check]
  refine .after fun superclass => .after fun fields => .after fun methods => .after fun defined => ?_
  cases superclass with
  | some c =>
      have below := inside do
        let _ ← define "super" (.cls c) d.pos
      cases defined with
      | true => exact .after fun _ => .after fun _ => below
      | false => exact .after fun _ => below
  | none =>
      cases defined with
      | true => exact .after fun _ => .after fun _ => inside (pure ())
      | false => exact .after fun _ => inside (pure ())

/-- So it is with a declaration. -/
theorem Decl.check_bare (d : Decl) : Always d.check fun d' => d'.bare = d.bare := by
  cases d with
  | var v => exact .bind v.check_bare fun _ h => .pure (congrArg Decl.var h)
  | func f => exact .bind (.after fun _ => f.checkBody_bare) fun _ h => .pure (congrArg Decl.func h)
  | cls d => exact .bind d.check_bare fun _ h => .pure (congrArg Decl.cls h)

/-- Without types, a checked program is what it was before. -/
theorem Program.bare_of_check {p : Program} {checked : Checked} (h : p.check = .ok checked) :
    checked.program.bare = p.bare := by
  rw [(clean_of_check h).2]
  exact Always.mapM Decl.check_bare p .start

end Brace
