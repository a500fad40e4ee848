import Brace.Proofs.Typing.Moments

/-!
# Typing — checking that reports nothing, moment by moment

Where checking takes up a piece of an accepted program, it is in a scene, and reports nothing on that
piece (`Check.Taken`). So it is with the pieces inside, each at its own moment, and what is given for
the whole is made of what is given for them.

* `Stmt.block_taken` and its like: the pieces of a construct, and what checking makes of them.
* `Program.taken_of_scene`, `Program.taken_of_declares`: the declarations of an accepted program, and
  the functions in them, have come of pieces that checking has taken up.
-/

namespace Brace

open Check

variable {α β : Type} {c : Checker} {Γ : Scene} {ks : List FrameId}

/-- Checking takes this up in `c`, where `Γ` is known and these frames are in scope, and reports
nothing. -/
structure Check.Taken (x : Check α) (c : Checker) (Γ : Scene) (ks : List FrameId) : Prop
    extends c.At Γ where
  lawful : Γ.Lawful
  chain  : c.scopes.chain c.here = ks
  clean  : (x c).2.errors = c.errors

/-- The frames in scope are the same later on. -/
theorem Checker.Later.chain {c' : Checker} (h : c.Later c') (hc : c.here.frame < c.scopes.next) :
    c'.scopes.chain c'.here = c.scopes.chain c.here := by
  rw [h.here, Forest.chain, Forest.chain, h.scopes.outer _ hc]

namespace Check

/-- One thing after another leads to a later state if both parts do. -/
theorem later_bind {x : Check α} {f : α → Check β} (hx : ∀ c : Checker, c.Later (x c).2)
    (hf : ∀ a, ∀ c : Checker, c.Later (f a c).2) (c : Checker) : c.Later ((x >>= f) c).2 :=
  (hx c).trans (hf _ _)

theorem later_pure (a : α) (c : Checker) : c.Later ((pure a : Check α) c).2 := .refl c

/-- What is checked in a frame of its own leads to a later state. -/
theorem later_inFrame (p : Position) {x : Check α} (hx : ∀ c : Checker, c.Later (x c).2)
    (c : Checker) : c.Later (inFrame p x c).2 := by
  rw [inFrame_apply p hx c]
  exact (hx c.entered).left

/-- A report on the way leads to a later state. -/
theorem later_reportIf {b : Prop} [Decidable b] (cause : Cause) (p : Position)
    {k : Unit → Check α} (hk : ∀ c : Checker, c.Later (k () c).2) (c : Checker) :
    c.Later ((if b then report cause p >>= k else k ()) c).2 := by
  split
  · have reported : Leads True .start (report cause p) .start fun _ => True := .report cause p
    exact later_bind reported.later (fun _ => hk) c
  · exact hk c

namespace Taken

/-- Of one thing after another, the second is taken up where the first leads to. -/
theorem split {x : Check α} {f : α → Check β} {Γ₁ : Scene} {Q : α → Prop}
    (h : (x >>= f).Taken c Γ ks) (hx : Leads True Γ x Γ₁ Q)
    (hf : ∀ a, ∀ c : Checker, c.Later (f a c).2) (hl : Q (x c).1 → Γ₁.Lawful) :
    x.Taken c Γ ks ∧ Q (x c).1 ∧ (f (x c).1).Taken (x c).2 Γ₁ ks := by
  obtain ⟨clean, ⟨at₁, hq⟩, clean₁⟩ := hx.split hf trivial h.toAt h.clean
  have chain := ((hx.later c).chain h.lt).trans h.chain
  exact ⟨⟨h.toAt, h.lawful, h.chain, clean⟩, hq, at₁, hl hq, chain, clean₁⟩

/-- The first of two. -/
theorem fst {x : Check α} {f : α → Check β} (h : (x >>= f).Taken c Γ ks)
    (hx : ∀ c : Checker, c.Later (x c).2) (hf : ∀ a, ∀ c : Checker, c.Later (f a c).2) :
    x.Taken c Γ ks :=
  ⟨h.toAt, h.lawful, h.chain, ((hx c).clean (hf _ _) h.clean).1⟩

/-- A test that would have reported something was not met. -/
theorem reportIf {b : Prop} [Decidable b] {cause : Cause} {p : Position} {k : Unit → Check α}
    (hk : ∀ c : Checker, c.Later (k () c).2)
    (h : (if b then report cause p >>= k else k ()).Taken c Γ ks) : ¬ b ∧ (k ()).Taken c Γ ks := by
  split at h
  · have reports : Leads True Γ (report cause p) Γ fun _ => False := .report cause p
    exact (h.split reports (fun _ => hk) False.elim).2.1.elim
  · exact ⟨‹_›, h⟩

/-- What is taken up in a loop is taken up inside it. -/
theorem looping {inLoop : Bool} {x : Check α} (h : (withLoop inLoop x).Taken c Γ ks) :
    x.Taken { c with inLoop } (Γ.looping inLoop) ks where
  toAt := ⟨h.lt, h.below, h.levels, h.classes, rfl, h.function⟩
  lawful := h.lawful.looping
  chain := h.chain
  clean := h.clean

/-- What is taken up in a function is taken up inside it. -/
theorem within {f : Context} {x : Check α} (h : (withFunction f x).Taken c Γ ks) :
    x.Taken { c with function := some f } (Γ.within f) ks where
  toAt := ⟨h.lt, h.below, h.levels, h.classes, h.inLoop, rfl⟩
  lawful := h.lawful.within f
  chain := h.chain
  clean := h.clean

/-- What is done in a new frame, which has the next number. -/
theorem entered {p : Position} {x : Check α} (hx : ∀ c : Checker, c.Later (x c).2)
    (h : (inFrame p x).Taken c Γ ks) : x.Taken c.entered Γ.enter (c.scopes.next :: ks) where
  toAt := h.toAt.entered
  lawful := h.lawful.enter
  chain := by
    rw [← h.chain]
    simp only [Checker.entered, Forest.chain, Forest.outer_push_new]
    rfl
  clean := by
    have e := h.clean
    rw [inFrame_apply p hx c] at e
    exact e

end Taken

/-! ### Lists -/

/-- Things that are checked one after another lead to a later state. -/
theorem mapM_later {f : α → Check β} (hf : ∀ a, ∀ c : Checker, c.Later (f a c).2) :
    ∀ (as : List α) (c : Checker), c.Later (as.mapM f c).2
  | [], c      => by rw [List.mapM_nil]; exact .refl c
  | a :: as, c => by
      rw [List.mapM_cons]
      exact later_bind (hf a) (fun _ => later_bind (mapM_later hf as) fun _ => later_pure _) c

/-- What a list gives that is checked member by member. -/
theorem mapM_apply (f : α → Check β) (a : α) (as : List α) (c : Checker) : (a :: as).mapM f c =
    ((f a c).1 :: (as.mapM f (f a c).2).1, (as.mapM f (f a c).2).2) := by
  rw [List.mapM_cons]
  rfl

/-- The first of several things is taken up where all of them are, and the others where the first has
led. -/
theorem Taken.cons {f : α → Check β} {a : α} {as : List α} {Γ₁ : Scene} {Q : β → Prop}
    (h : ((a :: as).mapM f).Taken c Γ ks) (ha : Leads True Γ (f a) Γ₁ Q)
    (hf : ∀ a, ∀ c : Checker, c.Later (f a c).2) (hl : Q (f a c).1 → Γ₁.Lawful) :
    (f a).Taken c Γ ks ∧ Q (f a c).1 ∧ (as.mapM f).Taken (f a c).2 Γ₁ ks := by
  rw [List.mapM_cons] at h
  have rest := mapM_later hf as
  obtain ⟨first, hq, h⟩ := h.split ha (fun _ => later_bind rest fun _ => later_pure _) hl
  exact ⟨first, hq, h.fst rest fun _ => later_pure _⟩

end Check

/-! ### Variables -/

/-- To check an expression leads to a later state. -/
theorem Expr.check_later (e : Expr) (c : Checker) : c.Later (e.check c).2 :=
  (e.check_leads (Γ := .start)).later c

/-- So it is with a variable. -/
theorem VarDecl.check_later (v : VarDecl) (c : Checker) : c.Later (v.check c).2 :=
  (v.check_leads (F := True) (Γ := .start)).later c

/-- So it is with a condition. -/
theorem Expr.checkCondition_later (e : Expr) (c : Checker) : c.Later (e.checkCondition c).2 :=
  (e.checkCondition_leads (F := True) (Γ := .start)).later c

namespace VarDecl

/-- Before its first value is checked, the name of a variable is hidden. -/
theorem announce_leads {F : Prop} (v : VarDecl) : Leads F Γ v.announce (Γ.hide v.name)
    fun b => b = true ∧ Γ.own v.name = false := by
  rw [announce]
  exact .reportIf _ _ <| .bind (resolveTy_leads v.pos v.ty) fun _ =>
    (declare_leads v.name v.pos).imp fun _ _ h => h

/-- The name is given in the end. -/
theorem name_later (v v' : VarDecl) (declared : Bool) (c : Checker) : c.Later ((do
    if declared then
      let _ ← define v.name (.var v.ty) v.pos
    pure v' : Check VarDecl) c).2 := by
  split
  · exact later_bind (define_leads (F := True) (Γ := .start) ..).later (fun _ => later_pure _) c
  · exact .refl c

/-- To settle a variable leads to a later state. -/
theorem settle_later (v : VarDecl) (declared : Bool) (c : Checker) :
    c.Later (v.settle declared c).2 := by
  rw [settle]
  cases v.init with
  | none => exact name_later v _ _ c
  | some e =>
      refine later_bind e.check_later (fun r => later_bind ?_ fun _ => name_later v _ _) c
      exact (expectAccepted_leads (F := True) (Γ := .start) ..).later

/-- A variable is settled with the first value that has been checked. -/
theorem settle_fst (v : VarDecl) (declared : Bool) (c : Checker) :
    (v.settle declared c).1 = { v with init := v.init.map fun e => (e.check c).1.2 } := by
  rw [settle]
  cases v.init <;> cases declared <;> rfl

/-- A variable is new to its frame, and its first value is checked where its name is hidden. -/
theorem taken {v : VarDecl} (h : v.check.Taken c Γ ks) :
    Γ.own v.name = false ∧
      (v.check c).1 = { v with init := v.init.map fun e => (e.check (v.announce c).2).1.2 } ∧
      ∀ e, v.init = some e → e.check.Taken (v.announce c).2 (Γ.hide v.name) ks := by
  rw [check_eq] at h ⊢
  obtain ⟨-, ⟨-, new⟩, h⟩ := h.split v.announce_leads v.settle_later fun _ => h.lawful.hide v.name
  refine ⟨new, settle_fst v _ _, fun e he => ?_⟩
  rw [settle] at h
  simp only [he] at h
  refine h.fst e.check_later fun r => later_bind ?_ fun _ => name_later v _ _
  exact (expectAccepted_leads (F := True) (Γ := .start) ..).later

/-- The first of several variables is taken up where all of them are, and the others where it is known.
-/
theorem taken_cons {v : VarDecl} {vs : List VarDecl}
    (h : ((v :: vs).mapM VarDecl.check).Taken c Γ ks) :
    v.check.Taken c Γ ks ∧ (vs.mapM VarDecl.check).Taken (v.check c).2 (Γ.declare v) ks := by
  obtain ⟨hv, -, hvs⟩ := h.cons v.check_leads check_later fun found => found.lawful h.lawful
  exact ⟨hv, hvs⟩

end VarDecl

/-! ### Statements -/

/-- How a `for` loop starts. -/
theorem ForInit.decl_taken {v : VarDecl} (h : (ForInit.decl v).check.Taken c Γ ks) :
    v.check.Taken c Γ ks := h.fst v.check_later fun _ => later_pure _

theorem ForInit.expr_taken {e : Expr} (h : (ForInit.expr e).check.Taken c Γ ks) :
    ((ForInit.expr e).check c).1 = .expr (e.check c).1.2 ∧ e.check.Taken c Γ ks := by
  rw [ForInit.check] at h ⊢
  obtain ⟨hb, h⟩ := h.reportIf (later_bind e.check_later fun _ => later_pure _)
  rw [if_neg hb]
  exact ⟨rfl, h.fst e.check_later fun _ => later_pure _⟩

theorem ForInit.check_later (init : ForInit) (c : Checker) : c.Later (init.check c).2 :=
  (init.check_leads (F := True) (Γ := .start)).later c

theorem Check.update_later (e : Expr) (c : Checker) : c.Later (update e c).2 :=
  (update_leads e (F := True) (Γ := .start)).later c

theorem Check.update_taken {e : Expr} (h : (update e).Taken c Γ ks) :
    (update e c).1 = (e.check c).1.2 ∧ e.check.Taken c Γ ks := by
  rw [update] at h ⊢
  obtain ⟨hb, h⟩ := h.reportIf (later_bind e.check_later fun _ => later_pure _)
  rw [if_neg hb]
  exact ⟨rfl, h.fst e.check_later fun _ => later_pure _⟩

namespace Stmt

theorem check_later (s : Stmt) (c : Checker) : c.Later (s.check c).2 :=
  (s.check_leads (Γ := .start)).later c

theorem checkAll_later (ss : List Stmt) (c : Checker) : c.Later (checkAll ss c).2 :=
  (checkAll_leads ss (Γ := .start)).later c

theorem checkAll_apply (s : Stmt) (ss : List Stmt) (c : Checker) : checkAll (s :: ss) c =
    ((s.check c).1 :: (checkAll ss (s.check c).2).1, (checkAll ss (s.check c).2).2) := by
  rw [checkAll]
  rfl

theorem taken_cons {s : Stmt} {ss : List Stmt} (h : (checkAll (s :: ss)).Taken c Γ ks) :
    s.check.Taken c Γ ks ∧ (checkAll ss).Taken (s.check c).2 Γ ks := by
  rw [checkAll] at h
  obtain ⟨hs, -, h⟩ := h.split s.check_leads
    (fun _ => later_bind (checkAll_later ss) fun _ => later_pure _) fun _ => h.lawful
  exact ⟨hs, h.fst (checkAll_later ss) fun _ => later_pure _⟩

theorem inLoop_later (s : Stmt) (c : Checker) : c.Later (withLoop true s.check c).2 :=
  (withLoop_leads true (s.check_leads (Γ := Scene.start.looping true))).later c

/-- A condition is checked as an expression. -/
theorem condition_taken {e : Expr} (h : e.checkCondition.Taken c Γ ks) : e.check.Taken c Γ ks :=
  h.fst e.check_later fun r => later_bind
    (expectTy_leads (F := True) (Γ := .start) .bool r.1 r.2.pos).later fun _ => later_pure _

/-- Variables and statements that share a frame. -/
theorem body_taken {γ : Type} {vs : List VarDecl} {ss : List Stmt}
    {f : List VarDecl → List Stmt → γ} (h : (do
      let locals ← vs.mapM VarDecl.check
      let body ← checkAll ss
      pure (f locals body) : Check γ).Taken c Γ ks) :
    (vs.mapM VarDecl.check).Taken c Γ ks ∧
      (checkAll ss).Taken (vs.mapM VarDecl.check c).2 (Γ.declareAll vs) ks := by
  obtain ⟨hvs, -, h⟩ := h.split (VarDecl.checkAll_leads vs)
    (fun _ => later_bind (checkAll_later ss) fun _ => later_pure _) fun found =>
      found.lawful h.lawful
  exact ⟨hvs, h.fst (checkAll_later ss) fun _ => later_pure _⟩

theorem block_taken {p : Position} {vs : List VarDecl} {ss : List Stmt}
    (h : (block p vs ss).check.Taken c Γ ks) :
    ((block p vs ss).check c).1 = .block p (vs.mapM VarDecl.check c.entered).1
        (checkAll ss (vs.mapM VarDecl.check c.entered).2).1 ∧
      (vs.mapM VarDecl.check).Taken c.entered Γ.enter (c.scopes.next :: ks) ∧
      (checkAll ss).Taken (vs.mapM VarDecl.check c.entered).2 (Γ.enter.declareAll vs)
        (c.scopes.next :: ks) := by
  rw [check] at h ⊢
  refine ⟨rfl, body_taken (h.entered ?_)⟩
  exact later_bind (mapM_later VarDecl.check_later vs) fun _ =>
    later_bind (checkAll_later ss) fun _ => later_pure _

theorem ifElse_taken {p : Position} {cond : Expr} {t e : Stmt}
    (h : (ifElse p cond t e).check.Taken c Γ ks) :
    ((ifElse p cond t e).check c).1 = .ifElse p (cond.check c).1.2
        (t.check (cond.checkCondition c).2).1
        (e.check (t.check (cond.checkCondition c).2).2).1 ∧
      cond.check.Taken c Γ ks ∧ t.check.Taken (cond.checkCondition c).2 Γ ks ∧
        e.check.Taken (t.check (cond.checkCondition c).2).2 Γ ks := by
  rw [check] at h ⊢
  obtain ⟨hc, -, h⟩ := h.split cond.checkCondition_leads (fun _ => later_bind t.check_later
    fun _ => later_bind e.check_later fun _ => later_pure _) fun _ => h.lawful
  obtain ⟨ht, -, h⟩ := h.split t.check_leads
    (fun _ => later_bind e.check_later fun _ => later_pure _) fun _ => h.lawful
  exact ⟨rfl, condition_taken hc, ht, h.fst e.check_later fun _ => later_pure _⟩

theorem whileLoop_taken {p : Position} {cond : Expr} {body : Stmt}
    (h : (whileLoop p cond body).check.Taken c Γ ks) :
    ((whileLoop p cond body).check c).1 = .whileLoop p (cond.check c).1.2
        (body.check { (cond.checkCondition c).2 with inLoop := true }).1 ∧
      cond.check.Taken c Γ ks ∧
      body.check.Taken { (cond.checkCondition c).2 with inLoop := true } (Γ.looping true) ks := by
  rw [check] at h ⊢
  obtain ⟨hc, -, h⟩ := h.split cond.checkCondition_leads
    (fun _ => later_bind body.inLoop_later fun _ => later_pure _) fun _ => h.lawful
  exact ⟨rfl, condition_taken hc, (h.fst body.inLoop_later fun _ => later_pure _).looping⟩

theorem turn_later (update : Expr) (body : Stmt) (k : Expr → Stmt → Stmt) (c : Checker) :
    c.Later ((do
      let update ← Check.update update
      let body ← withLoop true body.check
      pure (k update body) : Check Stmt) c).2 :=
  later_bind (Check.update_later update) (fun _ => later_bind body.inLoop_later fun _ =>
    later_pure _) c

theorem forLoop_taken {p : Position} {init : ForInit} {cond update : Expr} {body : Stmt}
    (h : (forLoop p init cond update body).check.Taken c Γ ks) :
    let c₁ := (init.check c.entered).2
    let c₂ := (cond.checkCondition c₁).2
    let c₃ := (Check.update update c₂).2
    ((forLoop p init cond update body).check c).1 =
        .forLoop p (init.check c.entered).1 (cond.check c₁).1.2 (update.check c₂).1.2
          (body.check { c₃ with inLoop := true }).1 ∧
      init.check.Taken c.entered Γ.enter (c.scopes.next :: ks) ∧
      cond.check.Taken c₁ (Γ.enter.afterInit init) (c.scopes.next :: ks) ∧
      update.check.Taken c₂ (Γ.enter.afterInit init) (c.scopes.next :: ks) ∧
      body.check.Taken { c₃ with inLoop := true } ((Γ.enter.afterInit init).looping true)
        (c.scopes.next :: ks) := by
  have turn (i : ForInit) (cond : Expr) := turn_later update body (.forLoop p i cond)
  have rest (i : ForInit) := later_bind cond.checkCondition_later (turn i)
  have whole := later_bind init.check_later rest
  rw [check] at h ⊢
  obtain ⟨hi, ⟨-, hl, -⟩, h⟩ := (h.entered whole).split init.check_leads rest fun found =>
    found.2.1 h.lawful.enter
  obtain ⟨hc, -, h⟩ := h.split cond.checkCondition_leads (turn _) fun _ => h.lawful
  obtain ⟨hu, -, h⟩ := h.split (update_leads update)
    (fun _ => later_bind body.inLoop_later fun _ => later_pure _) fun _ => h.lawful
  obtain ⟨eu, hu⟩ := update_taken hu
  refine ⟨?_, hi, condition_taken hc, hu, (h.fst body.inLoop_later fun _ => later_pure _).looping⟩
  rw [inFrame_apply p whole, ← eu]
  rfl

theorem ret_taken {p : Position} {e : Expr} (h : (ret p (some e)).check.Taken c Γ ks) :
    ((ret p (some e)).check c).1 = .ret p (some (e.check c).1.2) ∧ e.check.Taken c Γ ks := by
  rw [check] at h ⊢
  refine ⟨rfl, h.fst e.check_later fun r => later_bind ?_ fun _ => later_pure _⟩
  exact (expectReturn_leads (F := True) (Γ := .start) ..).later

theorem expr_taken {p : Position} {e : Expr} (h : (expr p e).check.Taken c Γ ks) :
    ((expr p e).check c).1 = .expr p (e.check c).1.2 ∧ e.check.Taken c Γ ks := by
  rw [check] at h ⊢
  exact ⟨rfl, h.fst e.check_later fun _ => later_pure _⟩

end Stmt

/-! ### Functions and classes -/

namespace Check

/-- To look for classes changes nothing but what has been reported. -/
theorem resolveTy_snd (p : Position) (c : Checker) :
    ∀ t : Ty, ∃ errors, (resolveTy p t c).2 = { c with errors }
  | .object x => by
      show ∃ errors, ((if c.classes.contains x then pure true
        else do
          report (.undefinedSymbol x) p
          pure false : Check Bool) c).2 = { c with errors }
      split <;> exact ⟨_, rfl⟩
  | .array t => resolveTy_snd p c t
  | .void | .bool | .int | .float | .str | .nil | .function | .any => ⟨_, rfl⟩

end Check

/-- The variables and statements of a function are checked in a new frame, where its parameters are. -/
theorem FuncDecl.taken {f : FuncDecl} (h : f.checkBody.Taken c Γ ks) :
    Γ.enter.NewParams f.params ∧
      (f.locals.mapM VarDecl.check).Taken (f.enter c).2 (Γ.ofFunction f) (c.scopes.next :: ks) ∧
      (Stmt.checkAll f.body).Taken (f.locals.mapM VarDecl.check (f.enter c).2).2
        ((Γ.ofFunction f).declareAll f.locals) (c.scopes.next :: ks) := by
  have inside := (withLoop_leads false (withFunction_leads ⟨f.name, f.returns⟩
    (f.inside_leads (F := False) (Γ := .start) False.elim))).later
  have params := (params_leads f.pos f.params (F := True) (.enter Γ)).later
  have whole := later_bind params fun _ => inside
  -- To look for the class that is returned opens no frame, so the number is still the next one.
  have next : (resolveTy f.pos f.returns c).2.scopes.next = c.scopes.next := by
    obtain ⟨errors, e⟩ := resolveTy_snd f.pos c f.returns
    rw [e]
  have rest (f' : FuncDecl) :=
    later_reportIf (b := (f'.returns != .void && !Stmt.anyReturns f'.body) = true)
      (.missingReturn f'.name) f'.pos (k := fun _ => pure f') (later_pure f')
  rw [checkBody] at h
  obtain ⟨-, -, h⟩ := h.split (resolveTy_leads f.pos f.returns)
    (fun _ => later_bind (later_inFrame f.pos whole) rest) fun _ => h.lawful
  rw [← next]
  obtain ⟨-, ⟨new, hl⟩, h⟩ := ((h.fst (later_inFrame f.pos whole) rest).entered whole).split
    (params_leads f.pos f.params (.enter Γ)) (fun _ => inside) fun found => found.2 h.lawful.enter
  exact ⟨new, Stmt.body_taken h.looping.within⟩

namespace FuncDecl

theorem checkBody_later (f : FuncDecl) (c : Checker) : c.Later (f.checkBody c).2 :=
  (f.checkBody_leads (F := True) (Γ := .start)).later c

/-- Every method that is given has come of one that checking has taken up. -/
theorem taken_of_mem {f' : FuncDecl} : ∀ {fs : List FuncDecl} {c : Checker},
    (fs.mapM checkBody).Taken c Γ ks → f' ∈ (fs.mapM checkBody c).1 →
      ∃ (f : FuncDecl) (c' : Checker), f.checkBody.Taken c' Γ ks ∧ f' = (f.checkBody c').1 ∧
        ∀ a ∈ f.moments c', a ∈ Check.each checkBody moments fs c
  | [], c, _, hf => by
      rw [List.mapM_nil] at hf
      cases hf
  | f :: fs, c, h, hf => by
      obtain ⟨first, -, rest⟩ := h.cons f.checkBody_leads checkBody_later fun _ => h.lawful
      rw [mapM_apply] at hf
      rcases List.mem_cons.mp hf with rfl | hf
      · exact ⟨f, c, first, rfl, fun a ha => List.mem_append_left _ ha⟩
      · obtain ⟨g, c', hg, e, le⟩ := taken_of_mem rest hf
        exact ⟨g, c', hg, e, fun a ha => List.mem_append_right _ (le a ha)⟩

end FuncDecl

namespace ClassDecl

/-- The types of the fields are looked at where the class has been declared. -/
theorem fields_leads {F : Prop} (d : ClassDecl) (superclass : Option ClassInfo) :
    Leads F Γ (do
      d.fields.forM fun x => do
        let _ ← resolveTy d.pos x.ty
      pure superclass) Γ fun r => r = superclass :=
  .bind (.forM d.fields fun x _ => .bind (resolveTy_leads d.pos x.ty) fun _ => .pure And.right)
    fun _ => .pure fun _ => rfl

theorem name_leads {F : Prop} (d : ClassDecl) (superclass : Option ClassInfo) {info : ClassInfo}
    (hn : info.name = d.name) :
    Leads F Γ (do
      if ← define d.name (.cls info) d.pos then
        modify fun c => { c with classes := c.classes.put d.name info }
      d.fields.forM fun x => do
        let _ ← resolveTy d.pos x.ty
      pure superclass) (Γ.addClass info) fun r => r = superclass := by
  have e : { Γ.bind d.name (.cls info) with classes := Γ.classes.put d.name info } =
      Γ.addClass info := by rw [Scene.addClass, hn]
  refine .bind (define_leads ..) fun defined => ?_
  cases defined with
  | true =>
      exact .bind (e ▸ putClass_leads d.name info) fun _ => (d.fields_leads superclass).imp
        fun _ _ h => h
  | false => exact .of_not (fun h => by cases h.2.1) (d.fields_leads (F := F) (Γ := Γ) _).later

theorem announce_leads {F : Prop} (d : ClassDecl) :
    Leads F Γ d.announce (Γ.addClass (d.info (Γ.superOf d))) fun r => r = Γ.superOf d := by
  rw [announce]
  refine .bind d.superInfo_leads fun superclass => .bind d.fieldTable_leads fun fields =>
    .bind (d.methodTable_leads fields) fun methods => ?_
  refine ((d.name_leads superclass rfl).arrive ?_).imp ?_
  · rintro ⟨⟨⟨-, rfl, -⟩, rfl⟩, rfl⟩
    rfl
  · rintro r ⟨⟨⟨-, rfl, -⟩, rfl⟩, rfl⟩ rfl
    rfl

theorem receive_leads {F : Prop} (d : ClassDecl) : ∀ superclass : Option ClassInfo,
    Leads F Γ.enter (d.receive superclass) (Γ.inClass d.name superclass) fun _ => True
  | none   => .bind (define_leads ..) fun _ => .pure fun _ => trivial
  | some c => .bind (define_leads ..) fun _ => .bind (defineSuper_leads d.name c d.pos) fun _ =>
      .pure fun _ => trivial

/-- The methods of a class are checked in a new frame, where the receiver is bound. -/
theorem taken {d : ClassDecl} (h : d.check.Taken c Γ ks) (ht : Γ.Top) :
    (d.check c).1 = { d with methods := (d.methods.mapM FuncDecl.checkBody (d.enter c).2).1 } ∧
      (d.methods.mapM FuncDecl.checkBody).Taken (d.enter c).2
        ((Γ.addClass (d.info (Γ.superOf d))).inClass d.name (Γ.superOf d))
        ((d.announce c).2.scopes.next :: ks) := by
  have found := (d.check_leads.clean trivial c h.toAt h.clean).2
  have lawful := h.lawful
  have methods := mapM_later FuncDecl.checkBody_later d.methods
  have rest := later_bind methods fun methods => later_pure { d with methods }
  have inside (superclass : Option ClassInfo) := later_bind
    (d.receive_leads (F := True) (Γ := .start) superclass).later fun _ => rest
  rw [check_eq] at h ⊢
  -- The frame gets the superclass that the scene knows by the name.
  obtain ⟨-, e, h⟩ := h.split d.announce_leads
    (fun superclass => later_inFrame d.pos (inside superclass)) fun _ => found.lawful ht h.lawful
  constructor
  · exact congrArg Prod.fst (inFrame_apply d.pos (inside (d.announce c).1) (d.announce c).2)
  · obtain ⟨-, -, h⟩ := (h.entered (inside _)).split (d.receive_leads _) (fun _ => rest)
      fun _ => e ▸ found.lawful_inClass ht lawful
    exact e ▸ h.fst methods fun methods => later_pure { d with methods }

end ClassDecl

end Brace
