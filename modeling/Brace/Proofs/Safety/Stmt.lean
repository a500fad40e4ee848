import Brace.Eval.Stmt
import Brace.Proofs.Safety.Expr

/-!
# Safety — statements

A sound statement ends as its place allows: with `break` or `continue` only in a loop, and with
`return` only with a value of the type that the function gives. A statement that always returns does
not end normally. The variables of a block are new to its frame, one after another.
-/

namespace Brace

open Eval

variable {P : Plan} {s : Site} {Γ : Scene}

/-! ### Scenes of one function -/

namespace Scene

@[simp] theorem function_declareAll : ∀ (vs : List VarDecl) (Γ : Scene),
    (Γ.declareAll vs).function = Γ.function
  | [], _      => rfl
  | v :: vs, Γ => function_declareAll vs (Γ.declare v)

@[simp] theorem inLoop_declareAll : ∀ (vs : List VarDecl) (Γ : Scene),
    (Γ.declareAll vs).inLoop = Γ.inLoop
  | [], _      => rfl
  | v :: vs, Γ => inLoop_declareAll vs (Γ.declare v)

end Scene

/-- How a statement may end is a matter of the function and of the loop that it is in. -/
theorem Flow.Ok.congr {Γ' : Scene} (hf : Γ'.function = Γ.function) (hl : Γ'.inLoop = Γ.inLoop)
    {flow : Flow} (h : flow.Ok P Γ s) : flow.Ok P Γ' s := by
  cases flow with
  | normal => trivial
  | ret v => exact ⟨h.1, fun f e => h.2 f (hf.symm.trans e)⟩
  | breakLoop => exact hl.trans h
  | continueLoop => exact hl.trans h

/-- What returns does not end normally. -/
theorem Flow.ret_ne_normal (v : Value) : Flow.ret v ≠ .normal := by
  intro h
  cases h

/-- A loop ends neither with `break` nor with `continue`. -/
theorem Flow.Ok.leave {flow : Flow} (h : flow.Ok P (Γ.looping false) s) : flow.Ok P Γ s := by
  cases flow with
  | normal => trivial
  | ret v => exact h
  | _ => cases h

/-! ### Variables -/

/-- A variable is declared in the frame where the run is. -/
theorem VarDecl.adds_run (hr : Ready P Γ s) (ho : Open Γ s.machine.here.frame s) {v : VarDecl}
    (hs : v.Sound P.classes Γ) (hc : P.Covers (v.placed Γ))
    (top : P.Declares s.machine.here.frame v.name (.var v.ty)) :
    v.run.Adds P s.machine.here.frame s fun _ s' =>
      Ready P (Γ.declare v) s' ∧ Open (Γ.declare v) s'.machine.here.frame s' := by
  obtain ⟨hn, hinit⟩ := hs
  have reserved : P.program.Unreserved → v.name ≠ "this" ∧ v.name ≠ "super" := fun hu =>
    hu v.name (hc.name List.mem_cons_self)
  rw [VarDecl.run]
  cases e : v.init with
  | none =>
      exact (Eval.Adds.declare hr ho hn (fun hu => (reserved hu).2) top trivial v.pos).mono
        fun _ _ _ h => ⟨h.1, h.2.1⟩
  | some e' =>
      obtain ⟨hs, hacc⟩ := hinit e' e
      have hc' := hc.init e
      have hidden := hr.hide (ho.missing hn) fun hu => (reserved hu).1
      refine .after (hidden.eval hs.sound hc') fun x s₁ h₁ hx => ?_
      have hr₁ := hr.later h₁.later h₁.ok
      have ho₁ := ho.later h₁.later
      have here := h₁.later.here
      rw [← here] at ho₁ top ⊢
      have takes : (Symbol.var v.ty).Takes P s₁.heap x := hx.accepted hc' hacc
      exact (Eval.Adds.define hr₁ ho₁ hn (fun hu => (reserved hu).2) top trivial
        ((ho₁.mayName hn top trivial).lift hr₁.ok hx.ok _) takes v.pos).mono
          fun _ _ _ h => ⟨h.1, h.2.1⟩

namespace Eval.Gives

/-- Variables are declared one after another, in a frame that is not the program's own. -/
theorem locals : ∀ {vs : List VarDecl} {Γ : Scene} {s : Site}, Ready P Γ s →
    Open Γ s.machine.here.frame s → 1 < s.machine.here.frame → VarDecl.SoundAll P.classes Γ vs →
    P.Covers (VarDecl.placedAll Γ vs) →
      (vs.forM VarDecl.run).Gives P (some s.machine.here.frame) s fun _ s' =>
        Ready P (Γ.declareAll vs) s'
  | [], _, _, hr, _, _, _, _ => pure hr.ok hr
  | v :: vs, Γ, s, hr, ho, inner, hs, hc => by
      obtain ⟨hv, hvs⟩ := hs
      rw [VarDecl.placedAll] at hc
      have declared := (v.adds_run hr ho hv hc.left fun e => absurd e (Nat.ne_of_gt inner)).gives
      refine bind_own declared ?_
      rintro _ s₁ h₁ ⟨hr₁, ho₁⟩
      have e := h₁.later.here
      rw [← e] at inner ⊢
      exact locals hr₁ ho₁ inner hvs hc.right

/-- Statements are run one after another, up to the first that does not end normally. -/
theorem stmts {ss : List Stmt} : ∀ {s : Site}, Ready P Γ s → Stmt.SoundAll P.classes Γ ss →
    P.Covers (Stmt.placedAll Γ ss) → (runStmts ss).Gives P none s fun flow s' =>
      flow.Ok P Γ s' ∧ (Stmt.anyReturns ss = true → flow ≠ .normal) := by
  induction ss with
  | nil =>
      intro s hr _ _
      refine pure hr.ok ⟨trivial, fun h => ?_⟩
      rw [Stmt.anyReturns] at h
      cases h
  | cons t ss ih =>
      intro s hr hs hc
      rw [Stmt.SoundAll] at hs
      rw [Stmt.placedAll] at hc
      rw [runStmts]
      have asked : P.Asks Γ (.stmt t) s := ⟨hr, hs.1, hc.left⟩
      refine hr.bind (ask asked) ?_
      rintro flow s₁ h₁ hr₁ ⟨hflow, hreturns⟩
      cases flow with
      | normal =>
          refine (ih hr₁ hs.2 hc.right).mono ?_
          rintro flow s' _ ⟨hf, hret⟩
          refine ⟨hf, fun hany => ?_⟩
          rw [Stmt.anyReturns, Bool.or_eq_true] at hany
          exact hret (hany.resolve_left fun ht => hreturns ht rfl)
      | _ =>
          refine pure hr₁.ok ⟨hflow, fun _ h => ?_⟩
          cases h

/-- A body runs in a frame of its own. -/
theorem body (hr : Ready P Γ s) (ho : Open Γ s.machine.here.frame s)
    (inner : 1 < s.machine.here.frame) {vs : List VarDecl} {ss : List Stmt}
    (hv : VarDecl.SoundAll P.classes Γ vs) (hs : Stmt.SoundAll P.classes (Γ.declareAll vs) ss)
    (hc : P.Covers (VarDecl.placedAll Γ vs ++ Stmt.placedAll (Γ.declareAll vs) ss)) :
    (runBody vs ss).Gives P (some s.machine.here.frame) s fun flow s' =>
      flow.Ok P Γ s' ∧ (Stmt.anyReturns ss = true → flow ≠ .normal) := by
  refine bind_own (locals hr ho inner hv hc.left) fun _ s₁ h₁ hr₁ => ?_
  refine (stmts hr₁ hs hc.right).weaken.mono ?_
  rintro flow s' _ ⟨hf, hret⟩
  refine ⟨?_, hret⟩
  exact hf.congr (Scene.function_declareAll vs Γ).symm (Scene.inLoop_declareAll vs Γ).symm

/-- An `init` clause adds to the frame of the loop what it declares. -/
theorem init (hr : Ready P Γ s) (ho : Open Γ s.machine.here.frame s)
    (inner : 1 < s.machine.here.frame) {i : ForInit} (hs : i.Sound P.classes Γ)
    (hc : P.Covers (i.placed Γ)) :
    (runInit i).Gives P (some s.machine.here.frame) s fun _ s' => Ready P (Γ.afterInit i) s' := by
  cases i with
  | decl v =>
      exact (v.adds_run hr ho hs hc fun e => absurd e (Nat.ne_of_gt inner)).gives.mono
        fun _ _ _ h => h.1
  | expr e => exact .bind (hr.eval hs.sound hc) fun _ s₁ h₁ _ => pure h₁.ok (hr.later h₁.later h₁.ok)

/-! ### Loops -/

/-- What is done after a turn that ends normally or by `continue`. -/
theorem again {cond : Expr} {update : Option Expr} {body : Stmt} :
    P.Asks Γ (.loop cond update body) s → (match update with
      | some u => do
          let _ ← u.eval
          Eval.ask (.loop cond update body)
      | none => Eval.ask (.loop cond update body) : Eval Flow).Gives P none s
        (P.Answers Γ (.loop cond update body)) := by
  intro h
  cases update with
  | none => exact ask h
  | some u =>
      obtain ⟨hr, hcond, hupdate, hbody⟩ := h
      obtain ⟨hu, hc⟩ := hupdate u rfl
      exact hr.bind (hr.eval hu hc) fun _ s₁ h₁ hr₁ _ => ask ⟨hr₁, hcond, hupdate, hbody⟩

/-- A turn of a loop gives what the loop gives. -/
theorem turn {cond : Expr} {update : Option Expr} {body : Stmt}
    (h : P.Asks Γ (.loop cond update body) s) :
    (loopTurn cond update body).Gives P none s (P.Answers Γ (.loop cond update body)) := by
  obtain ⟨hr, hcond, hupdate, hbody⟩ := h
  refine hr.bind (hr.eval hcond.1 hcond.2) fun v s₁ h₁ hr₁ hv => ?_
  split
  · have looping : P.Asks (Γ.looping true) (.stmt body) s₁ :=
      ⟨⟨hr₁.ok, hr₁.inside, hr₁.sees, hr₁.seated⟩, hbody⟩
    refine hr₁.bind (ask looping) ?_
    rintro flow s₂ h₂ hr₂ ⟨hflow, -⟩
    cases flow with
    | breakLoop => exact pure hr₂.ok trivial
    | ret v => exact pure hr₂.ok hflow
    | normal => exact again ⟨hr₂, hcond, hupdate, hbody⟩
    | continueLoop => exact again ⟨hr₂, hcond, hupdate, hbody⟩
  · exact pure hr₁.ok trivial

/-! ### Parts of statements -/

/-- A statement ends as a part of it does, where the part returns whenever the whole is known to. -/
theorem part {t u : Stmt} (always : u.alwaysReturns = true → t.alwaysReturns = true)
    (h : P.Asks Γ (.stmt t) s) : t.exec.Gives P none s (P.Answers Γ (.stmt u)) := by
  refine (ask h).mono ?_
  rintro flow s' _ ⟨hf, hret⟩
  exact ⟨hf, fun hu => hret (always hu)⟩

/-- A block runs in a frame of its own what it declares and what it executes. -/
theorem block (hr : Ready P Γ s) (p : Position) {vs : List VarDecl} {ss : List Stmt}
    (hv : VarDecl.SoundAll P.classes Γ.enter vs)
    (hs : Stmt.SoundAll P.classes (Γ.enter.declareAll vs) ss)
    (hc : P.Covers (VarDecl.placedAll Γ.enter vs ++ Stmt.placedAll (Γ.enter.declareAll vs) ss)) :
    (Eval.inBlock p (runBody vs ss)).Gives P none s fun flow s' =>
      flow.Ok P Γ s' ∧ (Stmt.anyReturns ss = true → flow ≠ .normal) := by
  refine (inBlock hr (Flow.Ok.stable_and Γ.enter _) p fun s' hr' ho inner =>
    body hr' ho inner hv hs hc).mono ?_
  rintro flow s' _ ⟨hf, hret⟩
  exact ⟨hf.congr rfl rfl, hret⟩

/-- The frame of a `for` loop has the variable of its first part, and its turns are run in it. -/
theorem forLoop (hr : Ready P Γ s) (p : Position) {i : ForInit} {cond update : Expr} {body : Stmt}
    (hi : i.Sound P.classes Γ.enter) (hi' : P.Covers (i.placed Γ.enter))
    (hcond : cond.Sound P.classes (Γ.enter.afterInit i))
    (hcond' : P.Covers (cond.placed (Γ.enter.afterInit i)))
    (hupdate : update.Sound P.classes (Γ.enter.afterInit i))
    (hupdate' : P.Covers (update.placed (Γ.enter.afterInit i)))
    (hbody : body.Sound P.classes ((Γ.enter.afterInit i).looping true))
    (hbody' : P.Covers (body.placed ((Γ.enter.afterInit i).looping true))) :
    (Eval.inBlock p (do
      runInit i
      Eval.ask (.loop cond (some update) body))).Gives P none s (Flow.Ok P Γ) := by
  refine inBlock hr (Flow.Ok.stable Γ) p fun s' hr' ho inner => ?_
  refine .bind_own (init hr' ho inner hi hi') fun _ s₁ h₁ hr₁ => ?_
  have asked : P.Asks (Γ.enter.afterInit i) (.loop cond (some update) body) s₁ := by
    refine ⟨hr₁, ⟨hcond, hcond'⟩, ?_, hbody, hbody'⟩
    rintro u ⟨⟩
    exact ⟨hupdate, hupdate'⟩
  refine (ask asked).weaken.mono fun flow s₂ _ hf => ?_
  cases i <;> exact Flow.Ok.congr rfl rfl (Flow.Ok.leave hf)

end Eval.Gives

/-! ### Every form -/

/-- How a sound statement ends. -/
theorem Stmt.gives_start (hr : Ready P Γ s) (t : Stmt) (hs : t.Sound P.classes Γ)
    (hc : P.Covers (t.placed Γ)) : t.start.Gives P none s (P.Answers Γ (.stmt t)) := by
  cases t with
  | block p vs ss =>
      rw [Stmt.Sound] at hs
      rw [Stmt.placed] at hc
      refine (Gives.block hr p hs.1 hs.2 hc).mono ?_
      rintro flow s' _ ⟨hf, hret⟩
      refine ⟨hf, fun ht => hret ?_⟩
      rwa [Stmt.alwaysReturns] at ht
  | ifElse p cond t e =>
      rw [Stmt.Sound] at hs
      rw [Stmt.placed] at hc
      have both (h : (Stmt.ifElse p cond t e).alwaysReturns = true) :
          t.alwaysReturns = true ∧ e.alwaysReturns = true := by
        rwa [Stmt.alwaysReturns, Bool.and_eq_true] at h
      refine hr.bind (hr.eval hs.1.sound hc.left) fun v s₁ h₁ hr₁ hv => ?_
      split
      · exact Gives.part (fun h => (both h).1) ⟨hr₁, hs.2.1, hc.right.left⟩
      · exact Gives.part (fun h => (both h).2) ⟨hr₁, hs.2.2, hc.right.right⟩
  | whileLoop p cond body =>
      rw [Stmt.Sound] at hs
      rw [Stmt.placed] at hc
      have asked : P.Asks Γ (.loop cond none body) s := by
        refine ⟨hr, ⟨hs.1.sound, hc.left⟩, ?_, hs.2, hc.right⟩
        rintro u ⟨⟩
      exact (Gives.ask asked).mono fun flow s' _ hf =>
        ⟨hf.leave, fun ht => by simp [Stmt.alwaysReturns] at ht⟩
  | forLoop p init cond update body =>
      rw [Stmt.Sound] at hs
      rw [Stmt.placed] at hc
      obtain ⟨hinit, hcond, hupdate, hbody⟩ := hs
      exact (Gives.forLoop hr p hinit hc.left hcond.sound hc.right.left hupdate.sound
        hc.right.right.left hbody hc.right.right.right).mono fun flow s' _ hf =>
          ⟨hf, fun ht => by simp [Stmt.alwaysReturns] at ht⟩
  | ret p e =>
      cases e with
      | none =>
          rw [Stmt.Sound] at hs
          obtain ⟨f, hf, hvoid⟩ := hs
          refine .pure hr.ok ⟨⟨trivial, fun f' hf' => ?_⟩, fun _ => Flow.ret_ne_normal _⟩
          cases hf.symm.trans hf'
          rw [hvoid]
          exact fun _ _ => .void
      | some e =>
          rw [Stmt.Sound] at hs
          obtain ⟨hs, f, hf, -, hacc⟩ := hs
          rw [Stmt.placed] at hc
          refine hr.bind (hr.eval hs.sound hc) fun v s₁ h₁ hr₁ hv => .pure hr₁.ok ?_
          refine ⟨⟨hv.ok, fun f' hf' => ?_⟩, fun _ => Flow.ret_ne_normal _⟩
          cases hf.symm.trans hf'
          exact hv.accepted hc hacc
  | breakLoop p =>
      rw [Stmt.Sound] at hs
      exact .pure hr.ok ⟨hs, fun ht => by simp [Stmt.alwaysReturns] at ht⟩
  | continueLoop p =>
      rw [Stmt.Sound] at hs
      exact .pure hr.ok ⟨hs, fun ht => by simp [Stmt.alwaysReturns] at ht⟩
  | expr p e =>
      rw [Stmt.Sound] at hs
      rw [Stmt.placed] at hc
      refine hr.bind (hr.eval hs.sound hc) fun v s₁ h₁ hr₁ hv => .pure hr₁.ok ⟨trivial, fun ht => ?_⟩
      simp [Stmt.alwaysReturns] at ht
  | empty p => exact .pure hr.ok ⟨trivial, fun ht => by simp [Stmt.alwaysReturns] at ht⟩

end Brace
