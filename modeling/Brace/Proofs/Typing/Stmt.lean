import Brace.Proofs.Typing.Expr
import Brace.Proofs.Typing.Frames

/-!
# Typing — checked statements keep the rules

The statement that checking gives back, where nothing was reported, is sound in the scene in which
it was checked.

* `Stmt.check_leads`: checking a statement that reports nothing gives a sound statement.
-/

namespace Brace

open Check

variable {F : Prop} {Γ : Scene}

/-! ### Variables -/

/-- What checking a declaration of a variable finds. -/
structure VarDecl.Found (Γ : Scene) (v v' : VarDecl) : Prop where
  name  : v'.name = v.name
  ty    : v'.ty = v.ty
  known : v.ty.Known Γ.classes
  sound : Γ.Lawful → ∀ K, Γ.classes.Sub K → v'.Sound K Γ

/-- A variable that has been checked declares what it declared. -/
theorem VarDecl.Found.scene {v v' : VarDecl} (h : v.Found Γ v') (Γ₁ : Scene) :
    Γ₁.declare v' = Γ₁.declare v := by
  rw [Scene.declare, Scene.declare, h.name, h.ty]

/-- Where a variable has been declared, types are known still. -/
theorem VarDecl.Found.lawful {v v' : VarDecl} (h : v.Found Γ v') (hl : Γ.Lawful) :
    (Γ.declare v).Lawful := hl.bind (s := .var v.ty) h.known

/-- The last step of a declaration: its placeholder becomes a variable. -/
theorem VarDecl.bind_leads (v : VarDecl) {declared : Bool} {v' : VarDecl} {Q : VarDecl → Prop}
    (hd : F → declared = true) (hq : F → Q v') :
    Leads F (Γ.hide v.name) (do
      if declared then
        let _ ← define v.name (.var v.ty) v.pos
      pure v') (Γ.declare v) Q := by
  have e : (Γ.hide v.name).bind v.name (.var v.ty) = Γ.declare v := Scene.put_put ..
  cases declared with
  | true =>
      refine .bind (e ▸ define_leads v.name (.var v.ty) v.pos) fun _ => .pure fun h => hq h.1
  | false => exact .of_not (fun hF => nomatch hd hF) fun c => .refl c

/-- To check a variable declares it, and finds its first value sound. -/
theorem VarDecl.check_leads (v : VarDecl) : Leads F Γ v.check (Γ.declare v) (v.Found Γ) := by
  rw [VarDecl.check]
  refine .reportIf _ _ <| .bind (resolveTy_leads v.pos v.ty) fun _ =>
    .bind (declare_leads v.name v.pos) fun declared => ?_
  cases hi : v.init with
  | none =>
      refine v.bind_leads (fun h => h.2.1) ?_
      rintro ⟨⟨-, hk⟩, -, hn⟩
      exact ⟨rfl, rfl, hk, fun _ K _ => ⟨hn, nofun⟩⟩
  | some e =>
      refine .bind (e.check_leads.given fun _ => trivial) fun r =>
        .bind (expectAccepted_leads ..) fun _ => v.bind_leads (fun h => h.1.1.2.1) ?_
      rintro ⟨⟨⟨⟨-, hk⟩, -, hn⟩, hf⟩, ha⟩
      refine ⟨rfl, rfl, hk, fun hl K hK => ⟨hn, fun e' he => ?_⟩⟩
      cases he
      exact ⟨hf.sound (hl.hide v.name) K hK, r.1, hf.ty, ha⟩

/-- What checking declarations one after another finds. -/
structure VarDecl.FoundAll (Γ : Scene) (vs vs' : List VarDecl) : Prop where
  scene  : ∀ Γ₁ : Scene, Γ₁.declareAll vs' = Γ₁.declareAll vs
  lawful : Γ.Lawful → (Γ.declareAll vs).Lawful
  sound  : Γ.Lawful → ∀ K, Γ.classes.Sub K → VarDecl.SoundAll K Γ vs'

/-- To check variables one after another declares all of them. -/
theorem VarDecl.checkAll_leads : ∀ (vs : List VarDecl) {Γ : Scene} {F : Prop},
    Leads F Γ (vs.mapM VarDecl.check) (Γ.declareAll vs) (VarDecl.FoundAll Γ vs)
  | [], Γ, F => by
      rw [List.mapM_nil]
      exact .pure fun _ => ⟨fun _ => rfl, id, fun _ _ _ => trivial⟩
  | v :: vs, Γ, F => by
      rw [List.mapM_cons]
      refine .bind v.check_leads fun v' => .bind (VarDecl.checkAll_leads vs) fun vs' => .pure ?_
      rintro ⟨⟨-, hv⟩, hvs⟩
      refine ⟨fun Γ₁ => ?_, fun hl => hvs.lawful (hv.lawful hl), fun hl K hK => ⟨?_, ?_⟩⟩
      · rw [Scene.declareAll, Scene.declareAll, hv.scene, hvs.scene]
      · exact hv.sound hl K hK
      · rw [hv.scene]
        exact hvs.sound (hv.lawful hl) K hK

/-! ### Statements -/

/-- To check an `init` clause declares what it declares. -/
theorem ForInit.check_leads (init : ForInit) : Leads F Γ init.check (Γ.afterInit init) fun init' =>
    (∀ Γ₁ : Scene, Γ₁.afterInit init' = Γ₁.afterInit init) ∧
      (Γ.Lawful → (Γ.afterInit init).Lawful) ∧
      (Γ.Lawful → ∀ K, Γ.classes.Sub K → init'.Sound K Γ) := by
  cases init with
  | decl v =>
      exact .bind v.check_leads fun v' => .pure fun h => ⟨h.2.scene, h.2.lawful, h.2.sound⟩
  | expr e =>
      rw [ForInit.check]
      refine .reportIf _ _ <| .bind (e.check_leads.given fun _ => trivial) fun r => .pure ?_
      exact fun h => ⟨fun _ => rfl, id, h.2.sound⟩

@[simp] theorem Scene.classes_afterInit (Γ : Scene) (init : ForInit) :
    (Γ.afterInit init).classes = Γ.classes := by
  cases init <;> rfl

namespace Check

/-- To check an update finds it sound. -/
theorem update_leads (e : Expr) :
    Leads F Γ (update e) Γ fun e' => Γ.Lawful → ∀ K, Γ.classes.Sub K → e'.Whole K Γ := by
  rw [update]
  refine .reportIf _ _ <| .bind (e.check_leads.given fun _ => trivial) fun r => .pure ?_
  exact fun h => h.2.sound

/-- To check a loop signal finds that it is in a loop. -/
theorem loopSignal_leads (statement : String) (p : Position) :
    Leads F Γ (loopSignal statement p) Γ fun _ => Γ.inLoop = true := by
  refine .get fun c => ?_
  split
  · exact .report _ _
  · rename_i h
    exact .pure fun ⟨_, hc⟩ => by rw [← hc.inLoop]; simpa using h

/-- To check a `return` finds that it goes with the function. -/
theorem expectReturn_leads (received : Option Ty) (p : Position) :
    Leads F Γ (expectReturn received p) Γ fun _ => ∃ f, Γ.function = some f ∧
      match received with
      | none   => f.returns = .void
      | some t => f.returns ≠ .void ∧ Γ.Accepts f.returns t := by
  refine .get fun c => ?_
  split
  · exact .report _ _
  · rename_i f hf
    split
    · exact .report _ _
    · rename_i hv
      exact .pure fun ⟨_, hc⟩ => ⟨f, by rw [← hc.function, hf], hv⟩
    · exact .report _ _
    · rename_i t r hv
      refine (expectAccepted_leads ..).imp ?_
      rintro - ⟨_, hc⟩ ha
      exact ⟨f, by rw [← hc.function, hf], hv, ha⟩

end Check

namespace Stmt

mutual

/-- Checking a statement that reports nothing gives a sound statement. -/
theorem check_leads : ∀ (s : Stmt) {Γ : Scene}, Leads True Γ s.check Γ fun s' =>
    Γ.Lawful → ∀ K, Γ.classes.Sub K → s'.Sound K Γ
  | .block p locals body, Γ => by
      rw [check]
      refine inFrame_leads p ?_ (Scene.classes_declareAll locals Γ.enter)
      refine .bind (VarDecl.checkAll_leads locals) fun locals' =>
        .bind ((checkAll_leads body).given fun _ => trivial) fun body' => .pure ?_
      rintro ⟨⟨-, hl'⟩, hb⟩ hl K hK
      rw [Sound, hl'.scene]
      exact ⟨hl'.sound hl.enter K hK, hb (hl'.lawful hl.enter) K (by simpa using hK)⟩
  | .ifElse p cond t e, Γ => by
      rw [check]
      refine .bind (cond.checkCondition_leads) fun _ =>
        .bind ((check_leads t).given fun _ => trivial) fun _ =>
        .bind ((check_leads e).given fun _ => trivial) fun _ => .pure ?_
      rintro ⟨⟨⟨-, hc⟩, ht⟩, he⟩ hl K hK
      exact ⟨hc hl K hK, ht hl K hK, he hl K hK⟩
  | .whileLoop p cond body, Γ => by
      rw [check]
      refine .bind (cond.checkCondition_leads) fun _ =>
        .bind (withLoop_leads true ((check_leads body).given fun _ => trivial)) fun _ => .pure ?_
      rintro ⟨⟨-, hc⟩, hb⟩ hl K hK
      exact ⟨hc hl K hK, hb hl.looping K hK⟩
  | .forLoop p init cond update body, Γ => by
      rw [check]
      refine inFrame_leads p ?_ (Scene.classes_afterInit Γ.enter init)
      refine .bind init.check_leads fun init' => .bind (cond.checkCondition_leads) fun _ =>
        .bind (update_leads update) fun _ =>
        .bind (withLoop_leads true ((check_leads body).given fun _ => trivial)) fun _ => .pure ?_
      rintro ⟨⟨⟨⟨-, hs, hil, hi⟩, hc⟩, hu⟩, hb⟩ hl K hK
      have hK' : (Γ.enter.afterInit init).classes.Sub K := by simpa using hK
      have hl' := hil hl.enter
      rw [Sound, hs]
      exact ⟨hi hl.enter K hK, hc hl' K hK', hu hl' K hK', hb hl'.looping K hK'⟩
  | .ret p (some e), Γ => by
      rw [check]
      refine .bind e.check_leads fun r => .bind (expectReturn_leads ..) fun _ => .pure ?_
      rintro ⟨⟨-, hf⟩, f, hfn, hv, ha⟩ hl K hK
      exact ⟨hf.sound hl K hK, f, hfn, hv, r.1, hf.ty, ha⟩
  | .ret p none, Γ => by
      rw [check]
      exact .bind (expectReturn_leads ..) fun _ => .pure fun ⟨_, f, hf, hv⟩ _ _ _ => ⟨f, hf, hv⟩
  | .breakLoop p, Γ => by
      rw [check]
      exact .bind (loopSignal_leads ..) fun _ => .pure fun h _ _ _ => h.2
  | .continueLoop p, Γ => by
      rw [check]
      exact .bind (loopSignal_leads ..) fun _ => .pure fun h _ _ _ => h.2
  | .expr p e, Γ => by
      rw [check]
      exact .bind e.check_leads fun r => .pure fun h => h.2.sound
  | .empty p, Γ => by
      rw [check]
      exact .pure fun _ _ _ _ => trivial

/-- To check statements one after another finds all of them sound. -/
theorem checkAll_leads : ∀ (ss : List Stmt) {Γ : Scene}, Leads True Γ (checkAll ss) Γ fun ss' =>
    Γ.Lawful → ∀ K, Γ.classes.Sub K → SoundAll K Γ ss'
  | [], Γ => by
      rw [checkAll]
      exact .pure fun _ _ _ _ => trivial
  | s :: ss, Γ => by
      rw [checkAll]
      refine .bind (check_leads s) fun _ => .bind ((checkAll_leads ss).given fun _ => trivial)
        fun _ => .pure ?_
      rintro ⟨⟨-, hs⟩, hss⟩ hl K hK
      exact ⟨hs hl K hK, hss hl K hK⟩

end

end Stmt

end Brace
