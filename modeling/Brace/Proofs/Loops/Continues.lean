import Brace.Proofs.Run.Steps
import Brace.Proofs.Run.Contract

/-!
# Loops — statements that continue

A `continue` belongs to the innermost loop around it. Only a statement that has one of an outer loop ends by
it (`Stmt.continues_of_answers`); a loop never does.
-/

namespace Brace

variable {α β : Type}

namespace Stmt

mutual

/-- The statement has a `continue` in it that is in no loop in the statement. -/
def continues : Stmt → Bool
  | .continueLoop _ => true
  | .block _ _ ss   => anyContinues ss
  | .ifElse _ _ t e => t.continues || e.continues
  | _               => false

def anyContinues : List Stmt → Bool
  | []      => false
  | s :: ss => s.continues || anyContinues ss

end

end Stmt

/-- Where the answer to the job is a `continue`, the job is for a statement that continues. -/
def Job.Continues : (j : Job) → Except Error j.Answer → Prop
  | .stmt s, r  => r = .ok .continueLoop → s.continues = true
  | .loop .., r => r ≠ .ok .continueLoop
  | _, _        => True

def continuing : Contract where
  Ghost := Unit
  pre _ _ _ := True
  post _ j _ r _ := j.Continues r

/-- Nothing is asked of what jobs are asked for. -/
theorem Progress.meets_continuing (p : Progress α) : p.Meets continuing fun _ _ => True := by
  induction p with
  | finished r m => trivial
  | waiting j m resume ih => exact ⟨(), trivial, fun r m _ => ih r m⟩
  | endless => trivial

/-- The computation ends by a `continue` only if `c`. -/
def Eval.Continues (c : Bool) (x : Eval Flow) : Prop :=
  ∀ m, (x m).Meets continuing fun r _ => r = .ok .continueLoop → c = true

namespace Eval.Continues

variable {c c' : Bool}

theorem pure {flow : Flow} (h : flow = .continueLoop → c = true) : Continues c (Pure.pure flow) :=
  fun _ e => h (Except.ok.inj e)

theorem bind {x : Eval α} {f : α → Eval Flow} (hf : ∀ a, (f a).Continues c) : (x >>= f).Continues c :=
  fun m => Progress.Meets.andThen <| (x m).meets_continuing.mono fun r m' _ => by
    cases r with
    | ok a => exact hf a m'
    | error e => exact nofun

theorem inBlock (p : Position) {x : Eval Flow} (hx : x.Continues c) : (inBlock p x).Continues c :=
  fun m => Progress.Meets.andThen <| (hx m.pushScope).mono fun r m' hr => by
    cases m'.popScope with
    | ok m' => exact hr
    | error e => exact nofun

/-- What the statement does not end by goes on with something else. -/
theorem exec {s : Stmt} {f : Flow → Eval Flow} (hf : ∀ flow, (flow = .continueLoop → s.continues = true) →
    (f flow).Continues c) : (s.exec >>= f).Continues c := fun _ =>
  ⟨(), trivial, fun r m' hr => by
    cases r with
    | ok flow => exact hf flow (fun e => hr (congrArg Except.ok e)) m'
    | error e => exact nofun⟩

theorem ask_stmt {s : Stmt} (h : s.continues = true → c = true) : (s.exec).Continues c := fun _ =>
  ⟨(), trivial, fun _ _ hr e => h (hr e)⟩

theorem ask_loop (cond : Expr) (update : Option Expr) (body : Stmt) :
    (ask (.loop cond update body) : Eval Flow).Continues c := fun _ =>
  ⟨(), trivial, fun _ _ hr e => absurd e hr⟩

theorem runStmts (ss : List Stmt) : (runStmts ss).Continues (Stmt.anyContinues ss) := by
  induction ss with
  | nil => exact pure (by simp)
  | cons s ss ih =>
      refine exec fun flow hflow => ?_
      cases flow with
      | normal => exact fun m => (ih m).mono fun _ _ h e => by simp [Stmt.anyContinues, h e]
      | continueLoop => exact pure fun _ => by simp [Stmt.anyContinues, hflow rfl]
      | ret v | breakLoop => exact pure (by simp)

theorem loopTurn (cond : Expr) (update : Option Expr) (body : Stmt) :
    (loopTurn cond update body).Continues c := by
  refine bind fun v => ?_
  split
  · refine bind fun flow => ?_
    cases flow with
    | breakLoop | ret => exact pure nofun
    | normal | continueLoop =>
        cases update with
        | some u => exact bind fun _ => ask_loop cond (some u) body
        | none => exact ask_loop cond none body
  · exact pure nofun

end Eval.Continues

theorem Stmt.continues_start (s : Stmt) : s.start.Continues s.continues := by
  cases s with
  | block p locals body =>
      rw [continues]
      exact .inBlock p (.bind fun _ => .runStmts body)
  | ifElse p cond t e =>
      refine .bind fun v => ?_
      split
      · exact .ask_stmt fun h => by simp [continues, h]
      · exact .ask_stmt fun h => by simp [continues, h]
  | whileLoop p cond body => exact .ask_loop cond none body
  | forLoop p init cond update body => exact .inBlock p (.bind fun _ =>
      .ask_loop cond (some update) body)
  | ret p value =>
      cases value with
      | some e => exact .bind fun _ => .pure nofun
      | none => exact .pure nofun
  | continueLoop p => exact .pure fun _ => by rw [continues]
  | expr p e => exact .bind fun _ => .pure nofun
  | _ => exact .pure nofun

theorem continuing_kept : continuing.Kept := by
  rintro - j m -
  cases j with
  | stmt s => exact s.continues_start m
  | loop cond update body =>
      exact (Eval.Continues.loopTurn (c := false) cond update body m).mono fun r _ h e => nomatch h e
  | expr e => exact (e.start m).meets_continuing
  | apply f args p => exact (Eval.applyTo f args p m).meets_continuing

/-- A statement that ends by a `continue` has one. -/
theorem Stmt.continues_of_answers {s : Stmt} {m m' : Machine}
    (h : (Job.stmt s).Answers m (.ok .continueLoop) m') : s.continues = true :=
  continuing_kept.answers (g := ()) trivial h rfl

end Brace
