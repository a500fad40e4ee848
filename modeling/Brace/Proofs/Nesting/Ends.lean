import Brace.Proofs.Nesting.Runs

/-!
# Nesting — runs without loops come to an end

Only a loop asks for itself again. Without loops, a job asks for jobs that are for less of the program
or that are one call deeper (`Job.Wants.lower`), and calls may not nest deeper than the limit. So a run
comes to an end, unless it shows a value that has no text, and if it ever nests calls too deep the
end is just that.

* `Job.halts`: jobs without loops halt.
* `run_halts`: so do programs.
-/

namespace Brace

open Eval

variable {α : Type} {P : FuncDecl → Prop} {k d d' : Nat}

/-! ### Programs without loops -/

namespace Stmt

mutual

/-- The statement has no loop anywhere. -/
def isLoopless : Stmt → Bool
  | .block _ _ ss                => areLoopless ss
  | .ifElse _ _ t e              => t.isLoopless && e.isLoopless
  | .whileLoop .. | .forLoop ..  => false
  | .ret .. | .breakLoop _ | .continueLoop _ | .expr .. | .empty _ => true

def areLoopless : List Stmt → Bool
  | []      => true
  | s :: ss => s.isLoopless && areLoopless ss

end

/-- Statements have no loops where none of them has one. -/
theorem areLoopless_eq_all (ss : List Stmt) : areLoopless ss = ss.all isLoopless := by
  induction ss with
  | nil => rw [areLoopless, List.all_nil]
  | cons s ss ih => rw [areLoopless, List.all_cons, ih]

end Stmt

def FuncDecl.isLoopless (f : FuncDecl) : Bool := Stmt.areLoopless f.body

/-- No function or method of the program has a loop. -/
def Program.isLoopless (p : Program) : Bool := p.bodies.all FuncDecl.isLoopless

/-- The functions that have no loop. -/
abbrev loopless : FuncDecl → Prop := fun f => f.isLoopless = true

/-- The job runs no loop by itself. -/
def Job.Loopless : Job → Prop
  | .expr _  => True
  | .stmt s  => s.isLoopless = true
  | .loop .. => False
  | j        => j.Of loopless

theorem Job.Loopless.of : ∀ {j : Job}, j.Loopless → j.Of loopless
  | .expr _, _ | .stmt _, _ => trivial
  | .apply .., h => h

/-- How much of the program a job is for. -/
noncomputable def Job.size : Job → Nat
  | .expr e => sizeOf e
  | .stmt s => sizeOf s
  | _       => 0

/-! ### What is asked for is less -/

namespace Expr

/-- A part is no larger than the whole. -/
theorem sizeOf_subexpr {e c : Expr} (h : c ∈ e.subexprs) : sizeOf c ≤ sizeOf e := by
  rw [subexprs_eq] at h
  rcases List.mem_cons.mp h with rfl | h
  · exact Nat.le_refl _
  · obtain ⟨a, ha, hc⟩ := List.mem_flatMap.mp h
    exact Nat.le_of_lt (Nat.lt_of_le_of_lt (sizeOf_subexpr hc) (sizeOf_child ha))
termination_by sizeOf e
decreasing_by exact sizeOf_child ha

end Expr

/-- The initial value of a variable is smaller than its declaration. -/
theorem VarDecl.lower_of_jobs {v : VarDecl} {j : Job} (h : j ∈ v.jobs) :
    j.Loopless ∧ j.size < sizeOf v := by
  obtain ⟨p, t, x, init⟩ := v
  cases init with
  | none => cases h
  | some e =>
      rw [List.mem_singleton.mp h]
      exact ⟨trivial, by simp [Job.size]; omega⟩

/-- A body without loops asks for jobs that are for less than it. -/
theorem lower_of_bodyJobs {locals : List VarDecl} {body : List Stmt}
    (hl : Stmt.areLoopless body = true) {j : Job} (h : j ∈ bodyJobs locals body) :
    j.Loopless ∧ j.size < sizeOf locals + sizeOf body := by
  rcases List.mem_append.mp h with h | h
  · obtain ⟨v, hv, h⟩ := List.mem_flatMap.mp h
    obtain ⟨loopless, lt⟩ := v.lower_of_jobs h
    have := List.sizeOf_lt_of_mem hv
    exact ⟨loopless, by omega⟩
  · obtain ⟨s, hs, rfl⟩ := List.mem_map.mp h
    rw [Stmt.areLoopless_eq_all] at hl
    have := List.sizeOf_lt_of_mem hs
    exact ⟨List.all_eq_true.mp hl s hs, by simp only [Job.size]; omega⟩

/-- What a statement asks for has no loops either, and is smaller. -/
theorem Stmt.lower_of_jobs {s : Stmt} (hs : s.isLoopless = true) {j : Job} (h : j ∈ s.jobs) :
    j.Loopless ∧ j.size < sizeOf s := by
  cases s with
  | block p locals body =>
      rw [isLoopless] at hs
      obtain ⟨loopless, lt⟩ := lower_of_bodyJobs hs h
      exact ⟨loopless, by simp; omega⟩
  | ifElse p cond t e =>
      rw [isLoopless, Bool.and_eq_true] at hs
      simp only [jobs, List.mem_cons, List.not_mem_nil, or_false] at h
      rcases h with rfl | rfl | rfl
      · exact ⟨trivial, by simp only [Job.size, ifElse.sizeOf_spec]; omega⟩
      · exact ⟨hs.1, by simp only [Job.size, ifElse.sizeOf_spec]; omega⟩
      · exact ⟨hs.2, by simp only [Job.size, ifElse.sizeOf_spec]; omega⟩
  | whileLoop | forLoop => rw [isLoopless] at hs; cases hs
  | ret p e =>
      cases e with
      | none => cases h
      | some e =>
          rw [List.mem_singleton.mp h]
          exact ⟨trivial, by simp [Job.size]; omega⟩
  | expr p e =>
      rw [List.mem_singleton.mp h]
      exact ⟨trivial, by simp only [Job.size, expr.sizeOf_spec]; omega⟩
  | _ => cases h

/-- What a job asks for is for less of the program, or is one call deeper. -/
theorem Job.Wants.lower {j j' : Job} (h : j.Wants loopless d d' j') (hj : j.Loopless) :
    j'.Loopless ∧ (d' = d ∧ j'.size < j.size ∨ d' = d + 1) := by
  cases h with
  | inside h =>
      cases j with
      | expr e =>
          obtain ⟨c, hc, rfl⟩ := List.mem_map.mp h
          obtain ⟨a, ha, hc⟩ := List.mem_flatMap.mp hc
          have lt := Nat.lt_of_le_of_lt (Expr.sizeOf_subexpr hc) (Expr.sizeOf_child ha)
          exact ⟨trivial, .inl ⟨rfl, lt⟩⟩
      | stmt s =>
          obtain ⟨loopless, lt⟩ := Stmt.lower_of_jobs hj h
          exact ⟨loopless, .inl ⟨rfl, lt⟩⟩
      | loop => cases hj
      | apply => cases h
  | @call e callee args p h =>
      refine ⟨h, .inl ⟨rfl, ?_⟩⟩
      exact Nat.pos_of_ne_zero (by cases e <;> simp [size])
  | body hf h => exact ⟨(lower_of_bodyJobs hf h).1, .inr rfl⟩

/-! ### Coming to an end -/

/-- The run comes to an end, or shows a value that has no text. -/
def Progress.Halts (p : Progress α) : Prop := p.Steps .endless ∨ ∃ r m, p.Steps (.finished r m)

/-- If every job that is asked for halts, so does what asks for them. -/
theorem Progress.Meets.halts {J : Nat → Job → Prop} {Q : Except Error α → Machine → Prop}
    (hJ : ∀ d j, J d j → j.Of P) (hj : ∀ d j m, m.At P k d → J d j → (j.start m).Halts) :
    ∀ {p : Progress α}, p.Meets (limiting P k J) Q → p.Halts := by
  intro p
  induction p with
  | finished r m => exact fun _ => .inr ⟨r, m, .refl _⟩
  | endless => exact fun _ => .inl (.refl _)
  | waiting j m resume ih =>
      rintro ⟨g, ⟨hm, here⟩, hr⟩
      rcases hj _ j m hm here with hs | ⟨r, m', hs⟩
      · exact .inl (.more (hs.andThen resume))
      · have answer := (Job.answers_iff_steps j m r m').mpr hs
        have post := (limiting_tracked (Nat.le_refl k)).kept.answers (g := ()) ⟨hm, hJ _ j here⟩ answer
        have on := answer.steps resume
        rcases ih r m' (hr r m' post) with hs' | ⟨r', m₂, hs'⟩
        · exact .inl (on.trans hs')
        · exact .inr ⟨r', m₂, on.trans hs'⟩

/-- A job that runs no loop halts. -/
theorem Job.halts {j : Job} (hj : j.Loopless) {d : Nat} {m : Machine} (hm : m.At loopless k d) :
    (j.start m).Halts := by
  have meets := (j.nests_start (P := loopless) (k := k) (d := d) hj.of k (Nat.le_refl k) m hm).meets
  refine meets.halts (fun _ _ w => w.of) fun d₁ j₁ m₁ hm₁ w => ?_
  obtain ⟨hj₁, lower⟩ := w.lower hj
  have less : Prod.Lex (· < ·) (· < ·) (k - d₁, j₁.size) (k - d, j.size) := by
    rcases lower with ⟨rfl, lt⟩ | rfl
    · exact .right _ lt
    · -- A call is under way that was not before, and there is room for it.
      have := hm₁.within
      exact .left _ _ (by omega)
  exact halts hj₁ hm₁
termination_by (k - d, j.size)
decreasing_by exact less

/-- **Runs without loops.**  A program without loops comes to an end under every limit, whatever it
reads, if it shows no value that has no text. Whether there are loops or not, a program that nests
calls deeper than some limit when it may do so ends because calls nest too deep when it may not. -/
theorem run_halts (p : Program) (echo : Bool) (stdin : String) :
    (p.isLoopless = true → ∀ k, ¬ (Program.run p (.start ⟨k, echo⟩ stdin)).Steps .endless →
      ∃ depth r m, (Program.run p).run depth (.start ⟨k, echo⟩ stdin) = some (r, m)) ∧
    ∀ k n q m, (Program.run p (.start ⟨n, echo⟩ stdin)).Steps q → q.machine? = some m →
      k < m.callDepth → ∃ depth pos m',
        (Program.run p).run depth (.start ⟨k, echo⟩ stdin) =
          some (.error ⟨.stackExhausted k, pos⟩, m') := by
  constructor
  · intro hp k shown
    have hP : ∀ f ∈ p.bodies, loopless f := List.all_eq_true.mp hp
    have nests := Program.nests_run (P := loopless) (k := k) (d := 0) (J := fun _ j => j.Loopless)
      hP (fun d hd j hj => ?_) fun entry pos he => ⟨he, nofun⟩
    · have start : (Machine.start ⟨k, echo⟩ stdin).At loopless k 0 :=
        ⟨Machine.of_start _ _, rfl, rfl, Nat.zero_le k⟩
      have meets := (nests k (Nat.le_refl k) _ start).meets
      rcases meets.halts (fun _ _ hj => hj.of) fun d j m hm hj => j.halts hj hm with hs | ⟨r, m, hs⟩
      · exact absurd hs shown
      · obtain ⟨depth, e⟩ := Progress.complete_of_steps hs
        exact ⟨depth, r, m, e⟩
    · cases d with
      | var v => exact (v.lower_of_jobs hj).1
      | _ => cases hj
  · intro k n q m hs e deep
    have hm : (Machine.start ⟨k, echo⟩ stdin).Of anyFunction := Machine.of_start _ _
    have le : k ≤ n := Nat.le_trans (Nat.le_of_lt deep)
      ((Program.nests_any p).bounded (m := .start ⟨k, echo⟩ stdin) hm (Nat.zero_le n) hs e)
    obtain ⟨depth, r, m', e, pos, rfl⟩ :=
      (Program.nests_any p).exhausted (m := .start ⟨k, echo⟩ stdin) hm (Nat.zero_le k) le hs e deep
    exact ⟨depth, pos, m', e⟩

/-- With room for all its calls the run comes to an end. Three of them are under way at some time, and
so it fails if there may be only two. -/
theorem run_halts_descending : descending.isLoopless = true ∧
    (∃ depth r m, (Program.run descending).run depth (.start ⟨10000, false⟩ "") = some (r, m)) ∧
    ∃ depth pos m', (Program.run descending).run depth (.start ⟨2, false⟩ "") =
      some (.error ⟨.stackExhausted 2, pos⟩, m') := by
  have without : descending.isLoopless = true := by decide +kernel
  have answered : ((Program.run descending).run 30 (.start ⟨10000, false⟩ "")).isSome = true := by
    decide +kernel
  obtain ⟨⟨r, m₁⟩, e₁⟩ := Option.isSome_iff_exists.mp answered
  have shown := (Progress.steps_of_complete _ e₁).not_endless
  have nested : (((Program.run descending (.start ⟨10000, false⟩ "")).after 20).machine?).any
      (2 < ·.callDepth) = true := by decide +kernel
  obtain ⟨m, e, deep⟩ := (Option.any_eq_true ..).mp nested
  have ⟨halts, fails⟩ := run_halts descending false ""
  exact ⟨without, halts without 10000 shown,
    fails 2 10000 _ m (Progress.steps_after 20 _) e (of_decide_eq_true deep)⟩

end Brace
