import Brace.Proofs.Typing.Told

/-!
# Typing — the phases of what is reported

An error does not carry its phase: that is read off its cause, far from the rules that report it. All
that checking reports has the phase `check`, apart from one cause: that a class has no method of the
name that follows a `super`. This one has the phase `runtime`, though no run has begun. What checking
warns of has the phase `warning`.

* `check_phases`: the phases of what is reported of a program.
* `check_reports_runtime`: a program of which something with the phase `runtime` is reported.
-/

namespace Brace

open Check

/-- **The phases of what is reported.**  Whatever the program: if it is accepted, all warnings about
it have the phase `warning`. If it is refused, then of all that is reported each has the phase
`check`, unless it says of a `super.x` of the program that `x` is no property there; and that has the
phase `runtime`. -/
theorem check_phases (p : Program) :
    match p.check with
    | .ok checked => ∀ w ∈ checked.warnings, w.phase = .warning
    | .error es   => ∀ e ∈ es, e.phase = .check ∨ e.phase = .runtime ∧
        ∃ n x, .expr (.superMethod n x) ∈ p.parts ∧ e = ⟨.undefinedProperty x, n.pos⟩ := by
  have tells : Tells (fun e => e.phase = .check ∨ e.phase = .runtime ∧
      ∃ n x, .expr (.superMethod n x) ∈ p.parts ∧ e = ⟨.undefinedProperty x, n.pos⟩)
      (p.mapM Decl.check) := by
    refine .mapM fun d hd => d.check_tells (fun e phase => .inl phase) ?_
    intro n x hx
    exact .inr ⟨rfl, n, x, List.mem_flatMap.mpr ⟨d, hd, hx⟩, rfl⟩
  -- Where checking starts, nothing has been reported.
  have told := tells.told .start
  rw [p.check_eq]
  by_cases clean : ((p.mapM Decl.check) Checker.start).2.errors.isEmpty = true
  · rw [if_pos clean]
    exact told.warns _ (List.nil_append _).symm
  · rw [if_neg clean]
    exact told.reports _ (List.nil_append _).symm

/-- `class A { }` `class B : A { int f() { return super.g(); } }` -/
def lacking : Program := [.cls ⟨.ofLine 1, "A", none, [], []⟩,
  .cls ⟨.ofLine 2, "B", some "A", [], [⟨.ofLine 2, .int, "f", [], [],
    [.ret (.ofLine 2) (some (.call .blank (.superMethod .blank "g") []))]⟩]⟩]

/-- Checking reports something that does not have the phase `check`. -/
theorem check_reports_runtime : ∃ es, lacking.check = .error es ∧
    ∃ e ∈ es, e.cause = .undefinedProperty "g" ∧ e.phase = .runtime := by
  have refused : (match lacking.check with
    | .ok _     => false
    | .error es => es.any fun e => e.cause = .undefinedProperty "g") = true := by decide +kernel
  split at refused
  · cases refused
  · rename_i es reported
    obtain ⟨e, he, cause⟩ := List.any_eq_true.mp refused
    have cause := of_decide_eq_true cause
    exact ⟨es, reported, e, he, cause, by rw [Error.phase, cause]; rfl⟩

end Brace
