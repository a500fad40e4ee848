import Brace.Proofs.Safety.Given
import Brace.Proofs.Safety.Start

/-!
# Safety — names are bound where they are used

A run of an accepted program does not fail for want of a name, for a name that is given twice in one
frame, or for a format whose specifiers do not go with its arguments, unless the program takes a
reserved word for a name. Where an expression is evaluated, whatever it reads or writes by name is
bound in the frames that it sees, and so it is when the expression has been evaluated.

* `run_finds_names`: runs do not fail over names or formats.
-/

namespace Brace

/-- The name is bound in the current scope. -/
def Machine.Binds (m : Machine) (x : String) : Prop := (m.scopes.nearest? m.here x).isSome

namespace Expr

/-- A format with the expressions that go with its specifiers. -/
def format? : Expr → Option (Expr × List Expr)
  | .printf _ format args | .scanf _ format args | .sprintf _ _ format args => some (format, args)
  | _ => none

variable {K : Table ClassInfo} {Γ : Scene} {x : String}

/-- A name that a sound place is written with has a meaning. -/
theorem Sound.means_place {e : Expr} (hs : e.Sound K Γ) (hx : x ∈ e.placeNames) :
    (Γ.means x).isSome := by
  cases e with
  | name n y =>
      obtain ⟨known, h, -⟩ := hs.rule
      rw [List.mem_singleton.mp hx, h]
      rfl
  | index n y i =>
      obtain ⟨known, t, h, -⟩ := hs.rule
      rw [List.mem_singleton.mp hx, h]
      rfl
  | _ => exact absurd hx List.not_mem_nil

/-- Whatever checking has looked up for a sound expression means something. -/
theorem Sound.means_of_resolved {e : Expr} (hs : e.Sound K Γ) (hx : x ∈ e.resolved) :
    (Γ.means x).isSome := by
  cases e with
  | name | index => exact hs.means_place hx
  | indexAssign n y i v =>
      obtain ⟨known, t, h, -⟩ := hs.rule
      rw [List.mem_singleton.mp hx, h]
      rfl
  | assign n y v =>
      obtain ⟨t, h, -⟩ := hs.rule
      rw [List.mem_singleton.mp hx, h]
      rfl
  | compound n op y v =>
      obtain ⟨t, h, -⟩ := hs.rule
      rw [List.mem_singleton.mp hx, h]
      rfl
  | sprintf n y format args =>
      obtain ⟨-, -, t, h, -⟩ := hs.rule
      rw [List.mem_singleton.mp hx, h]
      rfl
  | step n form target => exact (hs.child (List.mem_singleton_self target)).means_place hx
  | scanf n format targets =>
      obtain ⟨target, ht, hx⟩ := List.mem_flatMap.mp hx
      exact (hs.child (List.mem_cons_of_mem format ht)).means_place hx
  | receiver n =>
      obtain ⟨known, h, -⟩ := hs.rule
      rw [List.mem_singleton.mp hx, h]
      rfl
  | superMethod n method =>
      obtain ⟨known, h, -⟩ := hs.rule
      rw [List.mem_singleton.mp hx, h]
      rfl
  | _ => exact absurd hx List.not_mem_nil

/-- Whatever a sound expression uses means something. -/
theorem Sound.means_of_uses {e : Expr} (hs : e.Sound K Γ) (seated : Γ.Seated) (hx : x ∈ e.uses) :
    (Γ.means x).isSome := by
  cases e with
  | superMethod n method =>
      have super := hs.means_of_resolved (x := "super") List.mem_cons_self
      rcases List.mem_cons.mp hx with rfl | hx
      · exact super
      · rw [List.mem_singleton.mp hx]
        exact seated super
  | _ => exact hs.means_of_resolved hx

/-- The format of a sound expression is written out, with a specifier for each argument. -/
theorem Sound.format {e : Expr} (hs : e.Sound K Γ) {format : Expr} {args : List Expr}
    (hf : e.format? = some (format, args)) : ∃ n template, format = .literal n (.str template) ∧
      (Template.specifiers template).length = args.length := by
  have written : format.Formats args := by
    cases e with
    | printf n f as => cases hf; exact hs.rule.2
    | scanf n f as => cases hf; exact hs.rule.2.1
    | sprintf n y f as => cases hf; exact hs.rule.2.1
    | _ => cases hf
  obtain ⟨n, template, e, -, hl, -⟩ := written
  exact ⟨n, template, e, hl⟩

end Expr

variable {P : Plan} {s : Site} {Γ : Scene}

/-- A name with a meaning is bound where the run is. -/
theorem Ready.binds (hr : Ready P Γ s) {x : String} (hx : (Γ.means x).isSome) :
    s.machine.Binds x := by
  obtain ⟨known, hx⟩ := Option.isSome_iff_exists.mp hx
  obtain ⟨i, b, met, e, -⟩ := hr.nearest hx
  rw [Machine.Binds, e]
  rfl

/-- **Name soundness.**  Where a program takes no reserved word for a name, its runs do not fail
over names or formats: no name is looked up or assigned to that is not bound, no frame is given one
name twice, and every format has a specifier for each argument. Each name that an expression uses is
bound in the current scope when its evaluation begins, and when it ends. -/
theorem run_finds_names {p : Program} {checked : Checked} (h : p.check = .ok checked)
    (hu : p.Unreserved) (settings : Settings) (stdin : String) {q : Progress Value}
    (hq : (checked.program.run (.start settings stdin)).Steps q) :
    (∀ e m, q = .finished (.error e) m → e.cause.isOfNames = false) ∧
    ∀ e m resume, q = .waiting (.expr e) m resume →
      (∀ x ∈ e.uses, m.Binds x ∧ ∀ r m', (Job.expr e).Answers m r m' → m'.Binds x) ∧
      ∀ format args, e.format? = some (format, args) → ∃ n template,
        format = .literal n (.str template) ∧
          (Template.specifiers template).length = args.length := by
  have hu := Program.unreserved_of_check h hu
  have left := (Program.meets_run h settings stdin).steps (sound_kept _) hq
  constructor
  · rintro e m rfl
    obtain ⟨W, -, allowed⟩ := left
    exact allowed hu
  · rintro e m resume rfl
    obtain ⟨W, Γ, ⟨ready, sound, -⟩, answered⟩ := left.asked
    refine ⟨fun x hx => ?_, fun format args hf => sound.format hf⟩
    have means := sound.means_of_uses (ready.seated hu) hx
    refine ⟨ready.binds means, fun r m' ha => ?_⟩
    obtain ⟨-, W', reached, -⟩ := answered r m' ha
    exact (ready.later reached.later reached.ok).binds means

/-- `class A { int f() { return 1; } } class B : A { int f() { return super.f(); } }`
`int main() { B b = B(); return b.f(); }` -/
def deferring : Program := [
  .cls ⟨.ofLine 1, "A", none, [], [⟨.ofLine 1, .int, "f", [], [],
    [.ret (.ofLine 1) (some (.literal .blank (.int 1)))]⟩]⟩,
  .cls ⟨.ofLine 2, "B", some "A", [], [⟨.ofLine 2, .int, "f", [], [],
    [.ret (.ofLine 2) (some (.call .blank (.superMethod .blank "f") []))]⟩]⟩,
  .func ⟨.ofLine 3, .int, "main", [],
    [⟨.ofLine 3, .object "B", "b", some (.call .blank (.name .blank "B") [])⟩],
    [.ret (.ofLine 3) (some (.call .blank (.get .blank (.name .blank "b") "f") []))]⟩]

/-- A method that defers to the superclass finds it, and its receiver too. -/
theorem run_finds_names_deferring : ∃ checked, deferring.check = .ok checked ∧
    deferring.Unreserved ∧ ∃ e m resume,
      (checked.program.run (.start .standard "")).Steps (.waiting (.expr e) m resume) ∧
      e.uses = ["super", "this"] ∧ m.Binds "super" ∧ m.Binds "this" := by
  have accepted : deferring.admits (fun checked =>
      (checked.program.run (.start .standard "")).waitsFor 11 fun e _ =>
        e.uses == ["super", "this"]) = true := by decide +kernel
  have unreserved : deferring.Unreserved := by decide +kernel
  obtain ⟨checked, hc, test⟩ := Program.of_admits accepted
  obtain ⟨e, m, resume, hq, test⟩ := Progress.steps_of_waitsFor test
  rw [beq_iff_eq] at test
  have found := (run_finds_names hc unreserved .standard "" hq).2 e m resume rfl
  refine ⟨checked, hc, unreserved, e, m, resume, hq, test, (found.1 _ ?_).1, (found.1 _ ?_).1⟩
  · rw [test]
    exact List.mem_cons_self
  · rw [test]
    exact List.mem_cons_of_mem _ List.mem_cons_self

end Brace
