import Brace.Proofs.Run.Asks
import Brace.Proofs.Safety.Start

/-!
# Safety — what the declarations of a program have created

A function or a class comes into being when its declaration is run, and its name holds it from then
on: no declaration gives the name again, and what is read from the input is stored elsewhere, if it
is read into variables alone.

* `Program.Creates`: what a declaration has created in a run.
* `Program.holds_run`: wherever a run is, the names of functions and classes hold what their
  declarations have created.
* `run_writes_variables`: and nothing fails because it would store to a constant.
-/

namespace Brace

open Eval

variable {P : Plan} {s s' : Site} {Γ : Scene}

/-- A run of the program from `m₀` on, where all declarations before this one have been run, goes on
to run this one, which leaves the value in its name. -/
inductive Program.Creates (p : Program) (m₀ : Machine) (d : Decl) (v : Value) : Prop where
  | intro {before after : List Decl} {m m' : Machine} (parted : p = before ++ d :: after)
      (comes : ((before.forM Decl.run) m₀).Steps (.finished (.ok ()) m))
      (runs : (d.run m).Steps (.finished (.ok ()) m'))
      (leaves : m'.scopes.binding? 1 d.name = some (some v))

/-- What the frame of the program has for functions and classes is what their declarations have
created. -/
def Program.Holds (p : Program) (m₀ m : Machine) : Prop :=
  ∀ d ∈ p, d.defines = true → ∀ b, m.scopes.binding? 1 d.name = some b →
    ∃ v, b = some v ∧ p.Creates m₀ d v

/-! ### Declarations have names of their own -/

namespace Decl.SoundAll

variable {K : Table ClassInfo}

/-- No two declarations have the same name. -/
theorem unique : ∀ {ds : List Decl} {Γ : Scene}, Decl.SoundAll K Γ ds → ∀ d ∈ ds, ∀ d' ∈ ds,
    d.name = d'.name → d = d'
  | d₀ :: ds, Γ, h, d, hd, d', hd', e => by
      have own : (Γ.after d₀).own d₀.name = true := by
        rw [Scene.own_after, beq_self_eq_true, Bool.true_or]
      rcases List.mem_cons.mp hd with rfl | later <;>
        rcases List.mem_cons.mp hd' with rfl | later'
      · rfl
      · exact absurd e (ne_name h.2 own d' later')
      · exact absurd e.symm (ne_name h.2 own d later)
      · exact unique h.2 d later d' later' e

end Decl.SoundAll

namespace Program

variable {m₀ : Machine}

/-! ### What a name holds, it keeps -/

section

variable (firm : P.program.Firm)
  (unique : ∀ d ∈ P.program, ∀ d' ∈ P.program, d.name = d'.name → d = d')

include firm unique

/-- A function or a class keeps its name. -/
theorem kept (hf : s.Framed P) (h : s.Steady P s') {d : Decl} (hd : d ∈ P.program)
    (hdef : d.defines = true) {b : Option Value}
    (hb : s.machine.scopes.binding? 1 d.name = some b) :
    s'.machine.scopes.binding? 1 d.name = some b := by
  have named := hf.names 1 d.name
  rw [hb] at named
  obtain ⟨met, hm⟩ := Option.isSome_iff_exists.mp named.symm
  obtain ⟨d', hd', hname, makes⟩ := hf.top _ _ hm
  cases unique d' hd' d hd hname
  -- The name means what a declaration of this name makes of it, and there is only the one.
  have declared : met.isDeclared = true := by
    cases d with
    | var v => cases hdef
    | func f => cases makes; rfl
    | cls c => obtain ⟨info, rfl⟩ := makes; rfl
  exact h firm 1 d.name b met hb hm declared

/-- Where no more has been declared, no more names are held. -/
theorem Holds.stays (hf : s.Framed P) (hf' : s'.Framed P) (h : s.Stays P none s')
    (holds : P.program.Holds m₀ s.machine) : P.program.Holds m₀ s'.machine := by
  intro d hd hdef b hb
  have lt : 1 < s.next := hf.size
  have known := hf'.names 1 d.name
  rw [hb, h.others 1 lt nofun, ← hf.names] at known
  obtain ⟨b', hb'⟩ := Option.isSome_iff_exists.mp known.symm
  cases hb.symm.trans (kept firm unique hf h.steady hd hdef hb')
  exact holds d hd hdef b hb'

/-- While a declaration is run, and when it has been run. -/
theorem holds_decl {before after : List Decl} {d : Decl} (parted : P.program = before ++ d :: after)
    (h : Top P Γ s) (hs : d.Sound P.classes Γ) (hc : (Γ, d) ∈ P.program.scenes)
    (comes : ((before.forM Decl.run) m₀).Steps (.finished (.ok ()) s.machine))
    (holds : P.program.Holds m₀ s.machine) {q : Progress Unit} (hq : (d.run s.machine).Steps q) :
    (∀ m, q.machine? = some m → P.program.Holds m₀ m) ∧
      ∀ r m, q = .finished (.ok r) m → ∃ W, Top P (Γ.after d) ⟨W, m⟩ := by
  have hd : d ∈ P.program := parted ▸ List.mem_append_right _ List.mem_cons_self
  have hf := h.ready.ok.toFramed
  have meets := Progress.Meets.steps (since_kept P none s) (d.adds_run h hd hs hc) hq
  cases q with
  | waiting j m resume =>
      obtain ⟨⟨W, Γ'⟩, ⟨asks, stays⟩, -⟩ := meets
      refine ⟨fun m' e => ?_, nofun⟩
      cases e
      exact holds.stays firm unique hf asks.ok.toFramed stays
  | endless => exact ⟨nofun, nofun⟩
  | finished r m =>
      cases r with
      | error e =>
          obtain ⟨W, reached, -⟩ := meets
          refine ⟨fun m' e => ?_, nofun⟩
          cases e
          exact holds.stays firm unique hf reached.ok.toFramed reached.stays
      | ok r =>
          obtain ⟨W, reached, left⟩ := meets
          refine ⟨fun m' e d₀ hd₀ hdef b hb => ?_, fun r' m' e => ?_⟩
          · cases e
            by_cases en : d₀.name = d.name
            · cases unique d₀ hd₀ d hd en
              -- This is the declaration that has been run.
              obtain ⟨v, hv⟩ := left.holds hdef
              cases hb.symm.trans hv
              exact ⟨v, rfl, .intro parted comes hq hb⟩
            · -- Only the name of the declaration is new.
              have own := left.top.names.own d₀.name
              rw [← reached.ok.names, hb, Scene.own_after, beq_eq_false_iff_ne.mpr en,
                Bool.false_or, ← h.names.own, ← hf.names] at own
              obtain ⟨b', hb'⟩ := Option.isSome_iff_exists.mp own.symm
              cases hb.symm.trans (kept firm unique hf reached.steady hd₀ hdef hb')
              exact holds d₀ hd₀ hdef b hb'
          · cases e
            exact ⟨W, left.top⟩

/-- While the declarations of a program are run, and when they have been run. -/
theorem holds_decls : ∀ {ds before : List Decl} {Γ : Scene} {s : Site},
    P.program = before ++ ds → Top P Γ s → Decl.SoundAll P.classes Γ ds →
    (∀ a ∈ Decl.scenes Γ ds, a ∈ P.program.scenes) →
    ((before.forM Decl.run) m₀).Steps (.finished (.ok ()) s.machine) →
    P.program.Holds m₀ s.machine → ∀ {q : Progress Unit},
      ((ds.forM Decl.run) s.machine).Steps q →
        (∀ m, q.machine? = some m → P.program.Holds m₀ m) ∧
          ∀ r m, q = .finished (.ok r) m → ∃ W, Top P (Γ.afterAll ds) ⟨W, m⟩
  | [], before, Γ, s, _, h, _, _, _, holds, q, hq => by
      cases hq
      refine ⟨fun m e => ?_, fun r m e => ?_⟩
      · cases e
        exact holds
      · cases e
        exact ⟨s.world, h⟩
  | d :: ds, before, Γ, s, parted, h, hs, hc, comes, holds, q, hq => by
      obtain ⟨hc, hcs⟩ := List.forall_mem_cons.mp hc
      have first {p : Progress Unit} (hp : (d.run s.machine).Steps p) :=
        holds_decl firm unique parted h hs.1 hc comes holds hp
      rcases steps_into_bind (x := d.run) (f := fun _ => ds.forM Decl.run) hq with
        ⟨p, hp, e, unfinished⟩ | ⟨_, m₁, hp, hq⟩
      · exact ⟨fun m hm => (first hp).1 m (e ▸ hm), fun r m hr => absurd hr (unfinished r m)⟩
      · obtain ⟨holds₁, top₁⟩ := first hp
        obtain ⟨W, top₁⟩ := top₁ _ m₁ rfl
        have comes₁ : (((before ++ [d]).forM Decl.run) m₀).Steps (.finished (.ok ()) m₁) := by
          have e : (before ++ [d]).forM Decl.run =
            (before.forM Decl.run >>= fun _ => [d].forM Decl.run) := List.forM_append
          rw [e]
          exact steps_bind comes (steps_bind hp (.refl _))
        exact holds_decls (s := ⟨W, m₁⟩) (by rw [parted, List.append_assoc]; rfl) top₁ hs.2 hcs
          comes₁ (holds₁ m₁ rfl) hq

end

/-- **What is declared stays.**  Wherever a run of an accepted program is, the frame of the program
has for functions and classes what their declarations have created. -/
theorem holds_run {p : Program} {checked : Checked} (h : p.check = .ok checked)
    (firm : checked.program.Firm) (settings : Settings) (stdin : String) {q : Progress Value}
    (hq : (checked.program.run (.start settings stdin)).Steps q) {m : Machine}
    (e : q.machine? = some m) : checked.program.Holds (.start settings stdin) m := by
  have hs := sound_of_check h
  have unique := hs.unique
  have top : Top (p.plan checked) Scene.start (.start settings stdin) := Site.start_top settings stdin
  have start : checked.program.Holds (.start settings stdin) (.start settings stdin) := by
    intro d _ _ b hb
    cases hb
  cases hmain : Program.function? checked.program "main" with
  | none =>
      simp only [Program.run, hmain] at hq
      cases hq
      cases e
      exact start
  | some main =>
    simp only [Program.run, hmain] at hq
    split at hq
    · have whole : checked.program = [] ++ checked.program := rfl
      have decls {q : Progress Unit} := holds_decls (P := p.plan checked) (q := q) firm unique whole
        top hs (fun _ ha => ha) (.refl _) start
      -- Either the declarations are still being run, or `main` is.
      rcases steps_into_bind hq with ⟨q', hq', e', -⟩ | ⟨_, m₁, hq', hq⟩
      · exact (decls hq').1 m (e' ▸ e)
      · obtain ⟨holds₁, top₁⟩ := decls hq'
        obtain ⟨W, top₁⟩ := top₁ _ m₁ rfl
        have meets := Progress.Meets.steps (since_kept _ none _) (gives_main top₁ hs hmain) hq
        have hf := top₁.ready.ok.toFramed
        cases q with
        | waiting j m' resume =>
            obtain ⟨⟨W', Γ'⟩, ⟨asks, stays⟩, -⟩ := meets
            cases e
            exact (holds₁ m₁ rfl).stays firm unique hf asks.ok.toFramed stays
        | finished r m' =>
            obtain ⟨W', reached, -⟩ := meets
            cases e
            exact (holds₁ m₁ rfl).stays firm unique hf reached.ok.toFramed reached.stays
        | endless => cases e
    · cases hq
      cases e
      exact start

end Program

/-- **Only variables are written.**  Where whatever is read from the input is stored in variables,
each name that a function or a class has got in the frame of the program holds what its declaration
has created, wherever the run is, and nothing fails because it would store to a constant. -/
theorem run_writes_variables {p : Program} {checked : Checked} (h : p.check = .ok checked)
    (hv : checked.program.ScansVariables) (settings : Settings) (stdin : String)
    {q : Progress Value} (hq : (checked.program.run (.start settings stdin)).Steps q) :
    (∀ m, q.machine? = some m → checked.program.Holds (.start settings stdin) m) ∧
    (∀ e m, q = .finished (.error e) m → ∀ x, e.cause ≠ .assignToConstant x) ∧
    ∀ j m resume, q = .waiting j m resume → ∀ e m', j.Answers m (.error e) m' →
      ∀ x, e.cause ≠ .assignToConstant x := by
  have left := (Program.ends_run h settings stdin).steps (sound_kept _) hq
  refine ⟨fun m e => Program.holds_run h (.inl hv) settings stdin hq e, ?_, ?_⟩
  · rintro e m rfl
    obtain ⟨W, -, allowed⟩ := left
    exact allowed.constants hv
  · rintro j m resume rfl e m' answers
    obtain ⟨W, Γ, -, answered⟩ := left.asked
    obtain ⟨-, W', -, allowed⟩ := answered _ _ answers
    exact allowed.constants hv

/-- `class A { } int x = 0; int f() { return 1; }`
`int main() { scanf("%d", x); x += f(); return x; }` -/
def counting : Program := [.cls ⟨.ofLine 1, "A", none, [], []⟩,
  .var ⟨.ofLine 1, .int, "x", some (.literal .blank (.int 0))⟩,
  .func ⟨.ofLine 1, .int, "f", [], [], [.ret (.ofLine 1) (some (.literal .blank (.int 1)))]⟩,
  .func ⟨.ofLine 2, .int, "main", [], [],
    [.expr (.ofLine 2) (.scanf .blank (.literal .blank (.str "%d")) [.name .blank "x"]),
      .expr (.ofLine 2) (.compound .blank .add "x" (.call .blank (.name .blank "f") [])),
      .ret (.ofLine 2) (some (.name .blank "x"))]⟩]

/-- A variable is read into and stepped, and the function and the class are as they were. -/
theorem run_writes_variables_counting : ∃ checked, counting.check = .ok checked ∧
    checked.program.ScansVariables ∧ ∃ e m resume,
      (checked.program.run (.start .standard "5")).Steps (.waiting (.expr e) m resume) ∧
      m.lookup "x" = .ok (.int 6) ∧ ∃ d ∈ checked.program, d.defines = true ∧
        ∃ v, m.scopes.binding? 1 d.name = some (some v) ∧
          checked.program.Creates (.start .standard "5") d v := by
  have accepted : counting.admits (fun checked => decide checked.program.ScansVariables &&
      (checked.program.run (.start .standard "5")).waitsFor 13 fun _ m =>
        (m.lookup "x").toOption.any (·.isInt 6) &&
        checked.program.any fun d => d.defines && (m.scopes.binding? 1 d.name).isSome) = true := by
    decide +kernel
  obtain ⟨checked, hc, test⟩ := Program.of_admits accepted
  rw [Bool.and_eq_true, decide_eq_true_eq] at test
  obtain ⟨hv, test⟩ := test
  obtain ⟨e, m, resume, hq, test⟩ := Progress.steps_of_waitsFor test
  rw [Bool.and_eq_true, List.any_eq_true] at test
  obtain ⟨six, d, hd, test⟩ := test
  rw [Bool.and_eq_true] at test
  obtain ⟨hdef, hb⟩ := test
  obtain ⟨b, hb⟩ := Option.isSome_iff_exists.mp hb
  obtain ⟨v, rfl, created⟩ := (run_writes_variables hc hv .standard "5" hq).1 m rfl d hd hdef b hb
  exact ⟨checked, hc, hv, e, m, resume, hq, Value.ok_of_isInt six, d, hd, hdef, v, hb, created⟩

/-- `class A { } int main() { scanf("%d", A); return 0; }` -/
def overwriting : Program := [.cls ⟨.ofLine 1, "A", none, [], []⟩,
  .func ⟨.ofLine 2, .int, "main", [], [],
    [.expr (.ofLine 2) (.scanf .blank (.literal .blank (.str "%d")) [.name .blank "A"]),
      .ret (.ofLine 2) (some (.literal .blank (.int 0)))]⟩]

/-- `int main() { scanf("%f", PI); return 0; }` -/
def redefining : Program := [.func ⟨.ofLine 1, .int, "main", [], [],
  [.expr (.ofLine 1) (.scanf .blank (.literal .blank (.str "%f")) [.name .blank "PI"]),
    .ret (.ofLine 1) (some (.literal .blank (.int 0)))]⟩]

/-- What is read from the input is stored in the name of a class, and fails to be stored in that of a
constant. -/
theorem scanf_writes_names :
    (∃ checked, overwriting.check = .ok checked ∧ (∃ d ∈ checked.program, d.name = "A" ∧
      d.defines = true) ∧ ∃ e m resume,
        (checked.program.run (.start .standard "5")).Steps (.waiting (.expr e) m resume) ∧
        m.scopes.binding? 1 "A" = some (some (.int 5))) ∧
    ∃ checked, redefining.check = .ok checked ∧ ∃ e m,
      (checked.program.run (.start .standard "5.0")).Steps (.finished (.error e) m) ∧
      e.cause = .assignToConstant "PI" := by
  have overwritten : overwriting.admits (fun checked =>
      (checked.program.any fun d => d.name == "A" && d.defines) &&
      (checked.program.run (.start .standard "5")).waitsFor 5 fun _ m =>
        (m.scopes.binding? 1 "A").any (·.any (·.isInt 5))) = true := by decide +kernel
  have refused : redefining.admits (fun checked =>
      (checked.program.run (.start .standard "5.0")).failsAfter 5
        (· == .assignToConstant "PI")) = true := by decide +kernel
  constructor
  · obtain ⟨checked, hc, test⟩ := Program.of_admits overwritten
    rw [Bool.and_eq_true, List.any_eq_true] at test
    obtain ⟨⟨d, hd, named⟩, test⟩ := test
    rw [Bool.and_eq_true, beq_iff_eq] at named
    obtain ⟨e, m, resume, hq, test⟩ := Progress.steps_of_waitsFor test
    obtain ⟨b, hb, test⟩ := (Option.any_eq_true ..).mp test
    obtain ⟨v, rfl, test⟩ := (Option.any_eq_true ..).mp test
    exact ⟨checked, hc, ⟨d, hd, named⟩, e, m, resume, hq, by rw [hb, Value.eq_of_isInt test]⟩
  · obtain ⟨checked, hc, test⟩ := Program.of_admits refused
    obtain ⟨e, m, hq, test⟩ := Progress.steps_of_failsAfter test
    exact ⟨checked, hc, e, m, hq, beq_iff_eq.mp test⟩

end Brace
