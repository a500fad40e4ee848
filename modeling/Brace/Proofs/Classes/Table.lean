import Brace.Proofs.Classes.Runs
import Brace.Proofs.Safety.Call
import Brace.Proofs.Safety.Start

/-!
# Classes — what is known of them and what they are

What checking knows of a class and what a run makes of it come about in different ways: checking looks
the superclass up once, and a run in the frame of the program when it gets to the declaration. They agree
all the same. Both go up the same classes, and a method is found in the same declaration or in none.

* `classes_agree_with_table`: every class of a run is what checking has found it to be.
-/

namespace Brace

variable {p : Program} {checked : Checked}

/-- The class that the value is, or that it is an object of. -/
def Value.class? : Value → Option Class
  | .cls c    => some c
  | .object o => some o.cls
  | _         => none

/-- The name of the class that declares the nearest method of this name, with the method's signature. -/
def ClassInfo.declares? (c : ClassInfo) (x : String) : Option (String × Signature) :=
  c.tiers.findSome? fun members => (members.methods.get? x).map (members.name, ·)

/-- The method that the class answers with to this name comes from the declaration from which checking
knows it, if there is one. -/
def Class.AgreesOn (q : Program) (c : Class) (info : ClassInfo) (x : String) : Prop :=
  c.method? x = none ∧ info.method? x = none ∨
    ∃ d f t, .cls d ∈ q ∧ d.method? x = some f ∧ t.Of d ∧ c.method? x = some (t, f) ∧
      info.declares? x = some (d.name, f.signature) ∧ info.method? x = some f.signature

/-- Where the tiers of a class and those that checking knows come from the same declarations, the
method of a name is in the same one, or in none. -/
theorem Class.agreesOn_of_mirrors {q : Program} {x : String} {ts : List Tier} {ms : List Members}
    (h : List.Forall₂ Tier.Mirrors ts ms) (made : ∀ t ∈ ts, ∃ d, .cls d ∈ q ∧ t.Of d) :
    methodIn x ts = none ∧ ms.findSome? (·.methods.get? x) = none ∨
      ∃ d f t, .cls d ∈ q ∧ d.method? x = some f ∧ t.Of d ∧ methodIn x ts = some (t, f) ∧
        (ms.findSome? fun members => (members.methods.get? x).map (members.name, ·)) =
          some (d.name, f.signature) ∧
        ms.findSome? (·.methods.get? x) = some f.signature := by
  induction h with
  | nil => exact .inl ⟨rfl, rfl⟩
  | @cons t members ts ms mirrors _ ih =>
      obtain ⟨⟨d, hd, ht⟩, made⟩ := List.forall_mem_cons.mp made
      rw [methodIn, List.findSome?_cons, List.findSome?_cons, mirrors.methods x, mirrors.name]
      cases e : t.method? x with
      | none => exact ih made
      | some f =>
          have own : d.method? x = some f := by rw [ClassDecl.method?, ← ht.methods, ← e, Tier.method?]
          exact .inr ⟨d, f, t, hd, own, ht, rfl, by rw [ht.name]; rfl, rfl⟩

/-- The tiers have the names that checking knows. -/
theorem Class.mirrors_names {ts : List Tier} {ms : List Members}
    (h : List.Forall₂ Tier.Mirrors ts ms) : ms.map (·.name) = ts.map (·.name) := by
  induction h with
  | nil => rfl
  | cons h _ ih => rw [List.map_cons, List.map_cons, h.name, ih]

/-! ### What checking has found of the values of a run -/

/-- What is known of a value is known of its class. -/
theorem Value.Ok.class? {P : Plan} {s : Site} {v : Value} (h : v.Ok P s) {c : Class}
    (e : v.class? = some c) : c.Ok P s := by
  cases v with
  | cls c => cases e; exact h
  | object o => cases e; exact h.2
  | _ => cases e

theorem Value.Made.class? {s : Forest Value} {v : Value} (h : v.Made p s) {c : Class}
    (e : v.class? = some c) : c.Made p s := by
  cases v with
  | cls c => cases e; exact h
  | object o => cases e; exact h
  | _ => cases e

/-- Whatever is stored is what checking has found. -/
theorem Site.Ok.stores {P : Plan} {W : World} {m : Machine} (ok : Site.Ok P ⟨W, m⟩) {v : Value}
    (h : m.Stores v) : v.Ok P ⟨W, m⟩ := by
  cases h with
  | @name i x v h =>
      have named := ok.names i x
      rw [show Site.machine ⟨W, m⟩ = m from rfl, h] at named
      obtain ⟨known, hk⟩ := Option.isSome_iff_exists.mp named.symm
      exact (ok.values i x v known h hk).1
  | item h => exact (ok.items _ _ h).1
  | field h => exact (ok.fields _ _ _ h).1

/-- Whatever a run of an accepted program has come to is fit for the run. -/
theorem Program.ok_of_comes (h : p.check = .ok checked) {settings : Settings} {stdin : String}
    {q : Progress Value} (hq : (checked.program.run (.start settings stdin)).Steps q) {v : Value}
    (hv : q.Comes v) : ∃ s, v.Ok (p.plan checked) s := by
  have met := (Program.ends_run h settings stdin).steps (sound_kept _) hq
  cases hv with
  | stored e hv =>
      have site := met.site (fun r m ⟨W, ok, _⟩ => ⟨W, ok⟩) e
      obtain ⟨W, ok⟩ := site
      exact ⟨_, ok.stores hv⟩
  | called =>
      obtain ⟨W, Γ, calls, -⟩ := met.asked
      exact ⟨_, Plan.Calls.fit calls⟩
  | passed hv =>
      obtain ⟨W, Γ, calls, -⟩ := met.asked
      exact ⟨_, Plan.Calls.given calls _ hv⟩
  | evaluated hv =>
      obtain ⟨W, Γ, -, answered⟩ := met.asked
      obtain ⟨-, W', -, yields⟩ := answered _ _ hv
      exact ⟨_, Expr.Yields.ok yields⟩
  | returned hv =>
      obtain ⟨W, Γ, -, answered⟩ := met.asked
      obtain ⟨-, W', -, yields⟩ := answered _ _ hv
      exact ⟨_, And.left yields⟩
  | result =>
      obtain ⟨W, ok, ends⟩ := met
      exact ⟨_, ends⟩

/-- **The classes of a run.**  For every class that a run of an accepted program has come to, checking
knows a class of its name. The classes above the two have the same names in the same order, and a method
is found in the same declaration by both, or by none. -/
theorem classes_agree_with_table (h : p.check = .ok checked) (settings : Settings) (stdin : String)
    {q : Progress Value} (hq : (checked.program.run (.start settings stdin)).Steps q) {v : Value}
    (hv : q.Comes v) {c : Class} (hc : v.class? = some c) :
    ∃ info, p.classes.get? c.name = some info ∧
      info.tiers.map (·.name) = c.tiers.map (·.name) ∧
      ∀ x, c.AgreesOn checked.program info x := by
  obtain ⟨s, made⟩ := Program.made_of_comes hq hv
  obtain ⟨s', ok⟩ := Program.ok_of_comes h hq hv
  obtain ⟨info, known, mirrors⟩ := (ok.class? hc).known
  refine ⟨info, known, Class.mirrors_names mirrors, fun x => ?_⟩
  exact Class.agreesOn_of_mirrors mirrors fun t ht => (made.class? hc).member ht

/-- `class A { int f() { return 1; } int g() { return 2; } }`
`class B : A { int f() { return super.f(); } }`
`class C : B { int f() { return super.f(); } }`
`int main() { C c = C(); return c.f(); }` -/
def descent : Program := [
  .cls ⟨.ofLine 1, "A", none, [], [
    ⟨.ofLine 1, .int, "f", [], [], [.ret (.ofLine 1) (some (.literal .blank (.int 1)))]⟩,
    ⟨.ofLine 1, .int, "g", [], [], [.ret (.ofLine 1) (some (.literal .blank (.int 2)))]⟩]⟩,
  .cls ⟨.ofLine 2, "B", some "A", [], [⟨.ofLine 2, .int, "f", [], [],
    [.ret (.ofLine 2) (some (.call .blank (.superMethod .blank "f") []))]⟩]⟩,
  .cls ⟨.ofLine 3, "C", some "B", [], [⟨.ofLine 3, .int, "f", [], [],
    [.ret (.ofLine 3) (some (.call .blank (.superMethod .blank "f") []))]⟩]⟩,
  .func ⟨.ofLine 4, .int, "main", [],
    [⟨.ofLine 4, .object "C", "c", some (.call .blank (.name .blank "C") [])⟩],
    [.ret (.ofLine 4) (some (.call .blank (.get .blank (.name .blank "c") "f") []))]⟩]

/-- The class that a name stands for, if it stands for one. -/
def Machine.class? (m : Machine) (x : String) : Option Class :=
  match m.lookup x with
  | .ok (.cls c) => some c
  | _            => none

theorem Machine.stores_of_class? {m : Machine} {x : String} {c : Class} (e : m.class? x = some c) :
    m.Stores (.cls c) := by
  rw [class?] at e
  split at e <;> cases e
  exact .of_lookup ‹_›

/-- The method that a class inherits from the class two above it is known from there. -/
theorem classes_agree_with_table_descent : ∃ checked, descent.check = .ok checked ∧ ∃ q c,
    (checked.program.run (.start .standard "")).Steps q ∧ q.Comes (.cls c) ∧ c.name = "C" ∧
      ∃ info, descent.classes.get? "C" = some info ∧ info.tiers.map (·.name) = ["C", "B", "A"] ∧
        ∃ t f, c.method? "g" = some (t, f) ∧ info.declares? "g" = some ("A", f.signature) := by
  have accepted : descent.admits (fun checked =>
      (checked.program.run (.start .standard "")).waitsFor 1 fun _ m =>
        (m.class? "C").any fun c => c.name == "C" && c.tiers.map (·.name) == ["C", "B", "A"] &&
          (c.method? "g").any fun method => method.1.name == "A") = true := by decide +kernel
  obtain ⟨checked, hc, test⟩ := Program.of_admits accepted
  obtain ⟨e, m, resume, hq, test⟩ := Progress.steps_of_waitsFor test
  obtain ⟨c, found, test⟩ := (Option.any_eq_true ..).mp test
  simp only [Bool.and_eq_true, beq_iff_eq] at test
  obtain ⟨⟨name, tiers⟩, test⟩ := test
  obtain ⟨⟨t, f⟩, method, from'⟩ := (Option.any_eq_true ..).mp test
  have comes : Progress.Comes (.waiting (.expr e) m resume) (.cls c) :=
    .stored rfl (Machine.stores_of_class? found)
  obtain ⟨info, known, names, agrees⟩ :=
    classes_agree_with_table hc .standard "" hq comes (c := c) rfl
  refine ⟨checked, hc, _, c, hq, comes, name, info, name ▸ known, names.trans tiers, t, f, method, ?_⟩
  rcases agrees "g" with ⟨none, -⟩ | ⟨d, f', t', -, -, ht, e', declared, -⟩
  · cases none.symm.trans method
  · cases e'.symm.trans method
    rw [declared, ← ht.name, beq_iff_eq.mp from']

end Brace
