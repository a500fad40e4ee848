import Brace.Proofs.Nesting.Jobs
import Brace.Proofs.Typing.Signals

/-!
# Nesting — runs under a higher limit

Declarations and programs are made of the same pieces as jobs, and only declarations make functions of
their own. What has been seen of single layers of evaluation then holds of whole runs: the limit is
never exceeded, and unless a run ends because calls nest too deep, it would have ended in the same way
under any higher limit.

* `Program.nests_run`: what a program asks for.
* `run_raises_limit`: jobs, declarations and programs under two limits.
-/

namespace Brace

open Eval

variable {α : Type} {P : FuncDecl → Prop} {k d : Nat} {J : Nat → Job → Prop}

/-! ### Declarations and programs -/

def Decl.jobs : Decl → List Job
  | .var v => v.jobs
  | _      => []

namespace Eval

/-- A superclass is a class of the machine. -/
theorem nests_superclassOf (d' : ClassDecl) :
    (superclassOf d').Nests P k J d fun c => ∀ c', c = some c' → c'.Of P := by
  simp only [superclassOf]
  split
  · refine .map (R := Class.Of P) (.bind (.lookup _ _) fun v hv => ?_)
      fun c hc _ e => Option.some.inj e ▸ hc
    cases v with
    | cls c => exact .pure hv
    | _ => exact .fail _ _
  · exact .pure (by rintro _ ⟨⟩)

theorem nests_methodScope {superclass : Option Class} (h : ∀ c, superclass = some c → c.Of P) :
    (methodScope superclass).Nests P k J d anything := by
  cases superclass with
  | some c =>
      exact .make (f := (·.superFrame c)) (fun _ _ => rfl) fun m _ =>
        ⟨.superFrame m (h c rfl), trivial⟩
  | none => exact .view (fun _ _ => rfl) fun _ _ => trivial

/-- The class that is defined has its own methods and those of its superclass. -/
theorem nests_defineClass {d' : ClassDecl} (h : ∀ f ∈ d'.methods, P f) :
    (defineClass d').Nests P k J d anything := by
  refine .bind (nests_superclassOf d') fun superclass hs => .bind (nests_methodScope hs)
    fun scope _ => .bind (R := anything) (.make (fun _ _ => rfl) fun m _ => ⟨.newId m, trivial⟩)
      fun id _ => .define _ ?_ _
  refine List.forall_mem_cons.mpr ⟨h, ?_⟩
  cases superclass with
  | some c => exact hs c rfl
  | none => exact nofun

theorem nests_echo (v : Value) : (echo v).Nests P k J d anything := by
  refine .bind (R := anything) (.view (fun _ _ => rfl) fun _ _ => trivial) fun b _ => ?_
  split
  · exact .bind (.textOf v) fun _ _ => .change (fun _ _ => rfl) fun m => .io m _ _
  · exact .pure trivial

end Eval

/-- A declaration brings in the functions that it declares, and asks for its initial value. -/
theorem Decl.nests_run {d' : Decl} (hP : ∀ f ∈ d'.bodies, P f) (h : ∀ j ∈ d'.jobs, J d j) :
    d'.run.Nests P k J d anything := by
  cases d' with
  | var v => exact v.nests_run h
  | func f =>
      exact .bind (R := fun g => P g.decl)
        (.make (fun _ _ => rfl) fun m _ => ⟨.newId m, hP f (.head _)⟩) fun g (hg : P g.decl) =>
          .define _ (v := .function g) hg _
  | cls c => exact nests_defineClass hP

/-- A program asks for the first values of its variables, and calls what its name `main` stands for. -/
theorem Program.nests_run {p : Program} (hP : ∀ f ∈ p.bodies, P f)
    (h : ∀ d' ∈ p, ∀ j ∈ d'.jobs, J d j)
    (hmain : ∀ entry pos, entry.Of P → J d (.apply entry [] pos)) :
    (Program.run p).Nests P k J d (Value.Of P) := by
  simp only [Program.run]
  split
  · exact .fail _ _
  · split
    · refine .bind (.forM fun d' hd => Decl.nests_run (fun f hf => ?_) (h d' hd)) fun _ _ =>
        .bind (.lookup _ _) fun entry he => .bind (.ask (hmain entry _ he)) fun v hv =>
          .bind (nests_echo v) fun _ _ => .pure hv
      exact hP f (List.mem_flatMap.mpr ⟨d', hd, hf⟩)
    · exact .fail _ _

/-! ### Two limits -/

/-- Where no more calls are under way than `k`, they may be limited to `k`. -/
theorem Machine.at_limit {m : Machine} (room : m.callDepth ≤ k) (hm : m.Of P) :
    (m.limit k).At P k m.callDepth := ⟨hm.congr rfl rfl, rfl, rfl, room⟩

namespace Eval.Nests

variable {R : α → Prop} {x : Eval α} {m m' : Machine} {n : Nat}
  (hx : x.Nests P k (fun _ j => j.Of P) m.callDepth R) (hm : m.Of P) (room : m.callDepth ≤ k)

include hx hm room

/-- Calls never nest deeper than the limit. -/
theorem bounded {q : Progress α} (hs : (x (m.limit k)).Steps q) (e : q.machine? = some m') :
    m'.callDepth ≤ k := by
  have meets := (hx k (Nat.le_refl k) (m.limit k) (Machine.at_limit room hm)).meets.steps
    (limiting_tracked (Nat.le_refl k)).kept hs
  cases q with
  | finished r m₁ =>
      cases e
      exact Nat.le_trans (Nat.le_of_eq meets.1.callDepth) room
  | waiting j m₁ resume =>
      cases e
      obtain ⟨g, ⟨here, -⟩, -⟩ := meets
      exact here.within
  | endless => cases e

/-- What ends under the limit ends in the same way under a higher one, unless calls nest too deep. -/
theorem raised (le : k ≤ n) {depth : Nat} {r : Except Error α}
    (e : x.run depth (m.limit k) = some (r, m')) (ended : ¬ Exhausts k r) :
    x.run depth (m.limit n) = some (r, m'.limit n) :=
  have tracked := hx n le (m.limit k) (Machine.at_limit room hm)
  (tracked.complete (limiting_tracked le) e).resolve_left ended

/-- Where calls nest deeper under a higher limit, the run ends because they may not. -/
theorem exhausted (le : k ≤ n) {q : Progress α} (hs : (x (m.limit n)).Steps q)
    (e : q.machine? = some m') (deep : k < m'.callDepth) :
    ∃ depth r m₁, x.run depth (m.limit k) = some (r, m₁) ∧ Exhausts k r := by
  have ends {r : Except Error α} {m₁ : Machine} (hs : (x (m.limit k)).Steps (.finished r m₁))
      (ended : Exhausts k r) : ∃ depth r m₁, x.run depth (m.limit k) = some (r, m₁) ∧ Exhausts k r :=
    have ⟨depth, e⟩ := Progress.complete_of_steps hs
    ⟨depth, r, m₁, e, ended⟩
  rcases (hx n le (m.limit k) (Machine.at_limit room hm)).steps (limiting_tracked le) hs with
    ⟨r, m₁, hs, ended⟩ | ⟨p, hs, tracks⟩
  · exact ends hs ended
  · -- Where both runs have come to the same place, calls are not nested that deep.
    cases p with
    | finished r m₁ =>
        obtain ⟨⟨follows, -⟩, ended | rfl⟩ := tracks
        · exact ends hs ended
        · cases e
          exact absurd deep (Nat.not_lt.mpr (Nat.le_trans (Nat.le_of_eq follows.callDepth) room))
    | waiting j m₁ resume =>
        obtain ⟨g, ⟨here, -⟩, resume', rfl, -⟩ := tracks
        cases e
        exact absurd deep (Nat.not_lt.mpr here.within)
    | endless =>
        obtain ⟨-, rfl⟩ := tracks
        cases e

end Eval.Nests

/-! ### Whatever functions there are -/

/-- Any function. -/
abbrev anyFunction : FuncDecl → Prop := fun _ => True

theorem Job.nests_any (j : Job) :
    j.start.Nests anyFunction k (fun _ j => j.Of anyFunction) d (j.Gives anyFunction) :=
  (j.nests_start (j.of_all fun _ => trivial)).mono fun _ _ w => w.of

theorem Decl.nests_any (d' : Decl) :
    d'.run.Nests anyFunction k (fun _ j => j.Of anyFunction) d anything :=
  Decl.nests_run (fun _ _ => trivial) fun j _ => j.of_all fun _ => trivial

theorem Program.nests_any (p : Program) :
    (Program.run p).Nests anyFunction k (fun _ j => j.Of anyFunction) d (Value.Of anyFunction) :=
  Program.nests_run (fun _ _ => trivial) (fun _ _ j _ => j.of_all fun _ => trivial)
    fun _ _ _ => Job.of_all _ fun _ => trivial

/-- **Raising the limit.**  Calls never nest deeper than the limit. A job, a declaration or a program
that comes to an end under some limit, other than because calls nest too deep, comes to the same end
under every higher limit: with the same value, flow or failure and in the same machine, apart from the
limit. -/
theorem run_raises_limit {m : Machine} {k n : Nat} (room : m.callDepth ≤ k) (le : k ≤ n) :
    (∀ j depth r m', Job.run depth j (m.limit k) = some (r, m') → ¬ Exhausts k r →
      Job.run depth j (m.limit n) = some (r, m'.limit n)) ∧
    (∀ d depth r m', (Decl.run d).run depth (m.limit k) = some (r, m') → ¬ Exhausts k r →
      (Decl.run d).run depth (m.limit n) = some (r, m'.limit n)) ∧
    (∀ p depth r m', (Program.run p).run depth (m.limit k) = some (r, m') → ¬ Exhausts k r →
      (Program.run p).run depth (m.limit n) = some (r, m'.limit n)) ∧
    (∀ (j : Job) q m', (j.start (m.limit k)).Steps q → q.machine? = some m' → m'.callDepth ≤ k) ∧
    (∀ d q m', (Decl.run d (m.limit k)).Steps q → q.machine? = some m' → m'.callDepth ≤ k) ∧
    (∀ p q m', (Program.run p (m.limit k)).Steps q → q.machine? = some m' → m'.callDepth ≤ k) := by
  have hm : m.Of anyFunction := m.of_all fun _ => trivial
  refine ⟨fun j depth r m' e ended => ?_, fun d depth r m' e => d.nests_any.raised hm room le e,
    fun p depth r m' e => (Program.nests_any p).raised hm room le e,
    fun j q m' hs => j.nests_any.bounded hm room hs, fun d q m' hs => d.nests_any.bounded hm room hs,
    fun p q m' hs => (Program.nests_any p).bounded hm room hs⟩
  cases depth with
  | zero => cases e
  | succ depth =>
      have e : j.start.run depth (m.limit k) = some (r, m') := e
      exact j.nests_any.raised hm room le e ended

/-- `int f(int n) { if (n == 0) return 0; return f(n - 1); }`
`int main() { return f(2); }` -/
def descending : Program := [
  .func ⟨.ofLine 1, .int, "f", [⟨.int, "n"⟩], [],
    [.ifElse (.ofLine 1) (.binary .blank .eq (.name .blank "n") (.literal .blank (.int 0)))
        (.ret (.ofLine 1) (some (.literal .blank (.int 0)))) (.empty (.ofLine 1)),
      .ret (.ofLine 1) (some (.call .blank (.name .blank "f")
        [.binary .blank .sub (.name .blank "n") (.literal .blank (.int 1))]))]⟩,
  .func ⟨.ofLine 2, .int, "main", [], [], [.ret (.ofLine 2)
    (some (.call .blank (.name .blank "f") [.literal .blank (.int 2)]))]⟩]

/-- Four calls are nested, and it makes no difference that there might be more. -/
theorem run_raises_limit_descending : ∃ depth v m',
    (Program.run descending).run depth ((Machine.start .standard "").limit 4) = some (.ok v, m') ∧
    (Program.run descending).run depth ((Machine.start .standard "").limit 10000) =
      some (.ok v, m'.limit 10000) := by
  have ends : ((Program.run descending).run 30 ((Machine.start .standard "").limit 4)).any
      (·.1.isOk) = true := by decide +kernel
  obtain ⟨⟨r, m'⟩, e, ok⟩ := (Option.any_eq_true ..).mp ends
  cases r with
  | error e => cases ok
  | ok v =>
      obtain ⟨-, -, program, -⟩ := run_raises_limit (m := .start .standard "") (k := 4) (n := 10000)
        (by decide) (by decide)
      exact ⟨30, v, m', e, program descending 30 _ m' e (by rintro ⟨p, ⟨⟩⟩)⟩

end Brace
