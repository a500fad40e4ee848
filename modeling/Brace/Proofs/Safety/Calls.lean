import Brace.Proofs.Safety.Created
import Brace.Proofs.Safety.Methods
import Brace.Proofs.Safety.Resolved

/-!
# Safety — calls of functions by name

Where checking has found the name that is called to be a function of the program, a run finds it in
the frame of the program, and there it holds what the declaration of that function has created. So
the call is of that function, and is given an argument for each of its parameters. What is read from
the input has to go to variables for this: it may replace a function that has taken the name of a
predefined constant.

* `run_calls_functions`: what is called by name, and what a run calls in the end.
* `scanf_replaces_function`: what may be called instead.
-/

namespace Brace

open Eval

/-! ### What is looked up -/

/-- The value of a name that has been found in a frame. -/
theorem Eval.steps_of_lookup {m m' : Machine} {x : String} {p : Position} {v : Value}
    (h : (lookup x p m).Steps (.finished (.ok v) m')) : m' = m ∧ m.lookup x = .ok v := by
  simp only [Eval.lookup, consult] at h
  split at h
  · cases h
    exact ⟨rfl, ‹_›⟩
  · cases h

namespace Program

variable {p : Program} {settings : Settings} {stdin : String}

/-- The declaration of a function has created a function of this declaration. -/
theorem Creates.function {f : FuncDecl} {v : Value}
    (h : p.Creates (.start settings stdin) (.func f) v) : ∃ g, v = .function g ∧ g.decl = f := by
  obtain @⟨before, after, m, m', -, comes, runs, leaves⟩ := h
  have here : m.here = (Machine.start settings stdin).here := by
    obtain ⟨n, done⟩ := Progress.complete_of_steps comes
    exact ((Restores.forM Decl.restores_run before).run done).here
  obtain ⟨g, m₁, made, defined⟩ := steps_of_bind (x := make fun m => m.newClosure f m.here) runs
  cases made
  -- The name is given to the frame of the program, where it is found.
  simp only [Eval.define, update] at defined
  split at defined
  · cases defined
  · rename_i i e
    cases defined
    have hi : i = 1 := (Forest.eq_of_definable e).trans (congrArg Handle.frame here)
    have lt := Nat.lt_of_lt_of_eq (Forest.lt_of_binding? leaves) (Forest.next_bind ..)
    rw [hi] at leaves
    cases leaves.symm.trans (Forest.binding?_bind_self _ lt f.name _)
    exact ⟨_, rfl, rfl⟩

/-- What is called is the function that the run has created for this declaration, and there is an
argument for each of its parameters. -/
structure Invokes (p : Program) (m₀ : Machine) (f : FuncDecl) (callee : Value) (args : List Value) :
    Prop where
  created : p.Creates m₀ (.func f) callee
  arity   : args.length = f.arity

/-- A function that is called with as many arguments as it has parameters does not refuse the call. -/
theorem Invokes.not_refused {f : FuncDecl} {callee : Value} {args : List Value}
    (h : p.Invokes (.start settings stdin) f callee args) (pos : Position) (m : Machine) :
    (Job.apply callee args pos).refused m = false := by
  obtain ⟨g, rfl, made⟩ := h.created.function
  exact Closure.not_refused (made ▸ h.arity) pos m

/-! ### Calls by name -/

variable {checked : Checked}

/-- The value of a name that leads to the frame of the program is what the declaration of the name
has created. -/
theorem Holds.creates {P : Program} {m₀ m : Machine} (holds : P.Holds m₀ m) {d : Decl} (hd : d ∈ P)
    (hdef : d.defines = true) {v : Value} (e : m.lookup d.name = .ok v) {b : Option Value}
    (leads : m.scopes.nearest? m.here d.name = some (1, b)) : P.Creates m₀ d v := by
  obtain ⟨i, hn⟩ := Machine.nearest?_of_lookup e
  cases hn.symm.trans leads
  obtain ⟨w, hw, created⟩ := holds d hd hdef _ (Forest.binding?_of_nearestIn leads).2
  cases hw
  exact created

/-- The arguments of a call fit the signature of the function that its name means. -/
theorem length_of_sound {K : Table ClassInfo} {Δ : Scene} {n k : Note} {x : String}
    {args : List Expr} (sound : (Expr.call n (.name k x) args).Sound K Δ) {sig : Signature}
    (means : Δ.means x = some (.function sig)) : sig.params.length = args.length := by
  obtain ⟨t, -, known, hx, -, calls⟩ := sound.rule
  cases means.symm.trans hx
  cases calls with
  | function passes => exact passes.1

/-- Declarations ask for first values of variables alone. -/
theorem asks_of_decls {j : Job} {m' : Machine} : ∀ {ds : List Decl} {m : Machine},
    ((ds.forM Decl.run) m).AsksFor j m' → ∃ e, j = .expr e
  | [], _, asks => nomatch asks
  | d :: ds, _, asks => by
      rcases asks_of_bind (x := d.run) (f := fun _ => ds.forM Decl.run) asks with first | ⟨_, _, _, rest⟩
      · obtain ⟨v, rfl, first⟩ := Decl.asks_of_run first
        obtain ⟨e, -, asked, -⟩ := VarDecl.asks_of_run first
        exact ⟨e, asked⟩
      · exact asks_of_decls rest

/-- What the program itself calls is its `main`. -/
theorem invokes_main (h : p.check = .ok checked) (hv : checked.program.ScansVariables)
    {callee : Value} {args : List Value} {pos : Position} {m : Machine}
    (asks : (checked.program.run (.start settings stdin)).AsksFor (.apply callee args pos) m) :
    ∃ main, Program.function? checked.program "main" = some main ∧
      checked.program.Invokes (.start settings stdin) main callee args := by
  have hs := sound_of_check h
  have top : Top (p.plan checked) Scene.start (.start settings stdin) := Site.start_top settings stdin
  obtain ⟨resume, comes⟩ := asks.steps
  have holds := holds_run h (.inl hv) settings stdin comes rfl
  cases hmain : Program.function? checked.program "main" with
  | none =>
      simp only [Program.run, hmain] at asks
      cases asks
  | some main =>
    simp only [Program.run, hmain] at asks
    split at asks
    · rename_i noArgs
      -- Declarations only evaluate expressions, so what is called is what `main` leads to.
      rcases asks_of_bind asks with declaring | ⟨_, m₁, declared, calling⟩
      · obtain ⟨e, he⟩ := asks_of_decls declaring
        cases he
      · rcases asks_of_bind calling with looking | ⟨entry, m₂, looked, entering⟩
        · exact absurd looking (Silent.consult _ _ _ _ _)
        · obtain ⟨rfl, found⟩ := steps_of_lookup looked
          obtain ⟨e, rfl⟩ := eq_of_asks_ask (Silent.asks_fst silent_shown entering)
          cases e
          obtain ⟨hm, hname⟩ : .func main ∈ checked.program ∧ (Decl.func main).name = "main" :=
            mem_of_function? hmain
          refine ⟨main, rfl, ?_, noArgs.symm⟩
          have declares := Eval.Gives.decls top (fun _ hd => hd) hs fun _ ha => ha
          obtain ⟨W, -, top₁⟩ := Progress.Meets.ends (since_kept _ (some 1) _) declares declared
          obtain ⟨i, found₁⟩ := Machine.nearest?_of_lookup found
          obtain ⟨hi, hb⟩ := Forest.binding?_of_nearestIn found₁
          -- The name is none of the predefined ones.
          have outer : i ≠ 0 := by
            rintro rfl
            have named := top₁.ready.ok.names 0 "main"
            rw [hb, top₁.ready.ok.root] at named
            cases named
          have chain : m.scopes.chain m.here = [1, 0] := top₁.chain
          rw [chain] at hi
          simp only [List.mem_cons, outer, List.not_mem_nil, or_false] at hi
          rw [hi] at found₁
          exact holds.creates hm rfl (hname.symm ▸ found) (hname.symm ▸ found₁)
    · cases asks

end Program

section

variable {p : Program} {checked : Checked}

/-- **Functions are called by name.**  Where whatever is read from the input goes to variables, take
a call by name that a run of an accepted program evaluates, at whichever occurrence in the program it is.
The frames that the run sees follow those that checking sees where it takes up that occurrence, and the
name leads where checking has found it there. If that was a function of the program, then what is called
is what the declaration of that function has created, with an argument for each parameter, so the call
itself does not fail. What the program itself calls is, in the same way, the function that it found by
the name of `main` before anything was run. -/
theorem run_calls_functions (h : p.check = .ok checked) (hv : checked.program.ScansVariables)
    (settings : Settings) (stdin : String) :
    (∀ n k x args m resume, (checked.program.run (.start settings stdin)).Steps
        (.waiting (.expr (.call n (.name k x) args)) m resume) →
      (∃ c e₀, p.Evaluates checked (.start settings stdin) c e₀ (.call n (.name k x) args) m) ∧
      ∀ c e₀, p.Evaluates checked (.start settings stdin) c e₀ (.call n (.name k x) args) m →
        (c, .expr e₀) ∈ p.moments ∧ .call n (.name k x) args ∈ (e₀.check c).1.2.subexprs ∧
        (∃ Γ, c.At Γ ∧ p.Follows checked (.start settings stdin) m.scopes Γ.levels
          (c.scopes.chain c.here) (m.scopes.chain m.here)) ∧
        ∃ known i i',
          p.Resolves checked (.start settings stdin) c (.call n (.name k x) args) m x known i i' ∧
          ∀ sig, known = .function sig → ∃ f, .func f ∈ checked.program ∧ f.name = x ∧
            f.signature = sig ∧ ∀ callee vs pos m',
              ((Expr.call n (.name k x) args).start m).AsksFor (.apply callee vs pos) m' →
                checked.program.Invokes (.start settings stdin) f callee vs ∧
                (Job.apply callee vs pos).refused m' = false) ∧
    ∀ callee vs pos m, (checked.program.run (.start settings stdin)).AsksFor
        (.apply callee vs pos) m →
      ∃ main, Program.function? checked.program "main" = some main ∧
        checked.program.Invokes (.start settings stdin) main callee vs ∧
        (Job.apply callee vs pos).refused m = false := by
  refine ⟨fun n k x args m resume comes => ⟨Program.comes_to h ((Progress.involves_iff
    (j := .expr (.call n (.name k x) args))).mpr ⟨resume, comes⟩), fun c e₀ evaluates => ?_⟩,
    fun callee vs pos m asks => ?_⟩
  · obtain ⟨moment, inside, Γ, ks, taken, spot⟩ := evaluates.spot h
    obtain ⟨W, _, asked, -⟩ := ((Program.meets_run h settings stdin).steps (sound_kept _) comes).asked
    have sound := evaluates.sound h taken
    obtain ⟨t, -, known, means, -, -⟩ := sound.rule
    obtain ⟨i, i', resolves⟩ := spot.resolves (e := .call n (.name k x) args) taken
      asked.ok.toFramed means
    refine ⟨moment, inside, ⟨Γ, taken.toAt, taken.chain ▸ spot.follows⟩, known, i, i', resolves, ?_⟩
    rintro sig rfl
    -- What means a function is in the frame of the program, and has been declared there.
    obtain ⟨rfl, d, hd, named, makes⟩ := resolves.agrees.owned sig rfl
    cases d with
    | var v => cases makes
    | cls d => obtain ⟨info, e⟩ := makes; cases e
    | func f =>
        cases makes
        refine ⟨f, hd, named, rfl, fun callee vs pos m' asks => ?_⟩
        obtain ⟨⟨m₁, called⟩, given⟩ := asks_of_call asks
        obtain ⟨-, found⟩ := steps_of_lookup ((Job.answers_iff_steps _ _ _ _).mp called)
        obtain ⟨b, leads⟩ := resolves.leads m (.inl rfl)
        have holds := Program.holds_run h (.inl hv) settings stdin comes rfl
        have created := holds.creates hd rfl (named.symm ▸ found) (named.symm ▸ leads)
        have arity : vs.length = f.arity := by
          rw [given, ← Program.length_of_sound sound means]
          exact List.length_map _
        exact ⟨⟨created, arity⟩, Program.Invokes.not_refused ⟨created, arity⟩ pos m'⟩
  · obtain ⟨main, hmain, invokes⟩ := Program.invokes_main h hv asks
    exact ⟨main, hmain, invokes, invokes.not_refused pos m⟩

end

/-! ### Some calls -/

/-- The expression is a call by this name, and the job that calls passes a test. -/
def Expr.callsName (depth : Nat) (x : String) (test : Job → Machine → Bool) : Expr → Machine → Bool
  | .call n (.name k y) args, m => y == x &&
      match ((Expr.call n (.name k y) args).start m).answered depth (args.length + 1) with
      | .waiting (.apply f vs p) m' _ => test (.apply f vs p) m'
      | _                             => false
  | _, _ => false

/-- A call that a test has found is one that the expression asks for. -/
theorem Expr.asks_of_callsName {depth : Nat} {x : String} {test : Job → Machine → Bool} {e : Expr}
    {m : Machine} (h : e.callsName depth x test m = true) : ∃ n k args callee vs pos m',
      e = .call n (.name k x) args ∧ (e.start m).AsksFor (.apply callee vs pos) m' ∧
        test (.apply callee vs pos) m' = true := by
  unfold callsName at h
  split at h
  · rw [Bool.and_eq_true, beq_iff_eq] at h
    obtain ⟨rfl, h⟩ := h
    split at h
    · rename_i f vs q m' resume e
      have asks := Progress.AsksFor.of_answered (e ▸ Progress.AsksFor.here (.apply f vs q) m' resume)
      exact ⟨_, _, _, f, vs, q, m', rfl, asks, h⟩
    · cases h
  · cases h

/-- Wherever checking takes up a call by this name, it finds a function of the program. -/
def Program.calledKnown (p : Program) (x : String) : Bool :=
  p.moments.all fun
    | (c, .expr e) => !(e.check c).1.2.subexprs.any (fun
          | .call _ (.name _ y) _ => y == x
          | _                     => false) ||
        match c.scopes.nearest? c.here x with
        | some (1, some (.function _)) => true
        | _                            => false
    | _ => true

/-- Where a name is found to be called, and each time as a function of the program, checking has known
it as one. -/
theorem Program.function_of_calledKnown {p : Program} {x : String} (h : p.calledKnown x = true)
    {c : Checker} {e : Expr} (moment : (c, .expr e) ∈ p.moments) {n k : Note} {args : List Expr}
    (inside : .call n (.name k x) args ∈ (e.check c).1.2.subexprs) :
    ∃ sig, c.scopes.nearest? c.here x = some (1, some (.function sig)) := by
  have found := List.all_eq_true.mp h _ moment
  rw [Bool.or_eq_true, Bool.not_eq_true', List.any_eq_false] at found
  have found := found.resolve_left fun none => none _ inside (beq_self_eq_true x)
  split at found
  · exact ⟨_, ‹_›⟩
  · cases found

/-- `int g() { scanf("%f", <x>); return 0; } float PI() { return 1.0; }`
`int main() { float y = 0.0; g(); PI(); return 0; }` -/
def replacing (x : String) : Program := [
  .func ⟨.ofLine 1, .int, "g", [], [⟨.ofLine 1, .float, "y", some (.literal .blank (.float 0.0))⟩],
    [.expr (.ofLine 1) (.scanf .blank (.literal .blank (.str "%f")) [.name .blank x]),
      .ret (.ofLine 1) (some (.literal .blank (.int 0)))]⟩,
  .func ⟨.ofLine 2, .float, "PI", [], [], [.ret (.ofLine 2) (some (.literal .blank (.float 1.0)))]⟩,
  .func ⟨.ofLine 3, .int, "main", [], [],
    [.expr (.ofLine 3) (.call .blank (.name .blank "g") []),
      .expr (.ofLine 3) (.call .blank (.name .blank "PI") []),
      .ret (.ofLine 3) (some (.literal .blank (.int 0)))]⟩]

/-- The function that has taken the name of a predefined constant is called, where checking has found
that function. -/
theorem run_calls_functions_replacing : ∃ checked, (replacing "y").check = .ok checked ∧
    checked.program.ScansVariables ∧ ∃ n k args m resume,
      (checked.program.run (.start .standard "3.0")).Steps
        (.waiting (.expr (.call n (.name k "PI") args)) m resume) ∧
      ∃ c e₀ sig, (replacing "y").Evaluates checked (.start .standard "3.0") c e₀
          (.call n (.name k "PI") args) m ∧
        c.scopes.nearest? c.here "PI" = some (1, some (.function sig)) ∧
        ∃ f callee vs pos m', .func f ∈ checked.program ∧ f.name = "PI" ∧ f.signature = sig ∧
          ((Expr.call n (.name k "PI") args).start m).AsksFor (.apply callee vs pos) m' ∧
          checked.program.Invokes (.start .standard "3.0") f callee vs ∧
          (Job.apply callee vs pos).refused m' = false := by
  have accepted : (replacing "y").admits (fun checked => decide checked.program.ScansVariables &&
      (checked.program.run (.start .standard "3.0")).waitsFor 12
        (Expr.callsName 10 "PI" fun _ _ => true)) = true := by decide +kernel
  have taken : (replacing "y").calledKnown "PI" = true := by decide +kernel
  obtain ⟨checked, hc, test⟩ := Program.of_admits accepted
  rw [Bool.and_eq_true, decide_eq_true_eq] at test
  obtain ⟨e, m, resume, comes, called⟩ := Progress.steps_of_waitsFor test.2
  obtain ⟨n, k, args, callee, vs, pos, m', rfl, asks, -⟩ := Expr.asks_of_callsName called
  obtain ⟨⟨c, e₀, evaluates⟩, all⟩ :=
    (run_calls_functions hc test.1 .standard "3.0").1 n k "PI" args m resume comes
  obtain ⟨moment, inside, -, known, i, i', resolves, calls⟩ := all c e₀ evaluates
  obtain ⟨sig, found⟩ := Program.function_of_calledKnown taken moment inside
  cases found.symm.trans resolves.looked
  obtain ⟨f, hf, named, signature, calls⟩ := calls sig rfl
  obtain ⟨invokes, fine⟩ := calls callee vs pos m' asks
  exact ⟨checked, hc, test.1, n, k, args, m, resume, comes, c, e₀, sig, evaluates, found, f, callee, vs,
    pos, m', hf, named, signature, asks, invokes, fine⟩

/-- What is read from the input replaces a function that has taken the name of a predefined constant:
wherever checking takes up a call by that name it finds the function, and the call fails. -/
theorem scanf_replaces_function : ∃ checked, (replacing "PI").check = .ok checked ∧
    (∀ c e n k args, (c, .expr e) ∈ (replacing "PI").moments →
      .call n (.name k "PI") args ∈ (e.check c).1.2.subexprs →
        ∃ sig, c.scopes.nearest? c.here "PI" = some (1, some (.function sig))) ∧
    ∃ n k args m resume, (checked.program.run (.start .standard "3.0")).Steps
        (.waiting (.expr (.call n (.name k "PI") args)) m resume) ∧
      ∃ callee vs pos m',
        ((Expr.call n (.name k "PI") args).start m).AsksFor (.apply callee vs pos) m' ∧
        (Job.apply callee vs pos).refused m' = true := by
  have accepted : (replacing "PI").admits (fun checked =>
      (checked.program.run (.start .standard "3.0")).waitsFor 12
        (Expr.callsName 10 "PI" Job.refused)) = true := by decide +kernel
  have taken : (replacing "PI").calledKnown "PI" = true := by decide +kernel
  obtain ⟨checked, hc, test⟩ := Program.of_admits accepted
  obtain ⟨e, m, resume, comes, called⟩ := Progress.steps_of_waitsFor test
  obtain ⟨n, k, args, callee, vs, pos, m', rfl, asks, refused⟩ := Expr.asks_of_callsName called
  exact ⟨checked, hc, fun c e n k args moment inside =>
    Program.function_of_calledKnown taken moment inside, n, k, args, m, resume, comes, callee, vs, pos,
    m', asks, refused⟩

end Brace
