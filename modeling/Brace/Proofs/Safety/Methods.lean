import Brace.Proofs.Run.Asks
import Brace.Proofs.Safety.Start

/-!
# Safety — calls of methods

Checking looks at a call of a method once, for the class that it knows the object to be of. In a run
the object may be of a class below that one, and answers for itself: with a field of the name, if it
has one, and otherwise with the method that its own class has. So the call itself can fail where a
class below has a method of that name with other parameters, or where something has been stored in a
field of that name.

* `method_calls_go_through`: without either, the call itself does not fail.
* `method_calls_refused`: with either, it may.
-/

namespace Brace

open Eval

variable {α β : Type}

/-- There is nothing that can be called, or the arguments are too few or too many. -/
def Cause.isOfCalls : Cause → Bool
  | .callArityMismatch .. | .notCallable _ => true
  | _                                      => false

/-- The job itself fails over what is called or over the number of arguments, and not because
something fails that it asks for. -/
def Job.refused (j : Job) (m : Machine) : Bool :=
  match j.start m with
  | .finished (.error e) _ => e.cause.isOfCalls
  | _                      => false

/-! ### What is done before anything is asked for -/

/-- Says nothing of answers, and so nothing of what is done when one is there. -/
def opening : Contract where
  Ghost := Unit
  pre _ _ _ := True
  post _ _ _ _ _ := False

/-- Before the computation asks for anything, it does not fail over a call. -/
def Eval.Opens (x : Eval α) : Prop :=
  ∀ m, (x m).Meets opening fun r _ => ∀ e, r = .error e → e.cause.isOfCalls = false

namespace Eval.Opens

theorem pure (a : α) : (Pure.pure a : Eval α).Opens := fun _ => nofun

theorem fail {c : Cause} (hc : c.isOfCalls = false) (p : Position) : (fail c p : Eval α).Opens := by
  rintro m e ⟨⟩
  exact hc

/-- What is made anew does not fail. -/
theorem make (f : Machine → α × Machine) : (make f).Opens := fun _ => nofun

/-- What is asked for is a matter of the answer. -/
theorem ask (j : Job) : (ask j).Opens := fun _ => ⟨(), trivial, fun _ _ h => h.elim⟩

/-- One thing after another fails over a call where one of them does. -/
theorem bind {x : Eval α} {f : α → Eval β} (hx : x.Opens) (hf : ∀ a, (f a).Opens) :
    (x >>= f).Opens := fun m => by
  refine Progress.Meets.andThen (Progress.Meets.mono (fun r m' hr => ?_) (hx m))
  cases r with
  | ok a => exact hf a m'
  | error e =>
      rintro e' ⟨⟩
      exact hr e rfl

theorem forM {f : α → Eval Unit} (h : ∀ a, (f a).Opens) : ∀ as : List α, (as.forM f).Opens
  | []      => pure ()
  | a :: as => bind (h a) fun _ => forM h as

/-- A change is refused for other reasons than a call. -/
theorem update {p : Position} {check : Machine → Except Cause β} {write : β → Machine → Machine}
    (h : ∀ m c, check m = .error c → c.isOfCalls = false) : (update p check write).Opens := by
  intro m
  simp only [Eval.update]
  split
  · rintro e ⟨⟩
    exact h m _ ‹_›
  · rintro e ⟨⟩

theorem defineAt (k : Handle) (x : String) (v : Value) (p : Position) :
    (defineAt k x v p).Opens := by
  refine update fun m c e => ?_
  simp only [Forest.definable] at e
  split at e
  · cases e; rfl
  · split at e <;> cases e
    rfl

/-- A name cannot be defined for other reasons than a call. -/
theorem define (x : String) (v : Value) (p : Position) : (define x v p).Opens :=
  fun m => defineAt m.here x v p m

/-- A name cannot be declared for other reasons than a call. -/
theorem declare (x : String) (p : Position) : (declare x p).Opens := by
  refine update fun m c e => ?_
  simp only [Forest.declarable] at e
  split at e <;> cases e
  rfl

theorem inScope (k : Handle) {x : Eval α} (hx : x.Opens) : (inScope k x).Opens := fun m =>
  Progress.Meets.andThen (Progress.Meets.mono (fun _ _ h => h) (hx { m with here := k }))

/-- That there are too many calls is another failure than one over a call. -/
theorem counted (p : Position) {x : Eval α} (hx : x.Opens) : (counted p x).Opens := by
  intro m
  simp only [Eval.counted]
  split
  · exact Progress.Meets.andThen (Progress.Meets.mono (fun _ _ h => h) (hx _))
  · rintro e ⟨⟩
    rfl

theorem orAt (p : Position) {x : Eval α} (hx : x.Opens) : (orAt p x).Opens := fun m => by
  refine Progress.Meets.andThen (Progress.Meets.mono (fun r m' hr => ?_) (hx m))
  cases r with
  | ok a => exact nofun
  | error e =>
      rintro e' ⟨⟩
      rw [Error.orAt_cause]
      exact hr e rfl

/-- A variable asks for its first value. -/
theorem vars : ∀ v : VarDecl, v.run.Opens := by
  intro v
  rw [VarDecl.run]
  split
  · exact bind (ask _) fun x => define v.name x v.pos
  · exact declare v.name v.pos

/-- Statements ask for the first of them. -/
theorem stmts (ss : List Stmt) : (runStmts ss).Opens := by
  induction ss with
  | nil => exact pure _
  | cons t ss ih =>
      refine bind (ask _) fun flow => ?_
      cases flow with
      | normal => exact ih
      | _ => exact pure _

/-- A function that is given as many arguments as it takes begins to run its body. -/
theorem callClosure {f : Closure} {args : List Value} (h : args.length = f.decl.arity) :
    (callClosure f args).Opens := by
  rw [Eval.callClosure, if_pos h]
  refine bind (make _) fun frame => bind (forM (fun x => defineAt frame _ _ _) _) fun _ =>
    bind (counted _ (inScope frame (bind (forM vars _) fun _ => stmts _))) fun flow => ?_
  cases flow with
  | normal => exact pure _
  | ret v => exact pure _
  | _ => exact fail rfl _

end Eval.Opens

/-- A function that gets as many arguments as it has parameters does not refuse the call. -/
theorem Closure.not_refused {f : Closure} {args : List Value} (h : args.length = f.decl.arity)
    (p : Position) (m : Machine) : (Job.apply (.function f) args p).refused m = false := by
  have opens : (orAt p (callClosure f args) m).Meets opening _ := (Eval.Opens.callClosure h).orAt p m
  rw [Job.refused]
  split
  · rename_i e m' he
    have he : orAt p (callClosure f args) m = .finished (.error e) m' := he
    rw [he] at opens
    exact opens e rfl
  · rfl

/-! ### What an object answers with -/

/-- An object without a field of the name answers with the method that its class has. -/
theorem Eval.steps_of_property {o : Object} {x : String} {p : Position} {m m' : Machine} {v : Value}
    (hx : m.heap.field? o.id x = none)
    (h : (property o x p m).Steps (.finished (.ok v) m')) :
    ∃ tier f, o.cls.method? x = some (tier, f) ∧ ∃ g, v = .function g ∧ g.decl = f := by
  obtain ⟨field, m₁, hview, h⟩ := steps_of_bind h
  cases hview
  cases hm : o.cls.method? x with
  | none =>
      simp only [hx, hm] at h
      cases h
  | some method =>
      simp only [hx, hm] at h
      cases h
      exact ⟨method.1, method.2, rfl, _, rfl, rfl⟩

/-- The value of a property is what an object has answered with. -/
theorem Eval.answers_of_get {n : Note} {object : Expr} {x : String} {m m' : Machine} {v : Value}
    (h : (Job.expr (.get n object x)).Answers m (.ok v) m') :
    ∃ o m₁, (Job.expr object).Answers m (.ok (.object o)) m₁ ∧
      (property o x n.pos m₁).Steps (.finished (.ok v) m') := by
  have h := (Job.answers_iff_steps _ _ _ _).mp h
  obtain ⟨w, m₁, hw, h⟩ := steps_of_bind (x := object.eval) h
  obtain ⟨o, m₂, ho, h⟩ := steps_of_bind h
  cases w with
  | object o' =>
      cases ho
      exact ⟨o, m₁, answers_of_ask hw, h⟩
  | _ =>
      obtain ⟨text, m₃, -, hfail⟩ := steps_of_bind (x := textOf _) ho
      cases hfail

/-- A call is made of what its callee gives, with as many arguments as are written. -/
theorem Eval.asks_of_call {n : Note} {callee : Expr} {args : List Expr} {m m' : Machine}
    {f : Value} {vs : List Value} {p : Position}
    (h : ((Expr.call n callee args).start m).AsksFor (.apply f vs p) m') :
    (∃ m₁, (Job.expr callee).Answers m (.ok f) m₁) ∧ vs.length = args.length := by
  rcases asks_of_bind (x := callee.eval) h with h | ⟨f', m₁, hf, h⟩
  · cases job_of_asks_ask h
  · rcases asks_of_bind h with h | ⟨vs', m₂, hvs, h⟩
    · obtain ⟨e, he⟩ := asks_of_mapM h
      cases he
    · cases job_of_asks_ask h
      exact ⟨⟨m₁, answers_of_ask hf⟩, length_of_mapM hvs⟩

/-! ### Calls of methods -/

/-- The number of arguments that the method of this name takes. -/
def ClassInfo.arity? (c : ClassInfo) (x : String) : Option Nat :=
  (c.method? x).map (·.params.length)

namespace Plan

/-- A run of the program comes to a call of a method `x` of something that checking has found to be
of the class `c`, which has such a method. There it is the object `o`, and `job` is the call that is
made of what the object answers with. -/
inductive CallsMethod (P : Plan) (c x : String) (o : Object) : Job → Machine → Prop where
  | intro {info : ClassInfo} {sig : Signature} {settings : Settings} {stdin : String} {n k : Note}
      {object : Expr} {args : List Expr} {m m₁ m₂ : Machine}
      {resume : Except Error Value → Machine → Progress Value} {f : Value} {vs : List Value}
      {p : Position} (known : P.classes.get? c = some info) (has : info.method? x = some sig)
      (comes : (Program.run P.program (.start settings stdin)).Steps
        (.waiting (.expr (.call n (.get k object x) args)) m resume))
      (typed : object.ty? = some (.object c))
      (gives : (Job.expr object).Answers m (.ok (.object o)) m₁)
      (asks : ((Expr.call n (.get k object x) args).start m).AsksFor (.apply f vs p) m₂) :
      CallsMethod P c x o (.apply f vs p) m₂

/-- Every class below has a method of this name, with as many parameters. -/
def KeepsArity (P : Plan) (c x : String) : Prop :=
  ∀ info d below, P.classes.get? c = some info → P.classes.get? d = some below →
    below.isA c = true → below.arity? x = info.arity? x

/-- Looks through all classes for `KeepsArity`. -/
def allKeepArity (P : Plan) (c x : String) : Bool :=
  P.classes.entries.all fun p =>
    !p.2.isA c || p.2.arity? x == (P.classes.get? c).bind (·.arity? x)

/-- A test of all classes that are below one tells whether they keep the number of parameters. -/
theorem keepsArity_of_all {P : Plan} {c x : String} (h : P.allKeepArity c x = true) :
    P.KeepsArity c x := by
  intro info d below hc hd hb
  have h := List.all_eq_true.mp h _ (Table.mem_of_get? hd)
  simpa [hb, hc] using h

end Plan

/-- **Method calls go through.**  Take a call of a method of something that checking has found to
be of a class. If every class below has a method of this name with as many parameters, and no
property of this name is ever set or stepped, then the call itself does not fail, whichever of these
classes the object is of. -/
theorem method_calls_go_through {p : Program} {checked : Checked} (h : p.check = .ok checked)
    {c x : String} (arity : (p.plan checked).KeepsArity c x)
    (unwritten : ¬ checked.program.Writes x) {o : Object} (below : o.cls.isA c = true) {job : Job}
    {m : Machine} (hc : (p.plan checked).CallsMethod c x o job m) : job.refused m = false := by
  obtain ⟨known, has, comes, typed, gives, asks⟩ := hc
  rename_i info sig settings stdin n k object args m₀ m₁ resume f vs q
  obtain ⟨⟨m₂, hf⟩, hvs⟩ := Eval.asks_of_call asks
  obtain ⟨o', m₁', gives', hf⟩ := Eval.answers_of_get hf
  -- The object that answers is the one that the call is about, as evaluation gives only one value.
  obtain ⟨e, rfl⟩ := gives.unique gives'
  cases e
  -- What is known where the call is evaluated.
  obtain ⟨W, Γ, ⟨ready, sound, covers⟩, -⟩ :=
    ((Program.meets_run h settings stdin).steps (sound_kept _) comes).asked
  obtain ⟨t, -, -, -, passes⟩ := sound.rule
  obtain ⟨⟨hl, -⟩, -⟩ := passes c info sig typed known has
  -- What is known when the object is there.
  have hget : Expr.get k object x ∈ (Expr.call n (.get k object x) args).children :=
    List.mem_cons_self
  have hobject : object ∈ (Expr.get k object x).children := List.mem_singleton_self object
  have asked : (p.plan checked).sound.pre (W, Γ) (.expr object) m₀ :=
    ⟨ready, (sound.child hget).child hobject, (covers.child hget).child hobject⟩
  obtain ⟨W', reached, ⟨⟨-, fit⟩, -, -⟩⟩ :=
    (sound_kept (p.plan checked)).answers asked gives
  obtain ⟨found, hfound, mirrors⟩ := fit.known
  have fieldless : m₁.heap.field? o.id x = none := by
    cases e : m₁.heap.field? o.id x with
    | none => rfl
    | some v => exact absurd (reached.ok.fields o.id x v e).2 unwritten
  obtain ⟨tier, decl, hm, g, rfl, rfl⟩ := Eval.steps_of_property fieldless hf
  -- The method that the object answers with takes as many arguments as were written.
  have same := arity info o.cls.name found known hfound ((mirrors.isA c).trans below)
  rw [ClassInfo.arity?, ClassInfo.arity?, mirrors.method?, hm, has] at same
  have same : g.decl.signature.params.length = sig.params.length := Option.some.inj same
  refine Closure.not_refused ?_ q m
  rw [hvs, ← hl, ← same]
  exact List.length_map _

/-! ### Some calls -/

/-- The expression is a call of the method `x` of something of the class `c`, and the object that it
turns out to be and the call that is made pass a test. -/
def Expr.callsMethod (depth : Nat) (c x : String) (test : Object → Job → Machine → Bool) :
    Expr → Machine → Bool
  | .call n (.get k object y) args, m =>
      y == x && (object.ty? == some (.object c) && (Job.expr object).yields depth m fun v _ =>
        match v, ((Expr.call n (.get k object y) args).start m).answered depth (args.length + 1) with
        | .object o, .waiting (.apply f vs p) m' _ => test o (.apply f vs p) m'
        | _, _                                     => false)
  | _, _ => false

/-- The program is accepted, its class `c` has the method `x`, and when its run has begun `n` jobs,
it comes to a call of that method that passes a test. -/
def Program.comesToCall (p : Program) (n depth : Nat) (c x : String)
    (test : Object → Job → Machine → Bool) : Bool :=
  p.admits fun checked => ((p.classes.get? c).bind (·.method? x)).isSome &&
    (checked.program.run (.start .standard "")).waitsFor n (Expr.callsMethod depth c x test)

/-- A program that comes to a call which passes the test is one that has been accepted. -/
theorem Program.calls_of_comesToCall {p : Program} {n depth : Nat} {c x : String}
    {test : Object → Job → Machine → Bool} (h : p.comesToCall n depth c x test = true) :
    ∃ checked, p.check = .ok checked ∧ ∃ o job m, (p.plan checked).CallsMethod c x o job m ∧
      test o job m = true := by
  obtain ⟨checked, hc, h⟩ := of_admits h
  rw [Bool.and_eq_true] at h
  obtain ⟨sig, hsig⟩ := Option.isSome_iff_exists.mp h.1
  obtain ⟨info, known, has⟩ := Option.bind_eq_some_iff.mp hsig
  obtain ⟨e, m, resume, comes, h⟩ := Progress.steps_of_waitsFor h.2
  unfold Expr.callsMethod at h
  split at h
  · simp only [Bool.and_eq_true, beq_iff_eq] at h
    obtain ⟨rfl, typed, h⟩ := h
    obtain ⟨v, m₁, gives, h⟩ := Job.answers_of_yields h
    split at h
    · rename_i o f vs q m₂ resume' e
      have asks := Progress.AsksFor.of_answered (e ▸ Progress.AsksFor.here (.apply f vs q) m₂ resume')
      exact ⟨checked, hc, o, _, m₂, .intro known has comes typed gives asks, h⟩
    · cases h
  · cases h

/-- `int f(<params>) { return <n>; }` -/
def giving (line : Nat) (params : List Param) (n : Int64) : FuncDecl :=
  ⟨.ofLine line, .int, "f", params, [], [.ret (.ofLine line) (some (.literal .blank (.int n)))]⟩

/-- `<ty> <x> = <c>();` -/
def making (ty : Ty) (x c : String) : VarDecl :=
  ⟨.ofLine 3, ty, x, some (.call .blank (.name .blank c) [])⟩

/-- `int main() { <locals> <body> return a.f(); }` -/
def calling (locals : List VarDecl) (body : List Stmt) : Decl :=
  .func ⟨.ofLine 3, .int, "main", [], locals, body ++
    [.ret (.ofLine 4) (some (.call .blank (.get .blank (.name .blank "a") "f") []))]⟩

/-- `class A { int f() { return 1; } } class B : A { int f() { return 2; } }`
`int main() { A a = B(); return a.f(); }` -/
def refining : Program := [.cls ⟨.ofLine 1, "A", none, [], [giving 1 [] 1]⟩,
  .cls ⟨.ofLine 2, "B", some "A", [], [giving 2 [] 2]⟩, calling [making (.object "A") "a" "B"] []]

/-- A method that a class below gives anew is called as that class has it. -/
theorem method_calls_go_through_refining : ∃ checked, refining.check = .ok checked ∧
    (refining.plan checked).KeepsArity "A" "f" ∧ ¬ checked.program.Writes "f" ∧
    ∃ o job m, (refining.plan checked).CallsMethod "A" "f" o job m ∧ o.cls.isA "A" = true ∧
      o.cls.name = "B" ∧ job.refused m = false := by
  have called : refining.comesToCall 5 10 "A" "f" (fun o _ _ =>
      o.cls.isA "A" && o.cls.name == "B") = true := by decide +kernel
  have accepted : refining.admits (fun checked => (refining.plan checked).allKeepArity "A" "f" &&
      !decide (checked.program.Writes "f")) = true := by decide +kernel
  obtain ⟨checked, hc, o, job, m, hcall, ho⟩ := Program.calls_of_comesToCall called
  obtain ⟨checked', hc', h⟩ := Program.of_admits accepted
  cases hc.symm.trans hc'
  simp only [Bool.and_eq_true, beq_iff_eq, Bool.not_eq_true', decide_eq_false_iff_not] at ho h
  obtain ⟨below, hname⟩ := ho
  obtain ⟨arity, unwritten⟩ := h
  have arity := Plan.keepsArity_of_all arity
  exact ⟨checked, hc, arity, unwritten, o, job, m, hcall, below, hname,
    method_calls_go_through hc arity unwritten below hcall⟩

/-! ### Calls that fail -/

/-- `class A { int f() { return 1; } } class B : A { int f(int x) { return 2; } }`
`int main() { A a = B(); return a.f(); }` -/
def overriding : Program := [.cls ⟨.ofLine 1, "A", none, [], [giving 1 [] 1]⟩,
  .cls ⟨.ofLine 2, "B", some "A", [], [giving 2 [⟨.int, "x"⟩] 2]⟩,
  calling [making (.object "A") "a" "B"] []]

/-- `class A { int f() { return 1; } } int main() { A a = A(); a.f = 2; return a.f(); }` -/
def shadowing : Program := [.cls ⟨.ofLine 1, "A", none, [], [giving 1 [] 1]⟩,
  calling [making (.object "A") "a" "A"]
    [.expr (.ofLine 3) (.set .blank (.name .blank "a") "f" (.literal .blank (.int 2)))]]

/-- `class A { int f() { return 1; } } class B { int f(int x) { return 2; } }`
`int main() { any b = B(); A a = b; return a.f(); }` -/
def passing : Program := [.cls ⟨.ofLine 1, "A", none, [], [giving 1 [] 1]⟩,
  .cls ⟨.ofLine 2, "B", none, [], [giving 2 [⟨.int, "x"⟩] 2]⟩,
  calling [making .any "b" "B", ⟨.ofLine 3, .object "A", "a", some (.name .blank "b")⟩] []]

/-- Calls of methods that checking has found fail themselves, where a class below has the method
with other parameters, where a field hides the method, and where the object has come through `any`
and is of another class. -/
theorem method_calls_refused :
    (∃ checked, overriding.check = .ok checked ∧ ∃ o job m,
      (overriding.plan checked).CallsMethod "A" "f" o job m ∧
      (o.cls.isA "A" && job.refused m) = true) ∧
    (∃ checked, shadowing.check = .ok checked ∧ ∃ o job m,
      (shadowing.plan checked).CallsMethod "A" "f" o job m ∧
      (o.cls.isA "A" && job.refused m) = true) ∧
    ∃ checked, passing.check = .ok checked ∧ ∃ o job m,
      (passing.plan checked).CallsMethod "A" "f" o job m ∧
      (!o.cls.isA "A" && job.refused m) = true := by
  have overridden : overriding.comesToCall 5 10 "A" "f" (fun o job m => o.cls.isA "A" && job.refused m) =
      true := by decide +kernel
  have hidden : shadowing.comesToCall 9 10 "A" "f" (fun o job m => o.cls.isA "A" && job.refused m) =
      true := by decide +kernel
  have passed : passing.comesToCall 6 10 "A" "f" (fun o job m => !o.cls.isA "A" && job.refused m) =
      true := by decide +kernel
  exact ⟨Program.calls_of_comesToCall overridden, Program.calls_of_comesToCall hidden,
    Program.calls_of_comesToCall passed⟩

end Brace
