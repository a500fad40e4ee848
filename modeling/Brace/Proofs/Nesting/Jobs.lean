import Brace.Proofs.Nesting.Pieces

/-!
# Nesting — what jobs ask for, and how deep in calls

A job asks for jobs for what is inside it, as many calls deep as it is itself. An expression may also
ask for a call, and a call for the jobs of a function's body, one call deeper. None asks for anything
else, whatever machine it starts in.

* `Job.Wants`: what a job asks for, and how deep.
* `Job.nests_start`: one layer of evaluation asks for nothing else, under all limits alike.
* `limiting_tracked`: so do runs.
-/

namespace Brace

open Eval

variable {α β : Type} {P : FuncDecl → Prop} {k d : Nat} {J : Nat → Job → Prop}

/-! ### What is inside what -/

def VarDecl.jobs (v : VarDecl) : List Job :=
  match v.init with
  | some e => [.expr e]
  | none   => []

/-- The jobs that run a body. -/
def bodyJobs (locals : List VarDecl) (body : List Stmt) : List Job :=
  locals.flatMap VarDecl.jobs ++ body.map .stmt

def FuncDecl.jobs (f : FuncDecl) : List Job := bodyJobs f.locals f.body

def ForInit.jobs : ForInit → List Job
  | .decl v => v.jobs
  | .expr e => [.expr e]

def Stmt.jobs : Stmt → List Job
  | .block _ locals body           => bodyJobs locals body
  | .ifElse _ cond t e             => [.expr cond, .stmt t, .stmt e]
  | .whileLoop _ cond body         => [.loop cond none body]
  | .forLoop _ init cond update body => init.jobs ++ [.loop cond (some update) body]
  | .ret _ (some e) | .expr _ e    => [.expr e]
  | .ret _ none | .breakLoop _ | .continueLoop _ | .empty _ => []

/-- The jobs for what is inside a job. A loop asks for itself again. -/
def Job.inner : Job → List Job
  | .expr e                => (e.children.flatMap Expr.subexprs).map .expr
  | .stmt s                => s.jobs
  | .loop cond (some u) body => [.expr cond, .stmt body, .expr u, .loop cond (some u) body]
  | .loop cond none body   => [.expr cond, .stmt body, .loop cond none body]
  | .apply ..              => []

/-- What can be called through these values is in `P`. -/
def Job.Of (P : FuncDecl → Prop) : Job → Prop
  | .apply callee args _ => callee.Of P ∧ ∀ v ∈ args, v.Of P
  | _                    => True

/-- Where every function is in `P`, nothing else can be called. -/
theorem Job.of_all (j : Job) (h : ∀ f, P f) : j.Of P := by
  cases j with
  | apply callee args p => exact ⟨callee.of_all h, fun v _ => v.of_all h⟩
  | _ => trivial

/-- What the job asks for when `d` calls are under way, and how many are under way then. -/
inductive Job.Wants (P : FuncDecl → Prop) (d : Nat) : Job → Nat → Job → Prop where
  | inside {j j' : Job} (h : j' ∈ j.inner) : Wants P d j d j'
  | call {e : Expr} {callee : Value} {args : List Value} {p : Position}
      (h : (Job.apply callee args p).Of P) : Wants P d (.expr e) d (.apply callee args p)
  | body {callee : Value} {args : List Value} {p : Position} {f : FuncDecl} {j : Job} (hf : P f)
      (h : j ∈ f.jobs) : Wants P d (.apply callee args p) (d + 1) j

/-! ### Calls are asked for by expressions alone -/

theorem VarDecl.of_jobs {v : VarDecl} {j : Job} (h : j ∈ v.jobs) : j.Of P := by
  rw [jobs] at h
  split at h <;> simp only [List.mem_singleton, List.not_mem_nil] at h
  subst h
  trivial

theorem of_bodyJobs {locals : List VarDecl} {body : List Stmt} {j : Job}
    (h : j ∈ bodyJobs locals body) : j.Of P := by
  rcases List.mem_append.mp h with h | h
  · obtain ⟨v, -, h⟩ := List.mem_flatMap.mp h
    exact v.of_jobs h
  · obtain ⟨s, -, rfl⟩ := List.mem_map.mp h
    trivial

theorem ForInit.of_jobs {init : ForInit} {j : Job} (h : j ∈ init.jobs) : j.Of P := by
  cases init with
  | decl v => exact v.of_jobs h
  | expr e =>
      rw [List.mem_singleton.mp h]
      trivial

/-- A statement asks for no call: that is up to its expressions. -/
theorem Stmt.of_jobs {s : Stmt} {j : Job} (h : j ∈ s.jobs) : j.Of P := by
  cases s with
  | block p locals body => exact of_bodyJobs h
  | forLoop p init cond update body =>
      rcases List.mem_append.mp h with h | h
      · exact init.of_jobs h
      · rw [List.mem_singleton.mp h]
        trivial
  | ifElse p cond t e =>
      simp only [jobs, List.mem_cons, List.not_mem_nil, or_false] at h
      rcases h with rfl | rfl | rfl <;> trivial
  | ret p e =>
      cases e with
      | none => cases h
      | some e =>
          rw [List.mem_singleton.mp h]
          trivial
  | whileLoop | expr =>
      rw [List.mem_singleton.mp h]
      trivial
  | _ => cases h

/-- What is inside a job asks for no call itself. -/
theorem Job.of_inner {j j' : Job} (h : j' ∈ j.inner) : j'.Of P := by
  cases j with
  | expr e =>
      obtain ⟨c, -, rfl⟩ := List.mem_map.mp h
      trivial
  | stmt s => exact s.of_jobs h
  | loop cond update body =>
      cases update <;> simp only [inner, List.mem_cons, List.not_mem_nil, or_false] at h
      · rcases h with rfl | rfl | rfl <;> trivial
      · rcases h with rfl | rfl | rfl | rfl <;> trivial
  | apply callee args p => cases h

/-- Whatever a job asks for lets nothing be called that is not in `P`. -/
theorem Job.Wants.of {j j' : Job} {d' : Nat} (h : j.Wants P d d' j') : j'.Of P := by
  cases h with
  | inside h => exact of_inner h
  | call h => exact h
  | body _ h => exact of_bodyJobs h

/-- What a step gives is a number, and cannot be called. -/
theorem Value.of_stepped (form : StepForm) (v : Value) :
    ∀ w, Eval.stepped form v = .ok w → w.Of P :=
  Settles.of ((stepped_settles form v).mono fun _ _ => isPlain_of_isScalar)

/-- What can be called through the object of the place is in `P`. -/
def Eval.Place.Of (P : FuncDecl → Prop) : Place → Prop
  | .field o _ => o.cls.Of P
  | _          => True

/-- What is read from the input cannot be called. -/
theorem Specifier.of_read {s : Specifier} {word : List Char} {v : Value} (e : s.read word = some v) :
    v.Of P := by
  cases s <;> simp only [read, Option.map_eq_some_iff, Option.some.injEq] at e
  · obtain ⟨n, -, rfl⟩ := e
    trivial
  · obtain ⟨x, -, rfl⟩ := e
    trivial
  · subst e
    trivial

namespace Eval.Nests

/-! ### Expressions inside expressions -/

variable {es : List Expr}

/-- An expression may be evaluated where it may be asked for. -/
theorem eval {e : Expr} (h : J d (.expr e)) : e.eval.Nests P k J d (Value.Of P) := ask h

theorem evalAll : ∀ {as : List Expr}, (∀ e ∈ as, J d (.expr e)) →
    (as.mapM Expr.eval).Nests P k J d fun vs => ∀ v ∈ vs, v.Of P
  | [], _      => by
      rw [List.mapM_nil]
      exact pure nofun
  | e :: as, h => by
      obtain ⟨he, has⟩ := List.forall_mem_cons.mp h
      rw [List.mapM_cons]
      exact bind (eval he) fun v hv => bind (evalAll has) fun vs hvs =>
        pure (List.forall_mem_cons.mpr ⟨hv, hvs⟩)

/-- The place that is assigned to is found by evaluating the operands alone. -/
theorem place {target : Expr} (h : ∀ c ∈ target.children, J d (.expr c)) :
    (place target).Nests P k J d (Place.Of P) := by
  have only {c : Expr} (hc : target.children = [c]) : J d (.expr c) := h c (hc ▸ .head _)
  cases target with
  | name n x => exact pure trivial
  | index n x i =>
      exact bind (lookupArray _ _) fun _ _ => bind (eval (only rfl)) fun _ _ =>
        bind (expectInt _ _) fun _ _ => pure trivial
  | get n o x =>
      exact bind (eval (only rfl)) fun _ hv => bind (expectObject hv _) fun _ ho => pure ho
  | _ => exact fail _ _

theorem read (p : Position) {here : Place} (h : here.Of P) :
    (here.read p).Nests P k J d (Value.Of P) := by
  cases here with
  | var x => exact lookup x p
  | element id i => exact element id i p
  | field o x => exact property h x p

/-- What is written lets nothing be called that was not there. -/
theorem write {v : Value} (hv : v.Of P) (p : Position) (here : Place) :
    (here.write v p).Nests P k J d anything := by
  cases here with
  | var x => exact assign x hv p
  | element id i => exact setElement id i hv p
  | field o x => exact setField o x hv

theorem step (form : StepForm) {target : Expr} (h : ∀ c ∈ target.children, J d (.expr c)) :
    (step form target).Nests P k J d (Value.Of P) :=
  bind (place h) fun here hh => bind (read _ hh) fun old ho =>
    bind (ofExcept _ (Value.of_stepped form old)) fun new hn =>
      bind (write hn _ here) fun _ _ => pure (by split <;> assumption)

/-- Formatted output evaluates the format and the arguments, and nothing else. -/
theorem formatted {format : Expr} {args : List Expr}
    (h : ∀ e ∈ format :: args, J d (.expr e)) : (formatted format args).Nests P k J d anything := by
  obtain ⟨hf, ha⟩ := List.forall_mem_cons.mp h
  refine bind (eval hf) fun _ _ => bind (expectString _ _) fun _ _ => bind (evalAll ha) fun _ _ =>
    bind (R := anything) (view (fun _ _ => rfl) fun _ _ => trivial) fun filled _ => ?_
  cases filled with
  | some r => exact ofExcept _ fun _ _ => trivial
  | none => exact endless

theorem scanInto (p : Position) (s : Specifier) {target : Expr}
    (h : ∀ c ∈ target.children, J d (.expr c)) : (scanInto p s target).Nests P k J d anything := by
  refine bind (R := anything) (make (fun _ _ => rfl) fun m _ => ⟨.io m _ _, trivial⟩) fun word _ => ?_
  cases word with
  | none => exact fail _ p
  | some word =>
      dsimp only
      split
      · rename_i v e
        exact bind (place h) fun here _ => write (Specifier.of_read e) _ here
      · exact fail _ p

/-- Formatted input evaluates the operands of its targets, and nothing else. -/
theorem scan (p : Position) (template : String) {targets : List Expr}
    (h : ∀ t ∈ targets, ∀ c ∈ t.children, J d (.expr c)) :
    (scan p template targets).Nests P k J d anything := by
  simp only [Eval.scan]
  split
  · exact forM (f := fun x : Specifier × Expr => Eval.scanInto p x.1 x.2) fun x hx =>
      scanInto p x.1 (h x.2 (List.of_mem_zip hx).2)
  · exact fail _ p

end Eval.Nests

/-- What the evaluation of an expression asks for. -/
theorem Expr.nests_start (e : Expr) :
    e.start.Nests P k ((Job.expr e).Wants P d) d (Value.Of P) := by
  have inner : ∀ c ∈ e.children, (Job.expr e).Wants P d d (.expr c) := fun c hc =>
    .inside (List.mem_map_of_mem (List.mem_flatMap.mpr ⟨c, hc, self_mem_subexprs c⟩))
  have only {c : Expr} (hc : e.children = [c]) := inner c (hc ▸ .head _)
  have both {a b : Expr} (hc : e.children = [a, b]) :
      (Job.expr e).Wants P d d (.expr a) ∧ (Job.expr e).Wants P d d (.expr b) :=
    ⟨inner a (hc ▸ .head _), inner b (hc ▸ .tail _ (.head _))⟩
  -- The targets of a step or of `scanf` are not evaluated themselves, but what is inside them is.
  have inTarget {t : Expr} (ht : t ∈ e.children) :
      ∀ c ∈ t.children, (Job.expr e).Wants P d d (.expr c) := fun c hc =>
    .inside (List.mem_map_of_mem (List.mem_flatMap.mpr ⟨t, ht, mem_subexprs_of_child hc⟩))
  cases e with
  | literal n l => exact .pure (Value.of_ofLiteral l)
  | name n x => exact .lookup x n.pos
  | group n a => exact .eval (only rfl)
  | arrayNew n t a =>
      exact .bind (.eval (only rfl)) fun _ _ => .bind (.expectInt _ _) fun _ _ => .newArray t _ n.pos
  | index n x i =>
      exact .bind (.lookupArray _ _) fun _ _ => .bind (.eval (only rfl)) fun _ _ =>
        .bind (.expectInt _ _) fun _ _ => .element _ _ _
  | indexAssign n x i a =>
      exact .bind (.lookupArray _ _) fun _ _ => .bind (.eval (both rfl).1) fun _ _ =>
        .bind (.expectInt _ _) fun _ _ => .bind (.eval (both rfl).2) fun _ hv =>
          .bind (.setElement _ _ hv _) fun _ _ => .pure hv
  | assign n x a =>
      exact .bind (.eval (only rfl)) fun _ hv => .bind (.assign _ hv _) fun _ _ => .pure hv
  | compound n op x a =>
      exact .bind (.lookup _ _) fun _ _ => .bind (.eval (only rfl)) fun _ _ =>
        .bind (.ofExcept _ (Value.binary_settles ..).of) fun _ hv =>
          .bind (.assign _ hv _) fun _ _ => .pure hv
  | binary n op a b =>
      exact .bind (.eval (both rfl).1) fun _ _ => .bind (.eval (both rfl).2) fun _ _ =>
        .ofExcept _ (Value.binary_settles ..).of
  | logical n op a b =>
      refine .bind (.eval (both rfl).1) fun v hv => ?_
      show Eval.Nests P k _ d _ (if Eval.settles op v then Pure.pure v else b.eval)
      split
      · exact .pure hv
      · exact .eval (both rfl).2
  | unary n op a =>
      exact .bind (.eval (only rfl)) fun _ _ => .ofExcept _ (Value.unary_settles ..).of
  | step n form target => exact .step form (inTarget (.head _))
  | cast n target a =>
      exact .bind (.eval (only rfl)) fun _ _ => .ofExcept _ (Value.castTo_settles ..).of
  | intToFloat n a =>
      refine .bind (.eval (only rfl)) fun v hv => ?_
      cases v <;> exact .pure hv
  | get n o x =>
      exact .bind (.eval (only rfl)) fun _ hv => .bind (.expectObject hv _) fun _ ho =>
        .property ho x _
  | set n o x a =>
      exact .bind (.eval (both rfl).1) fun _ hv => .bind (.expectObject hv _) fun _ _ =>
        .bind (.eval (both rfl).2) fun _ hv => .bind (.setField _ _ hv) fun _ _ => .pure hv
  | receiver n => exact .lookup "this" n.pos
  | superMethod n x => exact .superMethod x n.pos
  | call n callee args =>
      exact .bind (.eval (inner _ (.head _))) fun _ hf =>
        .bind (.evalAll fun e he => inner e (.tail _ he)) fun _ hvs => .ask (.call ⟨hf, hvs⟩)
  | printf n format args =>
      exact .bind (.formatted inner) fun _ _ =>
        .bind (.change (fun _ _ => rfl) fun m => .io m _ _) fun _ _ => .pure trivial
  | sprintf n x format args =>
      exact .bind (.formatted inner) fun _ _ => .bind (.assign _ (v := .str _) trivial _)
        fun _ _ => .pure trivial
  | scanf n format targets =>
      exact .bind (.eval (inner _ (.head _))) fun _ _ => .bind (.expectString _ _) fun _ _ =>
        .bind (.scan n.pos _ fun t ht => inTarget (.tail _ ht)) fun _ _ => .pure trivial

/-! ### Statements -/

theorem VarDecl.nests_run (v : VarDecl) (h : ∀ j ∈ v.jobs, J d j) :
    v.run.Nests P k J d anything := by
  simp only [VarDecl.run, VarDecl.jobs] at h ⊢
  split
  · rename_i e he
    simp only [he] at h
    exact .bind (.eval (h _ (.head _))) fun _ hv => .define _ hv _
  · exact .declare _ _

namespace Eval

/-- Statements, one after another, ask for themselves alone. -/
theorem nests_runStmts : ∀ {ss : List Stmt}, (∀ s ∈ ss, J d (.stmt s)) →
    (runStmts ss).Nests P k J d (Flow.Of P)
  | [], _      => .pure trivial
  | _ :: _, h => by
      obtain ⟨hs, hss⟩ := List.forall_mem_cons.mp h
      refine .bind (.ask hs) fun flow hf => ?_
      cases flow with
      | normal => exact nests_runStmts hss
      | _ => exact .pure hf

/-- A body asks for its initial values and its statements alone. -/
theorem nests_runBody {locals : List VarDecl} {body : List Stmt}
    (h : ∀ j ∈ bodyJobs locals body, J d j) : (runBody locals body).Nests P k J d (Flow.Of P) :=
  .bind (.forM fun v hv => v.nests_run fun j hj =>
      h j (List.mem_append_left _ (List.mem_flatMap.mpr ⟨v, hv, hj⟩))) fun _ _ =>
    nests_runStmts fun _ hs => h _ (List.mem_append_right _ (List.mem_map_of_mem hs))

theorem nests_runInit {init : ForInit} (h : ∀ j ∈ init.jobs, J d j) :
    (runInit init).Nests P k J d anything := by
  cases init with
  | decl v => exact v.nests_run h
  | expr e => exact .bind (.eval (h _ (.head _))) fun _ _ => .pure trivial

/-- One turn of a loop asks for the parts of the loop, and for the loop again. -/
theorem nests_loopTurn (cond : Expr) (update : Option Expr) (body : Stmt)
    (h : ∀ j ∈ (Job.loop cond update body).inner, J d j) :
    (loopTurn cond update body).Nests P k J d (Flow.Of P) := by
  have hcond : J d (.expr cond) := h _ (by cases update <;> exact .head _)
  have hbody : J d (.stmt body) := h _ (by cases update <;> exact .tail _ (.head _))
  refine .bind (.eval hcond) fun v _ => ?_
  split
  · refine .bind (.ask hbody) fun flow hf => ?_
    cases flow with
    | breakLoop => exact .pure trivial
    | ret v => exact .pure hf
    | _ =>
        -- What is left of the turn is the update.
        cases update with
        | some u =>
            exact .bind (.eval (h _ (.tail _ (.tail _ (.head _))))) fun _ _ =>
              .ask (h _ (.tail _ (.tail _ (.tail _ (.head _)))))
        | none => exact .ask (h _ (.tail _ (.tail _ (.head _))))
  · exact .pure trivial

end Eval

/-- A statement asks for what is directly inside it. -/
theorem Stmt.nests_start {s : Stmt} (h : ∀ j ∈ s.jobs, J d j) :
    s.start.Nests P k J d (Flow.Of P) := by
  cases s with
  | block p locals body => exact .inBlock p (nests_runBody h)
  | ifElse p cond t e =>
      refine .bind (.eval (h _ (.head _))) fun v _ => ?_
      split
      · exact .ask (h _ (.tail _ (.head _)))
      · exact .ask (h _ (.tail _ (.tail _ (.head _))))
  | whileLoop p cond body => exact .ask (h _ (.head _))
  | forLoop p init cond update body =>
      exact .inBlock p (.bind (nests_runInit fun j hj => h j (List.mem_append_left _ hj)) fun _ _ =>
        .ask (h _ (List.mem_append_right _ (.head _))))
  | ret p e =>
      cases e with
      | some e => exact .bind (.eval (h _ (.head _))) fun _ hv => .pure hv
      | none => exact .pure trivial
  | expr p e => exact .bind (.eval (h _ (.head _))) fun _ _ => .pure trivial
  | _ => exact .pure trivial

/-! ### Calls -/

/-- A built-in function does not look at the limit. -/
theorem Builtin.call_limit (b : Builtin) (args : List Value) (m : Machine) (n : Nat) :
    b.call args (m.limit n) = (b.call args m).map fun x => (x.1, x.2.limit n) := by
  have same : (m.limit n).heap = m.heap := rfl
  unfold Builtin.call
  split
  · rw [same, Option.map_map]
    rfl
  · rw [same, Option.map_map]
    congr 1
    funext text
    have read : ∀ {x}, (m.print text).readLine = x →
        ((m.limit n).print text).readLine = (x.1, x.2.limit n) := by rintro _ rfl; rfl
    rcases e : (m.print text).readLine with ⟨_ | line, m'⟩ <;>
      simp only [Function.comp_apply, read e, e]
  all_goals rfl

/-- A built-in function asks for nothing. -/
theorem Builtin.nests_apply (b : Builtin) (args : List Value) (p : Position) :
    (b.apply args p).Nests P k J d (Value.Of P) := .of_ends fun m n => by
  simp only [Builtin.apply, b.call_limit args m n]
  split
  · cases e : b.call args m with
    | none => exact .inl ⟨rfl, rfl⟩
    | some x =>
        obtain ⟨r, m'⟩ := x
        have follows : m.Follows P m' := by
          obtain ⟨input, output, rfl⟩ := Builtin.call_io e
          exact .io m input output
        cases r with
        | ok v =>
            have plain : v.isPlain = true := (Builtin.call_settles e).1
            exact .inr ⟨_, m', rfl, rfl, fun _ => ⟨follows, by rintro _ ⟨⟩; exact Value.of_plain plain⟩⟩
        | error c => exact .inr ⟨_, m', rfl, rfl, fun _ => ⟨follows, by rintro _ ⟨⟩⟩⟩
  · exact .inr ⟨_, m, rfl, rfl, fun _ => ⟨.refl m, by rintro _ ⟨⟩⟩⟩

namespace Eval

theorem nests_bindParams (h : Handle) (p : Position) (params : List Param) {args : List Value}
    (ha : ∀ v ∈ args, v.Of P) : (bindParams h p params args).Nests P k J d anything :=
  .forM (f := fun x : Param × Value => defineAt h x.1.name x.2 p) fun x hx =>
    .defineAt h x.1.name (ha x.2 (List.of_mem_zip hx).2) p

theorem nests_result (f : FuncDecl) {flow : Flow} (h : flow.Of P) :
    (result f flow).Nests P k J d (Value.Of P) := by
  cases flow with
  | normal => exact .pure trivial
  | ret v => exact .pure h
  | _ => exact .fail _ _

/-- The body of a function runs one call deeper. -/
theorem nests_callClosure (f : Closure) {args : List Value} (ha : ∀ v ∈ args, v.Of P)
    (h : ∀ j ∈ f.decl.jobs, J (d + 1) j) : (callClosure f args).Nests P k J d (Value.Of P) := by
  simp only [callClosure]
  split
  · exact .bind (R := anything) (.make (fun _ _ => rfl) fun m _ => ⟨.openFrame m f.scope, trivial⟩)
      fun frame _ => .bind (nests_bindParams frame _ _ ha) fun _ _ =>
        .bind (.counted _ (.inScope frame (nests_runBody h))) fun flow hf => nests_result f.decl hf
  · exact .fail _ _

/-- Making an object asks for what is in the constructor's body, one call deeper. -/
theorem nests_instantiate {c : Class} (hc : c.Of P) {args : List Value} (ha : ∀ v ∈ args, v.Of P)
    (h : ∀ f, P f → ∀ j ∈ f.jobs, J (d + 1) j) :
    (instantiate c args).Nests P k J d (Value.Of P) := by
  refine .bind (R := fun o => o.cls.Of P)
    (.make (fun _ _ => rfl) fun m _ => ⟨.newObject m c, hc⟩) fun o ho => ?_
  split
  · rename_i init e
    exact .bind (R := fun f => P f.decl)
      (.make (fun _ _ => rfl) fun m _ => ⟨.bindMethod m ho init, hc.method e⟩) fun f hf =>
        .bind (nests_callClosure f ha (h f.decl hf)) fun _ _ => .pure ho
  · split
    · exact .pure ho
    · exact .fail _ _

/-- A call asks for what is in the body of a function in `P`, one call deeper. -/
theorem nests_applyTo {callee : Value} (hf : callee.Of P) {args : List Value}
    (ha : ∀ v ∈ args, v.Of P) (p : Position) (h : ∀ f, P f → ∀ j ∈ f.jobs, J (d + 1) j) :
    (applyTo callee args p).Nests P k J d (Value.Of P) := by
  cases callee with
  | function f => exact .orAt p (nests_callClosure f ha (h f.decl hf))
  | builtin b => exact b.nests_apply args p
  | cls c => exact .orAt p (nests_instantiate hf ha h)
  | _ => exact .bind (.textOf _) fun _ _ => .fail _ _

end Eval

/-! ### Every job -/

/-- **What a job asks for.**  A job asks for what is inside it, where as many calls are under way, or
for a call, or for the body of a function that it calls, where there is one call more. -/
theorem Job.nests_start {j : Job} (h : j.Of P) : j.start.Nests P k (j.Wants P d) d (j.Gives P) := by
  cases j with
  | expr e => exact e.nests_start
  | stmt s => exact Stmt.nests_start fun j hj => .inside hj
  | loop cond update body => exact nests_loopTurn cond update body fun j hj => .inside hj
  | apply callee args p => exact nests_applyTo h.1 h.2 p fun f hf j hj => .body hf hj

/-- Jobs do the same under every limit that is not lower, unless calls nest too deep. -/
theorem limiting_tracked {n : Nat} (le : k ≤ n) :
    (limiting P k fun _ j => j.Of P).Tracked k n := fun _ j m ⟨hm, hj⟩ =>
  (j.nests_start hj).mono (fun _ _ w => w.of) n le m hm

end Brace
