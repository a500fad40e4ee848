import Brace.Proofs.Safety.Bound
import Brace.Proofs.Safety.Lexical

/-!
# Safety — names are resolved as checking has resolved them

Whatever a run of an accepted program evaluates is an occurrence in the program, which the run comes to
together with checking (`Program.comes_to`), and the frames that it sees there follow those that checking
saw. So a name leads a run to a frame like the one in which checking has found it, unless it was
predefined and has been taken by the program.

* `run_resolves_names`: where the names lead that an expression resolves.
* `run_leaves_predefined`: they may lead elsewhere than checking has found.
-/

namespace Brace

open Eval

variable {p : Program} {checked : Checked} {m₀ : Machine} {j : Job} {m m' : Machine}

/-! ### What is asked for inside -/

namespace Progress

variable {α β : Type}

/-- What walks within a relation asks only for what it may ask for, where it has walked. -/
theorem Walks.asks {A : String → Prop} {T : Machine → Machine → Prop} {es : List Expr}
    (hT : Absorbs A T) {x : Progress α} (h : x.AsksFor j m') :
    ∀ {m : Machine}, x.Walks T es m →
      (∀ j m₁ r m₂, x.AsksFor j m₁ → j.Answers m₁ r m₂ → T m₁ m₂) → j.IsOf es ∧ T m m' := by
  induction h with
  | here j m' resume => exact fun hx _ => ⟨hx.2.1, hx.1⟩
  | later ha _ ih =>
      intro m hx answers
      have step := answers _ _ _ _ (.here ..) ha
      obtain ⟨inside, walked⟩ := ih (hx.2.2 _ _ step) fun j m₁ r m₂ h => answers j m₁ r m₂ (.later ha h)
      exact ⟨inside, hT.trans (hT.trans hx.1 step) walked⟩

end Progress

namespace Eval

/-- What makes something of a value asks for the value alone. -/
theorem asks_of_lift {α : Type} {f : Value → α} {e : Expr} (h : ((do
    let v ← e.eval
    pure (f v) : Eval α) m).AsksFor j m') : j = .expr e ∧ m' = m :=
  eq_of_asks_ask (Silent.asks_fst (fun _ => .pure _) h)

/-- What is done when the body of a loop has let it go on. -/
def afterTurn (cond : Expr) (update : Option Expr) (body : Stmt) : Eval Flow :=
  match update with
  | some u => do
      let _ ← u.eval
      ask (.loop cond update body)
  | none => ask (.loop cond update body)

/-- A turn of a loop asks for the condition, for the body if that is true, and for what comes after. -/
theorem asks_of_loopTurn {cond : Expr} {update : Option Expr} {body : Stmt}
    (h : (loopTurn cond update body m).AsksFor j m') :
    (j = .expr cond ∧ m' = m) ∨
      (∃ w, (Job.expr cond).Answers m (.ok w) m' ∧ w.isTruthy = true ∧ j = .stmt body) ∨
      ∃ m₁, m.Turns cond body m₁ ∧ (afterTurn cond update body m₁).AsksFor j m' := by
  rcases asks_of_bind h with first | ⟨w, m₁, tested, rest⟩
  · exact .inl (eq_of_asks_ask first)
  have tested := answers_of_ask tested
  split at rest
  · rename_i holds
    rcases asks_of_bind rest with inside | ⟨flow, m₂, ended, rest⟩
    · obtain ⟨rfl, rfl⟩ := eq_of_asks_ask inside
      exact .inr (.inl ⟨w, tested, holds, rfl⟩)
    · have turns (goes : flow = .normal ∨ flow = .continueLoop) : m.Turns cond body m₂ :=
        ⟨w, m₁, flow, tested, holds, answers_of_ask ended, goes⟩
      cases flow with
      | normal => exact .inr (.inr ⟨m₂, turns (.inl rfl), rest⟩)
      | continueLoop => exact .inr (.inr ⟨m₂, turns (.inr rfl), rest⟩)
      | breakLoop | ret v => cases rest
  · cases rest

end Eval

/-! ### What declarations ask for -/

namespace Eval

/-- To declare a function asks for nothing. -/
theorem silent_defineFunction (f : FuncDecl) : (defineFunction f).Silent :=
  .bind (.make _) fun _ => .update _ _ _

/-- To declare a class asks for nothing. -/
theorem silent_defineClass (d : ClassDecl) : (defineClass d).Silent := by
  have superclass : (superclassOf d).Silent := by
    rw [superclassOf]
    split
    · rename_i x _
      have found : (lookupClass x d.pos).Silent := .bind (.consult _ _) fun v => by
        cases v <;> first | exact .pure _ | exact .fail _ _
      exact .bind found fun _ => .pure _
    · exact .pure _
  have scope (c : Option Class) : (methodScope c).Silent := by
    cases c with
    | some c => exact .make (·.superFrame c)
    | none => exact .view (·.here)
  exact .bind superclass fun c => .bind (scope c) fun _ => .bind (.make _) fun _ => .update _ _ _

/-- To show a result asks for nothing. -/
theorem silent_echo (v : Value) : (echo v).Silent := by
  refine .bind (.view _) fun shown => ?_
  split
  · exact .bind (.textOf v) fun _ => .change _
  · exact .pure _

/-- Nor does it to show a result and give it. -/
theorem silent_shown (v : Value) : (do echo v; pure v : Eval Value).Silent :=
  .bind (silent_echo v) fun _ => .pure v

end Eval

/-- A declaration of a variable asks for its first value alone. -/
theorem VarDecl.asks_of_run {v : VarDecl} (h : (v.run m).AsksFor j m') :
    ∃ e, v.init = some e ∧ j = .expr e ∧ m' = m := by
  rw [VarDecl.run] at h
  cases hi : v.init with
  | none =>
      simp only [hi] at h
      exact absurd h (Silent.update _ _ _ _ _ _)
  | some e =>
      simp only [hi] at h
      exact ⟨e, rfl, eq_of_asks_ask (Silent.asks_fst (fun _ => .update _ _ _) h)⟩

/-- If checking has given the declaration, that value is what checking has made of the one written. -/
theorem VarDecl.asks_of_checked {v : VarDecl} {c : Checker} (h : ((v.check c).1.run m).AsksFor j m') :
    ∃ e, v.init = some e ∧ j = .expr (e.check (v.announce c).2).1.2 ∧ m' = m := by
  have made : (v.check c).1 = { v with init := v.init.map fun e => (e.check (v.announce c).2).1.2 } := by
    rw [check_eq]
    exact settle_fst v _ _
  rw [made] at h
  obtain ⟨_, init, rfl, rfl⟩ := VarDecl.asks_of_run h
  obtain ⟨e, hi, rfl⟩ := Option.map_eq_some_iff.mp init
  exact ⟨e, hi, rfl, rfl⟩

/-- Any other declaration asks for nothing. -/
theorem Decl.asks_of_run {d : Decl} (h : (d.run m).AsksFor j m') : ∃ v, d = .var v ∧
    (v.run m).AsksFor j m' := by
  cases d with
  | var v => exact ⟨v, rfl, h⟩
  | func f => exact absurd h (silent_defineFunction f _ _ _)
  | cls d => exact absurd h (silent_defineClass d _ _ _)

/-! ### What is asked for at a point -/

namespace Program

/-- What a run asks for here lies ahead of it at a point, or it is a call. -/
def Located (p : Program) (checked : Checked) (m₀ : Machine) : Job → Machine → Prop
  | .apply .., _ => True
  | .expr e, m   => ∃ c e₀, p.Evaluates checked m₀ c e₀ e m
  | j, m         => ∃ a, p.Comes checked m₀ a ∧ a.machine = m ∧ a.job = some j

variable {c : Checker}

/-- What a run asks for at the point of an expression is the expression there. -/
theorem Comes.expr {e : Expr} (h : p.Comes checked m₀ ⟨c, .expr e, m⟩) :
    p.Located checked m₀ (.expr (e.check c).1.2) m := ⟨c, e, .whole h⟩

/-- What a run asks for at the point of a statement is the statement there. -/
theorem Comes.stmt {s : Stmt} (h : p.Comes checked m₀ ⟨c, .stmt s, m⟩) :
    p.Located checked m₀ (.stmt (s.check c).1) m := ⟨_, h, rfl, rfl⟩

/-- What a run asks for at the point of a loop is the loop there. -/
theorem Comes.loop {cond : Expr} {update : Option Expr} {s : Stmt}
    (h : p.Comes checked m₀ ⟨c, .loop cond update s, m⟩) :
    p.Located checked m₀ (.loop (cond.check c).1.2
      (update.map fun u => (u.check (cond.checkCondition c).2).1.2)
      (s.check (c.intoLoop cond update)).1) m := ⟨_, h, rfl, rfl⟩

/-! ### What is asked for by what lies ahead -/

/-- Statements ask for one another in their order. -/
theorem Comes.asks_of_stmts : ∀ {ss : List Stmt} {c : Checker} {m : Machine},
    p.Comes checked m₀ ⟨c, .body [] ss, m⟩ → (runStmts (Stmt.checkAll ss c).1 m).AsksFor j m' →
      p.Located checked m₀ j m'
  | [], c, m, _, asks => by
      rw [Stmt.checkAll] at asks
      cases asks
  | s :: ss, c, m, comes, asks => by
      rw [Stmt.checkAll_apply, runStmts] at asks
      rcases asks_of_bind asks with first | ⟨flow, m₁, ran, rest⟩
      · obtain ⟨rfl, rfl⟩ := eq_of_asks_ask first
        exact (comes.next .first).stmt
      · cases flow with
        | normal => exact asks_of_stmts (comes.next (.rest (answers_of_ask ran))) rest
        | _ => cases rest

/-- Variables and statements that share a frame ask for their pieces in their order. -/
theorem Comes.asks_of_body : ∀ {vs : List VarDecl} {ss : List Stmt} {c : Checker} {m : Machine},
    p.Comes checked m₀ ⟨c, .body vs ss, m⟩ →
    (runBody (vs.mapM VarDecl.check c).1
      (Stmt.checkAll ss (vs.mapM VarDecl.check c).2).1 m).AsksFor j m' → p.Located checked m₀ j m'
  | [], ss, c, m, comes, asks => comes.asks_of_stmts asks
  | v :: vs, ss, c, m, comes, asks => by
      rw [Check.mapM_apply] at asks
      have parted (v : VarDecl) (vs : List VarDecl) (ss : List Stmt) :
          runBody (v :: vs) ss = v.run >>= fun _ => runBody vs ss :=
        bind_assoc v.run (fun _ => vs.forM VarDecl.run) fun _ => runStmts ss
      rw [parted] at asks
      rcases asks_of_bind asks with first | ⟨_, m₁, ran, rest⟩
      · obtain ⟨e, init, rfl, rfl⟩ := VarDecl.asks_of_checked first
        exact (comes.next (.init init)).expr
      · exact asks_of_body (comes.next (.var ran)) rest

/-- A turn of a loop asks for its pieces, and then for the loop again. -/
theorem Comes.asks_of_loop {cond : Expr} {update : Option Expr} {s : Stmt}
    (comes : p.Comes checked m₀ ⟨c, .loop cond update s, m⟩)
    (asks : (loopTurn (cond.check c).1.2 (update.map fun u => (u.check (cond.checkCondition c).2).1.2)
      (s.check (c.intoLoop cond update)).1 m).AsksFor j m') : p.Located checked m₀ j m' := by
  rcases asks_of_loopTurn asks with ⟨rfl, rfl⟩ | ⟨w, tested, holds, rfl⟩ | ⟨m₁, turns, again⟩
  · exact (comes.next .test).expr
  · exact (comes.next (.turn tested holds)).stmt
  · cases update with
    | none =>
        obtain ⟨rfl, rfl⟩ := eq_of_asks_ask again
        exact (comes.next (.again turns)).loop
    | some u =>
        rcases asks_of_bind again with first | ⟨w, m₂, updated, rest⟩
        · obtain ⟨rfl, rfl⟩ := eq_of_asks_ask first
          exact (comes.next (.update turns)).expr
        · obtain ⟨rfl, rfl⟩ := eq_of_asks_ask rest
          exact (comes.next (.updated turns (answers_of_ask updated))).loop

/-- What is made of an `init` clause starts a loop. -/
theorem Comes.asks_of_init {pos : Position} {init : ForInit} {cond u : Expr} {s : Stmt}
    {Γ : Scene} {ks : List FrameId} (taken : init.check.Taken c.entered Γ ks)
    (comes : p.Comes checked m₀ ⟨c, .stmt (.forLoop pos init cond u s), m⟩)
    (asks : (runInit (init.check c.entered).1 m.pushScope).AsksFor j m') :
    p.Located checked m₀ j m' := by
  cases init with
  | decl v =>
      obtain ⟨e, init, rfl, rfl⟩ := VarDecl.asks_of_checked asks
      exact (comes.next (.forVar init)).expr
  | expr e =>
      rw [(ForInit.expr_taken taken).1] at asks
      obtain ⟨rfl, rfl⟩ := asks_of_lift (f := fun _ => ()) asks
      exact (comes.next .forExpr).expr

/-- A statement asks for the statements and expressions inside it, where checking has taken them up. -/
theorem Comes.asks_of_stmt {s : Stmt} {Γ : Scene} {ks : List FrameId} (taken : s.check.Taken c Γ ks)
    (comes : p.Comes checked m₀ ⟨c, .stmt s, m⟩) (asks : ((s.check c).1.start m).AsksFor j m') :
    p.Located checked m₀ j m' := by
  cases s with
  | block pos vs ss =>
      rw [(Stmt.block_taken taken).1, Stmt.start] at asks
      exact (comes.next .block).asks_of_body (asks_of_inBlock asks)
  | ifElse pos cond s t =>
      rw [(Stmt.ifElse_taken taken).1, Stmt.start] at asks
      rcases asks_of_bind asks with first | ⟨w, m₁, tested, rest⟩
      · obtain ⟨rfl, rfl⟩ := eq_of_asks_ask first
        exact (comes.next .cond).expr
      have tested := answers_of_ask tested
      split at rest
      · obtain ⟨rfl, rfl⟩ := eq_of_asks_ask rest
        exact (comes.next (.yes tested ‹_›)).stmt
      · obtain ⟨rfl, rfl⟩ := eq_of_asks_ask rest
        exact (comes.next (.no tested (Bool.eq_false_iff.mpr ‹_›))).stmt
  | whileLoop pos cond s =>
      rw [(Stmt.whileLoop_taken taken).1, Stmt.start] at asks
      obtain ⟨rfl, rfl⟩ := eq_of_asks_ask asks
      exact (comes.next .whileLoop).loop
  | forLoop pos init cond u s =>
      obtain ⟨made, starts, -⟩ := Stmt.forLoop_taken taken
      rw [made, Stmt.start] at asks
      rcases asks_of_bind (asks_of_inBlock asks) with first | ⟨_, m₁, ran, rest⟩
      · exact comes.asks_of_init starts first
      · obtain ⟨rfl, rfl⟩ := eq_of_asks_ask rest
        exact (comes.next (.forLoop ran)).loop
  | ret pos e =>
      cases e with
      | none => cases asks
      | some e =>
          rw [(Stmt.ret_taken taken).1, Stmt.start] at asks
          obtain ⟨rfl, rfl⟩ := asks_of_lift asks
          exact (comes.next .ret).expr
  | expr pos e =>
      rw [(Stmt.expr_taken taken).1, Stmt.start] at asks
      obtain ⟨rfl, rfl⟩ := asks_of_lift (f := fun _ => Flow.normal) asks
      exact (comes.next .expr).expr
  | breakLoop pos | continueLoop pos | empty pos => cases asks

/-- A call asks for the pieces of a function that the program declares. -/
theorem asks_of_apply (h : p.check = .ok checked) {settings : Settings} {stdin : String}
    {callee : Value} {args : List Value} {pos : Position}
    (runs : (checked.program.run (.start settings stdin)).Involves (.apply callee args pos) m)
    (asks : (applyTo callee args pos m).AsksFor j m') :
    p.Located checked (.start settings stdin) j m' := by
  obtain ⟨g, m₁, enters, asks⟩ := asks_of_applyTo asks
  obtain ⟨W, calls⟩ := calls_of_involves h runs
  obtain ⟨W', framed, Γ, sees, -, declared⟩ := enters.ok calls
  obtain ⟨f, c, ks, home, taken, made, moments⟩ := taken_of_declares h declared
  have comes : p.Comes checked (.start settings stdin) ⟨c, .func f g.scope args, m₁⟩ :=
    .call runs enters moments taken made (framed.outside home sees.sees)
  obtain ⟨arity, m₂, bound, asks⟩ := asks_of_callClosure asks
  rw [made, FuncDecl.checkBody_fst] at arity bound asks
  exact (comes.next (.entered arity bound)).asks_of_body asks

/-! ### What a program asks for -/

/-- Declarations ask for the first values of variables, in their order. -/
theorem Comes.asks_of_decls (h : p.check = .ok checked) {settings : Settings} {stdin : String} :
    ∀ {ds : List Decl} {c : Checker} {m : Machine},
      p.Comes checked (.start settings stdin) ⟨c, .decls ds, m⟩ →
      (((ds.mapM Decl.check c).1.forM Decl.run) m).AsksFor j m' →
        p.Located checked (.start settings stdin) j m'
  | [], c, m, _, asks => by
      rw [List.mapM_nil] at asks
      cases asks
  | d :: ds, c, m, comes, asks => by
      rw [Check.mapM_apply] at asks
      rcases asks_of_bind (x := (d.check c).1.run) (f := fun _ => List.forM _ Decl.run) asks with
        first | ⟨_, m₁, ran, rest⟩
      · cases d with
        | var v =>
            obtain ⟨e, init, rfl, rfl⟩ := VarDecl.asks_of_checked first
            exact (comes.next (.global init)).expr
        | func f | cls d =>
            obtain ⟨v, var, -⟩ := Decl.asks_of_run first
            cases var
      · exact asks_of_decls h (comes.next (.decl ran)) rest

/-- What a program asks for itself lies at a point, or it is the call of `main`. -/
theorem asks_of_run (h : p.check = .ok checked) {settings : Settings} {stdin : String}
    (asks : (checked.program.run (.start settings stdin)).AsksFor j m) :
    p.Located checked (.start settings stdin) j m := by
  cases hmain : Program.function? checked.program "main" with
  | none =>
      simp only [Program.run, hmain] at asks
      cases asks
  | some main =>
      simp only [Program.run, hmain] at asks
      split at asks
      · rcases asks_of_bind asks with declaring | ⟨_, m₁, -, calling⟩
        · have made : checked.program = (p.mapM Decl.check Checker.start).1 := (clean_of_check h).2
          rw [made] at declaring
          exact Comes.asks_of_decls h .start declaring
        · rcases asks_of_bind calling with looking | ⟨entry, m₂, -, entering⟩
          · exact absurd looking (Silent.consult _ _ _ _ _)
          · obtain ⟨rfl, -⟩ := eq_of_asks_ask (Silent.asks_fst silent_shown entering)
            trivial
      · cases asks

/-- An expression asks for parts of it and for calls, from where nothing has been named. -/
theorem asks_of_expr {e : Expr} (asks : (e.start m).AsksFor j m') :
    j.IsOf e.subexprs ∧ m.Quiet m' :=
  Progress.Walks.asks (A := (· ∈ e.assigned)) .quiet asks (e.local_start _ .quiet m)
    fun _ _ _ _ _ answers => answers.quiet

/-- **Where a run comes to.**  Whatever a run of an accepted program asks for lies ahead of it at a point,
unless it is a call. -/
theorem comes_to (h : p.check = .ok checked) {settings : Settings} {stdin : String}
    (hi : (checked.program.run (.start settings stdin)).Involves j m) :
    p.Located checked (.start settings stdin) j m := by
  induction hi with
  | itself asks => exact asks_of_run h asks
  | @within j j' m m' involves asks located =>
      cases j with
      | apply callee args pos => exact asks_of_apply h involves asks
      | expr e =>
          obtain ⟨c, e₀, evaluates⟩ := located
          have parts := (asks_of_expr asks).1
          cases j' with
          | expr a => exact ⟨c, e₀, .part evaluates asks⟩
          | apply callee args pos => trivial
          | _ => cases parts
      | stmt s =>
          obtain ⟨⟨c, ahead, m⟩, comes, rfl, job⟩ := located
          cases ahead with
          | stmt s =>
              cases job
              cases comes.stands h with
              | stmt _ taken _ => exact comes.asks_of_stmt taken asks
          | _ => cases job
      | loop cond update body =>
          obtain ⟨⟨c, ahead, m⟩, comes, rfl, job⟩ := located
          cases ahead with
          | loop cond update s =>
              cases job
              exact comes.asks_of_loop asks
          | _ => cases job

/-! ### Where names lead -/

/-- In this state, checking has found the name in the frame `k`, with this meaning. While the
expression is evaluated from the machine on, the name leads to the frame `i`. -/
structure Resolves (p : Program) (checked : Checked) (m₀ : Machine) (c : Checker) (e : Expr)
    (m : Machine) (x : String) (known : Symbol) (k i : FrameId) : Prop where
  looked : c.scopes.nearest? c.here x = some (k, some known)
  leads  : ∀ m', m' = m ∨ (e.start m).GoesOn m' → ∃ b, m'.scopes.nearest? m'.here x = some (i, b)
  agrees : p.Agrees checked m₀ x known k i

/-- While an expression is evaluated, nothing gives names to frames that were there. -/
theorem quiet_of_goesOn {e : Expr} (hg : (e.start m).GoesOn m') : m.Quiet m' :=
  Progress.Walks.goesOn (A := (· ∈ e.assigned)) .quiet hg (e.local_start _ .quiet m)
    fun _ _ _ _ _ answers => answers.quiet

/-- Where the frames that a run sees follow those of checking, a name with a meaning leads to a frame
like the one in which checking has found it. -/
theorem Spot.resolves {W : World} {Γ : Scene} {ks : List FrameId} {e e₀ : Expr}
    (spot : p.Spot checked m₀ Γ.levels ks m) (taken : e₀.check.Taken c Γ ks)
    (framed : Site.Framed (p.plan checked) ⟨W, m⟩) {x : String} {known : Symbol}
    (means : Γ.means x = some known) : ∃ k i, p.Resolves checked m₀ c e m x known k i := by
  have named (x : String) (bound : (m.scopes.binding? 1 x).isSome = true) :
      ∃ d ∈ checked.program, d.name = x := by
    obtain ⟨met, means⟩ := Option.isSome_iff_exists.mp ((framed.names 1 x).symm.trans bound)
    obtain ⟨d, hd, hn, -⟩ := framed.top x met means
    exact ⟨d, hd, hn⟩
  have gathers := taken.levels
  rw [taken.chain] at gathers
  obtain ⟨k, i, b, looked, leads, agrees⟩ :=
    spot.follows.resolves named gathers (Option.join_eq_some_iff.mp means)
  rw [← taken.chain] at looked
  refine ⟨k, i, looked, fun m' later => ?_, agrees⟩
  have quiet : m.Quiet m' := later.elim (fun e => e ▸ .refl _ _ m') quiet_of_goesOn
  have chain := quiet.chain spot.inside
  rw [Forest.nearest?, chain]
  exact Forest.nearestIn_isSome (fun i hi => quiet.names i (spot.inside i hi) x) leads

variable {settings : Settings} {stdin : String} {e e₀ : Expr}

/-- What is evaluated at a point is part of what checking has taken up there, and the frames that the
run sees while it evaluates that are those of the point. -/
theorem Evaluates.spot (h : p.check = .ok checked)
    (evaluates : p.Evaluates checked (.start settings stdin) c e₀ e m) :
    (c, .expr e₀) ∈ p.moments ∧ e ∈ (e₀.check c).1.2.subexprs ∧ ∃ Γ ks, e₀.check.Taken c Γ ks ∧
      p.Spot checked (.start settings stdin) Γ.levels ks m := by
  induction evaluates with
  | whole comes =>
      cases comes.stands h with
      | expr moment taken spot => exact ⟨moment, Expr.self_mem_subexprs _, _, _, taken, spot⟩
  | part _ asks ih =>
      obtain ⟨moment, inside, Γ, ks, taken, spot⟩ := ih
      obtain ⟨part, quiet⟩ := asks_of_expr asks
      exact ⟨moment, Expr.mem_subexprs_trans inside part, Γ, ks, taken, spot.quiet quiet⟩

/-- What checking gives is sound for what it knows where it takes up the expression. -/
theorem Evaluates.sound (h : p.check = .ok checked)
    (evaluates : p.Evaluates checked (.start settings stdin) c e₀ e m) {Γ : Scene} {ks : List FrameId}
    (taken : e₀.check.Taken c Γ ks) : e.Sound Γ.classes Γ := by
  have sound : (e₀.check c).1.2.Sound Γ.classes Γ :=
    ((e₀.check_leads.clean trivial c taken.toAt taken.clean).2.sound taken.lawful _ (.refl _)).sound
  exact fun s hs => sound s (Expr.mem_subexprs_trans (evaluates.spot h).2.1 hs)

end Program

/-- **Names lead where checking has found them.**  Whatever expression a run of an accepted program
evaluates, it is at an occurrence in the program that checking takes up in some state. Whichever
occurrence it is at: the frames that the run sees follow, one for one, those that checking sees in that
state, and each name that the expression resolves leads to a frame like the one in which checking has
found the name there. A name of a construct leads to a frame that was opened for that construct, and
one of the program to the frame of the program. A predefined name that the program takes for itself
may lead there too. -/
theorem run_resolves_names (h : p.check = .ok checked) (settings : Settings) (stdin : String)
    {e : Expr} {m : Machine} {resume : Except Error Value → Machine → Progress Value}
    (hq : (checked.program.run (.start settings stdin)).Steps (.waiting (.expr e) m resume)) :
    (∃ c e₀, p.Evaluates checked (.start settings stdin) c e₀ e m) ∧
    ∀ c e₀, p.Evaluates checked (.start settings stdin) c e₀ e m →
      (c, .expr e₀) ∈ p.moments ∧ e ∈ (e₀.check c).1.2.subexprs ∧
      (∃ Γ, c.At Γ ∧ p.Follows checked (.start settings stdin) m.scopes Γ.levels
        (c.scopes.chain c.here) (m.scopes.chain m.here)) ∧
      ∀ x ∈ e.resolved, ∃ known k i,
        p.Resolves checked (.start settings stdin) c e m x known k i := by
  refine ⟨Program.comes_to h ((Progress.involves_iff (j := .expr e)).mpr ⟨resume, hq⟩), fun c e₀ evaluates => ?_⟩
  obtain ⟨moment, inside, Γ, ks, taken, spot⟩ := evaluates.spot h
  obtain ⟨W, _, asked, -⟩ := ((Program.meets_run h settings stdin).steps (sound_kept _) hq).asked
  refine ⟨moment, inside, ⟨Γ, taken.toAt, taken.chain ▸ spot.follows⟩, fun x hx => ?_⟩
  obtain ⟨known, means⟩ := Option.isSome_iff_exists.mp ((evaluates.sound h taken).means_of_resolved hx)
  exact ⟨known, spot.resolves taken asked.ok.toFramed means⟩

/-- A run sees at least as many frames as checking does. -/
theorem Program.Follows.length_le {s : Forest Value} {Ls : List Level} {ks is : List FrameId}
    (h : p.Follows checked m₀ s Ls ks is) : ks.length ≤ is.length := by
  induction h with
  | outside h => cases h <;> simp only [List.length_cons, List.length_nil] <;> omega
  | inner _ _ _ _ ih => exact Nat.succ_le_succ ih

/-- `int g = 1; int f(int a) { int b = 2; { int b = 3; scanf("%d%d%d", a, b, g); }`
`scanf("%d%d%d", a, b, g); return g; } int main() { return f(3); }` -/
def nesting : Program :=
  let b (n : Int64) : VarDecl := ⟨.ofLine 1, .int, "b", some (.literal .blank (.int n))⟩
  let reads : Stmt := .expr (.ofLine 1) (.scanf .blank (.literal .blank (.str "%d%d%d"))
    [.name .blank "a", .name .blank "b", .name .blank "g"])
  [.var ⟨.ofLine 1, .int, "g", some (.literal .blank (.int 1))⟩,
    .func ⟨.ofLine 1, .int, "f", [⟨.int, "a"⟩], [b 2], [.block (.ofLine 1) [b 3] [reads], reads,
      .ret (.ofLine 1) (some (.name .blank "g"))]⟩,
    .func ⟨.ofLine 2, .int, "main", [], [], [.ret (.ofLine 2)
      (some (.call .blank (.name .blank "f") [.literal .blank (.int 3)]))]⟩]

/-- Of two occurrences that read the same, the run is at the second. It sees no frame of the block, and so
it is not where checking has found the variable of the block, but where it has found the other one. -/
theorem run_resolves_names_nesting : ∃ checked, nesting.check = .ok checked ∧ ∃ e m resume,
    (checked.program.run (.start .standard "4 5 6 7 8 9")).Steps (.waiting (.expr e) m resume) ∧
    e.resolved = ["a", "b", "g"] ∧ m.scopes.chain m.here = [3, 1, 0] ∧ ∃ c e₀,
      nesting.Evaluates checked (.start .standard "4 5 6 7 8 9") c e₀ e m ∧
      (c, .expr e₀) ∈ nesting.moments ∧ e ∈ (e₀.check c).1.2.subexprs ∧
      c.scopes.chain c.here = [2, 1, 0] ∧ ∀ x ∈ ["a", "b", "g"], ∃ known k i,
        nesting.Resolves checked (.start .standard "4 5 6 7 8 9") c e m x known k i := by
  have accepted : nesting.admits (fun checked =>
      (checked.program.run (.start .standard "4 5 6 7 8 9")).waitsFor 14 fun e m =>
        e.resolved == ["a", "b", "g"] && m.scopes.chain m.here == [3, 1, 0]) = true := by decide +kernel
  have places : nesting.moments.all (fun
      | (c, .expr e) => !(e.check c).1.2.subexprs.any (·.resolved == ["a", "b", "g"]) ||
          c.scopes.chain c.here == [2, 1, 0] || c.scopes.chain c.here == [3, 2, 1, 0]
      | _            => true) = true := by decide +kernel
  obtain ⟨checked, hc, test⟩ := Program.of_admits accepted
  obtain ⟨e, m, resume, hq, test⟩ := Progress.steps_of_waitsFor test
  rw [Bool.and_eq_true, beq_iff_eq, beq_iff_eq] at test
  obtain ⟨resolved, sees⟩ := test
  obtain ⟨⟨c, e₀, evaluates⟩, all⟩ := run_resolves_names hc .standard "4 5 6 7 8 9" hq
  obtain ⟨moment, inside, ⟨Γ, -, follows⟩, leads⟩ := all c e₀ evaluates
  have place : c.scopes.chain c.here = [2, 1, 0] := by
    have found := List.all_eq_true.mp places _ moment
    simp only [Bool.or_eq_true, Bool.not_eq_true', List.any_eq_false, beq_iff_eq] at found
    rcases found with (none | outer) | inner
    · exact absurd resolved (none e inside)
    · exact outer
    · have le := follows.length_le
      rw [sees, inner] at le
      exact absurd le (by decide)
  exact ⟨checked, hc, e, m, resume, hq, resolved, sees, c, e₀, evaluates, moment, inside, place,
    resolved ▸ leads⟩

def Expr.isNamed (x : String) : Expr → Bool
  | .name _ y => y == x
  | _         => false

/-- `int f() { return len("ab"); } int len(string s) { return 42; } int main() { return f(); }` -/
def taking : Program := [.func ⟨.ofLine 1, .int, "f", [], [], [.ret (.ofLine 1)
    (some (.call .blank (.name .blank "len") [.literal .blank (.str "ab")]))]⟩,
  .func ⟨.ofLine 1, .int, "len", [⟨.str, "s"⟩], [],
    [.ret (.ofLine 1) (some (.literal .blank (.int 42)))]⟩,
  .func ⟨.ofLine 1, .int, "main", [], [],
    [.ret (.ofLine 1) (some (.call .blank (.name .blank "f") []))]⟩]

/-- Wherever checking takes up the name, it finds the predefined function, and a run finds the
function of the program. -/
theorem run_leaves_predefined : ∃ checked, taking.check = .ok checked ∧
    (∀ c e, (c, .expr e) ∈ taking.moments → ∀ a ∈ (e.check c).1.2.subexprs,
      a.isNamed "len" = true → ∃ b, c.scopes.nearest? c.here "len" = some (0, b)) ∧
    ∃ e m resume,
      (checked.program.run (.start .standard "")).Steps (.waiting (.expr e) m resume) ∧
      e.isNamed "len" = true ∧ ∃ b, m.scopes.nearest? m.here "len" = some (1, b) := by
  have found {α : Type} {r : Option (FrameId × Option α)} {k : FrameId}
      (h : r.map (·.1) = some k) : ∃ b, r = some (k, b) := by
    obtain ⟨⟨i, b⟩, e, rfl⟩ := Option.map_eq_some_iff.mp h
    exact ⟨b, e⟩
  have looked : taking.moments.all (fun
      | (c, .expr e) => !(e.check c).1.2.subexprs.any (·.isNamed "len") ||
          (c.scopes.nearest? c.here "len").map (·.1) == some 0
      | _            => true) = true := by decide +kernel
  have accepted : taking.admits (fun checked =>
      (checked.program.run (.start .standard "")).waitsFor 7 fun e m => e.isNamed "len" &&
        (m.scopes.nearest? m.here "len").map (·.1) == some 1) = true := by decide +kernel
  obtain ⟨checked, hc, test⟩ := Program.of_admits accepted
  obtain ⟨e, m, resume, hq, test⟩ := Progress.steps_of_waitsFor test
  rw [Bool.and_eq_true, beq_iff_eq] at test
  refine ⟨checked, hc, fun c e moment a inside named => found ?_, e, m, resume, hq, test.1,
    found test.2⟩
  have looked := List.all_eq_true.mp looked _ moment
  rw [Bool.or_eq_true, beq_iff_eq, Bool.not_eq_true', List.any_eq_false] at looked
  exact looked.resolve_left fun none => none a inside named

end Brace
