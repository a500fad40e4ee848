import Brace.Proofs.Run.Frames
import Brace.Proofs.Safety.Scopes

/-!
# Safety — frames at the points of a run

Wherever checking and a run come to, the frames that the run sees follow those that checking sees
(`Program.Stands`). This is kept from one point to the next: the frame of a block, a loop or a call is
opened by both, and both give it the same names in the same order. What lies between two points leaves
the frames that were there with the names that they had.

* `Program.Stands.next`: what one step keeps.
* `Program.Comes.stands`: so it is at all points that a run comes to.
-/

namespace Brace

open Eval

variable {p : Program} {checked : Checked} {m₀ : Machine}

/-! ### What holds at a point -/

/-- Declarations of the program lie ahead, where checking and the run know the same names. -/
structure Program.Declaring (p : Program) (checked : Checked) (c : Checker) (ds : List Decl)
    (Γ : Scene) (s : Site) : Prop where
  taken   : (ds.mapM Decl.check).Taken c Γ [1, 0]
  global  : Γ.Global
  top     : Top (p.plan checked) Γ s
  moments : ∀ a ∈ Check.each Decl.check Decl.moments ds c, a ∈ p.moments
  inside  : ∀ d ∈ (ds.mapM Decl.check c).1, d ∈ checked.program
  sound   : Decl.SoundAll p.classes Γ (ds.mapM Decl.check c).1
  scenes  : ∀ a ∈ Decl.scenes Γ (ds.mapM Decl.check c).1, a ∈ checked.program.scenes

/-- Checking takes up what lies ahead and reports nothing, and the frames that the run sees follow those
that checking sees. The frame that variables are declared in is open for them. -/
inductive Program.Stands (p : Program) (checked : Checked) (m₀ : Machine) : Point → Prop where
  | decls {W : World} {Γ : Scene} {c : Checker} {ds : List Decl} {m : Machine}
      (declaring : p.Declaring checked c ds Γ ⟨W, m⟩) : Stands p checked m₀ ⟨c, .decls ds, m⟩
  | func {Γ : Scene} {ks : List FrameId} {c : Checker} {f : FuncDecl} {scope : Handle}
      {args : List Value} {m : Machine} (moments : ∀ a ∈ f.moments c, a ∈ p.moments)
      (taken : f.checkBody.Taken c Γ ks) (inside : ∀ i ∈ m.scopes.chain scope, i < m.scopes.next)
      (outside : p.Outside checked m.scopes Γ.levels ks (m.scopes.chain scope)) :
      Stands p checked m₀ ⟨c, .func f scope args, m⟩
  | body {Γ : Scene} {k : FrameId} {ks : List FrameId} {c : Checker} {vs : List VarDecl}
      {ss : List Stmt} {m : Machine}
      (moments : ∀ a ∈ Check.each VarDecl.check VarDecl.moments vs c ++
        Stmt.momentsAll ss (vs.mapM VarDecl.check c).2, a ∈ p.moments)
      (vars : (vs.mapM VarDecl.check).Taken c Γ (k :: ks))
      (stmts : (Stmt.checkAll ss).Taken (vs.mapM VarDecl.check c).2 (Γ.declareAll vs) (k :: ks))
      (plain : Γ.top.joined = false) (room : p.Room checked m₀ Γ.top.names Γ.outer k ks m) :
      Stands p checked m₀ ⟨c, .body vs ss, m⟩
  | stmt {Γ : Scene} {ks : List FrameId} {c : Checker} {s : Stmt} {m : Machine}
      (moments : ∀ a ∈ s.moments c, a ∈ p.moments) (taken : s.check.Taken c Γ ks)
      (spot : p.Spot checked m₀ Γ.levels ks m) : Stands p checked m₀ ⟨c, .stmt s, m⟩
  | loop {Γ : Scene} {ks : List FrameId} {c : Checker} {cond : Expr} {update : Option Expr}
      {s : Stmt} {m : Machine} (tested : (c, .expr cond) ∈ p.moments) (test : cond.check.Taken c Γ ks)
      (updates : ∀ u, update = some u → ((cond.checkCondition c).2, .expr u) ∈ p.moments ∧
        u.check.Taken (cond.checkCondition c).2 Γ ks)
      (moments : ∀ a ∈ s.moments (c.intoLoop cond update), a ∈ p.moments)
      (taken : s.check.Taken (c.intoLoop cond update) (Γ.looping true) ks)
      (spot : p.Spot checked m₀ Γ.levels ks m) : Stands p checked m₀ ⟨c, .loop cond update s, m⟩
  | expr {Γ : Scene} {ks : List FrameId} {c : Checker} {e : Expr} {m : Machine}
      (moment : (c, .expr e) ∈ p.moments) (taken : e.check.Taken c Γ ks)
      (spot : p.Spot checked m₀ Γ.levels ks m) : Stands p checked m₀ ⟨c, .expr e, m⟩

/-! ### What a run does between points -/

namespace Eval

variable {α β : Type} {m m' : Machine}

/-- A write that does not fail has passed its check. -/
theorem of_steps_update {pos : Position} {check : Machine → Except Cause β}
    {write : β → Machine → Machine} {r : Unit}
    (h : (update pos check write m).Steps (.finished (.ok r) m')) :
    ∃ b, check m = .ok b ∧ m' = write b m := by
  simp only [update] at h
  split at h
  · cases h
  · cases h
    exact ⟨_, ‹_›, rfl⟩

end Eval

/-- A variable of the current frame gets its name when it has its first value. -/
theorem VarDecl.quiet_of_run {v : VarDecl} {m m' : Machine}
    (h : (v.run m).Steps (.finished (.ok ()) m')) :
    ∃ m₁ b, m.Quiet m₁ ∧ m' = m₁.bind m₁.here.frame v.name b := by
  rw [VarDecl.run] at h
  cases hi : v.init with
  | none =>
      simp only [hi] at h
      obtain ⟨i, e, rfl⟩ := of_steps_update h
      cases Forest.eq_of_declarable e
      exact ⟨m, none, .refl _ _ m, rfl⟩
  | some e =>
      simp only [hi] at h
      obtain ⟨x, m₁, evaluated, defined⟩ := steps_of_bind h
      obtain ⟨i, e, rfl⟩ := of_steps_update defined
      cases Forest.eq_of_definable e
      exact ⟨m₁, some x, (answers_of_ask evaluated).quiet, rfl⟩

/-- Checking keeps the name of a variable. -/
theorem VarDecl.name_check (v : VarDecl) (c : Checker) : (v.check c).1.name = v.name := by
  rw [check_eq]
  show (v.settle (v.announce c).1 (v.announce c).2).1.name = v.name
  rw [settle_fst]

/-- The first value of a variable has a moment of its own. -/
theorem VarDecl.mem_moments {v : VarDecl} {c : Checker} {e : Expr} (h : v.init = some e) :
    ((v.announce c).2, .expr e) ∈ v.moments c := by
  rw [moments, h]
  exact List.mem_singleton_self _

/-- There are no more variables. -/
theorem Check.Taken.none {α : Type} {x : Check α} {c : Checker} {Γ : Scene} {ks : List FrameId}
    (h : x.Taken c Γ ks) : (([] : List VarDecl).mapM VarDecl.check).Taken c Γ ks :=
  ⟨h.toAt, h.lawful, h.chain, rfl⟩

/-- A turn of a loop leaves the scope as it was. -/
theorem Machine.Turns.quiet {m m' : Machine} {cond : Expr} {body : Stmt}
    (h : m.Turns cond body m') : m.Quiet m' := by
  obtain ⟨v, m₁, flow, tested, -, ended, -⟩ := h
  exact tested.quiet.after ended.quiet

/-- Where a call may be asked for, the function that is called in the end is fit for the run. -/
theorem Machine.Enters.ok {P : Plan} {W : World} {m m' : Machine} {callee : Value}
    {args : List Value} {g : Closure} (calls : P.Calls callee args ⟨W, m⟩)
    (enters : m.Enters callee g m') : ∃ W', Site.Framed P ⟨W', m'⟩ ∧ g.Ok P ⟨W', m'⟩ := by
  cases enters with
  | function => exact ⟨W, calls.ok.toFramed, calls.fit⟩
  | @init k method found =>
      have unsettled := calls.classless k rfl
      have made : Site.Reaches P none ⟨W, m⟩ ⟨W, (m.newObject k).2⟩ := calls.ok.newObject
      have fit : k.Ok P ⟨W, (m.newObject k).2⟩ :=
        Class.Ok.grown made.later.toGrown calls.ok.toFramed made.ok.toFramed calls.fit
      obtain ⟨ht, hm⟩ := Class.mem_of_methodIn found
      have bound : (Eval.make (·.bindMethod (m.newObject k).1 method)).Gives P none _ _ :=
        Gives.bindMethod made.ok (o := (m.newObject k).1) ⟨unsettled, fit⟩ (fit.tiers _ ht) hm
      obtain ⟨W', reached, ok⟩ := bound
      exact ⟨W', reached.ok.toFramed, ok⟩

namespace Program

variable {c : Checker} {Γ : Scene} {k : FrameId} {ks : List FrameId} {m m' : Machine}

/-- The names of an open frame are those of the scene. -/
theorem Room.at (h : p.Room checked m₀ Γ.top.names Γ.outer k ks m) (plain : Γ.top.joined = false) :
    p.Spot checked m₀ Γ.levels (k :: ks) m := by
  have e : Γ.levels = ⟨Γ.top.names, false⟩ :: Γ.outer := by rw [← plain]; rfl
  rw [e]
  exact h.spot

/-- The open frame gets the name of a variable. -/
theorem Room.declare {v : VarDecl} (room : p.Room checked m₀ Γ.top.names Γ.outer k ks m)
    (runs : ((v.check c).1.run m).Steps (.finished (.ok ()) m')) :
    p.Room checked m₀ (Γ.declare v).top.names (Γ.declare v).outer k ks m' := by
  obtain ⟨m₁, b, quiet, rfl⟩ := VarDecl.quiet_of_run runs
  rw [v.name_check c]
  exact (room.quiet quiet).put v.name v.ty b

/-- While the first value of a variable is evaluated, checking knows of the name, but not what it
means. -/
theorem Room.hidden {v : VarDecl} (new : Γ.own v.name = false) (plain : Γ.top.joined = false)
    (room : p.Room checked m₀ Γ.top.names Γ.outer k ks m) :
    p.Spot checked m₀ (Γ.hide v.name).levels (k :: ks) m := by
  have e : (Γ.hide v.name).levels = ⟨Γ.top.names.put v.name none, false⟩ :: Γ.outer := by
    rw [← plain]
    rfl
  rw [e]
  exact room.hide new

/-- Parameters are bound one after another. -/
theorem Room.params {h : Handle} (pos : Position) : ∀ {xs : List Param} {vs : List Value} {Γ : Scene}
    {m : Machine}, xs.length = vs.length →
    p.Room checked m₀ Γ.top.names Γ.outer k ks { m with here := h } →
    ((bindParams h pos xs vs) m).Steps (.finished (.ok ()) m') →
      p.Room checked m₀ (Γ.bindParams xs).top.names (Γ.bindParams xs).outer k ks
        { m' with here := h }
  | [], _, Γ, m, _, room, binds => by
      cases binds
      exact room
  | x :: xs, [], _, _, hl, _, _ => nomatch hl
  | x :: xs, v :: vs, Γ, m, hl, room, binds => by
      obtain ⟨_, m₁, bound, rest⟩ := steps_of_bind (x := defineAt h x.name v pos)
        (f := fun _ => bindParams h pos xs vs) binds
      obtain ⟨i, e, rfl⟩ := of_steps_update bound
      cases Forest.eq_of_definable e
      have named : p.Room checked m₀ (Γ.bind x.name (.var x.ty)).top.names Γ.outer k ks
          { m.bind h.frame x.name (some v) with here := h } := room.put x.name x.ty (some v)
      exact Room.params (Γ := Γ.bind x.name (.var x.ty)) pos (Nat.succ.inj hl) named rest

/-- Parameters join no frames. -/
theorem joined_bindParams : ∀ (xs : List Param) (Γ : Scene),
    (Γ.bindParams xs).top.joined = Γ.top.joined
  | [], _      => rfl
  | x :: xs, Γ => joined_bindParams xs (Γ.bind x.name (.var x.ty))

/-- A new frame for a construct is open for names. -/
theorem Spot.enter (h : p.Spot checked m₀ Γ.levels ks m) (alike : p.Alike checked m₀ k m.scopes.next) :
    p.Room checked m₀ Γ.enter.top.names Γ.enter.outer k ks m.pushScope :=
  Room.opened h.inside h.follows alike

/-! ### Declarations -/

namespace Declaring

variable {ds : List Decl} {s : Site}

/-- Where a variable of the program is being defined. -/
theorem hidden {v : VarDecl} (h : p.Declaring checked c ds Γ s) :
    p.Spot checked m₀ (Γ.hide v.name).levels [1, 0] s.machine := by
  have levels : (Γ.hide v.name).levels =
      [⟨Γ.top.names.put v.name none, false⟩, ⟨Scene.predefinedNames, false⟩] := by
    have e : (Γ.hide v.name).levels = ⟨Γ.top.names.put v.name none, Γ.top.joined⟩ :: Γ.outer := rfl
    rw [e, h.global.plain, h.global.outer]
  have chain : s.machine.scopes.chain s.machine.here = [1, 0] := h.top.chain
  have sees := h.top.ready.sees
  rw [h.top.chain, Site.Sees, Scene.frames, h.global.levels] at sees
  refine ⟨h.top.ready.inside, .outside ?_⟩
  rw [chain, levels]
  cases sees with
  | base names root =>
      refine .top (h.top.ready.ok.toFramed.grounds (fun y known hy => names y known ?_) root)
      rw [Names.put] at hy
      split at hy
      · cases hy
      · exact hy
  | inner h hs => cases hs with | inner _ hs => cases hs

/-- When a declaration has been run, the others lie ahead. -/
theorem next {d : Decl} {W : World} (h : p.Declaring checked c (d :: ds) Γ ⟨W, m⟩)
    (runs : ((d.check c).1.run m).Steps (.finished (.ok ()) m')) :
    ∃ W', p.Declaring checked (d.check c).2 ds (Γ.after d) ⟨W', m'⟩ := by
  have later (d : Decl) := (d.check_leads (F := True) (Γ := .start)).later
  obtain ⟨-, found, rest⟩ := h.taken.cons d.check_leads later fun found =>
    found.lawful h.global.toTop h.taken.lawful
  have moments := h.moments
  have inside := h.inside
  have sound := h.sound
  have scenes := h.scenes
  rw [Check.mapM_apply] at inside sound scenes
  rw [Decl.scenes] at scenes
  obtain ⟨hd, hds⟩ := List.forall_mem_cons.mp inside
  obtain ⟨hc, hcs⟩ := List.forall_mem_cons.mp scenes
  obtain ⟨W', -, left⟩ := Progress.Meets.ends (since_kept _ none ⟨W, m⟩)
    ((d.check c).1.adds_run h.top hd sound.1 hc) runs
  have after := found.after Γ
  exact ⟨W', rest, found.global h.global, after ▸ left.top,
    fun a ha => moments a (List.mem_append_right _ ha), hds, after ▸ sound.2, after ▸ hcs⟩

/-- The first value of a variable is evaluated where checking has taken it up. -/
theorem first {v : VarDecl} {e : Expr} (h : p.Declaring checked c (.var v :: ds) Γ s)
    (hi : v.init = some e) : p.Stands checked m₀ ⟨(v.announce c).2, .expr e, s.machine⟩ := by
  have later (d : Decl) := (d.check_leads (F := True) (Γ := .start)).later
  obtain ⟨taken, -, -⟩ := h.taken.cons (Decl.var v).check_leads later fun found =>
    found.lawful h.global.toTop h.taken.lawful
  have whole : v.check.Taken c Γ [1, 0] := taken.fst v.check_later fun _ => Check.later_pure _
  exact .expr (h.moments _ (List.mem_append_left _ (VarDecl.mem_moments hi)))
    ((VarDecl.taken whole).2.2 e hi) h.hidden

end Declaring

/-! ### From one point to the next -/

namespace Stands

variable {Γ' : Scene}

/-- The statements that follow the first one. -/
theorem moments_tail {s : Stmt} {ss : List Stmt}
    (h : ∀ a ∈ Stmt.momentsAll (s :: ss) c, a ∈ p.moments) :
    (∀ a ∈ s.moments c, a ∈ p.moments) ∧ ∀ a ∈ Stmt.momentsAll ss (s.check c).2, a ∈ p.moments := by
  rw [Stmt.momentsAll] at h
  exact ⟨fun a ha => h a (List.mem_append_left _ ha), fun a ha => h a (List.mem_append_right _ ha)⟩

/-- The body of a function is entered. -/
theorem entered {f : FuncDecl} {scope : Handle} {args : List Value}
    (h : p.Stands checked m₀ ⟨c, .func f scope args, m⟩)
    (alike : p.Alike checked m₀ c.scopes.next m.scopes.next) (arity : args.length = f.arity)
    (binds : (bindParams (m.openFrame scope).1 f.pos f.params args (m.openFrame scope).2).Steps
      (.finished (.ok ()) m')) :
    p.Stands checked m₀ ⟨(f.enter c).2, .body f.locals f.body,
      { m' with here := (m.openFrame scope).1, callDepth := m'.callDepth + 1 }⟩ := by
  cases h with
  | @func Γ ks _ _ _ _ _ moments taken inside outside =>
      obtain ⟨-, vars, stmts⟩ := FuncDecl.taken taken
      have opened := Room.opened inside (.outside outside) alike
      have room := Room.params (Γ := Γ.enter) f.pos arity.symm opened binds
      have plain : (Γ.ofFunction f).top.joined = false := joined_bindParams f.params Γ.enter
      -- The call that is under way is counted, which changes no frame.
      exact .body (fun a ha => moments a (.tail _ ha)) vars stmts plain
        ⟨room.alike, room.has, room.plain, room.lt, room.below, room.rest⟩

/-- A `for` loop has started. -/
theorem started {pos : Position} {init : ForInit} {cond u : Expr} {s : Stmt}
    (h : p.Stands checked m₀ ⟨c, .stmt (.forLoop pos init cond u s), m⟩)
    (alike : p.Alike checked m₀ c.scopes.next m.scopes.next)
    (runs : (runInit (init.check c.entered).1 m.pushScope).Steps (.finished (.ok ()) m')) :
    p.Stands checked m₀ ⟨(init.check c.entered).2, .loop cond (some u) s, m'⟩ := by
  cases h with
  | @stmt Γ ks _ _ _ moments taken spot =>
      obtain ⟨-, hi, hc, hu, hs⟩ := Stmt.forLoop_taken taken
      rw [Stmt.moments] at moments
      have room := spot.enter alike
      have spot' : p.Spot checked m₀ (Γ.enter.afterInit init).levels (c.scopes.next :: ks) m' := by
        cases init with
        | decl v =>
            exact (room.declare runs).at (Γ := Γ.enter.declare v) rfl
        | expr e =>
            obtain ⟨made, -⟩ := ForInit.expr_taken hi
            rw [made] at runs
            obtain ⟨w, m₁, evaluated, rest⟩ := steps_of_bind runs
            cases rest
            exact (room.at rfl).quiet (answers_of_ask evaluated).quiet
      have inside {a : Moment} (ha : a ∈ _) := moments a (.tail _ (List.mem_append_right _ ha))
      refine .loop (inside (.head _)) hc ?_ (fun a ha => inside (.tail _ (.tail _ ha))) hs spot'
      rintro _ ⟨⟩
      exact ⟨inside (.tail _ (.head _)), hu⟩

/-- **One step.**  From one point to the next, the frames that the run sees go on to follow those that
checking sees. -/
theorem next {a b : Point} (h : p.Stands checked m₀ a) (step : a.Next b)
    (alike : a.ahead.opens = true →
      p.Alike checked m₀ a.checker.scopes.next a.machine.scopes.next) : p.Stands checked m₀ b := by
  cases step with
  | decl runs =>
      obtain ⟨declaring⟩ := h
      exact .decls (declaring.next runs).choose_spec
  | global init =>
      obtain ⟨declaring⟩ := h
      exact declaring.first init
  | entered arity binds => exact h.entered (alike rfl) arity binds
  | @var c v vs ss m m' runs =>
      cases h with
      | body moments vars stmts plain room =>
          obtain ⟨first, rest⟩ := VarDecl.taken_cons vars
          rw [Check.mapM_apply] at moments stmts
          refine .body (fun a ha => moments a ?_) rest stmts plain (room.declare runs)
          rw [Check.each, List.append_assoc]
          exact List.mem_append_right _ ha
  | @init c v vs ss e m init =>
      cases h with
      | body moments vars stmts plain room =>
          obtain ⟨first, -⟩ := VarDecl.taken_cons vars
          obtain ⟨new, -, taken⟩ := VarDecl.taken first
          exact .expr (moments _ (List.mem_append_left _ (List.mem_append_left _
            (VarDecl.mem_moments init)))) (taken e init) (room.hidden new plain)
  | first =>
      cases h with
      | body moments vars stmts plain room =>
          obtain ⟨first, -⟩ := Stmt.taken_cons stmts
          exact .stmt (moments_tail moments).1 first (room.at plain)
  | rest runs =>
      cases h with
      | body moments vars stmts plain room =>
          obtain ⟨-, rest⟩ := Stmt.taken_cons stmts
          exact .body (moments_tail moments).2 rest.none rest plain (room.quiet runs.quiet)
  | block =>
      cases h with
      | stmt moments taken spot =>
          obtain ⟨-, vars, stmts⟩ := Stmt.block_taken taken
          rw [Stmt.moments] at moments
          exact .body (fun a ha => moments a (.tail _ ha)) vars stmts rfl (spot.enter (alike rfl))
  | cond =>
      cases h with
      | stmt moments taken spot =>
          rw [Stmt.moments] at moments
          exact .expr (moments _ (.head _)) (Stmt.ifElse_taken taken).2.1 spot
  | yes is holds =>
      cases h with
      | stmt moments taken spot =>
          rw [Stmt.moments] at moments
          exact .stmt (fun a ha => moments a (.tail _ (List.mem_append_left _ ha)))
            (Stmt.ifElse_taken taken).2.2.1 (spot.quiet is.quiet)
  | no is fails =>
      cases h with
      | stmt moments taken spot =>
          rw [Stmt.moments] at moments
          exact .stmt (fun a ha => moments a (.tail _ (List.mem_append_right _ ha)))
            (Stmt.ifElse_taken taken).2.2.2 (spot.quiet is.quiet)
  | whileLoop =>
      cases h with
      | stmt moments taken spot =>
          obtain ⟨-, test, body⟩ := Stmt.whileLoop_taken taken
          rw [Stmt.moments] at moments
          exact .loop (moments _ (.head _)) test (by rintro _ ⟨⟩) (fun a ha => moments a (.tail _ ha))
            body spot
  | forVar init =>
      cases h with
      | stmt moments taken spot =>
          obtain ⟨-, hi, -⟩ := Stmt.forLoop_taken taken
          obtain ⟨new, -, first⟩ := VarDecl.taken (ForInit.decl_taken hi)
          rw [Stmt.moments] at moments
          exact .expr (moments _ (.tail _ (List.mem_append_left _ (VarDecl.mem_moments init))))
            (first _ init) ((spot.enter (alike rfl)).hidden new rfl)
  | forExpr =>
      cases h with
      | stmt moments taken spot =>
          obtain ⟨-, hi, -⟩ := Stmt.forLoop_taken taken
          rw [Stmt.moments] at moments
          exact .expr (moments _ (.tail _ (List.mem_append_left _ (List.mem_singleton_self _))))
            (ForInit.expr_taken hi).2 ((spot.enter (alike rfl)).at rfl)
  | forLoop runs => exact h.started (alike rfl) runs
  | test =>
      cases h with
      | loop tested test updates moments taken spot => exact .expr tested test spot
  | turn is holds =>
      cases h with
      | loop tested test updates moments taken spot =>
          exact .stmt moments taken (spot.quiet is.quiet)
  | again turns =>
      cases h with
      | loop tested test updates moments taken spot =>
          exact .loop tested test updates moments taken (spot.quiet turns.quiet)
  | update turns =>
      cases h with
      | loop tested test updates moments taken spot =>
          obtain ⟨moment, taken⟩ := updates _ rfl
          exact .expr moment taken (spot.quiet turns.quiet)
  | updated turns is =>
      cases h with
      | loop tested test updates moments taken spot =>
          exact .loop tested test updates moments taken ((spot.quiet turns.quiet).quiet is.quiet)
  | ret =>
      cases h with
      | stmt moments taken spot =>
          rw [Stmt.moments] at moments
          exact .expr (moments _ (.head _)) (Stmt.ret_taken taken).2 spot
  | expr =>
      cases h with
      | stmt moments taken spot =>
          rw [Stmt.moments] at moments
          exact .expr (moments _ (.head _)) (Stmt.expr_taken taken).2 spot

end Stands

/-! ### All points of a run -/

variable {settings : Settings} {stdin : String}

/-- A call that a run of an accepted program asks for may be asked for. -/
theorem calls_of_involves (h : p.check = .ok checked) {callee : Value} {args : List Value}
    {pos : Position}
    (runs : (checked.program.run (.start settings stdin)).Involves (.apply callee args pos) m) :
    ∃ W, (p.plan checked).Calls callee args ⟨W, m⟩ := by
  obtain ⟨resume, comes⟩ := Progress.involves_iff.mp runs
  obtain ⟨W, Γ, calls, -⟩ := ((meets_run h settings stdin).steps (sound_kept _) comes).asked
  exact ⟨W, calls⟩

/-- **All points.**  Wherever checking and a run of an accepted program come to, the frames that the run
sees follow those that checking sees. -/
theorem Comes.stands (h : p.check = .ok checked) {a : Point}
    (comes : p.Comes checked (.start settings stdin) a) :
    p.Stands checked (.start settings stdin) a := by
  induction comes with
  | start =>
      obtain ⟨clean, e⟩ := clean_of_check h
      have taken : (p.mapM Decl.check).Taken Checker.start Scene.start [1, 0] :=
        ⟨Checker.start_at, Scene.start_lawful, rfl, clean⟩
      exact .decls ⟨taken, Scene.start_global, Site.start_top settings stdin, fun _ ha => ha,
        fun _ hd => e ▸ hd, e ▸ sound_of_check h, fun _ ha => by rw [scenes, e]; exact ha⟩
  | call runs enters moments taken made outside =>
      obtain ⟨W, calls⟩ := calls_of_involves h runs
      obtain ⟨W', framed, Γ', sees, -⟩ := enters.ok calls
      exact .func moments taken (sees.rooted.inside framed) outside
  | next comes step ih => exact ih.next step fun opens => .intro comes opens

end Program

end Brace
