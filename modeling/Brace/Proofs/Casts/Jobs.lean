import Brace.Proofs.Casts.Pieces

/-!
# Casts — jobs and programs with edited code

What a job starts with and what the edited job starts with go side by side, unless the job is for a cast
that is left out; so do declarations and programs. This is by the form of the job: each asks for the
parts that it asks for anyway, and blames what fails on the same places.
-/

namespace Brace

open Eval

variable {ρ : Edit}

/-- Only the texts of the arguments matter to what a template is filled with. -/
theorem Template.fillPieces_map {α β : Type} {text : α → Option String} {text' : β → Option String}
    {f : α → β} (h : ∀ a, text' (f a) = text a) : ∀ (ps : List Piece) (args : List α),
    fillPieces text' ps (args.map f) = fillPieces text ps args
  | [], []                   => rfl
  | [], _ :: _               => rfl
  | .char c :: ps, args      => by rw [fillPieces, fillPieces, fillPieces_map h ps args]
  | .spec _ :: _, []         => rfl
  | .spec _ :: ps, a :: args => by
      rw [List.map_cons, fillPieces, fillPieces, h, fillPieces_map h ps args]

/-- What is read has no code in it. -/
theorem Specifier.read_edit {s : Specifier} {word : List Char} {v : Value}
    (e : s.read word = some v) : v.edit ρ = v := by
  cases s with
  | int | float =>
      obtain ⟨_, -, rfl⟩ := Option.map_eq_some_iff.mp e
      rfl
  | str =>
      cases e
      rfl

/-! ### Expressions -/

namespace Expr

/-- The place of an expression that stays of its form. -/
theorem pos_editForm (e : Expr) : (e.editForm ρ).pos = e.pos := by
  cases e <;> simp only [editForm, editAs, pos, note, ρ.pos_note]

/-- The expression is no cast that is left out. -/
def keptAs (ρ : Edit) : (formed : Bool) → Expr → Bool
  | false, .cast n _ e => (ρ.cast n (e.edit ρ)).isSome
  | _, _               => true

/-- The value of an expression and that of the edited one go side by side. -/
theorem edits_eval (formed : Bool) (e : Expr) :
    Edits ρ (Value.edit ρ) e.eval (e.editAs ρ formed).eval := .ask formed (.expr e)

theorem edits_evalAll (formed : Bool) (es : List Expr) :
    Edits ρ (List.map (Value.edit ρ)) (es.mapM eval) ((editAll ρ formed es).mapM eval) := by
  rw [editAll_eq_map]
  exact .mapM (edits_eval formed) es

end Expr

def Eval.Place.edit (ρ : Edit) : Place → Place
  | .field o x => .field (o.recode (FuncDecl.edit ρ)) x
  | p          => p

namespace Eval.Edits

/-- The place that is assigned to is found alike. -/
theorem place (e : Expr) : Edits ρ (Place.edit ρ) (Eval.place e) (Eval.place (e.editForm ρ)) := by
  cases e with
  | name n x => exact pure rfl
  | index n x i =>
      simp only [Expr.editForm, Expr.editAs, Eval.place, ρ.pos_note]
      exact (lookupArray x n.pos).bind fun array => (i.edits_eval false).bind fun v =>
        (expectInt v n.pos).bind fun k => pure rfl
  | get n o x =>
      simp only [Expr.editForm, Expr.editAs, Eval.place, ρ.pos_note]
      exact (o.edits_eval false).bind fun v => (expectObject v n.pos).bind fun o => pure rfl
  | _ => simp only [Expr.editForm, Expr.editAs, Eval.place, Expr.pos, Expr.note, ρ.pos_note]; exact fail _ _

/-- What is read at a place is read with edited code. -/
theorem read (p : Position) (here : Place) :
    Edits ρ (Value.edit ρ) (here.read p) ((here.edit ρ).read p) := by
  cases here with
  | var x => exact lookup x p
  | element array i => exact element array i p
  | field o x => exact property o x p

/-- What is written at a place is written with edited code. -/
theorem write (v : Value) (p : Position) (here : Place) :
    Edits ρ id (here.write v p) ((here.edit ρ).write (v.edit ρ) p) := by
  cases here with
  | var x => exact assign x v p
  | element array i => exact setElement array i v p
  | field o x => exact setField o x v

/-- Stepping a place steps the same place of the edited expression. -/
theorem step (form : StepForm) (target : Expr) :
    Edits ρ (Value.edit ρ) (Eval.step form target) (Eval.step form (target.editForm ρ)) := by
  simp only [Eval.step, Expr.pos_editForm]
  refine (place target).bind fun here => (read target.pos here).bind fun old =>
    (ofExcept target.pos (Value.stepped_recode _ form old)).bind fun new =>
      (write new target.pos here).bind fun _ => pure ?_
  split <;> rfl

/-- The text of a format and its arguments comes out alike. -/
theorem formatted (format : Expr) (args : List Expr) : Edits ρ id (Eval.formatted format args)
    (Eval.formatted (format.editForm ρ) (Expr.editAll ρ false args)) := by
  have fill (m : Machine) (template : String) (values : List Value) :
      Template.fill (m.edit ρ).heap.text? template (values.map (Value.edit ρ)) =
        Template.fill m.heap.text? template values := by
    rw [Template.fill, Template.fill, Template.fillPieces_map]
    exact fun v => m.heap.text?_recode FuncDecl.name_edit v
  simp only [Eval.formatted, Expr.pos_editForm]
  refine (format.edits_eval true).bind fun v => (expectString v format.pos).bind fun template =>
    (Expr.edits_evalAll false args).bind fun values =>
      (view (f := id) fun m => fill m template values).bind fun r => ?_
  cases r with
  | some r => exact ofExcept _ (by cases r <;> rfl)
  | none => exact endless

theorem scanInto (p : Position) (s : Specifier) (target : Expr) :
    Edits ρ id (Eval.scanInto p s target) (Eval.scanInto p s (target.editForm ρ)) := by
  simp only [Eval.scanInto, Expr.pos_editForm]
  refine (make (f := id) fun m => rfl).bind fun word => ?_
  cases word with
  | none => exact fail _ _
  | some word =>
      dsimp only [id]
      cases e : s.read word with
      | some v =>
          refine (place target).bind fun here => ?_
          have written := write (ρ := ρ) v target.pos here
          rwa [Specifier.read_edit e] at written
      | none => exact fail _ _

/-- The targets that are read into are those of the edited expression. -/
theorem scan (p : Position) (template : String) (targets : List Expr) :
    Edits ρ id (Eval.scan p template targets) (Eval.scan p template (Expr.editAll ρ true targets)) := by
  simp only [Eval.scan, Expr.editAll_eq_map, List.length_map]
  split
  · rw [show (Template.specifiers template).zip (targets.map (Expr.editForm ρ)) =
      ((Template.specifiers template).zip targets).map fun x => (x.1, x.2.editForm ρ) from
        List.zip_map_right ..]
    exact forM (fun x : Specifier × Expr => (x.1, x.2.editForm ρ))
      (fun x => scanInto p x.1 x.2) _
  · exact fail _ _

end Eval.Edits

/-- What an expression does, with its code edited. -/
theorem Expr.edits_start (formed : Bool) (e : Expr) (kept : e.keptAs ρ formed = true) :
    Edits ρ (Value.edit ρ) e.start (e.editAs ρ formed).start := by
  cases e with
  | literal n l => exact .pure (Value.recode_ofLiteral _ l).symm
  | name n x =>
      simp only [editAs, start, ρ.pos_note]
      exact .lookup x n.pos
  | group n e => exact e.edits_eval false
  | arrayNew n t e =>
      simp only [editAs, start, ρ.pos_note]
      exact (e.edits_eval false).bind fun v => (Edits.expectInt v n.pos).bind fun size =>
        .newArray t size n.pos
  | index n x i =>
      simp only [editAs, start, ρ.pos_note]
      exact (Edits.lookupArray x n.pos).bind fun array => (i.edits_eval false).bind fun v =>
        (Edits.expectInt v n.pos).bind fun k => .element array k n.pos
  | indexAssign n x i e =>
      simp only [editAs, start, ρ.pos_note]
      exact (Edits.lookupArray x n.pos).bind fun array => (i.edits_eval false).bind fun v =>
        (Edits.expectInt v n.pos).bind fun k => (e.edits_eval false).bind fun w =>
          (Edits.setElement array k w n.pos).bind fun _ => .pure rfl
  | assign n x e =>
      simp only [editAs, start, ρ.pos_note]
      exact (e.edits_eval false).bind fun v => (Edits.assign x v n.pos).bind fun _ => .pure rfl
  | compound n op x e =>
      simp only [editAs, start, ρ.pos_note]
      exact (Edits.lookup x n.pos).bind fun old => (e.edits_eval false).bind fun v =>
        (Edits.ofExcept n.pos (Value.binary_recode _ op old v)).bind fun new =>
          (Edits.assign x new n.pos).bind fun _ => .pure rfl
  | binary n op l r =>
      simp only [editAs, start, ρ.pos_note]
      exact (l.edits_eval false).bind fun a => (r.edits_eval false).bind fun b =>
        .ofExcept n.pos (Value.binary_recode _ op a b)
  | logical n op l r =>
      refine (l.edits_eval false).bind fun a => ?_
      have same : settles op (a.edit ρ) = settles op a := by
        cases op <;> simp only [settles, Value.isTruthy_recode]
      rw [same]
      split
      · exact .pure rfl
      · exact r.edits_eval false
  | unary n op e =>
      simp only [editAs, start, ρ.pos_note]
      exact (e.edits_eval false).bind fun v => .ofExcept n.pos (Value.unary_recode _ op v)
  | step n form target => exact .step form target
  | cast n target e =>
      have rebuilt (n' : Note) (h : n'.pos = n.pos) :
          Edits ρ (Value.edit ρ) (cast n target e).start (cast n' target (e.edit ρ)).start := by
        simp only [start, h]
        exact (e.edits_eval false).bind fun v => .ofExcept n.pos (Value.castTo_recode _ target v)
      cases formed with
      | true => exact rebuilt _ (ρ.pos_note n)
      | false =>
          obtain ⟨n', hn⟩ := Option.isSome_iff_exists.mp kept
          simp only [editAs, hn]
          exact rebuilt n' (ρ.pos_cast _ _ _ hn)
  | intToFloat n e =>
      exact (e.edits_eval false).bind fun v => by cases v <;> exact .pure rfl
  | get n o x =>
      simp only [editAs, start, ρ.pos_note]
      exact (o.edits_eval false).bind fun v => (Edits.expectObject v n.pos).bind fun o =>
        .property o x n.pos
  | set n o x e =>
      simp only [editAs, start, ρ.pos_note]
      exact (o.edits_eval false).bind fun v => (Edits.expectObject v n.pos).bind fun o =>
        (e.edits_eval false).bind fun w => (Edits.setField o x w).bind fun _ => .pure rfl
  | receiver n =>
      simp only [editAs, start, ρ.pos_note]
      exact .lookup "this" n.pos
  | superMethod n x =>
      simp only [editAs, start, ρ.pos_note]
      exact .superMethod x n.pos
  | call n callee args =>
      simp only [editAs, start]
      exact (callee.edits_eval true).bind fun f => (edits_evalAll false args).bind fun values =>
        .apply f values (ρ.pos_note n)
  | printf n format args =>
      simp only [editAs, start]
      exact (Edits.formatted format args).bind fun text =>
        (Edits.change (x := (·.print text)) fun m => rfl).bind fun _ => .pure rfl
  | sprintf n x format args =>
      simp only [editAs, start, ρ.pos_note]
      exact (Edits.formatted format args).bind fun text =>
        (Edits.assign x (.str text) n.pos).bind fun _ => .pure rfl
  | scanf n format targets =>
      simp only [editAs, start, ρ.pos_note]
      exact (format.edits_eval true).bind fun v => (Edits.expectString v n.pos).bind fun template =>
        (Edits.scan n.pos template targets).bind fun _ => .pure rfl

/-! ### Statements -/

/-- A statement and the edited one go side by side. -/
theorem Stmt.edits_exec (s : Stmt) : Edits ρ (Flow.edit ρ) s.exec (s.edit ρ).exec :=
  .ask false (.stmt s)

/-- A declared variable gets the value of the edited initial value. -/
theorem VarDecl.edits_run (v : VarDecl) : Edits ρ id v.run (v.edit ρ).run := by
  simp only [run, edit]
  cases v.init with
  | none => exact .declare v.name v.pos
  | some e => exact (e.edits_eval false).bind fun w => .define v.name w v.pos

namespace Eval.Edits

theorem runStmts (ss : List Stmt) :
    Edits ρ (Flow.edit ρ) (Eval.runStmts ss) (Eval.runStmts (Stmt.editAll ρ ss)) := by
  induction ss with
  | nil => exact pure rfl
  | cons s ss ih =>
      rw [Stmt.editAll, Eval.runStmts, Eval.runStmts]
      refine s.edits_exec.bind fun flow => ?_
      cases flow with
      | normal => exact ih
      | _ => exact pure rfl

/-- A body is run with edited locals and edited statements. -/
theorem runBody (locals : List VarDecl) (body : List Stmt) :
    Edits ρ (Flow.edit ρ) (Eval.runBody locals body)
      (Eval.runBody (locals.map (VarDecl.edit ρ)) (Stmt.editAll ρ body)) :=
  (forM _ VarDecl.edits_run locals).bind fun _ => runStmts body

theorem runInit (init : ForInit) : Edits ρ id (Eval.runInit init) (Eval.runInit (init.edit ρ)) := by
  cases init with
  | decl v => exact v.edits_run
  | expr e => exact (e.edits_eval true).bind fun _ => pure rfl

/-- One turn of a loop goes side by side with one of the edited loop. -/
theorem loopTurn (cond : Expr) (update : Option Expr) (body : Stmt) :
    Edits ρ (Flow.edit ρ) (Eval.loopTurn cond update body)
      (Eval.loopTurn (cond.edit ρ) (update.map (Expr.editForm ρ)) (body.edit ρ)) := by
  have again : Edits ρ (Flow.edit ρ) (Eval.ask (.loop cond update body))
      (Eval.ask (.loop (cond.edit ρ) (update.map (Expr.editForm ρ)) (body.edit ρ))) :=
    ask (ρ := ρ) false (.loop cond update body)
  refine (cond.edits_eval false).bind fun v => ?_
  rw [Value.isTruthy_recode]
  split
  · refine body.edits_exec.bind fun flow => ?_
    cases flow with
    | breakLoop => exact pure rfl
    | ret v => exact pure rfl
    | normal | continueLoop =>
        cases update with
        | none => exact again
        | some u => exact (u.edits_eval true).bind fun _ => again
  · exact pure rfl

end Eval.Edits

theorem Stmt.edits_start (s : Stmt) : Edits ρ (Flow.edit ρ) s.start (s.edit ρ).start := by
  cases s with
  | block p locals body => exact .inBlock p (.runBody locals body)
  | ifElse p cond t e =>
      refine (cond.edits_eval false).bind fun v => ?_
      rw [Value.isTruthy_recode]
      split
      · exact t.edits_exec
      · exact e.edits_exec
  | whileLoop p cond body => exact .ask (ρ := ρ) false (.loop cond none body)
  | forLoop p init cond update body =>
      exact .inBlock p ((Edits.runInit init).bind fun _ =>
        .ask (ρ := ρ) false (.loop cond (some update) body))
  | ret p value =>
      cases value with
      | none => exact .pure rfl
      | some e => exact (e.edits_eval false).bind fun v => .pure rfl
  | breakLoop p => exact .pure rfl
  | continueLoop p => exact .pure rfl
  | expr p e => exact (e.edits_eval false).bind fun _ => .pure rfl
  | empty p => exact .pure rfl

/-! ### Calls -/

namespace Builtin

/-- Built-in functions do not look into code. -/
theorem call_edit (b : Builtin) (args : List Value) (m : Machine) :
    b.call (args.map (Value.edit ρ)) (m.edit ρ) =
      (b.call args m).map fun r => (r.1.map (Value.edit ρ), r.2.edit ρ) := by
  have text (v : Value) : (m.edit ρ).heap.text? (v.edit ρ) = m.heap.text? v :=
    m.heap.text?_recode FuncDecl.name_edit v
  rcases args with _ | ⟨v, _ | ⟨w, vs⟩⟩
  · cases b <;> rfl
  · cases b with
    | print =>
        simp only [List.map_cons, List.map_nil, call, text]
        cases m.heap.text? v <;> rfl
    | input =>
        simp only [List.map_cons, List.map_nil, call, text, Option.map_map]
        congr 1
        funext t
        have line : ((m.edit ρ).print t).readLine =
          ((m.print t).readLine.1, (m.print t).readLine.2.edit ρ) := rfl
        rw [line]
        dsimp only [Function.comp]
        rcases (m.print t).readLine with ⟨_ | line, m'⟩ <;> rfl
    | len =>
        cases v with
        | array id =>
            have length : (m.edit ρ).heap.length id = m.heap.length id := m.heap.length_recode _ id
            simp only [List.map_cons, List.map_nil, Value.recode, call, length]
            rfl
        | _ => rfl
    | typeOf =>
        simp only [List.map_cons, List.map_nil, call, Value.typeName_recode]
        rfl
  · cases b <;> cases v <;> simp only [List.map_cons, Value.recode, call, List.length_cons,
      List.length_map] <;> rfl

/-- A built-in function does the same, as it does not look into code. -/
theorem edits_apply (b : Builtin) (args : List Value) (p : Position) :
    Edits ρ (Value.edit ρ) (b.apply args p) (b.apply (args.map (Value.edit ρ)) p) := fun m => by
  rw [apply, apply, List.length_map, call_edit]
  split
  · rcases b.call args m with _ | ⟨c | v, m'⟩
    · exact .endless
    · exact .finished (.error ⟨c, p⟩) m'
    · exact .finished (.ok v) m'
  · exact .finished (.error _) m

end Builtin

namespace Eval.Edits

theorem bindParams (h : Handle) (p : Position) (params : List Param) (args : List Value) :
    Edits ρ id (Eval.bindParams h p params args)
      (Eval.bindParams h p params (args.map (Value.edit ρ))) := by
  rw [Eval.bindParams, Eval.bindParams, List.zip_map_right]
  exact forM _ (fun x => defineAt h x.1.name x.2 p) _

/-- The result of a function follows from how its body ended, edited or not. -/
theorem result (f : FuncDecl) (flow : Flow) :
    Edits ρ (Value.edit ρ) (Eval.result f flow) (Eval.result (f.edit ρ) (flow.edit ρ)) := by
  cases flow <;> first | exact pure rfl | exact fail _ _

/-- Calling a function is calling it with its edited body. -/
theorem callClosure (f : Closure) (args : List Value) :
    Edits ρ (Value.edit ρ) (Eval.callClosure f args)
      (Eval.callClosure (f.recode (FuncDecl.edit ρ)) (args.map (Value.edit ρ))) := by
  have arity : (f.recode (FuncDecl.edit ρ)).decl.arity = f.decl.arity := rfl
  rw [Eval.callClosure, Eval.callClosure, List.length_map, arity]
  split
  · exact (make (f := id) fun m => m.openFrame_recode _ f.scope).bind fun frame =>
      (bindParams frame f.decl.pos f.decl.params args).bind fun _ =>
        (counted f.decl.pos (inScope frame (runBody f.decl.locals f.decl.body))).bind fun flow =>
          result f.decl flow
  · exact fail _ _

/-- An object of a class is made with the edited constructor. -/
theorem instantiate (c : Class) (args : List Value) :
    Edits ρ (Value.edit ρ) (Eval.instantiate c args)
      (Eval.instantiate (c.recode (FuncDecl.edit ρ)) (args.map (Value.edit ρ))) := by
  rw [Eval.instantiate, Eval.instantiate, c.method?_recode FuncDecl.name_edit]
  refine (make (f := Object.recode (FuncDecl.edit ρ)) fun m => m.newObject_recode _ c).bind
    fun o => ?_
  cases c.method? "init" with
  | some init =>
      exact (make (f := Closure.recode (FuncDecl.edit ρ)) fun m => m.bindMethod_recode _ o init).bind
        fun f => (callClosure f args).bind fun _ => pure rfl
  | none =>
      simp only [Option.map_none, List.isEmpty_map, List.length_map]
      split
      · exact pure rfl
      · exact fail _ _

/-- Whatever is called, its edited code is called in its place. -/
theorem applyTo (callee : Value) (args : List Value) (p : Position) :
    Edits ρ (Value.edit ρ) (Eval.applyTo callee args p)
      (Eval.applyTo (callee.edit ρ) (args.map (Value.edit ρ)) p) := by
  have refused (v : Value) : Edits ρ (Value.edit ρ)
      (do
        let text ← Eval.textOf v
        Eval.fail (.notCallable text) p)
      (do
        let text ← Eval.textOf (v.edit ρ)
        Eval.fail (.notCallable text) p) := (textOf v).bind fun _ => fail _ _
  cases callee with
  | function f => exact orAt p (callClosure f args)
  | builtin b => exact b.edits_apply args p
  | cls c => exact orAt p (instantiate c args)
  | _ => exact refused _

end Eval.Edits

/-! ### Jobs -/

namespace Job

/-- The job is for no cast that is left out. -/
def keptAs (ρ : Edit) (formed : Bool) : Job → Bool
  | .expr e => e.keptAs ρ formed
  | _       => true

/-- One layer of evaluation goes side by side with that of the edited job, unless the job is for a cast
that is left out. -/
theorem edits_start (formed : Bool) (j : Job) (kept : j.keptAs ρ formed = true) :
    Edits ρ (j.editAnswer ρ formed) j.start (j.editAs ρ formed).start := by
  cases j with
  | expr e => exact e.edits_start formed kept
  | stmt s => exact s.edits_start
  | loop cond update body => exact .loopTurn cond update body
  | apply callee args p => exact .applyTo callee args p

end Job

/-! ### Programs -/

namespace Eval.Edits

theorem lookupClass (x : String) (p : Position) :
    Edits ρ (Class.recode (FuncDecl.edit ρ)) (Eval.lookupClass x p) (Eval.lookupClass x p) :=
  (lookup x p).bind fun v => by cases v <;> first | exact pure rfl | exact fail _ _

/-- The superclass is the one with edited methods. -/
theorem superclassOf (d : ClassDecl) : Edits ρ (Option.map (Class.recode (FuncDecl.edit ρ)))
    (Eval.superclassOf d) (Eval.superclassOf (d.edit ρ)) := by
  simp only [Eval.superclassOf, ClassDecl.edit]
  cases d.superclass with
  | some x => exact (lookupClass x d.pos).map fun _ => rfl
  | none => exact pure rfl

theorem methodScope (c : Option Class) : Edits ρ id (Eval.methodScope c)
    (Eval.methodScope (c.map (Class.recode (FuncDecl.edit ρ)))) := by
  cases c with
  | some c =>
      exact make (x := (·.superFrame c)) (y := (·.superFrame (c.recode (FuncDecl.edit ρ))))
        fun m => m.superFrame_recode _ c
  | none => exact view fun m => rfl

theorem defineFunction (f : FuncDecl) :
    Edits ρ id (Eval.defineFunction f) (Eval.defineFunction (f.edit ρ)) :=
  (make (f := Closure.recode (FuncDecl.edit ρ)) fun m => m.newClosure_recode _ f m.here).bind
    fun g => define f.name (.function g) f.pos

/-- A class is defined with its edited methods. -/
theorem defineClass (d : ClassDecl) :
    Edits ρ id (Eval.defineClass d) (Eval.defineClass (d.edit ρ)) := by
  refine (superclassOf d).bind fun superclass => (methodScope superclass).bind fun scope =>
    (make (f := id) fun m => rfl).bind fun id => ?_
  have defined := define (ρ := ρ) d.name
    (.cls ⟨⟨id, d.name, d.methods, scope⟩, inheritedTiers superclass⟩) d.pos
  cases superclass <;> exact defined

theorem echo (v : Value) : Edits ρ id (Eval.echo v) (Eval.echo (v.edit ρ)) := by
  simp only [Eval.echo, Value.isNil_recode]
  refine (view (f := id) (x := (·.settings.echoReturn)) fun m => rfl).bind fun shown => ?_
  dsimp only [id]
  split
  · exact (textOf v).bind fun text =>
      change (x := (·.printLine ("Return: " ++ text))) fun m => rfl
  · exact pure rfl

end Eval.Edits

/-- A declaration and the edited one go side by side. -/
theorem Decl.edits_run (d : Decl) : Edits ρ id d.run (d.edit ρ).run := by
  cases d with
  | var v => exact v.edits_run
  | func f => exact .defineFunction f
  | cls d => exact .defineClass d

theorem Program.function?_edit (p : Program) (x : String) :
    function? (p.edit ρ) x = (function? p x).map (FuncDecl.edit ρ) := by
  simp only [function?, edit]
  induction p with
  | nil => rfl
  | cons d p ih =>
      rw [List.map_cons, List.findSome?_cons, List.findSome?_cons]
      cases d with
      | func f =>
          dsimp only [Decl.edit]
          by_cases named : f.name = x
          · rw [if_pos named, if_pos (f.name_edit.trans named)]
            rfl
          · rw [if_neg named, if_neg fun e => named (f.name_edit.symm.trans e)]
            exact ih
      | _ => exact ih

/-- Programs go side by side with the edited ones. -/
theorem Program.edits_run (p : Program) :
    Edits ρ (Value.edit ρ) (Program.run p) (Program.run (p.edit ρ)) := by
  simp only [Program.run, function?_edit]
  cases function? p "main" with
  | none => exact .fail _ _
  | some main =>
      have arity : (main.edit ρ).arity = main.arity := rfl
      simp only [Option.map_some, arity]
      split
      · exact (Edits.forM _ Decl.edits_run p).bind fun _ =>
          (Edits.lookup "main" main.pos).bind fun entry =>
            (Edits.apply entry [] rfl).bind fun v => (Edits.echo v).bind fun _ => .pure rfl
      · exact .fail _ _

end Brace
