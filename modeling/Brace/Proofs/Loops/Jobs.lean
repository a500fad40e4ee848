import Brace.Proofs.Loops.Pieces

/-!
# Loops — jobs side by side

Alike jobs go abreast from machines alike. This is by the form of the job: each asks for the parts that it
asks for anyway, and a variable is bound in a frame that has just been entered, or in one that the bodies
of both functions have got. So alike jobs are answered alike (`Job.Alike.run`), and computations that go
abreast come to alike ends (`Progress.Abreast.ends`).
-/

namespace Brace

open Eval

variable {α β : Type} {w w₁ : Matching} {m m' m₁ m₁' : Machine} {v v' : Value}

/-! ### Expressions -/

theorem Expr.abreast_eval (e : Expr) (h : m.Alike w m') : Abreast w m m' Value.Alike e.eval e.eval :=
  .ask h (.expr e)

theorem Expr.abreast_evalAll (es : List Expr) (h : m.Alike w m') :
    Abreast w m m' (fun w => List.Forall₂ (Value.Alike w)) (es.mapM Expr.eval) (es.mapM Expr.eval) := by
  induction es generalizing w m m' with
  | nil => exact .pure h .nil
  | cons e es ih =>
      rw [List.mapM_cons]
      refine (e.abreast_eval h).bind fun s hv => (ih s.alike).bind fun s₁ hvs => .pure s₁.alike ?_
      exact .cons (hv.later s₁.later) hvs

/-- Two places are the same variable, the same place in an array, or the same field of an object. -/
inductive Eval.Place.Alike (w : Matching) : Place → Place → Prop where
  | var (x : String) : Alike w (.var x) (.var x)
  | element (id : ArrayId) (i : Int64) : Alike w (.element id i) (.element id i)
  | field {o o' : Object} (h : o.Alike w o') (x : String) : Alike w (.field o x) (.field o' x)

/-- The texts of the arguments are all that matters to what a template is filled with. -/
theorem Template.fillPieces_congr {R : α → β → Prop} {text : α → Option String}
    {text' : β → Option String} (h : ∀ a b, R a b → text a = text' b) :
    ∀ (ps : List Piece) {as : List α} {bs : List β}, List.Forall₂ R as bs →
      fillPieces text ps as = fillPieces text' ps bs
  | [], _, _, .nil => rfl
  | [], _, _, .cons _ _ => rfl
  | .char c :: ps, _, _, t => by rw [fillPieces, fillPieces, fillPieces_congr h ps t]
  | .spec _ :: _, _, _, .nil => rfl
  | .spec _ :: ps, _, _, .cons hab t => by
      rw [fillPieces, fillPieces, h _ _ hab, fillPieces_congr h ps t]

/-- What is read is no object. -/
theorem Specifier.read_plain {s : Specifier} {word : List Char} (e : s.read word = some v) :
    v.isPlain = true := by
  cases s with
  | int | float =>
      obtain ⟨_, -, rfl⟩ := Option.map_eq_some_iff.mp e
      rfl
  | str =>
      cases e
      rfl

namespace Eval.Place.Alike

variable {here here' : Place}

theorem later (le : w.Later w₁) (h : here.Alike w here') : here.Alike w₁ here' := by
  cases h with
  | var x => exact .var x
  | element id i => exact .element id i
  | field ho x => exact .field (ho.later le) x

end Eval.Place.Alike

namespace Eval.Abreast

section Piece

variable (h : m.Alike w m') (p : Position)

include h

theorem place (e : Expr) : Abreast w m m' Place.Alike (Eval.place e) (Eval.place e) := by
  cases e with
  | name n x => exact pure h (.var x)
  | index n x i =>
      refine (lookupArray h n.pos x).bind fun {_ _ _ a b} s e => ?_
      refine (i.abreast_eval s.alike).bind fun s hv => ?_
      refine (expectInt s.alike n.pos hv).bind fun s e' => ?_
      exact e ▸ e' ▸ pure s.alike (.element a _)
  | get n o x =>
      refine (o.abreast_eval h).bind fun s hv => ?_
      exact (expectObject s.alike n.pos hv).bind fun s ho => pure s.alike (.field ho x)
  | _ => exact fail h _ _

variable {here here' : Place}

theorem read (hp : here.Alike w here') : Abreast w m m' Value.Alike (here.read p) (here'.read p) := by
  cases hp with
  | var x => exact lookup h p x
  | element id i => exact element h p id i
  | field ho x => exact property h p ho x

theorem write (hv : v.Alike w v') (hp : here.Alike w here') :
    Abreast w m m' Same (here.write v p) (here'.write v' p) := by
  cases hp with
  | var x => exact assign h p hv x
  | element id i => exact setElement h p hv id i
  | field ho x => exact setField h ho x hv

theorem step (form : StepForm) (target : Expr) :
    Abreast w m m' Value.Alike (Eval.step form target) (Eval.step form target) := by
  refine (place h target).bind fun s hp => (read s.alike target.pos hp).bind fun s₁ hold => ?_
  refine (ofExcept s₁.alike target.pos (hold.stepped form)).bind fun s₂ hnew => ?_
  have hp := (hp.later s₁.later).later s₂.later
  refine (write s₂.alike target.pos hnew hp).bind fun s₃ _ => pure s₃.alike ?_
  split
  · exact hnew.later s₃.later
  · exact (hold.later s₂.later).later s₃.later

theorem formatted (format : Expr) (args : List Expr) :
    Abreast w m m' Same (Eval.formatted format args) (Eval.formatted format args) := by
  refine (format.abreast_eval h).bind fun s hv => (expectString s.alike format.pos hv).bind fun s e => ?_
  subst e
  refine (Expr.abreast_evalAll args s.alike).bind fun {_ m m' values values'} s hvs => ?_
  refine (view (R := Same) s.alike ?_).bind fun s e => ?_
  · exact congrArg (Option.map _)
      (Template.fillPieces_congr (fun _ _ hv => s.alike.heap.text? hv) _ hvs)
  · subst e
    split
    · exact ofExcept s.alike _ (.of_eq rfl fun _ _ => rfl)
    · exact endless

theorem scanInto (sp : Specifier) (target : Expr) :
    Abreast w m m' Same (Eval.scanInto p sp target) (Eval.scanInto p sp target) := by
  refine (make (R := Same) h.readWord.2 h.readWord.1).bind fun s e => ?_
  subst e
  split
  · exact fail s.alike _ p
  · split
    · rename_i v e
      refine (place s.alike target).bind fun s hp => ?_
      exact write s.alike target.pos (.of_plain (Specifier.read_plain e)) hp
    · exact fail s.alike _ p

theorem scan (template : String) (targets : List Expr) :
    Abreast w m m' Same (Eval.scan p template targets) (Eval.scan p template targets) := by
  rw [Eval.scan]
  split
  · exact forM (S := Same) (fun _ => id) h (List.forall₂_same.mpr fun _ _ => rfl) fun s e =>
      e ▸ scanInto s.alike p _ _
  · exact fail h _ p

end Piece

end Eval.Abreast

theorem Expr.abreast_start (e : Expr) (h : m.Alike w m') : Abreast w m m' Value.Alike e.start e.start := by
  cases e with
  | literal n l => exact .pure h (.ofLiteral l)
  | name n x => exact .lookup h n.pos x
  | group n e => exact e.abreast_eval h
  | arrayNew n t e =>
      refine (e.abreast_eval h).bind fun s hv => ?_
      exact (Abreast.expectInt s.alike n.pos hv).bind fun s e => e ▸ .newArray s.alike n.pos t _
  | index n x i =>
      refine (Abreast.lookupArray h n.pos x).bind fun s e => ?_
      refine (i.abreast_eval s.alike).bind fun s hv => ?_
      exact (Abreast.expectInt s.alike n.pos hv).bind fun s e' => e ▸ e' ▸ .element s.alike n.pos _ _
  | indexAssign n x i e =>
      refine (Abreast.lookupArray h n.pos x).bind fun s same => ?_
      refine (i.abreast_eval s.alike).bind fun s hv => ?_
      refine (Abreast.expectInt s.alike n.pos hv).bind fun s same' => ?_
      refine (e.abreast_eval s.alike).bind fun s hv => ?_
      subst same same'
      exact (Abreast.setElement s.alike n.pos hv _ _).bind fun s _ => .pure s.alike (hv.later s.later)
  | assign n x e =>
      refine (e.abreast_eval h).bind fun s hv => ?_
      exact (Abreast.assign s.alike n.pos hv x).bind fun s _ => .pure s.alike (hv.later s.later)
  | compound n op x e =>
      refine (Abreast.lookup h n.pos x).bind fun s hold => ?_
      refine (e.abreast_eval s.alike).bind fun s hv => ?_
      refine (Abreast.ofExcept s.alike n.pos ((hold.later s.later).binary hv op)).bind fun s hnew => ?_
      exact (Abreast.assign s.alike n.pos hnew x).bind fun s _ => .pure s.alike (hnew.later s.later)
  | binary n op l r =>
      refine (l.abreast_eval h).bind fun s hv => ?_
      refine (r.abreast_eval s.alike).bind fun s hu => ?_
      exact .ofExcept s.alike n.pos ((hv.later s.later).binary hu op)
  | logical n op l r =>
      refine (l.abreast_eval h).bind fun {_ _ _ v v'} s hv => ?_
      have settled : settles op v = settles op v' := by
        cases op <;> rw [settles, settles, hv.isTruthy]
      rw [settled]
      split
      · exact .pure s.alike hv
      · exact r.abreast_eval s.alike
  | unary n op e =>
      exact (e.abreast_eval h).bind fun s hv => .ofExcept s.alike n.pos (hv.unary op)
  | step n form target => exact .step h form target
  | cast n target e =>
      exact (e.abreast_eval h).bind fun s hv => .ofExcept s.alike n.pos (hv.castTo target)
  | intToFloat n e =>
      refine (e.abreast_eval h).bind fun s hv => ?_
      cases hv with
      | int k => exact .pure s.alike (.float _)
      | function hf => exact .pure s.alike (.function hf)
      | cls hc => exact .pure s.alike (.cls hc)
      | object ho => exact .pure s.alike (.object ho)
      | _ => exact .pure s.alike (by constructor)
  | get n o x =>
      refine (o.abreast_eval h).bind fun s hv => ?_
      exact (Abreast.expectObject s.alike n.pos hv).bind fun s ho => .property s.alike n.pos ho x
  | set n o x e =>
      refine (o.abreast_eval h).bind fun s hv => ?_
      refine (Abreast.expectObject s.alike n.pos hv).bind fun s ho => ?_
      refine (e.abreast_eval s.alike).bind fun s hv => ?_
      exact (Abreast.setField s.alike (ho.later s.later) x hv).bind fun s _ =>
        .pure s.alike (hv.later s.later)
  | receiver n => exact .lookup h n.pos "this"
  | superMethod n x => exact .superMethod h n.pos x
  | call n callee args =>
      refine (callee.abreast_eval h).bind fun s hf => ?_
      refine (Expr.abreast_evalAll args s.alike).bind fun s hvs => ?_
      exact .ask s.alike (.apply (hf.later s.later) hvs n.pos)
  | printf n format args =>
      refine (Abreast.formatted h format args).bind fun s e => ?_
      subst e
      exact (Abreast.change (s.alike.print _)).bind fun s _ => .pure s.alike .nil
  | sprintf n x format args =>
      refine (Abreast.formatted h format args).bind fun s e => ?_
      subst e
      exact (Abreast.assign s.alike n.pos (.str _) x).bind fun s _ => .pure s.alike .nil
  | scanf n format targets =>
      refine (format.abreast_eval h).bind fun s hv => ?_
      refine (Abreast.expectString s.alike n.pos hv).bind fun s e => ?_
      subst e
      exact (Abreast.scan s.alike n.pos _ targets).bind fun s _ => .pure s.alike .nil

/-! ### Statements -/

theorem Stmt.abreast_exec (st : Stmt) (h : m.Alike w m') : Abreast w m m' Flow.Alike st.exec st.exec :=
  .ask h (.stmt st)

/-- A variable is bound in the frames that both work in. -/
theorem VarDecl.abreast_run (d : VarDecl) (h : m.Alike w m')
    (here : w.pairs m.here.frame m'.here.frame) : Abreast w m m' Same d.run d.run := by
  rw [VarDecl.run]
  split
  · exact (Expr.abreast_eval _ h).bind fun s hv => .define s.alike d.pos hv (s.here here) d.name
  · exact .declare h d.pos here d.name

namespace Eval.Abreast

theorem runStmts (ss : List Stmt) (h : m.Alike w m') :
    Abreast w m m' Flow.Alike (Eval.runStmts ss) (Eval.runStmts ss) := by
  induction ss generalizing w m m' with
  | nil => exact pure h .normal
  | cons st ss ih =>
      refine (st.abreast_exec h).bind fun s hf => ?_
      cases hf with
      | normal => exact ih s.alike
      | ret hv => exact pure s.alike (.ret hv)
      | breakLoop => exact pure s.alike .breakLoop
      | continueLoop => exact pure s.alike .continueLoop

theorem runBody (locals : List VarDecl) (body : List Stmt) (h : m.Alike w m')
    (here : w.pairs m.here.frame m'.here.frame) :
    Abreast w m m' Flow.Alike (Eval.runBody locals body) (Eval.runBody locals body) :=
  (forM (S := Same) (fun _ => id) h (List.forall₂_same.mpr fun _ _ => rfl) fun s e =>
    e ▸ VarDecl.abreast_run _ s.alike (s.here here)).bind fun s _ => runStmts body s.alike

theorem runInit (init : ForInit) (h : m.Alike w m') (here : w.pairs m.here.frame m'.here.frame) :
    Abreast w m m' Same (Eval.runInit init) (Eval.runInit init) := by
  cases init with
  | decl d => exact d.abreast_run h here
  | expr e => exact (e.abreast_eval h).bind fun s _ => pure s.alike rfl

theorem loopTurn (cond : Expr) (update : Option Expr) (body : Stmt) (h : m.Alike w m') :
    Abreast w m m' Flow.Alike (Eval.loopTurn cond update body) (Eval.loopTurn cond update body) := by
  refine (cond.abreast_eval h).bind fun s hv => ?_
  rw [hv.isTruthy]
  split
  · refine (body.abreast_exec s.alike).bind fun s hf => ?_
    cases hf with
    | breakLoop => exact pure s.alike .normal
    | ret hv => exact pure s.alike (.ret hv)
    | normal | continueLoop =>
        cases update with
        | some u => exact (u.abreast_eval s.alike).bind fun s _ => ask s.alike (.loop cond (some u) body)
        | none => exact ask s.alike (.loop cond none body)
  · exact pure s.alike .normal

end Eval.Abreast

theorem Stmt.abreast_start (st : Stmt) (h : m.Alike w m') :
    Abreast w m m' Flow.Alike st.start st.start := by
  cases st with
  | block p locals body => exact .inBlock p p h fun _ alike here => .runBody locals body alike here
  | ifElse p cond t e =>
      refine (cond.abreast_eval h).bind fun s hv => ?_
      rw [hv.isTruthy]
      split
      · exact t.abreast_exec s.alike
      · exact e.abreast_exec s.alike
  | whileLoop p cond body => exact .ask h (.loop cond none body)
  | forLoop p init cond update body =>
      exact .inBlock p p h fun _ alike here => (Abreast.runInit init alike here).bind fun s _ =>
        .ask s.alike (.loop cond (some update) body)
  | ret p value =>
      cases value with
      | none => exact .pure h (.ret .nil)
      | some e => exact (e.abreast_eval h).bind fun s hv => .pure s.alike (.ret hv)
  | breakLoop p => exact .pure h .breakLoop
  | continueLoop p => exact .pure h .continueLoop
  | expr p e => exact (e.abreast_eval h).bind fun s _ => .pure s.alike .normal
  | empty p => exact .pure h .normal

/-! ### Calls -/

namespace Builtin

/-- What a built-in function does to two machines alike. -/
def Alike (w : Matching) (m m' : Machine) (r r' : Option (Except Cause Value × Machine)) : Prop :=
  Option.Rel (fun r r' => Agree (Value.Alike w) r.1 r'.1 ∧ Alongside w m m' w r.2 r'.2) r r'

/-- One argument is what all of them take. -/
theorem alike_call_one (b : Builtin) (h : m.Alike w m') (hv : v.Alike w v') :
    Alike w m m' (b.call [v] m) (b.call [v'] m') := by
  cases b with
  | print =>
      rw [call, call, h.heap.text? hv]
      cases m'.heap.text? v' with
      | none => exact .none
      | some text =>
          have s := h.print text
          exact .some ⟨.ok .nil, s.trans (s.alike.print "\n")⟩
  | input =>
      rw [call, call, h.heap.text? hv]
      cases m'.heap.text? v' with
      | none => exact .none
      | some text =>
          have s := h.print text
          obtain ⟨same, read⟩ := s.alike.readLine
          have s := s.trans read
          simp only [Option.map_some]
          generalize (m.print text).readLine = r, (m'.print text).readLine = r' at same s
          obtain ⟨line, m₁⟩ := r
          obtain ⟨line', m₁'⟩ := r'
          obtain rfl : line = line' := same
          cases line with
          | some line => exact .some ⟨.ok (.str _), s⟩
          | none => exact .some ⟨.error _, s⟩
  | len =>
      have refused : Alike w m m' (some (.error (.builtinCallFailure "len"
          ("a value of type " ++ v.typeName ++ " has no length")), m))
          (some (.error (.builtinCallFailure "len"
          ("a value of type " ++ v'.typeName ++ " has no length")), m')) := by
        rw [hv.typeName]
        exact .some ⟨.error _, .refl h⟩
      cases hv with
      | str s => exact .some ⟨.ok (.int _), .refl h⟩
      | array id =>
          rw [call, call, h.heap.length]
          exact .some ⟨.ok (.int _), .refl h⟩
      | _ => exact refused
  | typeOf =>
      rw [call, call, hv.typeName]
      exact .some ⟨.ok (.str _), .refl h⟩

theorem alike_call (b : Builtin) {args args' : List Value} (h : m.Alike w m')
    (ha : List.Forall₂ (Value.Alike w) args args') : Alike w m m' (b.call args m) (b.call args' m') := by
  have refused : Alike w m m' (some (.error (.callArityMismatch b.name 1 args.length), m))
      (some (.error (.callArityMismatch b.name 1 args'.length), m')) := by
    rw [ha.length_eq]
    exact .some ⟨.error _, .refl h⟩
  cases ha with
  | nil => cases b <;> exact refused
  | cons hv ha =>
      cases ha with
      | nil => exact b.alike_call_one h hv
      | cons _ _ => cases b <;> cases hv <;> exact refused

theorem abreast_apply (b : Builtin) (p : Position) {args args' : List Value} (h : m.Alike w m')
    (ha : List.Forall₂ (Value.Alike w) args args') :
    Abreast w m m' Value.Alike (b.apply args p) (b.apply args' p) := by
  have called := b.alike_call h ha
  rw [Abreast, Builtin.apply, Builtin.apply, ha.length_eq]
  split
  · generalize b.call args m = r, b.call args' m' = r' at called
    cases called with
    | none => exact .endless
    | @some r r' hr =>
        obtain ⟨r, m₁⟩ := r
        obtain ⟨r', m₁'⟩ := r'
        obtain ⟨hr, s⟩ := hr
        cases hr with
        | ok hv => exact .finished ⟨s, .ok hv⟩
        | error c => exact .finished ⟨s, .error _⟩
  · exact .finished ⟨.refl h, .error _⟩

end Builtin

namespace Eval.Abreast

/-- Parameters are bound in frames that go together. -/
theorem bindParams {k k' : Handle} (hk : w.pairs k.frame k'.frame) (p : Position) (params : List Param)
    {args args' : List Value} (h : m.Alike w m') (ha : List.Forall₂ (Value.Alike w) args args') :
    Abreast w m m' Same (Eval.bindParams k p params args) (Eval.bindParams k' p params args') := by
  refine forM (S := fun w (x x' : Param × Value) => x.1 = x'.1 ∧ x.2.Alike w x'.2)
    (fun le hx => ⟨hx.1, hx.2.later le⟩) h (forall₂_zip_left ha params) fun s hx => ?_
  rw [hx.1]
  exact defineAt s.alike p hx.2 (s.later.pairs hk) _

theorem result (f : FuncDecl) {flow flow' : Flow} (h : m.Alike w m') (hf : flow.Alike w flow') :
    Abreast w m m' Value.Alike (Eval.result f flow) (Eval.result f flow') := by
  cases hf with
  | normal => exact pure h .nil
  | ret hv => exact pure h hv
  | breakLoop | continueLoop => exact fail h _ _

theorem callClosure {f f' : Closure} (hf : f.Alike w f') {args args' : List Value} (h : m.Alike w m')
    (ha : List.Forall₂ (Value.Alike w) args args') :
    Abreast w m m' Value.Alike (Eval.callClosure f args) (Eval.callClosure f' args') := by
  rw [Eval.callClosure, Eval.callClosure, hf.decl, ha.length_eq]
  split
  · obtain ⟨w₁, opened, frame⟩ := h.openFrame hf.scope
    refine (make (R := Handle.Alike) (f := (·.openFrame f.scope)) (g := (·.openFrame f'.scope))
      opened frame).bind fun s hk => ?_
    refine (bindParams hk.frame _ _ s.alike (ha.imp fun _ _ hv => hv.later s.later)).bind fun s' _ => ?_
    have here := s'.later.pairs hk.frame
    refine (counted _ s'.alike fun n => inScope (s'.alike.counting n) ?_).bind fun s hflow =>
      result _ s.alike hflow
    exact runBody _ _ ((s'.alike.counting n).enter here) here
  · exact fail h _ _

theorem instantiate {c c' : Class} (hc : c.Alike w c') {args args' : List Value} (h : m.Alike w m')
    (ha : List.Forall₂ (Value.Alike w) args args') :
    Abreast w m m' Value.Alike (Eval.instantiate c args) (Eval.instantiate c' args') := by
  rw [Eval.instantiate, Eval.instantiate]
  obtain ⟨object, made⟩ := h.newObject hc
  refine (make (R := Object.Alike) (f := (·.newObject c)) (g := (·.newObject c')) made object).bind
    fun s ho => ?_
  have found := (hc.later s.later).method? "init"
  have ha := ha.imp fun _ _ hv => hv.later s.later
  generalize c.method? "init" = init, c'.method? "init" = init' at found
  cases found with
  | @some a b hab =>
      obtain ⟨w₁, bound, hf⟩ := s.alike.bindMethod ho hab
      refine (make (R := Closure.Alike) (f := (·.bindMethod _ a)) (g := (·.bindMethod _ b))
        bound hf).bind fun s hf => ?_
      refine (callClosure hf s.alike (ha.imp fun _ _ hv => hv.later s.later)).bind fun s' _ => ?_
      exact pure s'.alike (.object ((ho.later s.later).later s'.later))
  | none =>
      have empty : args.isEmpty = args'.isEmpty := by cases ha <;> rfl
      have name : c.name = c'.name := hc.own.name
      simp only [empty, name, ha.length_eq]
      split
      · exact pure s.alike (.object ho)
      · exact fail s.alike _ _

theorem applyTo {f f' : Value} (hf : f.Alike w f') {args args' : List Value} (p : Position)
    (h : m.Alike w m') (ha : List.Forall₂ (Value.Alike w) args args') :
    Abreast w m m' Value.Alike (Eval.applyTo f args p) (Eval.applyTo f' args' p) := by
  have refused : Abreast w m m' Value.Alike
      (do let text ← Eval.textOf f
          Eval.fail (.notCallable text) p)
      (do let text ← Eval.textOf f'
          Eval.fail (.notCallable text) p) :=
    (textOf h hf).bind fun s e => e ▸ fail s.alike _ p
  cases hf with
  | function hf => exact orAt p (callClosure hf h ha)
  | builtin b => exact b.abreast_apply p h ha
  | cls hc => exact orAt p (instantiate hc h ha)
  | _ => exact refused

end Eval.Abreast

/-! ### Jobs -/

theorem Job.Alike.abreast {j j' : Job} (hj : j.Alike w j') (h : m.Alike w m') :
    Abreast w m m' (fun w => j.Agrees w j') j.start j'.start := by
  cases hj with
  | expr e => exact e.abreast_start h
  | stmt s => exact s.abreast_start h
  | loop cond update body => exact .loopTurn cond update body h
  | apply hf ha p => exact .applyTo hf p h ha

namespace Progress

variable {Q : Except Error α → Machine → Except Error β → Machine → Prop} {p : Progress α} {q : Progress β}

/-- The answers to two jobs, or that neither has one. -/
abbrev Answered (w : Matching) (m m' : Machine) (j j' : Job) :=
  Option.Rel fun (x : Except Error j.Answer × Machine) (x' : Except Error j'.Answer × Machine) =>
    Ended w m m' (fun w => j.Agrees w j') x.1 x.2 x'.1 x'.2

/-- Where jobs are answered alike, what goes abreast is completed alike. -/
theorem Abreast.complete_of {depth : Nat} (h : p.Abreast Q q)
    (answers : ∀ {w m m' j j'}, j.Alike w j' → m.Alike w m' →
      Answered w m m' j j' (j.run depth m) (j'.run depth m')) :
    Option.Rel (fun x x' => Q x.1 x.2 x'.1 x'.2) (p.complete (Job.run depth))
      (q.complete (Job.run depth)) := by
  induction h with
  | finished h => exact .some h
  | @waiting w j j' m m' resume resume' hm hj _ ih =>
      have answer := answers hj hm
      rw [complete, complete]
      cases e : j.run depth m with
      | none =>
          rw [e] at answer
          generalize j'.run depth m' = x' at answer
          cases answer
          exact .none
      | some x =>
          cases e' : j'.run depth m' with
          | none => rw [e, e'] at answer; cases answer
          | some x' =>
              rw [e, e'] at answer
              cases answer with
              | some ended =>
                  obtain ⟨s, hr⟩ := ended
                  exact ih _ _ _ _ _ s hr ⟨depth, e⟩ ⟨depth, e'⟩
  | endless => exact .none

end Progress

/-- Alike jobs are answered alike, and at the same depth. -/
theorem Job.Alike.run : ∀ (depth : Nat) {w : Matching} {m m' : Machine} {j j' : Job}, j.Alike w j' →
    m.Alike w m' → Progress.Answered w m m' j j' (j.run depth m) (j'.run depth m')
  | 0, _, _, _, _, _, _, _ => .none
  | depth + 1, _, _, _, _, _, hj, h => Progress.Abreast.complete_of (hj.abreast h) (Job.Alike.run depth)

namespace Progress

/-- An end of either computation is one of the other too, and the ends are in `Q`. -/
structure Coincide (Q : Except Error α → Machine → Except Error β → Machine → Prop) (p : Progress α)
    (q : Progress β) : Prop where
  forth : ∀ {r m}, p.Steps (.finished r m) → ∃ r' m', q.Steps (.finished r' m') ∧ Q r m r' m'
  back  : ∀ {r' m'}, q.Steps (.finished r' m') → ∃ r m, p.Steps (.finished r m) ∧ Q r m r' m'

variable {Q : Except Error α → Machine → Except Error β → Machine → Prop} {p : Progress α} {q : Progress β}

/-- What goes abreast comes to alike ends. -/
theorem Abreast.coincide (h : p.Abreast Q q) : p.Coincide Q q where
  forth {r m} hs := by
    obtain ⟨depth, e⟩ := complete_of_steps hs
    have ends := h.complete_of (Job.Alike.run depth)
    rw [e] at ends
    obtain ⟨⟨r', m'⟩, e', hQ⟩ := some_of_rel ends
    exact ⟨r', m', steps_of_complete q e', hQ⟩
  back {r' m'} hs := by
    obtain ⟨depth, e⟩ := complete_of_steps hs
    have ends := h.complete_of (Job.Alike.run depth)
    rw [e] at ends
    obtain ⟨⟨r, m⟩, e', hQ⟩ := some_of_rel' ends
    exact ⟨r, m, steps_of_complete p e', hQ⟩

end Progress

end Brace
