import Brace.Proofs.Run.Begun
import Brace.Proofs.Run.Restore

/-!
# Run — what all evaluation has in common

All that a node of a program does is made of few things: single operations on the machine, which end
at once or never; questions, which are answered by other evaluations; and what puts things back on the
way out. A property of computations that these have, and that passes from parts to what is made of
them (`Eval.Closed`), holds of whatever a job starts with, a declaration and a program.

An operation changes names, the heap, the output and the input, and never anything of these at will:
what was there before stays there, text is added to the output, and the input loses text at its front
(`Machine.Moved`). The arrays on the heap are changed by a few kinds of expressions alone
(`Expr.usesArrays`); all other operations spare them (`Machine.Spared`).

Operators, and what finds the array under a name, are all that may fail for their operands
(`Expr.operates`), so a property that rules this out still holds of all the rest.

* `Expr.start_sparing`: all expressions but those that use arrays themselves.
* `Job.start_closed`, `Decl.run_closed`, `Program.run_closed`: all that runs.
-/

namespace Brace

variable {α β γ : Type}

namespace Machine

/-- The second machine has written more than the first, and read more. -/
structure Logged (m m' : Machine) : Prop where
  output : ∃ text, m'.output = m.output ++ text
  input  : m'.input.rest <:+ m.input.rest

namespace Logged

variable {m m' m₁ m₂ m₃ : Machine}

/-- Neither has anything been written nor read. -/
theorem of_same (ho : m'.output = m.output) (hi : m'.input = m.input) : m.Logged m' :=
  ⟨⟨"", by rw [ho, String.append_empty]⟩, [], congrArg Input.rest hi⟩

theorem refl (m : Machine) : m.Logged m := of_same rfl rfl

theorem trans (h₁ : m₁.Logged m₂) (h₂ : m₂.Logged m₃) : m₁.Logged m₃ where
  output := by
    obtain ⟨text₁, e₁⟩ := h₁.output
    obtain ⟨text₂, e₂⟩ := h₂.output
    exact ⟨text₁ ++ text₂, by rw [e₂, e₁, String.append_assoc]⟩
  input := h₂.input.trans h₁.input

end Logged

/-- To print writes more and reads nothing. -/
theorem logged_print (m : Machine) (text : String) : m.Logged (m.print text) :=
  ⟨⟨text, rfl⟩, List.suffix_rfl⟩

theorem logged_printLine (m : Machine) (text : String) : m.Logged (m.printLine text) :=
  (m.logged_print text).trans ((m.print text).logged_print "\n")

/-- To read a line reads more and writes nothing. -/
theorem logged_readLine (m : Machine) : m.Logged m.readLine.2 := by
  refine ⟨⟨"", (String.append_empty).symm⟩, ?_⟩
  show m.input.readLine.2.rest <:+ m.input.rest
  rw [Input.readLine]
  split
  · exact List.suffix_rfl
  · exact (List.drop_suffix 1 _).trans (List.dropWhile_suffix _)

/-- To read a word reads more and writes nothing. -/
theorem logged_readWord (m : Machine) : m.Logged m.readWord.2 := by
  refine ⟨⟨"", (String.append_empty).symm⟩, ?_⟩
  show m.input.readWord.2.rest <:+ m.input.rest
  rw [Input.readWord]
  split
  · exact List.nil_suffix
  · rename_i cs _
    exact (List.dropWhile_suffix _).trans (List.dropWhile_suffix _)

/-- What a single operation may do. -/
structure Moved (m m' : Machine) : Prop extends m.Restored m', m.Logged m'

namespace Moved

theorem refl (m : Machine) : m.Moved m := ⟨.refl m, .refl m⟩

/-- Names and what is on the heap may have changed. -/
theorem inner {m : Machine} {scopes : Forest Value} {heap : Heap}
    (h : m.Restored { m with scopes, heap }) : m.Moved { m with scopes, heap } :=
  ⟨h, .of_same rfl rfl⟩

/-- To bind a name moves neither the input nor the output. -/
theorem bind (m : Machine) (i : FrameId) (x : String) (b : Option Value) : m.Moved (m.bind i x b) :=
  inner (m.restored_bind i x b)

/-- So it is with a change of the heap. -/
theorem ofHeap {m : Machine} {heap : Heap} (h : m.heap.Grown heap) : m.Moved { m with heap } :=
  inner (.ofHeap h)

theorem openFrame (m : Machine) (h : Handle) : m.Moved (m.openFrame h).2 :=
  inner (m.restored_openFrame h)

theorem bindMethod (m : Machine) (o : Object) (method : Tier × FuncDecl) :
    m.Moved (m.bindMethod o method).2 :=
  inner (Keeps.bindMethod (A := anywhere) (Nat.le_refl _) o method).toRestored

theorem superFrame (m : Machine) (c : Class) : m.Moved (m.superFrame c).2 :=
  inner (m.restored_superFrame c)

theorem print (m : Machine) (text : String) : m.Moved (m.print text) :=
  ⟨m.restored_io _ _, m.logged_print text⟩

theorem printLine (m : Machine) (text : String) : m.Moved (m.printLine text) :=
  ⟨m.restored_io _ _, m.logged_printLine text⟩

theorem readWord (m : Machine) : m.Moved m.readWord.2 := ⟨m.restored_io _ _, m.logged_readWord⟩

end Moved

/-- What a single operation may do that leaves arrays alone. -/
structure Spared (m m' : Machine) : Prop extends m.Moved m' where
  arrays : m'.heap.arrays = m.heap.arrays

theorem Spared.refl (m : Machine) : m.Spared m := ⟨.refl m, rfl⟩

end Machine

/-- The name of the array of which the expression is an element. -/
def Expr.arrayOf? : Expr → Option String
  | .index _ x _ => some x
  | _            => none

/-- The property passes from parts to what is made of them, as long as nothing is blamed on a call.
Questions have it. -/
structure Eval.Joined (P : {α : Type} → Eval α → Prop) : Prop where
  ask     : ∀ j : Job, P (Eval.ask j)
  bind    : ∀ {α β : Type} {x : Eval α} {f : α → Eval β}, P x → (∀ a, P (f a)) → P (x >>= f)
  inBlock : ∀ {α : Type} (p : Position) {x : Eval α}, P x → P (Eval.inBlock p x)
  inScope : ∀ {α : Type} (h : Handle) {x : Eval α}, P x → P (Eval.inScope h x)
  counted : ∀ {α : Type} (p : Position) {x : Eval α}, P x → P (Eval.counted p x)

/-- The property passes from parts to what is made of them. -/
structure Eval.Passed (P : {α : Type} → Eval α → Prop) : Prop extends Eval.Joined P where
  orAt    : ∀ {α : Type} (p : Position) {x : Eval α}, P x → P (Eval.orAt p x)

/-- Single operations and questions have the property, and it passes from parts to what is made of
them. -/
structure Eval.Closed (P : {α : Type} → Eval α → Prop) : Prop extends Eval.Passed P where
  /-- What ends at once or never, after one operation at most. -/
  ends : ∀ {α : Type} {x : Eval α},
    (∀ m, x m = .endless ∨ ∃ r m', x m = .finished r m' ∧ m.Moved m') → P x

/-- So it is for the operations on the way that leave arrays alone. -/
structure Eval.Sparing (P : {α : Type} → Eval α → Prop) : Prop extends Eval.Joined P where
  ends : ∀ {α : Type} {x : Eval α}, (∀ m, x m = .endless ∨
    ∃ r m', x m = .finished r m' ∧ m.Spared m' ∧ Ordinary (r.mapError Error.cause)) → P x

/-- So it is for the operations that can be met on the way, before anything is blamed on a call. -/
structure Eval.Plain (P : {α : Type} → Eval α → Prop) : Prop extends Eval.Joined P where
  ends : ∀ {α : Type} {x : Eval α}, (∀ m, x m = .endless ∨
    ∃ r m', x m = .finished r m' ∧ m.Moved m' ∧ Ordinary (r.mapError Error.cause)) → P x

/-- Operators have the property, whatever their operands are, and so has what finds the array under a
name, whatever the name holds. -/
structure Eval.Operates (P : {α : Type} → Eval α → Prop) : Prop where
  binary : ∀ (p : Position) (op : BinaryOp) (v w : Value), P (Eval.ofExcept p (Value.binary op v w))
  unary  : ∀ (p : Position) (op : UnaryOp) (v : Value), P (Eval.ofExcept p (Eval.unary op v))
  array  : ∀ (x : String) (p : Position), P (Eval.lookupArray x p)

/-- A result that is given ends what it is given for, and changes nothing. -/
theorem Eval.ofExcept_ends {α : Type} (p : Position) {r : Except Cause α} (h : Begun r) (m : Machine) :
    ∃ r', Eval.ofExcept p r m = .finished r' m ∧ Begun (r'.mapError Error.cause) := by
  cases r <;> exact ⟨_, rfl, h⟩

/-- Whether there is an array under a name is seen at once, and nothing is changed for it. -/
theorem Eval.lookupArray_ends (x : String) (p : Position) (m : Machine) :
    ∃ r, Eval.lookupArray x p m = .finished r m ∧ Begun (r.mapError Error.cause) := by
  simp only [Eval.lookupArray, bind_apply, Eval.lookup, consult]
  cases found : m.lookup x with
  | error c => exact ⟨_, rfl, ((m.ordinary_lookup x).error found).1⟩
  | ok v => cases v <;> exact ⟨_, rfl, by trivial⟩

/-- What holds of whatever ends at once, and fails as a run may that has begun, holds of operators. -/
theorem Eval.Operates.of_begun {P : {α : Type} → Eval α → Prop}
    (h : ∀ {α : Type} {x : Eval α},
      (∀ m, ∃ r, x m = .finished r m ∧ Begun (r.mapError Error.cause)) → P x) : Operates P where
  binary p op v w := h (ofExcept_ends p (Value.begun_binary op v w))
  unary p op v := h (ofExcept_ends p (Value.begun_unary op v))
  array x p := h (lookupArray_ends x p)

/-- So it is for the operations that can be met on the way. -/
structure Eval.Underway (P : {α : Type} → Eval α → Prop) : Prop
    extends Eval.Plain P, Eval.Passed P, Eval.Operates P

/-- What every piece of evaluation has, the pieces have that are under way. -/
theorem Eval.Closed.underway {P : {α : Type} → Eval α → Prop} (hP : Eval.Closed P) :
    Eval.Underway P where
  toJoined := hP.toJoined
  orAt := hP.orAt
  ends h := hP.ends fun m => by
    obtain e | ⟨r, m', e, hm, -⟩ := h m
    · exact .inl e
    · exact .inr ⟨r, m', e, hm⟩
  toOperates := .of_begun fun h => hP.ends fun m => by
    obtain ⟨r, e, -⟩ := h m
    exact .inr ⟨r, m, e, .refl m⟩

/-- What plain pieces have, sparing ones have. -/
theorem Eval.Plain.sparing {P : {α : Type} → Eval α → Prop} (hP : Eval.Plain P) :
    Eval.Sparing P where
  toJoined := hP.toJoined
  ends h := hP.ends fun m => by
    obtain e | ⟨r, m', e, hm, ordinary⟩ := h m
    · exact .inl e
    · exact .inr ⟨r, m', e, hm.toMoved, ordinary⟩

namespace Eval.Sparing

open Machine

variable {P : {α : Type} → Eval α → Prop} (hP : Sparing P)

include hP

/-! ### Single steps -/

/-- What ends at once, and for no more than an ordinary reason, is among these. -/
theorem of_finished {x : Eval α} (h : ∀ m, ∃ r m', x m = .finished r m' ∧ m.Spared m' ∧
    Ordinary (r.mapError Error.cause)) : P x := hP.ends fun m => .inr (h m)

theorem pure (a : α) : P (Pure.pure a : Eval α) :=
  hP.of_finished fun m => ⟨_, m, rfl, .refl m, trivial⟩

theorem fail (c : Cause) (p : Position) (hc : Ordinary (.error c : Except Cause α)) :
    P (fail c p : Eval α) := hP.of_finished fun m => ⟨_, m, rfl, .refl m, hc⟩

/-- An internal error of which the reason is not about operands. -/
theorem fail_internal {reason : String} (p : Position) {c : Char} (h : reason.toList.head? = some c)
    (ne : c ≠ 'u' ∧ c ≠ '"') : P (Eval.fail (.internalError reason) p : Eval α) :=
  hP.fail _ p (.internal h ne)

/-- A result that is given from outside is among these if it fails for an ordinary reason. -/
theorem ofExcept (p : Position) : ∀ {r : Except Cause α}, Ordinary r → P (ofExcept p r)
  | .ok a, _     => hP.pure a
  | .error c, hc => hP.fail c p hc

theorem view (f : Machine → α) : P (view f) :=
  hP.of_finished fun m => ⟨_, m, rfl, .refl m, trivial⟩

/-- So is what is consulted. -/
theorem consult (p : Position) {f : Machine → Except Cause α} (hf : ∀ m, Ordinary (f m)) :
    P (consult p f) := hP.of_finished fun m => by
  simp only [Eval.consult]
  split
  · exact ⟨_, m, rfl, .refl m, trivial⟩
  · exact ⟨_, m, rfl, .refl m, (hf m).error ‹_›⟩

/-- Whether a value has a text or not, to show it is among these. -/
theorem textOf (v : Value) : P (textOf v) := hP.ends fun m => by
  simp only [Eval.textOf]
  split
  · exact .inr ⟨_, m, rfl, .refl m, trivial⟩
  · exact .inl rfl

theorem change {f : Machine → Machine} (h : ∀ m : Machine, m.Spared (f m)) : P (change f) :=
  hP.of_finished fun m => ⟨_, f m, rfl, h m, trivial⟩

theorem make {f : Machine → α × Machine} (h : ∀ m : Machine, m.Spared (f m).2) : P (make f) :=
  hP.of_finished fun m => ⟨_, (f m).2, rfl, h m, trivial⟩

/-- So is a change that may be refused for an ordinary reason. -/
theorem update {p : Position} {check : Machine → Except Cause β} {write : β → Machine → Machine}
    (hc : ∀ m, Ordinary (check m)) (h : ∀ (b : β) (m : Machine), m.Spared (write b m)) :
    P (update p check write) := hP.of_finished fun m => by
  simp only [Eval.update]
  split
  · exact ⟨_, m, rfl, .refl m, (hc m).error ‹_›⟩
  · exact ⟨_, _, rfl, h _ m, trivial⟩

/-! ### One thing after another -/

theorem map {x : Eval α} (f : α → β) (hx : P x) : P (f <$> x) := hP.bind hx fun a => hP.pure (f a)

/-- What is done for one after another is among these if each of the steps is. -/
theorem forM {f : γ → Eval Unit} (h : ∀ c, P (f c)) : ∀ cs : List γ, P (cs.forM f)
  | []      => hP.pure ()
  | c :: cs => hP.bind (h c) fun _ => forM h cs

/-- Expressions may be evaluated one after another. -/
theorem evalAll (es : List Expr) : P (es.mapM Expr.eval) := by
  induction es with
  | nil =>
      rw [List.mapM_nil]
      exact hP.pure []
  | cons e es ih =>
      rw [List.mapM_cons]
      exact hP.bind (hP.ask (.expr e)) fun v => hP.bind ih fun vs => hP.pure (v :: vs)

/-! ### The pieces of expressions -/

/-- A name that cannot be looked up fails for an ordinary reason. -/
theorem lookup (x : String) (p : Position) : P (lookup x p) := hP.consult p (·.ordinary_lookup x)

/-- So does an assignment. -/
theorem assign (x : String) (v : Value) (p : Position) : P (assign x v p) :=
  hP.update (·.scopes.ordinary_assignable _ x) fun i m => ⟨.bind m i x _, rfl⟩

/-- So does a definition. -/
theorem defineAt (h : Handle) (x : String) (v : Value) (p : Position) : P (defineAt h x v p) :=
  hP.update (·.scopes.ordinary_definable h x) fun i m => ⟨.bind m i x _, rfl⟩

theorem define (x : String) (v : Value) (p : Position) : P (define x v p) :=
  hP.update (·.scopes.ordinary_definable _ x) fun i m => ⟨.bind m i x _, rfl⟩

theorem declare (x : String) (p : Position) : P (declare x p) :=
  hP.update (·.scopes.ordinary_declarable _ x) fun i m => ⟨.bind m i x none, rfl⟩

theorem expectInt (v : Value) (p : Position) : P (expectInt v p) := by
  cases v with
  | int n => exact hP.pure n
  | _ => exact hP.fail_internal p (c := 'e') (by simp) (by decide)

theorem expectString (v : Value) (p : Position) : P (expectString v p) := by
  cases v with
  | str s => exact hP.pure s
  | _ => exact hP.fail_internal p (c := 'e') (by simp) (by decide)

/-- What is no object fails for an ordinary reason. -/
theorem expectObject (v : Value) (p : Position) : P (expectObject v p) := by
  cases v <;> first | exact hP.pure _ | exact hP.bind (hP.textOf _) fun _ => hP.fail _ _ ⟨rfl, rfl⟩

theorem element (id : ArrayId) (i : Int64) (p : Position) : P (element id i p) :=
  hP.consult p (·.heap.ordinary_element id i)

theorem setField (o : Object) (x : String) (v : Value) : P (setField o x v) :=
  hP.change fun _ => ⟨.ofHeap (.setField ..), rfl⟩

theorem bindMethod (o : Object) (method : Tier × FuncDecl) :
    P (Eval.make (·.bindMethod o method)) := hP.make fun m => ⟨.bindMethod m o method, rfl⟩

/-- So does a property that is not there. -/
theorem property (o : Object) (x : String) (p : Position) : P (property o x p) :=
  hP.bind (hP.view _) fun v => by
    cases v with
    | some v => exact hP.pure v
    | none =>
        cases o.cls.method? x with
        | some method => exact hP.bind (hP.bindMethod o method) fun _ => hP.pure _
        | none => exact hP.fail _ p ⟨rfl, rfl⟩

/-- To find the place that a target stands for changes nothing. -/
theorem place (target : Expr) (array : ∀ x p, target.arrayOf? = some x → P (lookupArray x p)) :
    P (place target) := by
  cases target with
  | name n x => exact hP.pure _
  | index n x i =>
      exact hP.bind (array x _ rfl) fun _ => hP.bind (hP.ask (.expr i)) fun _ =>
        hP.bind (hP.expectInt _ _) fun _ => hP.pure _
  | get n o x =>
      exact hP.bind (hP.ask (.expr o)) fun _ => hP.bind (hP.expectObject _ _) fun _ => hP.pure _
  | _ => exact hP.fail _ _ ⟨rfl, rfl⟩

/-- Nor does it change anything to read it. -/
theorem read (p : Position) (here : Place) : P (here.read p) := by
  cases here with
  | var x => exact hP.lookup x p
  | element id i => exact hP.element id i p
  | field o x => exact hP.property o x p

/-- The template is filled as it is looked at, so that what it fails for is known. -/
theorem fill (template : String) (values : List Value) (p : Position) :
    P ((Eval.view fun m => Template.fill m.heap.text? template values) >>= fun
      | some r => Eval.ofExcept p r
      | none   => Eval.endless) := hP.ends fun m => by
  simp only [bind_apply, Eval.view, Progress.finished_andThen, Progress.onValue]
  cases e : Template.fill m.heap.text? template values with
  | none => exact .inl rfl
  | some r =>
      have begun := Template.ordinary_fill e
      cases r with
      | ok text => exact .inr ⟨_, m, rfl, .refl m, trivial⟩
      | error c => exact .inr ⟨_, m, rfl, .refl m, begun⟩

theorem formatted (format : Expr) (args : List Expr) : P (formatted format args) :=
  hP.bind (hP.ask (.expr format)) fun _ => hP.bind (hP.expectString _ _) fun _ =>
    hP.bind (hP.evalAll args) fun _ => hP.fill ..

/-- A method of the superclass is found, or it fails for an ordinary reason. -/
theorem superMethod (x : String) (p : Position) : P (superMethod x p) :=
  hP.bind (hP.lookup "super" p) fun v => by
    cases v with
    | cls c =>
        refine hP.bind (hP.lookup "this" p) fun v => hP.bind (hP.expectObject v p) fun o => ?_
        cases c.method? x with
        | some method => exact hP.bind (hP.bindMethod o method) fun _ => hP.pure _
        | none => exact hP.fail _ p ⟨rfl, rfl⟩
    | _ => exact hP.fail_internal p (c := '`') (by simp) (by decide)

end Eval.Sparing

namespace Eval.Plain

variable {P : {α : Type} → Eval α → Prop} (hP : Plain P)

include hP

/-! ### What is done with arrays -/

/-- A new array is made, or there is no room for it. -/
theorem newArray (t : Ty) (n : Int64) (p : Position) : P (newArray t n p) :=
  hP.ends fun m => .inr <| by
    simp only [Eval.newArray]
    split
    · exact ⟨_, m, rfl, .refl m, rfl, rfl⟩
    · split
      · exact ⟨_, m, rfl, .refl m, (m.heap.ordinary_newArray ..).error ‹_›⟩
      · exact ⟨_, _, rfl, .ofHeap (.newArray ‹_›), trivial⟩

/-- An element is set, or the index is out of bounds. -/
theorem setElement (id : ArrayId) (i : Int64) (v : Value) (p : Position) :
    P (setElement id i v p) := hP.ends fun m => .inr <| by
  simp only [Eval.setElement, update]
  split
  · exact ⟨_, m, rfl, .refl m, (m.heap.ordinary_slot id i).error ‹_›⟩
  · exact ⟨_, _, rfl, .ofHeap (.write ..), trivial⟩

theorem write (v : Value) (p : Position) (here : Place) : P (here.write v p) := by
  cases here with
  | var x => exact hP.sparing.assign x v p
  | element id i => exact hP.setElement id i v p
  | field o x => exact hP.sparing.setField o x v

theorem step (hO : Operates P) (form : StepForm) (target : Expr) : P (step form target) :=
  hP.bind (hP.sparing.place target fun x p _ => hO.array x p) fun here =>
    hP.bind (hP.sparing.read _ here) fun _ =>
      hP.bind (hP.sparing.ofExcept _ (Value.ordinary_stepped ..)) fun _ =>
        hP.bind (hP.write _ _ here) fun _ => hP.sparing.pure _

theorem scanInto (hO : Operates P) (p : Position) (s : Specifier) (target : Expr) :
    P (scanInto p s target) :=
  hP.bind (hP.sparing.make fun m => ⟨.readWord m, rfl⟩) fun word => by
    cases word with
    | none => exact hP.sparing.fail _ p ⟨rfl, rfl⟩
    | some word =>
        dsimp only
        cases s.read word with
        | some v =>
            exact hP.bind (hP.sparing.place target fun x p _ => hO.array x p) fun here =>
              hP.write v _ here
        | none => exact hP.sparing.fail _ p ⟨rfl, rfl⟩

theorem scan (hO : Operates P) (p : Position) (template : String) (targets : List Expr) :
    P (scan p template targets) := by
  simp only [Eval.scan]
  split
  · exact hP.sparing.forM (f := fun x : Specifier × Expr => Eval.scanInto p x.1 x.2)
      (fun x => hP.scanInto hO p x.1 x.2) _
  · exact hP.sparing.fail _ p ⟨rfl, rfl⟩

end Eval.Plain

open Eval

variable {P : {α : Type} → Eval α → Prop}

/-! ### Expressions and statements -/

/-- The expression itself may look for the array under a name. -/
def Expr.indexes : Expr → Bool
  | .index .. | .indexAssign .. | .step .. | .scanf .. => true
  | _                                                  => false

/-- The expression itself uses an operator, or may look for the array under a name. -/
def Expr.operates : Expr → Bool
  | .compound .. | .binary .. | .unary .. => true
  | e                                     => e.indexes

/-- What the expression itself does, apart from those inside it, is to make an array or to get or set
elements. -/
def Expr.usesArrays : Expr → Bool
  | .arrayNew ..    => true
  | .index ..       => true
  | .indexAssign .. => true
  | .step ..        => true
  | .scanf ..       => true
  | _               => false

section

variable (hP : Sparing P)

include hP

/-- An expression that does nothing to arrays needs of operators alone that what they give is among
these. -/
theorem Expr.start_sparing (e : Expr) (operates : e.operates = true → Operates P)
    (none : e.usesArrays = false) : P e.start := by
  cases e with
  | arrayNew n t e => cases none
  | index n x i => cases none
  | indexAssign n x i e => cases none
  | step n form target => cases none
  | scanf n format targets => cases none
  | literal n l => exact hP.pure _
  | name n x => exact hP.lookup x n.pos
  | group n e => exact hP.ask (.expr e)
  | assign n x e =>
      exact hP.bind (hP.ask (.expr e)) fun _ => hP.bind (hP.assign _ _ _) fun _ => hP.pure _
  | compound n op x e =>
      exact hP.bind (hP.lookup _ _) fun _ => hP.bind (hP.ask (.expr e)) fun _ =>
        hP.bind ((operates rfl).binary _ _ _ _) fun _ =>
          hP.bind (hP.assign _ _ _) fun _ => hP.pure _
  | binary n op l r =>
      exact hP.bind (hP.ask (.expr l)) fun _ => hP.bind (hP.ask (.expr r)) fun _ =>
        (operates rfl).binary _ _ _ _
  | logical n op l r =>
      refine hP.bind (hP.ask (.expr l)) fun v => ?_
      show P (if settles op v then Pure.pure v else r.eval)
      split
      · exact hP.pure _
      · exact hP.ask (.expr r)
  | unary n op e =>
      exact hP.bind (hP.ask (.expr e)) fun _ => (operates rfl).unary _ _ _
  | cast n target e =>
      exact hP.bind (hP.ask (.expr e)) fun _ => hP.ofExcept _ (Value.ordinary_castTo ..)
  | intToFloat n e =>
      exact hP.bind (hP.ask (.expr e)) fun v => by cases v <;> exact hP.pure _
  | get n o x =>
      exact hP.bind (hP.ask (.expr o)) fun _ => hP.bind (hP.expectObject _ _) fun o =>
        hP.property o x _
  | set n o x e =>
      exact hP.bind (hP.ask (.expr o)) fun _ => hP.bind (hP.expectObject _ _) fun _ =>
        hP.bind (hP.ask (.expr e)) fun _ => hP.bind (hP.setField _ _ _) fun _ => hP.pure _
  | receiver n => exact hP.lookup "this" n.pos
  | superMethod n x => exact hP.superMethod x n.pos
  | call n callee args =>
      exact hP.bind (hP.ask (.expr callee)) fun _ => hP.bind (hP.evalAll args) fun _ =>
        hP.ask (.apply ..)
  | printf n format args =>
      exact hP.bind (hP.formatted format args) fun text =>
        hP.bind (hP.change fun m => ⟨.print m text, rfl⟩) fun _ => hP.pure _
  | sprintf n x format args =>
      exact hP.bind (hP.formatted format args) fun _ => hP.bind (hP.assign _ _ _) fun _ => hP.pure _
/-- A variable runs its first value and binds its name. -/
theorem VarDecl.run_closed (v : VarDecl) : P v.run := by
  simp only [VarDecl.run]
  split
  · exact hP.bind (hP.ask (.expr _)) fun _ => hP.define ..
  · exact hP.declare ..

namespace Eval

/-- Statements are executed one after another. -/
theorem runStmts_closed (ss : List Stmt) : P (runStmts ss) := by
  induction ss with
  | nil => exact hP.pure _
  | cons s ss ih =>
      refine hP.bind (hP.ask (.stmt s)) fun flow => ?_
      cases flow with
      | normal => exact ih
      | _ => exact hP.pure _

theorem runBody_closed (locals : List VarDecl) (body : List Stmt) : P (runBody locals body) :=
  hP.bind (hP.forM (VarDecl.run_closed hP) locals) fun _ => runStmts_closed hP body

theorem runInit_closed : ∀ init : ForInit, P (runInit init)
  | .decl v => v.run_closed hP
  | .expr e => hP.bind (hP.ask (.expr e)) fun _ => hP.pure ()

/-- A turn of a loop is made of what it asks for. -/
theorem loopTurn_closed (cond : Expr) (update : Option Expr) (body : Stmt) :
    P (loopTurn cond update body) := by
  refine hP.bind (hP.ask (.expr cond)) fun v => ?_
  split
  · refine hP.bind (hP.ask (.stmt body)) fun flow => ?_
    cases flow with
    | breakLoop => exact hP.pure _
    | ret v => exact hP.pure _
    | _ =>
        cases update with
        | some u => exact hP.bind (hP.ask (.expr u)) fun _ => hP.ask (.loop ..)
        | none => exact hP.ask (.loop ..)
  · exact hP.pure _

end Eval

/-- Every form of statement is made of pieces that are among these. -/
theorem Stmt.start_closed (s : Stmt) : P s.start := by
  cases s with
  | block p locals body => exact hP.inBlock p (runBody_closed hP locals body)
  | ifElse p cond t e =>
      refine hP.bind (hP.ask (.expr cond)) fun v => ?_
      split
      · exact hP.ask (.stmt t)
      · exact hP.ask (.stmt e)
  | whileLoop p cond body => exact hP.ask (.loop ..)
  | forLoop p init cond update body =>
      exact hP.inBlock p (hP.bind (runInit_closed hP init) fun _ => hP.ask (.loop ..))
  | ret p e =>
      cases e with
      | some e => exact hP.bind (hP.ask (.expr e)) fun _ => hP.pure _
      | none => exact hP.pure _
  | expr p e => exact hP.bind (hP.ask (.expr e)) fun _ => hP.pure _
  | _ => exact hP.pure _

/-! ### Calls -/

omit hP in
/-- A builtin changes neither frames nor the heap. -/
theorem Builtin.spared_call {b : Builtin} {args : List Value} {m m' : Machine}
    {r : Except Cause Value} (h : b.call args m = some (r, m')) : m.Spared m' := by
  suffices m.Logged m' ∧ m'.heap.arrays = m.heap.arrays from
    ⟨⟨Builtin.restored_call h, this.1⟩, this.2⟩
  unfold Builtin.call at h
  split at h
  · obtain ⟨text, -, e⟩ := Option.map_eq_some_iff.mp h
    cases e
    exact ⟨m.logged_printLine text, rfl⟩
  · obtain ⟨text, -, e⟩ := Option.map_eq_some_iff.mp h
    have read : ((m.print text).readLine).2 = m' := by split at e <;> simp_all
    rw [← read]
    exact ⟨(m.logged_print text).trans (m.print text).logged_readLine, rfl⟩
  all_goals
    cases h
    exact ⟨.refl m, rfl⟩

/-- A builtin fails for an ordinary reason, if at all. -/
theorem Builtin.apply_closed (b : Builtin) (args : List Value) (p : Position) :
    P (b.apply args p) := hP.ends fun m => by
  simp only [Builtin.apply]
  split
  · split
    · exact .inr ⟨_, _, rfl, Builtin.spared_call ‹_›, trivial⟩
    · exact .inr ⟨_, _, rfl, Builtin.spared_call ‹_›, Builtin.ordinary_call ‹_›⟩
    · exact .inl rfl
  · exact .inr ⟨_, m, rfl, .refl m, rfl, rfl⟩

namespace Eval

theorem bindParams_closed (h : Handle) (p : Position) (params : List Param) (args : List Value) :
    P (bindParams h p params args) :=
  hP.forM (f := fun x : Param × Value => defineAt h x.1.name x.2 p)
    (fun x => hP.defineAt h x.1.name x.2 p) _

theorem result_closed (f : FuncDecl) : ∀ flow : Flow, P (result f flow)
  | .normal       => hP.pure Value.nil
  | .ret v        => hP.pure v
  | .breakLoop    => hP.fail_internal _ (c := 'l') (by simp) (by decide)
  | .continueLoop => hP.fail_internal _ (c := 'l') (by simp) (by decide)

/-- A call of a function is made of pieces that are among these. -/
theorem callClosure_closed (f : Closure) (args : List Value) : P (callClosure f args) := by
  simp only [callClosure]
  split
  · exact hP.bind (hP.make fun m => ⟨.openFrame m f.scope, rfl⟩) fun frame =>
      hP.bind (bindParams_closed hP ..) fun _ =>
        hP.bind (hP.counted _ (hP.inScope frame (runBody_closed hP ..))) fun flow =>
          result_closed hP f.decl flow
  · exact hP.fail _ _ ⟨rfl, rfl⟩

/-- So is a call of a class. -/
theorem instantiate_closed (c : Class) (args : List Value) : P (instantiate c args) := by
  refine hP.bind (hP.make fun _ => ⟨.ofHeap (.newObject _), rfl⟩) fun o => ?_
  split
  · exact hP.bind (hP.bindMethod o _) fun f =>
      hP.bind (callClosure_closed hP f args) fun _ => hP.pure _
  · split
    · exact hP.pure _
    · exact hP.fail _ _ ⟨rfl, rfl⟩

/-- So is a call of anything. -/
theorem applyTo_closed (passed : Passed P) (callee : Value) (args : List Value) (p : Position) :
    P (applyTo callee args p) := by
  cases callee with
  | function f => exact passed.orAt p (callClosure_closed hP f args)
  | builtin b => exact b.apply_closed hP args p
  | cls c => exact passed.orAt p (instantiate_closed hP c args)
  | _ => exact hP.bind (hP.textOf _) fun _ => hP.fail _ _ ⟨rfl, rfl⟩

end Eval

/-! ### Declarations and programs -/

namespace Eval

theorem superclassOf_closed (d : ClassDecl) : P (superclassOf d) := by
  simp only [superclassOf]
  split
  · refine hP.map _ (hP.bind (hP.lookup ..) fun v => ?_)
    cases v with
    | cls c => exact hP.pure c
    | _ => exact hP.fail_internal _ (c := 's') (by simp) (by decide)
  · exact hP.pure _

theorem methodScope_closed : ∀ superclass : Option Class, P (methodScope superclass)
  | some c => hP.make fun m => ⟨.superFrame m c, rfl⟩
  | none   => hP.view _

/-- A class is declared by pieces that are among these. -/
theorem defineClass_closed (d : ClassDecl) : P (defineClass d) :=
  hP.bind (superclassOf_closed hP d) fun superclass =>
    hP.bind (methodScope_closed hP superclass) fun _ =>
      hP.bind (hP.make fun _ => ⟨.ofHeap (.newId _), rfl⟩) fun _ => hP.define ..

theorem echo_closed (v : Value) : P (echo v) := by
  refine hP.bind (hP.view _) fun b => ?_
  split
  · exact hP.bind (hP.textOf v) fun _ => hP.change fun m => ⟨.printLine m _, rfl⟩
  · exact hP.pure _

end Eval

/-- So is each declaration, except for what its first value asks for. -/
theorem Decl.run_sparing : ∀ d : Decl, P d.run
  | .var v  => v.run_closed hP
  | .func _ => hP.bind (hP.make fun _ => ⟨.ofHeap (.newId _), rfl⟩) fun _ => hP.define ..
  | .cls d  => defineClass_closed hP d

/-- The property holds of a program that has something to start with. -/
theorem Program.run_sparing {p : Program} {main : FuncDecl}
    (found : Program.function? p "main" = some main) (none : main.arity = 0) : P (Program.run p) := by
  simp only [Program.run, found, if_pos none]
  exact hP.bind (hP.forM (Decl.run_sparing hP) p) fun _ => hP.bind (hP.lookup ..) fun _ =>
    hP.bind (hP.ask (.apply ..)) fun v => hP.bind (echo_closed hP v) fun _ => hP.pure _

/-- It holds of all programs if it holds of what a program fails with that has nothing to start with. -/
theorem Program.run_sparing_of_fail
    (stopped : ∀ reason q, P (fail (.missingEntryPoint reason) q : Eval Value)) (p : Program) :
    P (Program.run p) := by
  cases found : Program.function? p "main" with
  | none =>
      simp only [Program.run, found]
      exact stopped _ _
  | some main =>
      by_cases none : main.arity = 0
      · exact p.run_sparing hP found none
      · simp only [Program.run, found, if_neg none]
        exact stopped _ _

end

/-! ### All that runs -/

/-- Every form of expression is made of pieces that are among these. -/
theorem Expr.start_closed (hP : Plain P) (e : Expr) (operates : e.operates = true → Operates P) :
    P e.start := by
  have sparing := hP.sparing
  cases e with
  | arrayNew n t e =>
      exact hP.bind (hP.ask (.expr e)) fun _ => hP.bind (sparing.expectInt _ _) fun _ =>
        hP.newArray t _ n.pos
  | index n x i =>
      exact hP.bind ((operates rfl).array _ _) fun _ => hP.bind (hP.ask (.expr i)) fun _ =>
        hP.bind (sparing.expectInt _ _) fun _ => sparing.element _ _ _
  | indexAssign n x i e =>
      exact hP.bind ((operates rfl).array _ _) fun _ => hP.bind (hP.ask (.expr i)) fun _ =>
        hP.bind (sparing.expectInt _ _) fun _ => hP.bind (hP.ask (.expr e)) fun _ =>
          hP.bind (hP.setElement _ _ _ _) fun _ => sparing.pure _
  | step n form target => exact hP.step (operates rfl) form target
  | scanf n format targets =>
      exact hP.bind (hP.ask (.expr format)) fun _ => hP.bind (sparing.expectString _ _) fun _ =>
        hP.bind (hP.scan (operates rfl) n.pos _ targets) fun _ => sparing.pure _
  | _ => exact Expr.start_sparing sparing _ operates rfl

/-- The property holds of what every job starts with. -/
theorem Job.start_underway (hP : Underway P) : ∀ j : Job, P j.start
  | .expr e                => e.start_closed hP.toPlain fun _ => hP.toOperates
  | .stmt s                => s.start_closed hP.sparing
  | .loop cond update body => loopTurn_closed hP.sparing cond update body
  | .apply callee args p   => applyTo_closed hP.sparing hP.toPassed callee args p

section

variable (hP : Closed P)

include hP

/-- So is every job. -/
theorem Job.start_closed (j : Job) : P j.start := j.start_underway hP.underway

theorem Decl.run_closed (d : Decl) : P d.run := d.run_sparing hP.underway.sparing

/-- So is a program. -/
theorem Program.run_closed (p : Program) : P (Program.run p) :=
  p.run_sparing_of_fail hP.underway.sparing fun _ _ => hP.ends fun m => .inr ⟨_, m, rfl, .refl m⟩

end

end Brace
