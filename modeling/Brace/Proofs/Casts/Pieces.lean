import Brace.Proofs.Casts.Edits
import Brace.Proofs.Casts.Recode
import Brace.Proofs.Run.Steps

/-!
# Casts — pieces of evaluation and their edited code

A computation and another one go side by side (`Eval.Edits`) where the second does from each edited
machine what the first does from the machine: they come to the same end, and ask for the same jobs, all
with edited code. The pieces that evaluation is put together from go side by side with themselves.
-/

namespace Brace

open Eval

variable {α β γ δ : Type} (ρ : Edit)

/-! ### Edited machines and jobs -/

abbrev Value.edit (v : Value) : Value := v.recode (FuncDecl.edit ρ)

abbrev Flow.edit (flow : Flow) : Flow := flow.recode (FuncDecl.edit ρ)

abbrev Machine.edit (m : Machine) : Machine := m.recode (FuncDecl.edit ρ)

namespace Job

/-- The job with edited code, where an expression may or may not have to stay of its form. -/
def editAs (formed : Bool) : Job → Job
  | .expr e                => .expr (e.editAs ρ formed)
  | .stmt s                => .stmt (s.edit ρ)
  | .loop cond update body => .loop (cond.edit ρ) (update.map (Expr.editForm ρ)) (body.edit ρ)
  | .apply callee args p   => .apply (callee.edit ρ) (args.map (Value.edit ρ)) p

/-- The answer to the edited job. -/
def editAnswer (formed : Bool) : (j : Job) → j.Answer → (j.editAs ρ formed).Answer
  | .expr _, v    => Value.edit ρ v
  | .stmt _, flow => Flow.edit ρ flow
  | .loop .., flow => Flow.edit ρ flow
  | .apply .., v  => Value.edit ρ v

end Job

/-- The second does with edited code what the first does. -/
inductive Progress.Edits (f : α → β) : Progress α → Progress β → Prop where
  | finished (r : Except Error α) (m : Machine) :
      Edits f (.finished r m) (.finished (r.map f) (m.edit ρ))
  | waiting (formed : Bool) {j : Job} {m : Machine}
      {resume : Except Error j.Answer → Machine → Progress α}
      {resume' : Except Error (j.editAs ρ formed).Answer → Machine → Progress β}
      (h : ∀ r m, Edits f (resume r m) (resume' (r.map (j.editAnswer ρ formed)) (m.edit ρ))) :
      Edits f (.waiting j m resume) (.waiting (j.editAs ρ formed) (m.edit ρ) resume')
  | endless : Edits f .endless .endless

/-- The second does from an edited machine what the first does from the machine. -/
def Eval.Edits (f : α → β) (x : Eval α) (y : Eval β) : Prop :=
  ∀ m, (x m).Edits ρ f (y (m.edit ρ))

variable {ρ}

/-- A function keeps its name when its body is edited. -/
theorem FuncDecl.name_edit (f : FuncDecl) : (f.edit ρ).name = f.name := rfl

/-- What goes on side by side after two computations that go side by side. -/
theorem Progress.Edits.andThen {f : α → β} {g : γ → δ} {p : Progress α} {q : Progress β}
    {k : Except Error α → Machine → Progress γ} {l : Except Error β → Machine → Progress δ}
    (h : p.Edits ρ f q) (hk : ∀ r m, (k r m).Edits ρ g (l (r.map f) (m.edit ρ))) :
    (p.andThen k).Edits ρ g (q.andThen l) := by
  induction h with
  | finished r m => exact hk r m
  | waiting formed _ ih => exact .waiting formed fun r m => ih r m
  | endless => exact .endless

namespace Eval.Edits

variable {f : α → β} {g : γ → δ}

/-! ### Single steps -/

theorem pure {a : α} {b : β} (h : b = f a) : Edits ρ f (Pure.pure a) (Pure.pure b) := fun m =>
  h ▸ .finished (.ok a) m

theorem fail (c : Cause) (p : Position) : Edits ρ f (Eval.fail c p) (Eval.fail c p) := fun m =>
  .finished (.error ⟨c, p⟩) m

theorem ofExcept (p : Position) {r : Except Cause α} {r' : Except Cause β} (h : r' = r.map f) :
    Edits ρ f (Eval.ofExcept p r) (Eval.ofExcept p r') := by
  subst h
  cases r with
  | ok a => exact pure rfl
  | error c => exact fail c p

theorem endless : Edits ρ f Eval.endless Eval.endless := fun _ => .endless

/-- What is read off the machine does not depend on its code. -/
theorem view {x : Machine → α} {y : Machine → β} (h : ∀ m, y (m.edit ρ) = f (x m)) :
    Edits ρ f (Eval.view x) (Eval.view y) := fun m => by
  rw [Eval.view, Eval.view, h]
  exact .finished (.ok (x m)) m

/-- What is read off the machine, or refused, does not depend on its code. -/
theorem consult (p : Position) {x : Machine → Except Cause α} {y : Machine → Except Cause β}
    (h : ∀ m, y (m.edit ρ) = (x m).map f) : Edits ρ f (Eval.consult p x) (Eval.consult p y) :=
  fun m => by
    rw [Eval.consult, Eval.consult, h]
    cases x m with
    | ok a => exact .finished (.ok a) m
    | error c => exact .finished (.error ⟨c, p⟩) m

/-- What is changed is changed with edited code. -/
theorem change {x y : Machine → Machine} (h : ∀ m, y (m.edit ρ) = (x m).edit ρ) :
    Edits ρ id (Eval.change x) (Eval.change y) := fun m => by
  rw [Eval.change, Eval.change, h]
  exact .finished (.ok ()) (x m)

/-- What is made is made with edited code. -/
theorem make {x : Machine → α × Machine} {y : Machine → β × Machine}
    (h : ∀ m, y (m.edit ρ) = (f (x m).1, (x m).2.edit ρ)) :
    Edits ρ f (Eval.make x) (Eval.make y) := fun m => by
  simp only [Eval.make, h]
  exact .finished (.ok (x m).1) (x m).2

/-- What is tested before a change does not depend on the code, and the change is made with it. -/
theorem update {p : Position} {check check' : Machine → Except Cause γ}
    {write write' : γ → Machine → Machine} (h : ∀ m, check' (m.edit ρ) = check m)
    (hw : ∀ c m, write' c (m.edit ρ) = (write c m).edit ρ) :
    Edits ρ id (Eval.update p check write) (Eval.update p check' write') := fun m => by
  simp only [Eval.update, h]
  cases check m with
  | error c => exact .finished (.error ⟨c, p⟩) m
  | ok c =>
      dsimp only
      rw [hw]
      exact .finished (.ok ()) (write c m)

/-- The job with edited code is asked for in place of the job. -/
theorem ask (formed : Bool) (j : Job) :
    Edits ρ (j.editAnswer ρ formed) (Eval.ask j) (Eval.ask (j.editAs ρ formed)) := fun _ =>
  .waiting formed fun r m => .finished r m

/-- A call is asked for at the same place. -/
theorem apply (callee : Value) (args : List Value) {p p' : Position} (h : p' = p) :
    Edits ρ (Value.edit ρ) (Eval.ask (.apply callee args p))
      (Eval.ask (.apply (callee.edit ρ) (args.map (Value.edit ρ)) p')) := by
  subst h
  exact ask (ρ := ρ) false (.apply callee args p')

/-! ### One thing after another -/

/-- One after another: what goes on goes on with the edited result. -/
theorem bind {x : Eval α} {y : Eval β} {k : α → Eval γ} {l : β → Eval δ} (h : Edits ρ f x y)
    (hk : ∀ a, Edits ρ g (k a) (l (f a))) : Edits ρ g (x >>= k) (y >>= l) := fun m =>
  (h m).andThen fun r m => by
    cases r with
    | ok a => exact hk a m
    | error e => exact .finished (.error e) m

theorem map {x : Eval α} {y : Eval β} {a : α → γ} {b : β → δ} (h : Edits ρ f x y)
    (hab : ∀ v, b (f v) = g (a v)) : Edits ρ g (a <$> x) (b <$> y) :=
  h.bind fun v => pure (hab v)

theorem forM (e : γ → δ) {k : γ → Eval Unit} {l : δ → Eval Unit}
    (h : ∀ c, Edits ρ id (k c) (l (e c))) : ∀ cs : List γ,
    Edits ρ id (cs.forM k) ((cs.map e).forM l)
  | []      => pure rfl
  | c :: cs => (h c).bind fun _ => forM e h cs

theorem mapM {e : γ → δ} {k : γ → Eval α} {l : δ → Eval β}
    (h : ∀ c, Edits ρ f (k c) (l (e c))) : ∀ cs : List γ,
    Edits ρ (List.map f) (cs.mapM k) ((cs.map e).mapM l)
  | []      => pure rfl
  | c :: cs => by
      rw [List.map_cons, List.mapM_cons, List.mapM_cons]
      exact (h c).bind fun a => (mapM h cs).bind fun as => pure rfl

/-! ### What is put back on the way out -/

/-- A block is left alike, whatever happened inside. -/
theorem inBlock (p : Position) {x : Eval α} {y : Eval β} (h : Edits ρ f x y) :
    Edits ρ f (Eval.inBlock p x) (Eval.inBlock p y) := fun m => by
  rw [Eval.inBlock, Eval.inBlock, Machine.pushScope_recode]
  refine (h m.pushScope).andThen fun r m => ?_
  rw [Machine.popScope_recode]
  cases m.popScope with
  | ok m => exact .finished r m
  | error c => exact .finished (.error ⟨c, p⟩) m

theorem inScope (s : Handle) {x : Eval α} {y : Eval β} (h : Edits ρ f x y) :
    Edits ρ f (Eval.inScope s x) (Eval.inScope s y) := fun m =>
  (h { m with here := s }).andThen fun r m' => .finished r { m' with here := m.here }

theorem counted (p : Position) {x : Eval α} {y : Eval β} (h : Edits ρ f x y) :
    Edits ρ f (Eval.counted p x) (Eval.counted p y) := fun m => by
  have room : (m.edit ρ).callDepth < (m.edit ρ).settings.maxCallDepth ↔
      m.callDepth < m.settings.maxCallDepth := Iff.rfl
  rw [Eval.counted, Eval.counted]
  by_cases within : m.callDepth < m.settings.maxCallDepth
  · rw [if_pos within, if_pos (room.mpr within)]
    exact (h { m with callDepth := m.callDepth + 1 }).andThen fun r m' =>
      .finished r { m' with callDepth := m'.callDepth - 1 }
  · rw [if_neg within, if_neg (fun h => within (room.mp h))]
    exact .finished (.error _) m

theorem orAt (p : Position) {x : Eval α} {y : Eval β} (h : Edits ρ f x y) :
    Edits ρ f (Eval.orAt p x) (Eval.orAt p y) := fun m =>
  (h m).andThen fun r m' => by
    have same : (r.map f).mapError (·.orAt p) = (r.mapError (·.orAt p)).map f := by
      cases r <;> rfl
    rw [same]
    exact .finished _ m'

/-! ### The pieces of expressions -/

/-- Values with edited code have the same text. -/
theorem textOf (v : Value) : Edits ρ id (Eval.textOf v) (Eval.textOf (v.edit ρ)) := fun m => by
  have same : (m.edit ρ).heap.text? (v.edit ρ) = m.heap.text? v := m.heap.text?_recode FuncDecl.name_edit v
  rw [Eval.textOf, Eval.textOf, same]
  cases m.heap.text? v with
  | some s => exact .finished (.ok s) m
  | none => exact .endless

theorem lookup (x : String) (p : Position) :
    Edits ρ (Value.edit ρ) (Eval.lookup x p) (Eval.lookup x p) :=
  consult p fun m => m.lookup_recode _ x

theorem assign (x : String) (v : Value) (p : Position) :
    Edits ρ id (Eval.assign x v p) (Eval.assign x (v.edit ρ) p) :=
  update (fun m => m.scopes.assignable_map _ m.here x) fun i m => m.bind_recode _ i x (some v)

theorem defineAt (h : Handle) (x : String) (v : Value) (p : Position) :
    Edits ρ id (Eval.defineAt h x v p) (Eval.defineAt h x (v.edit ρ) p) :=
  update (fun m => m.scopes.definable_map _ h x) fun i m => m.bind_recode _ i x (some v)

theorem define (x : String) (v : Value) (p : Position) :
    Edits ρ id (Eval.define x v p) (Eval.define x (v.edit ρ) p) :=
  update (fun m => m.scopes.definable_map _ m.here x) fun i m => m.bind_recode _ i x (some v)

theorem declare (x : String) (p : Position) :
    Edits ρ id (Eval.declare x p) (Eval.declare x p) :=
  update (fun m => m.scopes.declarable_map _ m.here x) fun i m => m.bind_recode _ i x none

theorem expectInt (v : Value) (p : Position) :
    Edits ρ id (Eval.expectInt v p) (Eval.expectInt (v.edit ρ) p) := by
  cases v <;> first | exact pure rfl | exact fail _ _

theorem expectString (v : Value) (p : Position) :
    Edits ρ id (Eval.expectString v p) (Eval.expectString (v.edit ρ) p) := by
  cases v <;> first | exact pure rfl | exact fail _ _

/-- The object that is expected has a class with edited methods. -/
theorem expectObject (v : Value) (p : Position) :
    Edits ρ (Object.recode (FuncDecl.edit ρ)) (Eval.expectObject v p)
      (Eval.expectObject (v.edit ρ) p) := by
  cases v with
  | object o => exact pure rfl
  | _ => exact (textOf _).bind fun _ => fail _ _

theorem lookupArray (x : String) (p : Position) :
    Edits ρ id (Eval.lookupArray x p) (Eval.lookupArray x p) :=
  (lookup x p).bind fun v => by cases v <;> first | exact pure rfl | exact fail _ _

/-- A new array has default elements, which have no code. -/
theorem newArray (t : Ty) (size : Int64) (p : Position) :
    Edits ρ (Value.edit ρ) (Eval.newArray t size p) (Eval.newArray t size p) := fun m => by
  have same : (m.edit ρ).heap.newArray t size.toInt.toNat =
      (m.heap.newArray t size.toInt.toNat).map fun r => (r.1, r.2.recode (FuncDecl.edit ρ)) :=
    m.heap.newArray_recode _ t _
  rw [Eval.newArray, Eval.newArray, same]
  split
  · exact .finished (.error _) m
  · cases m.heap.newArray t size.toInt.toNat with
    | error c => exact .finished (.error _) m
    | ok r => exact .finished (.ok (Value.array r.1)) { m with heap := r.2 }

theorem element (id : ArrayId) (i : Int64) (p : Position) :
    Edits ρ (Value.edit ρ) (Eval.element id i p) (Eval.element id i p) :=
  consult p fun m => m.heap.element_recode _ id i

theorem setElement (array : ArrayId) (i : Int64) (v : Value) (p : Position) :
    Edits ρ id (Eval.setElement array i v p) (Eval.setElement array i (v.edit ρ) p) :=
  update (fun m => m.heap.slot_recode _ array i) fun k m => m.writeElement_recode _ array k v

theorem setField (o : Object) (x : String) (v : Value) : Edits ρ id (Eval.setField o x v)
    (Eval.setField (o.recode (FuncDecl.edit ρ)) x (v.edit ρ)) :=
  change fun m => m.setField_recode _ o x v

/-- A method is bound to an object with its edited code. -/
theorem bindMethod (c : Class) (o : Object) (x : String) (p : Position) :
    Edits ρ (Value.edit ρ) (match c.method? x with
      | some method => do
          let f ← Eval.make (·.bindMethod o method)
          Pure.pure (.function f)
      | none => Eval.fail (.undefinedProperty x) p)
      (match (c.recode (FuncDecl.edit ρ)).method? x with
      | some method => do
          let f ← Eval.make (·.bindMethod (o.recode (FuncDecl.edit ρ)) method)
          Pure.pure (.function f)
      | none => Eval.fail (.undefinedProperty x) p) := by
  rw [c.method?_recode FuncDecl.name_edit]
  cases c.method? x with
  | none => exact fail _ p
  | some method =>
      exact (make (f := Closure.recode (FuncDecl.edit ρ)) fun m =>
        m.bindMethod_recode _ o method).bind fun f => pure rfl

/-- The method of an object is bound with its edited code. -/
theorem property (o : Object) (x : String) (p : Position) : Edits ρ (Value.edit ρ)
    (Eval.property o x p) (Eval.property (o.recode (FuncDecl.edit ρ)) x p) := by
  refine bind (f := Option.map (Value.edit ρ)) (view fun m => m.heap.field?_recode _ o.id x) fun v => ?_
  cases v with
  | some v => exact pure rfl
  | none => exact bindMethod o.cls o x p

/-- The method of a superclass is bound with its edited code. -/
theorem superMethod (x : String) (p : Position) :
    Edits ρ (Value.edit ρ) (Eval.superMethod x p) (Eval.superMethod x p) :=
  (lookup "super" p).bind fun v => by
    cases v with
    | cls c =>
        exact (lookup "this" p).bind fun v => (expectObject v p).bind fun o => bindMethod c o x p
    | _ => exact fail _ _

end Eval.Edits

end Brace
