import Brace.Eval.Program

/-!
# Casts — machines with other code

A function is a value with the code of its declaration, and so are the methods of a class. `σ` puts
other declarations in place of those that a machine has. Machines do not look into code: they go by the
names of functions and methods, by identities and by what is stored where. So where `σ` keeps the names
of functions, each operation of the machine does with the other code what it does with its own.

* `Heap.text?_recode`: values are shown alike.
* `Machine.lookup_recode`, `Machine.bindMethod_recode` and the others: what is read is read with other
  code, and what is written is written with other code.
-/

namespace Brace

variable {α β γ : Type}

/-! ### Tables and frames -/

namespace Table

/-- The table with other values under its names. -/
def map (f : α → β) (t : Table α) : Table β := ⟨t.entries.map fun e => (e.1, f e.2)⟩

variable (f : α → β)

@[simp] theorem get?_map (t : Table α) (x : String) : (t.map f).get? x = (t.get? x).map f := by
  simp only [get?, map]
  induction t.entries with
  | nil => rfl
  | cons e es ih =>
      rw [List.map_cons, find, find]
      split
      · rfl
      · exact ih

/-- Storing under a name and putting other values under the names may be done in either order. -/
theorem map_put (t : Table α) (x : String) (a : α) : (t.put x a).map f = (t.map f).put x (f a) := by
  simp only [put, map]
  congr 1
  induction t.entries with
  | nil => rfl
  | cons e es ih =>
      rw [List.map_cons, replace, replace]
      split
      · rfl
      · rw [List.map_cons, ih]

theorem map_ofList (ps : List (String × α)) :
    (ofList ps).map f = ofList (ps.map fun p => (p.1, f p.2)) := by
  have step : ∀ t : Table α, (ps.foldl (fun t p => t.put p.1 p.2) t).map f =
      (ps.map fun p => (p.1, f p.2)).foldl (fun t p => t.put p.1 p.2) (t.map f) := by
    induction ps with
    | nil => exact fun t => rfl
    | cons p ps ih =>
        intro t
        rw [List.foldl_cons, ih, map_put, List.map_cons, List.foldl_cons]
  exact step empty

end Table

/-- The frame with other values under its names. -/
def Frame.map (f : α → β) (frame : Frame α) : Frame β :=
  { frame with bindings := frame.bindings.map (Option.map f) }

namespace Forest

/-- The forest with other values in its frames. -/
def map (f : α → β) (s : Forest α) : Forest β := ⟨s.frames.map (Frame.map f)⟩

variable (f : α → β) (s : Forest α) (h : Handle) (x : String)

@[simp] theorem outer_map (i : FrameId) : (s.map f).outer i = s.outer i := by
  simp only [outer, map, Array.getElem?_map]
  cases s.frames[i]? <;> rfl

@[simp] theorem isFrozen_map (i : FrameId) : (s.map f).isFrozen i = s.isFrozen i := by
  simp only [isFrozen, map, Array.getElem?_map]
  cases s.frames[i]? <;> rfl

@[simp] theorem chain_map : (s.map f).chain h = s.chain h := by
  rw [chain, chain, outer_map]

@[simp] theorem binding?_map (i : FrameId) :
    (s.map f).binding? i x = (s.binding? i x).map (Option.map f) := by
  simp only [binding?, map, Array.getElem?_map]
  cases s.frames[i]? with
  | none => rfl
  | some frame => exact Table.get?_map _ _ _

/-- The frame that is found under a name is the same one, whatever values there are. -/
theorem nearest?_map :
    (s.map f).nearest? h x = (s.nearest? h x).map fun b => (b.1, b.2.map f) := by
  rw [nearest?, nearest?, chain_map]
  induction s.chain h with
  | nil => rfl
  | cons i is ih =>
      rw [nearestIn, nearestIn, binding?_map]
      cases s.binding? i x with
      | none => exact ih
      | some b => rfl

/-- What is looked up is the other value, and what is refused is refused alike. -/
theorem lookup_map : (s.map f).lookup h x = (s.lookup h x).map f := by
  rw [lookup, lookup, nearest?_map]
  rcases s.nearest? h x with _ | ⟨_, _ | _⟩ <;> rfl

theorem assignable_map : (s.map f).assignable h x = s.assignable h x := by
  rw [assignable, assignable, nearest?_map]
  rcases s.nearest? h x with _ | ⟨i, b⟩
  · rfl
  · simp only [Option.map_some, isFrozen_map]

theorem definable_map : (s.map f).definable h x = s.definable h x := by
  rw [definable, definable, isFrozen_map, binding?_map]
  rcases s.binding? h.frame x with _ | _ | _ <;> rfl

theorem declarable_map : (s.map f).declarable h x = s.declarable h x := by
  rw [declarable, declarable, binding?_map]
  cases s.binding? h.frame x <;> rfl

theorem pop_map : (s.map f).pop h = s.pop h := by
  rw [pop, pop, outer_map]

theorem push_map : (s.map f).push h = ((s.push h).1.map f, (s.push h).2) := by
  simp only [push, chain_map, next]
  simp only [map, Array.map_push, Array.size_map]
  rfl

/-- What an array has at each place is changed. -/
theorem modify_map {f : α → β} {g : α → α} {k : β → β} (h : ∀ a, f (g a) = k (f a))
    (as : Array α) (i : Nat) : (as.map f).modify i k = (as.modify i g).map f := by
  apply Array.ext_getElem?
  intro j
  simp only [Array.getElem?_modify, Array.getElem?_map]
  split
  · cases as[j]? with
    | none => rfl
    | some a => exact congrArg some (h a).symm
  · rfl

/-- Binding the other value is putting other values after binding. -/
theorem bind_map (i : FrameId) (b : Option α) :
    (s.map f).bind i x (b.map f) = (s.bind i x b).map f := by
  simp only [bind, map]
  exact congrArg Forest.mk (modify_map (fun frame => by
    simp only [Frame.map, Table.map_put]) s.frames i)

end Forest

/-! ### Values -/

variable (σ : FuncDecl → FuncDecl)

def Closure.recode (f : Closure) : Closure := { f with decl := σ f.decl }

def Tier.recode (t : Tier) : Tier := { t with methods := t.methods.map σ }

def Class.recode (c : Class) : Class := ⟨c.own.recode σ, c.inherited.map (Tier.recode σ)⟩

def Object.recode (o : Object) : Object := { o with cls := o.cls.recode σ }

/-- The value with other code. -/
def Value.recode : Value → Value
  | .function f => .function (f.recode σ)
  | .cls c      => .cls (c.recode σ)
  | .object o   => .object (o.recode σ)
  | v           => v

def Flow.recode : Flow → Flow
  | .ret v => .ret (v.recode σ)
  | flow   => flow

def Cells.recode (c : Cells) : Cells := { c with items := c.items.map (Value.recode σ) }

def Heap.recode (h : Heap) : Heap :=
  { h with arrays := h.arrays.map (Cells.recode σ), objects := h.objects.map (Table.map (Value.recode σ)) }

/-- The machine with other code. -/
def Machine.recode (m : Machine) : Machine :=
  { m with scopes := m.scopes.map (Value.recode σ), heap := m.heap.recode σ }

namespace Value

@[simp] theorem recode_ofLiteral (l : Literal) : (ofLiteral l).recode σ = .ofLiteral l := by
  cases l <;> rfl

@[simp] theorem recode_default (t : Ty) : (default t).recode σ = .default t := by
  cases t <;> rfl

@[simp] theorem isTruthy_recode (v : Value) : (v.recode σ).isTruthy = v.isTruthy := by
  cases v <;> rfl

@[simp] theorem isNil_recode (v : Value) : (v.recode σ).isNil = v.isNil := by cases v <;> rfl

@[simp] theorem typeName_recode (v : Value) : (v.recode σ).typeName = v.typeName := by
  cases v <;> rfl

/-- Only numbers can be read as floats, and they have no code. -/
@[simp] theorem asFloat?_recode (v : Value) : (v.recode σ).asFloat? = v.asFloat? := by
  cases v <;> rfl

@[simp] theorem plainText?_recode (v : Value) : (v.recode σ).plainText? = v.plainText? := by
  cases v <;> rfl

/-- Functions are compared by identity, so other code makes no difference. -/
@[simp] theorem equals_recode (v w : Value) : (v.recode σ).equals (w.recode σ) = v.equals w := by
  cases v <;> cases w <;> rfl

/-- Only plain values have an order. -/
@[simp] theorem order?_recode (v w : Value) : order? (v.recode σ) (w.recode σ) = order? v w := by
  cases v <;> cases w <;> rfl

theorem unsupported_recode (op : BinaryOp) (v w : Value) :
    unsupported op (v.recode σ) (w.recode σ) = unsupported op v w := by
  rw [unsupported, unsupported, typeName_recode, typeName_recode]

/-- What an operation gives has no code in it. -/
theorem map_recode {r : Except Cause γ} {f : γ → Value} (h : ∀ a, (f a).recode σ = f a) :
    (r.map f).map (recode σ) = r.map f := by
  cases r with
  | error c => rfl
  | ok a => exact congrArg Except.ok (h a)

/-- What an operation on numbers gives when they are not both integers. -/
def mixed (op : BinaryOp) (v w : Value) : Except Cause Value :=
  match v.asFloat?, w.asFloat? with
  | some a, some b => (floatArithmetic op a b).map .float
  | _, _           => .error (unsupported op v w)

/-- Operands of two types give the same, as only plain values mix. -/
theorem mixed_recode (op : BinaryOp) (v w : Value) :
    mixed op (v.recode σ) (w.recode σ) = (mixed op v w).map (recode σ) := by
  rw [mixed, mixed, asFloat?_recode, asFloat?_recode, unsupported_recode]
  split
  · exact (map_recode σ fun _ => rfl).symm
  · rfl

theorem arithmetic_recode (op : BinaryOp) (v w : Value) :
    arithmetic op (v.recode σ) (w.recode σ) = (arithmetic op v w).map (recode σ) := by
  have mixed := mixed_recode σ op v w
  cases v with
  | int a =>
      cases w with
      | int b => exact (map_recode σ fun _ => rfl).symm
      | _ => exact mixed
  | str a =>
      cases w with
      | str b =>
          show (if op = .add then _ else _) = (if op = .add then _ else _ : Except Cause Value).map _
          split <;> rfl
      | _ => exact mixed
  | _ => cases w <;> exact mixed

/-- What a comparison gives, by a test of the order of the two values. -/
def compared (op : BinaryOp) (test : Ordering → Bool) (v w : Value) : Except Cause Value :=
  match order? v w with
  | some o => .ok (.bool (test o))
  | none   => .error (unsupported op v w)

theorem compared_recode (op : BinaryOp) (test : Ordering → Bool) (v w : Value) :
    compared op test (v.recode σ) (w.recode σ) = (compared op test v w).map (recode σ) := by
  rw [compared, compared, order?_recode, unsupported_recode]
  split <;> rfl

/-- Each operator gives for values with other code what it gives for the values. -/
theorem binary_recode (op : BinaryOp) (v w : Value) :
    binary op (v.recode σ) (w.recode σ) = (binary op v w).map (recode σ) := by
  cases op with
  | eq | ne => simp only [binary, equals_recode]; rfl
  | lt | le | gt | ge => exact compared_recode σ _ _ v w
  | add | sub | mul | div | rem => exact arithmetic_recode σ _ v w

/-- A cast gives for a value with other code what it gives for the value. -/
theorem castTo_recode (target : String) (v : Value) :
    (v.recode σ).castTo target = (v.castTo target).map (recode σ) := by
  have refused : noCast target (v.recode σ) = noCast target v := by
    rw [noCast, noCast, typeName_recode]
  have int : toInt target (v.recode σ) = toInt target v := by
    cases v <;> rfl
  have float : toFloat target (v.recode σ) = toFloat target v := by
    cases v <;> rfl
  have bool : toBool target (v.recode σ) = toBool target v := by
    cases v <;> rfl
  rw [castTo, castTo, int, float, bool, plainText?_recode, refused]
  split
  · exact (map_recode σ fun _ => rfl).symm
  · exact (map_recode σ fun _ => rfl).symm
  · exact (map_recode σ fun _ => rfl).symm
  · split <;> rfl
  · rfl

theorem unary_recode (op : UnaryOp) (v : Value) :
    Eval.unary op (v.recode σ) = (Eval.unary op v).map (recode σ) := by
  cases op <;> cases v <;> rfl

theorem stepped_recode (form : StepForm) (v : Value) :
    Eval.stepped form (v.recode σ) = (Eval.stepped form v).map (recode σ) := by
  cases v <;> rfl

end Value

/-! ### The heap -/

namespace Heap

variable (h : Heap)

@[simp] theorem cells_recode (id : ArrayId) : (h.recode σ).cells id = (h.cells id).recode σ := by
  simp only [cells, recode, Array.getElem?_map]
  cases h.arrays[id]? with
  | none => simp [Cells.recode]
  | some c => rfl

@[simp] theorem length_recode (id : ArrayId) : (h.recode σ).length id = h.length id := by
  rw [length, length, cells_recode]
  exact Array.size_map

theorem slot_recode (id : ArrayId) (i : Int64) : (h.recode σ).slot id i = h.slot id i := by
  rw [slot, slot, length_recode]

/-- What is read from an array is read with other code. -/
theorem element_recode (id : ArrayId) (i : Int64) :
    (h.recode σ).element id i = (h.element id i).map (Value.recode σ) := by
  rw [element, element, slot_recode, cells_recode]
  cases h.slot id i with
  | error c => rfl
  | ok k =>
      simp only [Cells.recode, Array.getD_eq_getD_getElem?, Array.getElem?_map]
      cases (h.cells id).items[k]? <;> rfl

theorem newArray_recode (t : Ty) (n : Nat) :
    (h.recode σ).newArray t n = (h.newArray t n).map fun r => (r.1, r.2.recode σ) := by
  rw [newArray, newArray]
  split
  · rfl
  · simp only [addArray, recode, Except.map, Array.map_push, Cells.recode, Array.map_replicate,
      Value.recode_default, Array.size_map]

/-- What is written to an array is written with other code. -/
theorem write_recode (id : ArrayId) (k : Nat) (v : Value) :
    (h.recode σ).write id k (v.recode σ) = (h.write id k v).recode σ := by
  have arrays := Forest.modify_map (f := Cells.recode σ)
    (g := fun c => { c with items := c.items.setIfInBounds k v })
    (k := fun c => { c with items := c.items.setIfInBounds k (v.recode σ) })
    (fun c => by simp only [Cells.recode, Array.map_setIfInBounds]) h.arrays id
  simp only [write, recode, arrays]

theorem field?_recode (id : ObjectId) (x : String) :
    (h.recode σ).field? id x = (h.field? id x).map (Value.recode σ) := by
  simp only [field?, recode, Array.getElem?_map]
  cases h.objects[id]? with
  | none => rfl
  | some fields => exact Table.get?_map _ _ _

theorem setField_recode (id : ObjectId) (x : String) (v : Value) :
    (h.recode σ).setField id x (v.recode σ) = (h.setField id x v).recode σ := by
  have objects := Forest.modify_map (f := Table.map (Value.recode σ))
    (g := fun fields => fields.put x v) (k := fun fields => fields.put x (v.recode σ))
    (fun fields => Table.map_put _ fields x v) h.objects id
  simp only [setField, recode, objects]

theorem newObject_recode :
    (h.recode σ).newObject = (h.newObject.1, h.newObject.2.recode σ) := by
  simp only [newObject, recode, Array.map_push, Array.size_map]
  rfl

end Heap

/-! ### Machines -/

namespace Machine

variable (m : Machine)

/-- A machine that has run nothing has no code to replace. -/
theorem recode_start (settings : Settings) (stdin : String) :
    (start settings stdin).recode σ = start settings stdin := by
  have root : (Table.ofList ((predefined Value.ofLiteral Value.builtin).map
      fun p => (p.1, some p.2))).map (Option.map (Value.recode σ)) =
      .ofList ((predefined Value.ofLiteral Value.builtin).map fun p => (p.1, some p.2)) := by
    rw [Table.map_ofList]
    rfl
  simp only [start, recode, Forest.withFrozenRoot, Forest.map, Frame.map, List.map_toArray,
    List.map_cons, List.map_nil, root, Heap.recode, Heap.empty]
  rfl

theorem pushScope_recode : (m.recode σ).pushScope = m.pushScope.recode σ := by
  simp only [pushScope, recode, Forest.push_map]

theorem popScope_recode : (m.recode σ).popScope = m.popScope.map (recode σ) := by
  simp only [popScope, recode, Forest.pop_map]
  cases m.scopes.pop m.here <;> rfl

/-- What is looked up under a name is found with other code. -/
theorem lookup_recode (x : String) :
    (m.recode σ).lookup x = (m.lookup x).map (Value.recode σ) := by
  simp only [lookup, recode, Forest.lookup_map]
  rcases m.scopes.lookup m.here x with c | v
  · cases c <;> rfl
  · rfl

theorem bind_recode (i : FrameId) (x : String) (b : Option Value) :
    (m.recode σ).bind i x (b.map (Value.recode σ)) = (m.bind i x b).recode σ := by
  simp only [bind, recode, Forest.bind_map]

theorem openFrame_recode (h : Handle) :
    (m.recode σ).openFrame h = ((m.openFrame h).1, (m.openFrame h).2.recode σ) := by
  simp only [openFrame, recode, Forest.push_map]

/-- The function that is made has the other code and the same identity. -/
theorem newClosure_recode (f : FuncDecl) (scope : Handle) : (m.recode σ).newClosure (σ f) scope =
    ((m.newClosure f scope).1.recode σ, (m.newClosure f scope).2.recode σ) := rfl

theorem newObject_recode (c : Class) : (m.recode σ).newObject (c.recode σ) =
    ((m.newObject c).1.recode σ, (m.newObject c).2.recode σ) := by
  simp only [newObject, recode, Heap.newObject_recode]
  rfl

theorem writeElement_recode (id : ArrayId) (k : Nat) (v : Value) :
    (m.recode σ).writeElement id k (v.recode σ) = (m.writeElement id k v).recode σ := by
  simp only [writeElement, recode, Heap.write_recode]

theorem setField_recode (o : Object) (x : String) (v : Value) :
    (m.recode σ).setField (o.recode σ) x (v.recode σ) = (m.setField o x v).recode σ := by
  simp only [setField, recode, Object.recode, Heap.setField_recode]

/-- The method that is bound to an object has the other code. -/
theorem bindMethod_recode (o : Object) (method : Tier × FuncDecl) :
    (m.recode σ).bindMethod (o.recode σ) (method.1.recode σ, σ method.2) =
      ((m.bindMethod o method).1.recode σ, (m.bindMethod o method).2.recode σ) := by
  have bound := bind_recode σ (m.openFrame method.1.scope).2 (m.openFrame method.1.scope).1.frame
    "this" (some (.object o))
  simp only [bindMethod, Tier.recode, openFrame_recode]
  rw [← newClosure_recode, ← bound]
  rfl

/-- The frame above the methods of a class is made alike. -/
theorem superFrame_recode (c : Class) : (m.recode σ).superFrame (c.recode σ) =
    ((m.superFrame c).1, (m.superFrame c).2.recode σ) := by
  have bound := bind_recode σ (m.openFrame m.here).2 (m.openFrame m.here).1.frame
    "super" (some (.cls c))
  simp only [superFrame]
  rw [← bound, openFrame_recode]
  rfl

end Machine

/-! ### Other code in place of other code -/

/-- Two maps, one after the other, are one. -/
theorem Table.map_map (f : α → β) (g : β → γ) (t : Table α) : (t.map f).map g = t.map (g ∘ f) := by
  simp only [map, List.map_map]
  rfl

theorem Forest.map_map (f : α → β) (g : β → γ) (s : Forest α) :
    (s.map f).map g = s.map (g ∘ f) := by
  have frame : Frame.map g ∘ Frame.map f = Frame.map (g ∘ f) := by
    funext frame
    simp only [Function.comp_apply, Frame.map, Table.map_map, Option.map_comp_map]
  simp only [map, Array.map_map, frame]

section Twice

variable (σ τ : FuncDecl → FuncDecl)

theorem Class.recode_recode (c : Class) : (c.recode σ).recode τ = c.recode (τ ∘ σ) := by
  have tier : Tier.recode τ ∘ Tier.recode σ = Tier.recode (τ ∘ σ) := by
    funext t
    simp only [Function.comp_apply, Tier.recode, List.map_map]
  have own := congrFun tier c.own
  simp only [Function.comp_apply] at own
  simp only [recode, List.map_map, tier, own]

/-- Other code in place of other code: the last of the two remains in a value. -/
theorem Value.recode_recode (v : Value) : (v.recode σ).recode τ = v.recode (τ ∘ σ) := by
  cases v with
  | cls c => exact congrArg cls (c.recode_recode σ τ)
  | object o => exact congrArg (fun c => object { o with cls := c }) (o.cls.recode_recode σ τ)
  | _ => rfl

theorem Value.recode_comp : recode τ ∘ recode σ = recode (τ ∘ σ) := funext (recode_recode σ τ)

theorem Heap.recode_recode (h : Heap) : (h.recode σ).recode τ = h.recode (τ ∘ σ) := by
  have cells : Cells.recode τ ∘ Cells.recode σ = Cells.recode (τ ∘ σ) := by
    funext c
    simp only [Function.comp_apply, Cells.recode, Array.map_map, Value.recode_comp]
  have fields : Table.map (Value.recode τ) ∘ Table.map (Value.recode σ) =
      Table.map (Value.recode (τ ∘ σ)) := by
    funext t
    rw [Function.comp_apply, Table.map_map, Value.recode_comp]
  simp only [recode, Array.map_map, cells, fields]

/-- Other code in place of other code: the last of the two remains in a machine. -/
theorem Machine.recode_recode (m : Machine) : (m.recode σ).recode τ = m.recode (τ ∘ σ) := by
  simp only [recode, Heap.recode_recode, Forest.map_map, Value.recode_comp]

end Twice

/-! ### Names of functions -/

variable {σ} (hσ : ∀ f, (σ f).name = f.name)

include hσ

/-- The method with the tier that it is from, with other code. -/
theorem Tier.method?_recode (t : Tier) (x : String) :
    (t.recode σ).method? x = (t.method? x).map σ := by
  rw [method?, method?, recode, ← List.map_reverse, List.find?_map]
  congr 2
  funext f
  simp only [Function.comp, hσ]

/-- The method of a class under a name is found at the same place, with the other code. -/
theorem Class.method?_recode (c : Class) (x : String) :
    (c.recode σ).method? x = (c.method? x).map fun m => (m.1.recode σ, σ m.2) := by
  rw [method?, method?, show (c.recode σ).tiers = c.tiers.map (Tier.recode σ) from rfl]
  induction c.tiers with
  | nil => rfl
  | cons t ts ih =>
      rw [List.map_cons, methodIn, methodIn, t.method?_recode hσ]
      cases t.method? x with
      | some f => rfl
      | none => exact ih

theorem Closure.tag_recode (f : Closure) : (f.recode σ).tag = f.tag := by
  rw [tag, tag, recode, hσ]

/-- Values are shown alike. -/
theorem Heap.textWithin_recode (h : Heap) : ∀ (n : Nat) (v : Value),
    (h.recode σ).textWithin n (v.recode σ) = h.textWithin n v := by
  intro n
  induction n with
  | zero =>
      intro v
      cases v with
      | function f => exact congrArg some (f.tag_recode hσ)
      | _ => rfl
  | succ n ih =>
      intro v
      cases v with
      | function f => exact congrArg some (f.tag_recode hσ)
      | array id =>
          simp only [Value.recode, textWithin, cells_recode, Cells.recode, Array.toList_map]
          congr 1
          induction (h.cells id).items.toList with
          | nil => rfl
          | cons v vs ihs => rw [List.map_cons, List.mapM_cons, List.mapM_cons, ih, ihs]
      | _ => rfl

/-- A value is shown alike, as the code of functions is not shown: their names are. -/
theorem Heap.text?_recode (h : Heap) (v : Value) : (h.recode σ).text? (v.recode σ) = h.text? v := by
  rw [text?, text?, textWithin_recode hσ]
  simp only [recode, Array.size_map]

end Brace
