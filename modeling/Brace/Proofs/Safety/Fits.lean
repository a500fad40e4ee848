import Brace.Eval.Expr
import Brace.Proofs.Heap.Growth
import Brace.Proofs.Safety.Plan

/-!
# Safety — values that are of a type

Which values are of a type, as far as one look tells: an array is of its element type by the type
that it was made with, and what its elements are is not asked. So a value that is of a type stays
of that type, whatever is written where (`Fits.grown`). No value but nil is of a class's type here,
since the types of objects are not followed. Nil is of the type of functions unless types are `full`:
an array of functions may have places without one.

* `Fits.accepted`: a value of a type without `any` is of every such type that accepts the first.
* `Fits.binary`, `Fits.unary_number`, `Fits.stepped`, `fits_castTo`, `fits_default`: what operations
  give.
* `Fits.binary_fails`, `Fits.unary_fails`, `Fits.stepped_fails`, `castTo_fails`: they take
  operands of the types that they are said to take. Only a comparison may still refuse two floats that
  have no order.
-/

namespace Brace

/-- Among types without `any`, only a type itself fits. -/
theorem Ty.eq_of_fits : ∀ {a b : Ty}, a.isAnyFree = true → b.isAnyFree = true →
    a.fits b = true → a = b := by
  intro a
  induction a with
  | any => intro b ha; cases ha
  | array a ih =>
      intro b ha hb h
      cases b with
      | array b => exact congrArg Ty.array (ih ha hb h)
      | any => cases hb
      | _ => simp [fits] at h
  | _ =>
      intro b ha hb h
      cases b <;> simp_all [fits, isAnyFree]

/-- The cause is about a name or about the specifiers of a format. -/
def Cause.isOfNames : Cause → Bool
  | .undefinedSymbol _ | .redefinition _ | .malformedFormat _ => true
  | _                                                         => false

/-- The cause is about a name, a constant or the specifiers of a format. -/
def Cause.isOfBindings : Cause → Bool
  | .assignToConstant _ => true
  | c                   => c.isOfNames

namespace Value

/-- The value is of the type. -/
inductive Fits (full : Prop) (h : Heap) : Ty → Value → Prop where
  | int (n : Int64) : Fits full h .int (.int n)
  | float (x : Float) : Fits full h .float (.float x)
  | bool (b : Bool) : Fits full h .bool (.bool b)
  | str (s : String) : Fits full h .str (.str s)
  | void : Fits full h .void .nil
  | nil : Fits full h .nil .nil
  | closure (f : Closure) : Fits full h .function (.function f)
  | builtin (b : Builtin) : Fits full h .function (.builtin b)
  | array {id : ArrayId} {t : Ty} (hi : id < h.arrays.size) (ht : (h.cells id).element = t) :
      Fits full h (.array t) (.array id)
  | noArray (t : Ty) : Fits full h (.array t) .nil
  | noObject (x : String) : Fits full h (.object x) .nil
  | noFunction (hn : ¬ full) : Fits full h .function .nil

/-- It is a number, a text or a truth value. -/
def isScalar : Value → Bool
  | .int _ | .float _ | .bool _ | .str _ => true
  | _                                    => false

/-- It is a number, a text, a truth value or nil. -/
def isPlain : Value → Bool
  | .nil => true
  | v    => v.isScalar

/-- Numbers, texts and truth values are plain. -/
theorem isPlain_of_isScalar : ∀ {v : Value}, v.isScalar = true → v.isPlain = true
  | .int _, _ | .float _, _ | .bool _, _ | .str _, _ => rfl

variable {full : Prop} {h : Heap} {a b t : Ty} {v w z : Value}

/-- A value stays of its type. -/
theorem Fits.grown {h' : Heap} (le : h.Grown h') (hv : Fits full h t v) : Fits full h' t v := by
  cases hv with
  | array hi ht => exact .array (Nat.lt_of_lt_of_le hi le.arrays) ((le.element _ hi).trans ht)
  | noFunction hn => exact .noFunction hn
  | _ => constructor

/-- A literal fits its type. -/
theorem fits_ofLiteral (h : Heap) (l : Literal) : Fits full h l.ty (ofLiteral l) := by
  cases l <;> constructor

/-- What an element of a new array starts as is of the element type. -/
theorem fits_default (h : Heap) (ht : t.isAnyFree = true) (hf : full → t ≠ .function) :
    Fits full h t (default t) := by
  cases t with
  | any => cases ht
  | function => exact .noFunction fun full => hf full rfl
  | _ => constructor

/-- A value of a type that may stand where another is expected is of the other. -/
theorem Fits.accepted {Γ : Scene} (hv : Fits full h b v) (ha : a.isAnyFree = true)
    (hb : b.isAnyFree = true) (e : Γ.Accepts a b) : Fits full h a v := by
  cases e with
  | fits e => rw [Ty.eq_of_fits ha hb e]; exact hv
  | noObject x => cases hv; exact .noObject x
  | noArray t => cases hv; exact .noArray t
  | below => cases hv; exact .noObject _

/-! ### Operators -/

/-- A part of an operation gives something with `Q`, or it fails with a cause that is not about
bindings. -/
def Settles {α : Type} (Q : α → Prop) : Except Cause α → Prop
  | .ok a    => Q a
  | .error c => c.isOfBindings = false

/-- What is made of a result satisfies what has to hold for it. -/
theorem Settles.map {α β : Type} {Q : β → Prop} {f : α → β} {r : Except Cause α}
    (hr : Settles (fun a => Q (f a)) r) : Settles Q (r.map f) := by
  cases r <;> exact hr

theorem Settles.mono {α : Type} {Q Q' : α → Prop} {r : Except Cause α} (hr : Settles Q r)
    (le : ∀ a, r = .ok a → Q a → Q' a) : Settles Q' r := by
  cases r with
  | ok a => exact le a rfl hr
  | error c => exact hr

/-- What has been made of a result comes of one. -/
theorem of_map_eq_ok {α β : Type} {f : α → β} {r : Except Cause α} {b : β} (e : r.map f = .ok b) :
    ∃ a, r = .ok a ∧ f a = b := by
  cases r <;> cases e
  exact ⟨_, rfl, rfl⟩

/-- A failure is the one that was there before. -/
theorem error_of_map {α β : Type} {f : α → β} {r : Except Cause α} {c : Cause}
    (e : r.map f = .error c) : r = .error c := by
  cases r <;> cases e
  rfl

/-- Arithmetic on integers gives a number, or fails, but over no binding. -/
theorem intArithmetic_settles (op : BinaryOp) (n k : Int64) :
    Settles (fun _ => True) (intArithmetic op n k) := by
  cases op <;> simp only [intArithmetic] <;> (try split) <;> trivial

/-- Arithmetic on floats gives a number, or fails, but over no binding. -/
theorem floatArithmetic_settles (op : BinaryOp) (x y : Float) :
    Settles (fun _ => True) (floatArithmetic op x y) := by
  cases op <;> simp only [floatArithmetic] <;> (try split) <;> trivial

/-- Arithmetic gives a plain value, or fails, but over no binding. -/
theorem arithmetic_settles (op : BinaryOp) (v w : Value) :
    Settles (·.isPlain = true) (arithmetic op v w) := by
  simp only [arithmetic]
  split
  · exact ((intArithmetic_settles op _ _).mono fun _ _ _ => rfl).map
  · split <;> rfl
  · split
    · exact ((floatArithmetic_settles op _ _).mono fun _ _ _ => rfl).map
    · rfl

/-- What a binary operator gives is plain. -/
theorem binary_settles (op : BinaryOp) (v w : Value) :
    Settles (·.isPlain = true) (binary op v w) := by
  cases op <;> simp only [binary]
  case add | sub | mul | div | rem => exact arithmetic_settles _ v w
  case eq | ne => rfl
  all_goals split <;> rfl

/-- An operator that tests gives a truth value. -/
theorem binary_test {op : BinaryOp} (ht : op.isArithmetic = false) (e : binary op v w = .ok z) :
    ∃ b, z = .bool b := by
  cases op <;> simp only [binary] at e
  case add | sub | mul | div | rem => cases ht
  case eq | ne => cases e; exact ⟨_, rfl⟩
  all_goals split at e <;> cases e; exact ⟨_, rfl⟩

/-- Between any operands, an arithmetic operator is their arithmetic. -/
theorem binary_arithmetic {op : BinaryOp} (ht : op.isArithmetic = true) :
    binary op v w = arithmetic op v w := by
  cases op <;> first | rfl | cases ht

/-- A binary operator gives a value of the type that it is said to give. -/
theorem Fits.binary {op : BinaryOp} (g : op.Gives a b t) (ha : a.isAnyFree = true)
    (hb : b.isAnyFree = true) (hv : Fits full h a v) (hw : Fits full h b w)
    (e : Value.binary op v w = .ok z) : Fits full h t z := by
  cases g with
  | unknownTest e => obtain rfl | rfl := e <;> contradiction
  | unknownLeft => cases ha
  | unknownRight => cases hb
  | join e' =>
      subst e'
      cases hv; cases hw; cases e
      exact .str _
  | arithmetic e₁ e₂ =>
      rw [binary_arithmetic e₁] at e
      cases hv <;> cases hw <;> cases e₂
      · obtain ⟨k, -, rfl⟩ := of_map_eq_ok e
        exact .int k
      · obtain ⟨x, -, rfl⟩ := of_map_eq_ok e
        exact .float x
  | compare e₁ =>
      obtain ⟨b, rfl⟩ := binary_test (by cases op <;> first | rfl | cases e₁) e
      exact .bool b
  | equality e₁ =>
      obtain ⟨b, rfl⟩ := binary_test (by cases op <;> first | rfl | cases e₁) e
      exact .bool b

/-- Arithmetic on integers fails over a division by zero alone. -/
theorem intArithmetic_fails {op : BinaryOp} (ht : op.isArithmetic = true) {n k : Int64}
    {c : Cause} (e : intArithmetic op n k = .error c) : c = .divisionByZero := by
  cases op <;> cases ht
  all_goals
    simp only [intArithmetic] at e
    first | cases e | (split at e <;> cases e; rfl)

/-- Arithmetic on floats fails over a division by zero alone. -/
theorem floatArithmetic_fails {op : BinaryOp} (ht : op.isArithmetic = true) {x y : Float}
    {c : Cause} (e : floatArithmetic op x y = .error c) : c = .divisionByZero := by
  cases op <;> cases ht
  all_goals
    simp only [floatArithmetic] at e
    first | cases e | (split at e <;> cases e; rfl)

/-- Two floats have no order: neither is less than the other, and they are not equal. -/
def Unordered (x y : Float) : Prop := ¬ x < y ∧ (x == y) = false ∧ ¬ y < x

/-- Where a comparison finds no order of two floats, they have none. -/
theorem unordered_of_order {x y : Float} (e : order? (.float x) (.float y) = none) :
    Unordered x y := by
  have e : orderOfFloats x y = none := e
  simp only [orderOfFloats] at e
  split at e
  · cases e
  · split at e
    · cases e
    · split at e
      · cases e
      · exact ⟨‹_›, Bool.eq_false_iff.mpr ‹_›, ‹_›⟩

/-- Two numbers of one type can be compared, unless they are floats without an order. -/
theorem compare_fails {op : BinaryOp} (ht : op.isRelational = true) (hn : a.isNumeric = true)
    (ha : a.isAnyFree = true) (hv : Fits full h a v) (hw : Fits full h a w) {c : Cause}
    (e : Value.binary op v w = .error c) :
    ∃ x y, v = .float x ∧ w = .float y ∧ Unordered x y ∧ c = unsupported op v w := by
  have refused : order? v w = none ∧ c = unsupported op v w := by
    cases op <;> cases ht
    all_goals
      simp only [Value.binary] at e
      split at e <;> cases e
      exact ⟨‹_›, rfl⟩
  obtain ⟨ho, rfl⟩ := refused
  cases hv <;> cases hw <;> cases hn
  · cases ho
  · exact ⟨_, _, rfl, rfl, unordered_of_order ho, rfl⟩

/-- A binary operator takes operands of the types that it is said to take. -/
theorem Fits.binary_fails {op : BinaryOp} (g : op.Gives a b t) (ha : a.isAnyFree = true)
    (hb : b.isAnyFree = true) (hv : Fits full h a v) (hw : Fits full h b w) {reason : String}
    (e : Value.binary op v w = .error (.internalError reason)) : op.isRelational = true ∧
      ∃ x y, v = .float x ∧ w = .float y ∧ Unordered x y ∧ .internalError reason = unsupported op v w := by
  cases g with
  | unknownTest e => obtain rfl | rfl := e <;> contradiction
  | unknownLeft => cases ha
  | unknownRight => cases hb
  | join e' =>
      subst e'
      cases hv; cases hw; cases e
  | arithmetic e₁ e₂ =>
      rw [binary_arithmetic e₁] at e
      cases hv <;> cases hw <;> cases e₂
      · cases intArithmetic_fails e₁ (error_of_map e)
      · cases floatArithmetic_fails e₁ (error_of_map e)
  | compare e₁ e₂ => exact ⟨e₁, compare_fails e₁ e₂ ha hv hw e⟩
  | equality e₁ => cases op <;> first | cases e₁; done | cases e

/-- An operator with one operand gives a plain value, or fails, but over no binding. -/
theorem unary_settles (op : UnaryOp) (v : Value) : Settles (·.isPlain = true) (Eval.unary op v) := by
  cases op <;> cases v <;> rfl

/-- A sign does not change the type of a number. -/
theorem Fits.unary_number {op : UnaryOp} (hop : op ≠ .not) (hv : Fits full h t v)
    (e : Eval.unary op v = .ok z) : Fits full h t z := by
  cases op <;> first | exact absurd rfl hop | skip
  all_goals cases hv <;> cases e <;> constructor

/-- Where the operand is known to be a number, a sign can be given to it. -/
theorem Fits.unary_fails {op : UnaryOp} (ht : t.isNumeric = true) (ha : t.isAnyFree = true)
    (hv : Fits full h t v) {c : Cause} : Eval.unary op v ≠ .error c := by
  intro e
  cases hv <;> cases ht <;> cases op <;> cases e

/-- A step gives a number, or fails, but over no binding. -/
theorem stepped_settles (form : StepForm) (v : Value) :
    Settles (·.isScalar = true) (Eval.stepped form v) := by
  cases v <;> rfl

/-- A step does not change the type of a number. -/
theorem Fits.stepped {form : StepForm} (hv : Fits full h t v) (e : Eval.stepped form v = .ok z) :
    Fits full h t z := by
  cases hv <;> cases e <;> constructor

/-- Where the operand is known to be a number, a step can be taken. -/
theorem Fits.stepped_fails {form : StepForm} (ht : t.isNumeric = true) (ha : t.isAnyFree = true)
    (hv : Fits full h t v) {c : Cause} : Eval.stepped form v ≠ .error c := by
  intro e
  cases hv <;> cases ht <;> cases e

/-! ### Casts -/

/-- To read a text gives something, or fails, but over no binding. -/
theorem readAs_settles {α : Type} (target : String) (read : List Char → Option α) (s : String) :
    Settles (fun _ => True) (readAs target read s) := by
  simp only [readAs]
  split <;> trivial

/-- What a cast gives is plain. -/
theorem castTo_settles (target : String) (v : Value) :
    Settles (·.isPlain = true) (v.castTo target) := by
  simp only [castTo]
  split
  · refine Settles.map (Settles.mono (Q := fun _ => True) ?_ fun _ _ _ => rfl)
    cases v <;> first | trivial | exact readAs_settles ..
  · refine Settles.map (Settles.mono (Q := fun _ => True) ?_ fun _ _ _ => rfl)
    cases v <;> first | trivial | exact readAs_settles ..
  · refine Settles.map (Settles.mono (Q := fun _ => True) ?_ fun _ _ _ => rfl)
    cases v <;> trivial
  · split <;> rfl
  · rfl

/-- A cast gives a value of the type that its target names. -/
theorem fits_castTo (h : Heap) {target : String} (ht : Ty.ofName? target = some t)
    (e : v.castTo target = .ok z) : Fits full h t z := by
  simp only [castTo, ht] at e
  split at e <;> rename_i et
  · obtain ⟨n, -, rfl⟩ := of_map_eq_ok e
    cases et
    exact .int n
  · obtain ⟨x, -, rfl⟩ := of_map_eq_ok e
    cases et
    exact .float x
  · obtain ⟨b, -, rfl⟩ := of_map_eq_ok e
    cases et
    exact .bool b
  · cases et
    split at e <;> cases e
    exact .str _
  · cases e

/-- To read a text never fails for an internal reason. -/
theorem readAs_fails {α : Type} {target : String} {read : List Char → Option α} {s reason : String} :
    readAs target read s ≠ .error (.internalError reason) := by
  simp only [readAs]
  split <;> nofun

/-- A number, a text or a truth value can be cast to any of these. -/
theorem castTo_fails {target : String} (ht : Ty.ofName? target = some t)
    (hp : t.isPrimitive = true) (hv : v.isScalar = true) {reason : String} :
    v.castTo target ≠ .error (.internalError reason) := by
  intro e
  simp only [castTo, ht] at e
  cases t <;> cases hp
  · have e := error_of_map e
    cases v <;> first | cases hv; done | cases e
  · have e := error_of_map e
    cases v <;> first | cases hv; done | exact readAs_fails e | cases e
  · have e := error_of_map e
    cases v <;> first | cases hv; done | exact readAs_fails e | cases e
  · cases v <;> first | cases hv; done | cases e

/-- What fits a primitive type is a number, a text or a truth value. -/
theorem Fits.isScalar (ht : t.isPrimitive = true) (hv : Fits full h t v) : v.isScalar = true := by
  cases hv <;> first | rfl | cases ht

/-! ### Text -/

/-- What is read for a specifier fits its type. -/
theorem fits_read (h : Heap) {s : Specifier} {word : List Char} (e : s.read word = some v) :
    Fits full h s.ty v := by
  cases s <;> simp only [Specifier.read, Option.map_eq_some_iff] at e
  · obtain ⟨n, -, rfl⟩ := e
    exact .int n
  · obtain ⟨x, -, rfl⟩ := e
    exact .float x
  · cases e
    exact .str _

/-- What is read for a specifier is a number or a text. -/
theorem scalar_read {s : Specifier} {word : List Char} (e : s.read word = some v) :
    v.isScalar = true := by
  have fits : Fits True .empty s.ty v := fits_read .empty e
  exact fits.isScalar (by cases s <;> rfl)

end Value

namespace Template

/-- Filling in as many texts as there are specifiers does not fail. -/
theorem fillPieces_gives {α : Type} (text : α → Option String) :
    ∀ (ps : List Piece) (args : List α), (ps.filterMap Piece.specifier?).length = args.length →
      ∀ r, fillPieces text ps args = some r → ∃ t, r = .ok t
  | [], [], _, r, e => by cases e; exact ⟨_, rfl⟩
  | [], _ :: _, h, _, _ => by cases h
  | .char c :: ps, args, h, r, e => by
      obtain ⟨r', e', rfl⟩ := Option.map_eq_some_iff.mp e
      obtain ⟨t, rfl⟩ := fillPieces_gives text ps args h r' e'
      exact ⟨_, rfl⟩
  | .spec _ :: _, [], h, _, _ => by cases h
  | .spec s :: ps, a :: args, h, r, e => by
      obtain ⟨_, -, e⟩ := Option.bind_eq_some_iff.mp e
      obtain ⟨r', e', rfl⟩ := Option.map_eq_some_iff.mp e
      obtain ⟨t, rfl⟩ := fillPieces_gives text ps args (Nat.succ.inj h) r' e'
      exact ⟨_, rfl⟩

/-- A template that has as many specifiers as there are arguments is filled without a failure. -/
theorem fill_gives {α : Type} {text : α → Option String} {template : String} {args : List α}
    (h : (specifiers template).length = args.length) {r : Except Cause String}
    (e : fill text template args = some r) : ∃ t, r = .ok t := by
  obtain ⟨r', e', rfl⟩ := Option.map_eq_some_iff.mp e
  obtain ⟨t, rfl⟩ := fillPieces_gives text _ args h r' e'
  exact ⟨_, rfl⟩

/-- Filling in comes to an end where every argument has a text. -/
theorem isSome_fillPieces {α : Type} {text : α → Option String} :
    ∀ (ps : List Piece) {args : List α}, (∀ a ∈ args, (text a).isSome = true) →
      (fillPieces text ps args).isSome = true
  | [], [], _ | [], _ :: _, _ => rfl
  | .char c :: ps, _, h => by
      rw [fillPieces, Option.isSome_map]
      exact isSome_fillPieces ps h
  | .spec _ :: _, [], _ => rfl
  | .spec _ :: ps, a :: _, h => by
      obtain ⟨ha, hs⟩ := List.forall_mem_cons.mp h
      obtain ⟨t, e⟩ := Option.isSome_iff_exists.mp ha
      rw [fillPieces, e, Option.bind_some, Option.isSome_map]
      exact isSome_fillPieces ps hs

/-- A template is filled where each of the arguments has a text. -/
theorem isSome_fill {α : Type} {text : α → Option String} {template : String} {args : List α}
    (h : ∀ a ∈ args, (text a).isSome = true) : (fill text template args).isSome = true := by
  rw [fill, Option.isSome_map]
  exact isSome_fillPieces _ h

end Template

end Brace
