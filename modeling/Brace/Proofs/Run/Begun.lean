import Brace.Eval.Call

/-!
# Run — what can go wrong once a program has started

A program that has nothing to start with fails before anything is executed. No part of what is done
later fails for this cause: no operation on names, arrays or values, no format and no built-in function.
And no part fails for its operands but an operator, and what finds the array under a name.

* `Begun`: the failure of a part, if it fails, is one that can be met on the way.
* `Ordinary`: and it is not about operands.
-/

namespace Brace

variable {α β : Type}

/-- The program has nothing to start with. -/
def Cause.isOfEntry : Cause → Bool
  | .missingEntryPoint _ => true
  | _                    => false

/-- An operator does not take its operands, or what a name holds that is indexed is no array. The second
reason begins with the name, in quotes. -/
def Cause.isOfOperands : Cause → Bool
  | .internalError reason =>
      "unsupported operand".toList.isPrefixOf reason.toList || reason.toList.head? == some '"'
  | _                     => false

/-- A part that gives something, or fails for a cause that can be met on the way. -/
def Begun : Except Cause α → Prop
  | .ok _    => True
  | .error c => c.isOfEntry = false

namespace Begun

/-- What is made of a result fails as the result does. -/
theorem map {r : Except Cause α} (h : Begun r) (f : α → β) : Begun (r.map f) := by
  cases r <;> exact h

/-- A cause for which a run may fail that has begun is not one for which it may not start. -/
theorem error {c : Cause} {r : Except Cause α} (h : Begun r) (e : r = .error c) :
    c.isOfEntry = false := by
  rw [e] at h
  exact h

end Begun

/-- A part that gives something, or fails for a cause that can be met on the way and is not about
operands. -/
def Ordinary : Except Cause α → Prop
  | .ok _    => True
  | .error c => c.isOfEntry = false ∧ c.isOfOperands = false

namespace Ordinary

/-- What fails for an ordinary reason may fail in a run that has begun. -/
theorem begun {r : Except Cause α} (h : Ordinary r) : Begun r := by
  cases r with
  | ok a => trivial
  | error c => exact h.1

/-- What is made of a result fails as the result does. -/
theorem map {r : Except Cause α} (h : Ordinary r) (f : α → β) : Ordinary (r.map f) := by
  cases r <;> exact h

theorem error {c : Cause} {r : Except Cause α} (h : Ordinary r) (e : r = .error c) :
    c.isOfEntry = false ∧ c.isOfOperands = false := by
  rw [e] at h
  exact h

/-- An internal error of which the reason is another. -/
theorem internal {reason : String} {c : Char} (h : reason.toList.head? = some c)
    (ne : c ≠ 'u' ∧ c ≠ '"') : Ordinary (.error (.internalError reason) : Except Cause α) := by
  refine ⟨rfl, ?_⟩
  simp only [Cause.isOfOperands]
  cases e : reason.toList with
  | nil => rfl
  | cons c' cs =>
      rw [e] at h
      cases h
      simp [List.isPrefixOf, Ne.symm ne.1, ne.2]

end Ordinary

/-! ### Names -/

/-- A name that may not be assigned to fails for an ordinary reason. -/
theorem Forest.ordinary_assignable (s : Forest α) (h : Handle) (x : String) :
    Ordinary (s.assignable h x) := by
  simp only [assignable]
  split
  · exact ⟨rfl, rfl⟩
  · split <;> trivial

/-- So does one that may not be defined. -/
theorem Forest.ordinary_definable (s : Forest α) (h : Handle) (x : String) :
    Ordinary (s.definable h x) := by
  simp only [definable]
  split
  · exact ⟨rfl, rfl⟩
  · split <;> trivial

/-- So does one that may not be declared. -/
theorem Forest.ordinary_declarable (s : Forest α) (h : Handle) (x : String) :
    Ordinary (s.declarable h x) := by
  simp only [declarable]
  split <;> trivial

/-- So does one that cannot be looked up. -/
theorem Machine.ordinary_lookup (m : Machine) (x : String) : Ordinary (m.lookup x) := by
  simp only [lookup, Forest.lookup]
  cases m.scopes.nearest? m.here x with
  | none => exact ⟨rfl, rfl⟩
  | some p => rcases p with ⟨i, _ | v⟩ <;> trivial

theorem Machine.ordinary_popScope (m : Machine) : Ordinary m.popScope := by
  simp only [popScope, Forest.pop]
  cases m.scopes.outer m.here.frame <;> trivial

/-! ### Arrays -/

namespace Heap

/-- An index out of bounds is an ordinary reason. -/
theorem ordinary_slot (h : Heap) (id : ArrayId) (i : Int64) : Ordinary (h.slot id i) := by
  simp only [slot]
  split <;> trivial

theorem ordinary_element (h : Heap) (id : ArrayId) (i : Int64) : Ordinary (h.element id i) := by
  simp only [element]
  split
  · exact (h.ordinary_slot id i).error ‹_›
  · trivial

/-- So is a length for which there is no room. -/
theorem ordinary_newArray (h : Heap) (t : Ty) (n : Nat) : Ordinary (h.newArray t n) := by
  simp only [newArray]
  split <;> trivial

end Heap

/-! ### Values -/

namespace Value

/-- Arithmetic on integers fails as a run may that has begun. -/
theorem begun_intArithmetic (op : BinaryOp) (a b : Int64) : Begun (intArithmetic op a b) := by
  cases op <;> simp only [intArithmetic] <;> (try split) <;> trivial

theorem begun_floatArithmetic (op : BinaryOp) (a b : Float) : Begun (floatArithmetic op a b) := by
  cases op <;> simp only [floatArithmetic] <;> (try split) <;> trivial

/-- So does arithmetic on any operands. -/
theorem begun_arithmetic (op : BinaryOp) (v w : Value) : Begun (arithmetic op v w) := by
  simp only [arithmetic]
  split
  · exact (begun_intArithmetic op _ _).map _
  · split <;> trivial
  · split
    · exact (begun_floatArithmetic op _ _).map _
    · trivial

/-- So does every operator with two operands. -/
theorem begun_binary (op : BinaryOp) (v w : Value) : Begun (binary op v w) := by
  cases op <;> simp only [binary]
  case add | sub | mul | div | rem => exact begun_arithmetic _ v w
  case eq | ne => trivial
  all_goals split <;> trivial

/-- So does every operator with one. -/
theorem begun_unary (op : UnaryOp) (v : Value) : Begun (Eval.unary op v) := by
  cases op <;> cases v <;> trivial

/-- A step fails for an ordinary reason: it names no operator. -/
theorem ordinary_stepped (form : StepForm) (v : Value) : Ordinary (Eval.stepped form v) := by
  cases v with
  | int n | float x => trivial
  | _ => exact .internal (c := 'c') (by simp) (by decide)

theorem ordinary_readAs (target : String) (read : List Char → Option α) (s : String) :
    Ordinary (readAs target read s) := by
  simp only [readAs]
  split <;> trivial

theorem ordinary_noCast (target : String) (v : Value) :
    Ordinary (.error (noCast target v) : Except Cause α) := .internal (c := 'c') (by simp) (by decide)

/-- So does a cast. -/
theorem ordinary_castTo (target : String) (v : Value) : Ordinary (v.castTo target) := by
  simp only [castTo]
  split
  · refine Ordinary.map ?_ _
    cases v <;> first | trivial | exact ordinary_readAs .. | exact ordinary_noCast ..
  · refine Ordinary.map ?_ _
    cases v <;> first | trivial | exact ordinary_readAs .. | exact ordinary_noCast ..
  · refine Ordinary.map ?_ _
    cases v <;> first | trivial | exact ordinary_noCast ..
  · split
    · trivial
    · exact ordinary_noCast ..
  · exact ordinary_noCast ..

end Value

/-! ### Formats and built-in functions -/

/-- Pieces of a template that are filled fail for an ordinary reason. -/
theorem Template.ordinary_fillPieces {text : α → Option String} : ∀ {ps : List Piece} {args : List α}
    {r : Except Cause (List Char)}, fillPieces text ps args = some r → Ordinary r := by
  intro ps
  induction ps with
  | nil =>
      intro args r h
      cases args <;> cases h <;> trivial
  | cons p ps ih =>
      intro args r h
      cases p with
      | char c =>
          obtain ⟨r', h', rfl⟩ := Option.map_eq_some_iff.mp h
          exact (ih h').map _
      | spec s =>
          cases args with
          | nil =>
              cases h
              trivial
          | cons a args =>
              obtain ⟨t, -, h⟩ := Option.bind_eq_some_iff.mp h
              obtain ⟨r', h', rfl⟩ := Option.map_eq_some_iff.mp h
              exact (ih h').map _

/-- So does a template. -/
theorem Template.ordinary_fill {text : α → Option String} {template : String} {args : List α}
    {r : Except Cause String} (h : fill text template args = some r) : Ordinary r := by
  obtain ⟨r', h', rfl⟩ := Option.map_eq_some_iff.mp h
  exact (ordinary_fillPieces h').map _

/-- So does a builtin. -/
theorem Builtin.ordinary_call {b : Builtin} {args : List Value} {m m' : Machine}
    {r : Except Cause Value} (h : b.call args m = some (r, m')) : Ordinary r := by
  unfold Builtin.call at h
  split at h
  · obtain ⟨text, -, e⟩ := Option.map_eq_some_iff.mp h
    cases e
    trivial
  · obtain ⟨text, -, e⟩ := Option.map_eq_some_iff.mp h
    split at e <;> cases e <;> trivial
  all_goals
    cases h
    trivial

end Brace
