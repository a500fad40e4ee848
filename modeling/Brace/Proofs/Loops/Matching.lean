import Mathlib.Data.List.Forall2
import Brace.Proofs.Casts.Recode
import Brace.Proofs.Safety.Fits

/-!
# Loops — values alike

Two machines that do the same may have their frames under different numbers, and the second may have
entered frames that the first did without. A `Matching` says which frames go together, and which ones the
second machine has to spare. It only ever gets larger.

The values of the two machines are alike where they differ at most in the frames that their scopes are
made of. Operators do not look into scopes, so alike operands give the same (`Value.Alike.binary` and the
others).
-/

namespace Brace

/-- Which frames of a machine go together with which of another. -/
structure Matching where
  /-- The frame of the first machine is for the first what that of the second is for the second. -/
  pairs : FrameId → FrameId → Prop
  /-- The second machine has the frame, and the first does without. -/
  spare : FrameId → Prop

variable {α β γ δ ε : Type}

/-! ### Results -/

/-- Either both fail alike, or both give something, and what they give is related. -/
inductive Agree (R : α → β → Prop) : Except ε α → Except ε β → Prop where
  | ok {a : α} {b : β} (h : R a b) : Agree R (.ok a) (.ok b)
  | error (e : ε) : Agree R (.error e) (.error e)

theorem Agree.of_eq {R : α → α → Prop} {r r' : Except ε α} (e : r = r') (h : ∀ a, r = .ok a → R a a) :
    Agree R r r' := by
  subst e
  cases r with
  | ok a => exact .ok (h a rfl)
  | error e => exact .error e

theorem rel_imp {R S : α → β → Prop} (le : ∀ a b, R a b → S a b) {a : Option α} {b : Option β}
    (h : Option.Rel R a b) : Option.Rel S a b := by
  cases h with
  | some h => exact .some (le _ _ h)
  | none => exact .none

theorem some_of_rel {R : α → β → Prop} {a : α} {b : Option β} (h : Option.Rel R (some a) b) :
    ∃ b', b = some b' ∧ R a b' := by
  cases h with
  | some h => exact ⟨_, rfl, h⟩

theorem some_of_rel' {R : α → β → Prop} {a : Option α} {b : β} (h : Option.Rel R a (some b)) :
    ∃ a', a = some a' ∧ R a' b := by
  cases h with
  | some h => exact ⟨_, rfl, h⟩

theorem exists_related {R : α → β → Prop} {as : List α} {bs : List β} (h : List.Forall₂ R as bs) :
    ∀ a ∈ as, ∃ b, R a b := by
  induction h with
  | nil => exact nofun
  | cons h _ ih => exact List.forall_mem_cons.mpr ⟨⟨_, h⟩, ih⟩

theorem forall₂_zip_left {R : β → γ → Prop} {bs : List β} {cs : List γ} (h : List.Forall₂ R bs cs) :
    ∀ as : List α, List.Forall₂ (fun x y => x.1 = y.1 ∧ R x.2 y.2) (as.zip bs) (as.zip cs) := by
  induction h with
  | nil => intro as; rw [List.zip_nil_right, List.zip_nil_right]; exact .nil
  | cons h _ ih =>
      intro as
      cases as with
      | nil => exact .nil
      | cons a as => exact .cons ⟨rfl, h⟩ (ih as)

namespace Matching

/-- More frames go together, and more are to spare. -/
structure Later (w w' : Matching) : Prop where
  pairs : ∀ {i j}, w.pairs i j → w'.pairs i j
  spare : ∀ {j}, w.spare j → w'.spare j

namespace Later

variable {w w₁ w₂ : Matching}

theorem refl (w : Matching) : w.Later w := ⟨id, id⟩

theorem trans (h : w.Later w₁) (h' : w₁.Later w₂) : w.Later w₂ := ⟨h'.pairs ∘ h.pairs, h'.spare ∘ h.spare⟩

end Later

/-- Each of the first `n` frames goes together with itself. -/
def same (n : FrameId) : Matching where
  pairs i j := i = j ∧ i < n
  spare _ := False

/-- Two more frames go together. -/
def pair (w : Matching) (i j : FrameId) : Matching where
  pairs k l := w.pairs k l ∨ k = i ∧ l = j
  spare := w.spare

/-- One more frame is to spare. -/
def besides (w : Matching) (j : FrameId) : Matching where
  pairs := w.pairs
  spare l := w.spare l ∨ l = j

theorem later_pair (w : Matching) (i j : FrameId) : w.Later (w.pair i j) := ⟨.inl, id⟩

theorem later_besides (w : Matching) (j : FrameId) : w.Later (w.besides j) := ⟨id, .inl⟩

/-- Each of `n` frames goes together with one of `n'`, no two with the same one, and none with one that is
to spare. -/
structure Between (w : Matching) (n n' : FrameId) : Prop where
  total  : ∀ i, i < n → ∃ j, w.pairs i j
  left   : ∀ {i j}, w.pairs i j → i < n
  right  : ∀ {i j}, w.pairs i j → j < n'
  single : ∀ {i j l}, w.pairs i j → w.pairs i l → j = l
  apart  : ∀ {i j k}, w.pairs i j → w.pairs k j → i = k
  there  : ∀ {j}, w.spare j → j < n'
  alone  : ∀ {i j}, w.spare j → ¬ w.pairs i j

namespace Between

variable {w : Matching} {n n' : FrameId}

/-- A machine is set against itself with each frame for itself. -/
theorem same (n : FrameId) : (same n).Between n n where
  total i hi := ⟨i, rfl, hi⟩
  left h := h.2
  right := by rintro i j ⟨rfl, h⟩; exact h
  single := by rintro i j l ⟨rfl, -⟩ ⟨rfl, -⟩; rfl
  apart := by rintro i j k ⟨rfl, -⟩ ⟨rfl, -⟩; rfl
  there := nofun
  alone := nofun

variable (h : w.Between n n')

include h

/-- Frames that both machines have just entered may go together. -/
theorem pair : (w.pair n n').Between (n + 1) (n' + 1) where
  total i hi := by
    rcases Nat.lt_succ_iff_lt_or_eq.mp hi with hi | rfl
    · exact (h.total i hi).imp fun _ => .inl
    · exact ⟨n', .inr ⟨rfl, rfl⟩⟩
  left := by
    rintro i j (hij | ⟨rfl, rfl⟩)
    · exact Nat.lt_succ_of_lt (h.left hij)
    · exact Nat.lt_succ_self i
  right := by
    rintro i j (hij | ⟨rfl, rfl⟩)
    · exact Nat.lt_succ_of_lt (h.right hij)
    · exact Nat.lt_succ_self j
  single := by
    rintro i j l (hij | ⟨rfl, rfl⟩) (hil | ⟨ei, rfl⟩)
    · exact h.single hij hil
    · exact absurd (h.left hij) (ei ▸ Nat.lt_irrefl _)
    · exact absurd (h.left hil) (Nat.lt_irrefl _)
    · rfl
  apart := by
    rintro i j k (hij | ⟨rfl, rfl⟩) (hkj | ⟨rfl, ej⟩)
    · exact h.apart hij hkj
    · exact absurd (h.right hij) (ej ▸ Nat.lt_irrefl _)
    · exact absurd (h.right hkj) (Nat.lt_irrefl _)
    · rfl
  there hj := Nat.lt_succ_of_lt (h.there hj)
  alone := by
    rintro i j hj (hij | ⟨rfl, rfl⟩)
    · exact h.alone hj hij
    · exact absurd (h.there hj) (Nat.lt_irrefl _)

/-- The frame that the second machine has just entered may be one to spare. -/
theorem besides : (w.besides n').Between n (n' + 1) where
  total := h.total
  left := h.left
  right hij := Nat.lt_succ_of_lt (h.right hij)
  single := h.single
  apart := h.apart
  there := by
    rintro j (hj | rfl)
    · exact Nat.lt_succ_of_lt (h.there hj)
    · exact Nat.lt_succ_self _
  alone := by
    rintro i j (hj | rfl) hij
    · exact h.alone hj hij
    · exact absurd (h.right hij) (Nat.lt_irrefl _)

end Between

end Matching

/-! ### Values -/

section Alike

variable (w : Matching)

structure Handle.Alike (h h' : Handle) : Prop where
  frame : w.pairs h.frame h'.frame
  depth : h.depth = h'.depth

structure Closure.Alike (f f' : Closure) : Prop where
  id    : f.id = f'.id
  decl  : f.decl = f'.decl
  scope : f.scope.Alike w f'.scope

structure Tier.Alike (t t' : Tier) : Prop where
  id      : t.id = t'.id
  name    : t.name = t'.name
  methods : t.methods = t'.methods
  scope   : t.scope.Alike w t'.scope

structure Class.Alike (c c' : Class) : Prop where
  own       : c.own.Alike w c'.own
  inherited : List.Forall₂ (Tier.Alike w) c.inherited c'.inherited

structure Object.Alike (o o' : Object) : Prop where
  id  : o.id = o'.id
  cls : o.cls.Alike w o'.cls

/-- The values differ at most in the frames of their scopes, and these go together. -/
inductive Value.Alike : Value → Value → Prop where
  | int (n : Int64) : Alike (.int n) (.int n)
  | float (x : Float) : Alike (.float x) (.float x)
  | bool (b : Bool) : Alike (.bool b) (.bool b)
  | str (s : String) : Alike (.str s) (.str s)
  | nil : Alike .nil .nil
  | array (id : ArrayId) : Alike (.array id) (.array id)
  | function {f f' : Closure} (h : f.Alike w f') : Alike (.function f) (.function f')
  | builtin (b : Builtin) : Alike (.builtin b) (.builtin b)
  | cls {c c' : Class} (h : c.Alike w c') : Alike (.cls c) (.cls c')
  | object {o o' : Object} (h : o.Alike w o') : Alike (.object o) (.object o')

inductive Flow.Alike : Flow → Flow → Prop where
  | normal : Alike .normal .normal
  | ret {v v' : Value} (h : v.Alike w v') : Alike (.ret v) (.ret v')
  | breakLoop : Alike .breakLoop .breakLoop
  | continueLoop : Alike .continueLoop .continueLoop

end Alike

variable {w w₁ : Matching}

/-! ### What is alike stays so -/

section Later

variable (le : w.Later w₁)

include le

theorem Handle.Alike.later {h h' : Handle} (hh : h.Alike w h') : h.Alike w₁ h' := ⟨le.pairs hh.frame, hh.depth⟩

theorem Tier.Alike.later {t t' : Tier} (h : t.Alike w t') : t.Alike w₁ t' :=
  ⟨h.id, h.name, h.methods, h.scope.later le⟩

theorem Closure.Alike.later {f f' : Closure} (h : f.Alike w f') : f.Alike w₁ f' :=
  ⟨h.id, h.decl, h.scope.later le⟩

theorem Class.Alike.later {c c' : Class} (h : c.Alike w c') : c.Alike w₁ c' :=
  ⟨h.own.later le, h.inherited.imp fun _ _ ht => ht.later le⟩

theorem Object.Alike.later {o o' : Object} (h : o.Alike w o') : o.Alike w₁ o' := ⟨h.id, h.cls.later le⟩

/-- Values alike stay so while the matching gets larger. -/
theorem Value.Alike.later {v v' : Value} (h : v.Alike w v') : v.Alike w₁ v' := by
  cases h with
  | function h => exact .function (h.later le)
  | cls h => exact .cls (h.later le)
  | object h => exact .object (h.later le)
  | _ => constructor

end Later

/-! ### Classes -/

/-- Classes alike are alike tier by tier. -/
theorem Class.Alike.tiers {c c' : Class} (h : c.Alike w c') :
    List.Forall₂ (Tier.Alike w) c.tiers c'.tiers := .cons h.own h.inherited

/-- A method with the tier that it is from. -/
theorem Class.Alike.method? {c c' : Class} (alike : c.Alike w c') (x : String) :
    Option.Rel (fun m m' => m.1.Alike w m'.1 ∧ m.2 = m'.2) (c.method? x) (c'.method? x) := by
  have h := alike.tiers
  rw [Class.method?, Class.method?]
  generalize c.tiers = ts, c'.tiers = ts' at h
  induction h with
  | nil => exact .none
  | @cons t t' ts ts' ht _ ih =>
      have found : t.method? x = t'.method? x := by rw [Tier.method?, Tier.method?, ht.methods]
      rw [methodIn, methodIn, found]
      cases t'.method? x with
      | some m => exact .some ⟨ht, rfl⟩
      | none => exact ih

/-! ### Operators -/

namespace Value

/-- A plain value is like itself, as it has no scope. -/
theorem Alike.of_plain {v : Value} (h : v.isPlain = true) : v.Alike w v := by
  cases v with
  | function | cls | object => cases h
  | _ => constructor

theorem Alike.ofLiteral (l : Literal) : (Value.ofLiteral l).Alike w (.ofLiteral l) := by
  cases l <;> constructor

theorem Alike.default (t : Ty) : (Value.default t).Alike w (.default t) := by
  cases t <;> constructor

/-- What gives only plain values gives alike ones. -/
theorem Settles.agree {r r' : Except Cause Value} (h : Settles (·.isPlain = true) r) (e : r = r') :
    Agree (Alike w) r r' := .of_eq e fun a ha => .of_plain (by rw [ha] at h; exact h)

variable {v v' u u' : Value} (hv : v.Alike w v') (hu : u.Alike w u')

namespace Alike

include hv

theorem isTruthy : v.isTruthy = v'.isTruthy := by cases hv <;> rfl

theorem isNil : v.isNil = v'.isNil := by cases hv <;> rfl

theorem typeName : v.typeName = v'.typeName := by
  cases hv with
  | object h => exact h.cls.own.name
  | _ => rfl

theorem asFloat? : v.asFloat? = v'.asFloat? := by cases hv <;> rfl

theorem plainText? : v.plainText? = v'.plainText? := by cases hv <;> rfl

/-- Casts give the same, or fail alike. -/
theorem castTo (target : String) : Agree (Alike w) (v.castTo target) (v'.castTo target) := by
  have refused : noCast target v = noCast target v' := by rw [noCast, noCast, hv.typeName]
  have int : toInt target v = toInt target v' := by
    cases hv <;> first | rfl | exact congrArg Except.error refused
  have float : toFloat target v = toFloat target v' := by
    cases hv <;> first | rfl | exact congrArg Except.error refused
  have bool : toBool target v = toBool target v' := by
    cases hv <;> first | rfl | exact congrArg Except.error refused
  refine (castTo_settles target v).agree ?_
  rw [Value.castTo, Value.castTo, int, float, bool, hv.plainText?, refused]

theorem unary (op : UnaryOp) : Agree (Alike w) (Eval.unary op v) (Eval.unary op v') := by
  refine (unary_settles op v).agree ?_
  have refused : Cause.internalError ("unsupported operand for unary " ++ op.text ++ ": " ++ v.typeName) =
      .internalError ("unsupported operand for unary " ++ op.text ++ ": " ++ v'.typeName) := by
    rw [hv.typeName]
  cases op <;> cases hv <;> first | rfl | exact congrArg Except.error refused

theorem stepped (form : StepForm) : Agree (Alike w) (Eval.stepped form v) (Eval.stepped form v') := by
  refine ((stepped_settles form v).mono fun _ _ => isPlain_of_isScalar).agree ?_
  have refused : Cause.internalError ("cannot step a value of type " ++ v.typeName) =
      .internalError ("cannot step a value of type " ++ v'.typeName) := by
    rw [hv.typeName]
  cases hv <;> first | rfl | exact congrArg Except.error refused

include hu

/-- Values alike are equal to the same values. -/
theorem equals : v.equals u = v'.equals u' := by
  cases hv with
  | function hf =>
      cases hu with
      | function hg => exact congrArg₂ BEq.beq hf.id hg.id
      | _ => rfl
  | cls hc =>
      cases hu with
      | cls hd => exact congrArg₂ BEq.beq hc.own.id hd.own.id
      | _ => rfl
  | object ho =>
      cases hu with
      | object hp => exact congrArg₂ BEq.beq ho.id hp.id
      | _ => rfl
  | _ => cases hu <;> rfl

/-- Values alike have the same order among values alike. -/
theorem order? : Value.order? v u = Value.order? v' u' := by cases hv <;> cases hu <;> rfl

theorem unsupported (op : BinaryOp) : Value.unsupported op v u = Value.unsupported op v' u' := by
  rw [Value.unsupported, Value.unsupported, hv.typeName, hu.typeName]

/-- Sums, differences and so on of values alike are the same. -/
theorem arithmetic (op : BinaryOp) : Value.arithmetic op v u = Value.arithmetic op v' u' := by
  have mixed : Value.mixed op v u = Value.mixed op v' u' := by
    rw [Value.mixed, Value.mixed, hv.asFloat?, hu.asFloat?, hv.unsupported hu]
  cases hv with
  | int n =>
      cases hu with
      | int k => rfl
      | _ => exact mixed
  | str s =>
      cases hu with
      | str t => rfl
      | _ => exact mixed
  | _ => cases hu <;> exact mixed

theorem compared (op : BinaryOp) (test : Ordering → Bool) :
    Value.compared op test v u = Value.compared op test v' u' := by
  rw [Value.compared, Value.compared, hv.order? hu, hv.unsupported hu]

/-- Operators give the same of operands alike, or fail alike. -/
theorem binary (op : BinaryOp) : Agree (Alike w) (Value.binary op v u) (Value.binary op v' u') := by
  refine (binary_settles op v u).agree ?_
  cases op with
  | eq | ne => simp only [Value.binary, hv.equals hu]
  | lt | le | gt | ge => exact hv.compared hu _ _
  | add | sub | mul | div | rem => exact hv.arithmetic hu _

end Alike

end Value

end Brace
