import Brace.Operator
import Brace.Position
import Brace.Ty

/-!
# Expr — expressions as trees

The expressions of the language as trees. Every node carries a note of where it stands and, once
checking has got to it, of the type it was found to have. A variable, an element of an array
variable and a field of an object are the places that can be stepped and read into.

* `subexprs_eq`: the expressions inside one are its children and those inside them.
-/

namespace Brace

/-- A constant written in the program. -/
inductive Literal where
  | int (n : Int64)
  | float (x : Float)
  | bool (b : Bool)
  | str (s : String)
  | nil
  deriving Inhabited

def Literal.ty : Literal → Ty
  | .int _   => .int
  | .float _ => .float
  | .bool _  => .bool
  | .str _   => .str
  | .nil     => .nil

/-- What is known of a node apart from its shape. -/
structure Note where
  pos : Position
  /-- The type found by checking, once there is one. -/
  ty? : Option Ty
  deriving DecidableEq, Repr, Inhabited

/-- The note of a node of which nothing is known. -/
def Note.blank : Note := ⟨.unknown, none⟩

inductive Expr where
  | literal (note : Note) (value : Literal)
  /-- A variable, function, class or built-in, by name. -/
  | name (note : Note) (x : String)
  | group (note : Note) (inner : Expr)
  | arrayNew (note : Note) (element : Ty) (size : Expr)
  | index (note : Note) (array : String) (index : Expr)
  | indexAssign (note : Note) (array : String) (index value : Expr)
  | call (note : Note) (callee : Expr) (args : List Expr)
  | assign (note : Note) (x : String) (value : Expr)
  /-- `x op= value`. -/
  | compound (note : Note) (op : BinaryOp) (x : String) (value : Expr)
  | binary (note : Note) (op : BinaryOp) (left right : Expr)
  | logical (note : Note) (op : LogicalOp) (left right : Expr)
  | unary (note : Note) (op : UnaryOp) (operand : Expr)
  | step (note : Note) (form : StepForm) (target : Expr)
  /-- The target of a cast is kept as written: it may name no type. -/
  | cast (note : Note) (target : String) (inner : Expr)
  | intToFloat (note : Note) (inner : Expr)
  | get (note : Note) (object : Expr) (field : String)
  | set (note : Note) (object : Expr) (field : String) (value : Expr)
  /-- The object whose method is running. -/
  | receiver (note : Note)
  /-- A method as the superclass defines it, for the same receiver. -/
  | superMethod (note : Note) (method : String)
  | printf (note : Note) (format : Expr) (args : List Expr)
  | scanf (note : Note) (format : Expr) (targets : List Expr)
  | sprintf (note : Note) (target : String) (format : Expr) (args : List Expr)
  deriving Inhabited

namespace Expr

def note : Expr → Note
  | .literal n _ | .name n _ | .group n _ | .arrayNew n _ _ | .index n _ _ | .indexAssign n _ _ _
  | .call n _ _ | .assign n _ _ | .compound n _ _ _ | .binary n _ _ _ | .logical n _ _ _
  | .unary n _ _ | .step n _ _ | .cast n _ _ | .intToFloat n _ | .get n _ _ | .set n _ _ _
  | .receiver n | .superMethod n _ | .printf n _ _ | .scanf n _ _ | .sprintf n _ _ _ => n

def pos (e : Expr) : Position := e.note.pos

/-- The type that checking found, if it got here. -/
def ty? (e : Expr) : Option Ty := e.note.ty?

/-- The same expression under a note changed by `f`. -/
def mapNote (f : Note → Note) : Expr → Expr
  | .literal n v         => .literal (f n) v
  | .name n x            => .name (f n) x
  | .group n e           => .group (f n) e
  | .arrayNew n t e      => .arrayNew (f n) t e
  | .index n a i         => .index (f n) a i
  | .indexAssign n a i v => .indexAssign (f n) a i v
  | .call n c args       => .call (f n) c args
  | .assign n x v        => .assign (f n) x v
  | .compound n op x v   => .compound (f n) op x v
  | .binary n op l r     => .binary (f n) op l r
  | .logical n op l r    => .logical (f n) op l r
  | .unary n op e        => .unary (f n) op e
  | .step n form e       => .step (f n) form e
  | .cast n t e          => .cast (f n) t e
  | .intToFloat n e      => .intToFloat (f n) e
  | .get n o x           => .get (f n) o x
  | .set n o x v         => .set (f n) o x v
  | .receiver n          => .receiver (f n)
  | .superMethod n m     => .superMethod (f n) m
  | .printf n t args     => .printf (f n) t args
  | .scanf n t args      => .scanf (f n) t args
  | .sprintf n x t args  => .sprintf (f n) x t args

/-- A call that stands where what it calls stands. -/
def callOf (callee : Expr) (args : List Expr) : Expr := .call ⟨callee.pos, none⟩ callee args

/-- The expression with its place in the program. -/
def place (e : Expr) (p : Position) : Expr := e.mapNote fun n => { n with pos := p }

/-- The expression with the type that was found for it. -/
def typed (e : Expr) (t : Ty) : Expr := e.mapNote fun n => { n with ty? := some t }

@[simp] theorem note_mapNote (f : Note → Note) (e : Expr) : (e.mapNote f).note = f e.note := by
  cases e <;> rfl

@[simp] theorem ty?_typed (e : Expr) (t : Ty) : (e.typed t).ty? = some t := by
  simp [ty?, typed]

/-- The expressions directly inside this one, in the order in which they are written. -/
def children : Expr → List Expr
  | .literal .. | .name .. | .receiver _ | .superMethod .. => []
  | .group _ e | .arrayNew _ _ e | .index _ _ e | .assign _ _ e | .compound _ _ _ e
  | .unary _ _ e | .step _ _ e | .cast _ _ e | .intToFloat _ e | .get _ e _ => [e]
  | .indexAssign _ _ a b | .binary _ _ a b | .logical _ _ a b | .set _ a _ b => [a, b]
  | .call _ e args | .printf _ e args | .scanf _ e args | .sprintf _ _ e args => e :: args

theorem sizeOf_child {e c : Expr} (h : c ∈ e.children) : sizeOf c < sizeOf e := by
  cases e <;> simp only [children, List.mem_cons, List.not_mem_nil, or_false] at h
  case call n a as | printf n a as | scanf n a as | sprintf n x a as =>
    rcases h with rfl | h
    · simp; omega
    · have := List.sizeOf_lt_of_mem h
      simp; omega
  case indexAssign | binary | logical | set =>
    simp only [indexAssign.sizeOf_spec, binary.sizeOf_spec, logical.sizeOf_spec, set.sizeOf_spec]
    rcases h with rfl | rfl <;> omega
  all_goals subst h; simp <;> omega

mutual

/-- The expression and all those inside it, each before those inside it. -/
def subexprs : Expr → List Expr
  | e@(.literal ..) | e@(.name ..) | e@(.receiver _) | e@(.superMethod ..) => [e]
  | e@(.group _ a) | e@(.arrayNew _ _ a) | e@(.index _ _ a) | e@(.assign _ _ a)
  | e@(.compound _ _ _ a) | e@(.unary _ _ a) | e@(.step _ _ a) | e@(.cast _ _ a)
  | e@(.intToFloat _ a) | e@(.get _ a _) => e :: a.subexprs
  | e@(.indexAssign _ _ a b) | e@(.binary _ _ a b) | e@(.logical _ _ a b)
  | e@(.set _ a _ b) => e :: (a.subexprs ++ b.subexprs)
  | e@(.call _ a args) | e@(.printf _ a args) | e@(.scanf _ a args)
  | e@(.sprintf _ _ a args) => e :: (a.subexprs ++ subexprsOf args)

/-- The expressions of a list and all those inside them. -/
def subexprsOf : List Expr → List Expr
  | []      => []
  | e :: es => e.subexprs ++ subexprsOf es

end

theorem subexprsOf_eq_flatMap (es : List Expr) : subexprsOf es = es.flatMap subexprs := by
  induction es with
  | nil => simp [subexprsOf]
  | cons e es ih => simp [subexprsOf, ih]

theorem subexprs_eq (e : Expr) : e.subexprs = e :: e.children.flatMap subexprs := by
  cases e <;> simp [subexprs, children, subexprsOf_eq_flatMap]

/-- A form that changes a number by an amount of its own, as the update of a `for` must. -/
def isStep : Expr → Bool
  | .step ..                                  => true
  | .compound _ .add _ _ | .compound _ .sub _ _ => true
  | _                                         => false

/-- A form that stores a value, as the first part of a `for` must. -/
def isAssignment : Expr → Bool
  | .assign .. | .indexAssign .. | .compound .. | .set .. => true
  | _                                                     => false

end Expr

end Brace
