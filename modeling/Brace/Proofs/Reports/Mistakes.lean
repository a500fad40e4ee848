import Brace.Proofs.Safety.Parts

/-!
# Reports — programs with one mistake

A program with a mistake in one place is said as another program: the one that it should have been,
where one expression is replaced. What stands there instead (`r`) may be any expression. The places
are those of the expressions that checking goes into. The format of an input or output statement is
none of them, as it has to be a text written out; nor is the whole of the first part of a `for` loop
or of its update, which have to be of certain forms. What is inside of these is.

* `Program.Replaces`: one program is another with `r` in one place.
* `Program.Binds`: a name is bound somewhere in the program.
-/

namespace Brace

namespace Expr

/-- The expressions directly inside this one that checking goes into, in the order in which it
does. -/
def operands : Expr → List Expr
  | .literal .. | .name .. | .receiver _ | .superMethod .. => []
  | .group _ e | .arrayNew _ _ e | .index _ _ e | .assign _ _ e | .compound _ _ _ e
  | .unary _ _ e | .step _ _ e | .cast _ _ e | .intToFloat _ e | .get _ e _ => [e]
  | .indexAssign _ _ a b | .binary _ _ a b | .logical _ _ a b | .set _ a _ b => [a, b]
  | .call _ callee args => args ++ [callee]
  | .printf _ _ args | .scanf _ _ args | .sprintf _ _ _ args => args

/-- The expression with other operands, as many as it has. -/
def withOperands : Expr → List Expr → Expr
  | .group n _, [e]                  => .group n e
  | .arrayNew n t _, [e]             => .arrayNew n t e
  | .index n x _, [e]                => .index n x e
  | .indexAssign n x _ _, [a, b]     => .indexAssign n x a b
  | .assign n x _, [e]               => .assign n x e
  | .compound n op x _, [e]          => .compound n op x e
  | .binary n op _ _, [a, b]         => .binary n op a b
  | .logical n op _ _, [a, b]        => .logical n op a b
  | .unary n op _, [e]               => .unary n op e
  | .step n form _, [e]              => .step n form e
  | .cast n target _, [e]            => .cast n target e
  | .intToFloat n _, [e]             => .intToFloat n e
  | .get n _ x, [e]                  => .get n e x
  | .set n _ x _, [a, b]             => .set n a x b
  | .call n callee _, es             => .call n (es.getLastD callee) es.dropLast
  | .printf n format _, es           => .printf n format es
  | .scanf n format _, es            => .scanf n format es
  | .sprintf n x format _, es        => .sprintf n x format es
  | e, _                             => e

theorem withOperands_operands (e : Expr) : e.withOperands e.operands = e := by
  cases e <;> simp [operands, withOperands]

theorem mem_children_of_operands {e a : Expr} (h : a ∈ e.operands) : a ∈ e.children := by
  cases e <;> simp_all [operands, children]
  exact h.symm

variable (r : Expr)

/-- The second expression is the first with `r` in place of one of the expressions in it, which may
be the whole. -/
inductive Replaces : Expr → Expr → Prop where
  | whole (e : Expr) : Replaces e r
  | inside {e a b : Expr} {as bs : List Expr} (h : e.operands = as ++ a :: bs)
      (ha : Replaces a b) : Replaces e (e.withOperands (as ++ b :: bs))

/-- The same for the expressions that are inside of this one. -/
inductive ReplacesInside : Expr → Expr → Prop where
  | mk {e a b : Expr} {as bs : List Expr} (h : e.operands = as ++ a :: bs)
      (ha : Replaces r a b) : ReplacesInside e (e.withOperands (as ++ b :: bs))

end Expr

/-- The second list is the first with one member changed. -/
inductive OneOf {α : Type} (R : α → α → Prop) : List α → List α → Prop where
  | mk {a b : α} (as bs : List α) (h : R a b) : OneOf R (as ++ a :: bs) (as ++ b :: bs)

variable (r : Expr)

inductive VarDecl.Replaces : VarDecl → VarDecl → Prop where
  | init {v : VarDecl} {e e' : Expr} (h : v.init = some e) (he : Expr.Replaces r e e') :
      Replaces v { v with init := some e' }

inductive ForInit.Replaces : ForInit → ForInit → Prop where
  | decl {v v' : VarDecl} (h : VarDecl.Replaces r v v') : Replaces (.decl v) (.decl v')
  | expr {e e' : Expr} (h : Expr.ReplacesInside r e e') : Replaces (.expr e) (.expr e')

inductive Stmt.Replaces : Stmt → Stmt → Prop where
  | local {p : Position} {vs vs' : List VarDecl} {ss : List Stmt}
      (h : OneOf (VarDecl.Replaces r) vs vs') : Replaces (.block p vs ss) (.block p vs' ss)
  | member {p : Position} {vs : List VarDecl} {s s' : Stmt} {ss ss' : List Stmt}
      (h : Replaces s s') : Replaces (.block p vs (ss ++ s :: ss')) (.block p vs (ss ++ s' :: ss'))
  | ifCond {p : Position} {cond cond' : Expr} {t e : Stmt} (h : Expr.Replaces r cond cond') :
      Replaces (.ifElse p cond t e) (.ifElse p cond' t e)
  | ifThen {p : Position} {cond : Expr} {t t' e : Stmt} (h : Replaces t t') :
      Replaces (.ifElse p cond t e) (.ifElse p cond t' e)
  | ifElse {p : Position} {cond : Expr} {t e e' : Stmt} (h : Replaces e e') :
      Replaces (.ifElse p cond t e) (.ifElse p cond t e')
  | whileCond {p : Position} {cond cond' : Expr} {body : Stmt} (h : Expr.Replaces r cond cond') :
      Replaces (.whileLoop p cond body) (.whileLoop p cond' body)
  | whileBody {p : Position} {cond : Expr} {body body' : Stmt} (h : Replaces body body') :
      Replaces (.whileLoop p cond body) (.whileLoop p cond body')
  | forInit {p : Position} {init init' : ForInit} {cond update : Expr} {body : Stmt}
      (h : ForInit.Replaces r init init') :
      Replaces (.forLoop p init cond update body) (.forLoop p init' cond update body)
  | forCond {p : Position} {init : ForInit} {cond cond' update : Expr} {body : Stmt}
      (h : Expr.Replaces r cond cond') :
      Replaces (.forLoop p init cond update body) (.forLoop p init cond' update body)
  | forUpdate {p : Position} {init : ForInit} {cond update update' : Expr} {body : Stmt}
      (h : Expr.ReplacesInside r update update') :
      Replaces (.forLoop p init cond update body) (.forLoop p init cond update' body)
  | forBody {p : Position} {init : ForInit} {cond update : Expr} {body body' : Stmt}
      (h : Replaces body body') :
      Replaces (.forLoop p init cond update body) (.forLoop p init cond update body')
  | ret {p : Position} {e e' : Expr} (h : Expr.Replaces r e e') :
      Replaces (.ret p (some e)) (.ret p (some e'))
  | expr {p : Position} {e e' : Expr} (h : Expr.Replaces r e e') :
      Replaces (.expr p e) (.expr p e')

inductive FuncDecl.Replaces : FuncDecl → FuncDecl → Prop where
  | local {f : FuncDecl} {vs : List VarDecl} (h : OneOf (VarDecl.Replaces r) f.locals vs) :
      Replaces f { f with locals := vs }
  | member {f : FuncDecl} {ss : List Stmt} (h : OneOf (Stmt.Replaces r) f.body ss) :
      Replaces f { f with body := ss }

inductive Decl.Replaces : Decl → Decl → Prop where
  | var {v v' : VarDecl} (h : VarDecl.Replaces r v v') : Replaces (.var v) (.var v')
  | func {f f' : FuncDecl} (h : FuncDecl.Replaces r f f') : Replaces (.func f) (.func f')
  | method {d : ClassDecl} {fs : List FuncDecl} (h : OneOf (FuncDecl.Replaces r) d.methods fs) :
      Replaces (.cls d) (.cls { d with methods := fs })

/-- The second program is the first with `r` in place of one of its expressions. -/
def Program.Replaces (p p' : Program) : Prop := OneOf (Decl.Replaces r) p p'

/-! ### Names that are bound -/

/-- The name is given to a variable, a parameter, a function or a class in the declaration, or it
stands for the receiver of the methods or for their superclass. -/
def Decl.Binds (d : Decl) (x : String) : Prop :=
  .name x ∈ d.parts ∨ match d with
    | .cls c => x = "this" ∨ x = "super" ∧ c.superclass.isSome
    | _      => False

/-- The name is predefined, or it is bound somewhere in the program. -/
def Program.Binds (p : Program) (x : String) : Prop :=
  (predefined? x).isSome ∨ ∃ d ∈ p, d.Binds x

def Part.isName (x : String) : Part → Bool
  | .name y => y == x
  | .expr _ => false

instance (d : Decl) (x : String) : Decidable (.name x ∈ d.parts) :=
  decidable_of_iff (d.parts.any (Part.isName x) = true) <| by
    rw [List.any_eq_true]
    constructor
    · rintro ⟨_ | y, h, e⟩
      · cases e
      · rwa [beq_iff_eq.mp e] at h
    · exact fun h => ⟨_, h, beq_self_eq_true x⟩

instance : (d : Decl) → (x : String) → Decidable (d.Binds x)
  | .var _, _  => inferInstanceAs (Decidable (_ ∨ False))
  | .func _, _ => inferInstanceAs (Decidable (_ ∨ False))
  | .cls c, x  =>
      inferInstanceAs (Decidable (_ ∨ (x = "this" ∨ x = "super" ∧ c.superclass.isSome)))

instance (p : Program) (x : String) : Decidable (p.Binds x) :=
  inferInstanceAs (Decidable (_ ∨ _))

end Brace
