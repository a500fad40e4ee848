import Brace.Proofs.Typing.Scene
import Brace.Typing.Expr

/-!
# Typing — the rules for programs

What an accepted program is like, said without a checker: the rules that its expressions,
statements and declarations keep, each in the scene of its place. A node of an expression is ruled
by the types that are noted on it and on the expressions directly inside it (`Expr.Rule`), so a
sound expression is one whose parts all keep their rule, in one scene.

The rules speak of the classes that checking knows of at the end (`K`), which a run has from its
start: a class that is declared later than a place is not known there, but no type names it there.
-/

namespace Brace

/-- The type of `left op right`, where the operator takes the two. -/
inductive BinaryOp.Gives (op : BinaryOp) : Ty → Ty → Ty → Prop where
  | unknownTest {a b : Ty} (h : a = .any ∨ b = .any) (h' : op.isArithmetic = false) :
      op.Gives a b .bool
  | unknownLeft {b : Ty} (h : op.isArithmetic = true) : op.Gives .any b b
  | unknownRight {a : Ty} (h : op.isArithmetic = true) : op.Gives a .any a
  | join (h : op = .add) : op.Gives .str .str .str
  | arithmetic {a : Ty} (h : op.isArithmetic = true) (h' : a.isNumeric = true) : op.Gives a a a
  | compare {a : Ty} (h : op.isRelational = true) (h' : a.isNumeric = true) : op.Gives a a .bool
  | equality {a b : Ty} (h : op.isEquality = true) : op.Gives a b .bool

namespace Expr

/-- The expression has one of these types. -/
def Has (e : Expr) (ts : Ty → Prop) : Prop := ∃ t, e.ty? = some t ∧ ts t

/-- The type of something that may be a whole number. -/
def intLike (t : Ty) : Prop := t = .int ∨ t = .any

def boolLike (t : Ty) : Prop := t = .bool ∨ t = .any

/-- The type of something that may have properties. -/
def objectLike (t : Ty) : Prop := t = .any ∨ ∃ x, t = .object x

/-- What an expression is to the form that it stands in. -/
inductive Kind where
  | name
  | index
  | get
  | superMethod
  | other
  deriving DecidableEq

def kind : Expr → Kind
  | .name ..        => .name
  | .index ..       => .index
  | .get ..         => .get
  | .superMethod .. => .superMethod
  | _               => .other

/-- A note does not change of which kind an expression is. -/
@[simp] theorem kind_mapNote (f : Note → Note) (e : Expr) : (e.mapNote f).kind = e.kind := by
  cases e <;> rfl

@[simp] theorem kind_typed (e : Expr) (t : Ty) : (e.typed t).kind = e.kind := kind_mapNote _ e

/-- A text written out, with a specifier for each argument that takes what the argument is. -/
def Formats (format : Expr) (args : List Expr) : Prop :=
  ∃ n template, format = .literal n (.str template) ∧ n.ty? = some .str ∧
    (Template.specifiers template).length = args.length ∧
    ∀ x ∈ (Template.specifiers template).zip args, x.2.Has (x.1.ty.fits · = true)

end Expr

namespace Scene

/-- As many arguments as parameters, each of a type that may stand there. -/
def Passes (Γ : Scene) (params : List Ty) (args : List Expr) : Prop :=
  params.length = args.length ∧ ∀ x ∈ params.zip args, x.2.Has (Γ.Accepts x.1)

/-- The type of a call of what a name stands for. -/
inductive Calls (Γ : Scene) (args : List Expr) : Symbol → Ty → Prop where
  | function {sig : Signature} (h : Γ.Passes sig.params args) :
      Calls Γ args (.function sig) sig.returns
  | builtin {b : Builtin} (h : Γ.Passes b.params args) : Calls Γ args (.builtin b) b.returns
  | cls (info : ClassInfo) : Calls Γ args (.cls info) (.object info.name)
  | closure : Calls Γ args (.var .function) .any
  | unknown : Calls Γ args (.var .any) .any

variable (K : Table ClassInfo) (Γ : Scene)

/-- The call of a method of an object whose class is known, or is not. -/
def CallsMethod (object : Expr) (x : String) (args : List Expr) (t : Ty) : Prop :=
  object.Has Expr.objectLike ∧
    ∀ c info sig, object.ty? = some (.object c) → K.get? c = some info →
      info.method? x = some sig → Γ.Passes sig.params args ∧ t = sig.returns

/-- The call gives a value of type `t`. -/
def CallRule (t : Ty) (args : List Expr) : Expr → Prop
  | .name n x           => ∃ s, Γ.means x = some s ∧ n.ty? = some s.ty ∧ Γ.Calls args s t
  | .get n object x     => n.ty? = some .function ∧ Γ.CallsMethod K object x args t
  | .superMethod n _    => n.ty? = some .function
  | callee              => callee.Has (fun c => c = .function ∨ c = .any) ∧ t = .any

end Scene

namespace Expr

variable (K : Table ClassInfo) (Γ : Scene)

/-- The rule for one node of an expression. -/
def Rule : Expr → Prop
  | .literal n l => n.ty? = some l.ty
  | .name n x => ∃ s, Γ.means x = some s ∧ n.ty? = some s.ty
  | .group n e => n.ty? = e.ty?
  | .arrayNew n t size => n.ty? = some (.array t) ∧ size.Has intLike
  | .index n x i => ∃ s t, Γ.means x = some s ∧ s.Elements t ∧ n.ty? = some t ∧ i.Has intLike
  | .indexAssign n x i e => ∃ s t, Γ.means x = some s ∧ s.Elements t ∧ n.ty? = some t ∧
      i.Has intLike ∧ e.Has (Γ.Accepts t)
  | .assign n x e => ∃ t, Γ.means x = some (.var t) ∧ n.ty? = some t ∧ e.Has (Γ.Accepts t)
  | .compound n op x e => ∃ t, Γ.means x = some (.var t) ∧ n.ty? = some t ∧
      e.Has fun r => ∃ u, op.Gives t r u ∧ Γ.Accepts t u
  | .binary n op l r => ∃ t, n.ty? = some t ∧ l.Has fun a => r.Has fun b => op.Gives a b t
  | .logical n _ l r => n.ty? = some .bool ∧ l.Has boolLike ∧ r.Has boolLike
  | .unary n op e => e.Has fun t =>
      op = .not ∧ n.ty? = some .bool ∨ op ≠ .not ∧ t.isNumeric = true ∧ n.ty? = some t
  | .step n _ target => ∃ t, n.ty? = some t ∧ target.ty? = some t ∧ t.isNumeric = true ∧
      (target.isPart = true ∨ ∃ m x, target = .name m x ∧ Γ.means x = some (.var t))
  | .cast n target e => ∃ t, Ty.ofName? target = some t ∧ t.isPrimitive = true ∧ n.ty? = some t ∧
      e.Has fun s => s.isPrimitive = true ∨ s = .any
  | .intToFloat n e => n.ty? = some .float ∧ e.Has intLike
  | .get _ object _ => object.Has objectLike
  | .set n object _ e => object.Has objectLike ∧ n.ty? = e.ty?
  | .receiver n => ∃ s, Γ.means "this" = some s ∧ n.ty? = some s.ty
  | .superMethod _ x => ∃ s, Γ.means "super" = some s ∧
      ∀ info, s = .cls info → (info.method? x).isSome
  | .call n callee args => ∃ t, n.ty? = some t ∧ Γ.CallRule K t args callee
  | .printf n format args => n.ty? = some .void ∧ format.Formats args
  | .scanf n format targets => n.ty? = some .void ∧ format.Formats targets ∧
      ∀ e ∈ targets, e.kind = .name ∨ e.kind = .index
  | .sprintf n x format args => n.ty? = some .void ∧ format.Formats args ∧
      ∃ t, Γ.means x = some (.var t) ∧ (t = .str ∨ t = .any)

/-- All parts of the expression keep their rule. -/
def Sound (e : Expr) : Prop := ∀ s ∈ e.subexprs, s.Rule K Γ

/-- An expression is sound if it follows the rule for its form and all those inside it are sound. -/
theorem sound_iff (e : Expr) : e.Sound K Γ ↔ e.Rule K Γ ∧ ∀ c ∈ e.children, c.Sound K Γ := by
  simp only [Sound, subexprs_eq e, List.forall_mem_cons, List.mem_flatMap]
  constructor
  · rintro ⟨h, hs⟩
    exact ⟨h, fun c hc s hsc => hs s ⟨c, hc, hsc⟩⟩
  · rintro ⟨h, hs⟩
    exact ⟨h, fun s ⟨c, hc, hsc⟩ => hs c hc s hsc⟩

variable {K Γ}

theorem Sound.rule {e : Expr} (h : e.Sound K Γ) : e.Rule K Γ := ((sound_iff K Γ e).mp h).1

/-- What is inside a sound expression is sound. -/
theorem Sound.child {e c : Expr} (h : e.Sound K Γ) (hc : c ∈ e.children) : c.Sound K Γ :=
  ((sound_iff K Γ e).mp h).2 c hc

/-! ### Methods of the superclass -/

/-- Where the expression uses a method of the superclass, that is a class, or something in the
expression has the type `any`. -/
def Tells (Γ : Scene) (e : Expr) : Prop :=
  ∀ n x, .superMethod n x ∈ e.subexprs →
    (∃ info, Γ.means "super" = some (.cls info)) ∨ ∃ s ∈ e.subexprs, s.ty? = some .any

/-- A node that uses no method of the superclass tells what those inside it tell. -/
theorem Tells.node {e : Expr} (hk : e.kind ≠ .superMethod) (h : ∀ c ∈ e.children, c.Tells Γ) :
    e.Tells Γ := by
  intro n x hs
  rw [subexprs_eq] at hs ⊢
  rcases List.mem_cons.mp hs with rfl | hs
  · exact absurd rfl hk
  · obtain ⟨c, hc, hs⟩ := List.mem_flatMap.mp hs
    refine (h c hc n x hs).imp_right ?_
    rintro ⟨s, hs, any⟩
    exact ⟨s, .tail _ (List.mem_flatMap.mpr ⟨c, hc, hs⟩), any⟩

theorem Tells.of_any {e : Expr} (h : e.ty? = some .any) : e.Tells Γ := fun _ _ _ => by
  rw [subexprs_eq]
  exact .inr ⟨e, .head _, h⟩

/-- Where the superclass is a class, an expression tells of one. -/
theorem Tells.of_class {e : Expr} {info : ClassInfo} (h : Γ.means "super" = some (.cls info)) :
    e.Tells Γ := fun _ _ _ => .inl ⟨info, h⟩

variable (K Γ) in
/-- A sound expression that is not called. What is called may be a method of a superclass that is
not a class, of which only the type of the call tells. -/
structure Whole (e : Expr) : Prop where
  sound : e.Sound K Γ
  tells : e.Tells Γ

end Expr

/-! ### Statements -/

section

variable (K : Table ClassInfo)

/-- A variable is new to its frame, and its first value may stand there. -/
def VarDecl.Sound (Γ : Scene) (v : VarDecl) : Prop :=
  Γ.own v.name = false ∧
    ∀ e, v.init = some e → e.Whole K (Γ.hide v.name) ∧ e.Has ((Γ.hide v.name).Accepts v.ty)

/-- The variables are sound one after another. -/
def VarDecl.SoundAll : Scene → List VarDecl → Prop
  | _, []      => True
  | Γ, v :: vs => v.Sound K Γ ∧ VarDecl.SoundAll (Γ.declare v) vs

def ForInit.Sound (Γ : Scene) : ForInit → Prop
  | .decl v => v.Sound K Γ
  | .expr e => e.Whole K Γ

/-- After the first part of a `for`. -/
def Scene.afterInit (Γ : Scene) : ForInit → Scene
  | .decl v => Γ.declare v
  | .expr _ => Γ

mutual

def Stmt.Sound : Scene → Stmt → Prop
  | Γ, .block _ locals body =>
      VarDecl.SoundAll K Γ.enter locals ∧ Stmt.SoundAll (Γ.enter.declareAll locals) body
  | Γ, .ifElse _ cond t e => cond.Whole K Γ ∧ t.Sound Γ ∧ e.Sound Γ
  | Γ, .whileLoop _ cond body => cond.Whole K Γ ∧ body.Sound (Γ.looping true)
  | Γ, .forLoop _ init cond update body =>
      init.Sound K Γ.enter ∧ cond.Whole K (Γ.enter.afterInit init) ∧
        update.Whole K (Γ.enter.afterInit init) ∧
        body.Sound ((Γ.enter.afterInit init).looping true)
  | Γ, .ret _ (some e) => e.Whole K Γ ∧
      ∃ f, Γ.function = some f ∧ f.returns ≠ .void ∧ e.Has (Γ.Accepts f.returns)
  | Γ, .ret _ none => ∃ f, Γ.function = some f ∧ f.returns = .void
  | Γ, .breakLoop _ => Γ.inLoop = true
  | Γ, .continueLoop _ => Γ.inLoop = true
  | Γ, .expr _ e => e.Whole K Γ
  | _, .empty _ => True

def Stmt.SoundAll : Scene → List Stmt → Prop
  | _, []      => True
  | Γ, s :: ss => s.Sound Γ ∧ Stmt.SoundAll Γ ss

end

/-! ### Functions, classes and programs -/

/-- The parameters are new to their frame, one after another. -/
def Scene.NewParams : Scene → List Param → Prop
  | _, []      => True
  | Γ, x :: xs => Γ.own x.name = false ∧ (Γ.bind x.name (.var x.ty)).NewParams xs

/-- Where the variables of a function are declared. -/
def Scene.ofFunction (Γ : Scene) (f : FuncDecl) : Scene :=
  ((Γ.enter.bindParams f.params).looping false).within ⟨f.name, f.returns⟩

@[simp] theorem Scene.classes_ofFunction (Γ : Scene) (f : FuncDecl) :
    (Γ.ofFunction f).classes = Γ.classes := by simp [ofFunction]

/-- The function keeps the rules where it is declared, and a function that gives something cannot
reach the end of its body. -/
structure FuncDecl.Sound (Γ : Scene) (f : FuncDecl) : Prop where
  params  : Γ.enter.NewParams f.params
  locals  : VarDecl.SoundAll K (Γ.ofFunction f) f.locals
  body    : Stmt.SoundAll K ((Γ.ofFunction f).declareAll f.locals) f.body
  returns : f.returns = .void ∨ Stmt.anyReturns f.body = true

/-- What is known of the class that is declared. Of members that are declared twice, the later. -/
def ClassDecl.info (d : ClassDecl) (superclass : Option ClassInfo) : ClassInfo where
  own :=
    { name    := d.name
      fields  := d.fields.foldl (fun t x => t.put x.name x.ty) .empty
      methods := d.methods.foldl (fun t f => t.put f.name f.signature) .empty }
  inherited := match superclass with
    | some c => c.tiers
    | none   => []

namespace Scene

/-- The class that a declaration names as the superclass. -/
def superOf (Γ : Scene) (d : ClassDecl) : Option ClassInfo :=
  match d.superclass with
  | some x =>
      match Γ.means x with
      | some (.cls info) => some info
      | _                => none
  | none => none

/-- Inside the frame that binds the superclass, if there is one. -/
def belowSuper (Γ : Scene) : Option ClassInfo → Scene
  | some c => Γ.enter.bind "super" (.cls c)
  | none   => Γ

/-- The innermost frame is kept together with the one outside it. -/
def join (Γ : Scene) (joined : Bool) : Scene := { Γ with top := ⟨Γ.top.names, joined⟩ }

/-- Where the methods of a class are declared: in a frame that binds the receiver, inside the one
that binds the superclass. -/
def inClass (Γ : Scene) (name : String) (superclass : Option ClassInfo) : Scene :=
  ((Γ.belowSuper superclass).enter.bind "this" (.receiver (.object name))).join superclass.isSome

@[simp] theorem classes_inClass (Γ : Scene) (name : String) (superclass : Option ClassInfo) :
    (Γ.inClass name superclass).classes = Γ.classes := by
  cases superclass <;> rfl

/-- After a declaration of a program. -/
def after (Γ : Scene) : Decl → Scene
  | .var v  => Γ.declare v
  | .func f => Γ.bind f.name (.function f.signature)
  | .cls d  => Γ.addClass (d.info (Γ.superOf d))

def afterAll : Scene → List Decl → Scene
  | Γ, []      => Γ
  | Γ, d :: ds => (Γ.after d).afterAll ds

/-- The frame of the predefined names. -/
def predefinedNames : Names := fun x =>
  ((Table.ofList (predefined (Symbol.const ·.ty) Symbol.builtin)).get? x).map some

/-- Where a program starts. -/
def start : Scene where
  top      := ⟨.empty, false⟩
  outer    := [⟨predefinedNames, false⟩]
  classes  := .empty
  inLoop   := false
  function := none

/-- At first a name means what is predefined. -/
theorem means_start (x : String) :
    start.means x = (Table.ofList (predefined (Symbol.const ·.ty) Symbol.builtin)).get? x := by
  simp only [means, frames, levels, start, Names.empty, predefinedNames, List.map_cons, List.map_nil,
    List.findSome?_cons, List.findSome?_nil]
  cases (Table.ofList (predefined (Symbol.const ·.ty) Symbol.builtin)).get? x <;> rfl

end Scene

/-- A class is new, so is its name, and its superclass is one. Its methods are sound inside it. -/
structure ClassDecl.Sound (Γ : Scene) (d : ClassDecl) : Prop where
  new        : Γ.own d.name = false
  superclass : ∀ x, d.superclass = some x → ∃ info, Γ.means x = some (.cls info)
  declared   : K.get? d.name = some (d.info (Γ.superOf d))
  methods    : ∀ f ∈ d.methods,
    f.Sound K ((Γ.addClass (d.info (Γ.superOf d))).inClass d.name (Γ.superOf d))

def Decl.Sound (Γ : Scene) : Decl → Prop
  | .var v  => v.Sound K Γ
  | .func f => Γ.own f.name = false ∧ f.Sound K (Γ.bind f.name (.function f.signature))
  | .cls d  => d.Sound K Γ

/-- The declarations are sound one after another. -/
def Decl.SoundAll : Scene → List Decl → Prop
  | _, []      => True
  | Γ, d :: ds => d.Sound K Γ ∧ Decl.SoundAll (Γ.after d) ds

end

end Brace
