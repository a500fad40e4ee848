import Brace.Template
import Brace.Typing

/-!
# Typing — the types of expressions

Checking an expression gives its type, and the expression again with the types of all its parts
noted on them. The operands come first, in the order in which they are written; only a call has
its arguments checked before what is called.
-/

namespace Brace

namespace Check

/-- The type of `left op right`, or a report that the operator does not take them. Where one side is
unknown the other decides. -/
def binaryTy (op : BinaryOp) (left right : Ty) (p : Position) : Check (Option Ty) := do
  if left.isAny || right.isAny then
    pure (some (if !op.isArithmetic then .bool else if left.isAny then right else left))
  else if op == .add && left == .str && right == .str then pure (some .str)
  else if op.isArithmetic && left.isNumeric && left == right then pure (some left)
  else if op.isRelational && left.isNumeric && left == right then pure (some .bool)
  else if op.isEquality && (left == right || left == .nil || right == .nil) then pure (some .bool)
  else
    report (.unsupportedOperation op.text (left.text ++ " and " ++ right.text)) p
    pure none

/-- Reports operands that are not truth values. -/
def expectBools (op : LogicalOp) (left right : Ty) (p : Position) : Check Unit := do
  let isBool (t : Ty) := t == .bool || t.isAny
  if !isBool left || !isBool right then
    report (.unsupportedOperation op.text (left.text ++ " and " ++ right.text)) p

/-- The type of `op operand`. -/
def unaryTy (op : UnaryOp) (operand : Ty) (p : Position) : Check Ty := do
  if op == .not then pure .bool
  else if operand.isNumeric then pure operand
  else
    report (.unsupportedOperation op.text operand.text) p
    pure .any

/-- The type of a stepped place of type `t`. -/
def stepTy (form : StepForm) (t : Ty) (p : Position) : Check Ty := do
  if t.isNumeric then pure t
  else
    report (.unsupportedOperation form.text t.text) p
    pure .any

/-- The type of a cast. A cast to the type that the value has anyway is worth a warning. -/
def castTy (target : String) (source : Ty) (p : Position) : Check Ty := do
  match (Ty.ofName? target).filter Ty.isPrimitive with
  | none =>
      report (.invalidCast target source.text) p
      pure .any
  | some t =>
      if !source.isPrimitive && !source.isAny then report (.invalidCast target source.text) p
      else if source == t then warn (.redundantCast source.text) p
      pure t

/-- The type of a property of an object, as far as its class is known to have it. -/
def propertyTy (x : String) : Option ClassInfo → Ty
  | none   => .any
  | some c =>
      match c.field? x with
      | some t => t
      | none   => if (c.method? x).isSome then .function else .any

/-- Reports arguments that are too few, too many, or of the wrong types. -/
def expectArgs (callee : String) (params : List Ty) (args : List (Ty × Expr)) (p : Position) :
    Check Unit := do
  if params.length = args.length then
    (params.zip args).forM fun x => expectAccepted x.1 x.2.1 x.2.2.pos
  else report (.arityMismatch callee params.length args.length) p

/-- The type of a call of what a name means. -/
def callTy (s : Symbol) (args : List (Ty × Expr)) (p : Position) : Check Ty := do
  match s with
  | .function sig => do
      expectArgs sig.name sig.params args p
      pure sig.returns
  | .builtin b => do
      expectArgs b.name b.params args p
      pure b.returns
  | .cls c => do
      let params := match c.method? "init" with
        | some sig => sig.params
        | none     => []
      expectArgs c.name params args p
      pure (.object c.name)
  | .var .function | .var .any => pure .any
  | s =>
      report (.typeMismatch "function" s.describe) p
      pure .any

/-- The type of a call of a method, as far as the method is known. -/
def methodCallTy (x : String) (args : List (Ty × Expr)) (p : Position) :
    Option Signature → Check Ty
  | some sig => do
      expectArgs x sig.params args p
      pure sig.returns
  | none => pure .any

/-- Reports a format that is not a text written out, or whose specifiers do not go with the
arguments. -/
def expectFormat (format : Expr) (args : List (Ty × Expr)) : Check Unit := do
  match format with
  | .literal _ (.str template) =>
      let specifiers := Template.specifiers template
      if specifiers.length = args.length then
        (specifiers.zip args).forM fun (s, t, e) => do
          if !s.ty.fits t then report (.typeMismatch s.ty.text t.text) e.pos
      else
        report (.malformedFormat (toString specifiers.length ++ " specifiers but "
          ++ toString args.length ++ " arguments")) format.pos
  | _ => report (.malformedFormat "the format must be a string literal") format.pos

/-- Reports what is no place to read input into. -/
def expectTarget (e : Expr) : Check Unit := do
  match e with
  | .name .. | .index .. => pure ()
  | _ => report (.typeMismatch "a variable or array element" "an expression") e.pos

end Check

open Check

namespace Expr

/-- The expression with its type, noted on it. -/
def yield (t : Ty) (e : Expr) : Ty × Expr := (t, e.typed t)

/-- An element or a field: what can be stepped besides a variable. -/
def isPart : Expr → Bool
  | .index .. | .get .. => true
  | _                   => false

/-- The type of a step, and its target with types noted on it. A variable has to be one that can be
assigned to; any other target is checked by `general`. -/
def stepTarget (form : StepForm) (target : Expr) (general : Check (Ty × Expr)) :
    Check (Ty × Expr) := do
  match target with
  | .name n x => do
      let t := (← assignable x n.pos).getD .any
      let s ← stepTy form t n.pos
      pure (s, target.typed t)
  | _ => do
      let (t, e) ← general
      if target.isPart then
        let s ← stepTy form t target.pos
        pure (s, e)
      else
        report (.unsupportedOperation form.text "a value that cannot be assigned to") target.pos
        pure (.any, e)

mutual

/-- The type of an expression, and the expression with types noted on its parts. -/
def check : Expr → Check (Ty × Expr)
  | .literal n l => pure (yield l.ty (.literal n l))
  | .name n x => do
      let t ← tyOfName x n.pos
      pure (yield t (.name n x))
  | .group n e => do
      let (t, e) ← e.check
      pure (yield t (.group n e))
  | .arrayNew n element size => do
      if element == .void then report (.typeMismatch "an element type" element.text) n.pos
      let _ ← resolveTy n.pos element
      let (t, size) ← size.check
      expectIndex t size.pos
      pure (yield (.array element) (.arrayNew n element size))
  | .index n x i => do
      let element ← elementTy x n.pos
      let (t, i) ← i.check
      expectIndex t i.pos
      pure (yield element (.index n x i))
  | .indexAssign n x i e => do
      let element ← elementTy x n.pos
      let (t, i) ← i.check
      expectIndex t i.pos
      let (t, e) ← e.check
      expectAccepted element t e.pos
      pure (yield element (.indexAssign n x i e))
  | .assign n x e => do
      let target ← assignable x n.pos
      let (t, e) ← e.check
      match target with
      | some target => do
          expectAccepted target t e.pos
          pure (yield target (.assign n x e))
      | none => pure (yield .any (.assign n x e))
  | .compound n op x e => do
      let target ← assignable x n.pos
      let (t, e) ← e.check
      match target with
      | some target => do
          match ← binaryTy op target t n.pos with
          | some result => expectAccepted target result n.pos
          | none        => pure ()
          pure (yield target (.compound n op x e))
      | none => pure (yield .any (.compound n op x e))
  | .binary n op l r => do
      let (a, l) ← l.check
      let (b, r) ← r.check
      let t ← binaryTy op a b n.pos
      pure (yield (t.getD .any) (.binary n op l r))
  | .logical n op l r => do
      let (a, l) ← l.check
      let (b, r) ← r.check
      expectBools op a b n.pos
      pure (yield .bool (.logical n op l r))
  | .unary n op e => do
      let (t, e) ← e.check
      let t ← unaryTy op t n.pos
      pure (yield t (.unary n op e))
  | .step n form target => do
      let (t, target) ← stepTarget form target target.check
      pure (yield t (.step n form target))
  | .cast n target e => do
      let (source, e) ← e.check
      let t ← castTy target source n.pos
      pure (yield t (.cast n target e))
  | .intToFloat n e => do
      let (t, e) ← e.check
      expectTy .int t e.pos
      pure (yield .float (.intToFloat n e))
  | .get n o x => do
      let (t, o) ← o.check
      let c ← classOf t o.pos
      pure (yield (propertyTy x c) (.get n o x))
  | .set n o x e => do
      let (t, o) ← o.check
      let c ← classOf t o.pos
      let (t, e) ← e.check
      match c.bind (·.field? x) with
      | some field => expectAccepted field t e.pos
      | none       => pure ()
      pure (yield t (.set n o x e))
  | .receiver n => do
      let t ← tyOfName "this" n.pos
      pure (yield t (.receiver n))
  | .superMethod n x => do
      let sig ← Check.superMethod x n.pos
      pure (yield (if sig.isSome then .function else .any) (.superMethod n x))
  | .call n callee args => do
      let args ← checkAll args
      let (t, callee) ← checkCallee callee args n.pos callee.check
      pure (yield t (.call n callee (args.map (·.2))))
  | .printf n format args => do
      let args ← checkAll args
      expectFormat format args
      pure (yield .void (.printf n (format.typed .str) (args.map (·.2))))
  | .scanf n format targets => do
      targets.forM expectTarget
      let args ← checkAll targets
      expectFormat format args
      pure (yield .void (.scanf n (format.typed .str) (args.map (·.2))))
  | .sprintf n x format args => do
      match ← assignable x n.pos with
      | some t => expectTy .str t n.pos
      | none   => pure ()
      let args ← checkAll args
      expectFormat format args
      pure (yield .void (.sprintf n x (format.typed .str) (args.map (·.2))))

/-- The type of a call with these arguments, and what is called with types noted on it. A name, a
method and a method of the superclass are checked as callees of their own kind, and anything else
by `general`. -/
def checkCallee : Expr → List (Ty × Expr) → Position → (general : Check (Ty × Expr)) →
    Check (Ty × Expr)
  | .name m x, args, p, _ => do
      match ← Check.lookup x m.pos with
      | some s => do
          let t ← callTy s args p
          pure (t, (Expr.name m x).typed s.ty)
      | none => pure (.any, .name m x)
  | .get m o x, args, p, _ => do
      let (t, o) ← o.check
      let c ← classOf t o.pos
      let t ← methodCallTy x args p (c.bind (·.method? x))
      pure (t, (Expr.get m o x).typed .function)
  | .superMethod m x, args, p, _ => do
      let sig ← Check.superMethod x m.pos
      let t ← methodCallTy x args p sig
      pure (t, (Expr.superMethod m x).typed .function)
  | _, _, p, general => do
      let (t, callee) ← general
      if t != .function && !t.isAny then report (.typeMismatch "function" t.text) p
      pure (.any, callee)

/-- The types of a list of expressions, from left to right. -/
def checkAll : List Expr → Check (List (Ty × Expr))
  | []      => pure []
  | e :: es => do
      let x ← e.check
      let xs ← checkAll es
      pure (x :: xs)

end

/-- Checks an expression that decides between two ways to go on. -/
def checkCondition (e : Expr) : Check Expr := do
  let (t, e) ← e.check
  expectTy .bool t e.pos
  pure e

end Expr

end Brace
