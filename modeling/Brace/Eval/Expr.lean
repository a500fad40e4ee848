import Brace.Eval
import Brace.Value.Arithmetic

/-!
# Eval — what expressions mean

One layer of evaluation: an expression's operands are asked for, in the order in which they are
written, and then its own operation is done. A failure of the operation is blamed on the
expression, except that a format is blamed for its own failures and a target for what cannot be
stored in it.
-/

namespace Brace

open Eval

/-- Asks for the value of an expression. -/
def Expr.eval (e : Expr) : Eval Value := ask (.expr e)

namespace Eval

/-! ### Kinds of values -/

def expectInt (v : Value) (p : Position) : Eval Int64 :=
  match v with
  | .int n => pure n
  | _      => fail (.internalError ("expected an int, found " ++ v.typeName)) p

def expectString (v : Value) (p : Position) : Eval String :=
  match v with
  | .str s => pure s
  | _      => fail (.internalError ("expected a string, found " ++ v.typeName)) p

def expectObject (v : Value) (p : Position) : Eval Object :=
  match v with
  | .object o => pure o
  | _         => do
      let text ← textOf v
      fail (.notAnInstance text) p

/-- The array that a variable holds. -/
def lookupArray (x : String) (p : Position) : Eval ArrayId := do
  match ← lookup x p with
  | .array id => pure id
  | v         =>
      fail (.internalError (Text.quote x ++ " holds a " ++ v.typeName ++ ", not an array")) p

/-! ### Arrays and objects -/

def newArray (element : Ty) (size : Int64) (p : Position) : Eval Value := fun m =>
  if size < 0 then .finished (.error ⟨.indexOutOfBounds size.toInt 0, p⟩) m
  else
    match m.heap.newArray element size.toInt.toNat with
    | .error c       => .finished (.error ⟨c, p⟩) m
    | .ok (id, heap) => .finished (.ok (.array id)) { m with heap }

def element (id : ArrayId) (i : Int64) (p : Position) : Eval Value :=
  consult p fun m => m.heap.element id i

def setElement (id : ArrayId) (i : Int64) (v : Value) (p : Position) : Eval Unit :=
  update p (fun m => m.heap.slot id i) fun k m => m.writeElement id k v

/-- What an object answers to a name: a field it has, or else a method of its class, bound to the
object. -/
def property (o : Object) (x : String) (p : Position) : Eval Value := do
  match ← view (·.heap.field? o.id x) with
  | some v => pure v
  | none   =>
      match o.cls.method? x with
      | some method => do
          let f ← make (·.bindMethod o method)
          pure (.function f)
      | none => fail (.undefinedProperty x) p

def setField (o : Object) (x : String) (v : Value) : Eval Unit := change (·.setField o x v)

/-! ### Places -/

/-- Where a value can be stored. What it takes to get there has been evaluated already, so that a
place can be read and then written. -/
inductive Place where
  | var (x : String)
  | element (id : ArrayId) (i : Int64)
  | field (o : Object) (x : String)

/-- The place that an expression names. -/
def place : Expr → Eval Place
  | .name _ x     => pure (.var x)
  | .index n x ie => do
      let id ← lookupArray x n.pos
      let i ← ie.eval
      let i ← expectInt i n.pos
      pure (.element id i)
  | .get n oe x   => do
      let v ← oe.eval
      let o ← expectObject v n.pos
      pure (.field o x)
  | e             =>
      fail (.internalError "assignment to an expression that is not a variable, element or field")
        e.pos

namespace Place

def read (p : Position) : Place → Eval Value
  | .var x        => lookup x p
  | .element id i => Eval.element id i p
  | .field o x    => property o x p

def write (v : Value) (p : Position) : Place → Eval Unit
  | .var x        => assign x v p
  | .element id i => setElement id i v p
  | .field o x    => setField o x v

end Place

/-- The number after a step. -/
def stepped (form : StepForm) : Value → Except Cause Value
  | .int n   => .ok (.int (n + Int64.ofInt form.delta))
  | .float x => .ok (.float (x + Float.ofInt form.delta))
  | v        => .error (.internalError ("cannot step a value of type " ++ v.typeName))

/-- Steps the place that `target` names. -/
def step (form : StepForm) (target : Expr) : Eval Value := do
  let here ← place target
  let old ← here.read target.pos
  let new ← ofExcept target.pos (stepped form old)
  here.write new target.pos
  pure (if form.yieldsNew then new else old)

/-! ### Operators -/

/-- The value of `op operand`. -/
def unary (op : UnaryOp) (operand : Value) : Except Cause Value :=
  match op, operand with
  | .not, v         => .ok (.bool (!v.isTruthy))
  | .neg, .int n    => .ok (.int (-n))
  | .neg, .float x  => .ok (.float (-x))
  | .plus, .int n   => .ok (.int n)
  | .plus, .float x => .ok (.float x)
  | _, v            =>
      .error (.internalError ("unsupported operand for unary " ++ op.text ++ ": " ++ v.typeName))

/-- The left operand's value settles the outcome, and is the outcome. -/
def settles (op : LogicalOp) (left : Value) : Bool :=
  match op with
  | .or  => left.isTruthy
  | .and => !left.isTruthy

/-! ### Formats -/

/-- The template of a format with the values of the arguments filled in. -/
def formatted (format : Expr) (args : List Expr) : Eval String := do
  let v ← format.eval
  let template ← expectString v format.pos
  let values ← args.mapM Expr.eval
  match ← view fun m => Template.fill m.heap.text? template values with
  | some r => ofExcept format.pos r
  | none   => endless

/-- Reads a word of input into the place that `target` names. -/
def scanInto (p : Position) (s : Specifier) (target : Expr) : Eval Unit := do
  match ← make Machine.readWord with
  | none      => fail (.builtinCallFailure "scanf" "input stream is exhausted") p
  | some word =>
      match s.read word with
      | some v => do
          let here ← place target
          here.write v target.pos
      | none   =>
          fail (.builtinCallFailure "scanf"
            ("cannot read " ++ Text.quote (String.ofList word) ++ " as " ++ s.ty.text)) p

/-- Reads one word for each specifier of a template, from left to right. -/
def scan (p : Position) (template : String) (targets : List Expr) : Eval Unit :=
  let specifiers := Template.specifiers template
  if specifiers.length = targets.length then
    (specifiers.zip targets).forM fun x => scanInto p x.1 x.2
  else
    fail (.malformedFormat (toString specifiers.length ++ " specifiers but "
      ++ toString targets.length ++ " arguments")) p

/-- The method of the superclass of the class that declares the running one, for its receiver. -/
def superMethod (x : String) (p : Position) : Eval Value := do
  match ← lookup "super" p with
  | .cls c => do
      let this ← lookup "this" p
      let o ← expectObject this p
      match c.method? x with
      | some method => do
          let f ← make (·.bindMethod o method)
          pure (.function f)
      | none => fail (.undefinedProperty x) p
  | v => fail (.internalError ("`super` is bound to a " ++ v.typeName)) p

end Eval

/-- What an expression does, given the values of the expressions inside it. -/
def Expr.start : Expr → Eval Value
  | .literal _ l => pure (.ofLiteral l)
  | .name n x => lookup x n.pos
  | .group _ e => e.eval
  | .arrayNew n t e => do
      let size ← e.eval
      let size ← expectInt size n.pos
      newArray t size n.pos
  | .index n x ie => do
      let id ← lookupArray x n.pos
      let i ← ie.eval
      let i ← expectInt i n.pos
      element id i n.pos
  | .indexAssign n x ie e => do
      let id ← lookupArray x n.pos
      let i ← ie.eval
      let i ← expectInt i n.pos
      let v ← e.eval
      setElement id i v n.pos
      pure v
  | .assign n x e => do
      let v ← e.eval
      Eval.assign x v n.pos
      pure v
  | .compound n op x e => do
      let old ← lookup x n.pos
      let v ← e.eval
      let new ← ofExcept n.pos (Value.binary op old v)
      Eval.assign x new n.pos
      pure new
  | .binary n op l r => do
      let a ← l.eval
      let b ← r.eval
      ofExcept n.pos (Value.binary op a b)
  | .logical _ op l r => do
      let a ← l.eval
      if settles op a then pure a else r.eval
  | .unary n op e => do
      let v ← e.eval
      ofExcept n.pos (Eval.unary op v)
  | .step _ form target => Eval.step form target
  | .cast n target e => do
      let v ← e.eval
      ofExcept n.pos (v.castTo target)
  | .intToFloat _ e => do
      match ← e.eval with
      | .int k => pure (.float k.toFloat)
      | v      => pure v
  | .get n oe x => do
      let v ← oe.eval
      let o ← expectObject v n.pos
      property o x n.pos
  | .set n oe x e => do
      let v ← oe.eval
      let o ← expectObject v n.pos
      let v ← e.eval
      setField o x v
      pure v
  | .receiver n => lookup "this" n.pos
  | .superMethod n x => Eval.superMethod x n.pos
  | .call n callee args => do
      let f ← callee.eval
      let values ← args.mapM Expr.eval
      ask (.apply f values n.pos)
  | .printf _ format args => do
      let text ← formatted format args
      change (·.print text)
      pure .nil
  | .sprintf n x format args => do
      let text ← formatted format args
      Eval.assign x (.str text) n.pos
      pure .nil
  | .scanf n format targets => do
      let v ← format.eval
      let template ← expectString v n.pos
      scan n.pos template targets
      pure .nil

end Brace
