/-!
# Operator — the operators and their spelling

The operators of expressions and their spelling. A binary operator is of exactly one of three
kinds: arithmetic, relational, or a test of equality.
-/

namespace Brace

inductive BinaryOp where
  | add | sub | mul | div | rem
  | eq | ne
  | lt | le | gt | ge
  deriving DecidableEq, Repr, Inhabited

namespace BinaryOp

def text : BinaryOp → String
  | .add => "+"
  | .sub => "-"
  | .mul => "*"
  | .div => "/"
  | .rem => "%"
  | .eq  => "=="
  | .ne  => "!="
  | .lt  => "<"
  | .le  => "<="
  | .gt  => ">"
  | .ge  => ">="

/-- Every binary operator: the arithmetic ones, the tests of equality, then the comparisons. -/
def all : List BinaryOp := [.add, .sub, .mul, .div, .rem, .eq, .ne, .lt, .le, .gt, .ge]

theorem mem_all (op : BinaryOp) : op ∈ all := by cases op <;> decide

/-- The operator with this spelling. -/
def ofText? (s : String) : Option BinaryOp := all.find? fun op => op.text == s

def isArithmetic : BinaryOp → Bool
  | .add | .sub | .mul | .div | .rem => true
  | _                                => false

def isRelational : BinaryOp → Bool
  | .lt | .le | .gt | .ge => true
  | _                     => false

def isEquality : BinaryOp → Bool
  | .eq | .ne => true
  | _         => false

end BinaryOp

/-- The operators that may leave their right operand alone. -/
inductive LogicalOp where
  | and | or
  deriving DecidableEq, Repr, Inhabited

namespace LogicalOp

def text : LogicalOp → String
  | .and => "&&"
  | .or  => "||"

def all : List LogicalOp := [.and, .or]

def ofText? (s : String) : Option LogicalOp := all.find? fun op => op.text == s

end LogicalOp

inductive UnaryOp where
  | neg | plus | not
  deriving DecidableEq, Repr, Inhabited

namespace UnaryOp

def text : UnaryOp → String
  | .neg  => "-"
  | .plus => "+"
  | .not  => "!"

def all : List UnaryOp := [.neg, .plus, .not]

def ofText? (s : String) : Option UnaryOp := all.find? fun op => op.text == s

end UnaryOp

/-- The four ways to step a place by one. -/
inductive StepForm where
  | preInc | preDec | postInc | postDec
  deriving DecidableEq, Repr, Inhabited

namespace StepForm

/-- The operator's spelling, the same before and after its operand. -/
def text : StepForm → String
  | .preInc | .postInc => "++"
  | .preDec | .postDec => "--"

/-- The amount that is added. -/
def delta : StepForm → Int
  | .preInc | .postInc => 1
  | .preDec | .postDec => -1

/-- The value of the expression is the one from after the step. -/
def yieldsNew : StepForm → Bool
  | .preInc | .preDec   => true
  | .postInc | .postDec => false

end StepForm

end Brace
