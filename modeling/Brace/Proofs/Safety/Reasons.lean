import Brace.Proofs.Safety.Fits

/-!
# Safety — reasons of internal errors

An internal error gives its reason as a text. That a loop signal has got out of a function is a
reason of its own: no operator and no cast gives it.
-/

namespace Brace

/-- A loop signal has got out of a function. -/
def Escaped (reason : String) : Prop :=
  ∃ f, reason = "loop signal escaped function " ++ Text.quote f

/-- A reason that does not start like one of a loop signal is none. -/
theorem not_escaped {reason : String} {c : Char} (h : reason.toList.head? = some c) (ne : c ≠ 'l') :
    ¬ Escaped reason := by
  rintro ⟨f, rfl⟩
  rw [String.toList_append, List.head?_append] at h
  cases h
  exact ne rfl

namespace Value

variable {v w : Value} {reason : String}

/-- That an operator does not go with its operands is no reason of a loop signal. -/
theorem unsupported_reason {op : BinaryOp} (e : unsupported op v w = .internalError reason) :
    ¬ Escaped reason := by
  cases e
  exact not_escaped (c := 'u') (by simp) (by decide)

/-- Nor is it that an operator is not arithmetic. -/
theorem notArithmetic_reason {op : BinaryOp} (e : notArithmetic op = .internalError reason) :
    ¬ Escaped reason := by
  cases e
  rintro ⟨f, e⟩
  have h := congrArg (·.toList.head?) e
  cases op <;> simp [BinaryOp.text] at h

/-- Arithmetic never fails for the reason of a loop signal. -/
theorem arithmetic_reason {op : BinaryOp} (e : arithmetic op v w = .error (.internalError reason)) :
    ¬ Escaped reason := by
  unfold arithmetic at e
  split at e
  · replace e := error_of_map e
    cases op <;> simp only [intArithmetic] at e
    all_goals first
      | exact notArithmetic_reason (Except.error.inj e)
      | (split at e <;> cases e)
      | cases e
  · split at e
    · cases e
    · exact unsupported_reason (Except.error.inj e)
  · split at e
    · replace e := error_of_map e
      cases op <;> simp only [floatArithmetic] at e
      all_goals first
        | exact notArithmetic_reason (Except.error.inj e)
        | (split at e <;> cases e)
        | cases e
    · exact unsupported_reason (Except.error.inj e)

/-- Nor does any other operator with two operands. -/
theorem binary_reason {op : BinaryOp} (e : binary op v w = .error (.internalError reason)) :
    ¬ Escaped reason := by
  cases op <;> simp only [binary] at e
  all_goals first
    | exact arithmetic_reason e
    | (split at e <;> first | (cases e; done) | exact unsupported_reason (Except.error.inj e))
    | cases e

/-- Nor does an operator with one operand. -/
theorem unary_reason {op : UnaryOp} (e : Eval.unary op v = .error (.internalError reason)) :
    ¬ Escaped reason := by
  cases op <;> cases v <;> cases e
  all_goals exact not_escaped (c := 'u') (by simp) (by decide)

/-- Nor does a step. -/
theorem stepped_reason {form : StepForm}
    (e : Eval.stepped form v = .error (.internalError reason)) : ¬ Escaped reason := by
  cases v <;> cases e
  all_goals exact not_escaped (c := 'c') (by simp) (by decide)

/-- Nor is it the reason of a loop signal that there is no such cast. -/
theorem noCast_reason {target : String} (e : noCast target v = .internalError reason) :
    ¬ Escaped reason := by
  cases e
  exact not_escaped (c := 'c') (by simp) (by decide)

/-- A cast never fails for the reason of a loop signal. -/
theorem castTo_reason {target : String} (e : v.castTo target = .error (.internalError reason)) :
    ¬ Escaped reason := by
  simp only [castTo] at e
  split at e
  · cases v <;> first
      | exact absurd (error_of_map e) readAs_fails
      | exact noCast_reason (Except.error.inj (error_of_map e))
      | cases e
  · cases v <;> first
      | exact absurd (error_of_map e) readAs_fails
      | exact noCast_reason (Except.error.inj (error_of_map e))
      | cases e
  · cases v <;> first
      | exact noCast_reason (Except.error.inj (error_of_map e))
      | cases e
  · split at e
    · cases e
    · exact noCast_reason (Except.error.inj e)
  · exact noCast_reason (Except.error.inj e)

end Value

end Brace
