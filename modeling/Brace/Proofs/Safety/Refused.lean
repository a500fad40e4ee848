import Brace.Proofs.Run.Operands
import Brace.Proofs.Safety.Start

/-!
# Safety — operands that are refused

Where types are known, an operator gets operands of the types that checking has noted, and it takes
them, and a name that is indexed holds what it may hold. There are two exceptions: the values of both
operands of a comparison may be floats that have no order, and a name for an array may hold nil.

* `Excused`: what an internal error may be blamed on.
* `Program.excused_of_refuses`: an expression that refuses its operands is a comparison of such floats,
  or it indexes nil.
-/

namespace Brace

open Eval Progress

/-- What a run may blame an internal error on although types are known: it evaluates an expression that
indexes a name, and that fails where the name holds nil, or it evaluates a comparison of two floats that
have no order. -/
inductive Excused (run : Progress Value) : String → Prop where
  | noArray {a : Expr} {m m' : Machine} {x : String} {p : Position}
      (comes : run.Involves (.expr a) m) (indexes : x ∈ a.indexed)
      (fails : (Job.expr a).Answers m
        (.error ⟨.internalError (Text.quote x ++ " holds a nil, not an array"), p⟩) m')
      (holds : m'.lookup x = .ok .nil) :
      Excused run (Text.quote x ++ " holds a nil, not an array")
  | noOrder {n : Note} {op : BinaryOp} {l r : Expr} {m m₁ m₂ : Machine} {x y : Float}
      (comes : run.Involves (.expr (.binary n op l r)) m) (relational : op.isRelational = true)
      (left : (Job.expr l).Answers m (.ok (.float x)) m₁)
      (right : (Job.expr r).Answers m₁ (.ok (.float y)) m₂) (unordered : Value.Unordered x y) :
      Excused run ("unsupported operands for " ++ op.text ++ ": float and float")

/-- What a comparison gives may not be stored in place of an operand. -/
theorem BinaryOp.Gives.not_accepted {op : BinaryOp} {a b t : Ty} {Γ : Scene} (g : op.Gives a b t)
    (ha : a.isAnyFree = true) (hb : b.isAnyFree = true) (relational : op.isRelational = true) :
    ¬ Γ.Accepts a t := by
  intro accepts
  cases g with
  | unknownTest e => rcases e with rfl | rfl <;> contradiction
  | unknownLeft => cases ha
  | unknownRight => cases hb
  | join e =>
      cases e
      cases relational
  | arithmetic e => cases op <;> first | cases e; done | cases relational
  | equality e => cases op <;> first | cases e; done | cases relational
  | compare _ numeric =>
      cases accepts with
      | fits e =>
          cases Ty.eq_of_fits ha rfl e
          cases numeric

namespace Program

variable {p : Program} {checked : Checked} {settings : Settings} {stdin : String}
  {m m' : Machine} {e : Error} {reason : String}

/-! ### What is known where an expression is evaluated -/

variable (h : p.check = .ok checked) (settled : checked.program.Settled)

include h

/-- Where a run evaluates an expression, it is at a place of that expression. -/
theorem ready_of_involves {a : Expr}
    (comes : (checked.program.run (.start settings stdin)).Involves (.expr a) m) :
    ∃ W Γ, Ready (p.plan checked) Γ ⟨W, m⟩ ∧ a.Sound (p.plan checked).classes Γ ∧
      (p.plan checked).Covers (a.placed Γ) := by
  obtain ⟨resume, comes⟩ := involves_iff.mp comes
  obtain ⟨W, Γ, asks, -⟩ := ((meets_run h settings stdin).steps (sound_kept _) comes).asked
  exact ⟨W, Γ, asks⟩

/-- Where an expression has failed, the run is at the place of that expression still. -/
theorem ready_of_fails {a : Expr}
    (comes : (checked.program.run (.start settings stdin)).Involves (.expr a) m)
    (fails : (Job.expr a).Answers m (.error e) m') :
    ∃ W Γ, Ready (p.plan checked) Γ ⟨W, m'⟩ ∧ a.Sound (p.plan checked).classes Γ ∧
      (p.plan checked).Covers (a.placed Γ) := by
  obtain ⟨resume, comes⟩ := involves_iff.mp comes
  obtain ⟨W, Γ, ⟨ready, sound, covers⟩, answered⟩ :=
    ((meets_run h settings stdin).steps (sound_kept _) comes).asked
  obtain ⟨-, W', reaches, -⟩ := answered _ _ fails
  exact ⟨W', Γ, ready.later reaches.later reaches.ok, sound, covers⟩

include settled

/-- The value of an expression is of the type that checking has noted on it. -/
theorem fits_of_answers {a : Expr} {v : Value}
    (comes : (checked.program.run (.start settings stdin)).Involves (.expr a) m)
    (answers : (Job.expr a).Answers m (.ok v) m') {t : Ty} (ht : a.ty? = some t) :
    t.isAnyFree = true ∧ v.Fits checked.program.Typed m'.heap t := by
  obtain ⟨resume, comes⟩ := involves_iff.mp comes
  obtain ⟨W, Γ, ⟨-, -, covers⟩, answered⟩ :=
    ((meets_run h settings stdin).steps (sound_kept _) comes).asked
  obtain ⟨-, W', -, yields⟩ := answered _ _ answers
  exact ⟨covers.anyFree ht settled, Expr.Yields.fits yields ht settled covers⟩

/-! ### Operators -/

/-- An operator with one operand takes it. -/
theorem not_refused_unary {n : Note} {op : UnaryOp} {a : Expr}
    (comes : (checked.program.run (.start settings stdin)).Involves (.expr (.unary n op a)) m)
    (failed : ((Expr.unary n op a).start m).Passes (.finished (.error e) m')) : False := by
  obtain ⟨W, Γ, -, sound, -⟩ := ready_of_involves h comes
  obtain ⟨t, ht, rule⟩ := sound.rule
  rcases passes_of_bind failed with first | ⟨v, m₁, first, rest⟩
  · obtain ⟨_, e, -⟩ := passes_of_ask first
    cases e
  obtain ⟨_, ⟨⟩, answers⟩ := passes_of_ask first
  have refused := passes_of_ofExcept rest
  have asked := comes.within (.here (.expr a) m _)
  obtain ⟨free, fits⟩ := fits_of_answers h settled asked answers ht
  rcases rule with ⟨rfl, -⟩ | ⟨-, numeric, -⟩
  · cases refused
  · exact fits.unary_fails numeric free refused

/-- A binary operator that refuses its operands compares two floats that have no order. -/
theorem excused_of_binary {n : Note} {op : BinaryOp} {l r : Expr}
    (comes : (checked.program.run (.start settings stdin)).Involves (.expr (.binary n op l r)) m)
    (failed : ((Expr.binary n op l r).start m).Passes (.finished (.error e) m'))
    (internal : e.cause = .internalError reason) :
    Excused (checked.program.run (.start settings stdin)) reason := by
  obtain ⟨W, Γ, -, sound, -⟩ := ready_of_involves h comes
  obtain ⟨t, -, a, ha, b, hb, gives⟩ := sound.rule
  rcases passes_of_bind failed with first | ⟨v, m₁, first, rest⟩
  · obtain ⟨_, e, -⟩ := passes_of_ask first
    cases e
  obtain ⟨_, ⟨⟩, left⟩ := passes_of_ask first
  rcases passes_of_bind rest with second | ⟨w, m₂, second, rest⟩
  · obtain ⟨_, e, -⟩ := passes_of_ask second
    cases e
  obtain ⟨_, ⟨⟩, right⟩ := passes_of_ask second
  have refused := passes_of_ofExcept rest
  rw [internal] at refused
  have askedLeft := comes.within (.here (.expr l) m _)
  have askedRight := comes.within (.later left (.here (.expr r) m₁ _))
  obtain ⟨freeLeft, fitsLeft⟩ := fits_of_answers h settled askedLeft left ha
  obtain ⟨freeRight, fitsRight⟩ := fits_of_answers h settled askedRight right hb
  have restored : m₁.Restored m₂ := restoring_kept.answers (g := ()) trivial right
  obtain ⟨relational, x, y, rfl, rfl, unordered, e⟩ :=
    (fitsLeft.grown restored.heap).binary_fails gives freeLeft freeRight fitsRight refused
  rw [Cause.internalError.inj e, String.append_assoc, String.append_assoc, String.append_assoc]
  exact .noOrder comes relational left right unordered

/-- A compound assignment takes its operands: no comparison gives what a variable can be assigned that has
been compared. -/
theorem not_refused_compound {n : Note} {op : BinaryOp} {x : String} {a : Expr}
    (comes : (checked.program.run (.start settings stdin)).Involves (.expr (.compound n op x a)) m)
    (failed : ((Expr.compound n op x a).start m).Passes (.finished (.error e) m'))
    (internal : e.cause = .internalError reason) : e.cause.isOfOperands = false := by
  have sparing := Eval.Takes.plain.sparing
  obtain ⟨W, Γ, ready, sound, covers⟩ := ready_of_involves h comes
  obtain ⟨t, means, ht, b, hb, u, gives, accepts⟩ := sound.rule
  rcases passes_of_bind failed with looking | ⟨old, m₀, looked, rest⟩
  · exact sparing.lookup x n.pos _ _ _ looking
  obtain ⟨rfl, found⟩ := passes_of_lookup looked
  rcases passes_of_bind rest with first | ⟨v, m₁, first, rest⟩
  · obtain ⟨_, e, -⟩ := passes_of_ask first
    cases e
  obtain ⟨_, ⟨⟩, answers⟩ := passes_of_ask first
  rcases passes_of_bind rest with operating | ⟨new, m₂, -, rest⟩
  · exfalso
    have refused := passes_of_ofExcept operating
    rw [internal] at refused
    have freeOld := covers.anyFree ht settled
    have fitsOld : old.Fits checked.program.Typed m₀.heap t := by
      obtain ⟨-, met, stands, takes⟩ := ready.holds means found
      cases stands.eq rfl
      exact takes settled freeOld
    have asked : (checked.program.run (.start settings stdin)).Involves (.expr a) m₀ := by
      refine comes.within (?_ : ((Expr.compound n op x a).start m₀).AsksFor (.expr a) m₀)
      simp only [Expr.start, bind_apply, Eval.lookup, consult, found]
      exact .here ..
    obtain ⟨free, fits⟩ := fits_of_answers h settled asked answers hb
    have restored : m₀.Restored m₁ := restoring_kept.answers (g := ()) trivial answers
    have relational := ((fitsOld.grown restored.heap).binary_fails gives freeOld free fits refused).1
    exact gives.not_accepted freeOld free relational accepts
  · rcases passes_of_bind rest with assigning | ⟨_, m₃, -, rest⟩
    · exact sparing.assign x new n.pos _ _ _ assigning
    · cases rest

/-! ### Names that are indexed -/

omit h in
/-- Checking has found an array under each name that an expression indexes. -/
theorem elements_of_indexed {a : Expr} {Γ : Scene} (sound : a.Sound (p.plan checked).classes Γ)
    (covers : (p.plan checked).Covers (a.placed Γ)) {x : String} (indexed : x ∈ a.indexed) :
    ∃ known t, Γ.means x = some known ∧ known.Elements t ∧ t.isAnyFree = true ∧
      (known.isFixed = true → ¬ checked.program.Takes x) := by
  -- A target is an expression of its own.
  have element {c : Expr} (sound : c.Sound (p.plan checked).classes Γ)
      (covers : (p.plan checked).Covers (c.placed Γ)) (array : c.arrayOf? = some x) :
      ∃ known t, Γ.means x = some known ∧ known.Elements t ∧ t.isAnyFree = true ∧
        (known.isFixed = true → ¬ checked.program.Takes x) := by
    cases c with
    | index n y i =>
        cases array
        obtain ⟨known, t, means, elements, ht, -⟩ := sound.rule
        exact ⟨known, t, means, elements, covers.anyFree ht settled,
          covers.untaken (List.mem_singleton_self x) means settled⟩
    | _ => cases array
  cases a with
  | indexAssign n y i b =>
      cases List.mem_singleton.mp indexed
      obtain ⟨known, t, means, elements, ht, -⟩ := sound.rule
      exact ⟨known, t, means, elements, covers.anyFree ht settled,
        covers.untaken (List.mem_singleton_self x) means settled⟩
  | step n form target =>
      have child : target ∈ (Expr.step n form target).children := List.mem_singleton_self target
      exact element (sound.child child) (covers.child child) (Option.mem_toList.mp indexed)
  | scanf n format targets =>
      obtain ⟨c, hc, array⟩ := List.mem_filterMap.mp indexed
      have child : c ∈ (Expr.scanf n format targets).children := List.mem_cons_of_mem format hc
      exact element (sound.child child) (covers.child child) array
  | index n y i => exact element sound covers (Option.mem_toList.mp indexed)
  | _ => cases indexed

/-- An expression that indexes what is no array indexes nil. -/
theorem excused_of_indexes {a : Expr} (indexes : a.indexes = true)
    (comes : (checked.program.run (.start settings stdin)).Involves (.expr a) m)
    (failed : (a.start m).Passes (.finished (.error e) m'))
    (internal : e.cause = .internalError reason) (operands : e.cause.isOfOperands = true) :
    Excused (checked.program.run (.start settings stdin)) reason := by
  obtain ⟨x, indexed, v, found, none, cause⟩ := Expr.misses_of_passes indexes failed operands
  have fails : (Job.expr a).Answers m (.error e) m' := (Job.answers_iff_steps ..).mpr failed.steps
  obtain ⟨W, Γ, ready, sound, covers⟩ := ready_of_fails h comes fails
  obtain ⟨known, t, means, elements, free, untaken⟩ := elements_of_indexed settled sound covers indexed
  obtain ⟨-, met, stands, takes⟩ := ready.holds means found
  have nil : v = .nil := by
    cases elements with
    | array array =>
        have fits := stands.suits (fun _ => untaken) takes settled
        rw [array] at fits
        cases fits free with
        | array => exact absurd rfl (none _)
        | noArray => rfl
    | unknown => cases free
  have text : Text.quote x ++ " holds a " ++ v.typeName ++ ", not an array" =
      Text.quote x ++ " holds a nil, not an array" := by
    rw [nil, String.append_assoc, String.append_assoc]
    rfl
  rw [text] at cause
  obtain ⟨c, q⟩ := e
  dsimp only at cause internal
  rw [cause] at fails internal
  rw [← Cause.internalError.inj internal]
  exact .noArray comes indexed fails (nil ▸ found)

/-! ### All that may refuse operands -/

/-- An expression that refuses its operands is a comparison of two floats that have no order, or it
indexes nil. -/
theorem excused_of_refuses
    (refuses : (checked.program.run (.start settings stdin)).Refuses (.internalError reason))
    (operands : (Cause.internalError reason).isOfOperands = true) :
    Excused (checked.program.run (.start settings stdin)) reason := by
  obtain ⟨a, m, e, m', operates, comes, failed, cause⟩ := refuses
  by_cases indexes : a.indexes = true
  · exact excused_of_indexes h settled indexes comes failed cause (cause ▸ operands)
  cases a with
  | binary n op l r => exact excused_of_binary h settled comes failed cause
  | unary n op a => exact (not_refused_unary h settled comes failed).elim
  | compound n op x a =>
      have taken := not_refused_compound h settled comes failed cause
      rw [cause, operands] at taken
      cases taken
  | _ => exact absurd operates indexes

end Program

end Brace
