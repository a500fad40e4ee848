import Brace.Proofs.Scope.Owner

/-!
# Scope — what is refused, and why

An action looks before it writes. What it looks at is its own frame, or the frame that the name belongs
to, and this decides whether it is refused and for what cause (`Family.Action.Denied`). A refused action
has written nothing.

* `Family.act_eq_error_iff`: what is refused, and that nothing has changed then.
* `Family.Acts.without_refused`: refused actions can be left out.
-/

namespace Brace.Family

open Forest

variable {α : Type} {s : Forest α} {k : Handle} {a : Action α} {c : Cause} {x : String}

/-- Why an action is refused whose handle is on the frame. -/
inductive Action.Denied (s : Forest α) (i : FrameId) : Action α → Cause → Prop where
  | outermost (h : s.parent? i = none) : Denied s i .pop .scopeUnderflow
  | frozen {x : String} {v : α} (h : s.isFrozen i = true) :
      Denied s i (.define x v) (.assignToConstant x)
  /-- A placeholder would not be in the way. -/
  | defined {x : String} {v w : α} (thawed : s.isFrozen i = false)
      (hb : s.binding? i x = some (some w)) : Denied s i (.define x v) (.redefinition x)
  | declared {x : String} {b : Option α} (hb : s.binding? i x = some b) :
      Denied s i (.declare x) (.redefinition x)
  | unassignable {x : String} {v : α} (h : s.Lacks x i) :
      Denied s i (.assign x v) (.undefinedSymbol x)
  | constant {x : String} {v : α} {o : FrameId} (h : s.Owns x o i) (ice : s.isFrozen o = true) :
      Denied s i (.assign x v) (.assignToConstant x)
  | undefined {x : String} (h : s.Lacks x i) : Denied s i (.lookup x) (.undefinedSymbol x)
  | unfinished {x : String} {o : FrameId} (h : s.Sees x o i) (hb : s.binding? o x = some none) :
      Denied s i (.lookup x) (.selfReferentialInit x)

/-! ### What each action looks at -/

theorem pop_eq_error_iff : s.pop k = .error c ↔ s.parent? k.frame = none ∧ c = .scopeUnderflow := by
  rw [pop, parent?]
  cases s.outer k.frame with
  | nil => simp [eq_comm]
  | cons p is => simp

theorem definable_eq_error_iff : s.definable k x = .error c ↔
    (s.isFrozen k.frame = true ∧ c = .assignToConstant x) ∨
    (s.isFrozen k.frame = false ∧ (∃ w, s.binding? k.frame x = some (some w)) ∧
      c = .redefinition x) := by
  rw [definable]
  cases s.isFrozen k.frame with
  | true => simp [eq_comm]
  | false => rcases s.binding? k.frame x with _ | _ | w <;> simp [eq_comm]

theorem declarable_eq_error_iff : s.declarable k x = .error c ↔
    (∃ b, s.binding? k.frame x = some b) ∧ c = .redefinition x := by
  rw [declarable]
  cases s.binding? k.frame x <;> simp [eq_comm]

theorem assignable_eq_error_iff (linked : s.Linked) : s.assignable k x = .error c ↔
    (s.Lacks x k.frame ∧ c = .undefinedSymbol x) ∨
    ((∃ o, s.Owns x o k.frame ∧ s.isFrozen o = true) ∧ c = .assignToConstant x) := by
  constructor
  · intro e
    rcases lacks_or_owns linked k x with lacks | ⟨o, owns⟩
    · rw [(of_lacks linked lacks).2.1] at e
      cases e
      exact .inl ⟨lacks, rfl⟩
    · obtain ⟨seen, b, hb⟩ := owns
      rw [(of_sees linked seen hb).2.2] at e
      split at e <;> cases e
      exact .inr ⟨⟨o, ⟨seen, b, hb⟩, ‹_›⟩, rfl⟩
  · rintro (⟨lacks, rfl⟩ | ⟨⟨o, ⟨seen, b, hb⟩, ice⟩, rfl⟩)
    · exact (of_lacks linked lacks).2.1
    · rw [(of_sees linked seen hb).2.2, if_pos ice]

theorem lookup_eq_error_iff (linked : s.Linked) : s.lookup k x = .error c ↔
    (s.Lacks x k.frame ∧ c = .undefinedSymbol x) ∨
    ((∃ o, s.Sees x o k.frame ∧ s.binding? o x = some none) ∧ c = .selfReferentialInit x) := by
  constructor
  · intro e
    rcases lacks_or_owns linked k x with lacks | ⟨o, seen, b, hb⟩
    · rw [(of_lacks linked lacks).1] at e
      cases e
      exact .inl ⟨lacks, rfl⟩
    · rw [(of_sees linked seen hb).1] at e
      cases b <;> cases e
      exact .inr ⟨⟨o, seen, hb⟩, rfl⟩
  · rintro (⟨lacks, rfl⟩ | ⟨⟨o, seen, hb⟩, rfl⟩)
    · exact (of_lacks linked lacks).1
    · rw [(of_sees linked seen hb).1, meaning]

/-- An action is refused for the causes that its frames give. -/
theorem Action.refused_iff_denied (linked : s.Linked) :
    a.Refused s k c ↔ a.Denied s k.frame c := by
  constructor
  · intro h
    cases h with
    | pop e =>
        obtain ⟨top, rfl⟩ := pop_eq_error_iff.mp e
        exact .outermost top
    | define e =>
        rcases definable_eq_error_iff.mp e with ⟨ice, rfl⟩ | ⟨thawed, ⟨w, hb⟩, rfl⟩
        · exact .frozen ice
        · exact .defined thawed hb
    | declare e =>
        obtain ⟨⟨b, hb⟩, rfl⟩ := declarable_eq_error_iff.mp e
        exact .declared hb
    | assign e =>
        rcases (assignable_eq_error_iff linked).mp e with ⟨lacks, rfl⟩ | ⟨⟨o, owns, ice⟩, rfl⟩
        · exact .unassignable lacks
        · exact .constant owns ice
    | lookup e =>
        rcases (lookup_eq_error_iff linked).mp e with ⟨lacks, rfl⟩ | ⟨⟨o, seen, hb⟩, rfl⟩
        · exact .undefined lacks
        · exact .unfinished seen hb
  · intro h
    cases h with
    | outermost top => exact .pop (pop_eq_error_iff.mpr ⟨top, rfl⟩)
    | frozen ice => exact .define (definable_eq_error_iff.mpr (.inl ⟨ice, rfl⟩))
    | defined thawed hb => exact .define (definable_eq_error_iff.mpr (.inr ⟨thawed, ⟨_, hb⟩, rfl⟩))
    | declared hb => exact .declare (declarable_eq_error_iff.mpr ⟨⟨_, hb⟩, rfl⟩)
    | unassignable lacks => exact .assign ((assignable_eq_error_iff linked).mpr (.inl ⟨lacks, rfl⟩))
    | constant owns ice =>
        exact .assign ((assignable_eq_error_iff linked).mpr (.inr ⟨⟨_, owns, ice⟩, rfl⟩))
    | undefined lacks => exact .lookup ((lookup_eq_error_iff linked).mpr (.inl ⟨lacks, rfl⟩))
    | unfinished seen hb =>
        exact .lookup ((lookup_eq_error_iff linked).mpr (.inr ⟨⟨_, seen, hb⟩, rfl⟩))

/-! ### Refused actions -/

/-- **What is refused.**  An action fails for the causes that its frames give, and leaves everything as
it is. -/
theorem act_eq_error_iff {f f' : Family α} (sound : f.Sound) {i : Fin f.handles.size} :
    f.act i a = (.error c, f') ↔ a.Denied f.forest (f.handle i).frame c ∧ f' = f := by
  rw [← Action.refused_iff_denied sound.linked]
  constructor
  · intro e
    have st := act_step f i a
    rw [e] at st
    cases st with
    | refused h => exact ⟨h, rfl⟩
  · rintro ⟨h, rfl⟩
    exact act_of_refused h

theorem eq_of_act_error {f : Family α} {i : Fin f.handles.size} (e : (f.act i a).1 = .error c) :
    (f.act i a).2 = f := by
  have st := act_step f i a
  rw [e] at st
  generalize (f.act i a).2 = f' at st
  cases st
  rfl

/-- Refused actions can be left out. -/
theorem Acts.without_refused {i : Nat} {f f' : Family α} {done : Done α} (h : Acts i f done f') :
    Acts i f (done.filter (·.2.isOk)) f' := by
  induction h with
  | nothing => exact .nothing _
  | @more f f' done hi a t ih =>
      cases e : (f.act ⟨i, hi⟩ a).1 with
      | ok r =>
          rw [List.filter_cons_of_pos (by rfl), ← e]
          exact .more hi a ih
      | error c =>
          rw [List.filter_cons_of_neg (by simp [Except.isOk, Except.toBool])]
          rwa [eq_of_act_error e] at ih

end Brace.Family
