import Brace.Proofs.Safety.Refused

/-!
# Safety — internal errors

An internal error is one that checking should have ruled out. Where checking has noted no type with
`any` in it, only two are left, which are about values and not about types: a name for an array may
hold nil, and two floats may have no order, as one of them is not a number. This takes that a
superclass is a class where a method of it is used. Otherwise checking has noted the type `any`,
either on the method or on a call of it.

* `Program.supersClasses`: where no type has `any` in it, a superclass is a class.
* `run_excuses_failures`: what an internal error may be blamed on.
* `run_fails_internally`: it may be blamed on nil, and on a predefined name that has been taken.
-/

namespace Brace

variable {P : Plan} {Γ : Scene}

/-! ### Superclasses are classes -/

/-- Where these parts use a method of the superclass, it is a class. -/
def SupersIn (parts : List (Scene × Part)) : Prop :=
  ∀ Γ n x, (Γ, .expr (.superMethod n x)) ∈ parts → ∃ info, Γ.means "super" = some (.cls info)

namespace SupersIn

variable {ps qs : List (Scene × Part)}

/-- What is so in two lists of places is so in both together. -/
theorem append (h : SupersIn ps) (h' : SupersIn qs) : SupersIn (ps ++ qs) := fun Γ n x hm =>
  (List.mem_append.mp hm).elim (h Γ n x) (h' Γ n x)

theorem name (h : SupersIn ps) (Γ : Scene) (x : String) : SupersIn ((Γ, .name x) :: ps) := by
  intro Γ' n y hm
  rcases List.mem_cons.mp hm with e | hm
  · cases e
  · exact h Γ' n y hm

end SupersIn

section

variable (settled : P.program.Settled)

include settled

/-- Where an expression uses a superclass, checking has found that to be a class. -/
theorem Expr.Whole.supers {e : Expr} (h : e.Whole P.classes Γ) (hc : P.Covers (e.placed Γ)) :
    SupersIn (e.placed Γ) := by
  intro Γ' n x hm
  obtain ⟨a, ha, e'⟩ := List.mem_map.mp hm
  cases e'
  obtain ⟨s, hs, e'⟩ := List.mem_map.mp ha
  cases e'
  refine (h.tells n x hs).resolve_right ?_
  rintro ⟨s, hs, any⟩
  have inside : .expr s ∈ P.program.parts :=
    Program.mem_parts_of_placed (hc (Γ, .expr s) (List.mem_map_of_mem (List.mem_map_of_mem hs)))
  cases settled.annotated s .any inside any

/-- So it is in the first value of a variable. -/
theorem VarDecl.Sound.supers {v : VarDecl} (h : v.Sound P.classes Γ) (hc : P.Covers (v.placed Γ)) :
    SupersIn (v.placed Γ) := by
  rw [VarDecl.placed] at hc ⊢
  cases hi : v.init with
  | none =>
      refine .name (fun _ _ _ h => ?_) Γ v.name
      cases h
  | some e =>
      rw [hi] at hc
      exact .name ((h.2 e hi).1.supers settled hc.tail) Γ v.name

theorem VarDecl.SoundAll.supers : ∀ {vs : List VarDecl} {Γ : Scene}, VarDecl.SoundAll P.classes Γ vs →
    P.Covers (VarDecl.placedAll Γ vs) → SupersIn (VarDecl.placedAll Γ vs)
  | [], _, _, _ => nofun
  | v :: vs, Γ, h, hc => by
      rw [VarDecl.placedAll] at hc ⊢
      exact (VarDecl.Sound.supers settled h.1 hc.left).append (supers h.2 hc.right)

/-- So it is in an `init` clause. -/
theorem ForInit.Sound.supers {i : ForInit} (h : i.Sound P.classes Γ) (hc : P.Covers (i.placed Γ)) :
    SupersIn (i.placed Γ) := by
  cases i with
  | decl v => exact VarDecl.Sound.supers settled h hc
  | expr e => exact Expr.Whole.supers settled h hc

end

mutual

/-- So it is in a statement and in all those inside it. -/
theorem Stmt.Sound.supers (settled : P.program.Settled) : ∀ {s : Stmt} {Γ : Scene},
    s.Sound P.classes Γ → P.Covers (s.placed Γ) → SupersIn (s.placed Γ)
  | .block .., Γ, h, hc => by
      rw [Stmt.placed] at hc ⊢
      exact (VarDecl.SoundAll.supers settled h.1 hc.left).append
        (Stmt.SoundAll.supers settled h.2 hc.right)
  | .ifElse .., Γ, h, hc => by
      rw [Stmt.placed] at hc ⊢
      exact (h.1.supers settled hc.left).append
        ((Stmt.Sound.supers settled h.2.1 hc.right.left).append
          (Stmt.Sound.supers settled h.2.2 hc.right.right))
  | .whileLoop .., Γ, h, hc => by
      rw [Stmt.placed] at hc ⊢
      exact (h.1.supers settled hc.left).append (Stmt.Sound.supers settled h.2 hc.right)
  | .forLoop .., Γ, h, hc => by
      rw [Stmt.placed] at hc ⊢
      exact (ForInit.Sound.supers settled h.1 hc.left).append
        ((h.2.1.supers settled hc.right.left).append
          ((h.2.2.1.supers settled hc.right.right.left).append
            (Stmt.Sound.supers settled h.2.2.2 hc.right.right.right)))
  | .ret _ (some _), Γ, h, hc => by
      rw [Stmt.placed] at hc ⊢
      exact h.1.supers settled hc
  | .expr .., Γ, h, hc => by
      rw [Stmt.placed] at hc ⊢
      exact Expr.Whole.supers settled h hc
  | .ret _ none, _, _, _ | .breakLoop _, _, _, _ | .continueLoop _, _, _, _ | .empty _, _, _, _ => by
      rw [Stmt.placed]
      nofun

theorem Stmt.SoundAll.supers (settled : P.program.Settled) : ∀ {ss : List Stmt} {Γ : Scene},
    Stmt.SoundAll P.classes Γ ss → P.Covers (Stmt.placedAll Γ ss) →
      SupersIn (Stmt.placedAll Γ ss)
  | [], _, _, _ => by
      rw [Stmt.placedAll]
      nofun
  | _ :: _, _, h, hc => by
      rw [Stmt.placedAll] at hc ⊢
      exact (Stmt.Sound.supers settled h.1 hc.left).append (Stmt.SoundAll.supers settled h.2 hc.right)

end

section

variable (settled : P.program.Settled)

include settled

/-- So it is in the body of a function. -/
theorem FuncDecl.Sound.supers {f : FuncDecl} (h : f.Sound P.classes Γ) (hc : P.Covers (f.placed Γ)) :
    SupersIn (f.placed Γ) := by
  rw [FuncDecl.placed] at hc ⊢
  refine .append (fun Γ' n x hm => ?_) (.append (VarDecl.SoundAll.supers settled h.locals hc.right.left)
    (Stmt.SoundAll.supers settled h.body hc.right.right))
  obtain ⟨x, -, e⟩ := List.mem_map.mp hm
  cases e

/-- So it is in a declaration. -/
theorem Decl.Sound.supers {d : Decl} (h : d.Sound P.classes Γ) (hc : P.Covers (d.placed Γ)) :
    SupersIn (d.placed Γ) := by
  cases d with
  | var v => exact VarDecl.Sound.supers settled h hc
  | func f => exact .name (FuncDecl.Sound.supers settled h.2 hc.tail) Γ f.name
  | cls d =>
      refine .name (fun Γ' n x hm => ?_) Γ d.name
      obtain ⟨f, hf, hm⟩ := List.mem_flatMap.mp hm
      have covered := hc.tail.of_sub fun a ha => List.mem_flatMap.mpr ⟨f, hf, ha⟩
      exact FuncDecl.Sound.supers settled (h.methods f hf) covered Γ' n x hm

theorem Decl.SoundAll.supers : ∀ {ds : List Decl} {Γ : Scene}, Decl.SoundAll P.classes Γ ds →
    P.Covers (Decl.placedAll Γ ds) → SupersIn (Decl.placedAll Γ ds)
  | [], _, _, _ => nofun
  | d :: ds, Γ, h, hc => by
      rw [Decl.placedAll] at hc ⊢
      exact (Decl.Sound.supers settled h.1 hc.left).append (supers h.2 hc.right)

end

/-- Where no expression has a type with `any` in it, a superclass is a class. -/
theorem Program.supersClasses {p : Program} {checked : Checked} (h : p.check = .ok checked)
    (settled : checked.program.Settled) : checked.program.SupersClasses :=
  Decl.SoundAll.supers (P := p.plan checked) settled (sound_of_check h) fun _ ha => ha

/-! ### Failures -/

section

variable {p : Program} {checked : Checked}

/-- **Internal errors.**  Where no expression has a type with `any` in it, and no name that means
something predefined where it is used is taken by the program, an internal error comes of an expression
that the run evaluates: one that indexes a name, which holds nil in the place of an array, or a
comparison, the operands of which are two floats that have no order. This holds of how a run ends and of
whatever fails on the way. -/
theorem run_excuses_failures (h : p.check = .ok checked) (settled : checked.program.Settled)
    (settings : Settings) (stdin : String) {q : Progress Value}
    (hq : (checked.program.run (.start settings stdin)).Steps q) :
    (∀ e m, q = .finished (.error e) m → ∀ reason, e.cause = .internalError reason →
      Excused (checked.program.run (.start settings stdin)) reason) ∧
    ∀ j m resume, q = .waiting j m resume → ∀ e m', j.Answers m (.error e) m' →
      ∀ reason, e.cause = .internalError reason →
        Excused (checked.program.run (.start settings stdin)) reason := by
  have supers := Program.supersClasses h settled
  have left := (Program.ends_run h settings stdin).steps (sound_kept _) hq
  refine ⟨?_, ?_⟩
  · rintro e m rfl reason internal
    obtain ⟨W, -, allowed⟩ := left
    have refused := (allowed.internal reason internal).settled settled supers
    have refuses := Program.refuses_of_steps hq (internal ▸ refused)
    exact Program.excused_of_refuses h settled (internal ▸ refuses) refused
  · rintro j m resume rfl e m' answers reason internal
    obtain ⟨W, Γ, -, answered⟩ := left.asked
    obtain ⟨-, W', -, allowed⟩ := answered _ _ answers
    have refused := (allowed.internal reason internal).settled settled supers
    have asked := Progress.involves_iff.mpr ⟨resume, hq⟩
    have refuses := (Job.refuses_of_answers answers (internal ▸ refused)).within asked
    exact Program.excused_of_refuses h settled (internal ▸ refuses) refused

/-- `int main() { int a[] = nil; return a[0]; }` -/
def missing : Program := [.func ⟨.ofLine 1, .int, "main", [],
  [⟨.ofLine 1, .array .int, "a", some (.literal .blank .nil)⟩],
  [.ret (.ofLine 1) (some (.index .blank "a" (.literal .blank (.int 0))))]⟩]

/-- `int f() { return len("ab") + 1; } string len(string s) { return s; }`
`int main() { return f(); }` -/
def mistaking : Program := [.func ⟨.ofLine 1, .int, "f", [], [], [.ret (.ofLine 1)
    (some (.binary .blank .add (.call .blank (.name .blank "len") [.literal .blank (.str "ab")])
      (.literal .blank (.int 1))))]⟩,
  .func ⟨.ofLine 2, .str, "len", [⟨.str, "s"⟩], [], [.ret (.ofLine 2) (some (.name .blank "s"))]⟩,
  .func ⟨.ofLine 3, .int, "main", [], [],
    [.ret (.ofLine 3) (some (.call .blank (.name .blank "f") []))]⟩]

/-- The program is accepted and passes a test, and its run ends in an internal error. -/
def Program.failsInternally (p : Program) (depth : Nat) (test : Program → Bool) : Bool :=
  p.admits fun checked => test checked.program &&
    ((Program.run checked.program).run depth (.start .standard "")).any fun x => match x.1 with
      | .error ⟨.internalError _, _⟩ => true
      | _                            => false

/-- A program that is found to fail for an internal reason has been accepted and does so. -/
theorem Program.failing_of_failsInternally {p : Program} {depth : Nat} {test : Program → Bool}
    (h : p.failsInternally depth test = true) : ∃ checked, p.check = .ok checked ∧
      test checked.program = true ∧ ∃ e m reason,
        (checked.program.run (.start .standard "")).Steps (.finished (.error e) m) ∧
        e.cause = .internalError reason := by
  obtain ⟨checked, hc, h⟩ := of_admits h
  rw [Bool.and_eq_true, Option.any_eq_true] at h
  obtain ⟨test, ⟨r, m⟩, ends, h⟩ := h
  split at h
  · rename_i reason pos e
    cases e
    exact ⟨checked, hc, test, _, m, reason, Progress.steps_of_complete _ ends, rfl⟩
  · cases h

/-- The run fails as there is no array, and that is excused. -/
theorem run_excuses_failures_missing : ∃ checked, missing.check = .ok checked ∧
    checked.program.Settled ∧ ∃ e m reason,
      (checked.program.run (.start .standard "")).Steps (.finished (.error e) m) ∧
      e.cause = .internalError reason ∧
      Excused (checked.program.run (.start .standard "")) reason := by
  have fails : missing.failsInternally 10 Program.settled = true := by decide +kernel
  obtain ⟨checked, hc, settled, e, m, reason, ends, he⟩ := Program.failing_of_failsInternally fails
  have settled := Program.settled_of_eq settled
  have excused := (run_excuses_failures hc settled .standard "" ends).1 e m rfl reason he
  exact ⟨checked, hc, settled, e, m, reason, ends, he, excused⟩

/-- No expression has a type with `any` in it. -/
def Program.isAnyFree (p : Program) : Bool :=
  p.parts.all fun
    | .expr e => e.ty?.all Ty.isAnyFree
    | .name _ => true

/-- A test of all expressions tells whether the types of all are free of `any`. -/
theorem Program.anyFree_of_isAnyFree {p : Program} (h : p.isAnyFree = true) (e : Expr) (t : Ty)
    (he : .expr e ∈ p.parts) (ht : e.ty? = some t) : t.isAnyFree = true := by
  have known : e.ty?.all Ty.isAnyFree = true := List.all_eq_true.mp h _ he
  rw [ht] at known
  exact known

/-- Without `any` there are internal errors all the same: nil is taken for an array, and a function of
the program for the predefined one whose name it has taken. -/
theorem run_fails_internally :
    (∃ checked, missing.check = .ok checked ∧
      (∀ e t, .expr e ∈ checked.program.parts → e.ty? = some t → t.isAnyFree = true) ∧
      ∃ e m reason, (checked.program.run (.start .standard "")).Steps (.finished (.error e) m) ∧
        e.cause = .internalError reason) ∧
    ∃ checked, mistaking.check = .ok checked ∧
      (∀ e t, .expr e ∈ checked.program.parts → e.ty? = some t → t.isAnyFree = true) ∧
      ∃ e m reason, (checked.program.run (.start .standard "")).Steps (.finished (.error e) m) ∧
        e.cause = .internalError reason := by
  have missed : missing.failsInternally 10 Program.isAnyFree = true := by decide +kernel
  have mistaken : mistaking.failsInternally 12 Program.isAnyFree = true := by decide +kernel
  constructor
  · obtain ⟨checked, hc, free, rest⟩ := Program.failing_of_failsInternally missed
    exact ⟨checked, hc, Program.anyFree_of_isAnyFree free, rest⟩
  · obtain ⟨checked, hc, free, rest⟩ := Program.failing_of_failsInternally mistaken
    exact ⟨checked, hc, Program.anyFree_of_isAnyFree free, rest⟩

end

end Brace
