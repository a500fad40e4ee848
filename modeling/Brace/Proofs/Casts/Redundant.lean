import Brace.Proofs.Casts.Accepted
import Brace.Proofs.Casts.Runs
import Brace.Proofs.Safety.Types

/-!
# Casts — redundant casts can be left out

Checking warns of a cast to the type that the operand has anyway. Such a cast can be left out of a
program: the program is accepted without it, and its runs come to the same ends, as long as the operand
gives a value of the type that checking has found for it. Where a value may be of any type, that is not
certain, and then the cast is not in vain.

* `Expr.cast_warns`: where checking warns of a cast.
* `Program.check_omits_casts`: a program and the program without redundant casts.
-/

namespace Brace

open Check

variable {α : Type}

/-- A cast is reported as redundant where it gives the type that its operand has. -/
theorem Check.castTy_warns {target : String} {source : Ty} {p : Position} {c : Checker}
    (clean : (castTy target source p c).2.errors = c.errors) :
    (castTy target source p c).2.warnings = if (castTy target source p c).1 = source
      then c.warnings.push ⟨.redundantCast source.text, p⟩ else c.warnings := by
  unfold castTy at clean ⊢
  cases named : (Ty.ofName? target).filter Ty.isPrimitive with
  | none =>
      rw [named] at clean
      exact absurd clean (Adds.not_clean _ p c)
  | some t =>
      simp only [named] at clean ⊢
      by_cases other : (!source.isPrimitive && !source.isAny) = true
      · rw [if_pos other] at clean
        exact absurd clean (Adds.not_clean _ p c)
      · rw [if_neg other]
        by_cases same : source = t
        · rw [if_pos (beq_iff_eq.mpr same)]
          exact (if_pos same.symm).symm
        · rw [if_neg (mt beq_iff_eq.mp same)]
          exact (if_neg (Ne.symm same)).symm

/-- Checking warns of a cast where it notes on it the type of its operand, and nowhere else. -/
theorem Expr.cast_warns {n : Note} {target : String} {e : Expr} {c : Checker}
    (clean : ((cast n target e).check c).2.errors = c.errors) :
    ∃ n', ((cast n target e).check c).1.2 = .cast n' target (e.check c).1.2 ∧
      ((cast n target e).check c).2.warnings = if n'.ty? = (e.check c).1.2.ty?
        then (e.check c).2.warnings.push ⟨.redundantCast (e.check c).1.1.text, n.pos⟩
        else (e.check c).2.warnings := by
  have run : (cast n target e).check c = (e.check >>= fun r => castTy target r.1 n.pos >>= fun t =>
    pure (yield t (.cast n target r.2))) c := by rw [check]
  have later : c.Later (e.check c).2 := (e.check_twins.left) c
  have settled := (castTy_leads target (e.check c).1.1 n.pos : Leads True .start _ _ _).later
  rw [run] at clean ⊢
  have cleanly := (later.clean (settled _) clean).2
  refine ⟨{ n with ty? := some (castTy target (e.check c).1.1 n.pos (e.check c).2).1 }, rfl, ?_⟩
  rw [check_noted e c]
  simp only [Option.some.injEq]
  exact castTy_warns cleanly

/-! ### Values that a cast gives back -/

/-- A value of the type that is cast to is given back. -/
theorem Value.castTo_of_inhabits {h : Heap} {target : String} {t : Ty} {v : Value}
    (ht : Ty.ofName? target = some t) (hp : t.isPrimitive = true) (hv : v.Inhabits h t) :
    v.castTo target = .ok v := by
  cases t <;> first | cases hp; done | skip
  all_goals
    obtain ⟨a, rfl⟩ := hv
    simp only [castTo, ht]
    rfl

/-- What fits a primitive type is of that type through and through. -/
theorem Value.Fits.inhabits {full : Prop} {h : Heap} {t : Ty} {v : Value} (hv : v.Fits full h t)
    (hp : t.isPrimitive = true) : v.Inhabits h t := by
  cases hv <;> first | exact ⟨_, rfl⟩ | cases hp

theorem Value.inhabits_of_recode {σ : FuncDecl → FuncDecl} {h h' : Heap} {t : Ty} {v : Value}
    (hp : t.isPrimitive = true) (hv : (v.recode σ).Inhabits h t) : v.Inhabits h' t := by
  cases t <;> first | cases hp; done | skip
  all_goals
    obtain ⟨a, ha⟩ := hv
    cases v <;> first | exact ⟨_, rfl⟩ | cases ha

namespace Program

/-- Wherever the run comes to a marked cast, what its operand gives is of the type that is cast to. -/
def Meets (q : Program) (m : Machine) : Prop :=
  ∀ n target e m₁ resume, (run q m).Steps (.waiting (.expr (.cast n target e)) m₁ resume) →
    n.ty? = none → ∀ v m₂, (Job.expr e).Answers m₁ (.ok v) m₂ →
      ∃ t, Ty.ofName? target = some t ∧ t.isPrimitive = true ∧ v.Inhabits m₂.heap t

theorem restoring_keeps : Edit.restoring.Keeps := fun _ _ => rfl

section Settled

variable {p q : Program} {checked : Checked} (settings : Settings)
  (stdin : String) {n : Note} {target : String} {e : Expr} {m₁ m₂ : Machine}
  {resume : Except Error Value → Machine → Progress Value} {v : Value}

/-- Where types are known, the operand of a redundant cast gives a value of the type cast to. -/
theorem inhabits_of_redundant (hc : p.check = .ok checked) (settled : checked.program.Settled)
    (hs : (run checked.program (.start settings stdin)).Steps
      (.waiting (.expr (.cast n target e)) m₁ resume))
    (redundant : ∀ t, n.ty? = some t → e.ty? = some t) (hv : (Job.expr e).Answers m₁ (.ok v) m₂) :
    ∃ t, Ty.ofName? target = some t ∧ t.isPrimitive = true ∧ v.Inhabits m₂.heap t := by
  have meets := meets_run hc settings stdin
  obtain ⟨W, Γ, ⟨-, sound, -⟩, -⟩ := (meets.steps (sound_kept _) hs).asked
  obtain ⟨t, ht, hp, noted, -⟩ := sound.rule
  obtain ⟨W, Γ, -, answered⟩ := (meets.steps (sound_kept _) hs.begin).asked
  obtain ⟨-, W', -, yields⟩ := answered _ _ hv
  obtain ⟨t', ht', fits⟩ := Expr.Yields.typed yields settled
  cases (redundant t noted).symm.trans ht'
  have known : t.isAnyFree = true := by cases t <;> first | rfl | cases hp
  exact ⟨t, ht, hp, (fits known).inhabits hp⟩

theorem waits_congr {run : Progress α} {j j' : Job} (e : j = j') {m : Machine}
    (h : ∃ resume, run.Steps (.waiting j m resume)) : ∃ resume, run.Steps (.waiting j' m resume) :=
  e ▸ h

/-- Where the run of a marked program waits for a marked cast, the run of the program waits for it with
types noted on it. -/
theorem waits_of_marked (hs : (run q (.start settings stdin)).Steps
      (.waiting (.expr (.cast n target e)) m₁ resume)) (marked : n.ty? = none) :
    ∃ n' resume', (run q.restored (.start settings stdin)).Steps
        (.waiting (.expr (.cast n' target (e.edit .restoring))) (m₁.edit .restoring) resume') ∧
      ∀ t, n'.ty? = some t → (e.edit .restoring).ty? = some t := by
  have start : (Machine.start settings stdin).edit .restoring = .start settings stdin :=
    Machine.recode_start ..
  have side := edits_run (ρ := .restoring) q (.start settings stdin)
  rw [start] at side
  obtain ⟨_, hs', side⟩ := side.steps restoring_keeps hs
  cases side with
  | waiting formed =>
      cases formed with
      | true => exact ⟨n, _, hs', fun t ht => by cases marked.symm.trans ht⟩
      | false =>
          have form := (Expr.editAs_marked target e (Option.isNone_iff_eq_none.mpr marked)).1
          obtain ⟨resume', hs'⟩ := waits_congr (congrArg Job.expr form) ⟨_, hs'⟩
          exact ⟨_, resume', hs', fun t ht => ht⟩

/-- Where types are known, that is so in any case. -/
theorem meets_of_settled (hc : p.check = .ok checked) (marked : q.restored = checked.program)
    (settled : checked.program.Settled) : q.Meets (.start settings stdin) := by
  intro n target e m₁ resume hs none v m₂ ⟨depth, hv⟩
  obtain ⟨n', resume', hs', redundant⟩ := waits_of_marked settings stdin hs none
  have operand := forwards (Progress.spares_of_keeps restoring_keeps _) depth false (.expr e) m₁ _ (.ok v) m₂
    hs.begin hv
  rw [marked] at hs'
  obtain ⟨t, ht, hp, fits⟩ := inhabits_of_redundant settings stdin hc settled hs' redundant operand
  exact ⟨t, ht, hp, Value.inhabits_of_recode hp fits⟩

end Settled

theorem Meets.spares {q : Program} {m : Machine} (h : q.Meets m) : (run q m).Spares .omitting := by
  intro n target e m₁ resume hs gone v m₂ hv
  have marked : n.ty? = none := by
    by_contra kept
    have kept : ¬ n.ty?.isNone = true := fun none => kept (Option.isNone_iff_eq_none.mp none)
    exact absurd ((if_neg kept).symm.trans gone) nofun
  obtain ⟨t, ht, hp, hv⟩ := h n target e m₁ resume hs marked v m₂ hv
  exact Value.castTo_of_inhabits ht hp hv

/-! ### What runs come to -/

end Program

/-- The function without its code. -/
def FuncDecl.outline (f : FuncDecl) : FuncDecl := { f with locals := [], body := [] }

/-- The value apart from the code of functions in it. -/
def Value.outline (v : Value) : Value := v.recode FuncDecl.outline

/-- The machine apart from the code of functions in it. -/
def Machine.outline (m : Machine) : Machine := m.recode FuncDecl.outline

theorem FuncDecl.outline_edit (ρ : Edit) : outline ∘ FuncDecl.edit ρ = outline := rfl

theorem Value.outline_edit (ρ : Edit) (v : Value) : (v.edit ρ).outline = v.outline :=
  (v.recode_recode _ _).trans (by rw [FuncDecl.outline_edit]; rfl)

theorem Machine.outline_edit (ρ : Edit) (m : Machine) : (m.edit ρ).outline = m.outline :=
  (m.recode_recode _ _).trans (by rw [FuncDecl.outline_edit]; rfl)

namespace Program

/-- The run comes to this result in this machine, apart from the code of functions. -/
def ComesTo (p : Program) (m : Machine) (r : Except Error Value) (m' : Machine) : Prop :=
  ∃ r₁ m₁, (run p m).Steps (.finished r₁ m₁) ∧ r₁.map Value.outline = r ∧ m₁.outline = m'

variable {q : Program} {settings : Settings} {stdin : String}

theorem comesTo_edit {ρ : Edit} (spares : (run q (.start settings stdin)).Spares ρ)
    (r : Except Error Value) (m : Machine) :
    (q.edit ρ).ComesTo (.start settings stdin) r m ↔ q.ComesTo (.start settings stdin) r m := by
  have ends := (edits_run (ρ := ρ) q).ends spares
  rw [show (Machine.start settings stdin).edit ρ = .start settings stdin from
    Machine.recode_start ..] at ends
  have outline (r₁ : Except Error Value) :
      (r₁.map (Value.edit ρ)).map Value.outline = r₁.map Value.outline := by
    cases r₁ with
    | ok v => exact congrArg Except.ok (v.outline_edit ρ)
    | error e => rfl
  constructor
  · rintro ⟨r₁, m₁, hs, rfl, rfl⟩
    obtain ⟨r₂, m₂, hs', rfl, rfl⟩ := (ends r₁ m₁).mp hs
    exact ⟨r₂, m₂, hs', (outline r₂).symm, (m₂.outline_edit ρ).symm⟩
  · rintro ⟨r₂, m₂, hs, rfl, rfl⟩
    exact ⟨_, _, (ends _ _).mpr ⟨r₂, m₂, hs, rfl, rfl⟩, outline r₂, m₂.outline_edit ρ⟩

/-- **Redundant casts can be left out.**  Take an accepted program, and mark any casts in it on which
checking notes the type of their operand. The program without the marked casts is accepted too. Its runs
come to the same values or errors, with the same output and the same input left, as those of the
program, wherever the operands of the marked casts give values of the types that are cast to. Where
types are known, they do so in every run. -/
theorem check_omits_casts {p p' : Program} {checked : Checked} (hc : p.check = .ok checked)
    (redundant : q.restored = checked.program) (omitted : p'.bare = q.omitted.bare) :
    ∃ warnings, p'.check = .ok ⟨q.omitted, warnings⟩ ∧ ∀ settings stdin,
      checked.program.Settled ∨ q.Meets (.start settings stdin) → ∀ r m,
        q.omitted.ComesTo (.start settings stdin) r m ↔
          checked.program.ComesTo (.start settings stdin) r m := by
  have bare : q.bare = p.bare := by
    rw [← bare_of_check hc, ← redundant]
    exact (q.bare_edit restoring_keeps).symm
  obtain ⟨warnings, accepted⟩ := check_omitted (check_of_bare bare hc) redundant.symm
  refine ⟨warnings, check_of_bare omitted accepted, fun settings stdin known r m => ?_⟩
  have meets : q.Meets (.start settings stdin) :=
    known.elim (fun settled => meets_of_settled settings stdin hc redundant settled) id
  have left := comesTo_edit meets.spares r m
  have right := comesTo_edit (Progress.spares_of_keeps restoring_keeps
    (run q (.start settings stdin))) r m
  rw [← redundant]
  exact left.trans right.symm

/-- `int main() { return cast<int>(7 / 2); }`, with one note on all expressions but the cast. -/
def halving (noted mark : Option Ty) : Program :=
  [.func ⟨.ofLine 1, .int, "main", [], [],
    [.ret (.ofLine 1) (some (.cast ⟨.ofLine 1, mark⟩ "int"
      (.binary ⟨.ofLine 1, noted⟩ .div (.literal ⟨.ofLine 1, noted⟩ (.int 7))
        (.literal ⟨.ofLine 1, noted⟩ (.int 2)))))]⟩]

/-- Half of a whole number is whole, so the cast does nothing. -/
theorem check_omits_casts_halving :
    (halving none none).check =
      .ok ⟨halving (some .int) (some .int), [⟨.redundantCast "int", .ofLine 1⟩]⟩ ∧
    (halving (some .int) none).restored = halving (some .int) (some .int) ∧
    (halving none none).omitted.bare = (halving (some .int) none).omitted.bare ∧
    (halving (some .int) (some .int)).Settled ∧
    ∃ warnings, (halving none none).omitted.check =
      .ok ⟨(halving (some .int) none).omitted, warnings⟩ ∧ ∀ r m,
        (halving (some .int) none).omitted.ComesTo (.start .standard "") r m ↔
          (halving (some .int) (some .int)).ComesTo (.start .standard "") r m := by
  have checked : (halving none none).check =
    .ok ⟨halving (some .int) (some .int), [⟨.redundantCast "int", .ofLine 1⟩]⟩ := rfl
  have marked : (halving (some .int) none).restored = halving (some .int) (some .int) := rfl
  have bare : (halving none none).omitted.bare = (halving (some .int) none).omitted.bare := rfl
  have settled : (halving (some .int) (some .int)).Settled := settled_of_eq (by decide +kernel)
  obtain ⟨warnings, accepted, same⟩ := check_omits_casts checked marked bare
  exact ⟨checked, marked, bare, settled, warnings, accepted, same .standard "" (.inl settled)⟩

/-- A run comes to one end. -/
theorem ComesTo.unique {p : Program} {m m₁ m₂ : Machine} {r₁ r₂ : Except Error Value}
    (h₁ : p.ComesTo m r₁ m₁) (h₂ : p.ComesTo m r₂ m₂) : r₁ = r₂ := by
  obtain ⟨r, n, hs, rfl, -⟩ := h₁
  obtain ⟨r', n', hs', rfl, -⟩ := h₂
  rcases hs.linear hs' with t | t <;> cases t <;> rfl

/-- `any main() { any x = 5; return cast<bool>(x || false); }`, with these notes on expressions and on
the cast. -/
def deciding (note : Ty → Option Ty) (mark : Option Ty) : Program :=
  [.func ⟨.ofLine 1, .any, "main", [],
    [⟨.ofLine 1, .any, "x", some (.literal ⟨.ofLine 1, note .int⟩ (.int 5))⟩],
    [.ret (.ofLine 1) (some (.cast ⟨.ofLine 1, mark⟩ "bool"
      (.logical ⟨.ofLine 1, note .bool⟩ .or (.name ⟨.ofLine 1, note .any⟩ "x")
        (.literal ⟨.ofLine 1, note .bool⟩ (.bool false)))))]⟩]

/-- The operand that decides is given, and what `any` holds may be no truth value. So a cast that is
reported makes a truth value of it, and leaving it out changes what the program gives. -/
theorem redundant_cast_converts :
    (deciding (fun _ => none) none).check =
      .ok ⟨deciding some (some .bool), [⟨.redundantCast "bool", .ofLine 1⟩]⟩ ∧
    (deciding some none).restored = deciding some (some .bool) ∧
    (deciding (fun _ => none) none).omitted.check = .ok ⟨(deciding some none).omitted, []⟩ ∧
    (∃ m, (deciding some (some .bool)).ComesTo (.start .standard "") (.ok (.bool true)) m) ∧
    (∃ m, (deciding some none).omitted.ComesTo (.start .standard "") (.ok (.int 5)) m) ∧
    ¬ ∀ r m, (deciding some none).omitted.ComesTo (.start .standard "") r m ↔
      (deciding some (some .bool)).ComesTo (.start .standard "") r m := by
  have kept : ∃ m, (run (deciding some (some .bool)) (.start .standard "")).complete (Job.run 8) =
    some (.ok (.bool true), m) := ⟨_, rfl⟩
  have omitted : ∃ m, (run (deciding some none).omitted (.start .standard "")).complete
    (Job.run 8) = some (.ok (.int 5), m) := ⟨_, rfl⟩
  obtain ⟨m, kept⟩ := kept
  obtain ⟨m', omitted⟩ := omitted
  have truth : (deciding some (some .bool)).ComesTo (.start .standard "") (.ok (.bool true))
    m.outline := ⟨_, m, Progress.steps_of_complete _ kept, rfl, rfl⟩
  have number : (deciding some none).omitted.ComesTo (.start .standard "") (.ok (.int 5))
    m'.outline := ⟨_, m', Progress.steps_of_complete _ omitted, rfl, rfl⟩
  refine ⟨(check_of_clean rfl).trans rfl, rfl, rfl, ⟨_, truth⟩, ⟨_, number⟩, fun same => ?_⟩
  cases ((same _ _).mp number).unique truth

end Program

end Brace
