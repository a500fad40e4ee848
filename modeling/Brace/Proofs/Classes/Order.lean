import Mathlib.Logic.Relation
import Brace.Proofs.Classes.Fields
import Brace.Proofs.Classes.Super
import Brace.Proofs.Safety.Fits

/-!
# Classes — the order of inheritance

What checking keeps of a class is a list of members, the class's own first, and its question whether
one class is below another is a search of that list for a name. In an accepted program the list says
what the declarations say: its names are those that are met by going from a class to the superclass that
its declaration names, and from there on. A class is declared after its superclass and under a new
name, so the way up never comes back to where it has been.

* `Program.below_iff_isA`: the names that are met on the way up are those of the list.
* `Program.Below.antisymm`: two classes that are below each other are one.
* `accepts_is_inheritance`: what may stand where a class, or any type that is known, is expected.
-/

namespace Brace

variable {p : Program} {checked : Checked} {x y z : String}

/-- The type of objects of a class, or of arrays. There may be nil in their place. -/
def Ty.isReference : Ty → Bool
  | .object _ | .array _ => true
  | _                    => false

theorem Ty.fits_self : ∀ t : Ty, t.fits t = true
  | .array t => Ty.fits_self t
  | .void | .bool | .int | .float | .str | .nil | .object _ | .function | .any => by simp [fits]

/-- What is accepted among types without `any`. -/
theorem Checker.accepts_iff (c : Checker) {a b : Ty} (ha : a.isAnyFree = true)
    (hb : b.isAnyFree = true) : c.accepts a b = true ↔
      a = b ∨ (a.isReference = true ∧ b = .nil) ∨
        ∃ x y info, a = .object x ∧ b = .object y ∧ c.classes.get? y = some info ∧
          info.isA x = true := by
  simp only [accepts, Bool.or_eq_true]
  constructor
  · rintro (fit | other)
    · exact .inl (Ty.eq_of_fits ha hb fit)
    · split at other
      · exact .inr (.inl ⟨rfl, rfl⟩)
      · exact .inr (.inl ⟨rfl, rfl⟩)
      · split at other
        · exact .inr (.inr ⟨_, _, _, rfl, rfl, ‹_›, other⟩)
        · cases other
      · cases other
  · rintro (rfl | ⟨reference, rfl⟩ | ⟨x, y, info, rfl, rfl, known, below⟩)
    · exact .inl (Ty.fits_self a)
    · refine .inr ?_
      cases a <;> first | rfl | cases reference
    · refine .inr ?_
      simp only [known, below]

namespace Program

/-- The program declares a class of this name. -/
def HasClass (p : Program) (x : String) : Prop := ∃ d, .cls d ∈ p ∧ d.name = x

/-- A class of the first name is declared with the second for its superclass. -/
def Extends (p : Program) (x y : String) : Prop :=
  ∃ d, .cls d ∈ p ∧ d.name = x ∧ d.superclass = some y

/-- From the first class one gets to the second by going from class to superclass. -/
def Below (p : Program) : String → String → Prop := Relation.ReflTransGen p.Extends

/-- What checking has become when it has seen the whole program. -/
def checker (p : Program) : Checker := ((p.mapM Decl.check).run .start).2

/-! ### What is declared and what is known -/

/-- A class that is declared is known, and next above it is the one that its declaration names. -/
theorem known_of_declared (h : p.check = .ok checked) {d : ClassDecl} (hd : .cls d ∈ p) :
    ∃ c, p.classes.get? d.name = some c ∧ d.superclass = c.inherited.head?.map (·.name) := by
  have there : (Decl.cls d).bare ∈ checked.program.bare := by
    rw [bare_of_check h]
    exact List.mem_map_of_mem hd
  obtain ⟨d', hd', same⟩ := List.mem_map.mp there
  cases d' with
  | cls d' =>
      obtain ⟨superclass, below⟩ := ClassDecl.below h hd'
      have same : d'.bare = d.bare := Decl.cls.inj same
      have name : d'.name = d.name := congrArg (·.name) same
      have named : d'.superclass = d.superclass := congrArg (·.superclass) same
      refine ⟨_, name ▸ below.declared, ?_⟩
      rw [← named, below.named]
      cases superclass <;> rfl
  | _ => cases same

/-- The classes that are declared are those that checking knows. -/
theorem hasClass_iff (h : p.check = .ok checked) :
    p.HasClass x ↔ ∃ c, p.classes.get? x = some c := by
  constructor
  · rintro ⟨d, hd, rfl⟩
    obtain ⟨c, known, -⟩ := known_of_declared h hd
    exact ⟨c, known⟩
  · rintro ⟨c, known⟩
    obtain ⟨Γ, classes, linked⟩ := linked_of_check h
    rw [← classes] at known
    obtain ⟨d, hd, own⟩ := linked.declared x c known
    exact ⟨d, hd, own.name.symm.trans (linked.name x c known)⟩

/-- What is next above a known class is what a declaration names. -/
theorem extends_iff (h : p.check = .ok checked) {c : ClassInfo} (known : p.classes.get? x = some c) :
    p.Extends x y ↔ c.inherited.head?.map (·.name) = some y := by
  constructor
  · rintro ⟨d, hd, rfl, named⟩
    obtain ⟨c', known', above⟩ := known_of_declared h hd
    cases known.symm.trans known'
    rw [← above, named]
  · intro above
    obtain ⟨d, hd, rfl⟩ := (hasClass_iff h).mpr ⟨c, known⟩
    obtain ⟨c', known', named⟩ := known_of_declared h hd
    cases known.symm.trans known'
    exact ⟨d, hd, rfl, named.trans above⟩

/-- The class next above a known one is known, by all that is above. -/
theorem known_above (h : p.check = .ok checked) {own t : Members} {upper : List Members}
    (known : p.classes.get? x = some ⟨own, t :: upper⟩) :
    p.classes.get? t.name = some ⟨t, upper⟩ := by
  obtain ⟨Γ, classes, linked⟩ := linked_of_check h
  rw [← classes] at known ⊢
  exact linked.above x _ known [own] t upper rfl

/-- A class is known by its own name. -/
theorem own_name (h : p.check = .ok checked) {c : ClassInfo} (known : p.classes.get? x = some c) :
    c.own.name = x := by
  obtain ⟨Γ, classes, linked⟩ := linked_of_check h
  exact linked.name x c (classes ▸ known)

end Program

/-- A class is itself, or what the class above it is. -/
theorem ClassInfo.isA_cons (own t : Members) (upper : List Members) (x : String) :
    ClassInfo.isA ⟨own, t :: upper⟩ x = (own.name == x || ClassInfo.isA ⟨t, upper⟩ x) := rfl

theorem ClassInfo.isA_self (c : ClassInfo) : c.isA c.own.name = true := by
  rw [isA, tiers, List.any_cons, beq_self_eq_true, Bool.true_or]

namespace Program

/-! ### The way up -/

/-- The names that are met on the way up from a known class are those of its list. -/
theorem below_iff_isA (h : p.check = .ok checked) {c : ClassInfo}
    (known : p.classes.get? x = some c) : p.Below x y ↔ c.isA y = true := by
  constructor
  · intro below
    induction below using Relation.ReflTransGen.head_induction_on generalizing c with
    | refl => exact own_name h known ▸ c.isA_self
    | head first _ ih =>
        obtain ⟨own, _ | ⟨t, upper⟩⟩ := c
        · cases (extends_iff h known).mp first
        · cases (extends_iff h known).mp first
          rw [ClassInfo.isA_cons, ih (known_above h known), Bool.or_true]
  · intro found
    obtain ⟨own, inherited⟩ := c
    induction inherited generalizing x own with
    | nil =>
        have name : own.name = y := by simpa [ClassInfo.isA, ClassInfo.tiers] using found
        rw [← name, own_name h known]
        exact .refl
    | cons t upper ih =>
        rw [ClassInfo.isA_cons, Bool.or_eq_true, beq_iff_eq] at found
        obtain name | above := found
        · rw [← name, own_name h known]
          exact .refl
        · exact .head ((extends_iff h known).mpr rfl) (ih t (known_above h known) above)

/-- Whatever is above a class that is declared is declared. -/
theorem Below.hasClass (h : p.check = .ok checked) (below : p.Below x y) (hx : p.HasClass x) :
    p.HasClass y := by
  induction below with
  | refl => exact hx
  | tail _ last ih =>
      obtain ⟨c, known⟩ := (hasClass_iff h).mp ih
      obtain ⟨own, _ | ⟨t, upper⟩⟩ := c
      · cases (extends_iff h known).mp last
      · cases (extends_iff h known).mp last
        exact (hasClass_iff h).mpr ⟨_, known_above h known⟩

/-- Two classes that are below each other are one, since neither has more above it. -/
theorem Below.antisymm (h : p.check = .ok checked) (hx : p.HasClass x) (hy : p.HasClass y)
    (up : p.Below x y) (down : p.Below y x) : x = y := by
  obtain ⟨c, hc⟩ := (hasClass_iff h).mp hx
  obtain ⟨d, hd⟩ := (hasClass_iff h).mp hy
  rw [below_iff_isA h hc] at up
  rw [below_iff_isA h hd] at down
  have name : c.own.name = x := own_name h hc
  have name' : d.own.name = y := own_name h hd
  obtain ⟨Γ, classes, linked⟩ := linked_of_check h
  rw [← classes] at hc hd
  obtain ⟨lower, tiers, -⟩ := linked.split hc hd up
  obtain ⟨lower', tiers', -⟩ := linked.split hd hc down
  have none : lower = [] := by
    have length := congrArg List.length tiers
    have length' := congrArg List.length tiers'
    rw [List.length_append] at length length'
    exact List.length_eq_zero_iff.mp (by omega)
  rw [none, List.nil_append] at tiers
  rw [← name, ← name', (List.cons.inj tiers).1]

/-- What checking accepts among classes is what is below. -/
theorem accepts_object (h : p.check = .ok checked) (hy : p.HasClass y) :
    p.checker.accepts (.object x) (.object y) = true ↔ p.Below y x := by
  obtain ⟨d, hd⟩ := (hasClass_iff h).mp hy
  rw [below_iff_isA h hd, Checker.accepts_iff _ rfl rfl]
  constructor
  · rintro (same | ⟨-, none⟩ | ⟨_, _, info, same, same', known, below⟩)
    · cases same
      exact own_name h hd ▸ d.isA_self
    · cases none
    · cases same
      cases same'
      cases hd.symm.trans known
      exact below
  · intro below
    exact .inr (.inr ⟨x, y, d, rfl, rfl, hd, below⟩)

end Program

/-- **Acceptance of classes.**  When checking has seen an accepted program, an object of one class may
stand where another is expected just if the other is reached by going from superclass to superclass.
Among the classes of the program this is an order. Of all other types that are free of `any`, nothing
but the type itself may stand, and nil where objects or arrays are expected. -/
theorem accepts_is_inheritance (h : p.check = .ok checked) :
    (∀ x y, p.HasClass x → p.HasClass y →
      (p.checker.accepts (.object x) (.object y) = true ↔ p.Below y x)) ∧
    ((∀ x, p.HasClass x → p.checker.accepts (.object x) (.object x) = true) ∧
      (∀ x y z, p.HasClass x → p.HasClass y → p.HasClass z →
        p.checker.accepts (.object x) (.object y) = true →
        p.checker.accepts (.object y) (.object z) = true →
          p.checker.accepts (.object x) (.object z) = true) ∧
      ∀ x y, p.HasClass x → p.HasClass y → p.checker.accepts (.object x) (.object y) = true →
        p.checker.accepts (.object y) (.object x) = true → x = y) ∧
    ∀ a b : Ty, a.isAnyFree = true → b.isAnyFree = true →
      (¬ ∃ x y, a = .object x ∧ b = .object y ∧ p.HasClass x ∧ p.HasClass y) →
        (p.checker.accepts a b = true ↔ a = b ∨ a.isReference = true ∧ b = .nil) := by
  have accepts {x y : String} (hy : p.HasClass y) := Program.accepts_object (x := x) h hy
  refine ⟨fun _ _ _ => accepts, ⟨fun x hx => ?_, fun x y z hx hy hz below below' => ?_,
    fun x y hx hy below below' => ?_⟩, fun a b ha hb others => ?_⟩
  · exact (accepts hx).mpr .refl
  · exact (accepts hz).mpr (((accepts hz).mp below').trans ((accepts hy).mp below))
  · exact Program.Below.antisymm h hx hy ((accepts hx).mp below') ((accepts hy).mp below)
  · rw [Checker.accepts_iff _ ha hb]
    refine or_congr_right (or_iff_left ?_)
    rintro ⟨x, y, info, rfl, rfl, known, below⟩
    have hy : p.HasClass y := (Program.hasClass_iff h).mpr ⟨info, known⟩
    exact others ⟨x, y, rfl, rfl, ((Program.below_iff_isA h known).mpr below).hasClass h hy, hy⟩

/-- An object of the lowest class may stand for one of the highest, and not the other way round. An array
of the one may not stand for an array of the other, and neither may be of a class without declaration. -/
theorem accepts_is_inheritance_retyping : ∃ checked, retyping.check = .ok checked ∧
    retyping.checker.accepts (.object "A") (.object "C") = true ∧
    retyping.checker.accepts (.object "C") (.object "A") = false ∧
    retyping.checker.accepts (.array (.object "A")) .nil = true ∧
    retyping.checker.accepts (.array (.object "A")) (.array (.object "C")) = false ∧
    retyping.checker.accepts (.object "A") (.object "D") = false := by
  have accepted : (retyping.admits fun _ => true) = true := by decide +kernel
  obtain ⟨checked, hc, -⟩ := Program.of_admits accepted
  obtain ⟨classes, ⟨-, -, order⟩, others⟩ := accepts_is_inheritance hc
  have hasA : retyping.HasClass "A" := ⟨_, .head _, rfl⟩
  have hasC : retyping.HasClass "C" := ⟨_, .tail _ (.tail _ (.head _)), rfl⟩
  have below : retyping.Below "C" "A" :=
    .head ⟨_, .tail _ (.tail _ (.head _)), rfl, rfl⟩ (.single ⟨_, .tail _ (.head _), rfl, rfl⟩)
  have up : retyping.checker.accepts (.object "A") (.object "C") = true :=
    (classes "A" "C" hasA hasC).mpr below
  refine ⟨checked, hc, up, ?_, ?_, ?_, ?_⟩
  · exact Bool.eq_false_iff.mpr fun down => absurd (order "A" "C" hasA hasC up down) (by decide)
  · exact (others (.array (.object "A")) .nil rfl rfl nofun).mpr (.inr ⟨rfl, rfl⟩)
  · refine Bool.eq_false_iff.mpr fun accepted => ?_
    obtain same | ⟨-, none⟩ := (others (.array (.object "A")) (.array (.object "C")) rfl rfl nofun).mp
      accepted
    · exact absurd same (by decide)
    · cases none
  · have undeclared : ¬ ∃ x y, Ty.object "A" = .object x ∧ Ty.object "D" = .object y ∧
        retyping.HasClass x ∧ retyping.HasClass y := by
      rintro ⟨x, y, -, e, -, d, hd, name⟩
      cases e
      simp only [retyping, List.mem_cons, Decl.cls.injEq, reduceCtorEq, List.not_mem_nil,
        or_false] at hd
      obtain rfl | rfl | rfl := hd <;> exact absurd name (by decide)
    refine Bool.eq_false_iff.mpr fun accepted => ?_
    obtain same | ⟨-, none⟩ := (others _ _ rfl rfl undeclared).mp accepted
    · exact absurd same (by decide)
    · cases none

end Brace
