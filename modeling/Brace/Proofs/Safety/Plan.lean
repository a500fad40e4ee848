import Brace.Proofs.Safety.Parts

/-!
# Safety — what is assumed of a program

What a run may be trusted with depends on what the program is like. The assumptions are about its
parts and their places.

* `Program.Typed`: nothing is left to be known only when the program runs.
* `Program.Settled`: no expression has a type with `any` in it, and no name that checking took for a
  predefined one is taken by a declaration.
* `Program.ScansVariables`: what is read from the input goes to variables.
* `Program.Unreserved`: nothing is named like a receiver or its superclass.
* `Program.Writes`: the properties that are ever written.

A part of a node is a part of the program when all parts of the node are (`Plan.Covers`).
-/

namespace Brace

/-! ### Assumptions -/

/-- `any` is no part of the type. -/
def Ty.isAnyFree : Ty → Bool
  | .any     => false
  | .array t => t.isAnyFree
  | _        => true

/-- Something predefined. -/
def Symbol.isFixed : Symbol → Bool
  | .const _ | .builtin _ => true
  | _                     => false

def Symbol.isVar : Symbol → Bool
  | .var _ => true
  | _      => false

/-- It is a variable there, if it is a name. -/
def Expr.isVariableIn (Γ : Scene) : Expr → Bool
  | .name _ x => (Γ.means x).any Symbol.isVar
  | _         => true

/-- A new array starts with nothing missing. -/
def Expr.fillsNew : Expr → Bool
  | .arrayNew _ t _ => t != .function
  | _               => true

/-- It sets or steps a property of this name. -/
def Expr.writes (x : String) : Expr → Bool
  | .set _ _ y _           => y == x
  | .step _ _ (.get _ _ y) => y == x
  | _                      => false

/-- The type of an expression is known in checking. -/
def Part.isTyped : Part → Bool
  | .expr e => e.ty?.all Ty.isAnyFree && e.fillsNew
  | .name _ => true

/-- The declaration is of no class and takes no predefined name. -/
def Decl.isTyped : Decl → Bool
  | .cls _ => false
  | d      => (predefined? d.name).isNone

namespace Program

/-- No variable, parameter, function or class is named like the receiver of a method or like its
superclass. -/
def Unreserved (p : Program) : Prop := ∀ x, .name x ∈ p.parts → x ≠ "this" ∧ x ≠ "super"

/-- Nothing is left to be known only when the program runs: there are no classes, no expression has
a type with `any` in it, no new array starts with a function missing, and no declaration takes a
predefined name. -/
structure Typed (p : Program) : Prop where
  classless : ∀ d, .cls d ∉ p
  annotated : ∀ e t, .expr e ∈ p.parts → e.ty? = some t → t.isAnyFree = true
  elements  : ∀ n t e, .expr (.arrayNew n t e) ∈ p.parts → t ≠ .function
  names     : ∀ d ∈ p, predefined? d.name = none

instance (p : Program) : Decidable p.Unreserved :=
  decidable_of_iff (p.parts.all (fun
      | .name x => x != "this" && x != "super"
      | .expr _ => true) = true) <| by
    rw [List.all_eq_true]
    constructor
    · intro h x hx
      simpa using h _ hx
    · rintro h (e | x) hx
      · rfl
      · simpa using h x hx

/-- Whether a program has all its types is a matter of its declarations and its parts. -/
theorem typed_iff (p : Program) :
    p.Typed ↔ (∀ d ∈ p, d.isTyped = true) ∧ ∀ a ∈ p.parts, a.isTyped = true := by
  constructor
  · rintro ⟨hc, ha, he, hn⟩
    refine ⟨fun d hd => ?_, fun a hp => ?_⟩
    · cases d with
      | cls d => exact absurd hd (hc d)
      | _ => exact Option.isNone_iff_eq_none.mpr (hn _ hd)
    · cases a with
      | name x => rfl
      | expr e =>
          have known : e.ty?.all Ty.isAnyFree = true :=
            (Option.all_eq_true _ _).mpr fun t ht => ha e t hp ht
          cases e with
          | arrayNew n t e => simpa [Part.isTyped, Expr.fillsNew, known] using he n t e hp
          | _ => simpa [Part.isTyped, Expr.fillsNew] using known
  · rintro ⟨hd, hp⟩
    refine ⟨fun d hc => (nomatch hd _ hc), fun e t he ht => ?_, fun n t e he => ?_, fun d hm => ?_⟩
    · have h := hp _ he
      rw [Part.isTyped, Bool.and_eq_true, ht] at h
      exact h.1
    · have h := hp _ he
      rw [Part.isTyped, Bool.and_eq_true] at h
      exact bne_iff_ne.mp h.2
    · have h := hd d hm
      cases d with
      | cls d => cases h
      | _ => exact Option.isNone_iff_eq_none.mp h

instance (p : Program) : Decidable p.Typed := decidable_of_iff _ p.typed_iff.symm

/-! ### Names and what they mean at their places -/

/-- A declaration of the program takes a predefined name for itself. -/
def Takes (p : Program) (x : String) : Prop := (predefined? x).isSome ∧ ∃ d ∈ p, d.name = x

/-- Where something is read from the input by name, the name means a variable. -/
def ScansVariables (p : Program) : Prop :=
  ∀ Γ n format targets k x, (Γ, .expr (.scanf n format targets)) ∈ p.placed →
    .name k x ∈ targets → ∃ t, Γ.means x = some (.var t)

/-- No expression has a type with `any` in it, and a name that means something predefined where it
is used is not taken. -/
structure Settled (p : Program) : Prop where
  annotated : ∀ e t, .expr e ∈ p.parts → e.ty? = some t → t.isAnyFree = true
  untaken   : ∀ Γ e x known, (Γ, .expr e) ∈ p.placed → x ∈ e.uses → Γ.means x = some known →
    known.isFixed = true → ¬ p.Takes x

/-- Where the superclass is used, it is a class. -/
def SupersClasses (p : Program) : Prop :=
  ∀ Γ n x, (Γ, .expr (.superMethod n x)) ∈ p.placed → ∃ info, Γ.means "super" = some (.cls info)

/-- A function or a class keeps the name that it was given. -/
def Firm (p : Program) : Prop := p.ScansVariables ∨ p.Settled

/-- Where a program has all its types, they are known. -/
theorem Typed.settled {p : Program} (h : p.Typed) : p.Settled where
  annotated := h.annotated
  untaken Γ e x known _ _ _ _ := by
    rintro ⟨hx, d, hd, rfl⟩
    rw [h.names d hd] at hx
    cases hx

instance (p : Program) (x : String) : Decidable (p.Takes x) :=
  inferInstanceAs (Decidable (_ ∧ ∃ d ∈ p, d.name = x))

/-- Looks at every place for `ScansVariables`. -/
def scansVariables (p : Program) : Bool :=
  p.placed.all fun
    | (Γ, .expr (.scanf _ _ targets)) => targets.all (·.isVariableIn Γ)
    | _                               => true

instance (p : Program) : Decidable p.ScansVariables :=
  decidable_of_iff (p.scansVariables = true) <| by
    rw [scansVariables, List.all_eq_true]
    constructor
    · intro h Γ n format targets k x hp hx
      have h := List.all_eq_true.mp (h _ hp) _ hx
      obtain ⟨s, hs, hv⟩ := (Option.any_eq_true _ _).mp h
      cases s <;> first | exact ⟨_, hs⟩ | cases hv
    · rintro h ⟨Γ, a⟩ hp
      split
      · rename_i Γ' n format targets e
        cases e
        refine List.all_eq_true.mpr fun t ht => ?_
        cases t with
        | name k x =>
            obtain ⟨ty, e⟩ := h _ _ _ _ _ _ hp ht
            simp [Expr.isVariableIn, e, Symbol.isVar]
        | _ => rfl
      · rfl

/-- Looks at every place for `Settled`. -/
def settled (p : Program) : Bool :=
  p.placed.all fun
    | (Γ, .expr e) => e.ty?.all Ty.isAnyFree && e.uses.all fun x =>
        match Γ.means x with
        | some known => !known.isFixed || !decide (p.Takes x)
        | none       => true
    | _ => true

/-- A test of a program tells whether its types are known. -/
theorem settled_of_eq {p : Program} (h : p.settled = true) : p.Settled := by
  rw [settled, List.all_eq_true] at h
  have places {e : Expr} (he : .expr e ∈ p.parts) : ∃ Γ, (Γ, .expr e) ∈ p.placed := by
    rw [parts, ← Decl.placedAll_parts p .start] at he
    obtain ⟨⟨Γ, a⟩, ha, rfl⟩ := List.mem_map.mp he
    exact ⟨Γ, ha⟩
  refine ⟨fun e t he ht => ?_, fun Γ e x known he hx hk hf => ?_⟩
  · obtain ⟨Γ, he⟩ := places he
    have h := h _ he
    rw [Bool.and_eq_true, ht] at h
    exact h.1
  · have h := h _ he
    rw [Bool.and_eq_true, List.all_eq_true] at h
    have h := h.2 x hx
    rw [hk] at h
    simpa [hf] using h

/-- Somewhere a property of this name is set or stepped. -/
def Writes (p : Program) (x : String) : Prop := ∃ e, .expr e ∈ p.parts ∧ e.writes x = true

instance (p : Program) (x : String) : Decidable (p.Writes x) :=
  decidable_of_iff (p.parts.any (fun
      | .expr e => e.writes x
      | .name _ => false) = true) <| by
    rw [List.any_eq_true]
    constructor
    · rintro ⟨e | y, he, hw⟩
      · exact ⟨e, he, hw⟩
      · cases hw
    · rintro ⟨e, he, hw⟩
      exact ⟨.expr e, he, hw⟩

end Program

/-- A program that is run, and the classes that checking has found in it. -/
structure Plan where
  program : Program
  classes : Table ClassInfo

namespace Plan

/-- The parts are parts of the program, in these places. -/
def Covers (P : Plan) (parts : List (Scene × Part)) : Prop := ∀ a ∈ parts, a ∈ P.program.placed

namespace Covers

variable {P : Plan} {Γ : Scene}

/-- A plan that covers places covers fewer of them. -/
theorem of_sub {ps qs : List (Scene × Part)} (h : P.Covers ps) (le : ∀ a ∈ qs, a ∈ ps) :
    P.Covers qs :=
  fun a ha => h a (le a ha)

theorem left {ps qs : List (Scene × Part)} (h : P.Covers (ps ++ qs)) : P.Covers ps :=
  h.of_sub fun _ => List.mem_append_left qs

theorem right {ps qs : List (Scene × Part)} (h : P.Covers (ps ++ qs)) : P.Covers qs :=
  h.of_sub fun _ => List.mem_append_right ps

theorem tail {a : Scene × Part} {ps : List (Scene × Part)} (h : P.Covers (a :: ps)) : P.Covers ps :=
  h.of_sub fun _ => List.mem_cons_of_mem a

/-- The plan covers the declarations of the program. -/
theorem decl {d : Decl} (h : (Γ, d) ∈ P.program.scenes) : P.Covers (d.placed Γ) :=
  Decl.placedAll_of_scenes h

/-- The plan covers the functions of the program. -/
theorem function {f : FuncDecl} (h : P.program.Declares Γ f) : P.Covers (f.placed Γ) := by
  obtain ⟨⟨Γ', d⟩, hd, hf⟩ := h
  exact (decl hd).of_sub (Decl.placed_of_functions hf)

/-- A name that a part of the program gives. -/
theorem name {x : String} {ps : List (Scene × Part)} (h : P.Covers ps) (hx : (Γ, .name x) ∈ ps) :
    .name x ∈ P.program.parts := Program.mem_parts_of_placed (h _ hx)

/-- The plan covers what is inside an expression that it covers. -/
theorem child {e c : Expr} (h : P.Covers (e.placed Γ)) (hc : c ∈ e.children) :
    P.Covers (c.placed Γ) :=
  h.of_sub fun _ ha => by
    obtain ⟨b, hb, rfl⟩ := List.mem_map.mp ha
    exact List.mem_map_of_mem (Expr.parts_child hc hb)

/-- The expression stands in its place. -/
theorem place {e : Expr} (h : P.Covers (e.placed Γ)) : (Γ, .expr e) ∈ P.program.placed :=
  h _ (List.mem_map_of_mem e.self_mem_parts)

/-- What a plan covers is a part of the program. -/
theorem self {e : Expr} (h : P.Covers (e.placed Γ)) : .expr e ∈ P.program.parts :=
  Program.mem_parts_of_placed h.place

/-- The plan covers the first value of a variable that it covers. -/
theorem init {v : VarDecl} (h : P.Covers (v.placed Γ)) {e : Expr} (hv : v.init = some e) :
    P.Covers (e.placed (Γ.hide v.name)) := by
  rw [VarDecl.placed, hv] at h
  exact h.tail

end Covers

end Plan

end Brace
