import Brace.Proofs.Safety.Program

/-!
# Classes — fields of the classes above

An object may stand where one of a class above its own is expected. What checking says of a field there
goes by the nearest declaration of its name, from the class that it has found upwards. Nothing compares
the declarations: a class below may declare the field again, and with another type, and objects of that
class show this type where they are known to be of it.

* `Scene.Linked`: the classes above a known class are known, with the same classes above them.
* `field_descends`: the type of a field, seen from a class and from one below it.
* `fields_redeclared`: a field that has not the same type seen from both.
-/

namespace Brace

variable {p : Program} {checked : Checked} {Γ : Scene}

/-- The type that the declaration itself gives a field. -/
def ClassDecl.field? (d : ClassDecl) (x : String) : Option Ty :=
  (d.fields.reverse.find? fun p => p.name = x).map (·.ty)

/-- These are the members that the declaration gives. -/
def Members.Of (t : Members) (d : ClassDecl) : Prop := t = (d.info none).own

/-- A tier that checking knows has the name of the declaration that it comes from. -/
theorem Members.Of.name {t : Members} {d : ClassDecl} (h : t.Of d) : t.name = d.name := by
  rw [h]
  rfl

/-- It has the fields of that declaration. -/
theorem Members.Of.field? {t : Members} {d : ClassDecl} (h : t.Of d) (x : String) :
    t.fields.get? x = d.field? x := by
  rw [h]
  exact d.own_fields none x

namespace Scene

/-- What a name says of a class is what the table of classes says, and a class that is known has come
of a declaration, with classes above it that are known likewise. -/
structure Linked (p : Program) (Γ : Scene) : Prop where
  means    : ∀ x info, Γ.means x = some (.cls info) → Γ.classes.get? x = some info
  name     : ∀ x info, Γ.classes.get? x = some info → info.name = x
  declared : ∀ x info, Γ.classes.get? x = some info → ∃ d, .cls d ∈ p ∧ info.own.Of d
  above    : ∀ x info, Γ.classes.get? x = some info → ∀ lower t upper,
    info.tiers = lower ++ t :: upper → Γ.classes.get? t.name = some ⟨t, upper⟩

/-- At first no class is known. -/
theorem Linked.start (p : Program) : Scene.start.Linked p where
  means x info e := by
    rw [means_start, get?_predefined] at e
    obtain ⟨c, -, e⟩ := Option.map_eq_some_iff.mp e
    cases c <;> cases e
  name _ _ e := by cases e
  declared _ _ e := by cases e
  above _ _ e := by cases e

/-- A declaration of something else than a class. -/
theorem Linked.bind (h : Γ.Linked p) (x : String) {s : Symbol} (hs : ∀ info, s ≠ .cls info) :
    (Γ.bind x s).Linked p where
  means y info e := by
    by_cases same : y = x
    · subst same
      exact absurd (Option.some.inj ((means_put_self ..).symm.trans e)) (hs info)
    · exact h.means y info ((means_put_other Γ same _).symm.trans e)
  name := h.name
  declared := h.declared
  above := h.above

/-- The superclass that a declaration names is known. -/
theorem Linked.superOf (h : Γ.Linked p) {d : ClassDecl} {c : ClassInfo} (e : Γ.superOf d = some c) :
    Γ.classes.get? c.name = some c := by
  rw [Scene.superOf] at e
  split at e
  · rename_i x _
    split at e
    · rename_i info found
      cases e
      have known := h.means x _ found
      rw [h.name x _ known]
      exact known
    · cases e
  · cases e

/-- What is known of classes after one has been declared. -/
theorem classes_after_cls (Γ : Scene) (d : ClassDecl) {x : String} {info : ClassInfo}
    (e : (Γ.after (.cls d)).classes.get? x = some info) :
    x = d.name ∧ info = d.info (Γ.superOf d) ∨ x ≠ d.name ∧ Γ.classes.get? x = some info := by
  by_cases same : x = d.name
  · subst same
    exact .inl ⟨rfl, (Option.some.inj ((Table.get?_put_self ..).symm.trans e)).symm⟩
  · exact .inr ⟨same, (Table.get?_put_other _ (Ne.symm same) _).symm.trans e⟩

/-- A class above one that is declared is the class itself, its superclass or one above that. -/
theorem Linked.above_new (h : Γ.Linked p) {d : ClassDecl} {lower upper : List Members} {t : Members}
    (tiers : (d.info (Γ.superOf d)).tiers = lower ++ t :: upper) :
    ⟨t, upper⟩ = d.info (Γ.superOf d) ∨ Γ.classes.get? t.name = some ⟨t, upper⟩ := by
  cases lower with
  | nil =>
      cases tiers
      exact .inl rfl
  | cons u lower =>
      have inherited := (List.cons.inj tiers).2
      cases c : Γ.superOf d with
      | none =>
          rw [c] at inherited
          cases lower <;> cases inherited
      | some c' =>
          rw [c] at inherited
          exact .inr (h.above _ c' (h.superOf c) lower t upper inherited)

/-- A class is linked by its declaration, if its name is new. -/
theorem Linked.addClass (h : Γ.Linked p) {d : ClassDecl} (hd : .cls d ∈ p)
    (sub : Γ.classes.Sub (Γ.after (.cls d)).classes) : (Γ.after (.cls d)).Linked p := by
  have own : (Γ.after (.cls d)).classes.get? d.name = some (d.info (Γ.superOf d)) :=
    Table.get?_put_self ..
  refine ⟨fun x info e => ?_, fun x info e => ?_, fun x info e => ?_,
    fun x info e lower t upper tiers => ?_⟩
  · by_cases same : x = d.name
    · subst same
      cases (means_put_self ..).symm.trans e
      exact own
    · exact sub _ _ (h.means x info ((means_put_other Γ same _).symm.trans e))
  · obtain ⟨rfl, rfl⟩ | ⟨-, e⟩ := classes_after_cls Γ d e
    · rfl
    · exact h.name x info e
  · obtain ⟨rfl, rfl⟩ | ⟨-, e⟩ := classes_after_cls Γ d e
    · exact ⟨d, hd, rfl⟩
    · exact h.declared x info e
  · obtain ⟨rfl, rfl⟩ | ⟨-, e⟩ := classes_after_cls Γ d e
    · obtain same | known := h.above_new tiers
      · have name : t.name = d.name := congrArg ClassInfo.name same
        rw [name, same]
        exact own
      · exact sub _ _ known
    · exact sub _ _ (h.above x info e lower t upper tiers)

/-- What is known is linked still after a declaration. -/
theorem Linked.after (h : Γ.Linked p) : ∀ {d : Decl}, d ∈ p →
    Γ.classes.Sub (Γ.after d).classes → (Γ.after d).Linked p
  | .var v, _, _    => h.bind v.name nofun
  | .func f, _, _   => h.bind f.name nofun
  | .cls _, hd, sub => h.addClass hd sub

end Scene

/-- Where declarations are checked and nothing is reported, the classes stay linked. -/
theorem Decl.checkAll_linked {F : Prop} : ∀ (ds : List Decl) {Γ : Scene}, (∀ d ∈ ds, d ∈ p) →
    Check.Leads F Γ (ds.mapM Decl.check) (Γ.afterAll ds) fun _ =>
      Γ.Top → Γ.Linked p → (Γ.afterAll ds).Linked p
  | [], Γ, _   => by
      rw [List.mapM_nil]
      exact .pure fun _ _ linked => linked
  | d :: ds, Γ, hds => by
      obtain ⟨hd, hds⟩ := List.forall_mem_cons.mp hds
      rw [List.mapM_cons]
      refine .bind d.check_leads fun d' => .bind ((checkAll_linked ds hds).given And.left)
        fun ds' => .pure ?_
      rintro ⟨⟨-, found⟩, rest⟩ top linked
      exact rest (found.top top) (linked.after hd (found.sub top))

/-- What is known of the classes of an accepted program in the end. -/
theorem Program.linked_of_check (h : p.check = .ok checked) :
    ∃ Γ : Scene, Γ.classes = p.classes ∧ Γ.Linked p := by
  obtain ⟨clean, -⟩ := clean_of_check h
  have found := (Decl.checkAll_linked (p := p) (F := True) p fun _ => id).clean trivial
    Checker.start Checker.start_at clean
  exact ⟨_, found.1.classes, found.2 Scene.start_top (.start p)⟩

/-! ### From a class up to one above it -/

namespace Scene.Linked

variable {d c : ClassInfo} {x y : String}

/-- A class consists of the classes below one that it inherits from, and of that one. -/
theorem split (h : Γ.Linked p) (hd : Γ.classes.get? y = some d) (hc : Γ.classes.get? x = some c)
    (below : d.isA x = true) :
    ∃ lower, d.tiers = lower ++ c.tiers ∧ ∀ t ∈ lower, t.name ≠ x := by
  obtain ⟨t, ht, name⟩ := List.any_eq_true.mp below
  obtain ⟨t, first⟩ := Option.isSome_iff_exists.mp
    (List.find?_isSome.mpr ⟨t, ht, name⟩ : (d.tiers.find? (·.name == x)).isSome)
  obtain ⟨name, lower, upper, tiers, others⟩ := List.find?_eq_some_iff_append.mp first
  have known := h.above y d hd lower t upper tiers
  rw [beq_iff_eq.mp name, hc] at known
  cases known
  refine ⟨lower, tiers, fun t ht => ?_⟩
  simpa using others t ht

/-- Each class above a known class has been declared. -/
theorem declares (h : Γ.Linked p) (hd : Γ.classes.get? y = some d) {t : Members}
    (ht : t ∈ d.tiers) : ∃ k, .cls k ∈ p ∧ t.Of k := by
  obtain ⟨lower, upper, tiers⟩ := List.append_of_mem ht
  exact h.declared _ _ (h.above y d hd lower t upper tiers)

end Scene.Linked

/-- **Fields of the classes above.**  Let an accepted program have a class, and one that is that class
or inherits from it. The lower one has the tiers of the upper one after some of its own, which come of
declarations of other classes of the program. A field that has a type seen from the upper class has a
type seen from the lower one: that of the nearest of those declarations that declares it again, or else
the same. So it is the same if none of them declares it with another type. -/
theorem field_descends (h : p.check = .ok checked) {x y : String} {c d : ClassInfo}
    (hc : p.classes.get? x = some c) (hd : p.classes.get? y = some d) (below : d.isA x = true) :
    ∃ lower : List Members, d.tiers = lower ++ c.tiers ∧
      (∀ t ∈ lower, t.name ≠ x ∧ ∃ k, .cls k ∈ p ∧ t.name = k.name ∧
        ∀ n, t.fields.get? n = k.field? n) ∧
      ∀ n type, c.field? n = some type →
        d.field? n = some ((lower.findSome? (·.fields.get? n)).getD type) ∧
        ((∀ t ∈ lower, ∀ type', t.fields.get? n = some type' → type' = type) →
          d.field? n = some type) := by
  obtain ⟨Γ, classes, linked⟩ := Program.linked_of_check h
  rw [← classes] at hc hd
  obtain ⟨lower, tiers, others⟩ := linked.split hd hc below
  refine ⟨lower, tiers, fun t ht => ⟨others t ht, ?_⟩, fun n type found => ?_⟩
  · have above : t ∈ d.tiers := tiers ▸ List.mem_append_left _ ht
    obtain ⟨k, hk, of⟩ := linked.declares hd above
    exact ⟨k, hk, of.name, of.field?⟩
  · have nearest : d.field? n = some ((lower.findSome? (·.fields.get? n)).getD type) := by
      rw [ClassInfo.field?, tiers, List.findSome?_append, ← ClassInfo.field?, found]
      cases lower.findSome? (·.fields.get? n) <;> rfl
    refine ⟨nearest, fun same => ?_⟩
    cases again : lower.findSome? (·.fields.get? n) with
    | none => rw [nearest, again, Option.getD_none]
    | some type' =>
        obtain ⟨t, ht, declared⟩ := List.exists_of_findSome?_eq_some again
        rw [nearest, again, Option.getD_some, same t ht type' declared]

/-- `class A { int x; int y; }` `class B : A { string y; }` `class C : B { int z; }`
`int main() { return 0; }` -/
def retyping : Program := [
  .cls ⟨.ofLine 1, "A", none, [⟨.int, "x"⟩, ⟨.int, "y"⟩], []⟩,
  .cls ⟨.ofLine 2, "B", some "A", [⟨.str, "y"⟩], []⟩,
  .cls ⟨.ofLine 3, "C", some "B", [⟨.int, "z"⟩], []⟩,
  .func ⟨.ofLine 4, .int, "main", [], [], [.ret (.ofLine 4) (some (.literal .blank (.int 0)))]⟩]

/-- The class of this name is known, and passes a test. -/
def Program.knows (p : Program) (x : String) (test : ClassInfo → Bool) : Bool :=
  match p.classes.get? x with
  | some info => test info
  | none      => false

/-- A class that passes a test is one that checking knows. -/
theorem Program.of_knows {x : String} {test : ClassInfo → Bool} (h : p.knows x test = true) :
    ∃ info, p.classes.get? x = some info ∧ test info = true := by
  rw [knows] at h
  split at h
  · exact ⟨_, ‹_›, h⟩
  · cases h

/-- Seen from the lowest class, a field of the highest has its type, and one that the class between
them declares again has the type that it is given there. -/
theorem field_descends_retyping : ∃ checked c d, retyping.check = .ok checked ∧
    retyping.classes.get? "A" = some c ∧ retyping.classes.get? "C" = some d ∧ d.isA "A" = true ∧
    (c.field? "x" = some .int ∧ d.field? "x" = some .int) ∧
    c.field? "y" = some .int ∧ d.field? "y" = some .str := by
  have accepted : (retyping.admits fun _ => true) = true := by decide +kernel
  have upper : (retyping.knows "A" fun c => c.tiers.length == 1 && c.field? "x" == some .int &&
      c.field? "y" == some .int) = true := by decide +kernel
  have lower : (retyping.knows "C" fun d => d.isA "A" &&
      d.tiers.map (·.fields.get? "x") == [none, none] ++ [some .int] &&
      d.tiers.map (·.fields.get? "y") == [none, some .str] ++ [some .int]) = true := by
    decide +kernel
  obtain ⟨checked, hcheck, -⟩ := Program.of_admits accepted
  obtain ⟨c, hc, test⟩ := Program.of_knows upper
  simp only [Bool.and_eq_true, beq_iff_eq] at test
  obtain ⟨⟨one, x⟩, y⟩ := test
  obtain ⟨d, hd, test⟩ := Program.of_knows lower
  simp only [Bool.and_eq_true, beq_iff_eq] at test
  obtain ⟨⟨below, xs⟩, ys⟩ := test
  obtain ⟨lower, tiers, -, seen⟩ := field_descends hcheck hc hd below
  -- What the classes below the highest declare is all but the last.
  have declared {f : Members → Option Ty} {types : List (Option Ty)} {last : Option Ty}
      (e : d.tiers.map f = types ++ [last]) : lower.map f = types := by
    rw [tiers, List.map_append] at e
    exact (List.append_inj' e (by rw [List.length_map, one]; rfl)).1
  refine ⟨checked, c, d, hcheck, hc, hd, below, ⟨x, (seen "x" .int x).2 fun t ht type' e => ?_⟩, y, ?_⟩
  · have none : t.fields.get? "x" ∈ [none, none] := declared xs ▸ List.mem_map_of_mem ht
    simp [e] at none
  · have nearest : lower.findSome? (·.fields.get? "y") = some .str := by
      have e := List.findSome?_map (f := (·.fields.get? "y")) (p := id) (l := lower)
      rw [declared ys] at e
      exact e.symm
    rw [(seen "y" .int y).1, nearest, Option.getD_some]

/-- A class that inherits from another may give a field another type, and the program is accepted. -/
theorem fields_redeclared : ∃ checked c d, retyping.check = .ok checked ∧
    retyping.classes.get? "A" = some c ∧ retyping.classes.get? "B" = some d ∧ d.isA "A" = true ∧
    c.field? "y" = some .int ∧ d.field? "y" = some .str := by
  have accepted : (retyping.admits fun _ => true) = true := by decide +kernel
  have upper : (retyping.knows "A" fun c => c.field? "y" == some .int) = true := by decide +kernel
  have lower : (retyping.knows "B" fun d => d.isA "A" && d.field? "y" == some .str) = true := by
    decide +kernel
  obtain ⟨checked, hcheck, -⟩ := Program.of_admits accepted
  obtain ⟨c, hc, type⟩ := Program.of_knows upper
  obtain ⟨d, hd, test⟩ := Program.of_knows lower
  obtain ⟨below, type'⟩ := Bool.and_eq_true .. ▸ test
  exact ⟨checked, c, d, hcheck, hc, hd, below, beq_iff_eq.mp type, beq_iff_eq.mp type'⟩

end Brace
