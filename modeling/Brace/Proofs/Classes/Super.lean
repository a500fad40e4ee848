import Brace.Proofs.Classes.Table
import Brace.Proofs.Classes.Words

/-!
# Classes — methods of the superclass

A method may be run for an object of any class below the one that declares it. Where it uses a method
of the superclass, the class of the object is no matter: the method is that of the class above the one
that declares the code. So it is however the code has been got to, and the receiver is the same there.

* `ClassDecl.below`: a class is below the one that its declaration names.
* `super_is_of_declaration`: which method is used, and for which object.
-/

namespace Brace

variable {p : Program} {checked : Checked}

/-! ### Names of classes -/

/-- A name that means a class is the name of that class, and checking knows it so in the end. -/
def Scene.Classed (K : Table ClassInfo) (Γ : Scene) : Prop :=
  ∀ x info, Γ.means x = some (.cls info) → info.name = x ∧ K.get? x = some info

/-- Of the predefined names none means a class. -/
theorem Scene.start_classed (K : Table ClassInfo) : start.Classed K := by
  intro x info h
  rw [means_start, get?_predefined] at h
  obtain ⟨c, -, e⟩ := Option.map_eq_some_iff.mp h
  cases c <;> cases e

/-- A class that is declared gets its own name. -/
theorem Decl.Sound.classed {K : Table ClassInfo} {Γ : Scene} {d : Decl} (h : d.Sound K Γ)
    (classed : Γ.Classed K) : (Γ.after d).Classed K := by
  intro x info e
  by_cases same : x = d.name
  · rw [same] at e ⊢
    cases d with
    | cls d =>
        cases (Scene.means_put_self ..).symm.trans e
        exact ⟨rfl, ClassDecl.Sound.declared h⟩
    | _ => cases (Scene.means_put_self ..).symm.trans e
  · exact classed x info ((Scene.means_after_other Γ same).symm.trans e)

/-- What checking knows of a class that is declared. -/
structure ClassDecl.Below (K : Table ClassInfo) (d : ClassDecl) (superclass : Option ClassInfo) :
    Prop where
  declared : K.get? d.name = some (d.info superclass)
  named    : d.superclass = superclass.map (·.name)
  known    : ∀ c, superclass = some c → K.get? c.name = some c

/-- Checking of a declaration has found the class that it names. -/
theorem ClassDecl.Sound.below {K : Table ClassInfo} {Γ : Scene} {d : ClassDecl} (h : d.Sound K Γ)
    (classed : Γ.Classed K) : d.Below K (Γ.superOf d) := by
  refine ⟨h.declared, ?_, fun c hc => ?_⟩
  · cases e : d.superclass with
    | none => rw [Scene.superOf, e]; rfl
    | some x =>
        obtain ⟨info, hx⟩ := h.superclass x e
        simp only [Scene.superOf, e, hx, Option.map_some, (classed x info hx).1]
  · cases e : d.superclass with
    | none =>
        rw [Scene.superOf, e] at hc
        cases hc
    | some x =>
        obtain ⟨info, hx⟩ := h.superclass x e
        simp only [Scene.superOf, e, hx, Option.some.injEq] at hc
        obtain ⟨name, known⟩ := classed x info hx
        rw [← hc, name, known]

/-- So it has for each class among declarations that follow one another. -/
theorem Decl.SoundAll.below {K : Table ClassInfo} : ∀ {ds : List Decl} {Γ : Scene},
    Decl.SoundAll K Γ ds → Γ.Classed K → ∀ d, .cls d ∈ ds → ∃ superclass, d.Below K superclass
  | d' :: ds, Γ, h, classed, d, hd => by
      rcases List.mem_cons.mp hd with rfl | hd
      · exact ⟨_, ClassDecl.Sound.below h.1 classed⟩
      · exact below h.2 (h.1.classed classed) d hd

/-- Each class of an accepted program is below the one that its declaration names. -/
theorem ClassDecl.below (h : p.check = .ok checked) {d : ClassDecl} (hd : .cls d ∈ checked.program) :
    ∃ superclass, d.Below p.classes superclass :=
  (Program.sound_of_check h).below (Scene.start_classed _) d hd

/-! ### Classes of a run -/

/-- Of the tiers that checking has found, the first one is from the declaration of the class, and the
others are those of the class that the declaration names. -/
theorem Lineage.first (h : p.check = .ok checked) {s : Forest Value} {t : Tier} {ts : List Tier}
    (made : Lineage checked.program s (t :: ts)) {info : ClassInfo}
    (known : p.classes.get? info.name = some info)
    (mirrors : List.Forall₂ Tier.Mirrors (t :: ts) info.tiers) :
    ∃ d superclass, .cls d ∈ checked.program ∧ t.Of d ∧ d.Below p.classes superclass ∧
      List.Forall₂ Tier.Mirrors ts (superclass.elim [] ClassInfo.tiers) := by
  obtain ⟨⟨d, hd, ht⟩, -, -⟩ := made
  obtain ⟨superclass, below⟩ := ClassDecl.below h hd
  cases mirrors with
  | cons first rest =>
      have name : info.name = d.name := first.name.trans ht.name
      have same : info = d.info superclass := by
        rw [name, below.declared] at known
        exact (Option.some.inj known).symm
      refine ⟨d, superclass, hd, ht, below, ?_⟩
      rw [same] at rest
      cases superclass <;> exact rest

/-- Wherever a tier stands in a class, the declaration that it is from names the class of the tiers
after it. -/
theorem Lineage.superclass (h : p.check = .ok checked) {s : Forest Value} {t : Tier} {cls : Class} :
    ∀ {above : List Tier} {info : ClassInfo},
      Lineage checked.program s (above ++ t :: cls.tiers) → p.classes.get? info.name = some info →
      List.Forall₂ Tier.Mirrors (above ++ t :: cls.tiers) info.tiers →
        ∃ d, .cls d ∈ checked.program ∧ t.Of d ∧ d.superclass = some cls.name
  | [], info, made, known, mirrors => by
      obtain ⟨d, superclass, hd, ht, below, rest⟩ := made.first h known mirrors
      refine ⟨d, hd, ht, ?_⟩
      cases superclass with
      | none => cases rest
      | some c => rw [below.named, Option.map_some, Class.Mirrors.name rest]
  | u :: us, info, made, known, mirrors => by
      obtain ⟨d, superclass, -, -, below, rest⟩ := made.first h known mirrors
      cases superclass with
      | none => cases us <;> cases rest
      | some c => exact Lineage.superclass h made.2.2 (below.known c rfl) rest

/-! ### Where a method of the superclass is used -/

/-- Where both names lead to what they should, the method of the superclass is bound to the receiver. -/
theorem Machine.answers_superMethod {m : Machine} {s : Class} {o : Object} {x : String}
    {method : Tier × FuncDecl} (super : m.lookup "super" = .ok (.cls s))
    (this : m.lookup "this" = .ok (.object o)) (found : s.method? x = some method) (n : Note)
    (r : Except Error Value) (m' : Machine) : (Job.expr (.superMethod n x)).Answers m r m' ↔
      r = .ok (.function (m.bindMethod o method).1) ∧ m' = (m.bindMethod o method).2 := by
  have start : (Job.expr (.superMethod n x)).start m =
      .finished (.ok (.function (m.bindMethod o method).1)) (m.bindMethod o method).2 := by
    simp only [Job.start, Expr.start, Eval.superMethod, Eval.lookup, Eval.consult, Eval.bind_apply,
      super, this, Eval.expectObject, found, Progress.finished_andThen, Progress.onValue,
      Eval.pure_apply, Eval.make]
  rw [Job.answers_iff_steps, start]
  constructor
  · intro h
    cases h
    exact ⟨rfl, rfl⟩
  · rintro ⟨rfl, rfl⟩
    exact .refl _

/-- **Methods of the superclass.**  Where reserved words are no names in an accepted program, whenever
a run of it evaluates `super.x`, it does so in a call of a method `g`, whose body this is part of. The
method is declared in a class with a superclass and is bound to an object, which is of that class or of
one below it. The run gets the method that the superclass answers with, bound to the object that `this`
stands for there. -/
theorem super_is_of_declaration (h : p.check = .ok checked) (hp : p.Unmentioned)
    (settings : Settings) (stdin : String) {n : Note} {x : String} {m : Machine}
    {resume : Except Error Value → Machine → Progress Value}
    (hq : (checked.program.run (.start settings stdin)).Steps
      (.waiting (.expr (.superMethod n x)) m resume)) :
    ∃ (d : ClassDecl) (g : Closure) (o : Object) (above : List Tier) (t : Tier) (s : Class)
        (method : Tier × FuncDecl),
      (.cls d ∈ checked.program ∧ t.Of d ∧ d.superclass = some s.name) ∧
      (g.Bound checked.program m.scopes o above t s.tiers ∧
        .expr (.superMethod n x) ∈ g.decl.parts ∧
        (checked.program.run (.start settings stdin)).InCallOf g (.expr (.superMethod n x)) m ∧
        ∃ inner, m.scopes.chain m.here = inner ++ m.scopes.chain g.scope) ∧
      m.lookup "this" = .ok (.object o) ∧ m.lookup "super" = .ok (.cls s) ∧
      s.method? x = some method ∧
      ∀ r m', (Job.expr (.superMethod n x)).Answers m r m' ↔
        r = .ok (.function (m.bindMethod o method).1) ∧ m' = (m.bindMethod o method).2 := by
  have hp := Program.unmentioned_of_check h hp
  -- What checking has known there.
  have sound := (Program.meets_run h settings stdin).steps (sound_kept _) hq
  obtain ⟨W, Γ, ⟨ready, sound, covers⟩, -⟩ := sound.asked
  obtain ⟨known, means, has⟩ := sound.rule
  obtain ⟨info, rfl⟩ := hp.super_placed covers.place means
  obtain ⟨i, b, met, found, bound, stands, same⟩ := ready.nearest means
  cases same.eq rfl
  -- What the names lead to.
  have comes := (Progress.involves_iff (j := .expr (.superMethod n x))).mpr ⟨resume, hq⟩
  obtain ⟨⟨_, depth⟩, ⟨at', inside, -⟩, under⟩ := Program.code_of_involves comes
  have holds := at'.holds hp
  obtain ⟨g, o, above, t, s, rfl, method, rfl, receiver⟩ := holds.super hp at'.made.based found
  have super : m.lookup "super" = .ok (.cls s) := by
    have nearest : m.scopes.nearest? m.here "super" = some (i, some (.cls s)) := found
    simp only [Machine.lookup, Forest.lookup, nearest]
  have this : m.lookup "this" = .ok (.object o) := by
    simp only [Machine.lookup, Forest.lookup, receiver]
  -- The superclass has a method of this name, since checking has found it to have one.
  obtain ⟨_, takes⟩ := ready.ok.values i "super" (.cls s) _ bound stands
  have mirrors : s.Mirrors info := takes.1 s rfl
  obtain ⟨answer, answers⟩ := Option.isSome_iff_exists.mp (mirrors.method? x ▸ has info rfl)
  obtain ⟨method', answers, -⟩ := Option.map_eq_some_iff.mp answers
  -- It is the class that the declaration names, since that is so in the class of the object.
  have ok : (Value.object o).Ok (p.plan checked) ⟨W, m⟩ := ready.ok.stores (.of_lookup this)
  obtain ⟨info', hk, whole⟩ := ok.2.known
  have hk' := Class.Mirrors.name whole
  rw [Class.Mirrors, method.tiers] at whole
  have lineage : Lineage checked.program m.scopes (above ++ t :: s.tiers) := method.tiers ▸ method.cls
  obtain ⟨d, hd, ht, superclass⟩ := Lineage.superclass h lineage (hk' ▸ hk) whole
  obtain ⟨inner, chain, -⟩ := holds.chain
  exact ⟨d, g, o, above, t, s, method', ⟨hd, ht, superclass⟩,
    ⟨method, inside _ (Expr.self_mem_parts _), under g rfl, inner, chain⟩, this, super, answers,
    Machine.answers_superMethod super this answers n⟩

/-- `super.f` is about to be evaluated, for an object of this class, below the other. -/
def Machine.defers (object superclass : String) (e : Expr) (m : Machine) : Bool :=
  match e, m.lookup "this", m.lookup "super" with
  | .superMethod _ x, .ok (.object o), .ok (.cls s) =>
      x == "f" && o.cls.name == object && s.name == superclass
  | _, _, _ => false

/-- If a class is declared here below that one, it has this name. -/
def Decl.belowOnly (superclass name : String) : Decl → Bool
  | .cls d => d.superclass != some superclass || d.name == name
  | _      => true

/-- The method of the class in the middle uses the one above it, also on an object of the class below,
where the same is written. -/
theorem super_is_of_declaration_descent : ∃ checked n m resume, descent.check = .ok checked ∧
    descent.Unmentioned ∧ (checked.program.run (.start .standard "")).Steps
      (.waiting (.expr (.superMethod n "f")) m resume) ∧
    ∃ (d : ClassDecl) (g : Closure) (o : Object) (s : Class) (method : Tier × FuncDecl),
      .cls d ∈ checked.program ∧ d.name = "B" ∧ g.decl ∈ d.methods ∧
      (checked.program.run (.start .standard "")).InCallOf g (.expr (.superMethod n "f")) m ∧
      m.lookup "this" = .ok (.object o) ∧ o.cls.name = "C" ∧ s.name = "A" ∧
      s.method? "f" = some method ∧ (Job.expr (.superMethod n "f")).Answers m
        (.ok (.function (m.bindMethod o method).1)) (m.bindMethod o method).2 := by
  have accepted : descent.admits (fun checked => checked.program.all (Decl.belowOnly "A" "B") &&
      (checked.program.run (.start .standard "")).waitsFor 15 (Machine.defers "C" "A")) = true := by
    decide +kernel
  have unmentioned : descent.Unmentioned := by decide +kernel
  obtain ⟨checked, hc, test⟩ := Program.of_admits accepted
  obtain ⟨declared, test⟩ := Bool.and_eq_true_iff.mp test
  obtain ⟨e, m, resume, hq, test⟩ := Progress.steps_of_waitsFor test
  cases e with
  | superMethod n x =>
      obtain ⟨d, g, o, above, t, s, method, ⟨hd, ht, below⟩, ⟨bound, -, under, -⟩, this, super, found,
        answers⟩ := super_is_of_declaration hc unmentioned .standard "" hq
      simp only [Machine.defers, this, super, Bool.and_eq_true, beq_iff_eq] at test
      obtain ⟨⟨rfl, object⟩, superclass⟩ := test
      have name : d.name = "B" := by
        have only := List.all_eq_true.mp declared _ hd
        simpa [Decl.belowOnly, below, superclass] using only
      exact ⟨checked, n, m, resume, hc, unmentioned, hq, d, g, o, s, method, hd, name,
        ht.methods ▸ bound.decl, under, this, object, superclass, found, (answers _ _).mpr ⟨rfl, rfl⟩⟩
  | _ => cases test

end Brace
