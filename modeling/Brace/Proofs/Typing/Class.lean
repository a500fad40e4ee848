import Brace.Proofs.Typing.Rules

/-!
# Typing — what is known of a declared class

A class shows its own members first and then those of the class that it inherits from. Of members
that one declaration repeats, the later counts.
-/

namespace Brace

namespace ClassDecl

variable (d : ClassDecl) (superclass : Option ClassInfo)

@[simp] theorem name_info : (d.info superclass).name = d.name := rfl

/-- The method of this name that the declaration itself has. -/
def method? (x : String) : Option FuncDecl := d.methods.reverse.find? fun f => f.name = x

/-- A class knows the signatures of its own methods. -/
theorem own_methods (x : String) :
    (d.info superclass).own.methods.get? x = (d.method? x).map FuncDecl.signature := by
  simp only [info]
  rw [Table.get?_foldl_put (·.name) FuncDecl.signature x d.methods .empty]
  simp [method?]

/-- Of two fields with one name, the last one counts. -/
theorem own_fields (x : String) : (d.info superclass).own.fields.get? x =
    (d.fields.reverse.find? fun p => p.name = x).map (·.ty) := by
  simp only [info]
  rw [Table.get?_foldl_put (·.name) (·.ty) x d.fields .empty]
  simp

/-- A method is one of the class, or what the superclass has. -/
theorem method?_info (x : String) : (d.info superclass).method? x =
    ((d.method? x).map FuncDecl.signature).or (superclass.bind (·.method? x)) := by
  rw [← own_methods d superclass x]
  cases superclass <;> simp only [ClassInfo.method?, ClassInfo.tiers, List.findSome?_cons] <;>
    cases (d.info _).own.methods.get? x <;> rfl

/-- A field is one of the class, or what the superclass has. -/
theorem field?_info (x : String) : (d.info superclass).field? x =
    ((d.fields.reverse.find? fun p => p.name = x).map (·.ty)).or
      (superclass.bind (·.field? x)) := by
  rw [← own_fields d superclass x]
  cases superclass <;> simp only [ClassInfo.field?, ClassInfo.tiers, List.findSome?_cons] <;>
    cases (d.info _).own.fields.get? x <;> rfl

variable {d superclass}

/-- Where the types of its members are known, a class is. -/
theorem info_known {classes : Table ClassInfo}
    (hd : classes.get? d.name = some (d.info superclass))
    (hf : ∀ p ∈ d.fields, p.ty.Known classes) (hm : ∀ f ∈ d.methods, f.returns.Known classes)
    (hs : ∀ c, superclass = some c → c.Known classes) : (d.info superclass).Known classes where
  declared := hd
  fields x t h := by
    rw [field?_info, Option.or_eq_some_iff] at h
    obtain h | ⟨-, h⟩ := h
    · obtain ⟨p, hp, rfl⟩ := Option.map_eq_some_iff.mp h
      exact hf p (List.mem_reverse.mp (List.mem_of_find?_eq_some hp))
    · obtain ⟨c, hc, h⟩ := Option.bind_eq_some_iff.mp h
      exact (hs c hc).fields x t h
  returns x sig h := by
    rw [method?_info, Option.or_eq_some_iff] at h
    obtain h | ⟨-, h⟩ := h
    · obtain ⟨f, hp, rfl⟩ := Option.map_eq_some_iff.mp h
      exact hm f (List.mem_reverse.mp (List.mem_of_find?_eq_some hp))
    · obtain ⟨c, hc, h⟩ := Option.bind_eq_some_iff.mp h
      exact (hs c hc).returns x sig h

/-- Checking a class leaves what is known of it as it is. -/
theorem info_congr {d d' : ClassDecl} (hn : d'.name = d.name) (hf : d'.fields = d.fields)
    (hm : d'.methods.map FuncDecl.signature = d.methods.map FuncDecl.signature)
    (superclass : Option ClassInfo) : d'.info superclass = d.info superclass := by
  have fold : ∀ (fs : List FuncDecl) (t : Table Signature),
      fs.foldl (fun t f => t.put f.name f.signature) t =
        (fs.map FuncDecl.signature).foldl (fun t sig => t.put sig.name sig) t := fun fs t => by
    rw [List.foldl_map]
    rfl
  simp only [info, hn, hf, fold, hm]

end ClassDecl

/-! ### Scenes with one more class -/

namespace Scene

variable {Γ : Scene} {info : ClassInfo}

/-- A new class takes no other away. -/
theorem classes_addClass_sub (h : Γ.classes.get? info.name = none) :
    Γ.classes.Sub (Γ.addClass info).classes := .put h info

/-- A scene with one more class is lawful if that is known. -/
theorem Lawful.addClass (hl : Γ.Lawful) (h : Γ.classes.get? info.name = none)
    (hi : info.Known (Γ.addClass info).classes) : (Γ.addClass info).Lawful where
  names x s hx := by
    by_cases e : x = info.name
    · rw [e] at hx
      cases (means_put_self ..).symm.trans hx
      exact hi
    · exact (hl.names x s ((means_put_other Γ e _).symm.trans hx)).mono (classes_addClass_sub h)
  classes x info' hx := by
    by_cases e : info.name = x
    · subst e
      cases (Table.get?_put_self ..).symm.trans hx
      exact hi
    · refine (hl.classes x info' ?_).mono (classes_addClass_sub h)
      exact (Table.get?_put_other _ e info).symm.trans hx

/-- In a class, its objects are known, and so is the class above it. -/
theorem Lawful.inClass (hl : Γ.Lawful) {name : String} {superclass : Option ClassInfo}
    (hn : (Ty.object name).Known Γ.classes)
    (hs : ∀ c, superclass = some c → c.Known Γ.classes) : (Γ.inClass name superclass).Lawful := by
  cases superclass with
  | none =>
      have h := hl.enter.bind (x := "this") (s := .receiver (.object name)) hn
      exact ⟨h.names, h.classes⟩
  | some c =>
      have hsuper := hl.enter.bind (x := "super") (s := .cls c) (hs c rfl)
      have h := hsuper.enter.bind (x := "this") (s := .receiver (.object name)) hn
      exact ⟨h.names, h.classes⟩

end Scene

end Brace
