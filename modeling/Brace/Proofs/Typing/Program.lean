import Brace.Proofs.Scope.Root
import Brace.Proofs.Typing.Class
import Brace.Proofs.Typing.Stmt

/-!
# Typing — accepted programs keep the rules

The program that checking gives back, if it accepts one, is sound: its declarations keep the rules
one after another, from the scene where a program starts.

* `Program.sound_of_check`: an accepted program is sound.
-/

namespace Brace

open Check

variable {F : Prop} {Γ : Scene}

namespace Scene

/-- Every name of the innermost frame has a meaning, so none is being defined. -/
def Full (Γ : Scene) : Prop := ∀ x, Γ.own x = true → ∃ s, Γ.means x = some s

theorem Full.enter (Γ : Scene) : Γ.enter.Full := nofun

theorem Full.bind {Γ : Scene} (h : Γ.Full) (x : String) (s : Symbol) : (Γ.bind x s).Full := by
  intro y hy
  by_cases e : y = x
  · exact ⟨s, by rw [e]; exact means_put_self ..⟩
  · obtain ⟨s', hs'⟩ := h y (by simpa [Scene.bind, own_put, e] using hy)
    exact ⟨s', by rw [Scene.bind, means_put_other Γ e, hs']⟩

/-- A name that may be defined is new, where none is being defined. -/
theorem Full.new {Γ : Scene} (h : Γ.Full) {x : String} (hx : Γ.own x = true → Γ.means x = none) :
    Γ.own x = false := by
  cases ho : Γ.own x with
  | false => rfl
  | true =>
      obtain ⟨s, hs⟩ := h x ho
      rw [hx ho] at hs
      cases hs

end Scene

/-! ### Functions -/

/-- The parameters are bound, all to types that are known, where nothing is reported. -/
theorem Check.params_leads (p : Position) : ∀ (xs : List Param) {Γ : Scene} {F : Prop}, Γ.Full →
    Leads F Γ (xs.forM fun x => do
      let _ ← resolveTy p x.ty
      let _ ← define x.name (.var x.ty) p) (Γ.bindParams xs) fun _ =>
        Γ.NewParams xs ∧ (Γ.Lawful → (Γ.bindParams xs).Lawful)
  | [], Γ, F, _ => .pure fun _ => ⟨trivial, id⟩
  | x :: xs, Γ, F, hΓ => by
      have one : Leads F Γ (do
          let _ ← resolveTy p x.ty
          let _ ← define x.name (.var x.ty) p) (Γ.bind x.name (.var x.ty)) fun _ =>
            x.ty.Known Γ.classes ∧ Γ.own x.name = false :=
        .bind (resolveTy_leads p x.ty) fun _ => .bind (define_leads ..) fun _ =>
          .pure fun ⟨⟨_, hk⟩, _, hn⟩ => ⟨hk, hΓ.new hn⟩
      refine .bind one fun _ => (params_leads p xs (hΓ.bind _ _)).imp ?_
      rintro - ⟨-, hk, hn⟩ ⟨hns, hls⟩
      exact ⟨⟨hn, hns⟩, fun hl => hls (hl.bind (s := .var x.ty) hk)⟩

/-- What checking a function finds. -/
structure FuncDecl.Found (Γ : Scene) (f f' : FuncDecl) : Prop where
  signature : f'.signature = f.signature
  known     : f.returns.Known Γ.classes
  sound     : Γ.Lawful → ∀ K, Γ.classes.Sub K → f'.Sound K Γ

/-- What checking the variables and the body of a function finds. -/
structure FuncDecl.BodyFound (Γ : Scene) (f f' : FuncDecl) : Prop where
  signature : f'.signature = f.signature
  sound     : Γ.Lawful → ∀ K, Γ.classes.Sub K → Γ.enter.NewParams f'.params ∧
    VarDecl.SoundAll K (Γ.ofFunction f') f'.locals ∧
    Stmt.SoundAll K ((Γ.ofFunction f').declareAll f'.locals) f'.body

/-- Inside a function the parameters are bound, and its locals and its body are checked there. -/
theorem FuncDecl.inside_leads (f : FuncDecl)
    (hF : F → Γ.enter.NewParams f.params ∧ (Γ.enter.Lawful → (Γ.enter.bindParams f.params).Lawful)) :
    Leads F (Γ.ofFunction f) (do
      let locals ← f.locals.mapM VarDecl.check
      let body ← Stmt.checkAll f.body
      pure { f with locals, body }) ((Γ.ofFunction f).declareAll f.locals) (f.BodyFound Γ) := by
  refine .bind (VarDecl.checkAll_leads f.locals) fun locals =>
    .bind ((Stmt.checkAll_leads f.body).given fun _ => trivial) fun body => .pure ?_
  rintro ⟨⟨h, hls⟩, hb⟩
  obtain ⟨hn, hp⟩ := hF h
  refine ⟨rfl, fun hl K hK => ?_⟩
  have hl₁ : (Γ.ofFunction f).Lawful := (hp hl.enter).looping.within _
  have hK₁ : (Γ.ofFunction f).classes.Sub K := by simpa using hK
  refine ⟨hn, hls.sound hl₁ K hK₁, ?_⟩
  show Stmt.SoundAll K ((Γ.ofFunction f).declareAll locals) body
  rw [hls.scene]
  exact hb (hls.lawful hl₁) K (by simpa using hK)

/-- The body of a function is found as the rules say, where nothing is reported. -/
theorem FuncDecl.checkBody_leads (f : FuncDecl) : Leads F Γ f.checkBody Γ (f.Found Γ) := by
  have hc : ((Γ.ofFunction f).declareAll f.locals).classes = Γ.classes := by simp
  refine .bind (resolveTy_leads f.pos f.returns) fun _ =>
    .bind (inFrame_leads f.pos (.bind (params_leads f.pos f.params (.enter Γ)) fun _ =>
      withLoop_leads false (withFunction_leads _ (f.inside_leads And.right))) hc) fun f' => ?_
  refine .reportIf _ _ <| .pure ?_
  rintro ⟨⟨⟨-, hk⟩, hb⟩, hm⟩
  refine ⟨hb.signature, hk, fun hl K hK => ?_⟩
  obtain ⟨hp, hls, hs⟩ := hb.sound hl K hK
  refine ⟨hp, hls, hs, ?_⟩
  by_cases hv : f'.returns = .void
  · exact .inl hv
  · exact .inr (by simpa [hv] using hm)

/-! ### Classes -/

namespace Check.Leads

/-- A table that is filled by checking, as it is where nothing is reported. -/
theorem foldlM {δ γ : Type} {f : δ → γ → Check δ} {g : δ → γ → δ}
    (h : ∀ t c, Leads F Γ (f t c) Γ fun t' => t' = g t c) :
    ∀ (cs : List γ) (t : δ), Leads F Γ (cs.foldlM f t) Γ fun t' => t' = cs.foldl g t
  | [], t => .pure fun _ => rfl
  | c :: cs, t => by
      rw [List.foldlM_cons]
      refine .bind (h t c) fun t' => ((foldlM h cs t').given And.left).imp ?_
      rintro - ⟨-, rfl⟩ rfl
      rfl

end Check.Leads

namespace ClassDecl

/-- The superclass that is found is the one that its name means. -/
theorem superInfo_leads (d : ClassDecl) : Leads F Γ d.superInfo Γ fun r =>
    r = Γ.superOf d ∧ ∀ x, d.superclass = some x → ∃ info, Γ.means x = some (.cls info) := by
  simp only [superInfo, Scene.superOf]
  cases d.superclass with
  | none =>
      refine .pure fun _ => ⟨rfl, ?_⟩
      rintro x ⟨⟩
  | some x =>
      refine .bind (lookup_leads x d.pos) fun s => ?_
      split
      · refine .pure ?_
        rintro ⟨-, s, e, -⟩
        cases e
      · rename_i info
        refine .pure ?_
        rintro ⟨-, s, e, hx⟩
        cases e
        simp only [hx, true_and]
        rintro y hy
        cases hy
        exact ⟨info, hx⟩
      · exact .report_bind _ _ fun _ => .pure False.elim

/-- The fields of a class that are gathered are those that it declares. -/
theorem fieldTable_leads (d : ClassDecl) : Leads F Γ d.fieldTable Γ fun t =>
    t = d.fields.foldl (fun t x => t.put x.name x.ty) .empty := by
  refine .foldlM (fun t x => ?_) _ _
  exact .reportIf _ _ <| .pure fun _ => rfl

/-- The methods of a class that are gathered are those that it declares. -/
theorem methodTable_leads (d : ClassDecl) (fields : Table Ty) :
    Leads F Γ (d.methodTable fields) Γ fun t =>
      t = d.methods.foldl (fun t f => t.put f.name f.signature) .empty := by
  refine .foldlM (fun t f => ?_) _ _
  split
  · exact .report_bind _ _ fun _ => .of_not id fun c => .refl c
  · exact .reportIf _ _ <| .pure fun _ => rfl

/-- What checking the methods of a class finds. -/
structure MethodsFound (Γ : Scene) (fs fs' : List FuncDecl) : Prop where
  signatures : fs'.map FuncDecl.signature = fs.map FuncDecl.signature
  known      : ∀ f ∈ fs, f.returns.Known Γ.classes
  sound      : Γ.Lawful → ∀ K, Γ.classes.Sub K → ∀ f ∈ fs', f.Sound K Γ

/-- The methods are found one by one. -/
theorem methods_leads : ∀ fs : List FuncDecl,
    Leads F Γ (fs.mapM FuncDecl.checkBody) Γ (MethodsFound Γ fs)
  | [] => by
      rw [List.mapM_nil]
      exact .pure fun _ => ⟨rfl, nofun, fun _ _ _ => nofun⟩
  | f :: fs => by
      rw [List.mapM_cons]
      refine .bind f.checkBody_leads fun f' => .bind ((methods_leads fs).given And.left)
        fun fs' => .pure ?_
      rintro ⟨⟨-, hf⟩, hfs⟩
      refine ⟨?_, List.forall_mem_cons.mpr ⟨hf.known, hfs.known⟩, fun hl K hK => ?_⟩
      · rw [List.map_cons, List.map_cons, hf.signature, hfs.signatures]
      · exact List.forall_mem_cons.mpr ⟨hf.sound hl K hK, hfs.sound hl K hK⟩

/-- In the frame that has the receiver the superclass is bound too. -/
theorem defineSuper_leads (name : String) (info : ClassInfo) (p : Position) :
    Leads F (Γ.enter.bind "this" (.receiver (.object name))) (define "super" (.cls info) p)
      (Γ.inClass name (some info)) fun _ => True := by
  refine (defineTo_leads "super" (.cls info) p fun c hc => ?_).imp fun _ _ _ => trivial
  refine hc.name "super" (some (.cls info)) (fun s top others => ?_) rfl rfl rfl
  have hl := hc.levels
  rw [Forest.chain] at hl ⊢
  cases hl with
  | one h hs =>
      refine .two (fun y => ?_) (hs.congr others)
      rw [top, h]
      show (if y = "super" then some (some (Symbol.cls info)) else
          if y = "this" then some (some (Symbol.receiver (.object name))) else none) =
        (if y = "this" then some (some (Symbol.receiver (.object name))) else none).or
          (if y = "super" then some (some (Symbol.cls info)) else none)
      by_cases hy : y = "super" <;> simp [hy]

/-- The methods are checked where `this` is bound, and `super` if there is a superclass. -/
theorem inside_leads (d : ClassDecl) (superclass : Option ClassInfo) :
    Leads F Γ (inFrame d.pos do
      let _ ← define "this" (.receiver (.object d.name)) d.pos
      match superclass with
      | some c => do
          let _ ← define "super" (.cls c) d.pos
      | none => pure ()
      let methods ← d.methods.mapM FuncDecl.checkBody
      pure { d with methods }) Γ fun d' => ∃ methods, d' = { d with methods } ∧
        MethodsFound (Γ.inClass d.name superclass) d.methods methods := by
  cases superclass with
  | none =>
      refine inFrame_leads d.pos (.bind (define_leads ..) fun _ => .bind (methods_leads _)
        fun fs => .pure ?_) rfl
      rintro ⟨-, h⟩
      exact ⟨fs, rfl, h⟩
  | some c =>
      refine inFrame_leads d.pos (.bind (define_leads ..) fun _ =>
        .bind (defineSuper_leads d.name c d.pos) fun _ => .bind (methods_leads _)
          fun fs => .pure ?_) rfl
      rintro ⟨-, h⟩
      exact ⟨fs, rfl, h⟩

/-- The types of the fields and the methods are checked where the class has been declared. -/
theorem members_leads (d : ClassDecl) (superclass : Option ClassInfo) :
    Leads F Γ (do
      d.fields.forM fun x => do
        let _ ← resolveTy d.pos x.ty
      inFrame d.pos do
        let _ ← define "this" (.receiver (.object d.name)) d.pos
        match superclass with
        | some c => do
            let _ ← define "super" (.cls c) d.pos
        | none => pure ()
        let methods ← d.methods.mapM FuncDecl.checkBody
        pure { d with methods }) Γ fun d' =>
      (∀ p ∈ d.fields, p.ty.Known Γ.classes) ∧ ∃ methods, d' = { d with methods } ∧
        MethodsFound (Γ.inClass d.name superclass) d.methods methods := by
  refine .bind (.forM d.fields fun p _ =>
    .bind (resolveTy_leads d.pos p.ty) fun _ => .pure And.right) fun _ =>
      (d.inside_leads superclass).imp ?_
  rintro d' ⟨-, hf⟩ hm
  exact ⟨hf, hm⟩

/-- What checking a class finds, where `info` is taken down for it. -/
structure InfoFound (Γ : Scene) (info : ClassInfo) (superclass : Option ClassInfo)
    (d d' : ClassDecl) : Prop where
  new     : Γ.own d.name = true → Γ.means d.name = none
  fields  : ∀ p ∈ d.fields, p.ty.Known (Γ.addClass info).classes
  methods : ∃ methods, d' = { d with methods } ∧
    MethodsFound ((Γ.addClass info).inClass d.name superclass) d.methods methods

theorem declare_leads (d : ClassDecl) (superclass : Option ClassInfo) {info : ClassInfo}
    (hn : info.name = d.name) :
    Leads F Γ (do
      if ← define d.name (.cls info) d.pos then
        modify fun c => { c with classes := c.classes.put d.name info }
      d.fields.forM fun x => do
        let _ ← resolveTy d.pos x.ty
      inFrame d.pos do
        let _ ← define "this" (.receiver (.object d.name)) d.pos
        match superclass with
        | some c => do
            let _ ← define "super" (.cls c) d.pos
        | none => pure ()
        let methods ← d.methods.mapM FuncDecl.checkBody
        pure { d with methods }) (Γ.addClass info) (InfoFound Γ info superclass d) := by
  have e : { Γ.bind d.name (.cls info) with classes := Γ.classes.put d.name info } =
      Γ.addClass info := by rw [Scene.addClass, hn]
  refine .bind (define_leads ..) fun defined => ?_
  cases defined with
  | true =>
      refine .bind (e ▸ putClass_leads d.name info) fun _ => (d.members_leads superclass).imp ?_
      rintro d' ⟨⟨-, -, hd⟩, -⟩ ⟨hf, hm⟩
      exact ⟨hd, hf, hm⟩
  | false => exact .of_not (fun h => nomatch h.2.1) (d.members_leads (F := F) (Γ := Γ) _).later

/-- What checking a class finds. -/
structure Found (Γ : Scene) (d d' : ClassDecl) : Prop where
  superclass : ∀ x, d.superclass = some x → ∃ info, Γ.means x = some (.cls info)
  info       : InfoFound Γ (d.info (Γ.superOf d)) (Γ.superOf d) d d'

/-- A class is found as the rules say, where nothing is reported. -/
theorem check_leads (d : ClassDecl) : Leads F Γ d.check (Γ.after (.cls d)) (d.Found Γ) := by
  rw [check]
  refine .bind d.superInfo_leads fun superclass => .bind d.fieldTable_leads fun fields =>
    .bind (d.methodTable_leads fields) fun methods => ?_
  refine ((d.declare_leads superclass rfl).arrive ?_).imp ?_
  · rintro ⟨⟨⟨-, rfl, -⟩, rfl⟩, rfl⟩
    rfl
  · rintro d' ⟨⟨⟨-, rfl, hs⟩, rfl⟩, rfl⟩ h
    exact ⟨hs, h⟩

end ClassDecl

/-! ### Programs -/

namespace Scene

/-- Where declarations of a program stand: every name of the frame has a meaning, and every class
is a name of the frame. -/
structure Top (Γ : Scene) : Prop where
  full    : Γ.Full
  classes : ∀ x info, Γ.classes.get? x = some info → Γ.own x = true

theorem Top.bind {Γ : Scene} (h : Γ.Top) (x : String) (s : Symbol) : (Γ.bind x s).Top :=
  ⟨h.full.bind x s, fun y info hy => by simp [Scene.bind, own_put, h.classes y info hy]⟩

/-- A name that is free at the top is the name of no class. -/
theorem Top.unclassed {Γ : Scene} (h : Γ.Top) {x : String} (hx : Γ.own x = false) :
    Γ.classes.get? x = none := by
  cases e : Γ.classes.get? x with
  | none => rfl
  | some info => rw [h.classes x info e] at hx; cases hx

theorem Top.addClass {Γ : Scene} (h : Γ.Top) (info : ClassInfo) : (Γ.addClass info).Top := by
  refine ⟨h.full.bind info.name (.cls info), fun y info' hy => ?_⟩
  show (Γ.put info.name (some (.cls info))).own y = true
  rw [own_put]
  by_cases e : y = info.name
  · simp [e]
  · have hy' : Γ.classes.get? y = some info' := by
      rw [← hy]
      exact (Table.get?_put_other _ (Ne.symm e) info).symm
    simp [h.classes y info' hy']

end Scene

namespace ClassDecl.Found

variable {d d' : ClassDecl}

/-- The superclass of a class is known. -/
theorem superclass_known (hl : Γ.Lawful) {c : ClassInfo} (h : Γ.superOf d = some c) :
    c.Known Γ.classes := by
  simp only [Scene.superOf] at h
  split at h
  · rename_i x _
    split at h
    · rename_i info e
      cases h
      exact hl.names x _ e
    · cases h
  · cases h

/-- After a class, every class that a type names has been declared. -/
theorem lawful (h : d.Found Γ d') (ht : Γ.Top) (hl : Γ.Lawful) : (Γ.after (.cls d)).Lawful := by
  have hn : Γ.classes.get? d.name = none := ht.unclassed (ht.full.new h.info.new)
  obtain ⟨methods, rfl, hm⟩ := h.info.methods
  refine hl.addClass hn (info_known (Table.get?_put_self ..) h.info.fields ?_ fun c hc => ?_)
  · exact Scene.classes_inClass _ d.name (Γ.superOf d) ▸ hm.known
  · exact (superclass_known hl hc).mono (Scene.classes_addClass_sub hn)

/-- What the methods see is known. -/
theorem lawful_inClass (h : d.Found Γ d') (ht : Γ.Top) (hl : Γ.Lawful) :
    ((Γ.addClass (d.info (Γ.superOf d))).inClass d.name (Γ.superOf d)).Lawful := by
  have hn := ht.unclassed (ht.full.new h.info.new)
  have hd : (Γ.addClass (d.info (Γ.superOf d))).classes.get? d.name =
      some (d.info (Γ.superOf d)) := Table.get?_put_self ..
  have hl' : (Γ.addClass (d.info (Γ.superOf d))).Lawful := h.lawful ht hl
  exact hl'.inClass ⟨_, hd⟩ fun c hc =>
    (superclass_known hl hc).mono (Scene.classes_addClass_sub hn)

theorem info_eq (h : d.Found Γ d') (superclass : Option ClassInfo) :
    d'.info superclass = d.info superclass := by
  obtain ⟨methods, rfl, hm⟩ := h.info.methods
  exact @info_congr d { d with methods } rfl rfl hm.signatures superclass

theorem after (h : d.Found Γ d') (Γ₁ : Scene) : Γ₁.after (.cls d') = Γ₁.after (.cls d) := by
  have e := h.info_eq
  obtain ⟨methods, rfl, -⟩ := h.info.methods
  show Γ₁.addClass (ClassDecl.info _ (Γ₁.superOf d)) = _
  rw [e]
  rfl

/-- A class that is found so is sound, whatever classes are declared later. -/
theorem sound (h : d.Found Γ d') (ht : Γ.Top) (hl : Γ.Lawful) (K : Table ClassInfo)
    (hK : (Γ.after (.cls d)).classes.Sub K) : d'.Sound K Γ := by
  have e := h.info_eq
  have inside := h.lawful_inClass ht hl
  have hd : (Γ.addClass (d.info (Γ.superOf d))).classes.get? d.name =
      some (d.info (Γ.superOf d)) := Table.get?_put_self ..
  obtain ⟨methods, rfl, hm⟩ := h.info.methods
  refine ⟨ht.full.new h.info.new, h.superclass, ?_, ?_⟩
  · show K.get? d.name = some (ClassDecl.info _ (Γ.superOf d))
    rw [e]
    exact hK _ _ hd
  · show ∀ f ∈ methods, f.Sound K ((Γ.addClass (ClassDecl.info _ (Γ.superOf d))).inClass d.name
      (Γ.superOf d))
    rw [e]
    refine hm.sound inside K ?_
    rw [Scene.classes_inClass]
    exact hK

end ClassDecl.Found

/-- What checking a declaration of a program finds. -/
structure Decl.Found (Γ : Scene) (d d' : Decl) : Prop where
  after  : ∀ Γ₁ : Scene, Γ₁.after d' = Γ₁.after d
  top    : Γ.Top → (Γ.after d).Top
  sub    : Γ.Top → Γ.classes.Sub (Γ.after d).classes
  lawful : Γ.Top → Γ.Lawful → (Γ.after d).Lawful
  sound  : Γ.Top → Γ.Lawful → ∀ K, (Γ.after d).classes.Sub K → d'.Sound K Γ

namespace Decl

/-- A declaration is found as the rules say, where nothing is reported. -/
theorem check_leads : ∀ d : Decl, Leads F Γ d.check (Γ.after d) (d.Found Γ)
  | .var v => by
      refine .bind v.check_leads fun v' => .pure ?_
      rintro ⟨-, h⟩
      exact ⟨h.scene, fun ht => ht.bind _ _, fun _ => .refl _, fun _ => h.lawful,
        fun _ hl K hK => h.sound hl K hK⟩
  | .func f => by
      have whole : Leads F Γ f.check (Γ.after (.func f)) fun f' =>
          (Γ.own f.name = true → Γ.means f.name = none) ∧ f.Found (Γ.after (.func f)) f' :=
        .bind (define_leads ..) fun _ => f.checkBody_leads.imp fun _ h hf => ⟨h.2.2, hf⟩
      refine .bind whole fun f' => .pure ?_
      rintro ⟨-, hn, hf⟩
      have hname : f'.name = f.name := congrArg Signature.name hf.signature
      have hl' : Γ.Lawful → (Γ.after (.func f)).Lawful := fun hl =>
        hl.bind (s := .function f.signature) hf.known
      refine ⟨fun Γ₁ => ?_, fun ht => ht.bind _ _, fun _ => .refl _, fun _ => hl', ?_⟩
      · rw [Scene.after, Scene.after, hname, hf.signature]
      · intro ht hl K hK
        refine ⟨?_, ?_⟩
        · rw [hname]
          exact ht.full.new hn
        · rw [hname, hf.signature]
          exact hf.sound (hl' hl) K hK
  | .cls d => by
      refine .bind d.check_leads fun d' => .pure ?_
      rintro ⟨-, h⟩
      refine ⟨h.after, fun ht => ht.addClass _, fun ht => ?_, h.lawful, h.sound⟩
      exact Scene.classes_addClass_sub (ht.unclassed (ht.full.new h.info.new))

/-- What checking the declarations of a program one after another finds. -/
theorem checkAll_leads : ∀ (ds : List Decl) {Γ : Scene} {F : Prop},
    Leads F Γ (ds.mapM Decl.check) (Γ.afterAll ds) fun ds' => Γ.Top → Γ.Lawful →
      Γ.classes.Sub (Γ.afterAll ds).classes ∧
      ∀ K, (Γ.afterAll ds).classes.Sub K → Decl.SoundAll K Γ ds'
  | [], Γ, F => by
      rw [List.mapM_nil]
      exact .pure fun _ _ _ => ⟨.refl _, fun _ _ => trivial⟩
  | d :: ds, Γ, F => by
      rw [List.mapM_cons]
      refine .bind d.check_leads fun d' => .bind (checkAll_leads ds) fun ds' => .pure ?_
      rintro ⟨⟨-, hd⟩, hds⟩ ht hl
      obtain ⟨hsub, hs⟩ := hds (hd.top ht) (hd.lawful ht hl)
      refine ⟨(hd.sub ht).trans hsub, fun K hK => ⟨hd.sound ht hl K (hsub.trans hK), ?_⟩⟩
      rw [hd.after]
      exact hs K hK

end Decl

/-! ### The start -/

/-- Checking starts in the scene that has the prelude. -/
theorem Checker.start_at : Checker.start.At Scene.start where
  lt := Nat.lt_succ_self 1
  below i hi := by
    rw [List.mem_singleton.mp hi]
    exact Nat.zero_lt_one
  levels := .one (Forest.binding?_open _) (.one (Forest.binding?_root _) .nil)
  classes := rfl
  inLoop := rfl
  function := rfl

theorem Scene.start_top : Scene.start.Top := ⟨nofun, nofun⟩

/-- The prelude names no class that is not declared. -/
theorem Scene.start_lawful : Scene.start.Lawful where
  names x s h := by
    rw [Scene.means_start, get?_predefined] at h
    obtain ⟨l | b, -, rfl⟩ := Option.map_eq_some_iff.mp h
    · cases l <;> trivial
    · trivial
  classes := nofun

namespace Program

/-- The classes that checking knows of when it has seen the whole program. -/
def classes (p : Program) : Table ClassInfo := ((p.mapM Decl.check).run .start).2.classes

/-- What checking gives, after all declarations have been checked. -/
theorem check_eq (p : Program) : p.check =
    if ((p.mapM Decl.check) Checker.start).2.errors.isEmpty then
      .ok ⟨((p.mapM Decl.check) Checker.start).1,
        ((p.mapM Decl.check) Checker.start).2.warnings.toList⟩
    else .error ((p.mapM Decl.check) Checker.start).2.errors.toList := rfl

/-- What is accepted is given back as checking has left it, and nothing was reported. -/
theorem clean_of_check {p : Program} {checked : Checked} (h : p.check = .ok checked) :
    ((p.mapM Decl.check).run .start).2.errors = #[] ∧
      checked.program = ((p.mapM Decl.check).run .start).1 := by
  rw [check_eq] at h
  split at h
  · rename_i clean
    cases h
    exact ⟨Array.isEmpty_iff.mp clean, rfl⟩
  · cases h

/-- The program is accepted, and what is given back passes a test. -/
def admits (p : Program) (test : Checked → Bool) : Bool :=
  match p.check with
  | .ok checked => test checked
  | .error _    => false

theorem of_admits {p : Program} {test : Checked → Bool} (h : p.admits test = true) :
    ∃ checked, p.check = .ok checked ∧ test checked = true := by
  rw [admits] at h
  split at h
  · exact ⟨_, ‹_›, h⟩
  · cases h

/-- An accepted program is sound. -/
theorem sound_of_check {p : Program} {checked : Checked} (h : p.check = .ok checked) :
    Decl.SoundAll p.classes Scene.start checked.program := by
  obtain ⟨he, hp⟩ := clean_of_check h
  have hd := (Decl.checkAll_leads p (Γ := Scene.start) (F := True)).clean trivial Checker.start
    Checker.start_at he
  rw [hp]
  obtain ⟨-, hs⟩ := hd.2 Scene.start_top Scene.start_lawful
  exact hs p.classes (hd.1.classes ▸ .refl _)

end Program

end Brace
