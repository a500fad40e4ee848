import Brace.Eval.Program
import Brace.Proofs.Safety.Call
import Brace.Proofs.Typing.Program

/-!
# Safety — declarations and programs

A program runs in one open frame inside that of predefined names. Its declarations give names to
that frame one after another, just as they did in checking, so each of them runs where the scene is
the one that it was checked in. A function carries that frame along, and sees the names that come
later; a class carries it along with its superclass bound inside.

* `Decl.adds_run`: what a declaration does to the frame of the program.
* `Program.gives_run`: a run of a sound program keeps the contract from its start to its end.
-/

namespace Brace

open Eval

variable {P : Plan} {s : Site} {Γ : Scene}

/-- The run is between two declarations of the program. -/
structure Top (P : Plan) (Γ : Scene) (s : Site) : Prop where
  ready : Ready P Γ s
  names : Open Γ 1 s
  here  : s.machine.here.frame = 1

namespace Top

/-- Between declarations, a run sees the frame of the program and that of predefined names. -/
theorem chain (h : Top P Γ s) : s.chain s.machine.here = [1, 0] := by
  rw [Site.chain, Forest.chain, h.here, h.ready.ok.base]

/-- The scope of the program is rooted. -/
theorem rooted (h : Top P Γ s) : s.Rooted s.machine.here := ⟨[], h.chain, nofun⟩

/-- When a declaration has been run, the next one may be. -/
theorem later {s' : Site} (h : Top P Γ s) (hs : s.Reaches P none s') : Top P Γ s' where
  ready := h.ready.later hs.later hs.ok
  names := h.names.later hs.later
  here := (congrArg Handle.frame hs.later.here).trans h.here

/-- In the same scope, the frame of the program has got a name. -/
theorem added {s' : Site} {own : Option FrameId} {Γ' : Scene} (h : Top P Γ s)
    (hs : s.Reaches P own s') (hr : Ready P Γ' s') (ho : Open Γ' s'.machine.here.frame s') :
    Top P Γ' s' := by
  have here : s'.machine.here.frame = 1 := (congrArg Handle.frame hs.later.here).trans h.here
  exact ⟨hr, here ▸ ho, here⟩

/-- The program's frame gets a name that a declaration gives. -/
theorem define (h : Top P Γ s) {d : Decl} (hd : d ∈ P.program)
    (hname : .name d.name ∈ P.program.parts) (hx : Γ.own d.name = false) {known : Symbol}
    (makes : d.Makes known) (lives : known.Lives 1) {v : Value}
    (hv : v.Ok P (s.name 1 d.name known (some v))) (ht : known.Takes P s.heap v) (p : Position) :
    (Eval.define d.name v p).Adds P 1 s fun _ s' =>
      Top P (Γ.bind d.name known) s' ∧
        s'.machine.scopes.binding? 1 d.name = some (some v) := by
  have defined := Adds.define h.ready (h.here.symm ▸ h.names) hx (fun hu => (hu _ hname).2)
    (fun _ => ⟨d, hd, rfl, makes⟩) (h.here.symm ▸ lives) (h.here.symm ▸ hv) ht p
  rw [h.here] at defined
  refine defined.mono fun _ _ hs ⟨hr, ho, hb⟩ => ?_
  have top := h.added hs hr ho
  exact ⟨top, top.here ▸ hb⟩

end Top

/-- It is a function or a class. -/
def Decl.defines : Decl → Bool
  | .var _ => false
  | _      => true

/-- The declaration has been run. If it is of a function or a class, that is what its name holds. -/
structure Decl.Left (P : Plan) (Γ : Scene) (d : Decl) (s : Site) : Prop where
  top   : Top P (Γ.after d) s
  holds : d.defines = true → ∃ v, s.machine.scopes.binding? 1 d.name = some (some v)

/-! ### Functions -/

/-- A function sees the frame of the program, with its own name in it. -/
theorem Eval.Adds.defineFunction (h : Top P Γ s) {f : FuncDecl} (hd : .func f ∈ P.program)
    (hs : (Decl.func f).Sound P.classes Γ) (hc : (Γ, .func f) ∈ P.program.scenes) :
    (defineFunction f).Adds P 1 s fun _ s' => (Decl.func f).Left P Γ s' := by
  obtain ⟨hx, hf⟩ := hs
  have hname := (Plan.Covers.decl hc).name List.mem_cons_self
  have made : s.Reaches P none ⟨s.world, (s.machine.newClosure f s.machine.here).2⟩ :=
    .same h.ready.ok rfl rfl rfl rfl
  refine .after
    (.make (R := fun g s₁ => g.decl = f ∧ g.scope = s₁.machine.here) made ⟨rfl, rfl⟩) ?_
  rintro g s₁ h₁ ⟨rfl, hscope⟩
  have top₁ := h.later h₁
  have framed := top₁.ready.ok.toFramed
  have may : Site.MayName P s₁ 1 g.decl.name (.function g.decl.signature) :=
    top₁.names.mayName hx (fun _ => ⟨_, hd, rfl, rfl⟩) rfl
  have fit : g.Ok P (s₁.name 1 g.decl.name (.function g.decl.signature) (some (.function g))) := by
    refine ⟨Γ.bind g.decl.name (.function g.decl.signature), ⟨?_, ?_, fun hu => ?_⟩, hf,
      _, hc, List.mem_singleton_self _⟩
    · exact hscope ▸ top₁.rooted.grown (.name may _) framed
    · have seen := top₁.ready.sees.named framed g.decl.name (.function g.decl.signature)
        (some (.function g))
      have e := (Site.Grown.name may (some (.function g))).chain (k := s₁.machine.here)
        (top₁.rooted.lt framed)
      rw [top₁.here] at seen
      rw [hscope]
      exact e ▸ seen
    · exact (top₁.ready.seated hu).bind (hu _ hname).2 _
  have takes : (Symbol.function g.decl.signature).Takes P s₁.heap (.function g) := fun _ =>
    ⟨g, rfl, hd, rfl⟩
  exact (top₁.define (d := .func g.decl) hd hname hx rfl rfl (v := .function g) fit takes
    g.decl.pos).mono fun _ _ _ h => ⟨h.1, fun _ => ⟨_, h.2⟩⟩

/-! ### Classes -/

/-- A class that is inherited is what checking has found it to be. -/
def Plan.Inherits (P : Plan) (s : Site) : Option Class → Option ClassInfo → Prop
  | some c, some info => c.Ok P s ∧ c.Mirrors info
  | none, none        => True
  | _, _              => False

/-- From the scope, the frame of the program is seen, and that of the superclass before it. -/
structure Plan.MethodScope (P : Plan) (scope : Handle) (superclass : Option ClassInfo) (s : Site) :
    Prop where
  rooted : s.Rooted scope
  sees   : ∀ s', s.Grown s' → s'.Framed P → ∀ Γ : Scene, s'.Sees [1, 0] Γ →
    s'.Sees (s'.chain scope) (Γ.belowSuper superclass)

namespace Plan.Inherits

variable {c : Option Class} {known : Option ClassInfo}

/-- A declared class is what checking has found it to be, if the one that it inherits from is. -/
theorem mirrors (h : P.Inherits s c known) (d : ClassDecl) (id : Nat) (scope : Handle) :
    Class.Mirrors ⟨⟨id, d.name, d.methods, scope⟩, inheritedTiers c⟩ (d.info known) := by
  refine .cons ⟨rfl, fun x => d.own_methods known x⟩ ?_
  cases c with
  | none =>
      cases known with
      | none => exact .nil
      | some info => exact h.elim
  | some c =>
      cases known with
      | none => exact h.elim
      | some info => exact h.2

/-- The tiers of the superclass are as checking knows them, also later on. -/
theorem tiers {s' : Site} (hg : s.Grown s') (hf : s.Framed P) (hf' : s'.Framed P)
    (h : P.Inherits s c known) : ∀ t ∈ inheritedTiers c, t.Ok P s' := by
  cases c with
  | none => nofun
  | some c =>
      cases known with
      | none => exact h.elim
      | some info => exact (Class.Ok.grown hg hf hf' h.1).tiers

end Plan.Inherits

namespace Eval.Gives

/-- The superclass is found that checking has found. -/
theorem superclassOf (h : Top P Γ s) {d : ClassDecl} (hs : d.Sound P.classes Γ) :
    (superclassOf d).Gives P none s fun c s' => P.Inherits s' c (Γ.superOf d) := by
  rw [Eval.superclassOf, Scene.superOf]
  cases e : d.superclass with
  | none => exact pure h.ready.ok trivial
  | some x =>
      obtain ⟨info, hx⟩ := hs.superclass x e
      simp only [hx]
      have found : (lookupClass x d.pos).Gives P none s fun c s' =>
          c.Ok P s' ∧ c.Mirrors info := by
        refine bind (lookup h.ready hx d.pos) ?_
        rintro v s₁ h₁ ⟨hv, met, hm, htakes⟩
        cases hm.eq rfl
        cases v with
        | cls c => exact pure h₁.ok ⟨hv, htakes.1 c rfl⟩
        | _ =>
            refine fail_other h₁.ok _ rfl ?_
            rintro reason ⟨⟩
            refine ⟨not_escaped (c := 's') (by simp) (by decide), fun hS _ => ?_⟩
            obtain ⟨c, hc⟩ := htakes.2 (.inr hS)
            cases hc
      exact bind found fun c s₁ h₁ hc => pure h₁.ok hc

/-- The methods of a class get a scope in which they see what checking saw there. -/
theorem methodScope (h : Top P Γ s) {superclass : Option Class} {known : Option ClassInfo}
    (hc : P.Inherits s superclass known) :
    (methodScope superclass).Gives P none s fun scope s' => P.MethodScope scope known s' := by
  have lt := h.rooted.lt h.ready.ok.toFramed
  cases superclass with
  | none =>
      cases known with
      | some info => exact hc.elim
      | none =>
          refine view h.ready.ok _ ⟨h.rooted, fun s' hg _ Γ' hs => ?_⟩
          rw [hg.chain lt, h.chain]
          exact hs
  | some c =>
      cases known with
      | none => exact hc.elim
      | some info =>
          obtain ⟨hok, hm⟩ := hc
          have takes : (Symbol.cls info).Takes P s.heap (.cls c) :=
            ⟨fun c' e => by cases e; exact hm, fun _ => ⟨c, rfl⟩⟩
          have framed : s.Reaches P none
              ⟨(s.frameWith s.machine.here "super" (.cls info) (.cls c)).world,
                (s.machine.superFrame c).2⟩ :=
            h.ready.ok.frameWith lt trivial (v := .cls c) hok takes
          have rooted : (s.frameWith s.machine.here "super" (.cls info) (.cls c)).Rooted
              (s.machine.openFrame s.machine.here).1 := h.rooted.frameWith
          refine make (f := (·.superFrame c)) framed ⟨rooted, fun s' hg _ Γ' hs => ?_⟩
          refine .frameWith h.ready.ok.toFramed hg ?_
          rw [h.chain]
          exact hs

/-- A new number is no change to the site. -/
theorem newId (ok : s.Ok P) : newId.Gives P none s fun _ _ => True := by
  have made : s.Reaches P none
      ⟨s.world, { s.machine with heap := s.machine.heap.newId.2 }⟩ := .same ok rfl rfl rfl rfl
  exact make made trivial

end Eval.Gives

/-- A class is what checking has found it to be. -/
theorem Eval.Adds.defineClass (h : Top P Γ s) {d : ClassDecl} (hd : .cls d ∈ P.program)
    (hs : d.Sound P.classes Γ) (hplace : (Γ, .cls d) ∈ P.program.scenes) :
    (defineClass d).Adds P 1 s fun _ s' => (Decl.cls d).Left P Γ s' := by
  have hname := (Plan.Covers.decl hplace).name List.mem_cons_self
  refine .after (Gives.superclassOf h hs) fun superclass s₁ h₁ hc => ?_
  have top₁ := h.later h₁
  refine .after (Gives.methodScope top₁ hc) fun scope s₂ h₂ hscope => ?_
  have top₂ := top₁.later h₂
  refine .after (Gives.newId top₂.ready.ok) fun id s₃ h₃ _ => ?_
  have top₃ := top₂.later h₃
  -- The class, and the site in which its name stands for it.
  let info : ClassInfo := d.info (Γ.superOf d)
  let c : Class := ⟨⟨id, d.name, d.methods, scope⟩, inheritedTiers superclass⟩
  let s₄ : Site := s₃.name 1 d.name (.cls info) (some (.cls c))
  have may : Site.MayName P s₃ 1 d.name (.cls info) :=
    top₃.names.mayName hs.new (fun _ => ⟨_, hd, rfl, _, rfl⟩) trivial
  have hf₄ : s₄.Framed P := top₃.ready.ok.toFramed.name may _
  have h₂₄ : s₂.Grown s₄ := h₃.later.toGrown.trans (.name may _)
  have mirrors : c.Mirrors info := hc.mirrors d id scope
  have seen : s₄.Sees [1, 0] (Γ.addClass info) := by
    have seen := top₃.ready.sees.named top₃.ready.ok.toFramed d.name (.cls info) (some (.cls c))
    rw [top₃.here, top₃.chain] at seen
    exact seen
  have fit : (Value.cls c).Ok P s₄ := by
    refine ⟨List.forall_mem_cons.mpr ⟨?_, ?_⟩, info, hs.declared, mirrors⟩
    · refine ⟨(Γ.addClass info).belowSuper (Γ.superOf d), .object d.name, (Γ.superOf d).isSome,
        hscope.rooted.grown h₂₄ top₂.ready.ok.toFramed, hscope.sees s₄ h₂₄ hf₄ _ seen,
        fun f hm => ⟨hs.methods f hm, _, hplace, List.mem_map_of_mem hm⟩⟩
    · exact hc.tiers (h₂.later.toGrown.trans h₂₄) h₁.ok.toFramed hf₄
  have takes : (Symbol.cls info).Takes P s₃.heap (.cls c) :=
    ⟨fun c' e => by cases e; exact mirrors, fun _ => ⟨c, rfl⟩⟩
  refine (top₃.define (d := .cls d) hd hname hs.new ⟨_, rfl⟩ trivial fit takes d.pos).mono ?_
  rintro _ s' _ ⟨⟨hr, ho, here⟩, hb⟩
  exact ⟨⟨⟨hr.ok, hr.inside, hr.sees, hr.seated⟩, ⟨ho.lt, ho.inner, ho.shut, ho.own⟩, here⟩,
    fun _ => ⟨_, hb⟩⟩

/-! ### Programs -/

/-- A declaration is run where the scene is the one that it was checked in. -/
theorem Decl.adds_run (h : Top P Γ s) {d : Decl} (hd : d ∈ P.program) (hs : d.Sound P.classes Γ)
    (hc : (Γ, d) ∈ P.program.scenes) :
    d.run.Adds P 1 s fun _ s' => d.Left P Γ s' := by
  cases d with
  | var v =>
      have declared := v.adds_run h.ready (h.here.symm ▸ h.names) hs (.decl hc)
        fun _ => ⟨_, hd, rfl, rfl⟩
      rw [h.here] at declared
      exact declared.mono fun _ _ hs ⟨hr, ho⟩ => ⟨h.added hs hr ho, nofun⟩
  | func f => exact .defineFunction h hd hs hc
  | cls d => exact .defineClass h hd hs hc

namespace Eval.Gives

/-- Declarations are run one after another, each where checking has seen those before it. -/
theorem decls : ∀ {ds : List Decl} {Γ : Scene} {s : Site}, Top P Γ s → (∀ d ∈ ds, d ∈ P.program) →
    Decl.SoundAll P.classes Γ ds → (∀ a ∈ Decl.scenes Γ ds, a ∈ P.program.scenes) →
      (ds.forM Decl.run).Gives P (some 1) s fun _ s' => Top P (Γ.afterAll ds) s'
  | [], _, _, h, _, _, _ => pure h.ready.ok h
  | d :: ds, Γ, s, h, hd, hs, hc => by
      obtain ⟨hd, hds⟩ := List.forall_mem_cons.mp hd
      obtain ⟨hc, hcs⟩ := List.forall_mem_cons.mp hc
      exact bind_own (d.adds_run h hd hs.1 hc).gives fun _ s₁ _ left =>
        decls left.top hds hs.2 hcs

/-- A result is shown, if results are shown at all. -/
theorem echo (ok : s.Ok P) {v : Value} (hv : v.Ok P s) :
    (echo v).Gives P none s fun _ _ => True := by
  have shown : (Eval.view (·.settings.echoReturn)).Gives P none s fun _ s' => v.Ok P s' :=
    view ok _ hv
  refine bind shown fun shown s₁ h₁ hv₁ => ?_
  split
  · refine bind (textOf h₁.ok hv₁) fun text s₂ h₂ _ => ?_
    have printed : s₂.Reaches P none ⟨s₂.world, s₂.machine.printLine ("Return: " ++ text)⟩ :=
      .same h₂.ok rfl rfl rfl rfl
    exact change printed trivial
  · exact pure h₁.ok trivial

end Eval.Gives

namespace Scene

variable {K : Table ClassInfo} {x : String}

/-- A declaration gives its name a meaning. -/
theorem means_after_name (Γ : Scene) (d : Decl) :
    ∃ known, (Γ.after d).means d.name = some known ∧ d.Makes known := by
  cases d with
  | cls d => exact ⟨_, means_put_self .., _, rfl⟩
  | _ => exact ⟨_, means_put_self .., rfl⟩

/-- A declaration gives meaning to one name. -/
theorem means_after_other (Γ : Scene) {d : Decl} (ne : x ≠ d.name) :
    (Γ.after d).means x = Γ.means x := by
  cases d <;> exact means_put_other Γ ne _

/-- A declaration gives the frame of the program one name. -/
theorem own_after (Γ : Scene) (d : Decl) (x : String) :
    (Γ.after d).own x = (x == d.name || Γ.own x) := by
  cases d <;> exact own_put Γ _ x _

end Scene

/-- What is declared is new to the frame of the program. -/
theorem Decl.Sound.new {K : Table ClassInfo} {d : Decl} (h : d.Sound K Γ) :
    Γ.own d.name = false := by
  cases d with
  | cls d => exact ClassDecl.Sound.new h
  | _ => exact h.1

namespace Decl.SoundAll

variable {K : Table ClassInfo} {x : String}

/-- What has been declared is declared no more. -/
theorem ne_name : ∀ {ds : List Decl} {Γ : Scene}, Decl.SoundAll K Γ ds → Γ.own x = true →
    ∀ d ∈ ds, x ≠ d.name
  | d :: ds, Γ, h, hx, d', hd => by
      rcases List.mem_cons.mp hd with rfl | hd
      · rintro rfl
        rw [h.1.new] at hx
        cases hx
      · refine ne_name h.2 ?_ d' hd
        rw [Scene.own_after, hx, Bool.or_true]

/-- So it keeps its meaning. -/
theorem means_of_own : ∀ {ds : List Decl} {Γ : Scene}, Decl.SoundAll K Γ ds → Γ.own x = true →
    (Γ.afterAll ds).means x = Γ.means x
  | [], _, _, _ => rfl
  | d :: ds, Γ, h, hx => by
      have hx' : (Γ.after d).own x = true := by rw [Scene.own_after, hx, Bool.or_true]
      exact (means_of_own h.2 hx').trans
        (Scene.means_after_other Γ (ne_name h hx d List.mem_cons_self))

/-- When all of a program has been declared, each name means what its declaration makes of it. -/
theorem means : ∀ {ds : List Decl} {Γ : Scene}, Decl.SoundAll K Γ ds → ∀ d ∈ ds,
    ∃ known, (Γ.afterAll ds).means d.name = some known ∧ d.Makes known
  | d :: ds, Γ, h, d', hd => by
      rcases List.mem_cons.mp hd with rfl | hd
      · obtain ⟨known, hk, hm⟩ := Scene.means_after_name Γ d'
        exact ⟨known, (means_of_own h.2 (by rw [Scene.own_after, beq_self_eq_true,
          Bool.true_or])).trans hk, hm⟩
      · exact means h.2 d' hd

end Decl.SoundAll

/-- A function of this name is declared in the program. -/
theorem Program.mem_of_function? {p : Program} {x : String} {f : FuncDecl}
    (e : p.function? x = some f) : .func f ∈ p ∧ f.name = x := by
  obtain ⟨d, hd, e⟩ := List.exists_of_findSome?_eq_some e
  split at e
  · split at e <;> cases e
    exact ⟨hd, ‹_›⟩
  · cases e

/-- What a program does when all of it has been declared. -/
theorem Program.gives_main (h : Top P (Scene.start.afterAll P.program) s)
    (hs : Decl.SoundAll P.classes Scene.start P.program) {main : FuncDecl}
    (e : Program.function? P.program "main" = some main) :
    (do
      let entry ← lookup "main" main.pos
      let v ← ask (.apply entry [] main.pos)
      echo v
      pure v : Eval Value).Gives P none s fun v s' => v.Ok P s' := by
  obtain ⟨hm, hname⟩ := Program.mem_of_function? e
  obtain ⟨known, hx, rfl⟩ := hs.means _ hm
  have hx : (Scene.start.afterAll P.program).means "main" = some (.function main.signature) := by
    rw [← hname]
    exact hx
  refine .bind (.lookup h.ready hx main.pos) ?_
  rintro entry s₂ h₂ ⟨hv, met, hstands, takes⟩
  cases hstands.eq rfl
  have calls : P.Asks Scene.start (.apply entry [] main.pos) s₂ := by
    refine ⟨h₂.ok, hv, by simp, by simp, fun c hc hS => ?_⟩
    obtain ⟨f, hf, -⟩ := takes (.inr hS)
    cases hc.symm.trans hf
  refine .bind (.ask calls) ?_
  rintro v s₃ h₃ ⟨hv, _⟩
  refine .bind (.echo h₃.ok hv) fun _ s₄ h₄ _ => .pure h₄.ok ?_
  exact hv.grown h₄.later.toGrown h₃.ok.toFramed h₄.ok.toFramed

/-- A program is run in the frame that it starts in, and gives something that is fit for the run. -/
theorem Program.gives_run (h : Top P Scene.start s)
    (hs : Decl.SoundAll P.classes Scene.start P.program) :
    (Program.run P.program).Gives P (some 1) s fun v s' => v.Ok P s' := by
  rw [Program.run]
  split
  · exact .fail_other h.ready.ok _ rfl (by rintro _ ⟨⟩)
  · split
    · exact .bind_own (.decls h (fun _ hd => hd) hs fun _ ha => ha) fun _ _ _ top =>
        (gives_main top hs ‹_›).weaken
    · exact .fail_other h.ready.ok _ rfl (by rintro _ ⟨⟩)

end Brace
