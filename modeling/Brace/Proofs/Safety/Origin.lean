import Brace.Proofs.Safety.Parts
import Brace.Proofs.Typing.Taken

/-!
# Safety — where the declarations of a program come from

What an accepted program declares has come of what checking has taken up: each declaration at the
place whose scene it has, and each function at a moment of its own. Functions stand in the frame of
the program, and methods in a frame of their class inside that.

* `Program.taken_of_scenes`: where the declarations of an accepted program come from.
* `Program.taken_of_declares`: where its functions and methods come from.
-/

namespace Brace

open Check

variable {c : Checker} {Γ : Scene} {ks : List FrameId}

/-- The scene of a place between the declarations of a program: the frame of the program is the
innermost one, and that of the predefined names is outside it. -/
structure Scene.Global (Γ : Scene) : Prop extends Γ.Top where
  plain : Γ.top.joined = false
  outer : Γ.outer = [⟨predefinedNames, false⟩]

/-- Outside of functions there are the frame of the program and that of predefined names. -/
theorem Scene.Global.levels (h : Γ.Global) :
    Γ.levels = [⟨Γ.top.names, false⟩, ⟨predefinedNames, false⟩] := by
  rw [Scene.levels, h.outer, ← h.plain]

/-- Checking starts outside of functions. -/
theorem Scene.start_global : Scene.start.Global := ⟨Scene.start_top, rfl, rfl⟩

/-- A declaration leaves checking outside of functions. -/
theorem Decl.Found.global {d d' : Decl} (h : d.Found Γ d') (hΓ : Γ.Global) : (Γ.after d).Global where
  toTop := h.top hΓ.toTop
  plain := by
    cases d <;> exact hΓ.plain
  outer := by
    cases d <;> exact hΓ.outer

/-- A declaration of the program has come of one that checking has taken up. -/
theorem Decl.taken_of_scenes {Γ' : Scene} {d' : Decl} : ∀ {ds : List Decl} {c : Checker} {Γ : Scene},
    (ds.mapM Decl.check).Taken c Γ ks → Γ.Global → (Γ', d') ∈ Decl.scenes Γ (ds.mapM Decl.check c).1 →
      ∃ (d : Decl) (c' : Checker), d.check.Taken c' Γ' ks ∧ Γ'.Global ∧ d' = (d.check c').1 ∧
        ∀ a ∈ d.moments c', a ∈ Check.each Decl.check Decl.moments ds c
  | [], c, Γ, _, _, hd => by
      rw [List.mapM_nil] at hd
      cases hd
  | d :: ds, c, Γ, h, hΓ, hd => by
      have later (d : Decl) := (d.check_leads (F := True) (Γ := .start)).later
      obtain ⟨first, found, rest⟩ := h.cons d.check_leads later fun found =>
        found.lawful hΓ.toTop h.lawful
      rw [mapM_apply, Decl.scenes, found.after] at hd
      rcases List.mem_cons.mp hd with e | hd
      · cases e
        exact ⟨d, c, first, hΓ, rfl, fun a ha => List.mem_append_left _ ha⟩
      · obtain ⟨d₁, c', h₁, hΓ', e, le⟩ := taken_of_scenes rest (found.global hΓ) hd
        exact ⟨d₁, c', h₁, hΓ', e, fun a ha => List.mem_append_right _ (le a ha)⟩

namespace Program

/-- Where the functions of a program stand, with the frames of checking: in the frame of the program,
or in the frame that checking has opened for a class. -/
inductive Homes (p : Program) : Scene → List FrameId → Prop where
  | top {Γ : Scene} (h : Γ.Global) : Homes p Γ [1, 0]
  | method {Γ : Scene} {d : ClassDecl} {c : Checker} (superclass : Option ClassInfo) (h : Γ.Global)
      (hm : (c, .cls d) ∈ p.moments) : Homes p (Γ.inClass d.name superclass) [c.scopes.next, 1, 0]

variable {p : Program} {checked : Checked}

/-- A declaration of the checked program is what has been made of one of the program, which checking
has taken up there. -/
theorem taken_of_scenes (h : p.check = .ok checked) {d' : Decl} (hd : (Γ, d') ∈ checked.program.scenes) :
    ∃ (d : Decl) (c : Checker), d.check.Taken c Γ [1, 0] ∧ Γ.Global ∧ d' = (d.check c).1 ∧
      ∀ a ∈ d.moments c, a ∈ p.moments := by
  obtain ⟨clean, e⟩ := clean_of_check h
  have taken : (p.mapM Decl.check).Taken Checker.start Scene.start [1, 0] :=
    ⟨Checker.start_at, Scene.start_lawful, rfl, clean⟩
  rw [scenes, e] at hd
  exact Decl.taken_of_scenes taken Scene.start_global hd

/-- A function or a method of the program has come of one that checking has taken up. -/
theorem taken_of_declares (h : p.check = .ok checked) {f' : FuncDecl}
    (hf : checked.program.Declares Γ f') : ∃ (f : FuncDecl) (c : Checker) (ks : List FrameId),
      p.Homes Γ ks ∧ f.checkBody.Taken c Γ ks ∧ f' = (f.checkBody c).1 ∧
        ∀ a ∈ f.moments c, a ∈ p.moments := by
  obtain ⟨⟨Γ₀, d'⟩, hd, hf⟩ := hf
  obtain ⟨d, c, taken, global, rfl, le⟩ := taken_of_scenes h hd
  have found := (d.check_leads.clean trivial c taken.toAt taken.clean).2
  cases d with
  | var v => cases hf
  | func f =>
      have body (c : Checker) := f.checkBody_later c
      have whole : f.check.Taken c Γ₀ [1, 0] :=
        taken.fst (later_bind (define_leads (F := True) (Γ := .start) ..).later fun _ => body)
          fun _ => later_pure _
      obtain ⟨-, -, inside⟩ := whole.split (define_leads ..) (fun _ => body) fun _ =>
        found.lawful global.toTop taken.lawful
      have e : ((Decl.func f).check c).1 =
        .func (f.checkBody (define f.name (.function f.signature) f.pos c).2).1 := rfl
      have named := f.checkBody_fst (define f.name (.function f.signature) f.pos c).2
      rw [e, Decl.functions, named] at hf
      cases List.mem_singleton.mp hf
      exact ⟨f, _, [1, 0], .top (found.global global), inside, named.symm, le⟩
  | cls d =>
      have whole : d.check.Taken c Γ₀ [1, 0] :=
        taken.fst (d.check_leads (F := True) (Γ := .start)).later fun _ => later_pure _
      obtain ⟨named, methods⟩ := ClassDecl.taken whole global.toTop
      have e : ((Decl.cls d).check c).1 = .cls (d.check c).1 := rfl
      have info := ((d.check_leads.clean trivial c whole.toAt whole.clean).2).info_eq (Γ₀.superOf d)
      rw [named] at info
      rw [e, named, Decl.functions] at hf
      obtain ⟨g, hg, eg⟩ := List.mem_map.mp hf
      cases eg
      obtain ⟨f, c', inside, rfl, le'⟩ := FuncDecl.taken_of_mem methods hg
      have home : p.Homes ((Γ₀.addClass (d.info (Γ₀.superOf d))).inClass d.name (Γ₀.superOf d))
          [(d.announce c).2.scopes.next, 1, 0] := .method _ (found.global global) (le _ (.head _))
      refine ⟨f, c', _, info.symm ▸ home, info.symm ▸ inside, rfl, fun a ha => le a (.tail _ ?_)⟩
      exact le' a ha

end Program

end Brace
