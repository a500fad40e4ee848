import Brace.Proofs.Safety.Contract

/-!
# Safety — names, frames and scopes

What checking knew a name to mean, a run finds bound, to something that the name may stand for; and
a name that checking took for new is new to the frame that it is given to. So reading, assigning
and defining do not fail for want of a name or for one too many.

What runs in a frame of its own, or in another scope, leaves the names of the frames that were there
as they were.
-/

namespace Brace

variable {α β : Type} {P : Plan} {s : Site} {own : Option FrameId} {R : α → Site → Prop}
  {Γ : Scene}

/-- What the world tells of a name, the frames bear out. -/
theorem Site.Framed.nearest (hf : s.Framed P) {x : String} {met : Symbol} :
    ∀ {is : List FrameId}, s.world.resolve x is = some met →
      ∃ i b, s.machine.scopes.nearestIn x is = some (i, b) ∧
        s.machine.scopes.binding? i x = some b ∧ s.world.means i x = some met
  | [], h      => by cases h
  | i :: is, h => by
      rw [World.resolve, List.findSome?_cons] at h
      have hn := hf.names i x
      cases hb : s.machine.scopes.binding? i x with
      | some b =>
          rw [hb] at hn
          obtain ⟨met', hm⟩ := Option.isSome_iff_exists.mp hn.symm
          rw [hm] at h
          cases h
          exact ⟨i, b, by rw [Forest.nearestIn, hb], hb, hm⟩
      | none =>
          rw [hb] at hn
          rw [Option.isNone_iff_eq_none.mp (Option.isSome_eq_false_iff.mp hn.symm)] at h
          obtain ⟨j, b, e, hj⟩ := hf.nearest h
          exact ⟨j, b, by rw [Forest.nearestIn, hb]; exact e, hj⟩

/-- The world tells of every name that is bound. -/
theorem Site.Framed.bound_of_nearest (hf : s.Framed P) {x : String} {i : FrameId}
    {b : Option Value} : ∀ {is : List FrameId}, s.machine.scopes.nearestIn x is = some (i, b) →
      s.machine.scopes.binding? i x = some b ∧ ∃ met, s.world.means i x = some met
  | [], h      => by cases h
  | j :: is, h => by
      rw [Forest.nearestIn] at h
      split at h
      · rename_i b' e
        cases h
        refine ⟨e, Option.isSome_iff_exists.mp ?_⟩
        rw [← hf.names, e]
        rfl
      · exact hf.bound_of_nearest h

/-- A name that checking knew is bound where the run is. -/
theorem Ready.nearest (hr : Ready P Γ s) {x : String} {known : Symbol}
    (hx : Γ.means x = some known) :
    ∃ i b met, s.machine.scopes.nearest? s.machine.here x = some (i, b) ∧
      s.machine.scopes.binding? i x = some b ∧ s.world.means i x = some met ∧
        P.Stands x known met := by
  obtain ⟨met, hm, hs⟩ := hr.sees.means hr.ok.toFramed hx
  obtain ⟨i, b, e, hb, hi⟩ := hr.ok.nearest hm
  exact ⟨i, b, met, e, hb, hi, hs⟩

/-- What a name holds is something that it may hold. -/
theorem Ready.holds (hr : Ready P Γ s) {x : String} {known : Symbol} (hx : Γ.means x = some known)
    {v : Value} (found : s.machine.lookup x = .ok v) :
    v.Ok P s ∧ ∃ met, P.Stands x known met ∧ met.Takes P s.heap v := by
  obtain ⟨i, b, met, e, hb, hm, hs⟩ := hr.nearest hx
  simp only [Machine.lookup, Forest.lookup, e] at found
  cases b with
  | none => cases found
  | some w =>
      cases found
      obtain ⟨hv, ht⟩ := hr.ok.values i x v met hb hm
      exact ⟨hv, met, hs, ht⟩

/-- Where a name is being defined that is new to the frame. -/
theorem Ready.hide (hr : Ready P Γ s) {x : String}
    (missing : s.world.means s.machine.here.frame x = none)
    (hx : P.program.Unreserved → x ≠ "this") : Ready P (Γ.hide x) s where
  ok := hr.ok
  inside := hr.inside
  sees := World.Bears.put hr.sees (fun y => by split <;> simp_all) fun _ _ _ => rfl
  seated hu h := by
    rw [Scene.hide, Scene.means_put_other Γ (hx hu).symm]
    refine hr.seated hu ?_
    by_cases e : "super" = x
    · rw [e, Scene.hide, Scene.means_put_self] at h
      cases h
    · rwa [Scene.hide, Scene.means_put_other Γ e] at h

/-! ### What may be stored by a name -/

/-- The value may be stored by the name, whatever it stands for. -/
structure Plan.Stores (P : Plan) (x : String) (known : Symbol) (h : Heap) (v : Value) : Prop where
  takes   : ∀ met, P.Stands x known met → met.isFixed = false → met.Takes P h v
  firm    : P.program.Firm → ∀ met, P.Stands x known met → met.isDeclared = false
  unfixed : P.program.ScansVariables → known.isFixed = false

/-- A variable takes what is of its type. -/
theorem Plan.Stores.var {x : String} {t : Ty} {h : Heap} {v : Value} (hv : P.Suits h t v) :
    P.Stores x (.var t) h v where
  takes met hs _ := by
    cases hs.eq rfl
    exact hv
  firm _ met hs := by
    cases hs.eq rfl
    rfl
  unfixed _ := rfl

/-- What is fixed lives in the frame of predefined names. -/
theorem Symbol.Lives.fixed {known : Symbol} {i : FrameId} (h : known.Lives i)
    (hf : known.isFixed = true) : i = 0 := by
  cases known <;> first | exact h | cases hf

namespace Eval.Gives

/-! ### Names -/

/-- A change that may be refused is sound if it is so where it is made, and if a run may end where it
is refused. -/
theorem update {p : Position} {check : Machine → Except Cause β} {write : β → Machine → Machine}
    {R : Unit → Site → Prop} (ok : s.Ok P)
    (hok : ∀ b, check s.machine = .ok b →
      ∃ W, s.Reaches P own ⟨W, write b s.machine⟩ ∧ R () ⟨W, write b s.machine⟩)
    (herr : ∀ c, check s.machine = .error c → P.Allows c) :
    (update p check write).Gives P own s R := by
  simp only [Gives, Eval.update]
  split
  · exact ⟨s.world, .refl ok, herr _ ‹_›⟩
  · exact hok _ ‹_›

/-- A name gives what it may hold. -/
theorem lookup (hr : Ready P Γ s) {x : String} {known : Symbol} (hx : Γ.means x = some known)
    (p : Position) : (lookup x p).Gives P own s fun v s' =>
      v.Ok P s' ∧ ∃ met, P.Stands x known met ∧ met.Takes P s'.heap v := by
  refine consult hr.ok p (fun v h => hr.holds hx h) fun c h => ?_
  obtain ⟨i, b, met, e, -⟩ := hr.nearest hx
  simp only [Machine.lookup, Forest.lookup, e] at h
  cases b <;> cases h
  exact .other rfl (by rintro _ ⟨⟩)

/-- A name gets a value that it may hold, whatever it stands for. -/
theorem assign (hr : Ready P Γ s) {x : String} {known : Symbol} (hx : Γ.means x = some known)
    {v : Value} (hv : v.Ok P s) (ht : P.Stores x known s.heap v) (p : Position) :
    (assign x v p).Gives P own s fun _ _ => True := by
  obtain ⟨i, b, met, e, hb, hm, hs⟩ := hr.nearest hx
  have e' : s.machine.scopes.assignable s.machine.here x =
      if i = 0 then .error (.assignToConstant x) else .ok i := by
    simp only [Forest.assignable, e, hr.ok.ice, decide_eq_true_eq]
  refine update hr.ok (fun j h => ?_) fun c h => ?_
  · rw [e'] at h
    split at h <;> cases h
    rename_i hi
    have notFixed : met.isFixed = false := by
      cases hf : met.isFixed with
      | false => rfl
      | true => exact absurd ((hr.ok.lives _ _ _ hm).fixed hf) hi
    have stored : s.Reaches P own ⟨s.world, s.machine.bind i x (some v)⟩ :=
      hr.ok.store hm (fun hF => ht.firm hF met hs) hv (ht.takes met hs notFixed)
    exact ⟨s.world, stored, trivial⟩
  · rw [e'] at h
    split at h <;> cases h
    rename_i hi
    -- Only what is predefined is in a frame that nothing can be stored in.
    refine ⟨fun _ => rfl, fun hv => ?_, by rintro _ ⟨⟩⟩
    have notFixed := ht.unfixed hv
    subst hi
    rw [← hs.eq notFixed, (hr.ok.fixed hm).1] at notFixed
    cases notFixed

end Eval.Gives

namespace Eval.Adds

/-- The innermost frame of a scope gets a name that is new to it. -/
theorem named {k : Handle} (hr : Ready P Γ (s.moved k)) (ho : Open Γ k.frame s) {x : String}
    (hx : Γ.own x = false) (hu : P.program.Unreserved → x ≠ "super") {known : Symbol}
    (top : P.Declares k.frame x known) (lives : known.Lives k.frame) {b : Option Value}
    (hb : ∀ v, b = some v → v.Ok P (s.name k.frame x known b) ∧ known.Takes P s.heap v)
    {p : Position} {check : Machine → Except Cause FrameId}
    (hc : s.machine.scopes.isFrozen k.frame = false →
      s.machine.scopes.binding? k.frame x = none → check s.machine = .ok k.frame) :
    (Eval.update p check fun i m => m.bind i x b).Adds P k.frame s fun _ s' =>
      s'.machine.here = s.machine.here ∧ Ready P (Γ.bind x known) (s'.moved k) ∧
        Open (Γ.bind x known) k.frame s' ∧ s'.machine.scopes.binding? k.frame x = some b := by
  have ok : s.Ok P := hr.ok.moved s.machine.here
  have hn : s.machine.scopes.binding? k.frame x = none := by
    have h := ok.names k.frame x
    rw [ho.own, hx] at h
    exact Option.isNone_iff_eq_none.mp (Option.isSome_eq_false_iff.mp h)
  have melted : s.machine.scopes.isFrozen k.frame = false := by
    rw [ok.ice, decide_eq_false ho.inner]
  have hs := ok.bind (ho.mayName hx top lives) hb
  simp only [Adds, Eval.update, hc melted hn]
  exact ⟨s.world.put k.frame x known, hs, rfl, hr.named hu (hs.ok.moved k), ho.named x known b,
    Forest.binding?_bind_self _ ho.lt x b⟩

/-- Where a frame is open, a name that is new to it may be defined there. -/
theorem defineAt {k : Handle} (hr : Ready P Γ (s.moved k)) (ho : Open Γ k.frame s) {x : String}
    (hx : Γ.own x = false) (hu : P.program.Unreserved → x ≠ "super") {known : Symbol}
    (top : P.Declares k.frame x known) (lives : known.Lives k.frame) {v : Value}
    (hv : v.Ok P (s.name k.frame x known (some v))) (ht : known.Takes P s.heap v) (p : Position) :
    (defineAt k x v p).Adds P k.frame s fun _ s' =>
      s'.machine.here = s.machine.here ∧ Ready P (Γ.bind x known) (s'.moved k) ∧
        Open (Γ.bind x known) k.frame s' ∧
          s'.machine.scopes.binding? k.frame x = some (some v) := by
  refine named hr ho hx hu top lives (fun w e => ?_) fun melted hn => ?_
  · cases e
    exact ⟨hv, ht⟩
  · simp only [Forest.definable, hn, melted, Bool.false_eq_true, if_false]

/-- Where the innermost frame of the current scope has got a name. -/
theorem named_here {x : String} {known : Symbol} {b : Option Value} {f : Eval Unit}
    (h : f.Adds P s.machine.here.frame s fun _ s' => s'.machine.here = s.machine.here ∧
      Ready P (Γ.bind x known) (s'.moved s.machine.here) ∧
        Open (Γ.bind x known) s.machine.here.frame s' ∧
          s'.machine.scopes.binding? s.machine.here.frame x = some b) :
    f.Adds P s.machine.here.frame s fun _ s' => Ready P (Γ.bind x known) s' ∧
      Open (Γ.bind x known) s'.machine.here.frame s' ∧
        s'.machine.scopes.binding? s'.machine.here.frame x = some b := by
  refine h.mono ?_
  rintro _ s' _ ⟨e, hr, ho, hb⟩
  rw [← e] at hr ho hb
  exact ⟨hr, ho, hb⟩

/-- In the current frame, a name that is new to it may be defined. -/
theorem define (hr : Ready P Γ s) (ho : Open Γ s.machine.here.frame s) {x : String}
    (hx : Γ.own x = false) (hu : P.program.Unreserved → x ≠ "super") {known : Symbol}
    (top : P.Declares s.machine.here.frame x known) (lives : known.Lives s.machine.here.frame)
    {v : Value} (hv : v.Ok P (s.name s.machine.here.frame x known (some v)))
    (ht : known.Takes P s.heap v) (p : Position) :
    (define x v p).Adds P s.machine.here.frame s fun _ s' =>
      Ready P (Γ.bind x known) s' ∧ Open (Γ.bind x known) s'.machine.here.frame s' ∧
        s'.machine.scopes.binding? s'.machine.here.frame x = some (some v) :=
  named_here (defineAt (k := s.machine.here) hr ho hx hu top lives hv ht p)

/-- In the current frame, a name that is new to it may be declared. -/
theorem declare (hr : Ready P Γ s) (ho : Open Γ s.machine.here.frame s) {x : String}
    (hx : Γ.own x = false) (hu : P.program.Unreserved → x ≠ "super") {known : Symbol}
    (top : P.Declares s.machine.here.frame x known) (lives : known.Lives s.machine.here.frame)
    (p : Position) : (declare x p).Adds P s.machine.here.frame s fun _ s' =>
      Ready P (Γ.bind x known) s' ∧ Open (Γ.bind x known) s'.machine.here.frame s' ∧
        s'.machine.scopes.binding? s'.machine.here.frame x = some none :=
  named_here <| named (k := s.machine.here) (b := none) hr ho hx hu top lives nofun fun _ hn => by
    simp only [Forest.declarable, hn]

end Eval.Adds

namespace Eval.Gives

/-! ### What is put back on the way out -/

/-- What is done elsewhere is done with everything as it should be, and the run comes back. -/
theorem inScope {k : Handle} (hR : P.Stable R) {x : Eval α}
    (hx : x.Gives P own (s.moved k) R) : (inScope k x).Gives P own s R := by
  have moved : s.Stays P own (s.moved k) := .on rfl (.refl _)
  refine Progress.Meets.andThen (Progress.Meets.mono ?_ (since moved hx))
  rintro r m ⟨W, h, hr⟩
  have ok' : Site.Ok P ⟨W, { m with here := s.machine.here }⟩ := h.ok.moved s.machine.here
  refine ⟨W, ⟨⟨?_, rfl, h.later.others⟩, h.steady, ok'⟩, ?_⟩
  · exact (Site.Grown.moved s k).trans (h.later.toGrown.trans (.moved _ _))
  · cases r with
    | ok a => exact hR a _ _ (.moved _ _) h.ok ok' hr
    | error e => exact hr

/-- What is done one call deeper is done with everything as it should be. -/
theorem counted (ok : s.Ok P) (hR : P.Stable R) (p : Position) {x : Eval α}
    (hx : x.Gives P own
      ⟨s.world, { s.machine with callDepth := s.machine.callDepth + 1 }⟩ R) :
    (counted p x).Gives P own s R := by
  simp only [Gives, Eval.counted]
  split
  · have deeper : s.Stays P own ⟨s.world, { s.machine with callDepth := s.machine.callDepth + 1 }⟩ :=
      .on rfl (.refl _)
    refine Progress.Meets.andThen (Progress.Meets.mono ?_ (since deeper hx))
    rintro r m ⟨W, h, hr⟩
    have ok' : Site.Ok P ⟨W, { m with callDepth := m.callDepth - 1 }⟩ := h.ok.same rfl rfl rfl
    have grown : Site.Grown ⟨W, m⟩ ⟨W, { m with callDepth := m.callDepth - 1 }⟩ :=
      .on rfl (.refl _)
    have entered :
        s.Grown ⟨s.world, { s.machine with callDepth := s.machine.callDepth + 1 }⟩ :=
      .on rfl (.refl _)
    refine ⟨W, ⟨⟨?_, h.later.here, h.later.others⟩, h.steady, ok'⟩, ?_⟩
    · exact entered.trans (h.later.toGrown.trans grown)
    · cases r with
      | ok a => exact hR a _ _ grown h.ok ok' hr
      | error e => exact hr
  · exact ⟨s.world, .refl ok, .other rfl (by rintro _ ⟨⟩)⟩

/-- That a failure is given another place makes no difference to what is kept. -/
theorem orAt (p : Position) {x : Eval α} (hx : x.Gives P own s R) :
    (orAt p x).Gives P own s R := by
  refine Progress.Meets.andThen (Progress.Meets.mono ?_ hx)
  rintro r m ⟨W, h, hr⟩
  refine ⟨W, h, ?_⟩
  cases r with
  | ok a => exact hr
  | error e => exact hr

/-- In a frame of its own. -/
theorem inBlock (hr₀ : Ready P Γ s) (hR : P.Stable R) (p : Position) {x : Eval α}
    (hx : ∀ s', Ready P Γ.enter s' → Open Γ.enter s'.machine.here.frame s' →
      1 < s'.machine.here.frame → x.Gives P (some s'.machine.here.frame) s' R) :
    (inBlock p x).Gives P own s R := by
  have opened : s.Reaches P none ⟨s.world, (s.machine.openFrame s.machine.here).2⟩ :=
    hr₀.ok.openFrame (hr₀.inside _ List.mem_cons_self)
  obtain ⟨hr', ho⟩ := hr₀.ok.openFrame_ready hr₀.inside hr₀.sees hr₀.seated
  have entered := opened.stays.trans (.on (m := s.machine.pushScope) rfl (.refl _))
  have inside := since entered.weaken (hx _ hr' ho hr₀.ok.size)
  have outside : (x s.machine.pushScope).Meets (P.since own s) _ :=
    inside.having_mono fun _ _ h => (h.forget (Nat.le_refl s.next)).weaken
  refine Progress.Meets.andThen (Progress.Meets.mono ?_ outside)
  rintro r m ⟨W, h, hr⟩
  have e : m.popScope = .ok { m with here := s.machine.here } := by
    have hk : m.here = (s.machine.scopes.push s.machine.here).2 := h.later.here
    rw [Machine.popScope, hk, Forest.pop_of_grown h.later.scopes]
  have ok' : Site.Ok P ⟨W, { m with here := s.machine.here }⟩ := h.ok.moved s.machine.here
  have back : Site.Reaches P (some s.next) ⟨s.world, (s.machine.openFrame s.machine.here).2⟩
      ⟨W, { m with here := s.machine.here }⟩ :=
    ⟨⟨(Site.Grown.moved ..).trans (h.later.toGrown.trans (.moved _ _)), rfl, h.later.others⟩,
      h.steady, ok'⟩
  simp only [e]
  refine ⟨W, (opened.forget (Nat.le_refl _) back).weaken, ?_⟩
  cases r with
  | ok a => exact hR a _ _ (.moved _ _) h.ok ok' hr
  | error e => exact hr

end Eval.Gives

end Brace
