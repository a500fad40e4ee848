import Brace.Proofs.Safety.Points
import Brace.Proofs.Safety.Start

/-!
# Safety — scopes of a run follow those of checking

Checking opens one frame for each block, `for` loop, function and class of a program, and a run
opens one each time that it comes to such a construct. So a frame of checking may have many frames of
a run that are like it (`Program.Alike`), and those that a run sees from a point are like the ones
that checking sees there, one for one, with the same names (`Program.Follows`). There are two
exceptions. The frame of the program goes on to get names while checking has long been past a point;
and where checking has one frame for the receiver and the superclass of methods, a run has two.

* `Follows.resolves`: a name is found in a frame like the one in which checking has found it, unless
  it was predefined and has been taken.
-/

namespace Brace

open Check

variable {p : Program} {checked : Checked} {m₀ : Machine}

/-! ### Frames that are alike -/

/-- What the name is bound to in the second frame is what it was bound to in the first: both are
frames of predefined names, or of the program, or have been opened for one construct. A receiver and
its superclass are bound where a method is taken from its class. -/
inductive Program.Same (p : Program) (checked : Checked) (m₀ : Machine) (x : String) :
    FrameId → FrameId → Prop where
  | predefined : Same p checked m₀ x 0 0
  | top : Same p checked m₀ x 1 1
  | inner {k i : FrameId} (h : p.Alike checked m₀ k i) : Same p checked m₀ x k i
  | receiver {c : Checker} {d : ClassDecl} (taken : (c, .cls d) ∈ p.moments)
      (hx : x = "this" ∨ x = "super") (i : FrameId) : Same p checked m₀ x c.scopes.next i

/-- No function is declared there. -/
def Names.Functionless (F : Names) : Prop := ∀ x sig, F x ≠ some (some (.function sig))

/-- These frames of a run are like those of checking, which have the names of these levels. The inner
ones have been opened for one construct, each for its own, and a function sees the others. -/
inductive Program.Follows (p : Program) (checked : Checked) (m₀ : Machine) (s : Forest Value) :
    List Level → List FrameId → List FrameId → Prop where
  | outside {Ls : List Level} {ks is : List FrameId} (h : p.Outside checked s Ls ks is) :
      Follows p checked m₀ s Ls ks is
  | inner {F : Names} {Ls : List Level} {k i : FrameId} {ks is : List FrameId}
      (alike : p.Alike checked m₀ k i) (has : s.Has i F) (plain : F.Functionless)
      (hs : Follows p checked m₀ s Ls ks is) :
      Follows p checked m₀ s (⟨F, false⟩ :: Ls) (k :: ks) (i :: is)

/-! ### What frames have -/

/-- Whether a frame has names is a matter of what is bound in it, not of what it is bound to. -/
theorem Forest.Has.congr {s s' : Forest Value} {i : FrameId} {F : Names} (h : s.Has i F)
    (e : ∀ x, (s'.binding? i x).isSome = (s.binding? i x).isSome) : s'.Has i F :=
  fun x => (e x).trans (h x)

/-- A name with a meaning is in the frame. -/
theorem Forest.Has.bound {s : Forest Value} {i : FrameId} {F : Names} (h : s.Has i F) {x : String}
    {known : Symbol} (hx : F x = some (some known)) : ∃ b, s.binding? i x = some b := by
  have bound := h x
  rw [hx] at bound
  exact Option.isSome_iff_exists.mp bound

/-- A name that checking does not have in its frame is not in the frame. -/
theorem Forest.Has.missing {s : Forest Value} {i : FrameId} {F : Names} (h : s.Has i F) {x : String}
    (hx : F x = none) : s.binding? i x = none := by
  have missing := h x
  rw [hx] at missing
  exact Option.isNone_iff_eq_none.mp (Option.isSome_eq_false_iff.mp missing)

/-- Where there are no names, there are no functions. -/
theorem Names.functionless_empty : Names.empty.Functionless := fun _ _ => nofun

/-- A name for something else makes no function known. -/
theorem Names.Functionless.put {F : Names} (h : F.Functionless) (x : String) {b : Option Symbol}
    (hb : ∀ sig, b ≠ some (.function sig)) : (F.put x b).Functionless := by
  intro y sig e
  rw [Names.put] at e
  split at e
  · exact hb sig (Option.some.inj e)
  · exact h y sig e

/-- A frame with one name has no other. -/
theorem Names.of_put_empty {x y : String} {b : Option Symbol} {known : Symbol}
    (h : Names.empty.put x b y = some (some known)) : y = x ∧ b = some known := by
  rw [Names.put] at h
  split at h
  · exact ⟨‹_›, Option.some.inj h⟩
  · cases h

/-- What is predefined is fixed. -/
theorem Scene.fixed_of_predefined {x : String} {known : Symbol}
    (h : predefinedNames x = some (some known)) :
    known.isFixed = true ∧ (predefined? x).isSome = true := by
  rw [predefinedNames, get?_predefined] at h
  simp only [Option.map_map, Option.map_eq_some_iff] at h
  obtain ⟨r, hr, e⟩ := h
  cases e
  rw [hr]
  cases r <;> exact ⟨rfl, rfl⟩

/-! ### What is a matter of names alone -/

section

variable {s s' : Forest Value} {Ls : List Level} {ks is : List FrameId}

/-- What the frame of the program has is a matter of what is bound in it. -/
theorem Forest.Grounds.congr {q : Program} {T : Names} (h : s.Grounds q T)
    (e : ∀ i ∈ [1, 0], ∀ x, (s'.binding? i x).isSome = (s.binding? i x).isSome) : s'.Grounds q T where
  top x known hx := by
    rw [e 1 (.head _) x]
    exact h.top x known hx
  root := h.root.congr (e 0 (.tail _ (.head _)))

/-- What a function sees is a matter of what is bound in those frames. -/
theorem Program.Outside.congr (h : p.Outside checked s Ls ks is)
    (e : ∀ i ∈ is, ∀ x, (s'.binding? i x).isSome = (s.binding? i x).isSome) :
    p.Outside checked s' Ls ks is := by
  cases h with
  | top grounds => exact .top (grounds.congr e)
  | method taken this grounds =>
      obtain ⟨hi, e⟩ := List.forall_mem_cons.mp e
      exact .method taken (this.congr hi) (grounds.congr e)
  | below taken this super grounds =>
      obtain ⟨hi, e⟩ := List.forall_mem_cons.mp e
      obtain ⟨hj, e⟩ := List.forall_mem_cons.mp e
      exact .below taken (this.congr hi) (super.congr hj) (grounds.congr e)

/-- What follows is a matter of what names the frames have. -/
theorem Program.Follows.congr (h : p.Follows checked m₀ s Ls ks is)
    (e : ∀ i ∈ is, ∀ x, (s'.binding? i x).isSome = (s.binding? i x).isSome) :
    p.Follows checked m₀ s' Ls ks is := by
  induction h with
  | outside h => exact .outside (h.congr e)
  | inner alike has plain _ ih =>
      obtain ⟨hi, his⟩ := List.forall_mem_cons.mp e
      exact .inner alike (has.congr hi) plain (ih his)

end

/-! ### Where names are found -/

/-- Checking has found the name in the first frame, with this meaning, and a run finds it in the
second. That is the same name, unless it was predefined and has been taken. A function is found in
the frame of the program, where it has been declared. -/
structure Program.Agrees (p : Program) (checked : Checked) (m₀ : Machine) (x : String)
    (known : Symbol) (k i : FrameId) : Prop where
  same  : p.Same checked m₀ x k i ∨ k = 0 ∧ i = 1 ∧ known.isFixed = true ∧ checked.program.Takes x
  owned : ∀ sig, known = .function sig → i = 1 ∧ ∃ d ∈ checked.program, d.name = x ∧ d.Makes known

namespace Program

variable {s : Forest Value} {Ls : List Level} {ks is : List FrameId} {x : String} {known : Symbol}

/-- In these frames checking finds the name with this meaning, and in those a run finds it as it
should. -/
def Finds (p : Program) (checked : Checked) (m₀ : Machine) (cs : Forest Symbol)
    (s : Forest Value) (x : String) (known : Symbol) (ks is : List FrameId) : Prop :=
  ∃ k i b, cs.nearestIn x ks = some (k, some known) ∧ s.nearestIn x is = some (i, b) ∧
    p.Agrees checked m₀ x known k i

namespace Finds

variable {cs : Forest Symbol} {k i : FrameId}

/-- A name that both have in the first frame is found there. -/
theorem here (hk : cs.binding? k x = some (some known)) {b : Option Value}
    (hi : s.binding? i x = some b) (agrees : p.Agrees checked m₀ x known k i) :
    p.Finds checked m₀ cs s x known (k :: ks) (i :: is) :=
  ⟨k, i, b, by rw [Forest.nearestIn, hk], by rw [Forest.nearestIn, hi], agrees⟩

/-- The next frame of checking does not have the name. -/
theorem later (hk : cs.binding? k x = none) (h : p.Finds checked m₀ cs s x known ks is) :
    p.Finds checked m₀ cs s x known (k :: ks) is := by
  obtain ⟨j, i, b, hj, hi, agrees⟩ := h
  exact ⟨j, i, b, by rw [Forest.nearestIn, hk]; exact hj, hi, agrees⟩

/-- The next frame of the run does not have the name. -/
theorem outer (hi : s.binding? i x = none) (h : p.Finds checked m₀ cs s x known ks is) :
    p.Finds checked m₀ cs s x known ks (i :: is) := by
  obtain ⟨k, j, b, hk, hj, agrees⟩ := h
  exact ⟨k, j, b, hk, by rw [Forest.nearestIn, hi]; exact hj, agrees⟩

/-- A name that is predefined for checking may have been taken by the program since then. -/
theorem predefined (hx : Scene.predefinedNames x = some (some known))
    (hc : cs.binding? 0 x = some (some known)) (root : s.Has 0 Scene.predefinedNames)
    (named : (s.binding? 1 x).isSome = true → ∃ d ∈ checked.program, d.name = x) :
    p.Finds checked m₀ cs s x known [0] [1, 0] := by
  obtain ⟨fixed, predefined⟩ := Scene.fixed_of_predefined hx
  have owned : ∀ i sig, known = .function sig →
      i = 1 ∧ ∃ d ∈ checked.program, d.name = x ∧ d.Makes known := by
    rintro i sig rfl
    cases fixed
  cases hb : s.binding? 1 x with
  | some b =>
      have taken := named (by rw [hb]; rfl)
      exact here hc hb ⟨.inr ⟨rfl, rfl, fixed, predefined, taken⟩, owned 1⟩
  | none =>
      obtain ⟨b, hb₀⟩ := root.bound hx
      exact outer hb (here hc hb₀ ⟨.inl .predefined, owned 0⟩)

end Finds

/-- Among the names of these levels, this one has this meaning. -/
def KnownIn (Ls : List Level) (x : String) (known : Symbol) : Prop :=
  (Ls.map (·.names)).findSome? (· x) = some (some known)

/-- The first level tells what the name means, or does not have it, so that the others do. -/
theorem KnownIn.cons {F : Names} {joined : Bool} (h : KnownIn (⟨F, joined⟩ :: Ls) x known) :
    F x = some (some known) ∨ F x = none ∧ KnownIn Ls x known := by
  simp only [KnownIn, List.map_cons, List.findSome?_cons] at h
  cases e : F x with
  | some b =>
      simp only [e, Option.some.injEq] at h
      exact .inl (congrArg some h)
  | none =>
      simp only [e] at h
      exact .inr ⟨rfl, h⟩

section

variable {cs : Forest Symbol}
  (named : ∀ x, (s.binding? 1 x).isSome = true → ∃ d ∈ checked.program, d.name = x)

include named

/-- Where there is nothing besides the frame of the program and that of predefined names. -/
theorem Finds.grounds {T : Names} (h : s.Grounds checked.program T)
    (hc : cs.Gathers [1, 0] [⟨T, false⟩, ⟨Scene.predefinedNames, false⟩])
    (hx : KnownIn [⟨T, false⟩, ⟨Scene.predefinedNames, false⟩] x known) :
    p.Finds checked m₀ cs s x known [1, 0] [1, 0] := by
  obtain - | ⟨h₁, - | ⟨h₀, -⟩⟩ := hc
  rcases hx.cons with hT | ⟨hT, hx⟩
  · obtain ⟨bound, d, hd, hn, hm⟩ := h.top x known hT
    obtain ⟨b, hb⟩ := Option.isSome_iff_exists.mp bound
    exact .here ((h₁ x).trans hT) hb ⟨.inl .top, fun _ _ => ⟨rfl, d, hd, hn, hm⟩⟩
  · rcases hx.cons with hR | ⟨-, hx⟩
    · exact .later ((h₁ x).trans hT) (.predefined hR ((h₀ x).trans hR) h.root (named x))
    · cases hx

/-- A name is found in the frames that a function sees. -/
theorem Outside.resolves {Ls : List Level} {ks is : List FrameId}
    (h : p.Outside checked s Ls ks is) (hc : cs.Gathers ks Ls) (hx : KnownIn Ls x known) :
    p.Finds checked m₀ cs s x known ks is := by
  -- The receiver and the superclass are no functions.
  have receives {c : Checker} {d : ClassDecl} (taken : (c, .cls d) ∈ p.moments)
      (hr : x = "this" ∨ x = "super") (hk : ∀ sig, known ≠ .function sig) (i : FrameId) :
      p.Agrees checked m₀ x known c.scopes.next i :=
    ⟨.inl (.receiver taken hr i), fun sig e => absurd e (hk sig)⟩
  cases h with
  | top grounds => exact .grounds named grounds hc hx
  | @method T c d i taken this grounds =>
      obtain - | ⟨hk, hs⟩ := hc
      rcases hx.cons with hF | ⟨hF, hx⟩
      · obtain ⟨e, known⟩ := Names.of_put_empty hF
        obtain ⟨b, hb⟩ := this.bound hF
        cases known
        exact .here ((hk x).trans hF) hb (receives taken (.inl e) (by rintro _ ⟨⟩) i)
      · exact .later ((hk x).trans hF) (.outer (this.missing hF) (.grounds named grounds hs hx))
  -- Checking has one frame for the names that are in two frames of the run.
  | @below T c d info i j taken this super grounds =>
      obtain - | - | ⟨hk, hs⟩ := hc
      have hkx := hk x
      rcases hx.cons with hF | ⟨hF, hx⟩
      · obtain ⟨e, known⟩ := Names.of_put_empty hF
        obtain ⟨b, hb⟩ := this.bound hF
        rw [hF] at hkx
        cases known
        exact .here hkx hb (receives taken (.inl e) (by rintro _ ⟨⟩) i)
      · rw [hF, Option.none_or] at hkx
        refine .outer (this.missing hF) ?_
        rcases hx.cons with hG | ⟨hG, hx⟩
        · obtain ⟨e, known⟩ := Names.of_put_empty hG
          obtain ⟨b, hb⟩ := super.bound hG
          cases known
          exact .here (hkx.trans hG) hb (receives taken (.inr e) (by rintro _ ⟨⟩) j)
        · exact .later (hkx.trans hG) (.outer (super.missing hG) (.grounds named grounds hs hx))

/-- A name is found in a frame that is like the one in which checking has found it. -/
theorem Follows.resolves (h : p.Follows checked m₀ s Ls ks is) (hc : cs.Gathers ks Ls)
    (hx : KnownIn Ls x known) : p.Finds checked m₀ cs s x known ks is := by
  induction h with
  | outside h => exact h.resolves named hc hx
  | @inner F Ls k i ks is alike has plain _ ih =>
      obtain - | ⟨hk, hs⟩ := hc
      rcases hx.cons with hF | ⟨hF, hx⟩
      · obtain ⟨b, hb⟩ := has.bound hF
        refine .here ((hk x).trans hF) hb ⟨.inl (.inner alike), ?_⟩
        rintro sig rfl
        exact absurd hF (plain x sig)
      · exact .later ((hk x).trans hF) (.outer (has.missing hF) (ih hs hx))

end

end Program

/-! ### Places of a run -/

/-- The run is where it sees frames that follow those of checking with the names of these levels. -/
structure Program.Spot (p : Program) (checked : Checked) (m₀ : Machine) (Ls : List Level)
    (ks : List FrameId) (m : Machine) : Prop where
  inside  : ∀ i ∈ m.scopes.chain m.here, i < m.scopes.next
  follows : p.Follows checked m₀ m.scopes Ls ks (m.scopes.chain m.here)

/-- The run is in a frame that is open for names, inside frames that are not. -/
structure Program.Room (p : Program) (checked : Checked) (m₀ : Machine) (F : Names)
    (Ls : List Level) (k : FrameId) (ks : List FrameId) (m : Machine) : Prop where
  alike : p.Alike checked m₀ k m.here.frame
  has   : m.scopes.Has m.here.frame F
  plain : F.Functionless
  lt    : m.here.frame < m.scopes.next
  below : ∀ i ∈ m.scopes.outer m.here.frame, i < m.here.frame
  rest  : p.Follows checked m₀ m.scopes Ls ks (m.scopes.outer m.here.frame)

namespace Program

variable {F : Names} {Ls : List Level} {k : FrameId} {ks : List FrameId} {m m' : Machine}

/-- The frames in scope are the same later on. -/
theorem Spot.quiet (h : p.Spot checked m₀ Ls ks m) (hq : m.Quiet m') :
    p.Spot checked m₀ Ls ks m' := by
  have chain := hq.chain h.inside
  constructor
  · rw [chain]
    exact fun i hi => Nat.lt_of_lt_of_le (h.inside i hi) hq.scopes.next
  · rw [chain]
    exact h.follows.congr fun i hi => hq.names i (h.inside i hi)

namespace Room

/-- All frames are there that are seen from a room. -/
theorem inside (h : p.Room checked m₀ F Ls k ks m) :
    ∀ i ∈ m.scopes.chain m.here, i < m.scopes.next :=
  List.forall_mem_cons.mpr ⟨h.lt, fun i hi => Nat.lt_trans (h.below i hi) h.lt⟩

/-- A room is a spot, too: where names are open, one may as well look them up. -/
theorem spot (h : p.Room checked m₀ F Ls k ks m) :
    p.Spot checked m₀ (⟨F, false⟩ :: Ls) (k :: ks) m := ⟨h.inside, .inner h.alike h.has h.plain h.rest⟩

/-- Where a name is being defined that is new to the frame. -/
theorem hide (h : p.Room checked m₀ F Ls k ks m) {x : String} (hx : (F x).isSome = false) :
    p.Spot checked m₀ (⟨F.put x none, false⟩ :: Ls) (k :: ks) m := by
  refine ⟨h.inside, .inner h.alike (fun y => ?_) (h.plain.put x (by rintro _ ⟨⟩)) h.rest⟩
  rw [h.has y, Names.put]
  split
  · rename_i e
    rw [e, Option.isNone_iff_eq_none.mp (Option.isSome_eq_false_iff.mp hx)]
    rfl
  · rfl

/-- The frame gets the name of a variable. -/
theorem put (h : p.Room checked m₀ F Ls k ks m) (x : String) (t : Ty) (b : Option Value) :
    p.Room checked m₀ (F.put x (some (.var t))) Ls k ks (m.bind m.here.frame x b) where
  alike := h.alike
  has y := by
    rw [Names.put]
    split
    · rename_i e
      rw [e]
      exact congrArg Option.isSome (Forest.binding?_bind_self m.scopes h.lt x b)
    · rename_i e
      rw [← h.has y]
      exact congrArg Option.isSome (Forest.binding?_bind_name m.scopes _ _ (Ne.symm e) b)
  plain := h.plain.put x nofun
  lt := Nat.lt_of_lt_of_eq h.lt (Forest.next_bind ..).symm
  below i hi := h.below i (Forest.outer_bind m.scopes _ _ x b ▸ hi)
  rest := by
    have outer : (m.bind m.here.frame x b).scopes.outer m.here.frame =
      m.scopes.outer m.here.frame := Forest.outer_bind ..
    show p.Follows checked m₀ _ Ls ks ((m.bind m.here.frame x b).scopes.outer m.here.frame)
    rw [outer]
    refine h.rest.congr fun i hi y => congrArg Option.isSome ?_
    exact Forest.binding?_bind_frame m.scopes (Nat.ne_of_gt (h.below i hi)) x y b

/-- A frame that is open for names is so still when something has been done in the same scope. -/
theorem quiet (h : p.Room checked m₀ F Ls k ks m) (hq : m.Quiet m') :
    p.Room checked m₀ F Ls k ks m' := by
  have outer : m'.scopes.outer m'.here.frame = m.scopes.outer m.here.frame := by
    rw [hq.here, hq.scopes.outer _ h.lt]
  refine ⟨?_, ?_, h.plain, ?_, ?_, ?_⟩
  · rw [hq.here]
    exact h.alike
  · rw [hq.here]
    exact h.has.congr (hq.names _ h.lt)
  · rw [hq.here]
    exact Nat.lt_of_lt_of_le h.lt hq.scopes.next
  · rw [outer, hq.here]
    exact h.below
  · rw [outer]
    exact h.rest.congr fun i hi => hq.names i (Nat.lt_trans (h.below i hi) h.lt)

/-- A new frame inside a scope has no names. -/
theorem opened {h : Handle} (inside : ∀ i ∈ m.scopes.chain h, i < m.scopes.next)
    (follows : p.Follows checked m₀ m.scopes Ls ks (m.scopes.chain h))
    (alike : p.Alike checked m₀ k m.scopes.next) :
    p.Room checked m₀ .empty Ls k ks { (m.openFrame h).2 with here := (m.openFrame h).1 } where
  alike := alike
  has x := by
    have new : (m.scopes.push h).1.binding? m.scopes.next x = none := by
      rw [Forest.binding?_push, Forest.binding?_beyond _ (Nat.le_refl _)]
    exact congrArg Option.isSome new
  plain := Names.functionless_empty
  lt := Nat.lt_of_lt_of_eq (Nat.lt_succ_self _) (Forest.next_push ..).symm
  below i hi := inside i (Forest.outer_push_new m.scopes h ▸ hi)
  rest := by
    have outer : (m.openFrame h).2.scopes.outer (m.openFrame h).1.frame = m.scopes.chain h :=
      Forest.outer_push_new ..
    show p.Follows checked m₀ _ Ls ks ((m.openFrame h).2.scopes.outer (m.openFrame h).1.frame)
    rw [outer]
    exact follows.congr fun i _ x => congrArg Option.isSome (Forest.binding?_push ..)

end Room

end Program

/-! ### Scopes that values carry along -/

namespace Site.Framed

variable {W : World} {m : Machine} {i : FrameId} {F : Names}

/-- What the world tells of a frame, its names bear out. -/
theorem has (hf : Site.Framed (p.plan checked) ⟨W, m⟩) (h : W.Has i F) : m.scopes.Has i F :=
  fun x => (hf.names i x).trans (congrArg Option.isSome (h x))

/-- The frame of the program, and that of the predefined names. -/
theorem grounds (hf : Site.Framed (p.plan checked) ⟨W, m⟩) {T : Names}
    (top : ∀ x known, T x = some (some known) → W.means 1 x = some known)
    (root : W.Has 0 Scene.predefinedNames) : m.scopes.Grounds checked.program T where
  top x known hx := by
    have means := top x known hx
    refine ⟨?_, hf.top x known means⟩
    rw [hf.names 1 x, means]
    rfl
  root := hf.has root

/-- The frames that a function carries along are like those that checking saw where it has been
declared. -/
theorem outside (hf : Site.Framed (p.plan checked) ⟨W, m⟩) {Γ : Scene} {ks is : List FrameId}
    (home : p.Homes Γ ks) (hb : W.Bears is Γ.frames) :
    p.Outside checked m.scopes Γ.levels ks is := by
  cases home with
  | top global =>
      rw [Scene.frames, global.levels] at hb
      rw [global.levels]
      cases hb with
      | base top root => exact .top (hf.grounds top root)
      | inner h hs => cases hs with | inner _ hs => cases hs
  | @method Γ d c superclass global taken =>
      have levels := global.levels
      cases superclass with
      | none =>
          have e : (Γ.inClass d.name none).levels = ⟨d.receiver, false⟩ :: Γ.levels := rfl
          rw [Scene.frames, e, levels] at hb
          rw [e, levels]
          cases hb with
          | inner h hs =>
              cases hs with
              | base top root => exact .method taken (hf.has h) (hf.grounds top root)
              | inner _ hs => cases hs with | inner _ hs => cases hs
      | some info =>
          have e : (Γ.inClass d.name (some info)).levels = ⟨d.receiver, true⟩ ::
              ⟨Names.empty.put "super" (some (.cls info)), false⟩ :: Γ.levels := rfl
          rw [Scene.frames, e, levels] at hb
          rw [e, levels]
          cases hb with
          | inner h hs =>
              cases hs with
              | inner h' hs =>
                  cases hs with
                  | base top root =>
                      exact .below taken (hf.has h) (hf.has h') (hf.grounds top root)
                  | inner _ hs => cases hs with | inner _ hs => cases hs

end Site.Framed

end Brace
