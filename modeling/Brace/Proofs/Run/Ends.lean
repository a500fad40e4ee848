import Brace.Proofs.Run.Asks

/-!
# Run — computations with the same ends

Two computations come to the same when, from whatever machine, each end of the one is an end of the other
(`Eval.SameEnds`). What a computation asks for may as well be done in place, and parts may be put in place
of parts that come to the same.
-/

namespace Brace

open Progress

variable {α β : Type} {m m' : Machine}

/-- The ends of a computation that is carried on are those of another one that is carried on, if this is
so of both parts. -/
theorem Progress.ends_andThen {p q : Progress α} {k l : Except Error α → Machine → Progress β}
    (h : ∀ r m, p.Steps (.finished r m) → q.Steps (.finished r m))
    (hk : ∀ r m r' m', (k r m).Steps (.finished r' m') → (l r m).Steps (.finished r' m'))
    {r : Except Error β} (t : (p.andThen k).Steps (.finished r m)) :
    (q.andThen l).Steps (.finished r m) := by
  obtain ⟨r₀, m₀, hp, hk'⟩ := steps_of_andThen t
  exact ((h r₀ m₀ hp).andThen l).trans (hk r₀ m₀ r m hk')

namespace Eval

/-- From whatever machine, the computations come to the same ends. -/
def SameEnds (x y : Eval α) : Prop :=
  ∀ m r m', (x m).Steps (.finished r m') ↔ (y m).Steps (.finished r m')

namespace SameEnds

theorem refl (x : Eval α) : SameEnds x x := fun _ _ _ => .rfl

theorem trans {x y z : Eval α} (h : SameEnds x y) (h' : SameEnds y z) : SameEnds x z :=
  fun m r m' => (h m r m').trans (h' m r m')

/-- What is asked for may as well be done in place. -/
theorem ask (j : Job) : SameEnds (ask j) j.start := fun m r m' => by
  constructor
  · intro h
    cases h with
    | more t => rwa [andThen_finished] at t
  · intro t
    refine .more ?_
    rwa [andThen_finished]

/-- If the parts of two computations end alike, so do these. -/
theorem bind {x y : Eval α} {f g : α → Eval β} (h : SameEnds x y) (hf : ∀ a, SameEnds (f a) (g a)) :
    SameEnds (x >>= f) (y >>= g) := fun m _ _ => by
  constructor
  · refine ends_andThen (fun r m' => (h m r m').mp) fun r m₁ r' m₂ => ?_
    cases r with
    | ok a => exact (hf a m₁ r' m₂).mp
    | error e => exact id
  · refine ends_andThen (fun r m' => (h m r m').mpr) fun r m₁ r' m₂ => ?_
    cases r with
    | ok a => exact (hf a m₁ r' m₂).mpr
    | error e => exact id

/-- Blocks end alike if what is inside them does. -/
theorem inBlock (p : Position) {x y : Eval α} (h : SameEnds x y) :
    SameEnds (inBlock p x) (inBlock p y) := fun m _ _ =>
  ⟨ends_andThen (fun r m' => (h m.pushScope r m').mp) fun _ _ _ _ => id,
    ends_andThen (fun r m' => (h m.pushScope r m').mpr) fun _ _ _ _ => id⟩

end SameEnds

end Eval

end Brace
