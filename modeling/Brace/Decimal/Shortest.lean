/-!
# Decimal — writing floats

A float is written with a point and at least one digit on either side of it, never with an
exponent. A whole number is written out in full; any other gets the fewest decimal places that
still read back as the same float, and of two such decimals the nearer one, the upper one in a tie.

A finite float is `m · 2 ^ q`, and the reals that read back as it are those between the midpoints
to its two neighbours, ends included when `m` is even (`Gap`). Whether a decimal lies there is
decided in exact arithmetic, for the two decimals of each length that enclose the float.
-/

namespace Brace.Decimal

/-- What a float is made of. -/
inductive Shape where
  | nan
  | infinite (negative : Bool)
  /-- `m · 2 ^ q`. -/
  | finite (negative : Bool) (m : Nat) (q : Int)
  deriving DecidableEq, Repr

/-- The parts that the 64 bits of a float spell out. -/
def shape (x : Float) : Shape :=
  let bits : Nat := x.toBits.toNat
  let negative := decide (Nat.pow 2 63 ≤ bits)
  let exponent : Nat := bits / Nat.pow 2 52 % 2048
  let fraction : Nat := bits % Nat.pow 2 52
  if exponent = 2047 then if fraction = 0 then .infinite negative else .nan
  else if exponent = 0 then .finite negative fraction (-1074)
  else .finite negative (fraction + Nat.pow 2 52) ((exponent : Int) - 1075)

/-- The reals that read back as `m / 2 ^ p`, in quarters of `1 / 2 ^ p`. -/
structure Gap where
  low  : Nat
  high : Nat
  /-- The ends read back too. -/
  closed : Bool
  deriving DecidableEq, Repr

/-- Below a power of two the floats lie twice as close, except at the very smallest. -/
def gapAround (m p : Nat) : Gap where
  low    := if m = Nat.pow 2 52 ∧ p < 1074 then 4 * m - 1 else 4 * m - 2
  high   := 4 * m + 2
  closed := m % 2 = 0

/-- `k / 10 ^ d` lies in the gap around a multiple of `1 / 2 ^ p`. -/
def Gap.holds (g : Gap) (p k d : Nat) : Bool :=
  let mid := k * Nat.pow 2 (p + 2)
  let low := g.low * Nat.pow 10 d
  let high := g.high * Nat.pow 10 d
  if g.closed then low ≤ mid && mid ≤ high else low < mid && mid < high

/-- Of the two decimals with `d` places around `m / 2 ^ p`, the nearest that reads back. -/
def withPlaces (m p d : Nat) : Option Nat :=
  let k := m * Nat.pow 10 d / Nat.pow 2 p
  let r := m * Nat.pow 10 d % Nat.pow 2 p
  let below := (gapAround m p).holds p k d
  let above := (gapAround m p).holds p (k + 1) d
  if below ∧ (¬ above ∨ 2 * r < Nat.pow 2 p) then some k
  else if above then some (k + 1)
  else none

/-- The first number of places from `d` on that reads back, and the decimal without its point. With
`p` places the decimal is exact, so the search ends. -/
def fewestPlaces (m p : Nat) : (fuel d : Nat) → Nat × Nat
  | 0, d        => (m * Nat.pow 10 d / Nat.pow 2 p, d)
  | fuel + 1, d =>
      match withPlaces m p d with
      | some k => (k, d)
      | none   => fewestPlaces m p fuel (d + 1)

/-- `k / 10 ^ d` in digits. -/
def placesText (k d : Nat) : String :=
  let fraction := toString (k % Nat.pow 10 d)
  toString (k / Nat.pow 10 d) ++ "." ++ String.ofList (List.replicate (d - fraction.length) '0')
    ++ fraction

/-- The float in digits. -/
def floatText (x : Float) : String :=
  let sign (negative : Bool) := if negative then "-" else ""
  match shape x with
  | .nan                 => "NaN"
  | .infinite negative   => sign negative ++ "inf"
  | .finite negative m q =>
      let p := (-q).toNat
      let size :=
        if 0 ≤ q then toString (m * Nat.pow 2 q.toNat) ++ ".0"
        else if m % Nat.pow 2 p = 0 then toString (m / Nat.pow 2 p) ++ ".0"
        else
          let (k, d) := fewestPlaces m p p 1
          placesText k d
      sign negative ++ size

end Brace.Decimal
