/-!
The shortest decimal of a binary64 number.

A finite positive number is `mantissa · 2 ^ exponent`. The reals that round to it form an interval
around it, which holds its ends exactly when the mantissa is even. Among the decimals in the interval
the one on the coarsest decimal grid is chosen, and of two on that grid the nearer; a tie goes to the
even digit.
-/

namespace Entitle.Decimal

/-- The number `mantissa · 2 ^ exponent`. -/
structure Binary where
  mantissa : Nat
  exponent : Int
  /-- The gap to the number below is half the gap to the number above. -/
  narrowBelow : Bool
  deriving DecidableEq, Repr

/-- The number `digits · 10 ^ exponent`. -/
structure Grid where
  digits : Nat
  exponent : Int
  deriving DecidableEq, Repr

/-- The magnitude of a finite double, from its bits. -/
def Binary.ofBits (bits : UInt64) : Binary :=
  let field := (bits >>> 52).toNat % 2048
  let fraction := bits.toNat % 4503599627370496
  if field = 0 then ⟨fraction, -1074, false⟩
  else ⟨4503599627370496 + fraction, (field : Int) - 1075, fraction = 0 && field ≠ 1⟩

/-- Compares on the grid `10 ^ k`: the best grid point in the interval of the number, if any. -/
def Binary.onGrid? (b : Binary) (k : Int) : Option Grid :=
  -- One grid step is `step` units and a quarter of the last binary place is `quarter` units.
  let step := (if 0 ≤ k then Nat.pow 10 k.toNat else 1)
    * (if b.exponent < 2 then Nat.pow 2 (2 - b.exponent).toNat else 1)
  let quarter := (if k < 0 then Nat.pow 10 (-k).toNat else 1)
    * (if 2 ≤ b.exponent then Nat.pow 2 (b.exponent - 2).toNat else 1)
  let value := 4 * b.mantissa * quarter
  let low := value - (if b.narrowBelow then 1 else 2) * quarter
  let high := value + 2 * quarter
  let closed := b.mantissa % 2 = 0
  let inside (n : Nat) : Bool :=
    n ≠ 0 && (if closed then low ≤ n * step && n * step ≤ high else low < n * step && n * step < high)
  let below := value / step
  let above := below + 1
  if inside below then
    if inside above then
      let left := value - below * step
      let right := above * step - value
      if left < right || (left = right && below % 2 = 0) then some ⟨below, k⟩ else some ⟨above, k⟩
    else some ⟨below, k⟩
  else if inside above then some ⟨above, k⟩
  else none

/-- The first grid with a point in the interval, from `10 ^ k` down. -/
def Binary.firstGrid (b : Binary) : Nat → Int → Grid
  | 0, k => ⟨b.mantissa, k⟩
  | n + 1, k =>
    match b.onGrid? k with
    | some g => g
    | none => b.firstGrid n (k - 1)

/-- The shortest decimal of a positive number. -/
def Binary.shortest (b : Binary) : Grid :=
  -- `10 ^ top` is above the number.
  let top := ((Nat.log2 b.mantissa : Int) + b.exponent + 1) * 1234 / 4096 + 2
  b.firstGrid 40 top

/-- Where a decimal is written with an exponent, and how. -/
structure Layout where
  /-- The least exponent of the first digit that is written positionally. -/
  least : Int
  /-- The greatest one. -/
  greatest : Int
  /-- A plus sign stands before an exponent that is not negative. -/
  plus : Bool
  deriving DecidableEq, Repr

/-- The digits of a positive decimal in a layout; a positional one has at least one fraction digit. -/
def Grid.render (layout : Layout) (g : Grid) : List Char :=
  let ds := Nat.toDigits 10 g.digits
  let x : Int := g.exponent + ds.length - 1
  if layout.least ≤ x ∧ x ≤ layout.greatest then
    if x < 0 then '0' :: '.' :: List.replicate (-x - 1).toNat '0' ++ ds
    else
      let whole := x.toNat + 1
      let fraction := ds.drop whole
      ds.take whole ++ List.replicate (whole - ds.length) '0' ++ '.' :: (if fraction.isEmpty then ['0'] else fraction)
  else
    let power := Nat.toDigits 10 x.natAbs
    let sign := if x < 0 then ['-'] else if layout.plus then ['+'] else []
    ds.take 1 ++ (if ds.length = 1 then [] else '.' :: ds.drop 1) ++ 'e' :: sign ++ power

/-- The text of a finite double; a negative zero keeps its sign. -/
def render (layout : Layout) (x : Float) : List Char :=
  let bits := x.toBits
  let sign := if bits >>> 63 = 1 then ['-'] else []
  let b := Binary.ofBits bits
  sign ++ if b.mantissa = 0 then ['0', '.', '0'] else b.shortest.render layout

end Entitle.Decimal
