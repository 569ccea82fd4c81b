/-!
Reading a decimal as a double: a significand of at most 64 bits times a power of ten.

The significand becomes the nearest double and is then multiplied or divided by the nearest double of
the power, so the result can differ from the nearest double of the decimal. A power below `10 ^ -308`
is divided out in steps.
-/

namespace Entitle.Decimal

/-- The nearest double of `10 ^ n`. -/
def powerOfTen (n : Nat) : Float :=
  Float.ofScientific 1 false n

/-- Divides by `10 ^ n`, at most `10 ^ 308` at a time; `steps` bounds how often. -/
def divided : Nat → Float → Nat → Float
  | 0, x, _ => x
  | steps + 1, x, n =>
    if n ≤ 308 then x / powerOfTen n
    else if x == 0 then x
    else divided steps (x / powerOfTen 308) (n - 308)

/-- The double `significand · 10 ^ exponent`, or none when it is out of range. -/
def scaled? (significand : Nat) (exponent : Int) : Option Float :=
  let x := significand.toUInt64.toFloat
  if exponent < 0 then
    -- Four steps bring every significand to zero.
    some (divided 5 x (-exponent).toNat)
  else if exponent ≤ 308 then
    let y := x * powerOfTen exponent.toNat
    if y.isInf then none else some y
  else if x == 0 then some x
  else none

end Entitle.Decimal
