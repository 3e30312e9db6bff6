/-!
# Rounding

Prices, distances and scaled samples are computed in binary floating point and
then rounded to whole numbers, always in the same way.
-/

namespace Easel

/-- The nearest whole number to a float that is not negative, a half rounded up.
What lies beyond 64 bits becomes the largest number of 64 bits. -/
def nearest (x : Float) : UInt64 :=
  let whole := x.toUInt64
  -- the difference is exact, so nothing just below a half is taken for one
  if whole < 18446744073709551615 && x - whole.toFloat ≥ 0.5 then whole + 1 else whole

end Easel
