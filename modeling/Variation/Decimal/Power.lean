/-!
# Powers of numbers

Powers of natural numbers and of integers are those of the core library, here and wherever this
module is imported. Algebra has powers of its own, which are the same numbers but other terms.
-/

namespace Variation.Decimal

@[default_instance high]
instance (priority := high) naturalPower : Pow Nat Nat := instPowNat

@[default_instance high]
instance (priority := high) integerPower : Pow Int Nat := instPowNat

end Variation.Decimal
