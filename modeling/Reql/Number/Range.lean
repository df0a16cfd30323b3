/-!
The ranges of the 64-bit integers.

An unsigned number and a signed one differ in the top bit, so the two ranges share the numbers from
zero up to the greatest signed one, and together they reach from the least signed number to the
greatest unsigned one.
-/

namespace Reql

abbrev InSignedRange (n : Int) : Prop := -9223372036854775808 ≤ n ∧ n < 9223372036854775808

abbrev InUnsignedRange (n : Int) : Prop := 0 ≤ n ∧ n < 18446744073709551616

abbrev InWordRange (n : Int) : Prop := -9223372036854775808 ≤ n ∧ n < 18446744073709551616

def greatestUnsigned : Nat := 18446744073709551615

end Reql
