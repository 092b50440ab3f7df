/-!
# Integers of a fixed width

The ends of the ranges that integers of 16, 32 and 64 bits have. The numbers themselves are held
without a width; a range matters only where one is read or brought into it.
-/

namespace HmcClient.Width

/-- The largest number of 16 bits. -/
def maxNat16 : Nat := 65535

/-- The largest number of 32 bits. -/
def maxNat32 : Nat := 4294967295

/-- The largest number of 64 bits. -/
def maxNat64 : Nat := 18446744073709551615

/-- The least signed number of 32 bits. -/
def minInt32 : Int := -2147483648

/-- The largest signed number of 32 bits. -/
def maxInt32 : Int := 2147483647

/-- The least signed number of 64 bits. -/
def minInt64 : Int := -9223372036854775808

/-- The largest signed number of 64 bits. -/
def maxInt64 : Int := 9223372036854775807

/-- The number of a range that is nearest to an integer. -/
def clamp (low high n : Int) : Int := if n < low then low else if high < n then high else n

end HmcClient.Width
