/-!
# Ranges of characters

A Unicode property is held as the list of its ranges. The list is in increasing order, so the
first range that does not end below a character decides.
-/

namespace Arbor.Text

/-- Inclusive ranges of code points, in increasing order and disjoint. -/
abbrev Ranges := List (Nat × Nat)

def Ranges.contains : Ranges → Char → Bool
  | [], _ => false
  | (low, high) :: rest, c =>
    if c.toNat ≤ high then low ≤ c.toNat else Ranges.contains rest c

end Arbor.Text
