/-!
# Capacity

What a machine can count and hold. Places and lengths are counted in machine words, and what
would not fit into memory is refused before it is made.
-/

namespace Arbor.Capacity

/-- The bound of machine words: they go from its negative up to it, itself left out. -/
def wordBound : Int := Nat.pow 2 63

/-- The greatest number of items that memory has room for. -/
def items : Int := Nat.pow 2 36

/-- The greatest number of characters of one text that memory has room for. -/
def characters : Int := Nat.pow 2 31

def isWord (n : Int) : Bool := -wordBound ≤ n && n < wordBound

end Arbor.Capacity
