/-!
# Blank characters

The characters of the Unicode property `White_Space`. A node label may not hold any of them. The
zero-width characters U+180E, U+200B, U+2060 and U+FEFF and the separators U+001C to U+001F are
not blank.
-/

namespace PackedGraph.Text

/-- The code points of the `White_Space` property, as closed ranges in increasing order. -/
def blankRanges : List (Nat × Nat) :=
  [(0x09, 0x0d), (0x20, 0x20), (0x85, 0x85), (0xa0, 0xa0), (0x1680, 0x1680), (0x2000, 0x200a),
    (0x2028, 0x2029), (0x202f, 0x202f), (0x205f, 0x205f), (0x3000, 0x3000)]

def isBlank (c : Char) : Bool :=
  blankRanges.any fun range ↦ range.1 ≤ c.toNat && c.toNat ≤ range.2

end PackedGraph.Text
