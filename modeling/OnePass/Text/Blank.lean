/-!
# Blank characters

The characters that separate lexemes: those with the Unicode property `White_Space`.

* `Text.isBlank` — the property, as a short list of code point ranges;
* `Text.isIndent` — the blanks that may indent a line of a text block.
-/

namespace OnePass.Text

def blankRanges : List (Nat × Nat) :=
  [(0x09, 0x0d), (0x20, 0x20), (0x85, 0x85), (0xa0, 0xa0), (0x1680, 0x1680), (0x2000, 0x200a),
    (0x2028, 0x2029), (0x202f, 0x202f), (0x205f, 0x205f), (0x3000, 0x3000)]

def inRanges (ranges : List (Nat × Nat)) (code : Nat) : Bool :=
  ranges.any fun range => range.1 ≤ code && code ≤ range.2

def isBlank (c : Char) : Bool := inRanges blankRanges c.toNat

def isIndent (c : Char) : Bool := c == ' ' || c == '\t'

end OnePass.Text
