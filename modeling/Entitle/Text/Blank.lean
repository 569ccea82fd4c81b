/-!
White space: the characters with the Unicode property White_Space, and trimming by them.
-/

namespace Entitle.Text

/-- The property White_Space. -/
def isBlank (c : Char) : Bool :=
  (0x09 ≤ c.val && c.val ≤ 0x0D) || c.val = 0x20 || c.val = 0x85 || c.val = 0xA0 || c.val = 0x1680
    || (0x2000 ≤ c.val && c.val ≤ 0x200A) || c.val = 0x2028 || c.val = 0x2029 || c.val = 0x202F
    || c.val = 0x205F || c.val = 0x3000

/-- Drops white space in front. -/
def trimStart (cs : List Char) : List Char :=
  cs.dropWhile isBlank

/-- Drops white space on both sides. -/
def trim (cs : List Char) : List Char :=
  (trimStart (trimStart cs).reverse).reverse

/-- Drops white space on both sides of a text. -/
def trimmed (s : String) : String :=
  String.ofList (trim s.toList)

end Entitle.Text
