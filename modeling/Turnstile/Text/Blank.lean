/-! Blank characters: the code points that separate tokens without being one, and that are
trimmed from both ends of a setting's text. There are more of them than the core library's
`Char.isWhitespace` holds. -/
namespace Turnstile.Text

/-- A character that takes room but leaves no mark: the controls that move the cursor, the
information separators, and every space, line and paragraph separator. -/
def isBlank (c : Char) : Bool :=
  let n := c.toNat
  (0x09 ≤ n && n ≤ 0x0d) || (0x1c ≤ n && n ≤ 0x20) || n == 0x85 || n == 0xa0 || n == 0x1680 ||
    (0x2000 ≤ n && n ≤ 0x200a) || n == 0x2028 || n == 0x2029 || n == 0x202f || n == 0x205f ||
    n == 0x3000

def trimBlanks (cs : List Char) : List Char :=
  ((cs.dropWhile isBlank).reverse.dropWhile isBlank).reverse

def trim (s : String) : String := String.ofList (trimBlanks s.toList)

end Turnstile.Text
