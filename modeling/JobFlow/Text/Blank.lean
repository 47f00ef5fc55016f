/-!
Blank characters and trimming. A text is trimmed as a list of characters; the `String` forms at
the end only wrap that.
-/

set_option autoImplicit false

namespace JobFlow.Text

/-- The white-space characters: the ASCII controls that space text, the separators `U+001C` to
`U+001F`, and every space of the Unicode space category. Zero-width characters are not blank. -/
def isBlank (c : Char) : Bool :=
  let n := c.toNat
  (0x09 ≤ n && n ≤ 0x0D) || (0x1C ≤ n && n ≤ 0x20) || n == 0x85 || n == 0xA0 || n == 0x1680 ||
    (0x2000 ≤ n && n ≤ 0x200A) || n == 0x2028 || n == 0x2029 || n == 0x202F || n == 0x205F ||
    n == 0x3000

def trimEndWhile (drop : Char → Bool) (cs : List Char) : List Char :=
  (cs.reverse.dropWhile drop).reverse

def trimWhile (drop : Char → Bool) (cs : List Char) : List Char :=
  trimEndWhile drop (cs.dropWhile drop)

def trim (cs : List Char) : List Char :=
  trimWhile isBlank cs

def strip (s : String) : String :=
  String.ofList (trim s.toList)

def stripEnd (s : String) : String :=
  String.ofList (trimEndWhile isBlank s.toList)

def isBlankText (s : String) : Bool :=
  s.toList.all isBlank

theorem toList_strip (s : String) : (strip s).toList = trim s.toList :=
  String.toList_ofList

end JobFlow.Text
