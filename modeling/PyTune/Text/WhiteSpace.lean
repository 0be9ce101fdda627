/-!
# White space

The Unicode property White_Space, and trimming a text of it at either end. Method names and
the lines of import statements are compared after trimming, and target names are trimmed
before they are checked for being identifiers.
-/

namespace PyTune.Text

/-- The characters with the property White_Space: tab, line feed, vertical tab, form feed,
carriage return, space, next line (U+0085), no-break space (U+00A0), ogham space mark
(U+1680), the spaces U+2000 to U+200A, line and paragraph separators (U+2028, U+2029), narrow
no-break space (U+202F), medium mathematical space (U+205F) and ideographic space (U+3000). -/
def isWhiteSpace (c : Char) : Bool :=
  let n := c.toNat
  (0x09 ≤ n && n ≤ 0x0D) || n == 0x20 || n == 0x85 || n == 0xA0 || n == 0x1680 ||
    (0x2000 ≤ n && n ≤ 0x200A) || n == 0x2028 || n == 0x2029 || n == 0x202F ||
    n == 0x205F || n == 0x3000

/-- The text without the white space it starts with. -/
def trimStart (s : String) : String :=
  String.ofList (s.toList.dropWhile isWhiteSpace)

/-- The text without the white space it ends with. -/
def trimEnd (s : String) : String :=
  String.ofList (s.toList.reverse.dropWhile isWhiteSpace).reverse

/-- The text without white space at either end. -/
def trim (s : String) : String :=
  trimEnd (trimStart s)

end PyTune.Text
