/-!
# Blanks

White space is Unicode's property White_Space, here and everywhere else in
the library. Trimming, cutting a text into lines and cutting it into words
are defined on lists of characters; nothing but blanks (or line feeds, for
lines) is ever lost.
-/

namespace ImportChart.Text

/-- The characters with the Unicode property White_Space. -/
def isBlank (c : Char) : Bool :=
  let n := c.toNat
  (0x09 ≤ n && n ≤ 0x0D) || n == 0x20 || n == 0x85 || n == 0xA0 || n == 0x1680
    || (0x2000 ≤ n && n ≤ 0x200A) || n == 0x2028 || n == 0x2029 || n == 0x202F
    || n == 0x205F || n == 0x3000

/-! ## Trimming -/

def dropEndWhile (p : Char → Bool) (cs : List Char) : List Char :=
  (cs.reverse.dropWhile p).reverse

def dropBothWhile (p : Char → Bool) (cs : List Char) : List Char :=
  dropEndWhile p (cs.dropWhile p)

def trimStart (cs : List Char) : List Char := cs.dropWhile isBlank

def trim (cs : List Char) : List Char := dropBothWhile isBlank cs

/-! ## Lines and words -/

/-- The pieces between line feeds; a text that ends in one has an empty last piece. -/
def lines (cs : List Char) : List (List Char) := cs.splitOn '\n'

/-- The maximal blank-free pieces. -/
def words (cs : List Char) : List (List Char) :=
  (cs.splitOnP isBlank).filter (! ·.isEmpty)

/-! ## Small facts -/

theorem length_trimStart_le (cs : List Char) : (trimStart cs).length ≤ cs.length :=
  (List.dropWhile_sublist isBlank).length_le

end ImportChart.Text
