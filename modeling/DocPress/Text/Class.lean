import DocPress.Text.Basic
import DocPress.Text.Class.Table

-- Letters, digits and word characters, as Unicode has them.

namespace DocPress.Text

def inRanges (ranges : List (Nat × Nat)) (c : Char) : Bool :=
  ranges.any fun (lo, hi) => lo ≤ c.toNat && c.toNat ≤ hi

def isAlphabetic (c : Char) : Bool :=
  if c.toNat < 128 then c.isAlpha else inRanges Class.alphabetic c

def isDecimalDigit (c : Char) : Bool :=
  if c.toNat < 128 then c.isDigit else inRanges Class.decimalDigits c

def isAlphanumeric (c : Char) : Bool :=
  isAlphabetic c || isDecimalDigit c || inRanges Class.otherNumbers c

-- The characters of words and names: letters, decimal digits, the underscore and its kin, and what
-- modifies or joins letters.
def isWordChar (c : Char) : Bool :=
  isAlphabetic c || isDecimalDigit c || c = '_' || inRanges Class.joiners c

end DocPress.Text
