import DocPress.Text.Basic

namespace DocPress.Text

-- White space is the `White_Space` property of Unicode: five ASCII controls, the space, the next
-- line, the no-break space, and the spaces and separators of the higher planes. The zero width
-- space is not one of them.
def isBlank (c : Char) : Bool :=
  let n := c.toNat
  (0x09 ≤ n && n ≤ 0x0D) || n == 0x20 || n == 0x85 || n == 0xA0 || n == 0x1680 ||
    (0x2000 ≤ n && n ≤ 0x200A) || n == 0x2028 || n == 0x2029 || n == 0x202F || n == 0x205F ||
    n == 0x3000

-- A blank text holds nothing but white space; the empty text is blank.
def blank (x : Text) : Bool :=
  x.all isBlank

def trim (x : Text) : Text :=
  trimBy isBlank x

def trimStart (x : Text) : Text :=
  x.dropWhile isBlank

-- The maximal runs of characters that are not white space.
def words (x : Text) : List Text :=
  (x.splitOnP isBlank).filter (· ≠ [])

-- The words on one line: every run of white space becomes a single space, and none is left at
-- the ends.
def oneLine (x : Text) : Text :=
  join [' '] (words x)

theorem not_isBlank_of_mem_words {x w : Text} (h : w ∈ words x) : ∀ c ∈ w, isBlank c = false :=
  not_of_mem_splitOnP (List.mem_filter.mp h).left

theorem ne_nil_of_mem_words {x w : Text} (h : w ∈ words x) : w ≠ [] := by
  simpa using (List.mem_filter.mp h).right

end DocPress.Text
