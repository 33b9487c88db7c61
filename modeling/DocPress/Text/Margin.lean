import DocPress.Text.Blank
import DocPress.Text.Lines

-- The margin of a text is the longest run of spaces and tabs that all its lines begin with, lines
-- of white space only left out.

namespace DocPress.Text

def isIndent (c : Char) : Bool :=
  c = ' ' || c = '\t'

def commonStart : Text → Text → Text
  | a :: x, b :: y => if a = b then a :: commonStart x y else []
  | _,      _      => []

theorem commonStart_prefix_left : ∀ x y, commonStart x y <+: x
  | [],     _      => by simp [commonStart]
  | _ :: _, []     => by simp [commonStart]
  | a :: x, b :: y => by
    simp only [commonStart]
    split
    · exact (List.prefix_cons_inj a).mpr (commonStart_prefix_left x y)
    · exact List.nil_prefix

@[simp]
theorem commonStart_nil_left (y : Text) : commonStart [] y = [] := by
  simp [commonStart]

theorem foldl_commonStart_nil (ms : List Text) : ms.foldl commonStart [] = [] := by
  induction ms <;> simp_all

def marginOf (ls : List Text) : Text :=
  match ls.map (List.takeWhile isIndent) with
  | []      => []
  | m :: ms => ms.foldl commonStart m

-- Empties the lines of white space and takes the margin off the others.
def dedentLines (ls : List Text) : List Text :=
  let ls := ls.map fun l => if blank l then [] else l
  ls.map (dropStart (marginOf (ls.filter (· ≠ []))))

theorem extent_map_le {f : Text → Text} (h : ∀ l, (f l).length ≤ l.length) (ls : List Text) :
    extent (ls.map f) ≤ extent ls := by
  induction ls with
  | nil => simp
  | cons l _ ih => have := h l; simp; omega

theorem extent_dedentLines_le (ls : List Text) : extent (dedentLines ls) ≤ extent ls := by
  refine Nat.le_trans (extent_map_le (length_dropStart_le _) _) (extent_map_le ?_ _)
  intro l
  split <;> simp

-- A line that begins at the very left leaves no margin to take off.
theorem dedentLines_cons {l : Text} (ls : List Text) (hb : blank l = false)
    (hm : l.takeWhile isIndent = []) :
    dedentLines (l :: ls) = l :: ls.map fun l => if blank l then [] else l := by
  have hl : l ≠ [] := by rintro rfl; simp [blank] at hb
  simp [dedentLines, hb, hl, marginOf, hm, foldl_commonStart_nil]

def dedent (x : Text) : Text :=
  joinLines (dedentLines (splitLines x))

-- Puts a text in front of every line that holds more than white space.
def indent (start x : Text) : Text :=
  joinLines ((splitLines x).map fun l => if blank l then l else start ++ l)

end DocPress.Text
