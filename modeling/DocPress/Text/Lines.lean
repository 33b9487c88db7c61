import DocPress.Text.Basic

-- Texts as lines.

namespace DocPress.Text

-- Every line feed ends a line and starts the next one, so a text has one line more than line
-- feeds, and joining the lines gives the text back.
def splitLines (x : Text) : List Text :=
  x.splitOn '\n'

def joinLines (ls : List Text) : Text :=
  join ['\n'] ls

theorem joinLines_splitLines (x : Text) : joinLines (splitLines x) = x :=
  List.intercalate_splitOn _

theorem splitLines_joinLines {ls : List Text} (h : ∀ l ∈ ls, '\n' ∉ l) (hn : ls ≠ []) :
    splitLines (joinLines ls) = ls :=
  List.splitOn_intercalate _ h hn

theorem not_mem_of_mem_splitLines {x l : Text} (h : l ∈ splitLines x) : '\n' ∉ l :=
  fun hc => by simpa using not_of_mem_splitOnP h _ hc

-- The room that lines take when each is ended by a line feed.
def extent : List Text → Nat
  | []      => 0
  | l :: ls => l.length + 1 + extent ls

@[simp]
theorem extent_nil : extent [] = 0 := rfl

@[simp]
theorem extent_cons (l : Text) (ls : List Text) : extent (l :: ls) = l.length + 1 + extent ls := rfl

theorem length_joinLines : ∀ ls, (joinLines ls).length = extent ls - 1
  | []           => rfl
  | [l]          => by simp [joinLines]
  | l :: k :: ls => by
    have h := length_joinLines (k :: ls)
    simp only [joinLines, join_cons_cons, List.length_append] at h ⊢
    simp only [extent_cons, List.length_cons, List.length_nil] at h ⊢
    omega

theorem extent_splitLines (x : Text) : extent (splitLines x) = x.length + 1 := by
  have h := length_joinLines (splitLines x)
  rw [joinLines_splitLines] at h
  cases hs : splitLines x with
  | nil => exact absurd hs (List.splitOn_ne_nil _ _)
  | cons l ls => simp only [hs, extent_cons] at h ⊢; omega

def firstLine (x : Text) : Text :=
  x.takeWhile (· ≠ '\n')

-- The lines as a reader counts them: a carriage return before a line feed belongs to the line
-- end, and a final line feed starts no further line.
def lines (x : Text) : List Text :=
  let ls := splitLines x
  ls.dropLast.map (dropEnd ['\r']) ++ ls.getLast?.toList.filter (· ≠ [])

-- Paragraphs and blocks stand one empty line apart.
def joinBlocks (bs : List Text) : Text :=
  join ['\n', '\n'] bs

end DocPress.Text
