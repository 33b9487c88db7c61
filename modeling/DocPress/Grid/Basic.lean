import DocPress.Text.Blank

namespace DocPress

open Text

-- A grid of single-line cells in columns of one height. The top cell of a column is its header.
structure Grid where
  height  : Nat
  columns : List (List Text)
  upright : ∀ c ∈ columns, c.length = height

namespace Grid

def empty : Grid where
  height  := 0
  columns := []
  upright := by simp

theorem length_take_of_min? {cs : List (List Text)} {n : Nat}
    (h : (cs.map List.length).min? = some n) :
    ∀ c ∈ cs, (c.take n).length = n := by
  intro c hc
  have hm := (List.min?_eq_some_iff.mp h).right
  rw [List.length_take]
  exact Nat.min_eq_left (hm _ (List.mem_map_of_mem hc))

-- Empty columns are dropped, the others are cut to the shortest of them, and every cell is put on
-- one line.
def ofColumns (columns : List (List Text)) : Grid :=
  let filled := columns.filter (· ≠ [])
  match h : (filled.map List.length).min? with
  | none   => empty
  | some n => {
      height  := n
      columns := filled.map fun c => (c.take n).map oneLine
      upright := by
        intro c hc
        obtain ⟨d, hd, rfl⟩ := List.mem_map.mp hc
        simpa using length_take_of_min? h d hd
    }

def cell (column : List Text) (row : Nat) : Text :=
  column.getD row []

def rows (g : Grid) : List (List Text) :=
  (List.range g.height).map fun r => g.columns.map (cell · r)

end Grid
end DocPress
