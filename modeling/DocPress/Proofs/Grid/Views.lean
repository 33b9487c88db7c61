import DocPress.Proofs.Grid.Alignment
import DocPress.Proofs.Grid.Html

-- The lines of both views of a grid. The HTML has a line for each tag of a row or of the table and one
-- for each cell, and it shows what the aligned text shows.

namespace DocPress.Grid

open Text Markup

def recordLines (n : Nat) (tag : Text) (cells : List Text) : List Text :=
  (spaces n ++ "<tr>") ::
    (cells.map (fun x => spaces (2 * n) ++ "<" ++ tag ++ ">" ++ x ++ "</" ++ tag ++ ">") ++
      [spaces n ++ "</tr>"])

def tableLines (n : Nat) (rows : List (List Text)) : List Text :=
  "<table>" ::
    ((rows.mapIdx fun r cells => recordLines n (if r = 0 then "th" else "td") cells).flatten ++
      ["</table>".toList])

variable {g : Grid} {cs : List Text} {columns : List (List Text)} {n r : Nat}

theorem map_print_recordRows (n : Nat) (header : Bool) (cells : List Text) :
    (recordRows n n header cells).map Row.print = recordLines n (cellTag header) cells := by
  rw [recordRows, map_print_enclosed, List.map_map, recordLines, Nat.two_mul]
  simp [cellRow, Row.print, Row.text, Part.print, Function.comp_def]

theorem map_print_recordsRows (n : Nat) (rows : List (List Text)) :
    (recordsRows n n rows).map Row.print =
      (rows.mapIdx fun r cells => recordLines n (if r = 0 then "th" else "td") cells).flatten := by
  cases rows
  case nil => rfl
  case cons cells rows =>
    have hd : (rows.mapIdx fun r cells => recordLines n (if r + 1 = 0 then "th" else "td") cells) =
        rows.map (recordLines n "td") :=
      List.mapIdx_eq_iff.mpr fun _ => List.getElem?_map
    rw [recordsRows, List.map_append, List.map_flatMap, List.mapIdx_cons, List.flatten_cons, hd,
      ← List.flatMap_def]
    simp only [map_print_recordRows]
    rfl

theorem splitLines_toHtml (hg : g.Neat) (n : Nat) :
    splitLines (g.toHtml n) = tableLines n g.rows := by
  have hr := isRow_of_mem_print (tableRows_proper hg n)
  rw [toHtml_eq_rows hg, splitLines_of_rows hr (List.cons_ne_nil _ _), tableRows,
    map_print_enclosed, map_print_recordsRows]
  rfl

-- The columns that are not empty are those of the grid.

theorem columns_ofColumns_eq_nil_iff :
    (ofColumns columns).columns = [] ↔ ∀ c ∈ columns, c = [] := by
  constructor
  case mp =>
    intro he
    by_contra h
    rw [not_forall] at h
    have ⟨c, h⟩ := h
    have ⟨hc, hn⟩ := Classical.not_imp.mp h
    exact (neat_ofColumns ⟨c, hc, hn⟩).columns_ne_nil he
  case mpr =>
    intro h
    unfold ofColumns
    dsimp only
    split
    case h_1      => rfl
    case h_2 m hm =>
      have hf : columns.filter (· ≠ []) = [] := by simpa using h
      rw [hf] at hm
      contradiction

theorem toHtml_eq_nil_iff : g.toHtml n = [] ↔ g.columns = [] := by
  rw [toHtml]
  cases g.columns <;> simp

theorem some_cell (hr : r < cs.length) : some (cell cs r) = cs[r]? := by
  rw [cell, List.getD_eq_getElem _ _ hr, List.getElem?_eq_getElem hr]

-- Every cell of the grid has a cell of a column in its place.
theorem map_some_rows (hm : ((columns.filter (· ≠ [])).map List.length).min? = some n) :
    (ofColumns columns).rows.map (·.map some) =
      (List.range n).map fun r => (columns.filter (· ≠ [])).map fun cs => cs[r]?.map oneLine := by
  have ⟨hh, hc⟩ := ofColumns_of_min? hm
  rw [rows, hh, hc, List.map_map]
  refine List.map_congr_left fun r hr => ?_
  rw [Function.comp_apply, List.map_map, List.map_map]
  refine List.map_congr_left fun c hc => ?_
  have hr : r < n := List.mem_range.mp hr
  have hl : r < ((c.take n).map oneLine).length := by
    rwa [List.length_map, length_take_of_min? hm c hc]
  rw [Function.comp_apply, Function.comp_apply, some_cell hl, List.getElem?_map,
    List.getElem?_take_of_lt hr]

-- The HTML is empty if there is no column to show. Otherwise it is the table that is printed from the
-- rows, which are the same that the lines of the aligned text show. Every cell that is looked up for
-- one of the views is there: columns are as long as there are rows, with and without the dashes.
theorem splitLines_views (columns : List (List Text)) (n : Nat) :
    let filled := columns.filter (· ≠ [])
    let g := ofColumns columns
    (g.toHtml n = [] ↔ ∀ c ∈ columns, c = []) ∧
      ((∃ c ∈ columns, c ≠ []) → ∃ h w ps,
        (filled.map List.length).min? = some h ∧
        g.rows.map (·.map some) =
          (List.range h).map (fun r => filled.map fun cs => cs[r]?.map oneLine) ∧
        splitLines (g.toHtml n) = tableLines n g.rows ∧
        ps.Pairwise (· < ·) ∧
        List.Forall₂ (Shows w ps) (g.rows.insertIdx 1 g.dashes) (splitLines g.toPlain) ∧
        g.columns ≠ [] ∧ ∀ c ∈ g.columns, c.length = h ∧ (align c).length = h + 1) := by
  intro filled g
  refine ⟨toHtml_eq_nil_iff.trans columns_ofColumns_eq_nil_iff, fun hn => ?_⟩
  have hg : g.Neat := neat_ofColumns hn
  have ⟨h, hm, hh⟩ := exists_min? hn
  have hgh := (ofColumns_of_min? hm).left
  have ⟨w, ps, hp, hs⟩ := exists_shows_toPlain hg
  refine ⟨h, w, ps, hm, map_some_rows hm, splitLines_toHtml hg n, hp, hs, hg.columns_ne_nil, ?_⟩
  intro c hc
  have hl : c.length = h := (g.upright c hc).trans hgh
  have hn : c ≠ [] := List.ne_nil_of_length_pos (hl ▸ Nat.pos_of_ne_zero hh)
  exact ⟨hl, hl ▸ length_align hn⟩

theorem splitLines_views_ragged :
    let columns : List (List Text) := [["A", " x\n\ty"], [], ["", "|", "cut"]]
    let filled := columns.filter (· ≠ [])
    let g := ofColumns columns
    (∃ c ∈ columns, c ≠ []) ∧
      g.toPlain = "A   |  \n--- | -\nx y | |".toList ∧
      (g.toHtml 1 = [] ↔ ∀ c ∈ columns, c = []) ∧
      ∃ h w ps, (filled.map List.length).min? = some h ∧
        g.rows.map (·.map some) =
          (List.range h).map (fun r => filled.map fun cs => cs[r]?.map oneLine) ∧
        splitLines (g.toHtml 1) = tableLines 1 g.rows ∧
        ps.Pairwise (· < ·) ∧
        List.Forall₂ (Shows w ps) (g.rows.insertIdx 1 g.dashes) (splitLines g.toPlain) ∧
        g.columns ≠ [] ∧ ∀ c ∈ g.columns, c.length = h ∧ (align c).length = h + 1 := by
  intro columns filled g
  have hn : ∃ c ∈ columns, c ≠ [] := ⟨["A", " x\n\ty"], List.mem_cons_self, List.cons_ne_nil _ _⟩
  have hp : g.toPlain = "A   |  \n--- | -\nx y | |".toList := by decide +kernel
  have ⟨he, hv⟩ := splitLines_views columns 1
  exact ⟨hn, hp, he, hv hn⟩

end DocPress.Grid
