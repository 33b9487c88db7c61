import DocPress.Proofs.Grid.Alignment
import DocPress.Proofs.Markdown.PipeTable

-- Printed grids that are read as they are. The white space at the ends of the text keeps the bars of
-- empty cells away from the ends of their lines, so that no column is lost.

namespace DocPress.Markdown.PipeTable

open Text

variable {g : Grid} {columns : List (List Text)}

theorem accepts_toPlain (hg : g.Neat) (hb : ∀ c ∈ g.columns, ∀ x ∈ c, '|' ∉ x) :
    accepts g.toPlain := by
  have ⟨k, hk⟩ := Nat.exists_eq_succ_of_ne_zero hg.height_ne_zero
  have hl := (Grid.lines_toPlain hg).trans (Grid.map_joinRow_printedRows hk)
  have ht := Grid.toPlain_eq hg hk
  apply accepts_of_lines _ _ hl
  case hs => exact bars_eq_of_mem hg hb k
  case hu => exact isUnderline_dashes g
  · rw [ht, joinLines_cons _ (List.cons_ne_nil _ _)]
    exact List.mem_append_right _ List.mem_cons_self
  · exact ht ▸ mem_joinLines List.mem_cons_self (bar_mem_joinRow (Grid.paddedRow_ne_nil hg 0))

theorem columns_toPlain (hg : g.Neat) (hb : ∀ c ∈ g.columns, ∀ x ∈ c, '|' ∉ x) :
    (PipeTable.columns g.toPlain).map (·.map trim) = g.columns := by
  have hr : ((lines g.toPlain).eraseIdx 1).map (fun l => (cells l).map trim) = g.rows := by
    rw [Grid.lines_toPlain hg, List.eraseIdx_map, Grid.eraseIdx_printedRows, List.map_map,
      List.map_map, Grid.rows]
    refine List.map_congr_left fun r _ => ?_
    rw [Function.comp_apply, Function.comp_apply, ← Grid.map_trim_paddedRow hg]
    exact map_trim_cells_joinRow (Grid.paddedRow_ne_nil hg r) (noBar_paddedRow hb r)
  rw [map_columns hr (Grid.rows_ne_nil hg) Grid.length_of_mem_rows, Grid.columns_eq_of_rows]

-- The table that is printed from columns has a line for each row of the shortest one and a line of
-- dashes. All lines are equally wide, with the bars between the cells at the same places. If there are
-- no bars in the cells, then the text is a table, and the grid is read back from it.
theorem shows_and_columns_toPlain (hn : ∃ c ∈ columns, c ≠ []) :
    let filled := columns.filter (· ≠ [])
    let g := Grid.ofColumns columns
    ∃ h n ps, (filled.map List.length).min? = some h ∧
      g.columns = filled.map (fun c => (c.take h).map oneLine) ∧
      (splitLines g.toPlain).length = h + 1 ∧
      ps.Pairwise (· < ·) ∧
      List.Forall₂ (Grid.Shows n ps) (g.rows.insertIdx 1 g.dashes) (splitLines g.toPlain) ∧
      (∃ u, (splitLines g.toPlain)[1]? = some u ∧ ∀ c ∈ u, c = '-' ∨ c = '|' ∨ c = ' ') ∧
      ((∀ c ∈ columns, ∀ x ∈ c, '|' ∉ x) →
        accepts g.toPlain ∧ (PipeTable.columns g.toPlain).map (·.map trim) = g.columns) := by
  intro filled g
  have hg : g.Neat := Grid.neat_ofColumns hn
  have ⟨h, hm, hh⟩ := Grid.exists_min? hn
  have ⟨hgh, hgc⟩ := Grid.ofColumns_of_min? hm
  have ⟨n, ps, hp, hs⟩ := Grid.exists_shows_toPlain hg
  have hl := Grid.splitLines_toPlain hg
  refine ⟨h, n, ps, hm, hgc, ?lines, hp, hs, ⟨Grid.joinRow g.dashes, ?second, ?chars⟩,
    fun hb => ?back⟩
  case lines => rw [hl, List.length_map, Grid.length_printedRows hg, hgh]
  case second =>
    have ⟨k, hk⟩ := Nat.exists_eq_succ_of_ne_zero hg.height_ne_zero
    rw [hl, Grid.map_joinRow_printedRows hk]
    rfl
  case chars => simpa [isUnderline, or_assoc] using isUnderline_dashes g
  case back =>
    have hb : ∀ c ∈ g.columns, ∀ x ∈ c, '|' ∉ x := noBar_ofColumns hn hb
    exact ⟨accepts_toPlain hg hb, columns_toPlain hg hb⟩

theorem shows_and_columns_toPlain_gaps :
    let columns : List (List Text) := [["", "b\n c", "x"], [], ["", " "]]
    let filled := columns.filter (· ≠ [])
    let g := Grid.ofColumns columns
    (∃ c ∈ columns, c ≠ []) ∧ (∀ c ∈ columns, ∀ x ∈ c, '|' ∉ x) ∧
      g.toPlain = "    | \n--- | \nb c | ".toList ∧
      ∃ h n ps, (filled.map List.length).min? = some h ∧
        g.columns = filled.map (fun c => (c.take h).map oneLine) ∧
        (splitLines g.toPlain).length = h + 1 ∧
        ps.Pairwise (· < ·) ∧
        List.Forall₂ (Grid.Shows n ps) (g.rows.insertIdx 1 g.dashes) (splitLines g.toPlain) ∧
        (∃ u, (splitLines g.toPlain)[1]? = some u ∧ ∀ c ∈ u, c = '-' ∨ c = '|' ∨ c = ' ') ∧
        accepts g.toPlain ∧ (PipeTable.columns g.toPlain).map (·.map trim) = g.columns := by
  intro columns filled g
  have hn : ∃ c ∈ columns, c ≠ [] := ⟨["", "b\n c", "x"], List.mem_cons_self, List.cons_ne_nil _ _⟩
  have hb : ∀ c ∈ columns, ∀ x ∈ c, '|' ∉ x := by decide +kernel
  have hp : g.toPlain = "    | \n--- | \nb c | ".toList := by decide +kernel
  have ⟨h, n, ps, hm, hc, hl, hs, hf, hu, hr⟩ := shows_and_columns_toPlain hn
  exact ⟨hn, hb, hp, h, n, ps, hm, hc, hl, hs, hf, hu, hr hb⟩

end DocPress.Markdown.PipeTable
