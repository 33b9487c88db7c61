import Mathlib.Data.List.GetD
import DocPress.Grid.Plain
import DocPress.Proofs.Lists
import DocPress.Proofs.Text.Lines

-- Grids that are made from columns, and the lines that they are printed in.

namespace DocPress.Grid

open Text

variable {g : Grid} {c x : Text} {cs : List Text} {columns : List (List Text)} {k n r : Nat}

-- A grid that has cells, each of which stands on one line by itself.
structure Neat (g : Grid) : Prop where
  columns_ne_nil : g.columns ≠ []
  height_ne_zero : g.height ≠ 0
  trim_eq        : ∀ c ∈ g.columns, ∀ x ∈ c, trim x = x
  spaced         : ∀ c ∈ g.columns, ∀ x ∈ c, ∀ d ∈ x, d = ' ' ∨ isBlank d = false

-- The cells of a row with the space that fills their columns, and the dashes below the headers.
def paddedRow (g : Grid) (r : Nat) : List Text :=
  g.columns.map fun c => pad (columnWidth c) (cell c r)

def dashes (g : Grid) : List Text :=
  g.columns.map fun c => List.replicate (columnWidth c) '-'

def plainRow (g : Grid) (r : Nat) : Text :=
  joinRow (g.paddedRow r)

def topLeft (g : Grid) : Text :=
  cell (g.columns.headD []) 0

def bottomRight (g : Grid) : Text :=
  cell (g.columns.getLastD []) (g.height - 1)

theorem pad_eq (n : Nat) (x : Text) : pad n x = x ++ spaces (n - width x) := rfl

theorem ofColumns_of_min? (h : ((columns.filter (· ≠ [])).map List.length).min? = some n) :
    (ofColumns columns).height = n ∧ (ofColumns columns).columns =
      (columns.filter (· ≠ [])).map fun c => (c.take n).map oneLine := by
  unfold ofColumns
  dsimp only
  split
  case h_1 hn => exact absurd (hn.symm.trans h) (by simp)
  case h_2 m hm =>
    cases hm.symm.trans h
    exact ⟨rfl, rfl⟩

theorem exists_min? (h : ∃ cs ∈ columns, cs ≠ []) :
    ∃ n, ((columns.filter (· ≠ [])).map List.length).min? = some n ∧ n ≠ 0 := by
  have ⟨cs, hc, hn⟩ := h
  have hf : cs ∈ columns.filter (· ≠ []) := List.mem_filter.mpr ⟨hc, decide_eq_true hn⟩
  cases hm : ((columns.filter (· ≠ [])).map List.length).min?
  case none =>
    have h := List.map_eq_nil_iff.mp (List.min?_eq_none_iff.mp hm)
    exact absurd h (List.ne_nil_of_mem hf)
  case some n =>
    have ⟨ds, hd, hl⟩ := List.mem_map.mp (List.min?_eq_some_iff.mp hm).left
    have hd : ds ≠ [] := of_decide_eq_true (List.mem_filter.mp hd).right
    exact ⟨n, rfl, hl ▸ mt List.length_eq_zero_iff.mp hd⟩

theorem exists_mem_of_mem_ofColumns (h : ∃ cs ∈ columns, cs ≠ [])
    (hc : cs ∈ (ofColumns columns).columns) (hx : x ∈ cs) : ∃ ds ∈ columns, ∃ y ∈ ds, x = oneLine y := by
  have ⟨n, hm, _⟩ := exists_min? h
  rw [(ofColumns_of_min? hm).right] at hc
  have ⟨ds, hd, he⟩ := List.mem_map.mp hc
  have ⟨y, hy, hyx⟩ := List.mem_map.mp (he ▸ hx)
  exact ⟨ds, (List.mem_filter.mp hd).left, y, List.mem_of_mem_take hy, hyx.symm⟩

theorem neat_ofColumns (h : ∃ cs ∈ columns, cs ≠ []) : (ofColumns columns).Neat := by
  have ⟨n, hm, hn⟩ := exists_min? h
  have ⟨hh, hc⟩ := ofColumns_of_min? hm
  constructor
  case columns_ne_nil =>
    have ⟨cs, hcs, hn⟩ := h
    have hf : cs ∈ columns.filter (· ≠ []) := List.mem_filter.mpr ⟨hcs, decide_eq_true hn⟩
    rw [hc]
    exact List.ne_nil_of_mem (List.mem_map_of_mem hf)
  case height_ne_zero => exact hh ▸ hn
  case trim_eq =>
    intro c hc x hx
    have ⟨_, _, y, _, he⟩ := exists_mem_of_mem_ofColumns h hc hx
    exact he ▸ trim_oneLine y
  case spaced =>
    intro c hc x hx d hd
    have ⟨_, _, y, _, he⟩ := exists_mem_of_mem_ofColumns h hc hx
    exact (of_mem_oneLine (he ▸ hd)).imp_right And.right

theorem cell_align_zero (h : cs ≠ []) : cell (align cs) 0 = pad (columnWidth cs) (cell cs 0) := by
  have ⟨x, xs, he⟩ := List.exists_cons_of_ne_nil h
  subst he
  rfl

theorem cell_align_one (h : cs ≠ []) : cell (align cs) 1 = List.replicate (columnWidth cs) '-' := by
  have ⟨x, xs, he⟩ := List.exists_cons_of_ne_nil h
  subst he
  rfl

theorem cell_align_add_two (h : r + 1 < cs.length) :
    cell (align cs) (r + 2) = pad (columnWidth cs) (cell cs (r + 1)) := by
  cases cs
  case nil => contradiction
  case cons x xs =>
    have hr : r < xs.length := Nat.lt_of_succ_lt_succ h
    simp [cell, align, hr]

-- The dashes stand below the first row.
theorem toPlain_eq (hg : g.Neat) (hh : g.height = k + 1) :
    g.toPlain = joinLines
      (g.plainRow 0 :: joinRow g.dashes :: (List.range k).map fun r => g.plainRow (r + 1)) := by
  have hc : ∀ c ∈ g.columns, c ≠ [] := fun c hc => List.ne_nil_of_length_pos <| by
    rw [g.upright c hc, hh]
    exact Nat.succ_pos k
  have he : g.columns.isEmpty = false := List.isEmpty_eq_false_iff.mpr hg.columns_ne_nil
  have h₀ : (g.columns.map align).map (cell · 0) = g.paddedRow 0 := by
    rw [List.map_map]
    exact List.map_congr_left fun c h => cell_align_zero (hc c h)
  have h₁ : (g.columns.map align).map (cell · 1) = g.dashes := by
    rw [List.map_map]
    exact List.map_congr_left fun c h => cell_align_one (hc c h)
  have h₂ : ∀ r ∈ List.range k, (g.columns.map align).map (cell · (r + 2)) = g.paddedRow (r + 1) := by
    intro r hr
    rw [List.map_map]
    refine List.map_congr_left fun c h => cell_align_add_two ?_
    rw [g.upright c h, hh]
    exact Nat.succ_lt_succ (List.mem_range.mp hr)
  have hl : (List.range (k + 2)).map (fun r => joinRow ((g.columns.map align).map (cell · r))) =
      joinRow (g.paddedRow 0) :: joinRow g.dashes ::
        (List.range k).map fun r => joinRow (g.paddedRow (r + 1)) := by
    rw [map_range_succ, map_range_succ, h₀, h₁]
    exact congrArg (_ :: _ :: ·) (List.map_congr_left fun r hr => congrArg joinRow (h₂ r hr))
  rw [toPlain, he, hh]
  exact congrArg joinLines hl

-- What holds of all texts of a column and of the empty one holds of its cells.
theorem cell_induction {P : Text → Prop} (h : ∀ x ∈ cs, P x) (hn : P []) (r : Nat) :
    P (cell cs r) := by
  rw [cell, List.getD_eq_getElem?_getD]
  cases hr : cs[r]?
  case none   => exact hn
  case some x => exact h x (List.mem_of_getElem? hr)

theorem forall_mem_paddedRow {P : Char → Prop} (h : ∀ c ∈ g.columns, ∀ x ∈ c, ∀ d ∈ x, P d)
    (hs : P ' ') (r : Nat) : ∀ x ∈ g.paddedRow r, ∀ d ∈ x, P d := by
  intro x hx d hd
  have ⟨c, hc, he⟩ := List.mem_map.mp hx
  subst he
  rcases List.mem_append.mp hd with hd | hd
  case inl =>
    exact cell_induction (P := fun x => ∀ d ∈ x, P d) (h c hc) (List.forall_mem_nil P) r d hd
  case inr => exact List.eq_of_mem_replicate hd ▸ hs

theorem length_paddedRow (g : Grid) (r : Nat) : (g.paddedRow r).length = g.columns.length :=
  List.length_map _

theorem length_dashes (g : Grid) : g.dashes.length = g.columns.length :=
  List.length_map _

theorem paddedRow_ne_nil (hg : g.Neat) (r : Nat) : g.paddedRow r ≠ [] :=
  mt List.map_eq_nil_iff.mp hg.columns_ne_nil

theorem dashes_ne_nil (hg : g.Neat) : g.dashes ≠ [] :=
  mt List.map_eq_nil_iff.mp hg.columns_ne_nil

theorem eq_dash_of_mem_dashes {d : Char} (hx : x ∈ g.dashes) (hd : d ∈ x) : d = '-' := by
  have ⟨c, _, he⟩ := List.mem_map.mp hx
  exact List.eq_of_mem_replicate (he ▸ hd)

theorem trim_cell (hg : g.Neat) (hc : cs ∈ g.columns) (r : Nat) : trim (cell cs r) = cell cs r :=
  cell_induction (P := fun x => trim x = x) (hg.trim_eq cs hc) rfl r

theorem map_trim_paddedRow (hg : g.Neat) (r : Nat) :
    (g.paddedRow r).map trim = g.columns.map (cell · r) := by
  rw [paddedRow, List.map_map]
  refine List.map_congr_left fun c hc => ?_
  rw [Function.comp_apply, pad_eq, trim_append _ (blank_spaces _), trim_cell hg hc]

theorem exists_headD_paddedRow (hg : g.Neat) (r : Nat) :
    ∃ k, (g.paddedRow r).headD [] = cell (g.columns.headD []) r ++ spaces k := by
  have ⟨c, cs, he⟩ := List.exists_cons_of_ne_nil hg.columns_ne_nil
  rw [paddedRow, he]
  exact ⟨_, rfl⟩

theorem exists_getLastD_paddedRow (hg : g.Neat) (r : Nat) :
    ∃ k, (g.paddedRow r).getLastD [] = cell (g.columns.getLastD []) r ++ spaces k := by
  have ⟨cs, c, he⟩ := (List.eq_nil_or_concat g.columns).resolve_left hg.columns_ne_nil
  rw [paddedRow, he, List.concat_eq_append, List.map_append]
  simp only [List.map_singleton, List.getLastD_concat]
  exact ⟨_, rfl⟩

theorem map_cell_range (cs : List Text) : (List.range cs.length).map (cell cs) = cs := by
  apply List.ext_getElem
  case hl => rw [List.length_map, List.length_range]
  case h =>
    intro i h₁ h₂
    rw [List.getElem_map, List.getElem_range, cell, List.getD_eq_getElem _ _ h₂]

theorem rows_ne_nil (hg : g.Neat) : g.rows ≠ [] := by
  simpa [rows] using hg.height_ne_zero

theorem length_of_mem_rows : ∀ r ∈ g.rows, r.length = g.columns.length :=
  List.forall_mem_map.mpr fun _ _ => List.length_map _

-- The columns hold what the rows hold.
theorem columns_eq_of_rows (g : Grid) :
    (List.range g.columns.length).map (fun i => g.rows.map (·.getD i [])) = g.columns := by
  apply List.ext_getElem
  case hl => rw [List.length_map, List.length_range]
  case h =>
    intro i h₁ h₂
    have hm : ∀ r, (g.columns.map (cell · r)).getD i [] = cell g.columns[i] r := by
      intro r
      have hi : i < (g.columns.map (cell · r)).length := by rwa [List.length_map]
      rw [List.getD_eq_getElem _ _ hi, List.getElem_map]
    rw [List.getElem_map, List.getElem_range, rows, List.map_map]
    simp only [Function.comp_def, hm]
    rw [← g.upright _ (List.getElem_mem h₂), map_cell_range]

end DocPress.Grid
