import DocPress.Grid.Html
import DocPress.Proofs.Grid.Plain
import DocPress.Proofs.Text.Markup

-- The HTML of a grid, printed from the top. The table stands at the margin, its rows one step to
-- the right of it and their cells two steps.

namespace DocPress.Grid

open Text Markup

def cellTag (header : Bool) : Text :=
  if header then "th" else "td"

def cellRow (depth : Nat) (header : Bool) (x : Text) : Row where
  depth := depth
  parts := [.opening (cellTag header), .content x, .closing (cellTag header)]

-- A row of the table, between lines of its own for its tags.
def recordRows (step depth : Nat) (header : Bool) (cells : List Text) : List Row :=
  enclosed depth [.opening "tr"] [.closing "tr"] (cells.map (cellRow (depth + step) header))

-- The first row holds the headers.
def recordsRows (step depth : Nat) : List (List Text) → List Row
  | []      => []
  | r :: rs => recordRows step depth true r ++ rs.flatMap (recordRows step depth false)

def tableRows (step : Nat) (g : Grid) : List Row :=
  enclosed 0 [.opening "table"] [.closing "table"] (recordsRows step step g.rows)

variable {g : Grid} {header : Bool} {x : Text} {cells : List Text} {rs : List (List Text)}
  {step depth k : Nat}

theorem spaced_cellTag (header : Bool) : Spaced (cellTag header) := by
  cases header <;> decide

theorem cellRow_proper (hx : Spaced x) (depth : Nat) (header : Bool) :
    (cellRow depth header x).Proper :=
  .opening (spaced_cellTag header)
    (List.forall_mem_cons.mpr ⟨hx, (Row.Proper.closing depth (spaced_cellTag header)).spaced⟩)

theorem recordRows_proper (hc : ∀ x ∈ cells, Spaced x) (step depth : Nat) (header : Bool) :
    ∀ r ∈ recordRows step depth header cells, r.Proper :=
  enclosed_proper (.opening (by decide) (List.forall_mem_nil _)) (.closing depth (by decide))
    (List.forall_mem_map.mpr fun x hx => cellRow_proper (hc x hx) _ header)

theorem recordsRows_proper (hr : ∀ cells ∈ rs, ∀ x ∈ cells, Spaced x) (step depth : Nat) :
    ∀ r ∈ recordsRows step depth rs, r.Proper := by
  cases rs
  case nil => exact List.forall_mem_nil _
  case cons cells rs =>
    have ⟨hc, hr⟩ := List.forall_mem_cons.mp hr
    refine List.forall_mem_append.mpr ⟨recordRows_proper hc step depth true, fun r h => ?_⟩
    have ⟨cells, hm, h⟩ := List.mem_flatMap.mp h
    exact recordRows_proper (hr cells hm) step depth false r h

theorem recordsRows_ne_nil (hn : rs ≠ []) : recordsRows step depth rs ≠ [] := by
  cases rs
  case nil  => contradiction
  case cons => exact List.cons_ne_nil _ _

-- The depth is a shift of all rows.

theorem map_shift_cellRow (k depth : Nat) (header : Bool) (cells : List Text) :
    (cells.map (cellRow depth header)).map (Row.shift k) =
      cells.map (cellRow (k + depth) header) :=
  List.map_map

theorem map_shift_recordRows (k step depth : Nat) (header : Bool) (cells : List Text) :
    (recordRows step depth header cells).map (Row.shift k) =
      recordRows step (k + depth) header cells := by
  rw [recordRows, map_shift_enclosed, map_shift_cellRow, recordRows, Nat.add_assoc]

theorem map_shift_recordsRows (k step depth : Nat) (rs : List (List Text)) :
    (recordsRows step depth rs).map (Row.shift k) = recordsRows step (k + depth) rs := by
  cases rs
  case nil => rfl
  case cons cells rs =>
    simp only [recordsRows, List.map_append, List.map_flatMap, map_shift_recordRows]

-- The views that are put together from the cells up are the printed rows.

theorem map_cellHtml (header : Bool) (cells : List Text) :
    cells.map (cellHtml header) = (cells.map (cellRow 0 header)).map Row.print := by
  rw [List.map_map]
  refine List.map_congr_left fun x _ => ?_
  cases header
  all_goals simp [cellHtml, cellRow, cellTag, Row.print, Row.text, Part.print, spaces]

theorem rowHtml_eq (hc : ∀ x ∈ cells, Spaced x) (hn : cells ≠ []) (step : Nat) (header : Bool) :
    rowHtml (spaces step) header cells =
      joinLines ((recordRows step 0 header cells).map Row.print) := by
  have hp : ∀ r ∈ cells.map (cellRow 0 header), r.Proper :=
    List.forall_mem_map.mpr fun x hx => cellRow_proper (hc x hx) 0 header
  have hm : cells.map (cellRow 0 header) ≠ [] := by simpa using hn
  have hs : cells.map (cellRow step header) ≠ [] := by simpa using hn
  unfold rowHtml
  rw [map_cellHtml, indent_print hp hm, map_shift_cellRow, recordRows, Nat.add_zero,
    Nat.zero_add, joinLines_enclosed hs]
  simp [Part.print, spaces]

theorem joinLines_map_joinLines {lss : List (List Text)} (h : ∀ ls ∈ lss, ls ≠ []) :
    joinLines (lss.map joinLines) = joinLines lss.flatten := by
  induction lss
  case nil => rfl
  case cons ls lss ih =>
    have ⟨hl, h⟩ := List.forall_mem_cons.mp h
    rw [List.map_cons, List.flatten_cons]
    by_cases hn : lss = []
    case pos => simp [hn]
    case neg =>
      have hf : lss.flatten ≠ [] := by
        have ⟨ks, kss, hk⟩ := List.exists_cons_of_ne_nil hn
        rw [hk, List.flatten_cons]
        exact List.append_ne_nil_of_left_ne_nil (h ks (hk ▸ List.mem_cons_self)) _
      rw [joinLines_cons _ (by simpa using hn), ih h, joinLines_append hl hf]

theorem rowsHtml_eq (hr : ∀ cells ∈ rs, cells ≠ [] ∧ ∀ x ∈ cells, Spaced x) (step : Nat) :
    joinLines (rowsHtml (spaces step) rs) =
      joinLines ((recordsRows step 0 rs).map Row.print) := by
  cases rs
  case nil => rfl
  case cons cells rs =>
    have ⟨⟨hn, hc⟩, hr⟩ := List.forall_mem_cons.mp hr
    have hm : rs.map (rowHtml (spaces step) false) =
        (rs.map fun cells => (recordRows step 0 false cells).map Row.print).map joinLines := by
      rw [List.map_map]
      refine List.map_congr_left fun cells h => ?_
      exact rowHtml_eq (hr cells h).right (hr cells h).left step false
    have he : ∀ ls ∈ (recordRows step 0 true cells).map Row.print ::
        rs.map fun cells => (recordRows step 0 false cells).map Row.print, ls ≠ [] :=
      List.forall_mem_cons.mpr ⟨List.cons_ne_nil _ _,
        List.forall_mem_map.mpr fun _ _ => List.cons_ne_nil _ _⟩
    rw [rowsHtml, rowHtml_eq hc hn, hm, ← List.map_cons (f := joinLines),
      joinLines_map_joinLines he, List.flatten_cons, recordsRows, List.map_append,
      List.map_flatMap, List.flatMap_def]

theorem spaced_rows (hg : g.Neat) : ∀ cells ∈ g.rows, cells ≠ [] ∧ ∀ x ∈ cells, Spaced x := by
  intro cells h
  obtain ⟨r, _, rfl⟩ := List.mem_map.mp h
  refine ⟨by simpa using hg.columns_ne_nil, List.forall_mem_map.mpr fun c hc => ?_⟩
  exact cell_induction (P := Spaced) (hg.spaced c hc) (List.forall_mem_nil _) r

theorem tableRows_proper (hg : g.Neat) (step : Nat) : ∀ r ∈ g.tableRows step, r.Proper :=
  enclosed_proper (.opening (by decide) (List.forall_mem_nil _)) (.closing 0 (by decide))
    (recordsRows_proper (fun cells h => (spaced_rows hg cells h).right) step step)

theorem toHtml_eq_rows (hg : g.Neat) (step : Nat) :
    g.toHtml step = joinLines ((g.tableRows step).map Row.print) := by
  have he : g.columns.isEmpty = false := List.isEmpty_eq_false_iff.mpr hg.columns_ne_nil
  have hp := recordsRows_proper (fun cells h => (spaced_rows hg cells h).right) step 0
  have hn : ∀ depth, recordsRows step depth g.rows ≠ [] := fun _ =>
    recordsRows_ne_nil (rows_ne_nil hg)
  rw [toHtml, he, if_neg Bool.false_ne_true, rowsHtml_eq (spaced_rows hg), indent_print hp (hn 0),
    map_shift_recordsRows, Nat.add_zero, tableRows, joinLines_enclosed (hn step)]
  simp [Part.print, spaces]

end DocPress.Grid
