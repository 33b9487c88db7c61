import Mathlib.Data.List.Forall2
import Mathlib.Data.List.InsertIdx
import DocPress.Proofs.Grid.Plain
import DocPress.Proofs.Markdown.TableRows

-- The lines that a grid is printed in. All texts of a column are made equally wide, so that the bars
-- between the columns stand below each other.

namespace DocPress.Grid

open Text

-- The parts of a line from a place on, with one character left out at each of the further places.
def between (n : Nat) : List Nat → Text → List Text
  | [],      l => [l.drop n]
  | p :: ps, l => (l.drop n).take (p - n) :: between (p + 1) ps l

-- A single cell has bars at both sides.
def framed : List Text → List Text
  | [x]   => [[], x, []]
  | cells => cells

-- A line of a given width that shows cells around the bars that stand at given places.
structure Shows (n : Nat) (ps : List Nat) (cells : List Text) (l : Text) : Prop where
  width_eq : width l = n
  bars     : ∀ p ∈ ps, l[p]? = some '|'
  cells    : (between 0 ps l).map trim = framed cells

-- The places of the bars in a row whose cells have given widths, and the width of the row. The first
-- cell begins at a given place.

def barsFrom (n : Nat) : List Nat → List Nat
  | w :: v :: ws => (n + w + 1) :: barsFrom (n + w + 3) (v :: ws)
  | _            => []

def widthFrom (n : Nat) : List Nat → Nat
  | []           => n
  | [w]          => n + w
  | w :: v :: ws => widthFrom (n + w + 3) (v :: ws)

def rowBars : List Nat → List Nat
  | [w] => [0, w + 3]
  | ws  => barsFrom 0 ws

def rowWidth : List Nat → Nat
  | [w] => w + 4
  | ws  => widthFrom 0 ws

variable {g : Grid} {x z : Text} {xs : List Text} {ws : List Nat} {k n s : Nat}

theorem lt_of_mem_barsFrom : ∀ p ∈ barsFrom n ws, n < p := by
  induction ws generalizing n
  case nil => exact List.forall_mem_nil _
  case cons w ws ih =>
    cases ws
    case nil => exact List.forall_mem_nil _
    case cons v ws =>
      refine List.forall_mem_cons.mpr ⟨by omega, fun p hp => ?_⟩
      have := ih p hp
      omega

theorem pairwise_barsFrom (n : Nat) (ws : List Nat) : (barsFrom n ws).Pairwise (· < ·) := by
  induction ws generalizing n
  case nil => exact .nil
  case cons w ws ih =>
    cases ws
    case nil => exact .nil
    case cons v ws =>
      refine .cons (fun p hp => ?_) (ih _)
      have := lt_of_mem_barsFrom p hp
      omega

theorem pairwise_rowBars (ws : List Nat) : (rowBars ws).Pairwise (· < ·) := by
  match ws with
  | []           => exact .nil
  | [w]          => exact List.pairwise_pair.mpr (Nat.succ_pos _)
  | w :: v :: ws => exact pairwise_barsFrom 0 _

-- The cells of a row behind a text that the row begins with. That text ends with the space in front
-- of the first cell, if there is one. The next cell stands behind the text, the first cell and a bar.

theorem append_join_cons (z x y : Text) (ys : List Text) :
    z ++ join [' ', '|', ' '] (x :: y :: ys) =
      z ++ x ++ [' '] ++ ['|', ' '] ++ join [' ', '|', ' '] (y :: ys) := by
  simp [join_cons_cons]

theorem length_append_space (z x : Text) : (z ++ x ++ [' ']).length = z.length + width x + 1 := by
  simp [width, Nat.add_assoc]

theorem length_append_bar (z x : Text) :
    (z ++ x ++ [' '] ++ ['|', ' ']).length = z.length + width x + 3 := by
  simp [width, Nat.add_assoc]

theorem between_append (s : Nat) (x : Text) (ps : List Nat) (y : Text) :
    between s (x.length :: ps) (x ++ y) = x.drop s :: between (x.length + 1) ps (x ++ y) := by
  rw [between, ← List.drop_take, List.take_left]

theorem width_append_join (hx : xs ≠ []) (z : Text) :
    width (z ++ join [' ', '|', ' '] xs) = widthFrom z.length (xs.map width) := by
  induction xs generalizing z
  case nil => contradiction
  case cons x xs ih =>
    cases xs
    case nil       => simp [widthFrom, width]
    case cons y ys => rw [append_join_cons, ih (List.cons_ne_nil y ys), length_append_bar]; rfl

theorem bars_append_join (hx : xs ≠ []) (z : Text) :
    ∀ p ∈ barsFrom z.length (xs.map width),
      (z ++ join [' ', '|', ' '] xs)[p]? = some '|' := by
  induction xs generalizing z
  case nil => contradiction
  case cons x xs ih =>
    cases xs
    case nil => exact List.forall_mem_nil _
    case cons y ys =>
      have ih := ih (List.cons_ne_nil y ys) (z ++ x ++ [' '] ++ ['|', ' '])
      rw [length_append_bar] at ih
      rw [append_join_cons]
      refine List.forall_mem_cons.mpr ⟨?_, ih⟩
      have hp := length_append_space z x
      rw [← hp, List.append_assoc _ ['|', ' '], List.getElem?_append_right (Nat.le_refl _),
        Nat.sub_self]
      rfl

theorem cells_append_join (hx : xs ≠ []) (hs : s ≤ z.length) (hz : blank (z.drop s)) :
    (between s (barsFrom z.length (xs.map width)) (z ++ join [' ', '|', ' '] xs)).map trim =
      xs.map trim := by
  induction xs generalizing z s
  case nil => contradiction
  case cons x xs ih =>
    cases xs
    case nil =>
      have hd : (z ++ x).drop s = z.drop s ++ x := List.drop_append_of_le_length hs
      rw [join_singleton]
      exact congrArg (fun y => [trim y]) hd |>.trans (by rw [trim_append_left hz]; rfl)
    case cons y ys =>
      have hp := length_append_space z x
      have hl := length_append_bar z x
      have hd : trim ((z ++ x ++ [' ']).drop s) = trim x := by
        rw [List.append_assoc, List.drop_append_of_le_length hs, trim_append_left hz,
          trim_append x rfl]
      have hb : blank ((z ++ x ++ [' '] ++ ['|', ' ']).drop ((z ++ x ++ [' ']).length + 1)) := by
        rw [List.drop_append, Nat.add_sub_cancel_left, List.drop_of_length_le (Nat.le_succ _)]
        rfl
      have ih := ih (List.cons_ne_nil y ys) (by omega) hb
      have hc : barsFrom z.length ((x :: y :: ys).map width) =
          (z ++ x ++ [' ']).length :: barsFrom (z.length + width x + 3) ((y :: ys).map width) := by
        rw [hp]
        rfl
      rw [hl] at ih
      rw [hc, append_join_cons, List.append_assoc _ ['|', ' '], between_append, List.map_cons, hd,
        ← List.append_assoc, ih]
      rfl

-- The line of a row shows its cells, and where the bars stand is up to the widths of the cells.
theorem shows_joinRow (hx : xs ≠ []) :
    Shows (rowWidth (xs.map width)) (rowBars (xs.map width)) (xs.map trim) (joinRow xs) := by
  match xs with
  | [x] =>
    constructor
    case width_eq => simp [rowWidth, joinRow, width]
    case bars     => simp [rowBars, joinRow, width]
    case cells =>
      have hl : joinRow [x] = '|' :: ' ' :: (x ++ [' ']) ++ ['|'] := by simp [joinRow]
      have hw : ('|' :: ' ' :: (x ++ [' '])).length = width x + 3 := by simp [width]
      have hb := between_append 1 ('|' :: ' ' :: (x ++ [' '])) [] ['|']
      have hd : (joinRow [x]).drop (width x + 3 + 1) = [] :=
        List.drop_of_length_le (by simp [hl, width])
      have ht : trim (' ' :: (x ++ [' '])) = trim x :=
        (trim_append_left (x := [' ']) rfl _).trans (trim_append x rfl)
      rw [hw, ← hl, between, hd] at hb
      show ([] :: between 1 [width x + 3] (joinRow [x])).map trim = [[], trim x, []]
      rw [hb, ← ht]
      rfl
  | x :: y :: ys =>
    have hn := List.cons_ne_nil x (y :: ys)
    constructor
    case width_eq => exact width_append_join hn []
    case bars     => exact bars_append_join hn []
    case cells    => exact cells_append_join (z := []) hn (Nat.le_refl _) rfl

-- Every column is as wide as the widest of its cells.

theorem width_le_columnWidth (hx : x ∈ xs) : width x ≤ columnWidth xs := by
  have hm : (0 :: xs.map width).max? = some (columnWidth xs) := rfl
  exact (List.max?_eq_some_iff.mp hm).right _ (List.mem_cons_of_mem 0 (List.mem_map_of_mem hx))

theorem width_pad (h : width x ≤ n) : width (pad n x) = n := by
  rw [pad, width, List.length_append, spaces, List.length_replicate]
  exact Nat.add_sub_cancel' h

theorem map_width_paddedRow (g : Grid) (r : Nat) :
    (g.paddedRow r).map width = g.columns.map columnWidth := by
  rw [paddedRow, List.map_map]
  refine List.map_congr_left fun c _ => width_pad ?_
  exact cell_induction (P := (width · ≤ columnWidth c)) (fun _ => width_le_columnWidth)
    (Nat.zero_le _) r

theorem map_width_dashes (g : Grid) : g.dashes.map width = g.columns.map columnWidth := by
  rw [dashes, List.map_map]
  exact List.map_congr_left fun c _ => List.length_replicate

theorem map_trim_dashes (g : Grid) : g.dashes.map trim = g.dashes := by
  refine .trans (List.map_congr_left fun x hx => ?_) (List.map_id _)
  have hb : ∀ c ∈ x, isBlank c = false := fun c hc => eq_dash_of_mem_dashes hx hc ▸ rfl
  exact trimBy_eq_self (fun c hc => hb c (List.mem_of_mem_head? hc))
    fun c hc => hb c (List.mem_of_mem_getLast? hc)

-- The rows of the printed grid, with cells that fill their columns and the dashes as the second row.
def printedRows (g : Grid) : List (List Text) :=
  ((List.range g.height).map g.paddedRow).insertIdx 1 g.dashes

theorem printedRows_eq (hh : g.height = k + 1) :
    g.printedRows =
      g.paddedRow 0 :: g.dashes :: (List.range k).map fun r => g.paddedRow (r + 1) := by
  rw [printedRows, hh, map_range_succ, List.insertIdx_succ_cons, List.insertIdx_zero]

theorem length_printedRows (hg : g.Neat) : g.printedRows.length = g.height + 1 := by
  have ⟨k, hk⟩ := Nat.exists_eq_succ_of_ne_zero hg.height_ne_zero
  simp [printedRows_eq hk, hk]

theorem eraseIdx_printedRows (g : Grid) :
    g.printedRows.eraseIdx 1 = (List.range g.height).map g.paddedRow :=
  List.eraseIdx_insertIdx_self _

theorem printedRows_induction {P : List Text → Prop} (hr : ∀ r, P (g.paddedRow r))
    (hd : P g.dashes) : ∀ cells ∈ g.printedRows, P cells := by
  intro cells h
  rcases List.eq_or_mem_of_mem_insertIdx h with h | h
  case inl => exact h ▸ hd
  case inr =>
    obtain ⟨r, _, rfl⟩ := List.mem_map.mp h
    exact hr r

theorem printedRows_ne_nil (hg : g.Neat) : g.printedRows ≠ [] :=
  List.ne_nil_of_length_eq_add_one (length_printedRows hg)

theorem ne_nil_of_mem_printedRows (hg : g.Neat) : ∀ cells ∈ g.printedRows, cells ≠ [] :=
  printedRows_induction (paddedRow_ne_nil hg) (dashes_ne_nil hg)

theorem map_width_of_mem_printedRows :
    ∀ cells ∈ g.printedRows, cells.map width = g.columns.map columnWidth :=
  printedRows_induction (P := fun cells => cells.map width = g.columns.map columnWidth)
    g.map_width_paddedRow g.map_width_dashes

-- What holds of all characters of the grid holds of all characters between the bars.
theorem forall_mem_printedRows {P : Char → Prop} (h : ∀ c ∈ g.columns, ∀ x ∈ c, ∀ d ∈ x, P d)
    (hs : P ' ') (hd : P '-') : ∀ cells ∈ g.printedRows, ∀ x ∈ cells, ∀ d ∈ x, P d :=
  printedRows_induction (P := fun cells => ∀ x ∈ cells, ∀ d ∈ x, P d) (forall_mem_paddedRow h hs)
    fun _ hx _ hm => eq_dash_of_mem_dashes hx hm ▸ hd

-- Without the space that fills them, the rows are those of the grid.
theorem map_map_trim_printedRows (hg : g.Neat) :
    g.printedRows.map (·.map trim) = g.rows.insertIdx 1 g.dashes := by
  rw [printedRows, List.map_insertIdx, map_trim_dashes, List.map_map, rows]
  exact congrArg (List.insertIdx · 1 g.dashes)
    (List.map_congr_left fun r _ => map_trim_paddedRow hg r)

theorem map_joinRow_printedRows (hh : g.height = k + 1) :
    g.printedRows.map joinRow =
      g.plainRow 0 :: joinRow g.dashes :: (List.range k).map fun r => g.plainRow (r + 1) := by
  rw [printedRows_eq hh, List.map_cons, List.map_cons, List.map_map]
  rfl

theorem toPlain_eq_rows (hg : g.Neat) : g.toPlain = joinLines (g.printedRows.map joinRow) := by
  have ⟨k, hk⟩ := Nat.exists_eq_succ_of_ne_zero hg.height_ne_zero
  rw [toPlain_eq hg hk, map_joinRow_printedRows hk]

theorem isRow_of_mem_toPlain (hg : g.Neat) : ∀ l ∈ g.printedRows.map joinRow, IsRow l :=
  List.forall_mem_map.mpr fun cells h =>
    Markdown.PipeTable.isRow_joinRow (ne_nil_of_mem_printedRows hg cells h)
      (forall_mem_printedRows hg.spaced (.inl rfl) (.inr rfl) cells h)

theorem splitLines_toPlain (hg : g.Neat) : splitLines g.toPlain = g.printedRows.map joinRow := by
  rw [toPlain_eq_rows hg, splitLines_of_rows (isRow_of_mem_toPlain hg)]
  exact mt List.map_eq_nil_iff.mp (printedRows_ne_nil hg)

theorem lines_toPlain (hg : g.Neat) : lines g.toPlain = g.printedRows.map joinRow := by
  rw [toPlain_eq_rows hg, lines_of_rows (isRow_of_mem_toPlain hg)]

-- The lines are equally wide, with the bars at the same places on each of them, and they show the
-- rows of the grid and the dashes.
theorem exists_shows_toPlain (hg : g.Neat) : ∃ n ps, ps.Pairwise (· < ·) ∧
    List.Forall₂ (Shows n ps) (g.rows.insertIdx 1 g.dashes) (splitLines g.toPlain) := by
  refine ⟨rowWidth (g.columns.map columnWidth), rowBars (g.columns.map columnWidth),
    pairwise_rowBars _, ?_⟩
  rw [splitLines_toPlain hg, ← map_map_trim_printedRows hg, List.forall₂_map_left_iff,
    List.forall₂_map_right_iff, List.forall₂_same]
  intro cells h
  rw [← map_width_of_mem_printedRows cells h]
  exact shows_joinRow (ne_nil_of_mem_printedRows hg cells h)

end DocPress.Grid
