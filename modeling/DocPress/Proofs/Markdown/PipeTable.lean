import DocPress.Proofs.Grid.Plain
import DocPress.Proofs.Markdown.Blocks
import DocPress.Proofs.Markdown.TableRows

-- What is read back from printed grids. The text of a block has no white space around it, so that a
-- bar at an empty corner comes to an end of the text, and the column is lost.

namespace DocPress.Markdown.PipeTable

open Text

variable {l u x y z : Text} {ls xs : List Text} {g : Grid} {n : Nat}

-- The columns where all rows have the same number of cells.
theorem map_columns {rows : List (List Text)}
    (hr : ((lines x).eraseIdx 1).map (fun l => (cells l).map trim) = rows) (hn : rows ≠ [])
    (hl : ∀ r ∈ rows, r.length = n) :
    (columns x).map (·.map trim) = (List.range n).map fun i => rows.map (·.getD i []) := by
  have hcs : (((lines x).eraseIdx 1).map cells).map (·.map trim) = rows := by
    rw [← hr, List.map_map]
    rfl
  rw [columns]
  generalize ((lines x).eraseIdx 1).map cells = cs at hcs
  have hlc : cs.map List.length = List.replicate cs.length n := by
    rw [← List.map_const']
    refine List.map_congr_left fun r h => ?_
    rw [← List.length_map trim]
    exact hl _ (hcs ▸ List.mem_map_of_mem h)
  have hc : cs.length ≠ 0 := by
    rw [← List.length_map (·.map trim), hcs]
    exact mt List.length_eq_zero_iff.mp hn
  have hm : (cs.map List.length).min?.getD 0 = n := by
    rw [hlc, List.min?_replicate, if_neg hc]
    rfl
  have ht : ∀ (r : List Text) i, trim (r.getD i []) = (r.map trim).getD i [] := by
    intro r i
    rw [List.getD_eq_getElem?_getD, List.getD_eq_getElem?_getD, List.getElem?_map]
    cases r[i]? <;> rfl
  rw [hm, List.map_map, ← hcs]
  refine List.map_congr_left fun i _ => ?_
  rw [Function.comp_apply, List.map_map, List.map_map]
  exact List.map_congr_left fun r _ => ht r i

-- Rows are cut to the one with the fewest cells.
theorem length_columns_le (hl : l ∈ (lines x).eraseIdx 1) :
    (columns x).length ≤ (cells l).length := by
  have hm : (cells l).length ∈ (((lines x).eraseIdx 1).map cells).map List.length :=
    List.mem_map_of_mem (List.mem_map_of_mem hl)
  rw [columns, List.length_map, List.length_range]
  cases h : ((((lines x).eraseIdx 1).map cells).map List.length).min?
  case none   => exact Nat.zero_le _
  case some n => exact (List.min?_eq_some_iff.mp h).right _ hm

-- A line of a table that is read as a line of its own.
structure Line (l : Text) : Prop where
  bar            : '|' ∈ l
  lineFeed       : '\n' ∉ l
  carriageReturn : '\r' ∉ l
  noFence        : Fence.isFence l = false

namespace Line

theorem ne_nil (h : Line l) : l ≠ [] :=
  List.ne_nil_of_mem h.bar

theorem not_blank (h : Line l) : blank l = false := by
  by_contra hb
  exact no_bar_of_blank (Bool.not_eq_false _ ▸ hb) h.bar

theorem trimStart (h : Line l) :
    Text.trimStart l ≠ [] ∧ '\n' ∉ Text.trimStart l ∧ '\r' ∉ Text.trimStart l := by
  have ⟨s, _, hs⟩ := exists_trimStart l
  have hm : ∀ c ∈ Text.trimStart l, c ∈ l := fun c hc => hs ▸ List.mem_append_right s hc
  have hb := (bar_mem_congr (fields_trimStart l)).mpr h.bar
  exact ⟨List.ne_nil_of_mem hb, mt (hm _) h.lineFeed, mt (hm _) h.carriageReturn⟩

theorem trimEnd (h : Line l) :
    trimEndBy isBlank l ≠ [] ∧ '\n' ∉ trimEndBy isBlank l ∧ '\r' ∉ trimEndBy isBlank l := by
  have ⟨s, _, hs⟩ := exists_trimEnd l
  have hm : ∀ c ∈ trimEndBy isBlank l, c ∈ l := fun c hc => hs ▸ List.mem_append_left s hc
  have hb := (bar_mem_congr (fields_trimEnd l)).mpr h.bar
  exact ⟨List.ne_nil_of_mem hb, mt (hm _) h.lineFeed, mt (hm _) h.carriageReturn⟩

end Line

-- The lines of the block are those of the table, with the first one moved to the margin and the last
-- one cut at its end.
theorem exists_trim_eq (hl : ∀ k ∈ l :: u :: ls, Line k) :
    ∃ v, (v = u ∨ v = trimEndBy isBlank u) ∧ trim (joinLines (l :: u :: ls)) =
        joinLines (Text.trimStart l :: v :: ls.modifyLast (trimEndBy isBlank)) ∧
      lines (trim (joinLines (l :: u :: ls))) =
        Text.trimStart l :: v :: ls.modifyLast (trimEndBy isBlank) := by
  have ⟨h, hs⟩ := List.forall_mem_cons.mp hl
  have ⟨v, hv, hm⟩ := exists_modifyLast_cons (trimEndBy isBlank) u ls
  have ht : trim (joinLines (l :: u :: ls)) =
      joinLines (Text.trimStart l :: v :: ls.modifyLast (trimEndBy isBlank)) := by
    have ⟨ks, k, he⟩ := (List.eq_nil_or_concat (u :: ls)).resolve_left (List.cons_ne_nil u ls)
    rw [List.concat_eq_append] at he
    have hk : Line k := hs k (he ▸ List.mem_append_right ks List.mem_cons_self)
    rw [← hm, he, List.modifyLast_concat, trim_joinLines_concat h.not_blank hk.not_blank]
  have hk : ∀ k ∈ (u :: ls).modifyLast (trimEndBy isBlank), k ≠ [] ∧ '\n' ∉ k ∧ '\r' ∉ k := by
    apply forall_mem_modifyLast
    case h  => exact fun k hk => ⟨(hs k hk).ne_nil, (hs k hk).lineFeed, (hs k hk).carriageReturn⟩
    case hf => exact fun k hk => (hs k hk).trimEnd
  refine ⟨v, hv, ht, ?_⟩
  rw [ht, lines_joinLines]
  rw [← hm]
  exact List.forall_mem_cons.mpr ⟨h.trimStart, hk⟩

theorem accepts_of_lines (hx : '\n' ∈ x) (hb : '|' ∈ x) (hl : lines x = l :: u :: ls)
    (hs : ∀ k ∈ u :: ls, bars k = bars l) (hu : isUnderline u) : accepts x := by
  simpa [accepts, hx, hb, hl, hu] using hs

theorem isUnderline_trimEnd (h : isUnderline u) : isUnderline (trimEndBy isBlank u) := by
  have ⟨s, _, hs⟩ := exists_trimEnd u
  rw [isUnderline, ← hs, List.all_append, Bool.and_eq_true] at h
  exact h.left

theorem kindOf_trim (hl : ∀ k ∈ l :: u :: ls, Line k) (hb : ∀ k ∈ u :: ls, bars k = bars l)
    (hu : isUnderline u) (hd : (Text.trimStart l).head? ≠ some '-') :
    Block.kindOf (trim (joinLines (l :: u :: ls))) = .table := by
  have ⟨v, hv, ht, hls⟩ := exists_trim_eq hl
  have ⟨h, hs⟩ := List.forall_mem_cons.mp hl
  generalize hms : ls.modifyLast (trimEndBy isBlank) = ms at ht hls
  generalize trim (joinLines (l :: u :: ls)) = x at ht hls
  have hv : bars v = bars l ∧ isUnderline v := by
    have hbu := hb u List.mem_cons_self
    rcases hv with rfl | rfl
    case inl => exact ⟨hbu, hu⟩
    case inr => exact ⟨(bars_congr (fields_trimEnd u)).trans hbu, isUnderline_trimEnd hu⟩
  have hm : ∀ k ∈ ms, bars k = bars l := by
    subst hms
    apply forall_mem_modifyLast
    case h  => exact fun k hk => hb k (List.mem_cons_of_mem u hk)
    case hf =>
      exact fun k hk => (bars_congr (fields_trimEnd k)).trans (hb k (List.mem_cons_of_mem u hk))
  have hl' : bars (Text.trimStart l) = bars l := bars_congr (fields_trimStart l)
  have hx : '\n' ∈ x := by
    rw [ht, joinLines_cons _ (List.cons_ne_nil v ms)]
    exact List.mem_append_right _ List.mem_cons_self
  have hbar : '|' ∈ x :=
    ht ▸ mem_joinLines List.mem_cons_self ((bar_mem_congr (fields_trimStart l)).mpr h.bar)
  have hh : x.head? ≠ some '-' := by
    rwa [ht, head?_joinLines h.trimStart.left]
  have hlist : Block.isList x = false := by
    unfold Block.isList
    split
    case h_1 => simp at hh
    case h_2 => rfl
  have ha : accepts x := accepts_of_lines hx hbar hls
    (hl' ▸ List.forall_mem_cons.mpr ⟨hv.left, hm⟩) hv.right
  simp [Block.kindOf, Block.isRule, Heading.accepts, hx, hlist, ha]

theorem blocks_joinLines (hl : ∀ k ∈ l :: u :: ls, Line k) (hb : ∀ k ∈ u :: ls, bars k = bars l)
    (hu : isUnderline u) (hd : (Text.trimStart l).head? ≠ some '-') :
    blocks (joinLines (l :: u :: ls)) = .ok [⟨.table, trim (joinLines (l :: u :: ls))⟩] := by
  have hls : lines (joinLines (l :: u :: ls)) = l :: u :: ls :=
    lines_joinLines fun k hk => ⟨(hl k hk).ne_nil, (hl k hk).lineFeed, (hl k hk).carriageReturn⟩
  have hc : cut 1 none [] (l :: u :: ls) = .ok (paragraph (l :: u :: ls)) :=
    cut_of_lines (fun k hk => ⟨(hl k hk).noFence, (hl k hk).not_blank⟩) 1
  have hn : trim (joinLines (l :: u :: ls)) ≠ [] := by
    apply trim_ne_nil
    rw [blank_joinLines, List.all_cons, (hl l List.mem_cons_self).not_blank, Bool.false_and]
  have hp : paragraph (l :: u :: ls) = [trim (joinLines (l :: u :: ls))] :=
    List.filter_cons_of_pos (decide_eq_true hn)
  rw [blocks, paragraphs, hls, hc, hp]
  show Except.ok [Block.ofText _] = _
  rw [Block.ofText, kindOf_trim hl hb hu hd]

theorem isFence_of_append (h : Fence.isFence (y ++ ' ' :: z)) : Fence.isFence y := by
  have hm : ' ' ∉ Fence.mark := by decide
  have hp := List.isPrefixOf_iff_prefix.mp h
  apply List.isPrefixOf_iff_prefix.mpr
  rcases List.prefix_or_prefix_of_prefix hp (List.prefix_append y (' ' :: z)) with h' | ⟨w, hw⟩
  case inl => exact h'
  case inr =>
    rw [← hw] at hp
    cases w
    case nil => exact ⟨[], by rw [← hw, List.append_nil, List.append_nil]⟩
    case cons d w =>
      have hd := (List.prefix_append_right_inj y).mp hp
      have he : d = ' ' := (List.cons_prefix_cons.mp hd).left
      exact absurd (hw ▸ he ▸ List.mem_append_right y List.mem_cons_self) hm

theorem line_joinRow (hx : xs ≠ []) (hs : ∀ x ∈ xs, ∀ d ∈ x, d = ' ' ∨ isBlank d = false)
    (hf : Fence.isFence (Grid.joinRow xs) = false) : Line (Grid.joinRow xs) := by
  have h := isRow_joinRow hx hs
  constructor
  case bar            => exact bar_mem_joinRow hx
  case lineFeed       => exact h.spaced.lineFeed
  case carriageReturn => exact h.spaced.not_mem (by decide) (by decide)
  case noFence        => exact hf

-- All lines of a grid have the same number of bars if there are none in its cells.

theorem noBar_paddedRow (hb : ∀ c ∈ g.columns, ∀ x ∈ c, '|' ∉ x) (r : Nat) :
    ∀ x ∈ g.paddedRow r, '|' ∉ x := by
  have h := Grid.forall_mem_paddedRow (P := (· ≠ '|'))
    (fun c hc x hx d hd he => hb c hc x hx (he ▸ hd)) (by decide) r
  exact fun x hx hm => h x hx _ hm rfl

theorem bars_plainRow (hg : g.Neat) (hb : ∀ c ∈ g.columns, ∀ x ∈ c, '|' ∉ x) (r : Nat) :
    bars (g.plainRow r) = if g.columns.length = 1 then 2 else g.columns.length - 1 := by
  rw [Grid.plainRow, bars_joinRow (Grid.paddedRow_ne_nil hg r) (noBar_paddedRow hb r),
    Grid.length_paddedRow]

theorem bars_dashes (hg : g.Neat) :
    bars (Grid.joinRow g.dashes) = if g.columns.length = 1 then 2 else g.columns.length - 1 := by
  have hb : ∀ x ∈ g.dashes, '|' ∉ x := fun x hx hd =>
    absurd (Grid.eq_dash_of_mem_dashes hx hd) (by decide)
  rw [bars_joinRow (Grid.dashes_ne_nil hg) hb, Grid.length_dashes]

theorem bars_eq_of_mem (hg : g.Neat) (hb : ∀ c ∈ g.columns, ∀ x ∈ c, '|' ∉ x) (n : Nat) :
    ∀ l ∈ Grid.joinRow g.dashes :: (List.range n).map fun r => g.plainRow (r + 1),
      bars l = bars (g.plainRow 0) := by
  rw [bars_plainRow hg hb]
  exact List.forall_mem_cons.mpr ⟨bars_dashes hg, List.forall_mem_map.mpr fun r _ =>
    bars_plainRow hg hb (r + 1)⟩

theorem isUnderline_dashes (g : Grid) : isUnderline (Grid.joinRow g.dashes) := by
  rw [isUnderline, List.all_eq_true]
  intro d hd
  have hm : d = ' ' ∨ d = '|' ∨ d = '-' := (of_mem_joinRow hd).imp_right <| .imp_right
    fun ⟨x, hx, hd⟩ => Grid.eq_dash_of_mem_dashes hx hd
  rcases hm with rfl | rfl | rfl <;> rfl

-- A grid that is not taken for anything else than a table when it is printed.
structure Printable (g : Grid) : Prop extends Grid.Neat g where
  noBar   : ∀ c ∈ g.columns, ∀ x ∈ c, '|' ∉ x
  noFence : ∀ x ∈ g.columns.headD [], Fence.isFence x = false
  noDash  : g.topLeft.head? ≠ some '-'

namespace Printable

theorem line_plainRow (hg : Printable g) (r : Nat) : Line (g.plainRow r) := by
  apply line_joinRow (Grid.paddedRow_ne_nil hg.toNeat r)
  case hs => exact Grid.forall_mem_paddedRow hg.spaced (.inl rfl) r
  case hf =>
    obtain ⟨k, hk⟩ := Grid.exists_headD_paddedRow hg.toNeat r
    have hc : Fence.isFence (Grid.cell (g.columns.headD []) r) = false :=
      Grid.cell_induction (P := fun x => Fence.isFence x = false) hg.noFence rfl r
    by_contra hf
    rw [Bool.not_eq_false] at hf
    by_cases h : 2 ≤ (g.paddedRow r).length
    case pos =>
      obtain ⟨z, hz⟩ := joinRow_eq_append h
      obtain ⟨w, hw⟩ : ∃ w, spaces k ++ ' ' :: '|' :: z = ' ' :: w := by
        cases k
        case zero => exact ⟨_, rfl⟩
        case succ => exact ⟨_, rfl⟩
      rw [hz, hk, List.append_assoc, hw] at hf
      exact Bool.noConfusion (hc.symm.trans (isFence_of_append hf))
    case neg =>
      obtain ⟨x, hx⟩ := exists_singleton (Grid.paddedRow_ne_nil hg.toNeat r) h
      rw [hx] at hf
      contradiction

theorem line_dashes (hg : Printable g) : Line (Grid.joinRow g.dashes) := by
  apply line_joinRow (Grid.dashes_ne_nil hg.toNeat)
  case hs => exact fun x hx d hd => .inr (Grid.eq_dash_of_mem_dashes hx hd ▸ rfl)
  case hf =>
    by_contra hf
    have hp := List.isPrefixOf_iff_prefix.mp (Bool.not_eq_false _ ▸ hf)
    have hm : '\x60' ∈ Grid.joinRow g.dashes := hp.mem (by decide)
    rcases of_mem_joinRow hm with hc | hc | ⟨x, hx, hc⟩
    · contradiction
    · contradiction
    · exact absurd (Grid.eq_dash_of_mem_dashes hx hc) (by decide)

-- A single cell stands between bars, and a row of several ones begins with the first of them.
theorem head?_trimStart_ne (hg : Printable g) :
    (Text.trimStart (g.plainRow 0)).head? ≠ some '-' := by
  have ⟨k, hk⟩ := Grid.exists_headD_paddedRow hg.toNeat 0
  rw [Grid.plainRow]
  by_cases h : 2 ≤ (g.paddedRow 0).length
  case neg =>
    have ⟨x, hx⟩ := exists_singleton (Grid.paddedRow_ne_nil hg.toNeat 0) h
    have ht : Text.trimStart (Grid.joinRow [x]) = Grid.joinRow [x] :=
      List.dropWhile_cons_of_neg (by decide)
    rw [hx, ht, joinRow_singleton]
    simp
  case pos =>
    by_cases hc : g.topLeft = []
    case pos =>
      rw [Grid.topLeft] at hc
      rw [hc, List.nil_append] at hk
      rw [trimStart_joinRow_of_nil h hk]
      decide
    case neg =>
      have hm := headD_mem [] hg.columns_ne_nil
      have ⟨ht, hh⟩ := trimStart_joinRow_of_ne_nil h hk (Grid.trim_cell hg.toNeat hm 0) hc
      rw [ht, hh]
      exact hg.noDash

theorem line_of_mem (hg : Printable g) :
    ∀ k ∈ g.plainRow 0 :: Grid.joinRow g.dashes :: (List.range n).map fun r => g.plainRow (r + 1),
      Line k :=
  List.forall_mem_cons.mpr ⟨hg.line_plainRow 0, List.forall_mem_cons.mpr ⟨hg.line_dashes,
    List.forall_mem_map.mpr fun r _ => hg.line_plainRow (r + 1)⟩⟩

theorem blocks_toPlain (hg : Printable g) :
    blocks g.toPlain = .ok [⟨.table, trim g.toPlain⟩] := by
  have ⟨h, hh⟩ := Nat.exists_eq_succ_of_ne_zero hg.height_ne_zero
  rw [Grid.toPlain_eq hg.toNeat hh]
  apply blocks_joinLines hg.line_of_mem
  case hb => exact bars_eq_of_mem hg.toNeat hg.noBar h
  case hu => exact isUnderline_dashes g
  case hd => exact hg.head?_trimStart_ne

end Printable

-- The lines of the rows, as they stand in the block.
def blockRows (g : Grid) : List Text :=
  Text.trimStart (g.plainRow 0) ::
    ((List.range (g.height - 1)).map fun r => g.plainRow (r + 1)).modifyLast (trimEndBy isBlank)

theorem map_blockRows {α : Type} {F : Text → α} (hh : g.height ≠ 0)
    (hs : ∀ r, F (Text.trimStart (g.plainRow r)) = F (g.plainRow r))
    (he : ∀ r, F (trimEndBy isBlank (g.plainRow r)) = F (g.plainRow r)) :
    (blockRows g).map F = (List.range g.height).map fun r => F (g.plainRow r) := by
  have ⟨h, hh⟩ := Nat.exists_eq_succ_of_ne_zero hh
  have hm := map_modifyLast (List.forall_mem_map.mpr fun r (_ : r ∈ List.range h) => he (r + 1))
  rw [blockRows, List.map_cons, hs, hh, Nat.succ_sub_one, hm, List.map_map, map_range_succ]
  rfl

namespace Printable

theorem eraseIdx_lines (hg : Printable g) :
    (lines (trim g.toPlain)).eraseIdx 1 = blockRows g := by
  have ⟨h, hh⟩ := Nat.exists_eq_succ_of_ne_zero hg.height_ne_zero
  have ⟨v, _, _, hl⟩ := exists_trim_eq (hg.line_of_mem (n := h))
  rw [Grid.toPlain_eq hg.toNeat hh, hl, blockRows, hh]
  rfl

theorem map_fields_blockRows (hg : Printable g) (h : 2 ≤ g.columns.length) :
    (blockRows g).map fields = g.rows := by
  rw [map_blockRows hg.height_ne_zero (fun _ => fields_trimStart _) fun _ => fields_trimEnd _,
    Grid.rows]
  refine List.map_congr_left fun r _ => ?_
  rw [Grid.plainRow, fields_joinRow (Grid.length_paddedRow g r ▸ h) (noBar_paddedRow hg.noBar r),
    Grid.map_trim_paddedRow hg.toNeat]

theorem map_cells_blockRows (hg : Printable g) (h : g.columns.length = 1) :
    (blockRows g).map (fun l => (cells l).map trim) = g.rows := by
  have hr : ∀ r, ∃ x, '|' ∉ x ∧ g.paddedRow r = [x] ∧ g.plainRow r = Grid.joinRow [x] := by
    intro r
    obtain ⟨x, hx⟩ := List.length_eq_one_iff.mp ((Grid.length_paddedRow g r).trans h)
    exact ⟨x, noBar_paddedRow hg.noBar r x (hx ▸ List.mem_cons_self), hx, congrArg Grid.joinRow hx⟩
  rw [map_blockRows hg.height_ne_zero, Grid.rows]
  case hs =>
    intro r
    obtain ⟨x, _, _, he⟩ := hr r
    rw [he, trimStart_joinRow_singleton]
  case he =>
    intro r
    obtain ⟨x, _, _, he⟩ := hr r
    rw [he, trimEnd_joinRow_singleton]
  refine List.map_congr_left fun r _ => ?_
  obtain ⟨x, hx, hp, he⟩ := hr r
  rw [he, map_trim_cells_joinRow_singleton hx, ← Grid.map_trim_paddedRow hg.toNeat, hp]
  rfl

-- A bar comes to an end of a row at the empty corners of the grid and nowhere else.
theorem exists_framed_iff (hg : Printable g) (h : 2 ≤ g.columns.length) :
    (∃ l ∈ blockRows g, Framed l) ↔ g.topLeft = [] ∨ g.height ≠ 1 ∧ g.bottomRight = [] := by
  have h2 : ∀ r, 2 ≤ (g.paddedRow r).length := fun r => Grid.length_paddedRow g r ▸ h
  have hn : ∀ r, ¬Framed (g.plainRow r) := fun r => not_framed_joinRow (h2 r) (noBar_paddedRow hg.noBar r)
  have hs : Framed (Text.trimStart (g.plainRow 0)) ↔ g.topLeft = [] := by
    have ⟨k, hk⟩ := Grid.exists_headD_paddedRow hg.toNeat 0
    have hm := headD_mem [] hg.columns_ne_nil
    exact framed_trimStart_iff (h2 0) (noBar_paddedRow hg.noBar 0) hk (Grid.trim_cell hg.toNeat hm 0)
  have he : ∀ r, Framed (trimEndBy isBlank (g.plainRow r)) ↔
      Grid.cell (g.columns.getLastD []) r = [] := by
    intro r
    have ⟨k, hk⟩ := Grid.exists_getLastD_paddedRow hg.toNeat r
    have hm := getLastD_mem [] hg.columns_ne_nil
    exact framed_trimEnd_iff (h2 r) (noBar_paddedRow hg.noBar r) hk (Grid.trim_cell hg.toNeat hm r)
  rw [blockRows, List.exists_mem_cons_iff, hs]
  match hh : g.height with
  | 0     => exact absurd hh hg.height_ne_zero
  | 1     => simp [List.modifyLast, List.modifyLast.go]
  | k + 2 =>
    have hk : k + 2 - 1 = k + 1 := rfl
    rw [hk, List.range_succ, List.map_append, List.map_singleton, List.modifyLast_concat]
    simp [hn, he, Grid.bottomRight, hh]

-- The grid is read back exactly if none of the two corners is empty that are at an end of the text.
theorem columns_eq_iff (hg : Printable g) :
    (columns (trim g.toPlain)).map (·.map trim) = g.columns ↔
      g.columns.length = 1 ∨ g.topLeft ≠ [] ∧ (g.height = 1 ∨ g.bottomRight ≠ []) := by
  have hr := Grid.rows_ne_nil hg.toNeat
  have hl := Grid.length_of_mem_rows (g := g)
  have hc : (blockRows g).map (fun l => (cells l).map trim) = g.rows →
      (columns (trim g.toPlain)).map (·.map trim) = g.columns := by
    intro h
    rw [map_columns (hg.eraseIdx_lines ▸ h) hr hl, Grid.columns_eq_of_rows]
  by_cases h : g.columns.length = 1
  case pos => exact iff_of_true (hc (hg.map_cells_blockRows h)) (.inl h)
  case neg =>
    have h2 : 2 ≤ g.columns.length := by
      have := List.length_pos_iff.mpr hg.columns_ne_nil
      omega
    have hf := hg.exists_framed_iff h2
    by_cases hx : ∃ l ∈ blockRows g, Framed l
    case pos =>
      obtain ⟨l, hm, hfl⟩ := hx
      have hfields : fields l ∈ g.rows := hg.map_fields_blockRows h2 ▸ List.mem_map_of_mem hm
      have hbars := length_fields l
      rw [hl _ hfields] at hbars
      have hcells := length_cells_le hfl
      have hle := length_columns_le (hg.eraseIdx_lines ▸ hm)
      refine iff_of_false (fun he => ?_) ?_
      case refine_1 =>
        have hlen := congrArg List.length he
        rw [List.length_map] at hlen
        omega
      case refine_2 => grind
    case neg =>
      refine iff_of_true (hc ?_) ?_
      case refine_1 =>
        rw [← hg.map_fields_blockRows h2]
        refine List.map_congr_left fun l hm => ?_
        rw [cells_eq fun hl => hx ⟨l, hm, hl⟩]
        rfl
      case refine_2 => grind

end Printable

theorem noBar_ofColumns {columns : List (List Text)} (hn : ∃ c ∈ columns, c ≠ [])
    (hb : ∀ c ∈ columns, ∀ x ∈ c, '|' ∉ x) :
    ∀ c ∈ (Grid.ofColumns columns).columns, ∀ x ∈ c, '|' ∉ x := by
  intro c hc x hx hm
  have ⟨ds, hds, y, hy, he⟩ := Grid.exists_mem_of_mem_ofColumns hn hc hx
  rcases of_mem_oneLine (he ▸ hm) with h | ⟨h, _⟩
  case inl => contradiction
  case inr => exact hb ds hds y hy h

theorem printable_ofColumns {columns : List (List Text)} (hn : ∃ c ∈ columns, c ≠ [])
    (hb : ∀ c ∈ columns, ∀ x ∈ c, '|' ∉ x)
    (hf : ∀ x ∈ (Grid.ofColumns columns).columns.headD [], Fence.isFence x = false)
    (hd : (Grid.ofColumns columns).topLeft.head? ≠ some '-') :
    Printable (Grid.ofColumns columns) where
  toNeat  := Grid.neat_ofColumns hn
  noFence := hf
  noDash  := hd
  noBar   := noBar_ofColumns hn hb

-- A printed grid makes one block, which is a table. All of the grid is read back from it if there is
-- a single column, or if neither the cell that the text begins with nor the one that it ends with is
-- empty. In all other cases it is not.
theorem columns_blocks_toPlain {columns : List (List Text)} (hn : ∃ c ∈ columns, c ≠ [])
    (hb : ∀ c ∈ columns, ∀ x ∈ c, '|' ∉ x)
    (hf : ∀ x ∈ (Grid.ofColumns columns).columns.headD [], Fence.isFence x = false)
    (hd : (Grid.ofColumns columns).topLeft.head? ≠ some '-') :
    let g := Grid.ofColumns columns
    blocks g.toPlain = .ok [⟨.table, trim g.toPlain⟩] ∧
      ((PipeTable.columns (trim g.toPlain)).map (·.map trim) = g.columns ↔
        g.columns.length = 1 ∨ g.topLeft ≠ [] ∧ (g.height = 1 ∨ g.bottomRight ≠ [])) := by
  intro g
  have hg : Printable g := printable_ofColumns hn hb hf hd
  exact ⟨hg.blocks_toPlain, hg.columns_eq_iff⟩

theorem columns_blocks_toPlain_gaps :
    let columns : List (List Text) := [["A", "", "x"], [], ["", "B"], ["C", "", "y\n z", "-"]]
    let g := Grid.ofColumns columns
    (∃ c ∈ columns, c ≠ []) ∧ (∀ c ∈ columns, ∀ x ∈ c, '|' ∉ x) ∧
      (∀ x ∈ g.columns.headD [], Fence.isFence x = false) ∧ g.topLeft.head? ≠ some '-' ∧
      blocks g.toPlain = .ok [⟨.table, trim g.toPlain⟩] ∧
      ((PipeTable.columns (trim g.toPlain)).map (·.map trim) = g.columns ↔
        g.columns.length = 1 ∨ g.topLeft ≠ [] ∧ (g.height = 1 ∨ g.bottomRight ≠ [])) := by
  intro columns g
  have hn : ∃ c ∈ columns, c ≠ [] := ⟨["A", "", "x"], List.mem_cons_self, List.cons_ne_nil _ _⟩
  have hb : ∀ c ∈ columns, ∀ x ∈ c, '|' ∉ x := by decide +kernel
  have hf : ∀ x ∈ g.columns.headD [], Fence.isFence x = false := by decide +kernel
  have hd : g.topLeft.head? ≠ some '-' := by decide +kernel
  exact ⟨hn, hb, hf, hd, columns_blocks_toPlain hn hb hf hd⟩

-- An empty cell at the top left leaves a bar at the edge of the block, and its column is lost.
theorem columns_blocks_ne_columns :
    let given : List (List Text) := [["", "x"], ["B", "y"]]
    let read : List (List Text) := [["B", "x"]]
    let g := Grid.ofColumns given
    g.columns = given ∧ g.toPlain = "  | B\n- | -\nx | y".toList ∧
      blocks g.toPlain = .ok [⟨.table, "| B\n- | -\nx | y"⟩] ∧
      (columns "| B\n- | -\nx | y").map (·.map trim) = read ∧ read ≠ g.columns := by
  decide +kernel

end DocPress.Markdown.PipeTable
