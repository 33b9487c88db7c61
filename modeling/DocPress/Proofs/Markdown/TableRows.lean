import DocPress.Grid.Plain
import DocPress.Markdown.PipeTable
import DocPress.Proofs.Lists
import DocPress.Proofs.Text.Ends
import DocPress.Proofs.Text.Rows

-- Rows of tables: what stands between their bars, and where a bar of a row comes to an end of the
-- line. There it is taken for a part of the frame.

namespace DocPress.Markdown.PipeTable

open Text

variable {c l x y : Text} {xs : List Text} {k : Nat}

-- The texts between bars, without the white space around them.
def fields (l : Text) : List Text :=
  (l.splitOn '|').map trim

-- A bar stands at an end of the line.
def Framed (l : Text) : Prop :=
  l.head? = some '|' ∨ l.getLast? = some '|'

theorem fields_append_bar (x y : Text) : fields (x ++ '|' :: y) = fields x ++ fields y := by
  rw [fields, List.splitOn_append_cons_self, List.map_append]
  rfl

theorem fields_of_no_bar (h : '|' ∉ x) : fields x = [trim x] := by
  have hp : ∀ c ∈ x, (c == '|') = false := fun c hc => beq_false_of_ne fun he => h (he ▸ hc)
  rw [fields, List.splitOn_eq_splitOnP, List.splitOnP_eq_singleton hp]
  rfl

theorem length_fields (l : Text) : (fields l).length = bars l + 1 := by
  rw [fields, List.length_map, length_splitOn]
  rfl

theorem no_bar_of_blank (h : blank x) : '|' ∉ x := fun hc =>
  absurd (List.all_eq_true.mp h _ hc) (by decide)

theorem fields_blank_append (hx : blank x) (y : Text) : fields (x ++ y) = fields y := by
  by_cases hy : '|' ∈ y
  case pos =>
    have ⟨a, b, he, ha⟩ := List.eq_append_cons_of_mem hy
    have hxa : '|' ∉ x ++ a := List.not_mem_append (no_bar_of_blank hx) ha
    rw [he, ← List.append_assoc, fields_append_bar, fields_append_bar, fields_of_no_bar hxa,
      fields_of_no_bar ha, trim_append_left hx]
  case neg =>
    have hxy : '|' ∉ x ++ y := List.not_mem_append (no_bar_of_blank hx) hy
    rw [fields_of_no_bar hxy, fields_of_no_bar hy, trim_append_left hx]

-- The last field is found behind the bars, one after the other.
theorem fields_append_blank (hy : blank y) (x : Text) : fields (x ++ y) = fields x := by
  induction hn : x.length using Nat.strong_induction_on generalizing x
  case h n ih =>
    by_cases hx : '|' ∈ x
    case pos =>
      have ⟨a, b, he, _⟩ := List.eq_append_cons_of_mem hx
      have hb : b.length < n := by
        rw [← hn, he, List.length_append, List.length_cons]
        omega
      rw [he, List.append_assoc, List.cons_append, fields_append_bar, fields_append_bar, ih _ hb b rfl]
    case neg =>
      have hxy : '|' ∉ x ++ y := List.not_mem_append hx (no_bar_of_blank hy)
      rw [fields_of_no_bar hxy, fields_of_no_bar hx, trim_append x hy]

theorem cells_eq (h : ¬Framed l) : cells l = l.splitOn '|' := by
  have ⟨hh, hl⟩ := not_or.mp h
  rw [cells, trimBy_eq_self]
  case hh => exact fun c hc => decide_eq_false fun he => hh (he ▸ hc)
  case hl => exact fun c hc => decide_eq_false fun he => hl (he ▸ hc)

theorem length_cells_le (h : Framed l) : (cells l).length ≤ bars l := by
  have hs : ∀ x : Text, (trimBy (· = '|') x).count '|' ≤ x.count '|' := fun x =>
    (sublist_trimBy _ x).count_le '|'
  rw [cells, length_splitOn, bars]
  rcases h with h | h
  case inl =>
    obtain ⟨r, hr⟩ := List.head?_eq_some_iff.mp h
    have ht : trimBy (· = '|') l = trimBy (· = '|') r := by
      rw [hr, trimBy, List.dropWhile_cons_of_pos (by decide)]
      rfl
    rw [ht, hr, List.count_cons_self]
    exact Nat.succ_le_succ (hs r)
  case inr =>
    obtain ⟨r, hr⟩ := List.getLast?_eq_some_iff.mp h
    have ht : trimBy (· = '|') l = trimBy (· = '|') r := by
      rw [hr, trimBy_append r (by simp)]
    rw [ht, hr, List.count_append, List.count_singleton_self]
    exact Nat.succ_le_succ (hs r)

theorem fields_trimStart (l : Text) : fields (trimStart l) = fields l := by
  have ⟨s, hb, hs⟩ := exists_trimStart l
  rw [← fields_blank_append hb, hs]

theorem fields_trimEnd (l : Text) : fields (trimEndBy isBlank l) = fields l := by
  have ⟨s, hb, hs⟩ := exists_trimEnd l
  rw [← fields_append_blank hb, hs]

theorem bars_congr (h : fields x = fields y) : bars x = bars y := by
  have hl := congrArg List.length h
  rwa [length_fields, length_fields, Nat.add_right_cancel_iff] at hl

theorem bar_mem_congr (h : fields x = fields y) : '|' ∈ x ↔ '|' ∈ y := by
  rw [← List.count_pos_iff, ← List.count_pos_iff]
  exact iff_of_eq (congrArg (0 < ·) (bars_congr h))

theorem ne_nil_of_two_le (h : 2 ≤ xs.length) : xs ≠ [] :=
  List.ne_nil_of_length_pos (Nat.lt_of_lt_of_le Nat.zero_lt_two h)

-- The texts that a row is joined from, with the bars between them.

theorem joinRow_singleton (x : Text) : Grid.joinRow [x] = '|' :: ' ' :: (x ++ [' ', '|']) := rfl

theorem joinRow_eq_join (h : 2 ≤ xs.length) : Grid.joinRow xs = join [' ', '|', ' '] xs := by
  match xs with
  | x :: y :: zs => rfl

theorem of_mem_joinRow {d : Char} (hd : d ∈ Grid.joinRow xs) : d = ' ' ∨ d = '|' ∨ ∃ x ∈ xs, d ∈ x := by
  match xs with
  | []  => contradiction
  | [x] =>
    simp only [joinRow_singleton, List.mem_cons, List.mem_append, List.not_mem_nil, or_false] at hd ⊢
    rw [exists_eq_left]
    tauto
  | x :: y :: zs =>
    rw [joinRow_eq_join (by simp)] at hd
    rcases of_mem_join hd with hd | hd
    case inl => simp only [List.mem_cons, List.not_mem_nil, or_false] at hd; tauto
    case inr => exact .inr (.inr hd)

theorem joinRow_eq_append (h : 2 ≤ xs.length) :
    ∃ z, Grid.joinRow xs = xs.headD [] ++ ' ' :: '|' :: z := by
  match xs with
  | x :: y :: zs =>
    rw [joinRow_eq_join h, join_cons_cons, List.append_assoc]
    exact ⟨_, rfl⟩

theorem joinRow_eq_concat (h : 2 ≤ xs.length) :
    ∃ z, Grid.joinRow xs = z ++ '|' :: ' ' :: xs.getLastD [] := by
  have ⟨ys, x, he⟩ := (List.eq_nil_or_concat xs).resolve_left (ne_nil_of_two_le h)
  rw [List.concat_eq_append] at he
  have hy : ys ≠ [] := by
    rintro rfl
    rw [he] at h
    exact absurd h (Nat.not_le.mpr Nat.one_lt_two)
  rw [joinRow_eq_join h, he, join_append _ hy (List.cons_ne_nil x []), join_singleton]
  exact ⟨join [' ', '|', ' '] ys ++ [' '], by simp⟩

theorem fields_join (hx : xs ≠ []) (hb : ∀ x ∈ xs, '|' ∉ x) :
    fields (join [' ', '|', ' '] xs) = xs.map trim := by
  induction xs
  case nil => contradiction
  case cons x xs ih =>
    have ⟨hbx, hbs⟩ := List.forall_mem_cons.mp hb
    cases xs
    case nil => rw [join_singleton, fields_of_no_bar hbx]; rfl
    case cons y ys =>
      have hxs : '|' ∉ x ++ [' '] := List.not_mem_append hbx (by decide)
      have hs : blank [' '] := rfl
      have hj : join [' ', '|', ' '] (x :: y :: ys) =
          (x ++ [' ']) ++ '|' :: ([' '] ++ join [' ', '|', ' '] (y :: ys)) := by
        rw [join_cons_cons]
        simp
      rw [hj, fields_append_bar, fields_blank_append hs, fields_of_no_bar hxs, trim_append x hs,
        ih (List.cons_ne_nil y ys) hbs]
      rfl

theorem fields_joinRow (h : 2 ≤ xs.length) (hb : ∀ x ∈ xs, '|' ∉ x) :
    fields (Grid.joinRow xs) = xs.map trim := by
  rw [joinRow_eq_join h, fields_join (ne_nil_of_two_le h) hb]

theorem bars_joinRow (hx : xs ≠ []) (hb : ∀ x ∈ xs, '|' ∉ x) :
    bars (Grid.joinRow xs) = if xs.length = 1 then 2 else xs.length - 1 := by
  match xs with
  | [x] =>
    have hc : x.count '|' = 0 := List.count_eq_zero.mpr (hb x List.mem_cons_self)
    simp [bars, joinRow_singleton, hc]
  | x :: y :: zs =>
    have hl := length_fields (Grid.joinRow (x :: y :: zs))
    rw [fields_joinRow (by simp) hb, List.length_map] at hl
    rw [if_neg (by simp), hl, Nat.add_sub_cancel]

theorem bar_mem_joinRow (hx : xs ≠ []) : '|' ∈ Grid.joinRow xs := by
  match xs with
  | [x]          => exact List.mem_cons_self
  | x :: y :: zs =>
    have ⟨z, hz⟩ := joinRow_eq_append (by simp : 2 ≤ (x :: y :: zs).length)
    rw [hz]
    simp

-- The row is a line of its own if its cells are on one line.
theorem isRow_joinRow (hx : xs ≠ []) (hs : ∀ x ∈ xs, Spaced x) : IsRow (Grid.joinRow xs) where
  spaced := by
    intro d hd
    rcases of_mem_joinRow hd with rfl | rfl | ⟨x, hx, hd⟩
    · exact .inl rfl
    · exact .inr rfl
    · exact hs x hx d hd
  notBlank := Bool.eq_false_iff.mpr fun hb => no_bar_of_blank hb (bar_mem_joinRow hx)

-- Between two cells there is more than a bar.

theorem head?_joinRow_ne (h : 2 ≤ xs.length) (hb : ∀ x ∈ xs, '|' ∉ x) :
    (Grid.joinRow xs).head? ≠ some '|' := by
  have ⟨z, hz⟩ := joinRow_eq_append h
  have hx := hb _ (headD_mem [] (ne_nil_of_two_le h))
  rw [hz]
  cases hx' : xs.headD []
  case nil => simp
  case cons d r =>
    rintro ⟨⟩
    exact hx (hx' ▸ List.mem_cons_self)

theorem getLast?_joinRow_ne (h : 2 ≤ xs.length) (hb : ∀ x ∈ xs, '|' ∉ x) :
    (Grid.joinRow xs).getLast? ≠ some '|' := by
  have ⟨z, hz⟩ := joinRow_eq_concat h
  have hx := hb _ (getLastD_mem [] (ne_nil_of_two_le h))
  rw [hz, List.getLast?_append_of_ne_nil z (List.cons_ne_nil _ _), List.getLast?_cons_cons]
  intro hl
  rcases List.mem_cons.mp (List.mem_of_getLast? hl) with hc | hc
  case inl => contradiction
  case inr => exact hx hc

theorem not_framed_joinRow (h : 2 ≤ xs.length) (hb : ∀ x ∈ xs, '|' ∉ x) :
    ¬Framed (Grid.joinRow xs) :=
  not_or.mpr ⟨head?_joinRow_ne h hb, getLast?_joinRow_ne h hb⟩

theorem exists_singleton (hn : xs ≠ []) (h : ¬2 ≤ xs.length) : ∃ x, xs = [x] := by
  have hp := List.length_pos_iff.mpr hn
  exact List.length_eq_one_iff.mp (by omega)

theorem trimStart_joinRow_of_nil (h : 2 ≤ xs.length) (hx : xs.headD [] = spaces k) :
    (Text.trimStart (Grid.joinRow xs)).head? = some '|' := by
  have ⟨z, hz⟩ := joinRow_eq_append h
  have hs : ∀ d ∈ spaces k ++ [' '], isBlank d :=
    List.forall_mem_append.mpr ⟨fun _ => isBlank_of_mem_spaces, List.forall_mem_singleton.mpr rfl⟩
  have hj : Grid.joinRow xs = (spaces k ++ [' ']) ++ '|' :: z := by simp [hz, ← hx]
  rw [hj, Text.trimStart, List.dropWhile_append_of_pos hs]
  rfl

theorem trimStart_joinRow_of_ne_nil (h : 2 ≤ xs.length) (hx : xs.headD [] = c ++ spaces k)
    (ht : trim c = c) (hc : c ≠ []) :
    Text.trimStart (Grid.joinRow xs) = Grid.joinRow xs ∧ (Grid.joinRow xs).head? = c.head? := by
  have ⟨z, hz⟩ := joinRow_eq_append h
  have ⟨d, r, he⟩ := List.exists_cons_of_ne_nil hc
  have hd : isBlank d = false := head?_trim c d (ht.symm ▸ he ▸ rfl)
  rw [hz, hx, he]
  exact ⟨List.dropWhile_cons_of_neg (Bool.eq_false_iff.mp hd), rfl⟩

-- The first bar comes to the edge where there is nothing in front of it.
theorem framed_trimStart_iff (h : 2 ≤ xs.length) (hb : ∀ x ∈ xs, '|' ∉ x)
    (hx : xs.headD [] = c ++ spaces k) (ht : trim c = c) :
    Framed (Text.trimStart (Grid.joinRow xs)) ↔ c = [] := by
  by_cases hc : c = []
  case pos =>
    rw [hc, List.nil_append] at hx
    exact iff_of_true (.inl (trimStart_joinRow_of_nil h hx)) hc
  case neg =>
    rw [(trimStart_joinRow_of_ne_nil h hx ht hc).left]
    exact iff_of_false (not_framed_joinRow h hb) hc

-- The last bar comes to the edge where there is nothing behind it.
theorem framed_trimEnd_iff (h : 2 ≤ xs.length) (hb : ∀ x ∈ xs, '|' ∉ x)
    (hx : xs.getLastD [] = c ++ spaces k) (ht : trim c = c) :
    Framed (trimEndBy isBlank (Grid.joinRow xs)) ↔ c = [] := by
  have ⟨z, hz⟩ := joinRow_eq_concat h
  rw [hx] at hz
  by_cases hc : c = []
  case pos =>
    have hs : ∀ d ∈ ' ' :: spaces k, isBlank d :=
      List.forall_mem_cons.mpr ⟨by decide, fun _ => isBlank_of_mem_spaces⟩
    have hj : Grid.joinRow xs = (z ++ ['|']) ++ ' ' :: spaces k := by simp [hz, hc]
    refine iff_of_true (.inr ?_) hc
    rw [hj, trimEndBy_append _ hs, trimEndBy_eq_self (by simp [isBlank])]
    simp
  case neg =>
    have hl : ∀ d ∈ c.getLast?, isBlank d = false := ht ▸ getLast?_trim c
    have hj : Grid.joinRow xs = (z ++ ['|', ' '] ++ c) ++ spaces k := by simp [hz]
    have hlast : (z ++ ['|', ' '] ++ c).getLast? = c.getLast? := List.getLast?_append_of_ne_nil _ hc
    have he : trimEndBy isBlank (Grid.joinRow xs) = z ++ ['|', ' '] ++ c := by
      rw [hj, trimEndBy_append _ fun _ => isBlank_of_mem_spaces, trimEndBy_eq_self (hlast ▸ hl)]
    refine iff_of_false (not_or.mpr ⟨?_, ?_⟩) hc
    case refine_1 =>
      have hh := head?_joinRow_ne h hb
      rw [hj] at hh
      rw [he]
      cases z
      case nil  => simp at hh
      case cons => exact hh
    case refine_2 =>
      rw [he, hlast]
      intro hd
      apply hb _ (getLastD_mem [] (ne_nil_of_two_le h))
      exact hx ▸ List.mem_append_left _ (List.mem_of_getLast? hd)

-- A row of one cell is the same as before.

theorem trimStart_joinRow_singleton (x : Text) :
    Text.trimStart (Grid.joinRow [x]) = Grid.joinRow [x] :=
  List.dropWhile_cons_of_neg (by decide)

theorem trimEnd_joinRow_singleton (x : Text) :
    trimEndBy isBlank (Grid.joinRow [x]) = Grid.joinRow [x] := by
  have hj : Grid.joinRow [x] = '|' :: ' ' :: (x ++ [' ']) ++ ['|'] := by simp [joinRow_singleton]
  apply trimEndBy_eq_self
  rw [hj, List.getLast?_concat]
  rintro c ⟨⟩
  rfl

theorem map_trim_cells_joinRow_singleton (hx : '|' ∉ x) :
    (cells (Grid.joinRow [x])).map trim = [trim x] := by
  have hs : blank [' '] := rfl
  have ht : trimBy (· = '|') (Grid.joinRow [x]) = [' '] ++ x ++ [' '] := by
    have hj : Grid.joinRow [x] = '|' :: ([' '] ++ x ++ [' ']) ++ ['|'] := by
      simp [joinRow_singleton]
    have hl : ([' '] ++ x ++ [' ']).getLast? = some ' ' := List.getLast?_concat
    rw [hj, trimBy_append _ (by simp), trimBy, List.dropWhile_cons_of_pos (by decide)]
    exact trimBy_eq_self (by simp) (by rw [hl]; rintro c ⟨⟩; rfl)
  show fields (trimBy (· = '|') (Grid.joinRow [x])) = _
  rw [ht, fields_append_blank hs, fields_blank_append hs, fields_of_no_bar hx]

theorem map_trim_cells_joinRow (hx : xs ≠ []) (hb : ∀ x ∈ xs, '|' ∉ x) :
    (cells (Grid.joinRow xs)).map trim = xs.map trim := by
  by_cases h : 2 ≤ xs.length
  case pos =>
    rw [cells_eq (not_framed_joinRow h hb)]
    exact fields_joinRow h hb
  case neg =>
    obtain ⟨x, rfl⟩ := exists_singleton hx h
    exact map_trim_cells_joinRow_singleton (hb x List.mem_cons_self)

end DocPress.Markdown.PipeTable
