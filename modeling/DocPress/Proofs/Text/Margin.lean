import DocPress.Proofs.Text.Lines

-- The margin of lines. Indentation that is put in front of all lines becomes a part of it, and is
-- taken off again with it.

namespace DocPress.Text

variable {x y l : Text} {ls : List Text}

theorem commonStart_append_append (p x y : Text) :
    commonStart (p ++ x) (p ++ y) = p ++ commonStart x y := by
  induction p
  case nil         => rfl
  case cons c p ih => simp [commonStart, ih]

theorem foldl_commonStart_append (p x : Text) (ls : List Text) :
    (ls.map (p ++ ·)).foldl commonStart (p ++ x) = p ++ ls.foldl commonStart x := by
  induction ls generalizing x
  case nil => rfl
  case cons l ls ih =>
    rw [List.map_cons, List.foldl_cons, commonStart_append_append, ih, List.foldl_cons]

theorem marginOf_map_append (hx : ∀ c ∈ x, isIndent c) (hl : ls ≠ []) :
    marginOf (ls.map (x ++ ·)) = x ++ marginOf ls := by
  have ht : ∀ k, (x ++ k).takeWhile isIndent = x ++ k.takeWhile isIndent := fun k =>
    List.takeWhile_append_of_pos hx
  cases ls
  case nil => contradiction
  case cons l ls =>
    have h := foldl_commonStart_append x (l.takeWhile isIndent) (ls.map (List.takeWhile isIndent))
    simpa only [marginOf, List.map_cons, List.map_map, Function.comp_def, ht] using h

theorem commonStart_prefix_right : ∀ x y, commonStart x y <+: y
  | [],     _      => List.nil_prefix
  | _ :: _, []     => by simp [commonStart]
  | a :: x, b :: y => by
    simp only [commonStart]
    split
    case isTrue h  => exact h ▸ (List.prefix_cons_inj a).mpr (commonStart_prefix_right x y)
    case isFalse h => exact List.nil_prefix

theorem foldl_commonStart_prefix (x : Text) (ls : List Text) :
    ∀ l ∈ x :: ls, ls.foldl commonStart x <+: l := by
  induction ls generalizing x
  case nil => simp
  case cons k ls ih =>
    have ⟨h, ih⟩ := List.forall_mem_cons.mp (ih (commonStart x k))
    simp only [List.forall_mem_cons, List.foldl_cons]
    exact ⟨h.trans (commonStart_prefix_left x k), h.trans (commonStart_prefix_right x k), ih⟩

theorem marginOf_prefix_takeWhile (hl : l ∈ ls) : marginOf ls <+: l.takeWhile isIndent := by
  cases ls
  case nil       => contradiction
  case cons k ls => exact foldl_commonStart_prefix _ _ _ (List.mem_map_of_mem hl)

theorem isIndent_of_mem_marginOf {c : Char} (hc : c ∈ marginOf ls) : isIndent c := by
  cases ls
  case nil       => contradiction
  case cons l ls =>
    have hp : marginOf (l :: ls) <+: l.takeWhile isIndent :=
      marginOf_prefix_takeWhile List.mem_cons_self
    exact List.mem_takeWhile_imp (hp.mem hc)

theorem marginOf_prefix_line (hl : l ∈ ls) : marginOf ls <+: l :=
  (marginOf_prefix_takeWhile hl).trans (List.takeWhile_prefix isIndent)

@[simp]
theorem dropStart_nil_right (x : Text) : dropStart x [] = [] := by
  simp [dropStart]

theorem dropStart_append (x y : Text) : dropStart x (x ++ y) = y := by
  simp [dropStart]

theorem sublist_dropStart (m l : Text) : (dropStart m l).Sublist l := by
  rw [dropStart]
  split
  case isTrue  => exact List.drop_sublist _ l
  case isFalse => exact .refl l

theorem dropStart_append_append (x : Text) (h : y <+: l) :
    dropStart (x ++ y) (x ++ l) = dropStart y l := by
  simp [dropStart, h, List.drop_append]

theorem dropStart_marginOf_map (hx : ∀ c ∈ x, isIndent c) (hl : l ∈ ls) :
    dropStart (marginOf (ls.map (x ++ ·))) (x ++ l) = dropStart (marginOf ls) l := by
  rw [marginOf_map_append hx (List.ne_nil_of_mem hl)]
  exact dropStart_append_append x (marginOf_prefix_line hl)

-- A line of white space only is emptied before the margin is taken off.
def emptied (l : Text) : Text :=
  if blank l then [] else l

def indented (x l : Text) : Text :=
  if blank l then l else x ++ l

theorem dedentLines_eq (ls : List Text) :
    dedentLines ls =
      (ls.map emptied).map (dropStart (marginOf ((ls.map emptied).filter (· ≠ [])))) := rfl

theorem dedentLines_congr {ks : List Text} (h : ks.map emptied = ls.map emptied) :
    dedentLines ks = dedentLines ls := by
  rw [dedentLines_eq, h, dedentLines_eq]

theorem sublist_emptied (l : Text) : (emptied l).Sublist l := by
  rw [emptied]
  split
  case isTrue  => exact List.nil_sublist l
  case isFalse => exact .refl l

theorem emptied_of_blank (h : blank l) : emptied l = [] :=
  if_pos h

theorem emptied_of_not_blank (h : blank l = false) : emptied l = l :=
  if_neg (Bool.not_eq_true _ ▸ h)

theorem lineFeed_not_mem_dedentLines (h : ∀ l ∈ ls, '\n' ∉ l) : ∀ l ∈ dedentLines ls, '\n' ∉ l := by
  rw [dedentLines_eq]
  exact List.forall_mem_map.mpr (List.forall_mem_map.mpr fun l hl hc =>
    h l hl ((sublist_emptied l).mem ((sublist_dropStart _ _).mem hc)))

theorem dedentLines_ne_nil (h : ls ≠ []) : dedentLines ls ≠ [] := by
  simpa [dedentLines] using h

theorem splitLines_dedent (x : Text) : splitLines (dedent x) = dedentLines (splitLines x) :=
  splitLines_joinLines (lineFeed_not_mem_dedentLines fun _ => not_mem_of_mem_splitLines)
    (dedentLines_ne_nil (splitLines_ne_nil x))

theorem indented_of_blank (h : blank l) : indented x l = l :=
  if_pos h

theorem indented_of_not_blank (h : blank l = false) : indented x l = x ++ l :=
  if_neg (Bool.not_eq_true _ ▸ h)

theorem emptied_indented (x l : Text) : emptied (indented x l) = indented x (emptied l) := by
  cases h : blank l
  case true  => rw [indented_of_blank h, emptied_of_blank h, indented_of_blank rfl]
  case false => simp [emptied, h, not_blank_append h, indented_of_not_blank h]

theorem filter_map_indented {es : List Text} (he : ∀ l ∈ es, l = [] ∨ blank l = false) :
    (es.map (indented x)).filter (· ≠ []) = (es.filter (· ≠ [])).map (x ++ ·) := by
  induction es
  case nil => rfl
  case cons l es ih =>
    have ⟨hl, he⟩ := List.forall_mem_cons.mp he
    rw [List.map_cons]
    cases hl
    case inl hl => simpa [hl, indented_of_blank (l := []) rfl] using ih he
    case inr hl =>
      have hn := ne_nil_of_not_blank hl
      have hx := indented_of_not_blank (x := x) hl
      rw [List.filter_cons_of_pos (by simp [hx, hn]), List.filter_cons_of_pos (by simp [hn]), ih he,
        List.map_cons, hx]

theorem eq_nil_or_not_blank_of_mem_emptied (hl : l ∈ ls.map emptied) :
    l = [] ∨ blank l = false := by
  have ⟨k, _, h⟩ := List.mem_map.mp hl
  cases hb : blank k <;> simp_all [emptied]

-- Putting a margin in front of the lines that are not blank makes no difference.
theorem dedentLines_map_indented (hx : ∀ c ∈ x, isIndent c) (ls : List Text) :
    dedentLines (ls.map (indented x)) = dedentLines ls := by
  have he : ∀ l ∈ ls.map emptied, l = [] ∨ blank l = false := fun l =>
    eq_nil_or_not_blank_of_mem_emptied
  have hc : (ls.map (indented x)).map emptied = (ls.map emptied).map (indented x) := by
    simp only [List.map_map, Function.comp_def, emptied_indented]
  rw [dedentLines_eq, dedentLines_eq, hc, filter_map_indented he, List.map_map]
  apply List.map_congr_left
  intro l hl
  cases he l hl
  case inl hn => simp [hn, indented_of_blank (l := []) rfl]
  case inr hb =>
    have hn : l ∈ (ls.map emptied).filter (· ≠ []) :=
      List.mem_filter.mpr ⟨hl, decide_eq_true (ne_nil_of_not_blank hb)⟩
    simpa [indented_of_not_blank hb] using dropStart_marginOf_map hx hn

theorem dedentLines_map_append (hx : ∀ c ∈ x, isIndent c) (hb : ∀ l ∈ ls, blank l = false) :
    dedentLines (ls.map (x ++ ·)) = dedentLines ls := by
  have hi : ls.map (indented x) = ls.map (x ++ ·) :=
    List.map_congr_left fun l hl => indented_of_not_blank (hb l hl)
  exact hi ▸ dedentLines_map_indented hx ls

-- Nothing is taken off lines of which one begins at the very left.
theorem dedentLines_eq_self (hb : ∀ l ∈ ls, blank l = false) (hl : l ∈ ls)
    (hm : l.takeWhile isIndent = []) : dedentLines ls = ls := by
  have hm : marginOf ls = [] := List.prefix_nil.mp (hm ▸ marginOf_prefix_takeWhile hl)
  have he : ls.map emptied = ls :=
    .trans (List.map_congr_left fun l hl => if_neg (by simp [hb l hl])) (List.map_id ls)
  have hf : ls.filter (· ≠ []) = ls :=
    List.filter_eq_self.mpr fun l hl => decide_eq_true (ne_nil_of_not_blank (hb l hl))
  rw [dedentLines_eq, he, hf, hm]
  exact .trans (List.map_congr_left fun l _ => dropStart_nil l) (List.map_id ls)

theorem isBlank_of_isIndent {c : Char} (hc : isIndent c) : isBlank c := by
  simp only [isIndent, Bool.or_eq_true, decide_eq_true_eq] at hc
  rcases hc with rfl | rfl <;> rfl

theorem blank_of_isIndent (hx : ∀ c ∈ x, isIndent c) : blank x :=
  List.all_eq_true.mpr fun c hc => isBlank_of_isIndent (hx c hc)

theorem not_mem_of_isIndent {c : Char} (hx : ∀ c ∈ x, isIndent c) (hc : isIndent c = false) :
    c ∉ x :=
  fun h => Bool.noConfusion ((hx c h).symm.trans hc)

theorem dedent_joinLines_append (hx : ∀ c ∈ x, isIndent c) (hf : ∀ l ∈ ls, '\n' ∉ l)
    (hb : ∀ l ∈ ls, blank l = false) :
    dedent (joinLines (ls.map (x ++ ·))) = dedent (joinLines ls) := by
  by_cases hn : ls = []
  case pos => rw [hn]; rfl
  case neg =>
    have hm : ∀ l ∈ ls.map (x ++ ·), '\n' ∉ l := List.forall_mem_map.mpr fun l hl =>
      List.not_mem_append (not_mem_of_isIndent hx rfl) (hf l hl)
    rw [dedent, splitLines_joinLines hm (mt List.map_eq_nil_iff.mp hn), dedentLines_map_append hx hb,
      dedent, splitLines_joinLines hf hn]

theorem isIndent_of_mem_spaces {n : Nat} {c : Char} (hc : c ∈ spaces n) : isIndent c := by
  simp [List.eq_of_mem_replicate hc, isIndent]

end DocPress.Text
