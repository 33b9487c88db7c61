import Mathlib.Data.List.Forall2
import DocPress.Proofs.Text.Margin

-- What is left of a text without its margin. The margin is the longest indentation that the lines
-- have in common, so nothing more can be taken off, and indentation that is put in front of all
-- lines is taken off again.

namespace DocPress.Text

-- An indentation is taken off every line that is not blank, and blank lines are emptied. What is
-- left of the lines has no further indentation in common.
structure TakesOff (m x y : Text) : Prop where
  indentation : ∀ c ∈ m, isIndent c
  lines : List.Forall₂ (fun l k => if blank l then k = [] else l = m ++ k)
    (splitLines x) (splitLines y)
  longest : (∃ k ∈ splitLines y, blank k = false) → ∀ p, (∀ c ∈ p, isIndent c) →
    (∀ k ∈ splitLines y, blank k = false → p <+: k) → p = []

variable {k l m p x y : Text} {ls : List Text}

-- The margin is the greatest common beginning of the lines.

theorem prefix_commonStart (hx : p <+: x) (hy : p <+: y) : p <+: commonStart x y := by
  obtain ⟨x, rfl⟩ := hx
  obtain ⟨y, rfl⟩ := hy
  exact ⟨_, (commonStart_append_append p x y).symm⟩

theorem prefix_foldl_commonStart (hx : p <+: x) (hl : ∀ l ∈ ls, p <+: l) :
    p <+: ls.foldl commonStart x := by
  induction ls generalizing x
  case nil => exact hx
  case cons l ls ih =>
    have ⟨h, hl⟩ := List.forall_mem_cons.mp hl
    exact ih (prefix_commonStart hx h) hl

theorem prefix_takeWhile_isIndent (hp : ∀ c ∈ p, isIndent c) (h : p <+: l) :
    p <+: l.takeWhile isIndent := by
  obtain ⟨r, rfl⟩ := h
  exact ⟨_, (List.takeWhile_append_of_pos hp).symm⟩

theorem prefix_marginOf (hn : ls ≠ []) (hp : ∀ c ∈ p, isIndent c) (hl : ∀ l ∈ ls, p <+: l) :
    p <+: marginOf ls := by
  cases ls
  case nil => contradiction
  case cons l ls =>
    have ⟨h, hl⟩ := List.forall_mem_cons.mp hl
    refine prefix_foldl_commonStart (prefix_takeWhile_isIndent hp h) ?_
    exact List.forall_mem_map.mpr fun k hk => prefix_takeWhile_isIndent hp (hl k hk)

theorem not_blank_of_append (hp : ∀ c ∈ p, isIndent c) (h : blank (p ++ l) = false) :
    blank l = false := by
  rwa [blank, List.all_append, ← blank, blank_of_isIndent hp, Bool.true_and] at h

theorem mem_filter_emptied (hl : l ∈ ls) (hb : blank l = false) :
    l ∈ (ls.map emptied).filter (· ≠ []) := by
  refine List.mem_filter.mpr ⟨List.mem_map.mpr ⟨l, hl, emptied_of_not_blank hb⟩, ?_⟩
  exact decide_eq_true (ne_nil_of_not_blank hb)

theorem of_mem_filter_emptied (hl : l ∈ (ls.map emptied).filter (· ≠ [])) :
    l ∈ ls ∧ blank l = false := by
  have ⟨hm, hn⟩ := List.mem_filter.mp hl
  have ⟨k, hk, he⟩ := List.mem_map.mp hm
  cases hb : blank k
  case true  => simp [← he, emptied_of_blank hb] at hn
  case false =>
    rw [emptied_of_not_blank hb] at he
    exact he ▸ ⟨hk, hb⟩

-- The margin of the lines that are not blank.
def marginIn (ls : List Text) : Text :=
  marginOf ((ls.map emptied).filter (· ≠ []))

-- What is left of a line.
def dedentLine (m l : Text) : Text :=
  dropStart m (emptied l)

theorem dedentLines_eq_map (ls : List Text) :
    dedentLines ls = ls.map (dedentLine (marginIn ls)) :=
  (dedentLines_eq ls).trans (List.map_map ..)

theorem dedentLine_of_blank (m : Text) (hb : blank l) : dedentLine m l = [] := by
  rw [dedentLine, emptied_of_blank hb, dropStart_nil_right]

theorem append_dedentLine (hl : l ∈ ls) (hb : blank l = false) :
    marginIn ls ++ dedentLine (marginIn ls) l = l := by
  have hp : marginIn ls <+: l := marginOf_prefix_line (mem_filter_emptied hl hb)
  have ⟨r, hr⟩ := hp
  have hd : dedentLine (marginIn ls) l = r := by
    rw [dedentLine, emptied_of_not_blank hb, ← dropStart_append (marginIn ls) r, hr]
  rw [hd, hr]

theorem isIndent_of_mem_marginIn {c : Char} (hc : c ∈ marginIn ls) : isIndent c :=
  isIndent_of_mem_marginOf hc

theorem blank_dedentLine (hl : l ∈ ls) : blank (dedentLine (marginIn ls) l) = blank l := by
  cases hb : blank l
  case true  => rw [dedentLine_of_blank _ hb]; rfl
  case false =>
    refine not_blank_of_append (p := marginIn ls) (fun _ => isIndent_of_mem_marginIn) ?_
    rw [append_dedentLine hl hb, hb]

-- What all lines begin with behind the margin would be a part of it.
theorem eq_nil_of_prefix (hl : l ∈ ls) (hb : blank l = false) (hp : ∀ c ∈ p, isIndent c)
    (h : ∀ l ∈ ls, blank l = false → marginIn ls ++ p <+: l) : p = [] := by
  have hm : ∀ c ∈ marginIn ls ++ p, isIndent c :=
    List.forall_mem_append.mpr ⟨fun _ => isIndent_of_mem_marginIn, hp⟩
  have hn := List.ne_nil_of_mem (mem_filter_emptied hl hb)
  have hp : marginIn ls ++ p <+: marginIn ls := prefix_marginOf hn hm fun k hk =>
    have ⟨hk, hb⟩ := of_mem_filter_emptied hk
    h k hk hb
  have hle := hp.length_le
  rw [List.length_append] at hle
  exact List.eq_nil_of_length_eq_zero (by omega)

theorem takesOff_dedent (x : Text) : TakesOff (marginIn (splitLines x)) x (dedent x) where
  indentation _ := isIndent_of_mem_marginIn
  lines := by
    rw [splitLines_dedent, dedentLines_eq_map, List.forall₂_map_right_iff, List.forall₂_same]
    intro l hl
    split
    case isTrue hb  => exact dedentLine_of_blank _ hb
    case isFalse hb => exact (append_dedentLine hl (by simpa using hb)).symm
  longest := by
    rw [splitLines_dedent, dedentLines_eq_map]
    rintro ⟨_, hk, hb⟩ p hp h
    have ⟨l, hl, he⟩ := List.mem_map.mp hk
    rw [← he, blank_dedentLine hl] at hb
    refine eq_nil_of_prefix hl hb hp fun k hk hb => ?_
    rw [← append_dedentLine hk hb, List.prefix_append_right_inj]
    exact h _ (List.mem_map_of_mem hk) ((blank_dedentLine hk).trans hb)

-- Lines that have no margin and of which none is blank without being empty.
theorem dedentLines_of_bare (he : ∀ l ∈ ls, emptied l = l) (hm : marginIn ls = []) :
    dedentLines ls = ls := by
  have hd : dedentLine [] = emptied := funext fun l => dropStart_nil (emptied l)
  rw [dedentLines_eq_map, hm, hd, List.map_congr_left he, List.map_id']

namespace TakesOff

-- The lines are those that are left, with the margin put in front of them again.
theorem emptied_eq (h : TakesOff m x y) :
    (splitLines x).map emptied = ((splitLines y).map (indented m)).map emptied := by
  rw [List.map_map, ← List.forall₂_eq_eq_eq, List.forall₂_map_left_iff, List.forall₂_map_right_iff]
  refine h.lines.imp fun l k hk => ?_
  rw [Function.comp_apply, emptied_indented]
  split at hk
  case isTrue hb => rw [hk, emptied_of_blank hb, emptied_of_blank rfl, indented_of_blank rfl]
  case isFalse hb =>
    have hb : blank l = false := by simpa using hb
    have hn := not_blank_of_append h.indentation (hk ▸ hb)
    rw [emptied_of_not_blank hb, emptied_of_not_blank hn, indented_of_not_blank hn, hk]

theorem emptied_eq_self (h : TakesOff m x y) : ∀ k ∈ splitLines y, emptied k = k := by
  have hl : List.Forall₂ (fun k _ => emptied k = k ∧ True) (splitLines y) (splitLines x) := by
    refine h.lines.flip.imp fun k l (hk : if blank l then k = [] else l = m ++ k) => ⟨?_, trivial⟩
    split at hk
    case isTrue => exact hk ▸ rfl
    case isFalse hb =>
      exact emptied_of_not_blank (not_blank_of_append h.indentation (by simpa [hk] using hb))
  exact ((List.forall₂_and_left _ _).mp hl).left

theorem marginIn_eq_nil (h : TakesOff m x y) : marginIn (splitLines y) = [] := by
  by_cases hb : ∃ k ∈ splitLines y, blank k = false
  case pos =>
    refine h.longest hb _ (fun _ => isIndent_of_mem_marginIn) fun k hk hb => ?_
    exact ⟨_, append_dedentLine hk hb⟩
  case neg =>
    have hf : ((splitLines y).map emptied).filter (· ≠ []) = [] :=
      List.eq_nil_iff_forall_not_mem.mpr fun k hk => hb ⟨k, of_mem_filter_emptied hk⟩
    rw [marginIn, hf]
    rfl

-- There is nothing else that a text without its margin can be.
theorem eq_dedent (h : TakesOff m x y) : y = dedent x := by
  have hd : dedentLines (splitLines x) = splitLines y := by
    rw [dedentLines_congr h.emptied_eq, dedentLines_map_indented h.indentation,
      dedentLines_of_bare h.emptied_eq_self h.marginIn_eq_nil]
  rw [dedent, hd, joinLines_splitLines]

end TakesOff

theorem dedent_dedent (x : Text) : dedent (dedent x) = dedent x := by
  have h := takesOff_dedent x
  have hd := dedentLines_of_bare h.emptied_eq_self h.marginIn_eq_nil
  rw [dedent, hd, joinLines_splitLines]

theorem splitLines_indent (hp : '\n' ∉ p) (x : Text) :
    splitLines (indent p x) = (splitLines x).map (indented p) := by
  refine splitLines_joinLines (List.forall_mem_map.mpr fun l hl => ?_) ?_
  · have hl := not_mem_of_mem_splitLines hl
    split
    case isTrue  => exact hl
    case isFalse => exact List.not_mem_append hp hl
  · exact mt List.map_eq_nil_iff.mp (splitLines_ne_nil x)

theorem dedent_indent (hp : ∀ c ∈ p, isIndent c) (x : Text) : dedent (indent p x) = dedent x := by
  rw [dedent, splitLines_indent (not_mem_of_isIndent hp rfl), dedentLines_map_indented hp, dedent]

end DocPress.Text
