import DocPress.Proofs.Lists
import DocPress.Proofs.Text.Dedent
import DocPress.Proofs.Text.Gaps

-- Texts without blank lines, except that the last line may be empty.

namespace DocPress.Text

-- No line is blank, unless it is the last one and holds nothing.
structure Tight (x : Text) : Prop where
  inner : (gaps x).Pairwise fun g _ => g = none
  last  : ∀ l, some l ∈ gaps x → l = []

variable {x : Text} {ls : List Text}

-- The lines of a text, where none of them is blank except for the last one.
theorem pairwise_lines (h : (splitLines x).Pairwise fun l _ => blank l = false) :
    (lines x).Pairwise fun l _ => blank l = false := by
  have ⟨ls, l, hl⟩ := exists_splitLines_concat x
  rw [hl, pairwise_concat] at h
  have hx : (lines x).Sublist (ls.map (dropEnd ['\r']) ++ [l]) := by
    rw [lines_of_concat hl]
    exact (List.Sublist.refl _).append List.filter_sublist
  refine List.Pairwise.sublist hx (pairwise_concat.mpr (List.forall_mem_map.mpr fun k hk => ?_))
  rw [blank_dropEnd, h k hk]

theorem not_blank_of_tight (h : Tight x) : ∀ l ∈ lines x, blank l = false := by
  obtain ⟨ls, l, hl⟩ := exists_splitLines_concat x
  have hg := gaps_concat hl
  have hi := h.inner
  rw [hg, pairwise_concat, List.forall_mem_map] at hi
  have hb : ∀ k, gap k = none → blank k = false := by simp [gap]
  rw [lines_of_concat hl]
  refine List.forall_mem_append.mpr ⟨List.forall_mem_map.mpr fun k hk => ?_, fun k hk => ?_⟩
  · rw [blank_dropEnd, hb k (hi k hk)]
  · obtain ⟨hk, hn⟩ := List.mem_filter.mp hk
    obtain rfl := List.mem_singleton.mp hk
    by_contra hb
    have hs : gap k = some k := if_pos (by simpa using hb)
    exact of_decide_eq_true hn (h.last k (by simp [hg, hs]))

-- Blank lines are emptied, and no other line becomes blank.
theorem gap_dedentLine {l : Text} (hl : l ∈ ls) :
    gap (dedentLine (marginIn ls) l) = if blank l then some [] else none := by
  rw [gap, blank_dedentLine hl]
  split
  case isTrue hb => rw [dedentLine_of_blank _ hb]
  case isFalse   => rfl

theorem gaps_dedent (hf : ∀ l ∈ ls, '\n' ∉ l) (hn : ls ≠ []) :
    gaps (dedent (joinLines ls)) = ls.map fun l => if blank l then some [] else none := by
  rw [gaps, splitLines_dedent, splitLines_joinLines hf hn, dedentLines_eq_map, List.map_map]
  exact List.map_congr_left fun l => gap_dedentLine

theorem tight_dedent (hf : ∀ l ∈ ls, '\n' ∉ l) (hb : ls.Pairwise fun l _ => blank l = false) :
    Tight (dedent (joinLines ls)) := by
  by_cases hn : ls = []
  case pos =>
    subst hn
    have hg : gaps (dedent (joinLines [])) = [some []] := rfl
    exact ⟨hg ▸ List.pairwise_singleton _ _, by simp [hg]⟩
  case neg =>
    have hg := gaps_dedent hf hn
    constructor
    case inner =>
      rw [hg, List.pairwise_map]
      exact hb.imp fun h => if_neg (by simp [h])
    case last =>
      intro l hl
      rw [hg] at hl
      have ⟨k, _, hk⟩ := List.mem_map.mp hl
      split at hk
      case isTrue  => exact (Option.some.inj hk).symm
      case isFalse => contradiction

end DocPress.Text
