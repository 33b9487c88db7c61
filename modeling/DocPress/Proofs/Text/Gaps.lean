import DocPress.Proofs.Text.Margin
import DocPress.Proofs.Text.Replace

-- The blank lines of a text, and edits that leave them as they are.

namespace DocPress.Text

-- A line, if it is blank.
def gap (l : Text) : Option Text :=
  if blank l then some l else none

-- The blank lines of a text, each at its place among the others.
def gaps (x : Text) : List (Option Text) :=
  (splitLines x).map gap

-- Texts that leave the same gaps whatever stands around them.
def SameGaps (x y : Text) : Prop :=
  ∀ z, gaps (x ++ z) = gaps (y ++ z)

-- A piece of a line that is not blank.
structure Visible (x : Text) : Prop where
  oneLine  : '\n' ∉ x
  notBlank : blank x = false

instance (x : Text) : Decidable (Visible x) :=
  decidable_of_iff ('\n' ∉ x ∧ blank x = false) ⟨fun h => ⟨h.1, h.2⟩, fun h => ⟨h.1, h.2⟩⟩

variable {c : Char} {ls : List Text} {k l new old u v x y z : Text} {w : Text → Nat}
  {f : Text → Text}

theorem gap_append (x l : Text) :
    gap (x ++ l) = if blank x then (gap l).map (x ++ ·) else none := by
  cases hx : blank x <;> cases hl : blank l <;> simp_all [gap, blank]

theorem gap_concat (l x : Text) :
    gap (l ++ x) = if blank x then (gap l).map (· ++ x) else none := by
  cases hx : blank x <;> cases hl : blank l <;> simp_all [gap, blank]

theorem gaps_append (hx : '\n' ∉ x) (y : Text) :
    gaps (x ++ y) = (gaps y).modifyHead fun g => if blank x then g.map (x ++ ·) else none := by
  have ⟨l, ls, hl⟩ := List.exists_cons_of_ne_nil (splitLines_ne_nil y)
  rw [gaps, gaps, splitLines_append_of_not_mem hx, hl]
  simp [gap_append]

theorem gaps_lineFeed (x : Text) : gaps ('\n' :: x) = some [] :: gaps x :=
  congrArg (List.map gap) (splitLines_append [] x)

-- What stands in front makes no difference.
theorem gaps_append_congr (h : gaps x = gaps y) (z : Text) : gaps (z ++ x) = gaps (z ++ y) := by
  induction z
  case nil => exact h
  case cons c z ih =>
    rw [List.cons_append, List.cons_append]
    by_cases hc : c = '\n'
    case pos => rw [hc, gaps_lineFeed, gaps_lineFeed, ih]
    case neg =>
      have hc : '\n' ∉ [c] := by simpa using Ne.symm hc
      have hg := gaps_append hc (z ++ x)
      rw [ih, ← gaps_append hc (z ++ y)] at hg
      exact hg

namespace SameGaps

theorem refl (x : Text) : SameGaps x x := fun _ => rfl

theorem trans (h : SameGaps x y) (h' : SameGaps y z) : SameGaps x z := fun u => (h u).trans (h' u)

theorem gaps_eq (h : SameGaps x y) : gaps x = gaps y := by
  simpa using h []

theorem append (h : SameGaps x y) (h' : SameGaps u v) : SameGaps (x ++ u) (y ++ v) := by
  intro z
  rw [List.append_assoc, List.append_assoc, h (u ++ z)]
  exact gaps_append_congr (h' z) y

theorem flatMap {α : Type} {F G : α → Text} {as : List α} (h : ∀ a ∈ as, SameGaps (F a) (G a)) :
    SameGaps (as.flatMap F) (as.flatMap G) := by
  induction as
  case nil => exact refl []
  case cons a as ih =>
    have ⟨ha, h⟩ := List.forall_mem_cons.mp h
    exact ha.append (ih h)

end SameGaps

-- One visible piece can take the place of another one.
theorem Visible.sameGaps (hx : Visible x) (hy : Visible y) : SameGaps x y := by
  intro z
  simp only [gaps_append hx.oneLine, gaps_append hy.oneLine, hx.notBlank, hy.notBlank,
    Bool.false_eq_true, if_false]

-- What a match is, where it is found.
theorem exists_of_found (h : .found y ∈ pieces w x) :
    ∃ z, w z ≠ 0 ∧ y = z.take (w z) := by
  fun_induction pieces w x
  case case1 => contradiction
  case case2 ih =>
    cases h
    case tail h => exact ih h
  case case3 c r n hw ih =>
    cases h
    case head   => exact ⟨c :: r, by rw [hw]; exact Nat.succ_ne_zero n, by rw [hw]; rfl⟩
    case tail h => exact ih h

theorem eq_of_found_literal (h : .found y ∈ pieces (literal old) x) : y = old := by
  have ⟨z, hz, he⟩ := exists_of_found h
  have hp : old <+: z := by
    by_contra hp
    exact hz (literal_eq_zero hp)
  have hl : literal old z = old.length := if_pos (List.isPrefixOf_iff_prefix.mpr hp)
  have ⟨r, hr⟩ := hp
  rw [he, hl, ← hr, List.take_left]

theorem sameGaps_substitute (h : ∀ y, .found y ∈ pieces w x → SameGaps (f y) y) :
    SameGaps (substitute w f x) x := by
  have hs : SameGaps (substitute w f x) ((pieces w x).flatMap Piece.text) := by
    refine SameGaps.flatMap fun p hp => ?_
    cases p
    case other c => exact .refl [c]
    case found y => exact h y hp
  rwa [flatMap_text_pieces] at hs

theorem sameGaps_replace (h : SameGaps new old) (x : Text) : SameGaps (replace old new x) x :=
  sameGaps_substitute fun _ hy => eq_of_found_literal hy ▸ h

theorem sameGaps_replaceFirst (h : SameGaps new old) (x : Text) :
    SameGaps (replaceFirst old new x) x := by
  induction x
  case nil => exact .refl []
  case cons c x ih =>
    rw [replaceFirst]
    split
    case isFalse   => exact (SameGaps.refl [c]).append ih
    case isTrue hp =>
      have ⟨r, hr⟩ := List.isPrefixOf_iff_prefix.mp hp
      rw [← hr, List.drop_left]
      exact h.append (.refl r)

-- A space at an end of the text is part of the gap there, if there is one.

theorem gap_eq_of_map {F : Text → Text} (h : gap l = (gap k).map F) (hl : ∀ x, F x ≠ l) :
    gap l = gap k := by
  cases hk : gap k
  all_goals rw [hk] at h
  case none   => exact h
  case some x =>
    simp only [gap, Option.map_some, Option.ite_none_right_eq_some, Option.some.injEq] at h
    exact absurd h.right.symm (hl x)

theorem gaps_cons (hx : splitLines x = l :: ls) : gaps x = gap l :: ls.map gap := by
  rw [gaps, hx, List.map_cons]

theorem gaps_space_cons (hx : splitLines x = l :: ls) :
    gaps (' ' :: x) = (gap l).map (' ' :: ·) :: ls.map gap := by
  have h := gaps_append (x := [' ']) (by decide) x
  rw [gaps_cons hx, List.modifyHead_cons] at h
  exact h

theorem gaps_dropStart (h : gaps x = gaps (' ' :: y)) : gaps (dropStart [' '] x) = gaps y := by
  have ⟨k, ks, hk⟩ := List.exists_cons_of_ne_nil (splitLines_ne_nil y)
  rw [gaps_space_cons hk] at h
  rw [gaps_cons hk]
  by_cases hs : [' '] <+: x
  case pos =>
    obtain ⟨z, rfl⟩ := hs
    have hd : dropStart [' '] ([' '] ++ z) = z := dropStart_append [' '] z
    have ⟨l, ls, hl⟩ := List.exists_cons_of_ne_nil (splitLines_ne_nil z)
    rw [List.singleton_append, gaps_space_cons hl] at h
    have ⟨hg, hls⟩ := List.cons_eq_cons.mp h
    rw [hd, gaps_cons hl, hls, Option.map_injective (List.cons_injective) hg]
  case neg =>
    have hd : dropStart [' '] x = x := if_neg (by simpa using hs)
    have ⟨l, ls, hl⟩ := List.exists_cons_of_ne_nil (splitLines_ne_nil x)
    rw [gaps_cons hl] at h
    have ⟨hg, hls⟩ := List.cons_eq_cons.mp h
    have hx : ∀ z, ' ' :: z ≠ l := by
      rintro z rfl
      exact hs ⟨z ++ ls.flatMap ('\n' :: ·), by
        rw [← joinLines_splitLines x, hl, joinLines_cons_eq]; rfl⟩
    rw [hd, gaps_cons hl, hls, gap_eq_of_map hg hx]

theorem gaps_concat (hx : splitLines x = ls ++ [l]) : gaps x = ls.map gap ++ [gap l] := by
  rw [gaps, hx, List.map_append, List.map_singleton]

theorem gaps_append_space (hx : splitLines x = ls ++ [l]) :
    gaps (x ++ [' ']) = ls.map gap ++ [(gap l).map (· ++ [' '])] := by
  rw [gaps_concat (splitLines_append_of_concat hx (by decide)), gap_concat, if_pos (by decide)]

theorem gaps_dropEnd (h : gaps x = gaps (y ++ [' '])) : gaps (dropEnd [' '] x) = gaps y := by
  have ⟨ks, k, hk⟩ := exists_splitLines_concat y
  rw [gaps_append_space hk] at h
  rw [gaps_concat hk]
  by_cases hs : [' '] <:+ x
  case pos =>
    have hd := dropEnd_append hs
    have ⟨ls, l, hl⟩ := exists_splitLines_concat (dropEnd [' '] x)
    rw [← hd, gaps_append_space hl] at h
    have ⟨hls, hg⟩ := List.append_inj' h rfl
    have hi : Function.Injective fun z : Text => z ++ [' '] := fun _ _ => List.append_cancel_right
    rw [gaps_concat hl, hls, Option.map_injective hi (List.singleton_inj.mp hg)]
  case neg =>
    have hd : dropEnd [' '] x = x := if_neg (by simpa using hs)
    have ⟨ls, l, hl⟩ := exists_splitLines_concat x
    rw [gaps_concat hl] at h
    have ⟨hls, hg⟩ := List.append_inj' h rfl
    have hx : ∀ z, z ++ [' '] ≠ l := by
      rintro z rfl
      exact hs ⟨joinLines (ls ++ [z]), by
        rw [← joinLines_concat_append, ← hl, joinLines_splitLines]⟩
    rw [hd, gaps_concat hl, hls, gap_eq_of_map (List.singleton_inj.mp hg) hx]

end DocPress.Text
