import DocPress.Proofs.Text.Ends
import DocPress.Proofs.Text.Margin

-- The words of a text. They do not depend on the white space between them, so neither margins nor
-- blank lines count.

namespace DocPress.Text

variable {c : Char} {l x : Text} {ls : List Text}

theorem words_append_cons (hc : isBlank c) (x y : Text) :
    words (x ++ c :: y) = words x ++ words y := by
  rw [words, List.splitOnP_append_cons x y hc, List.filter_append]
  rfl

theorem words_append_left (hx : blank x) (y : Text) : words (x ++ y) = words y := by
  induction x
  case nil => rfl
  case cons c x ih =>
    have ⟨hc, hx⟩ := List.forall_mem_cons.mp (List.all_eq_true.mp hx)
    exact (words_append_cons hc [] (x ++ y)).trans (ih (List.all_eq_true.mpr hx))

theorem words_of_blank (hx : blank x) : words x = [] := by
  simpa [words] using words_append_left hx []

theorem words_append_right (x : Text) {y : Text} (hy : blank y) : words (x ++ y) = words x := by
  cases y
  case nil => rw [List.append_nil]
  case cons c y =>
    have ⟨hc, hy⟩ := List.forall_mem_cons.mp (List.all_eq_true.mp hy)
    rw [words_append_cons hc, words_of_blank (List.all_eq_true.mpr hy), List.append_nil]

theorem blank_of_words_eq_nil (h : words x = []) : blank x := by
  by_contra hb
  refine oneLine_ne_nil (by simpa using hb) ?_
  rw [oneLine, h]
  rfl

theorem words_trim (x : Text) : words (trim x) = words x := by
  have ⟨s, hs, hx⟩ := exists_trimStart x
  have ⟨e, he, hy⟩ := exists_trimEnd (trimStart x)
  conv_rhs => rw [← hx, words_append_left hs, ← hy, words_append_right _ he]
  rfl

theorem words_joinLines (ls : List Text) : words (joinLines ls) = ls.flatMap words := by
  induction ls
  case nil => rfl
  case cons l ls ih =>
    by_cases hl : ls = []
    case pos => simp [hl]
    case neg => rw [joinLines_cons l hl, words_append_cons (by decide), ih, List.flatMap_cons]

theorem words_emptied (l : Text) : words (emptied l) = words l := by
  rw [emptied]
  split
  case isTrue hl => rw [words_of_blank hl]; rfl
  case isFalse   => rfl

theorem words_indented (hx : blank x) (l : Text) : words (indented x l) = words l := by
  rw [indented]
  split
  case isTrue  => rfl
  case isFalse => exact words_append_left hx l

theorem exists_oneLine_cons (h : x.head? = some c) (hc : isBlank c = false) :
    ∃ y, oneLine x = c :: y := by
  obtain ⟨r, rfl⟩ := List.head?_eq_some_iff.mp h
  have ⟨w, ws, hw⟩ := List.exists_cons_of_ne_nil (List.splitOnP_ne_nil isBlank r)
  have hs : words (c :: r) = (c :: w) :: ws.filter (· ≠ []) := by
    rw [words, List.splitOnP_cons_eq_if_modifyHead, if_neg (by simp [hc]), hw]
    rfl
  have ⟨y, hy⟩ := prefix_join [' '] (c :: w) (ws.filter (· ≠ []))
  exact ⟨w ++ y, by rw [oneLine, hs, ← hy]; rfl⟩

end DocPress.Text
