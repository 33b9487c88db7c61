import Mathlib.Data.List.ModifyLast
import DocPress.Proofs.Text.Lines

-- What trimming takes off the ends of a text. Of several lines it changes the first and the last one
-- only.

namespace DocPress.Text

variable {l x y z : Text} {ls : List Text}

theorem sublist_trimBy (p : Char → Bool) (x : Text) : List.Sublist (trimBy p x) x := by
  rw [trimBy_eq]
  exact (prefix_trimEndBy p _).sublist.trans (List.dropWhile_sublist p)

theorem trim_prefix (h : ∀ c ∈ x.head?, isBlank c = false) : trim x <+: x := by
  rw [trim, trimBy_eq, dropWhile_eq_self h]
  exact prefix_trimEndBy isBlank x

-- Where a text has no white space in front, neither has what it begins with.
theorem trim_prefix_of_head (hy : ∀ c ∈ y.head?, isBlank c = false) (h : x <+: y) :
    trim x <+: x := by
  refine trim_prefix fun c hc => hy c ?_
  have ⟨z, hz⟩ := h
  rw [← hz, List.head?_append, Option.mem_def.mp hc, Option.some_or]
  rfl

theorem exists_trimEndBy_append (p : Char → Bool) (x : Text) :
    ∃ y, trimEndBy p x ++ y = x ∧ ∀ c ∈ y, p c := by
  refine ⟨(x.reverse.takeWhile p).reverse, ?_, ?_⟩
  case refine_1 =>
    rw [trimEndBy, ← List.reverse_append, List.takeWhile_append_dropWhile, List.reverse_reverse]
  case refine_2 => exact fun c hc => List.mem_takeWhile_imp (List.mem_reverse.mp hc)

theorem trimEndBy_append_of_not {p : Char → Bool} (h : ∃ c ∈ y, p c = false) (x : Text) :
    trimEndBy p (x ++ y) = x ++ trimEndBy p y := by
  have hy : y.reverse.dropWhile p ≠ [] := by
    rw [Ne, List.dropWhile_eq_nil_iff]
    simpa using h
  have he : (y.reverse.dropWhile p).isEmpty = false := List.isEmpty_eq_false_iff.mpr hy
  rw [trimEndBy, trimEndBy, List.reverse_append, List.dropWhile_append, he]
  simp

theorem trimEndBy_cons {p : Char → Bool} {c : Char} (hc : p c = false) (x : Text) :
    trimEndBy p (c :: x) = c :: trimEndBy p x := by
  by_cases hx : ∃ d ∈ x, p d = false
  case pos => exact trimEndBy_append_of_not hx [c]
  case neg =>
    have hx : ∀ d ∈ x, p d := by simpa using hx
    have he : trimEndBy p [c] = [c] := trimEndBy_eq_self (by simpa using hc)
    have hn : trimEndBy p x = [] := trimEndBy_append [] hx
    rw [hn, ← he]
    exact trimEndBy_append [c] hx

theorem exists_not_isBlank (h : blank x = false) : ∃ c ∈ x, isBlank c = false := by
  simpa [blank] using h

theorem trimStart_append (hx : blank x = false) (y : Text) :
    trimStart (x ++ y) = trimStart x ++ y := by
  have he : (x.dropWhile isBlank).isEmpty = false := by
    rw [List.isEmpty_eq_false_iff, Ne, List.dropWhile_eq_nil_iff]
    simpa [blank] using hx
  rw [trimStart, List.dropWhile_append, he, if_neg Bool.false_ne_true, trimStart]

theorem trim_append_of_not_blank (hx : blank x = false) (hy : blank y = false) :
    trim (x ++ y) = trimStart x ++ trimEndBy isBlank y := by
  rw [trim, trimBy_eq, ← trimStart, trimStart_append hx,
    trimEndBy_append_of_not (exists_not_isBlank hy)]

theorem head?_trim_eq {c : Char} (h : x.head? = some c) (hc : isBlank c = false) :
    (trim x).head? = some c := by
  have hh : ∀ d ∈ x.head?, isBlank d = false := fun d hd => by
    rw [h] at hd
    exact Option.some.inj hd ▸ hc
  have ⟨d, y, hy⟩ := List.exists_cons_of_ne_nil (trim_ne_nil (not_blank_of_head h hc))
  have ⟨z, hz⟩ := hy ▸ trim_prefix hh
  rw [hy, ← h, ← hz]
  rfl

-- Only the first line and the last one have an end at an end of the text.
theorem trim_joinLines_concat (hl : blank l = false) (hk : blank z = false) (ls : List Text) :
    trim (joinLines (l :: (ls ++ [z]))) =
      joinLines (trimStart l :: (ls ++ [trimEndBy isBlank z])) := by
  have hz : ∀ x : Text, joinLines (trimStart l :: (ls ++ [x])) =
      joinLines (trimStart l :: (ls ++ [[]])) ++ x := by
    intro x
    rw [← List.cons_append, ← List.cons_append, ← joinLines_concat_append, List.nil_append]
  rw [trim, trimBy_eq, ← trimStart, joinLines_cons_eq, trimStart_append hl, ← joinLines_cons_eq,
    hz z, trimEndBy_append_of_not (exists_not_isBlank hk), ← hz]

-- Trimming of several lines.
def trimEnds (ls : List Text) : List Text :=
  (ls.modifyHead trimStart).modifyLast (trimEndBy isBlank)

theorem trim_joinLines (hl : ∀ l ∈ ls.head?, blank l = false)
    (hk : ∀ l ∈ ls.getLast?, blank l = false) :
    trim (joinLines ls) = joinLines (trimEnds ls) := by
  cases ls
  case nil => rfl
  case cons l ls =>
    rw [trimEnds, List.modifyHead_cons]
    rcases List.eq_nil_or_concat ls with he | ⟨ks, k, he⟩
    case inl =>
      have hm := List.modifyLast_concat (trimEndBy isBlank) (trimStart l) []
      rw [he, joinLines_singleton]
      exact (congrArg joinLines hm).symm ▸ (joinLines_singleton _).symm
    case inr =>
      rw [List.concat_eq_append] at he
      subst he
      have hm := List.modifyLast_concat (trimEndBy isBlank) k (trimStart l :: ks)
      rw [← List.cons_append, List.getLast?_concat] at hk
      rw [trim_joinLines_concat (hl l rfl) (hk k rfl)]
      exact congrArg joinLines hm.symm

theorem exists_modifyLast_cons (f : Text → Text) (x : Text) (ls : List Text) :
    ∃ y, (y = x ∨ y = f x) ∧ (x :: ls).modifyLast f = y :: ls.modifyLast f := by
  cases ls
  case nil       => exact ⟨f x, .inr rfl, List.modifyLast_concat f x []⟩
  case cons k ks =>
    exact ⟨x, .inl rfl, List.modifyLast_append_of_right_ne_nil f [x] (k :: ks) (List.cons_ne_nil k ks)⟩

theorem forall_mem_modifyLast {P : Text → Prop} {f : Text → Text} (h : ∀ k ∈ ls, P k)
    (hf : ∀ k ∈ ls, P (f k)) : ∀ k ∈ ls.modifyLast f, P k := by
  rcases List.eq_nil_or_concat ls with he | ⟨ks, k, he⟩
  case inl => rw [he]; exact List.forall_mem_nil _
  case inr =>
    rw [List.concat_eq_append] at he
    subst he
    rw [List.modifyLast_concat]
    have ⟨hk, _⟩ := List.forall_mem_append.mp h
    exact List.forall_mem_append.mpr ⟨hk, List.forall_mem_singleton.mpr (hf k (by simp))⟩

theorem map_modifyLast {α : Type} {F : Text → α} {f : Text → Text} (h : ∀ k ∈ ls, F (f k) = F k) :
    (ls.modifyLast f).map F = ls.map F := by
  rcases List.eq_nil_or_concat ls with he | ⟨ks, k, he⟩
  case inl => rw [he]; rfl
  case inr =>
    rw [List.concat_eq_append] at he
    subst he
    rw [List.modifyLast_concat, List.map_append, List.map_append, List.map_singleton,
      List.map_singleton, h k (by simp)]

theorem exists_trimStart (l : Text) : ∃ s, blank s ∧ s ++ trimStart l = l :=
  ⟨l.takeWhile isBlank, List.all_eq_true.mpr fun _ hc => List.mem_takeWhile_imp hc,
    List.takeWhile_append_dropWhile⟩

theorem exists_trimEnd (l : Text) : ∃ s, blank s ∧ trimEndBy isBlank l ++ s = l :=
  have ⟨s, hs, hb⟩ := exists_trimEndBy_append isBlank l
  ⟨s, List.all_eq_true.mpr hb, hs⟩

theorem blank_trimStart (l : Text) : blank (trimStart l) = blank l := by
  have ⟨s, hs, hl⟩ := exists_trimStart l
  conv_rhs => rw [← hl, blank, List.all_append]
  rw [← blank, ← blank, hs, Bool.true_and]

theorem blank_trimEnd (l : Text) : blank (trimEndBy isBlank l) = blank l := by
  have ⟨s, hs, hl⟩ := exists_trimEnd l
  conv_rhs => rw [← hl, blank, List.all_append]
  rw [← blank, ← blank, hs, Bool.and_true]

theorem exists_head_trimStart (h : blank l = false) :
    ∃ c ∈ (trimStart l).head?, isBlank c = false := by
  have hn : trimStart l ≠ [] := ne_nil_of_not_blank ((blank_trimStart l).trans h)
  have ⟨c, r, hc⟩ := List.exists_cons_of_ne_nil hn
  have hd := List.head?_dropWhile_not isBlank l
  rw [← trimStart, hc] at hd
  exact ⟨c, by rw [hc]; rfl, hd⟩

theorem lineFeed_not_mem_trim (h : '\n' ∉ x) : '\n' ∉ trim x := fun hc =>
  h ((sublist_trimBy isBlank x).mem hc)

end DocPress.Text
