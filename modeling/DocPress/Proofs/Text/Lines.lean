import Mathlib.Data.List.Basic
import Mathlib.Data.List.TakeWhile
import DocPress.Text.Margin

-- Texts that are put together from lines: where they begin and end, and how they are read.

namespace DocPress.Text

variable {p : Char → Bool} {x y l : Text} {ls : List Text}

-- The maximal runs of elements of a class.
def runs {α : Type} (p : α → Bool) (xs : List α) : List (List α) :=
  (xs.splitOnP (!p ·)).filter (!·.isEmpty)

theorem spaces_add (n k : Nat) : spaces (n + k) = spaces n ++ spaces k :=
  List.replicate_add ..

theorem isBlank_of_mem_spaces {c : Char} {k : Nat} (h : c ∈ spaces k) : isBlank c :=
  List.eq_of_mem_replicate h ▸ rfl

theorem blank_spaces (n : Nat) : blank (spaces n) :=
  List.all_eq_true.mpr fun _ => isBlank_of_mem_spaces

theorem dropWhile_eq_self {α : Type} {p : α → Bool} {xs : List α}
    (h : ∀ a ∈ xs.head?, p a = false) : xs.dropWhile p = xs := by
  cases xs <;> simp_all

-- A first part is cut off where the second one begins with something else.

theorem takeWhile_append_of_head {α : Type} {p : α → Bool} {xs ys : List α} (hx : ∀ a ∈ xs, p a)
    (hy : ∀ a ∈ ys.head?, p a = false) : (xs ++ ys).takeWhile p = xs := by
  have he : ys.takeWhile p = [] := by cases ys <;> simp_all
  rw [List.takeWhile_append_of_pos hx, he, List.append_nil]

theorem dropWhile_append_of_head {α : Type} {p : α → Bool} {xs ys : List α} (hx : ∀ a ∈ xs, p a)
    (hy : ∀ a ∈ ys.head?, p a = false) : (xs ++ ys).dropWhile p = ys := by
  rw [List.dropWhile_append_of_pos hx, dropWhile_eq_self hy]

theorem trimEndBy_eq_self (h : ∀ c ∈ x.getLast?, p c = false) : trimEndBy p x = x := by
  rw [trimEndBy, dropWhile_eq_self (by simpa using h), List.reverse_reverse]

theorem trimBy_eq_self (hh : ∀ c ∈ x.head?, p c = false) (hl : ∀ c ∈ x.getLast?, p c = false) :
    trimBy p x = x := by
  rw [trimBy_eq, dropWhile_eq_self hh, trimEndBy_eq_self hl]

theorem trimEndBy_append (x : Text) (hy : ∀ c ∈ y, p c) : trimEndBy p (x ++ y) = trimEndBy p x := by
  rw [trimEndBy, List.reverse_append, List.dropWhile_append_of_pos (by simpa using hy)]
  rfl

-- What is added in front of the end is trimmed off again.
theorem trimBy_append (x : Text) (hy : ∀ c ∈ y, p c) : trimBy p (x ++ y) = trimBy p x := by
  rw [trimBy_eq, trimBy_eq, List.dropWhile_append]
  split
  case isFalse => exact trimEndBy_append _ hy
  case isTrue h => rw [List.dropWhile_eq_nil_iff.mpr hy, List.isEmpty_iff.mp h]

theorem trim_append_left (hx : blank x) (y : Text) : trim (x ++ y) = trim y := by
  rw [trim, trim, trimBy, trimBy, List.dropWhile_append_of_pos (List.all_eq_true.mp hx)]

theorem trim_append (x : Text) (hy : blank y) : trim (x ++ y) = trim x :=
  trimBy_append x (List.all_eq_true.mp hy)

theorem trim_of_blank (hx : blank x) : trim x = [] :=
  trim_append [] hx

-- Only what belongs to the class altogether is trimmed off without a rest.
theorem of_trimBy_eq_nil (h : trimBy p x = []) : ∀ c ∈ x, p c := by
  have hd : ∀ c ∈ x.dropWhile p, p c := by
    simpa using List.dropWhile_eq_nil_iff.mp (List.reverse_eq_nil_iff.mp h)
  intro c hc
  rw [← List.takeWhile_append_dropWhile (p := p) (l := x)] at hc
  cases List.mem_append.mp hc
  case inl hc => exact List.mem_takeWhile_imp hc
  case inr hc => exact hd c hc

theorem getLast?_trim (x : Text) : ∀ c ∈ (trim x).getLast?, isBlank c = false := by
  intro c hc
  have h := List.head?_dropWhile_not isBlank (x.dropWhile isBlank).reverse
  rw [trim, trimBy, List.getLast?_reverse, Option.mem_def] at hc
  simpa only [hc] using h

theorem head?_trim (x : Text) : ∀ c ∈ (trim x).head?, isBlank c = false := by
  intro c hc
  have ⟨y, hy⟩ := List.head?_eq_some_iff.mp hc
  exact head_trimBy hy

theorem trim_trim (x : Text) : trim (trim x) = trim x :=
  trimBy_eq_self (head?_trim x) (getLast?_trim x)

theorem ne_nil_of_not_blank (h : blank x = false) : x ≠ [] := by
  rintro rfl
  contradiction

theorem not_blank_append (h : blank y = false) : blank (x ++ y) = false := by
  simp_all [blank]

theorem not_blank_of_head {c : Char} (h : x.head? = some c) (hc : isBlank c = false) :
    blank x = false := by
  cases x
  case nil      => contradiction
  case cons d x => simp_all [blank]

theorem trim_ne_nil (h : blank x = false) : trim x ≠ [] := by
  intro ht
  have hb : blank x := List.all_eq_true.mpr (of_trimBy_eq_nil ht)
  exact absurd (h.symm.trans hb) Bool.false_ne_true

theorem splitAt?_eq_none {c : Char} (h : c ∉ x) : splitAt? c x = none := by
  induction x
  case nil => rfl
  case cons d x ih =>
    have ⟨hd, hx⟩ := List.ne_and_not_mem_of_not_mem_cons h
    rw [splitAt?, if_neg (Ne.symm hd), ih hx, Option.map_none]

theorem splitAt?_append {c : Char} (h : c ∉ x) (y : Text) :
    splitAt? c (x ++ c :: y) = some (x, y) := by
  induction x
  case nil => rw [List.nil_append, splitAt?, if_pos rfl]
  case cons d x ih =>
    have ⟨hd, hx⟩ := List.ne_and_not_mem_of_not_mem_cons h
    rw [List.cons_append, splitAt?, if_neg (Ne.symm hd), ih hx, Option.map_some]

theorem dropEnd_append (h : y <:+ x) : dropEnd y x ++ y = x := by
  have ⟨z, hz⟩ := h
  simp [dropEnd, ← hz]

theorem dropEnd_concat (c d : Char) (x : Text) :
    dropEnd [c] (x ++ [d]) = if d = c then x else x ++ [d] := by
  by_cases h : d = c
  case pos => simp [dropEnd, h]
  case neg => simp [dropEnd, h, Ne.symm h]

theorem dropEnd_append_of_ne_nil (c : Char) (y : Text) (hx : x ≠ []) :
    dropEnd [c] (y ++ x) = y ++ dropEnd [c] x := by
  have ⟨z, d, h⟩ := (List.eq_nil_or_concat x).resolve_left hx
  rw [h, List.concat_eq_append, ← List.append_assoc, dropEnd_concat, dropEnd_concat]
  split <;> simp

theorem splitLines_append (x y : Text) :
    splitLines (x ++ '\n' :: y) = splitLines x ++ splitLines y :=
  List.splitOn_append_cons_self x y

theorem length_splitOn (c : Char) (x : Text) : (x.splitOn c).length = x.count c + 1 := by
  induction x
  case nil => rfl
  case cons d x ih =>
    rw [List.splitOn_cons_eq_if_modifyHead, List.count_cons]
    split <;> simp_all

theorem length_splitLines (x : Text) : (splitLines x).length = x.count '\n' + 1 :=
  length_splitOn '\n' x

theorem splitLines_ne_nil (x : Text) : splitLines x ≠ [] :=
  List.splitOn_ne_nil _ _

-- The lines of a text that goes on behind a given part, whose last line is ended like the others.
theorem lines_append (x y : Text) :
    lines (x ++ '\n' :: y) = (splitLines x).map (dropEnd ['\r']) ++ lines y := by
  have hy := splitLines_ne_nil y
  simp only [lines, splitLines_append, List.dropLast_append_of_ne_nil hy, List.map_append,
    List.getLast?_append_of_ne_nil _ hy, List.append_assoc]

theorem count_le_length_lines (x : Text) : x.count '\n' ≤ (lines x).length := by
  simp [lines, length_splitLines]

theorem dropEnd_eq_self {c : Char} (h : c ∉ x) : dropEnd [c] x = x := by
  refine if_neg fun hs => h ?_
  have ⟨z, hz⟩ := List.isSuffixOf_iff_suffix.mp hs
  exact hz ▸ List.mem_append_right z List.mem_cons_self

-- Lines that hold no line end of any kind are read back.
@[simp]
theorem joinLines_singleton (x : Text) : joinLines [x] = x :=
  join_singleton _ x

theorem joinLines_cons (l : Text) (hl : ls ≠ []) :
    joinLines (l :: ls) = l ++ '\n' :: joinLines ls := by
  cases ls
  case nil       => contradiction
  case cons k ks => simp [joinLines, join_cons_cons]

theorem joinLines_ne_nil_of_two_le (h : 2 ≤ ls.length) : joinLines ls ≠ [] := by
  match ls with
  | l :: k :: ls => simp [joinLines_cons]

-- Every further line brings a line feed with it.
theorem joinLines_cons_eq (l : Text) (ls : List Text) :
    joinLines (l :: ls) = l ++ ls.flatMap ('\n' :: ·) := by
  induction ls generalizing l
  case nil => simp
  case cons k ls ih =>
    rw [joinLines_cons l (List.cons_ne_nil k ls), ih, List.flatMap_cons, List.cons_append]

theorem flatMap_lineFeed (hn : ls ≠ []) : ls.flatMap ('\n' :: ·) = '\n' :: joinLines ls := by
  cases ls
  case nil       => contradiction
  case cons l ls => rw [joinLines_cons_eq, List.flatMap_cons, List.cons_append]

theorem mem_join {c : Char} {sep : Text} {xs : List Text} (hx : x ∈ xs) (hc : c ∈ x) :
    c ∈ join sep xs := by
  induction xs
  case nil => contradiction
  case cons y ys ih =>
    cases ys
    case nil => rwa [join_singleton, ← List.mem_singleton.mp hx]
    case cons z zs =>
      rw [join_cons_cons, List.append_assoc]
      cases List.mem_cons.mp hx
      case inl he => exact List.mem_append_left _ (he ▸ hc)
      case inr hx => exact List.mem_append_right _ (List.mem_append_right sep (ih hx))

theorem mem_joinLines {c : Char} (hl : l ∈ ls) (hc : c ∈ l) : c ∈ joinLines ls :=
  mem_join hl hc

theorem mem_of_mem_splitLines {c : Char} (hl : l ∈ splitLines x) (hc : c ∈ l) : c ∈ x :=
  joinLines_splitLines x ▸ mem_joinLines hl hc

theorem firstLine_append (hl : '\n' ∉ l) (ls : List Text) :
    firstLine (l ++ ls.flatMap ('\n' :: ·)) = l := by
  have hf : ∀ c ∈ l, decide (c ≠ '\n') := fun c hc => decide_eq_true fun h => hl (h ▸ hc)
  rw [firstLine, List.takeWhile_append_of_pos hf]
  cases ls <;> simp

theorem blank_joinLines (ls : List Text) : blank (joinLines ls) = ls.all blank := by
  induction ls
  case nil => rfl
  case cons l ls ih =>
    by_cases hl : ls = []
    case pos => simp [hl]
    case neg =>
      rw [joinLines_cons l hl, List.all_cons, ← ih]
      simp [blank, isBlank]

theorem joinLines_concat_append (ls : List Text) (x y : Text) :
    joinLines (ls ++ [x ++ y]) = joinLines (ls ++ [x]) ++ y := by
  induction ls
  case nil          => simp
  case cons l ls ih => simp [joinLines_cons, ih]

theorem joinLines_ne_nil (hl : l ≠ []) : joinLines (l :: ls) ≠ [] := by
  cases ls <;> simp [joinLines, join_cons_cons, hl]

theorem head?_joinLines (hl : l ≠ []) : (joinLines (l :: ls)).head? = l.head? := by
  cases ls
  case nil       => simp [joinLines]
  case cons k ks => cases l <;> simp_all [joinLines, join_cons_cons]

-- What the last characters of all lines have in common holds of the last one of the text.
theorem getLast?_joinLines {P : Char → Prop} (hn : ∀ l ∈ ls, l ≠ [])
    (h : ∀ l ∈ ls, ∀ c ∈ l.getLast?, P c) : ∀ c ∈ (joinLines ls).getLast?, P c := by
  induction ls
  case nil => simp [joinLines]
  case cons l ls ih =>
    cases ls
    case nil => simpa [joinLines] using h
    case cons k ks =>
      have hk : join ['\n'] (k :: ks) ≠ [] := joinLines_ne_nil (hn k (by simp))
      rw [joinLines, join_cons_cons, List.getLast?_append_of_ne_nil _ hk]
      exact ih (fun l hl => hn l (List.mem_cons_of_mem _ hl))
        (fun l hl => h l (List.mem_cons_of_mem _ hl))

theorem join_append (sep : Text) {xs ys : List Text} (hx : xs ≠ []) (hy : ys ≠ []) :
    join sep (xs ++ ys) = join sep xs ++ sep ++ join sep ys := by
  induction xs
  case nil => contradiction
  case cons x xs ih =>
    cases xs
    case nil =>
      have ⟨y, ys, hy⟩ := List.exists_cons_of_ne_nil hy
      rw [hy, List.singleton_append, join_cons_cons, join_singleton]
    case cons z zs =>
      have ih := ih (List.cons_ne_nil z zs)
      simp only [List.cons_append, join_cons_cons, List.append_assoc] at ih ⊢
      rw [ih]

theorem joinLines_append {ks : List Text} (hl : ls ≠ []) (hk : ks ≠ []) :
    joinLines (ls ++ ks) = joinLines ls ++ '\n' :: joinLines ks := by
  rw [joinLines, join_append _ hl hk, List.append_assoc]
  rfl

theorem of_mem_join {c : Char} {sep : Text} {xs : List Text} (hc : c ∈ join sep xs) :
    c ∈ sep ∨ ∃ x ∈ xs, c ∈ x := by
  induction xs
  case nil => contradiction
  case cons x xs ih =>
    cases xs
    case nil => exact .inr ⟨x, List.mem_singleton_self x, join_singleton sep x ▸ hc⟩
    case cons y ys =>
      rw [join_cons_cons, List.append_assoc, List.mem_append, List.mem_append] at hc
      rcases hc with hc | hc | hc
      case inl     => exact .inr ⟨x, List.mem_cons_self, hc⟩
      case inr.inl => exact .inl hc
      case inr.inr => exact (ih hc).imp_right fun ⟨z, hz, hc⟩ => ⟨z, List.mem_cons_of_mem x hz, hc⟩

theorem prefix_join (sep x : Text) (xs : List Text) : x <+: join sep (x :: xs) := by
  cases xs
  case nil       => exact ⟨[], by rw [List.append_nil, join_singleton]⟩
  case cons y ys => rw [join_cons_cons, List.append_assoc]; exact List.prefix_append x _

theorem prefix_joinLines_append (ls ks : List Text) : joinLines ls <+: joinLines (ls ++ ks) := by
  cases ls
  case nil => exact List.nil_prefix
  case cons l ls =>
    rw [List.cons_append, joinLines_cons_eq, joinLines_cons_eq, List.flatMap_append,
      ← List.append_assoc]
    exact List.prefix_append _ _

theorem prefix_joinLines_takeWhile (p : Text → Bool) (x : Text) :
    joinLines ((splitLines x).takeWhile p) <+: x := by
  conv_rhs => rw [← joinLines_splitLines x,
    ← List.takeWhile_append_dropWhile (p := p) (l := splitLines x)]
  exact prefix_joinLines_append _ _

theorem suffix_join (sep : Text) (xs : List Text) (x : Text) : x <:+ join sep (xs ++ [x]) := by
  by_cases hx : xs = []
  case pos => exact ⟨[], by rw [hx, List.nil_append, List.nil_append, join_singleton]⟩
  case neg =>
    rw [join_append sep hx (List.cons_ne_nil x []), join_singleton]
    exact List.suffix_append _ x

theorem mem_of_mem_splitOnP {α : Type} {p : α → Bool} {a : α} {xs ys : List α}
    (hy : ys ∈ xs.splitOnP p) (ha : a ∈ ys) : a ∈ xs := by
  induction xs generalizing ys
  case nil => simp_all
  case cons b xs ih =>
    rw [List.splitOnP_cons_eq_if_modifyHead] at hy
    split at hy
    case isTrue =>
      rcases List.mem_cons.mp hy with rfl | hy
      case inl => contradiction
      case inr => exact List.mem_cons_of_mem b (ih hy ha)
    case isFalse =>
      cases hs : xs.splitOnP p
      all_goals rw [hs] at hy ih
      case nil => contradiction
      case cons z zs =>
        rcases List.mem_cons.mp hy with rfl | hy
        case inl => exact List.mem_cons.mpr ((List.mem_cons.mp ha).imp_right (ih List.mem_cons_self))
        case inr => exact List.mem_cons_of_mem b (ih (List.mem_cons_of_mem z hy) ha)

-- What is put on one line has no other white space than spaces between words.
theorem of_mem_oneLine {c : Char} (hc : c ∈ oneLine x) : c = ' ' ∨ c ∈ x ∧ isBlank c = false := by
  rcases of_mem_join hc with hc | ⟨w, hw, hc⟩
  case inl => exact .inl (List.mem_singleton.mp hc)
  case inr =>
    exact .inr ⟨mem_of_mem_splitOnP (List.mem_filter.mp hw).left hc, not_isBlank_of_mem_words hw c hc⟩

theorem exists_mem_splitOnP {p : Char → Bool} {c : Char} (hc : c ∈ x) (hp : p c = false) :
    ∃ y ∈ x.splitOnP p, c ∈ y := by
  induction x
  case nil => contradiction
  case cons d x ih =>
    rw [List.splitOnP_cons_eq_if_modifyHead]
    have ⟨z, zs, hs⟩ := List.exists_cons_of_ne_nil (List.splitOnP_ne_nil p x)
    rw [hs] at ih ⊢
    cases hc
    case head => rw [if_neg (by simp [hp])]; exact ⟨_, List.mem_cons_self, List.mem_cons_self⟩
    case tail hc =>
      have ⟨y, hy, hc⟩ := ih hc
      split
      case isTrue => exact ⟨y, List.mem_cons_of_mem _ hy, hc⟩
      case isFalse =>
        cases hy
        case head    => exact ⟨_, List.mem_cons_self, List.mem_cons_of_mem d hc⟩
        case tail hy => exact ⟨y, List.mem_cons_of_mem _ hy, hc⟩

theorem mem_oneLine {c : Char} (hc : c ∈ x) (hb : isBlank c = false) : c ∈ oneLine x := by
  have ⟨w, hw, hc⟩ := exists_mem_splitOnP hc hb
  exact mem_join (List.mem_filter.mpr ⟨hw, decide_eq_true (List.ne_nil_of_mem hc)⟩) hc

theorem oneLine_ne_nil (h : blank x = false) : oneLine x ≠ [] := by
  have ⟨c, hc, hb⟩ : ∃ c ∈ x, isBlank c = false := by simpa [blank] using h
  exact List.ne_nil_of_mem (mem_oneLine hc hb)

theorem trim_oneLine (x : Text) : trim (oneLine x) = oneLine x := by
  apply trimBy_eq_self
  case hh =>
    cases hw : words x
    case nil => simp [oneLine, hw]
    case cons w ws =>
      have hm : w ∈ words x := hw ▸ List.mem_cons_self
      have ⟨d, r, hd⟩ := List.exists_cons_of_ne_nil (ne_nil_of_mem_words hm)
      have ⟨z, hz⟩ := prefix_join [' '] w ws
      rw [oneLine, hw, ← hz, hd]
      rintro c ⟨⟩
      exact not_isBlank_of_mem_words hm d (hd ▸ List.mem_cons_self)
  case hl =>
    rcases List.eq_nil_or_concat (words x) with hw | ⟨ws, w, hw⟩
    case inl => simp [oneLine, hw]
    case inr =>
      rw [List.concat_eq_append] at hw
      have hm : w ∈ words x := hw ▸ List.mem_append_right ws List.mem_cons_self
      have ⟨z, hz⟩ := suffix_join [' '] ws w
      rw [oneLine, hw, ← hz, List.getLast?_append_of_ne_nil z (ne_nil_of_mem_words hm)]
      intro c hc
      exact not_isBlank_of_mem_words hm c (List.mem_of_getLast? hc)

theorem not_blank_oneLine (h : blank x = false) : blank (oneLine x) = false := by
  refine Bool.eq_false_iff.mpr fun hb => oneLine_ne_nil h ?_
  rw [← trim_oneLine, trim_of_blank hb]

-- Lines, and what their ends leave of them.

theorem splitLines_append_of_not_mem (hx : '\n' ∉ x) (y : Text) :
    splitLines (x ++ y) = (splitLines y).modifyHead (x ++ ·) := by
  induction x
  case nil => exact (congrFun List.modifyHead_id _).symm
  case cons c x ih =>
    have ⟨hc, hx⟩ := List.ne_and_not_mem_of_not_mem_cons hx
    have ih : (x ++ y).splitOn '\n' = _ := ih hx
    rw [splitLines, List.cons_append, List.splitOn_cons_eq_if_modifyHead,
      if_neg (by simpa using hc.symm), ih, List.modifyHead_modifyHead]
    rfl

theorem splitLines_of_not_mem (hx : '\n' ∉ x) : splitLines x = [x] := by
  have h := splitLines_joinLines (List.forall_mem_singleton.mpr hx) (List.cons_ne_nil x [])
  rwa [joinLines_singleton] at h

theorem exists_splitLines_concat (x : Text) : ∃ ls l, splitLines x = ls ++ [l] := by
  have ⟨ls, l, h⟩ := (List.eq_nil_or_concat (splitLines x)).resolve_left (splitLines_ne_nil x)
  exact ⟨ls, l, h.trans List.concat_eq_append⟩

-- What follows a text goes on behind its last line.
theorem splitLines_append_eq (hx : splitLines x = ls ++ [l]) (z : Text) :
    splitLines (x ++ z) = ls ++ (splitLines z).modifyHead (l ++ ·) := by
  have hf : ∀ k ∈ ls ++ [l], '\n' ∉ k := hx ▸ fun k => not_mem_of_mem_splitLines
  have ⟨hls, hl⟩ := List.forall_mem_append.mp hf
  have hl := splitLines_append_of_not_mem (hl l (List.mem_singleton_self l)) z
  rw [← joinLines_splitLines x, hx]
  by_cases hn : ls = []
  case pos => rw [hn, List.nil_append, joinLines_singleton, hl, List.nil_append]
  case neg =>
    rw [joinLines_append hn (List.cons_ne_nil l []), joinLines_singleton, List.append_assoc,
      List.cons_append, splitLines_append, splitLines_joinLines hls hn, hl]

theorem splitLines_append_of_concat (hx : splitLines x = ls ++ [l]) (hz : '\n' ∉ z) :
    splitLines (x ++ z) = ls ++ [l ++ z] := by
  rw [splitLines_append_eq hx, splitLines_of_not_mem hz, List.modifyHead_cons]

-- The lines of the beginning of a text begin its lines.
theorem exists_prefix_of_mem_splitLines (hx : x <+: y) (hl : l ∈ splitLines x) :
    ∃ k ∈ splitLines y, l <+: k := by
  have ⟨ls, k, hk⟩ := exists_splitLines_concat x
  have ⟨z, hz⟩ := hx
  have ⟨m, ms, hm⟩ := List.exists_cons_of_ne_nil (splitLines_ne_nil z)
  rw [← hz, splitLines_append_eq hk, hm, List.modifyHead_cons]
  rw [hk] at hl
  cases List.mem_append.mp hl
  case inl hl => exact ⟨l, List.mem_append_left _ hl, List.prefix_rfl⟩
  case inr hl =>
    refine ⟨k ++ m, List.mem_append_right ls List.mem_cons_self, ?_⟩
    exact List.mem_singleton.mp hl ▸ List.prefix_append k m

theorem blank_concat (l : Text) : blank (l ++ ['\r']) = blank l := by
  simp [blank, isBlank]

theorem blank_dropEnd (l : Text) : blank (dropEnd ['\r'] l) = blank l := by
  by_cases h : ['\r'] <:+ l
  case pos => rw [← blank_concat, dropEnd_append h]
  case neg => rw [dropEnd, if_neg (by simpa using h)]

theorem prefix_dropEnd (x y : Text) : dropEnd y x <+: x := by
  rw [dropEnd]
  split
  case isTrue  => exact List.take_prefix _ x
  case isFalse => exact List.prefix_rfl

theorem exists_mem_splitLines_of_mem_lines (h : l ∈ lines x) : ∃ k ∈ splitLines x, l <+: k := by
  cases List.mem_append.mp h
  case inl h =>
    have ⟨k, hk, he⟩ := List.mem_map.mp h
    exact ⟨k, (List.dropLast_sublist _).mem hk, he ▸ prefix_dropEnd k _⟩
  case inr h =>
    have hl := Option.mem_toList.mp (List.mem_filter.mp h).left
    exact ⟨l, List.mem_of_getLast? hl, List.prefix_rfl⟩

theorem lineFeed_not_mem_of_mem_lines (h : l ∈ lines x) : '\n' ∉ l :=
  have ⟨_, hk, hl⟩ := exists_mem_splitLines_of_mem_lines h
  fun hc => not_mem_of_mem_splitLines hk (hl.mem hc)

theorem mem_of_mem_lines {c : Char} (h : l ∈ lines x) (hc : c ∈ l) : c ∈ x :=
  have ⟨_, hk, hl⟩ := exists_mem_splitLines_of_mem_lines h
  mem_of_mem_splitLines hk (hl.mem hc)

theorem splitLines_append_gap (x y : Text) :
    splitLines (x ++ ['\n', '\n'] ++ y) = splitLines x ++ [] :: splitLines y := by
  rw [List.append_assoc]
  exact (splitLines_append x _).trans (congrArg _ (splitLines_append [] y))

theorem lines_append_gap (x y : Text) :
    lines (x ++ ['\n', '\n'] ++ y) = (splitLines x).map (dropEnd ['\r']) ++ [] :: lines y := by
  rw [List.append_assoc]
  exact (lines_append x _).trans (congrArg _ (lines_append [] y))

theorem joinLines_gap (x : Text) (hn : ls ≠ []) :
    joinLines (x :: [] :: ls) = joinBlocks [x, joinLines ls] := by
  rw [joinLines_cons x (List.cons_ne_nil [] ls), joinLines_cons [] hn, joinBlocks, join_cons_cons,
    join_singleton, List.append_assoc]
  rfl

theorem lines_of_concat (hx : splitLines x = ls ++ [l]) :
    lines x = ls.map (dropEnd ['\r']) ++ [l].filter (· ≠ []) := by
  simp only [lines, hx, List.dropLast_concat, List.getLast?_concat, Option.toList_some]

-- Lines that hold no line end of any kind are read back if the last one is not empty.
theorem lines_joinLines_of_last (h : ∀ l ∈ ls, '\n' ∉ l ∧ '\r' ∉ l)
    (hn : ∀ l ∈ ls.getLast?, l ≠ []) : lines (joinLines ls) = ls := by
  rcases List.eq_nil_or_concat ls with he | ⟨ks, k, he⟩
  case inl => rw [he]; rfl
  case inr =>
    rw [List.concat_eq_append] at he
    subst he
    have hs := splitLines_joinLines (fun l hl => (h l hl).left) (by simp)
    have hd : ks.map (dropEnd ['\r']) = ks :=
      .trans (List.map_congr_left fun l hl =>
        dropEnd_eq_self (h l (List.mem_append_left _ hl)).right) (List.map_id ks)
    have hk : k ≠ [] := hn k List.getLast?_concat
    rw [lines_of_concat hs, hd, List.filter_cons_of_pos (by simpa using hk), List.filter_nil]

theorem lines_joinLines (h : ∀ l ∈ ls, l ≠ [] ∧ '\n' ∉ l ∧ '\r' ∉ l) :
    lines (joinLines ls) = ls :=
  lines_joinLines_of_last (fun l hl => (h l hl).right) fun l hl =>
    (h l (List.mem_of_getLast? hl)).left

-- All that is lost of a text is line ends.
theorem exists_mem_lines {c : Char} (hc : c ∈ x) (hn : c ≠ '\n') (hr : c ≠ '\r') :
    ∃ l ∈ lines x, c ∈ l := by
  have ⟨ls, l, hl⟩ := exists_splitLines_concat x
  rw [← joinLines_splitLines x] at hc
  have ⟨k, hk, hc⟩ := (of_mem_join hc).resolve_left (by simpa using hn)
  rw [lines_of_concat hl]
  rw [hl] at hk
  cases List.mem_append.mp hk
  case inl hk =>
    refine ⟨_, List.mem_append_left _ (List.mem_map_of_mem hk), ?_⟩
    by_cases h : ['\r'] <:+ k
    case neg => rwa [dropEnd, if_neg (by simpa using h)]
    case pos =>
      rw [← dropEnd_append h] at hc
      exact (List.mem_append.mp hc).resolve_right (by simpa using hr)
  case inr hk =>
    rw [List.mem_singleton.mp hk] at hc
    exact ⟨l, List.mem_append_right _ (by simp [List.ne_nil_of_mem hc]), hc⟩

theorem infix_iff_of_concat (hx : splitLines x = ls ++ [l]) :
    ['\r', '\n'] <:+: x ↔ ∃ k ∈ ls, ['\r'] <:+ k := by
  constructor
  case mp =>
    rintro ⟨y, z, rfl⟩
    have ⟨ks, k, hk⟩ := exists_splitLines_concat y
    have ⟨ms, m, hm⟩ := exists_splitLines_concat z
    have hy := splitLines_append (y ++ ['\r']) z
    rw [splitLines_append_of_concat hk (by decide), hm, ← List.append_assoc] at hy
    have he : y ++ ['\r', '\n'] ++ z = y ++ ['\r'] ++ '\n' :: z := by simp
    rw [he, hy] at hx
    have ⟨hls, _⟩ := List.append_inj' hx rfl
    exact ⟨k ++ ['\r'], by rw [← hls]; simp, List.suffix_append k _⟩
  case mpr =>
    rintro ⟨k, hk, y, rfl⟩
    have ⟨as, bs, hs⟩ := List.append_of_mem hk
    have hj : x = joinLines (as ++ [y ++ ['\r']]) ++ '\n' :: joinLines (bs ++ [l]) := by
      rw [← joinLines_splitLines x, hx, hs, ← joinLines_append (by simp) (by simp)]
      simp
    rw [hj, joinLines_concat_append as y ['\r']]
    exact ⟨joinLines (as ++ [y]), joinLines (bs ++ [l]), by simp⟩

theorem dropEnd_eq_self_iff (l : Text) : dropEnd ['\r'] l = l ↔ ¬['\r'] <:+ l := by
  constructor
  case mpr => exact fun h => if_neg (by simpa using h)
  case mp =>
    intro hd h
    have ha := dropEnd_append h
    rw [hd] at ha
    simpa using congrArg List.length ha

-- The lines of a text that ends in one give it back if no carriage return ends a line.
theorem joinLines_lines_eq_iff (hx : splitLines x = ls ++ [l]) (hl : l ≠ []) :
    joinLines (lines x) = x ↔ ¬['\r', '\n'] <:+: x := by
  have hs : lines x = ls.map (dropEnd ['\r']) ++ [l] := by
    rw [lines_of_concat hx, List.filter_cons_of_pos (by simpa using hl), List.filter_nil]
  have hf : ∀ k ∈ lines x, '\n' ∉ k := fun k => lineFeed_not_mem_of_mem_lines
  have hj : joinLines (lines x) = x ↔ ls.map (dropEnd ['\r']) = ls := by
    conv_lhs => rhs; rw [← joinLines_splitLines x, hx]
    constructor
    case mpr => exact fun h => by rw [hs, h]
    case mp =>
      intro h
      have h := congrArg splitLines h
      rw [splitLines_joinLines hf (by simp [hs]), ← hx, joinLines_splitLines, hx, hs] at h
      exact List.append_cancel_right h
  have hm : ls.map (dropEnd ['\r']) = ls ↔ ∀ k ∈ ls, dropEnd ['\r'] k = k := by
    conv_lhs => rhs; rw [← List.map_id ls]
    exact List.map_inj_left
  rw [hj, hm, infix_iff_of_concat hx, not_exists]
  exact forall_congr' fun k => by rw [dropEnd_eq_self_iff, not_and]

theorem lines_ne_nil (hx : x ≠ []) : lines x ≠ [] := by
  have ⟨ls, l, hl⟩ := exists_splitLines_concat x
  rw [lines_of_concat hl]
  cases ls
  case cons => simp
  case nil =>
    have hj : x = l := by rw [← joinLines_splitLines x, hl]; exact joinLines_singleton l
    simp [hj ▸ hx]

end DocPress.Text
