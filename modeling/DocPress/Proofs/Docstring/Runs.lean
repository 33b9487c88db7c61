import DocPress.Proofs.Docstring.Paragraphs
import DocPress.Proofs.Text.Ends

-- Paragraphs as runs of lines. A break between two paragraphs takes all blank lines that stand
-- between two runs of other lines, and no more of the next run than the line feed in front of it.

namespace DocPress.Text

section Runs

variable {α : Type} {p : α → Bool} {a : α} {xs : List α}

theorem runs_cons_of_not (ha : p a = false) (xs : List α) : runs p (a :: xs) = runs p xs := by
  rw [runs, List.splitOnP_cons_eq_if_modifyHead, if_pos (by simp [ha]), List.filter_cons_of_neg]
  · rfl
  · simp

theorem runs_of_forall (hx : ∀ b ∈ xs, p b) (hn : xs ≠ []) : runs p xs = [xs] := by
  rw [runs, List.splitOnP_eq_singleton fun b hb => by simp [hx b hb]]
  exact List.filter_cons_of_pos (by simp [hn])

theorem runs_append_cons (hx : ∀ b ∈ xs, p b) (hn : xs ≠ []) (ha : p a = false) (ys : List α) :
    runs p (xs ++ a :: ys) = xs :: runs p ys := by
  have hs : xs.splitOnP (!p ·) = [xs] := List.splitOnP_eq_singleton fun b hb => by simp [hx b hb]
  rw [runs, List.splitOnP_append_cons xs ys (by simp [ha]), hs]
  exact List.filter_cons_of_pos (by simp [hn])

-- A list begins with an element outside of the class or with a run. Behind a run the list ends, or
-- there is an element outside of the class.
theorem runsInduction (p : α → Bool) {P : List α → Prop} (nil : P [])
    (skip : ∀ a xs, p a = false → P xs → P (a :: xs))
    (run : ∀ xs, (∀ b ∈ xs, p b) → xs ≠ [] → P xs)
    (cut : ∀ xs a ys, (∀ b ∈ xs, p b) → xs ≠ [] → p a = false → P ys → P (xs ++ a :: ys)) :
    ∀ xs, P xs := by
  intro xs
  induction hn : xs.length using Nat.strong_induction_on generalizing xs
  case h n ih =>
    have hx := List.takeWhile_append_dropWhile (p := p) (l := xs)
    have ht : ∀ b ∈ xs.takeWhile p, p b := fun b => List.mem_takeWhile_imp
    cases hd : xs.dropWhile p
    case nil =>
      rw [hd, List.append_nil] at hx
      by_cases he : xs = []
      case pos => exact he ▸ nil
      case neg => exact run xs (hx ▸ ht) he
    case cons a ys =>
      have ha : p a = false := by
        have h := List.head?_dropWhile_not p xs
        rwa [hd] at h
      rw [hd] at hx
      have hy : ys.length < n := by
        rw [← hn, ← hx, List.length_append, List.length_cons]
        omega
      rw [← hx]
      by_cases he : xs.takeWhile p = []
      case pos => exact he ▸ skip a ys ha (ih _ hy ys rfl)
      case neg => exact cut _ a ys ht he ha (ih _ hy ys rfl)

end Runs

theorem splitAround_of_ne_zero {w : Text → Nat} {c : Char} {x : Text} (h : w (c :: x) ≠ 0) :
    splitAround w (c :: x) = [] :: splitAround w ((c :: x).drop (w (c :: x))) := by
  have ⟨n, hn⟩ := Nat.exists_eq_succ_of_ne_zero h
  rw [splitAround, pieces, hn]
  rfl

-- The first line and the last one are not blank, unless they are empty.
def Flush (x : Text) : Prop :=
  (∀ l ∈ (splitLines x).head?, l = [] ∨ blank l = false) ∧
    ∀ l ∈ (splitLines x).getLast?, l = [] ∨ blank l = false

instance (x : Text) : Decidable (Flush x) :=
  inferInstanceAs (Decidable (_ ∧ _))

variable {x : Text}

theorem flush_of_ends (hh : ∀ c ∈ x.head?, isBlank c = false)
    (hl : ∀ c ∈ x.getLast?, isBlank c = false) : Flush x := by
  constructor
  case left =>
    intro l h
    have ⟨ls, hs⟩ := List.head?_eq_some_iff.mp h
    by_cases hn : l = []
    case pos => exact .inl hn
    case neg =>
      have ⟨c, r, hc⟩ := List.exists_cons_of_ne_nil hn
      refine .inr (not_blank_of_head (congrArg List.head? hc) (hh c ?_))
      rw [← joinLines_splitLines x, hs, joinLines_cons_eq, hc]
      rfl
  case right =>
    intro l h
    have ⟨ls, hs⟩ := List.getLast?_eq_some_iff.mp h
    rcases List.eq_nil_or_concat l with hn | ⟨r, c, hc⟩
    case inl => exact .inl hn
    case inr =>
      rw [List.concat_eq_append] at hc
      have he : x = joinLines (ls ++ [r]) ++ [c] := by
        rw [← joinLines_concat_append, ← hc, ← hs, joinLines_splitLines]
      have hb : isBlank c = false := hl c (he ▸ List.getLast?_concat)
      exact .inr (hc ▸ not_blank_append (not_blank_of_head (c := c) rfl hb))

theorem flush_trim (x : Text) : Flush (trim x) :=
  flush_of_ends (head?_trim x) (getLast?_trim x)

end DocPress.Text

namespace DocPress.Docstring

open Text

-- What is kept of the parts between breaks.
def kept (parts : List Text) : List Text :=
  (parts.map (trimBy (· = '\n'))).filter (· ≠ [])

variable {d l x y : Text} {ls ps : List Text}

theorem paragraphs_eq_kept (x : Text) : paragraphs x = kept (splitAround breakWidth x) := rfl

theorem kept_nil_cons (ps : List Text) : kept ([] :: ps) = kept ps := rfl

theorem kept_modifyHead_lineFeed (ps : List Text) : kept (ps.modifyHead ('\n' :: ·)) = kept ps := by
  cases ps
  case nil => rfl
  case cons p ps =>
    have ht : trimBy (· = '\n') ('\n' :: p) = trimBy (· = '\n') p := by
      rw [trimBy_eq, trimBy_eq, List.dropWhile_cons_of_pos (by decide)]
    rw [List.modifyHead_cons, kept, kept, List.map_cons, List.map_cons, ht]

theorem paragraphs_lineFeed_cons (h : breakWidth ('\n' :: x) = 0) :
    paragraphs ('\n' :: x) = paragraphs x := by
  rw [paragraphs_eq_kept, splitAround_cons h, kept_modifyHead_lineFeed, paragraphs_eq_kept]

theorem paragraphs_nil : paragraphs [] = [] :=
  paragraphs_joinBlocks (List.forall_mem_nil Solid)

-- A blank line belongs to the break in front of it, and so does the line feed behind the line.
theorem breakWidth_blank (hl : blank l) (x : Text) :
    breakWidth ('\n' :: (l ++ '\n' :: x)) = l.length + 1 + max 1 (breakWidth ('\n' :: x)) := by
  have hg : ∀ c ∈ l ++ ['\n'], isBlank c :=
    List.forall_mem_append.mpr ⟨List.all_eq_true.mp hl, List.forall_mem_singleton.mpr rfl⟩
  have ht : (l ++ '\n' :: x).takeWhile isBlank = l ++ '\n' :: x.takeWhile isBlank := by
    have h : (l ++ ['\n'] ++ x).takeWhile isBlank = l ++ ['\n'] ++ x.takeWhile isBlank :=
      List.takeWhile_append_of_pos hg
    simpa using h
  have hr : (l ++ '\n' :: x.takeWhile isBlank).reverse =
      (x.takeWhile isBlank).reverse ++ '\n' :: l.reverse := by simp
  simp only [breakWidth, ht, hr, List.dropWhile_append]
  cases (x.takeWhile isBlank).reverse.dropWhile (· ≠ '\n')
  case nil => simp
  case cons c r => simp; omega

-- What stands behind a blank line is parted as if the line feed were the first one.
theorem splitAround_blank (hl : blank l) (x : Text) :
    ∃ ps, splitAround breakWidth ('\n' :: (l ++ '\n' :: x)) = [] :: ps ∧
      kept ps = paragraphs ('\n' :: x) := by
  have hw := breakWidth_blank hl x
  have hd : ('\n' :: (l ++ '\n' :: x)).drop (l.length + 1 + max 1 (breakWidth ('\n' :: x))) =
      ('\n' :: x).drop (max 1 (breakWidth ('\n' :: x))) := by
    rw [Nat.add_right_comm, List.drop_succ_cons, List.drop_append]
    simp
  have hs := splitAround_of_ne_zero (w := breakWidth) (c := '\n') (x := l ++ '\n' :: x) (by omega)
  rw [hw, hd] at hs
  refine ⟨_, hs, ?_⟩
  by_cases h : breakWidth ('\n' :: x) = 0
  case pos =>
    rw [h, paragraphs_eq_kept, splitAround_cons h, kept_modifyHead_lineFeed]
    rfl
  case neg =>
    rw [max_eq_right (Nat.one_le_iff_ne_zero.mpr h), paragraphs_eq_kept, splitAround_of_ne_zero h]
    rfl

theorem paragraphs_blank (hl : blank l) (x : Text) :
    paragraphs ('\n' :: (l ++ '\n' :: x)) = paragraphs ('\n' :: x) := by
  have ⟨ps, hs, hp⟩ := splitAround_blank hl x
  rw [paragraphs_eq_kept, hs, kept_nil_cons, hp]

namespace Solid

theorem paragraphs_lineFeed (hx : Solid x) (y : Text) :
    paragraphs ('\n' :: (x ++ y)) = paragraphs (x ++ y) := by
  have ⟨l, ls, he, hl⟩ := hx.exists_lines
  have ⟨⟨hf, hb⟩, _⟩ := List.forall_mem_cons.mp hl
  apply paragraphs_lineFeed_cons
  rw [he, List.append_assoc]
  exact breakWidth_line hf hb _

theorem kept_cons (hx : Solid x) (ps : List Text) : kept (x :: ps) = x :: kept ps := by
  rw [kept, List.map_cons, hx.trimBy_eq_self]
  exact List.filter_cons_of_pos (decide_eq_true hx.ne_nil)

theorem paragraphs_self (hx : Solid x) : paragraphs x = [x] := by
  simpa [joinBlocks] using paragraphs_joinBlocks (List.forall_mem_singleton.mpr hx)

-- A line feed at the end is no break.
theorem paragraphs_concat (hx : Solid x) : paragraphs (x ++ ['\n']) = [x] := by
  have hs : splitAround breakWidth ['\n'] = [['\n']] := by
    rw [splitAround_cons rfl]
    simp [splitAround, pieces, splitParts]
  have ht : trimBy (· = '\n') (x ++ ['\n']) = x := by
    rw [trimBy_append x (by simp), hx.trimBy_eq_self]
  rw [paragraphs_eq_kept, hx.splitAround_append (breaks_breakWidth (g := []) rfl), hs]
  simp [kept, ht, hx.ne_nil]

-- A blank line parts a run from what follows it.
theorem paragraphs_append (hx : Solid x) (hl : blank l) (y : Text) :
    paragraphs (x ++ '\n' :: (l ++ '\n' :: y)) = x :: paragraphs ('\n' :: y) := by
  have ⟨ps, hs, hp⟩ := splitAround_blank hl y
  rw [paragraphs_eq_kept, hx.splitAround_append (breaks_breakWidth (g := []) rfl), hs,
    List.modifyHead_cons, List.append_nil, hx.kept_cons, hp]

end Solid

-- Lines that are printed behind others, with a line feed in front of each of them.
def below (ls : List Text) : Text :=
  ls.flatMap ('\n' :: ·)

theorem below_cons (l : Text) (ls : List Text) : below (l :: ls) = '\n' :: (l ++ below ls) := rfl

-- The last line is empty if it is blank. Otherwise it would be a paragraph of white space.
theorem eq_nil_of_getLast? (hb : blank d)
    (hl : ∀ l ∈ [d].getLast?, l = [] ∨ blank l = false) : d = [] :=
  (hl d rfl).resolve_right (by simp [hb])

theorem paragraphs_below_cons (hb : blank d)
    (hl : ∀ l ∈ (d :: ls).getLast?, l = [] ∨ blank l = false) :
    paragraphs (below (d :: ls)) = paragraphs (below ls) := by
  cases ls
  case nil =>
    rw [eq_nil_of_getLast? hb hl]
    exact paragraphs_lineFeed_cons rfl
  case cons m ms => rw [below_cons, below_cons, paragraphs_blank hb]

theorem Solid.paragraphs_append_below (hx : Solid x) (hb : blank d)
    (hl : ∀ l ∈ (d :: ls).getLast?, l = [] ∨ blank l = false) :
    paragraphs (x ++ below (d :: ls)) = x :: paragraphs (below ls) := by
  cases ls
  case nil =>
    rw [eq_nil_of_getLast? hb hl]
    exact hx.paragraphs_concat.trans (congrArg (x :: ·) paragraphs_nil.symm)
  case cons m ms => rw [below_cons, below_cons, hx.paragraphs_append hb]

theorem paragraphs_below (hf : ∀ l ∈ ls, '\n' ∉ l)
    (hl : ∀ l ∈ ls.getLast?, l = [] ∨ blank l = false) :
    paragraphs (below ls) = (runs (!blank ·) ls).map joinLines := by
  have hs : ∀ {ks : List Text}, (∀ l ∈ ks, '\n' ∉ l) → (∀ l ∈ ks, !blank l) → ks ≠ [] →
      Solid (joinLines ks) := fun hf hb hn =>
    solid_joinLines (fun l h => ⟨hf l h, by simpa using hb l h⟩) hn
  induction ls using runsInduction (!blank ·)
  case nil => exact paragraphs_nil
  case skip d ls hd ih =>
    have ⟨_, hf⟩ := List.forall_mem_cons.mp hf
    rw [paragraphs_below_cons (by simpa using hd) hl, runs_cons_of_not (p := (!blank ·)) hd]
    exact ih hf fun l h => hl l (List.mem_getLast?_cons h)
  case run ks hk hn =>
    have hs := hs hf hk hn
    have hp := hs.paragraphs_lineFeed []
    rw [List.append_nil, hs.paragraphs_self] at hp
    rw [runs_of_forall hk hn, below, flatMap_lineFeed hn, hp, List.map_singleton]
  case cut ks d ls hk hn hd ih =>
    have ⟨hfk, hfd⟩ := List.forall_mem_append.mp hf
    have ⟨_, hf⟩ := List.forall_mem_cons.mp hfd
    have hl : ∀ l ∈ (d :: ls).getLast?, l = [] ∨ blank l = false := fun l h =>
      hl l (List.mem_getLast?_append_of_mem_getLast? h)
    have hs := hs hfk hk hn
    have ih := ih hf fun l h => hl l (List.mem_getLast?_cons h)
    rw [below, List.flatMap_append, flatMap_lineFeed hn, List.cons_append, hs.paragraphs_lineFeed,
      ← below, hs.paragraphs_append_below (by simpa using hd) hl, ih, runs_append_cons hk hn hd,
      List.map_cons]

-- The paragraphs are the runs of lines that are not blank, each as it stands in the text. This is
-- so for every text that does not begin or end with white space on a line by itself, and thus for
-- all trimmed ones.
theorem paragraphs_eq_runs :
    (∀ x, Flush x → paragraphs x = (runs (!blank ·) (splitLines x)).map joinLines) ∧
      ∀ x, Flush (trim x) := by
  refine ⟨fun x ⟨hh, hl⟩ => ?_, flush_trim⟩
  have ⟨l, ls, hs⟩ := List.exists_cons_of_ne_nil (splitLines_ne_nil x)
  have hf : ∀ k ∈ l :: ls, '\n' ∉ k := hs ▸ fun k => not_mem_of_mem_splitLines
  have hx : x = l ++ below ls := by
    rw [below, ← joinLines_cons_eq, ← hs, joinLines_splitLines]
  rw [hs] at hh hl ⊢
  cases hh l rfl
  case inl hn =>
    have hb : blank l := by rw [hn]; rfl
    rw [← paragraphs_below hf hl, paragraphs_below_cons hb hl, hx, hn, List.nil_append]
  case inr hb =>
    have h₀ : breakWidth ('\n' :: x) = 0 :=
      hx ▸ breakWidth_line (List.forall_mem_cons.mp hf).left hb _
    rw [← paragraphs_below hf hl, below_cons, ← hx, paragraphs_lineFeed_cons h₀]

theorem paragraphs_eq_runs_indented :
    let x := joinLines ["", "", "  A ", "\r", "\x85 ", "", "  B", "C\t", "", ""]
    Flush x ∧ paragraphs x = ["  A ", "  B\nC\t"] ∧ Flush (trim x) := by
  intro x
  have hx : Flush x := by decide
  have hr : (runs (!blank ·) (splitLines x)).map joinLines = ["  A ", "  B\nC\t"] := by decide
  exact ⟨hx, hr ▸ paragraphs_eq_runs.left x hx, paragraphs_eq_runs.right x⟩

end DocPress.Docstring
