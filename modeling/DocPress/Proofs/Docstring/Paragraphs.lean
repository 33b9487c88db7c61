import DocPress.Docstring.Reader
import DocPress.Proofs.Text.Lines

-- Paragraphs are found where blank space parts them. A text without blank lines is one paragraph,
-- whatever its lines begin and end with.

namespace DocPress.Text

variable {w : Text → Nat} {c : Char} {m x : Text}

theorem splitAround_cons (h : w (c :: x) = 0) :
    splitAround w (c :: x) = (splitAround w x).modifyHead (c :: ·) := by
  rw [splitAround, pieces, h]
  rfl

theorem splitAround_match (hm : m ≠ []) (h : w (m ++ x) = m.length) :
    splitAround w (m ++ x) = [] :: splitAround w x := by
  cases m
  case nil => contradiction
  case cons c m =>
    have hp : pieces w (c :: (m ++ x)) = .found (c :: m) :: pieces w x := by
      rw [List.cons_append, List.length_cons] at h
      rw [pieces, h]
      simp
    rw [List.cons_append, splitAround, hp]
    rfl

end DocPress.Text

namespace DocPress.Docstring

open Text

-- A solid text has no blank lines.
def Solid (x : Text) : Prop :=
  ∀ l ∈ splitLines x, blank l = false

instance (x : Text) : Decidable (Solid x) :=
  List.decidableBAll (fun l => blank l = false) _

variable {c : Char} {g l x y : Text} {ls xs : List Text}

theorem solid_joinLines (hl : ∀ l ∈ ls, '\n' ∉ l ∧ blank l = false) (hn : ls ≠ []) :
    Solid (joinLines ls) := by
  intro l h
  rw [splitLines_joinLines (fun l hl' => (hl l hl').left) hn] at h
  exact (hl l h).right

-- A solid text is its first line with further lines behind it.
theorem Solid.exists_lines (h : Solid x) :
    ∃ l ls, x = l ++ ls.flatMap ('\n' :: ·) ∧ ∀ k ∈ l :: ls, '\n' ∉ k ∧ blank k = false := by
  have ⟨l, ls, hs⟩ := List.exists_cons_of_ne_nil (splitLines_ne_nil x)
  refine ⟨l, ls, ?_, ?_⟩
  · rw [← joinLines_cons_eq, ← hs, joinLines_splitLines]
  · intro k hk
    rw [← hs] at hk
    exact ⟨not_mem_of_mem_splitLines hk, h k hk⟩

theorem takeWhile_isBlank_append (hb : blank l = false) (x : Text) :
    (l ++ x).takeWhile isBlank = l.takeWhile isBlank := by
  have hl : (l.takeWhile isBlank).length ≠ l.length := by
    intro h
    have ha : blank l := List.all_eq_true.mpr fun c hc =>
      List.mem_takeWhile_imp ((List.takeWhile_prefix isBlank).eq_of_length h ▸ hc)
    exact absurd (hb.symm.trans ha) Bool.false_ne_true
  rw [List.takeWhile_append, if_neg hl]

theorem breakWidth_of_ne (h : c ≠ '\n') (x : Text) : breakWidth (c :: x) = 0 := by
  unfold breakWidth
  split
  case h_1 he => cases he; contradiction
  case h_2    => rfl

-- Inside the indentation of a line there is no line feed.
theorem dropWhile_indentation (hl : '\n' ∉ l) (x : Text) :
    ((l.takeWhile isBlank).reverse ++ x).dropWhile (· ≠ '\n') = x.dropWhile (· ≠ '\n') := by
  apply List.dropWhile_append_of_pos
  intro c hc
  refine decide_eq_true ?_
  rintro rfl
  exact hl ((List.takeWhile_prefix isBlank).mem (List.mem_reverse.mp hc))

theorem breakWidth_line (hl : '\n' ∉ l) (hb : blank l = false) (x : Text) :
    breakWidth ('\n' :: (l ++ x)) = 0 := by
  have hd := dropWhile_indentation hl []
  rw [List.append_nil, List.dropWhile_nil] at hd
  simp only [breakWidth, takeWhile_isBlank_append hb, hd]

theorem breakWidth_gap (hg : blank g) (hl : '\n' ∉ l) (hb : blank l = false) (x : Text) :
    breakWidth ('\n' :: (g ++ '\n' :: (l ++ x))) = g.length + 2 := by
  have hg : ∀ c ∈ g ++ ['\n'], isBlank c :=
    List.forall_mem_append.mpr ⟨List.all_eq_true.mp hg, List.forall_mem_singleton.mpr rfl⟩
  have ht : (g ++ '\n' :: (l ++ x)).takeWhile isBlank = g ++ '\n' :: l.takeWhile isBlank := by
    have h : (g ++ ['\n'] ++ (l ++ x)).takeWhile isBlank = _ := List.takeWhile_append_of_pos hg
    simpa [takeWhile_isBlank_append hb] using h
  have hd := dropWhile_indentation hl ('\n' :: g.reverse)
  rw [List.dropWhile_cons_of_neg (by simp)] at hd
  simp only [breakWidth, ht, List.reverse_append, List.reverse_cons, List.append_assoc,
    List.singleton_append, hd, List.length_cons, List.length_reverse]

-- A search that finds no match inside a line and none that begins between two lines which are not
-- blank, but finds a gap with the line feeds around it.
structure Breaks (w : Text → Nat) (g : Text) : Prop where
  char : ∀ {c}, c ≠ '\n' → ∀ x, w (c :: x) = 0
  line : ∀ {l}, '\n' ∉ l → blank l = false → ∀ x, w ('\n' :: (l ++ x)) = 0
  gap  : ∀ {l}, '\n' ∉ l → blank l = false →
    ∀ x, w ('\n' :: (g ++ '\n' :: (l ++ x))) = g.length + 2

theorem breaks_breakWidth (hg : blank g) : Breaks breakWidth g where
  char := breakWidth_of_ne
  line := breakWidth_line
  gap  := breakWidth_gap hg

variable {w : Text → Nat}

-- There is no break inside a line.
theorem Breaks.splitAround_line (hw : Breaks w g) (hl : '\n' ∉ l) (x : Text) :
    splitAround w (l ++ x) = (splitAround w x).modifyHead (l ++ ·) := by
  induction l
  case nil => exact (congrFun List.modifyHead_id _).symm
  case cons c l ih =>
    have hc : c ≠ '\n' := fun h => hl (h ▸ List.mem_cons_self)
    have ih := ih fun h => hl (List.mem_cons_of_mem c h)
    rw [List.cons_append, splitAround_cons (hw.char hc _), ih, List.modifyHead_modifyHead]
    rfl

-- There is none between lines that are not blank either.
theorem Breaks.splitAround_lines (hw : Breaks w g) (hl : ∀ l ∈ ls, '\n' ∉ l ∧ blank l = false)
    (x : Text) :
    splitAround w (ls.flatMap ('\n' :: ·) ++ x) =
      (splitAround w x).modifyHead (ls.flatMap ('\n' :: ·) ++ ·) := by
  induction ls
  case nil => exact (congrFun List.modifyHead_id _).symm
  case cons l ls ih =>
    have ⟨⟨hf, hb⟩, hl⟩ := List.forall_mem_cons.mp hl
    have h₀ := hw.line hf hb (ls.flatMap ('\n' :: ·) ++ x)
    rw [List.flatMap_cons, List.append_assoc, List.cons_append, splitAround_cons h₀,
      hw.splitAround_line hf, ih hl, List.modifyHead_modifyHead, List.modifyHead_modifyHead]
    simp only [Function.comp_def, List.append_assoc, List.cons_append]

theorem Solid.splitAround_append (hw : Breaks w g) (hx : Solid x) (y : Text) :
    splitAround w (x ++ y) = (splitAround w y).modifyHead (x ++ ·) := by
  have ⟨l, ls, he, hl⟩ := hx.exists_lines
  have ⟨⟨hf, _⟩, hl⟩ := List.forall_mem_cons.mp hl
  rw [he, List.append_assoc, hw.splitAround_line hf, hw.splitAround_lines hl,
    List.modifyHead_modifyHead]
  simp only [Function.comp_def, List.append_assoc]

theorem Solid.splitAround_gap (hw : Breaks w g) (hx : Solid x) (y : Text) :
    splitAround w ('\n' :: (g ++ '\n' :: (x ++ y))) = [] :: splitAround w (x ++ y) := by
  have ⟨l, ls, he, hl⟩ := hx.exists_lines
  have ⟨⟨hf, hb⟩, _⟩ := List.forall_mem_cons.mp hl
  have hw := hw.gap hf hb (ls.flatMap ('\n' :: ·) ++ y)
  rw [← List.append_assoc l, ← he] at hw
  have h : '\n' :: (g ++ '\n' :: (x ++ y)) = '\n' :: (g ++ ['\n']) ++ (x ++ y) := by simp
  rw [h] at hw ⊢
  exact splitAround_match (List.cons_ne_nil _ _) (hw.trans (by simp))

-- A gap parts a text from what follows it.
theorem Solid.splitAround_append_gap (hw : Breaks w g) (hx : Solid x) (hy : Solid y) (z : Text) :
    splitAround w (x ++ '\n' :: (g ++ '\n' :: (y ++ z))) = x :: splitAround w (y ++ z) := by
  rw [hx.splitAround_append hw, hy.splitAround_gap hw, List.modifyHead_cons, List.append_nil]

theorem splitAround_joinBlocks (hw : Breaks w []) (hx : ∀ x ∈ xs, Solid x) (hn : xs ≠ []) :
    splitAround w (joinBlocks xs) = xs := by
  induction xs
  case nil => contradiction
  case cons x xs ih =>
    have ⟨h₁, hs⟩ := List.forall_mem_cons.mp hx
    cases xs
    case nil =>
      have h := h₁.splitAround_append hw []
      rw [List.append_nil] at h
      simpa [joinBlocks, splitAround, splitParts, pieces] using h
    case cons y ys =>
      have ih := ih hs (List.cons_ne_nil y ys)
      obtain ⟨z, hz⟩ : ∃ z, joinBlocks (y :: ys) = y ++ z := by
        cases ys
        case nil        => exact ⟨[], by simp [joinBlocks]⟩
        case cons y' ys => exact ⟨_, (join_cons_cons ..).trans (List.append_assoc ..)⟩
      have h := h₁.splitAround_append_gap hw (hs y List.mem_cons_self) z
      rw [List.nil_append, ← hz, ih] at h
      simpa [joinBlocks, join_cons_cons] using h

theorem Solid.ne_nil (hx : Solid x) : x ≠ [] := by
  rintro rfl
  exact Bool.noConfusion (hx [] List.mem_cons_self)

-- A solid text neither begins nor ends with a line feed.
theorem Solid.trimBy_eq_self (hx : Solid x) : trimBy (· = '\n') x = x := by
  have hn : ∀ l ∈ splitLines x, l ≠ [] := fun l hl => ne_nil_of_not_blank (hx l hl)
  have hf : ∀ l ∈ splitLines x, ∀ c ∈ l, decide (c = '\n') = false := fun l hl c hc =>
    decide_eq_false fun h => not_mem_of_mem_splitLines hl (h ▸ hc)
  have ⟨l, ls, hs⟩ := List.exists_cons_of_ne_nil (splitLines_ne_nil x)
  have hl : l ∈ splitLines x := hs ▸ List.mem_cons_self
  have hh : (joinLines (l :: ls)).head? = l.head? := head?_joinLines (hn l hl)
  rw [← hs, joinLines_splitLines] at hh
  apply Text.trimBy_eq_self
  · intro c hc
    exact hf l hl c (List.mem_of_mem_head? (hh ▸ hc))
  · have h := getLast?_joinLines hn fun l hl c hc => hf l hl c (List.mem_of_mem_getLast? hc)
    rwa [joinLines_splitLines] at h

theorem paragraphs_joinBlocks (hx : ∀ x ∈ xs, Solid x) : paragraphs (joinBlocks xs) = xs := by
  by_cases hn : xs = []
  case pos => simp [hn, paragraphs, joinBlocks, splitAround, pieces, splitParts, trimBy]
  case neg =>
    have ht : xs.map (trimBy (· = '\n')) = xs :=
      .trans (List.map_congr_left fun x h => (hx x h).trimBy_eq_self) (List.map_id xs)
    rw [paragraphs, splitAround_joinBlocks (breaks_breakWidth rfl) hx hn, ht]
    exact List.filter_eq_self.mpr fun x h => decide_eq_true (hx x h).ne_nil

end DocPress.Docstring
