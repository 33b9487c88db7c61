import Mathlib.Algebra.Ring.Int.Defs
import DocPress.Proofs.Markdown.Marked
import DocPress.Proofs.Text.Occurrences

-- Tags that emphasis opens and closes. A snippet takes the place of another one wherever that
-- occurs, so what an edit opens beyond what it closes is what each of the replaced snippets does,
-- whatever stands around it. Only stars are lost count of: their number decides which marks are
-- looked for, and it does not say how many of them stand on either side.

namespace DocPress

open Text

namespace Markdown.Emphasis

inductive Tag where
  | i
  | code
  | em
  | b
  | a
  deriving DecidableEq, Repr

namespace Tag

def opening : Tag → Text
  | i    => "<i>"
  | code => "<code>"
  | em   => "<em>"
  | b    => "<b>"
  | a    => "<a href="

def closing : Tag → Text
  | i    => "</i>"
  | code => "</code>"
  | em   => "</em>"
  | b    => "</b>"
  | a    => "</a>"

def Balanced (t : Tag) (x : Text) : Prop :=
  occurrences t.opening x = occurrences t.closing x

instance (t : Tag) (x : Text) : Decidable (t.Balanced x) :=
  inferInstanceAs (Decidable (_ = _))

-- How many more times the tag is opened than closed.
def excess (t : Tag) (x : Text) : Int :=
  occurrences t.opening x - occurrences t.closing x

-- A text that keeps apart what stands before it and behind it: neither end of it can be in the
-- middle of a tag.
structure Sealed (t : Tag) (x : Text) : Prop where
  opening : (∀ c ∈ x.head?, c ∉ t.opening.tail) ∧ ∀ c ∈ x.getLast?, c ∉ t.opening.dropLast
  closing : (∀ c ∈ x.head?, c ∉ t.closing.tail) ∧ ∀ c ∈ x.getLast?, c ∉ t.closing.dropLast

instance (t : Tag) (x : Text) : Decidable (Sealed t x) :=
  decidable_of_iff (_ ∧ _) ⟨fun h => ⟨h.left, h.right⟩, fun h => ⟨h.opening, h.closing⟩⟩

-- Wherever the second text stands in the place of the first one, the tag is opened that many more
-- times.
def Raises (t : Tag) (n : Int) (x y : Text) : Prop :=
  ∀ u v, t.excess (u ++ (y ++ v)) = t.excess (u ++ (x ++ v)) + n

variable {c m : Char} {i k n : Int} {mark new old s start stop u v x y z : Text} {t : Tag}

theorem excess_append (ho : Apart t.opening x y) (hc : Apart t.closing x y) :
    t.excess (x ++ y) = t.excess x + t.excess y := by
  rw [excess, occurrences_append ho, occurrences_append hc, excess, excess]
  omega

theorem excess_eq_zero (h : '<' ∉ x) : t.excess x = 0 := by
  have ho : '<' ∈ t.opening := by cases t <;> decide
  have hc : '<' ∈ t.closing := by cases t <;> decide
  rw [excess, occurrences_eq_zero ho h, occurrences_eq_zero hc h]
  rfl

theorem excess_cons (h : c ≠ '<') (x : Text) : t.excess (c :: x) = t.excess x := by
  have ho : t.opening.head? = some '<' ∧ t.opening ≠ [] := by cases t <;> decide
  have hc : t.closing.head? = some '<' ∧ t.closing ≠ [] := by cases t <;> decide
  rw [excess, occurrences_cons (by simpa [ho.left]) ho.right,
    occurrences_cons (by simpa [hc.left]) hc.right, excess]

theorem excess_concat (h₁ : c ≠ '>') (h₂ : c ≠ '=') (x : Text) :
    t.excess (x ++ [c]) = t.excess x := by
  have ho : ∀ d ∈ t.opening.getLast?, d = '>' ∨ d = '=' := by cases t <;> decide
  have hc : ∀ d ∈ t.closing.getLast?, d = '>' ∨ d = '=' := by cases t <;> decide
  have hn : t.opening ≠ [] ∧ t.closing ≠ [] := by cases t <;> decide
  have hd : ∀ d, d = '>' ∨ d = '=' → c ≠ d := by
    rintro d (rfl | rfl)
    · exact h₁
    · exact h₂
  rw [excess, occurrences_concat (fun d h => hd d (ho d h)) hn.left,
    occurrences_concat (fun d h => hd d (hc d h)) hn.right, excess]

namespace Sealed

theorem excess_left (h : Sealed t x) (y : Text) : t.excess (x ++ y) = t.excess x + t.excess y :=
  excess_append (.inr h.opening.right) (.inr h.closing.right)

theorem excess_right (h : Sealed t x) (y : Text) : t.excess (y ++ x) = t.excess y + t.excess x :=
  excess_append (.inl h.opening.left) (.inl h.closing.left)

theorem excess_between (h : Sealed t x) (hn : x ≠ []) (u v : Text) :
    t.excess (u ++ (x ++ v)) = t.excess u + (t.excess x + t.excess v) := by
  have hh : (x ++ v).head? = x.head? := List.head?_append_of_ne_nil _ hn
  rw [excess_append (.inl (hh ▸ h.opening.left)) (.inl (hh ▸ h.closing.left)), h.excess_left]

-- The ends decide.
theorem of_ends {d : Char} (h : Sealed t [c, d]) (hh : x.head? = some c)
    (hl : x.getLast? = some d) : Sealed t x where
  opening := by simpa [hh, hl] using h.opening
  closing := by simpa [hh, hl] using h.closing

end Sealed

namespace Raises

theorem of_sealed (hx : Sealed t x) (hy : Sealed t y) (hx₀ : x ≠ []) (hy₀ : y ≠ []) :
    Raises t (t.excess y - t.excess x) x y := by
  intro u v
  rw [hx.excess_between hx₀, hy.excess_between hy₀]
  omega

theorem refl (x : Text) : Raises t 0 x x := fun _ _ => (Int.add_zero _).symm

theorem trans (h : Raises t n x y) (h' : Raises t k y z) : Raises t (n + k) x z := by
  intro u v
  rw [h' u v, h u v, Int.add_assoc]

theorem append (h : Raises t n x y) (h' : Raises t k u v) : Raises t (n + k) (x ++ u) (y ++ v) := by
  intro l r
  have hl := h l (v ++ r)
  have hr := h' (l ++ x) r
  simp only [List.append_assoc] at hl hr ⊢
  rw [hl, hr]
  omega

theorem excess_eq (h : Raises t n x y) : t.excess y = t.excess x + n := by
  simpa using h [] []

theorem replaceFirst (hm : mark ≠ []) (hp : mark <:+: x) (h : Raises t n mark new) :
    Raises t n x (replaceFirst mark new x) := by
  induction x
  case nil => exact absurd (List.infix_nil.mp hp) hm
  case cons c x ih =>
    by_cases hc : mark <+: c :: x
    case pos =>
      have ⟨z, hz⟩ := hc
      rw [← hz, replaceFirst_match new hm]
      simpa using h.append (.refl z)
    case neg =>
      rw [replaceFirst_cons hc]
      have hi := ih ((List.infix_cons_iff.mp hp).resolve_left hc)
      simpa using (Raises.refl [c]).append hi

theorem replicate_within {j k : Nat} (h : k ≤ j) (m : Char) (x y : Text) :
    List.replicate k m <:+: x ++ (List.replicate j m ++ y) := by
  refine ⟨x, List.replicate (j - k) m ++ y, ?_⟩
  rw [List.append_assoc, ← List.append_assoc _ _ y, List.replicate_append_replicate,
    Nat.add_sub_cancel' h]

section Tags

variable {k : Nat} {r : Marked}

-- If both of the runs are wide enough, each of the two tags takes the place of a mark.
theorem tag (h : r.Written m) (hm : Inner m) (hk : k ≠ 0) (hl : k ≤ r.left) (hr : k ≤ r.right)
    (hs : Raises t n (List.replicate k m) start) (he : Raises t i (List.replicate k m) stop) :
    Raises t (n + i) (r.source m) (tag (List.replicate k m) start stop (r.source m)) := by
  have hn : List.replicate k m ≠ [] := by simpa using hk
  refine (hs.replaceFirst hn ?_).trans (he.replaceFirst hn ?_)
  · exact replicate_within hl m [r.before] _
  · rw [h.replaceFirst_left hm hk hl]
    simpa using replicate_within hr m
      ([r.before] ++ start ++ List.replicate (r.left - k) m ++ r.middle) [r.after]

-- If they are wide enough together but not each of them, only the opening tag does.
theorem tag_of_ne (h : r.Written m) (hm : Inner m) (hk : r.left + r.right = 2 * k)
    (hn : r.left ≠ r.right) (hx : m ∉ start) (hs : Raises t n (List.replicate k m) start) :
    Raises t n (r.source m) (Emphasis.tag (List.replicate k m) start stop (r.source m)) := by
  have hl := h.left
  have hr := h.right
  have hk₀ : List.replicate k m ≠ [] := by simp; omega
  cases Nat.lt_or_gt_of_ne hn
  case inl hn =>
    rw [h.tag_right hm hx (by omega) (by omega) (by omega)]
    refine hs.replaceFirst hk₀ ?_
    simpa [Marked.source] using replicate_within (j := r.right) (k := k) (by omega) m
      ([r.before] ++ List.replicate r.left m ++ r.middle) [r.after]
  case inr hn =>
    rw [h.tag_left hm hx (by omega) (by omega) (by omega)]
    exact hs.replaceFirst hk₀ (replicate_within (by omega) m [r.before] _)

end Tags

-- A link holds no tag, and what takes its place opens one and closes it.
theorem linked {l : Link} (h : l.Written) : Raises t 0 l.source l.html := by
  have hn : '<' ∉ l.name := h.name.not_mem (by decide) (by decide) (by decide)
  have hp : '<' ∉ l.path := fun hc => absurd (h.path _ hc) (by decide)
  let x := "[" ++ (l.name ++ ("](" ++ (l.path ++ ")".toList)))
  let y := "<a href=\"" ++ (l.path ++ ("\">" ++ (l.name ++ "</a>".toList)))
  have hx : Sealed t x := by
    have hs : Sealed t ['[', ')'] := by cases t <;> decide
    have hl : x = "[" ++ l.name ++ "](" ++ l.path ++ [')'] := by simp [x]
    exact hs.of_ends rfl (hl ▸ List.getLast?_concat)
  have hy : Sealed t y := by
    have hs : Sealed t ['<', '>'] := by cases t <;> decide
    have hl : y = "<a href=\"" ++ l.path ++ "\">" ++ l.name ++ "</a" ++ ['>'] := by simp [y]
    exact hs.of_ends rfl (hl ▸ List.getLast?_concat)
  have ey : t.excess y = 0 := by
    have ⟨h₁, h₂, h₃, h₀⟩ : Sealed t "<a href=\"" ∧ Sealed t "\">" ∧ Sealed t "</a>" ∧
        t.excess "<a href=\"" + (t.excess "\">" + t.excess "</a>") = 0 := by
      cases t <;> decide
    rw [h₁.excess_left, h₂.excess_between (by decide), h₃.excess_right, excess_eq_zero hp,
      excess_eq_zero hn]
    omega
  have ex : t.excess x = 0 := excess_eq_zero (by simp [x, hn, hp])
  have hr := Raises.of_sealed hx hy (by simp [x]) (by simp [y])
  rw [ex, ey] at hr
  simpa [Link.source, Link.html, x, y] using ((refl [l.before]).append hr).append (refl [l.after])

end Raises
end Tag

variable {t : Tag} {r : Marked} {ss : List Text} {s x : Text} {f : Text → Text} {n : Text → Int}
  {w : Text → Nat}

-- As many stars on the right as on the left.
def Even (s : Text) : Prop :=
  2 * ((s.drop 1).takeWhile (· = '*')).length = s.count '*'

instance (s : Text) : Decidable (Even s) :=
  inferInstanceAs (Decidable (_ = _))

-- How many times the tag is left open in a snippet with stars.
def unclosed (t : Tag) (s : Text) : Nat :=
  if Even s then 0
  else
    match starStyle? (s.count '*') with
    | some k => occurrences t.opening k.start
    | none   => 0

-- The number of stars is that of a style, but its marks are not on both sides.
def Lopsided (s : Text) : Prop :=
  (starStyle? (s.count '*')).isSome ∧ ¬Even s

instance (s : Text) : Decidable (Lopsided s) :=
  inferInstanceAs (Decidable (_ ∧ _))

theorem unclosed_eq_zero (h : t ∈ [.i, .code, .a]) (s : Text) : unclosed t s = 0 := by
  have ho : ∀ k : Style, k.mark = '*' → occurrences t.opening k.start = 0 := by
    simp only [List.mem_cons, List.not_mem_nil, or_false] at h
    rintro k hk
    rcases h with rfl | rfl | rfl <;> cases k <;> first | rfl | contradiction
  rw [unclosed]
  split
  case isTrue => rfl
  case isFalse =>
    split
    case h_1 hk => exact ho _ (starStyle?_eq_some hk).left
    case h_2    => rfl

theorem forall_unclosed_iff (s : Text) : (∀ t, unclosed t s = 0) ↔ ¬Lopsided s := by
  have ho : ∀ k : Style, ¬∀ t : Tag, occurrences t.opening k.start = 0 := by
    intro k h
    have := h .i
    have := h .code
    have := h .em
    have := h .b
    cases k <;> contradiction
  by_cases he : Even s
  case pos => simp [unclosed, Lopsided, he]
  case neg => cases hk : starStyle? (s.count '*') <;> simp [unclosed, Lopsided, he, hk, ho]

theorem even_source (h : r.Written '*') :
    Even (r.source '*') ↔ r.left = r.right := by
  have ht : ((r.source '*').drop 1).takeWhile (· = '*') = List.replicate r.left '*' := by
    rw [Marked.source, List.singleton_append, List.drop_one, List.tail_cons]
    refine takeWhile_append_of_head (fun c hc => ?_) fun c hc => ?_
    · exact decide_eq_true (List.eq_of_mem_replicate hc)
    · exact decide_eq_false (h.head?_middle _ c hc)
  rw [Even, ht, h.count_source (Style.inner_mark .em), List.length_replicate]
  omega

namespace Tag

variable {k : Style}

theorem sealed_marks (t : Tag) (k : Style) : Sealed t k.marks ∧ t.excess k.marks = 0 := by
  cases t <;> cases k <;> decide

theorem sealed_start (t : Tag) (k : Style) : Sealed t k.start ∧ Sealed t k.stop := by
  cases t <;> cases k <;> decide

-- What a style opens it closes.
theorem excess_start (t : Tag) (k : Style) :
    t.excess k.start = occurrences t.opening k.start ∧
      t.excess k.start + t.excess k.stop = 0 := by
  cases t <;> cases k <;> decide

theorem raises_start (t : Tag) (k : Style) : t.Raises (t.excess k.start) k.marks k.start := by
  have hn : k.marks ≠ [] ∧ k.start ≠ [] := by cases k <;> decide
  have hr := Raises.of_sealed (sealed_marks t k).left (sealed_start t k).left hn.left hn.right
  rwa [(sealed_marks t k).right, Int.sub_zero] at hr

theorem raises_stop (t : Tag) (k : Style) : t.Raises (t.excess k.stop) k.marks k.stop := by
  have hn : k.marks ≠ [] ∧ k.stop ≠ [] := by cases k <;> decide
  have hr := Raises.of_sealed (sealed_marks t k).left (sealed_start t k).right hn.left hn.right
  rwa [(sealed_marks t k).right, Int.sub_zero] at hr

theorem raises_tags (t : Tag) (h : r.Written k.mark) (hl : k.width ≤ r.left)
    (hr : k.width ≤ r.right) : t.Raises 0 (r.source k.mark) (k.tags (r.source k.mark)) :=
  (excess_start t k).right ▸
    (raises_start t k).tag h k.inner_mark k.width_ne_zero hl hr (raises_stop t k)

theorem raises_tags_of_ne (t : Tag) (h : r.Written k.mark) (hk : r.left + r.right = 2 * k.width)
    (hn : r.left ≠ r.right) :
    t.Raises (occurrences t.opening k.start) (r.source k.mark) (k.tags (r.source k.mark)) :=
  (excess_start t k).left ▸
    (raises_start t k).tag_of_ne h k.inner_mark hk hn k.mark_not_mem_start

theorem raises_starred (t : Tag) (h : r.Written '*') :
    t.Raises (unclosed t (r.source '*')) (r.source '*') (starred (r.source '*')) := by
  rw [starred_eq, unclosed, h.count_source (Style.inner_mark .em)]
  cases hk : starStyle? (r.left + r.right)
  case none =>
    rw [ite_self]
    exact .refl _
  case some k =>
    have ⟨hm, hw⟩ := starStyle?_eq_some hk
    have he := even_source h
    rw [← hm] at h he ⊢
    by_cases hl : r.left = r.right
    case pos =>
      rw [if_pos (he.mpr hl)]
      exact raises_tags t h (by omega) (by omega)
    case neg =>
      rw [if_neg (mt he.mp hl)]
      exact raises_tags_of_ne t h hw hl

theorem Raises.flatMap {ps : List Piece}
    (h : ∀ y, .found y ∈ ps → t.Raises (n y) y (f y)) :
    t.Raises ((ps.filterMap Piece.match?).map n).sum (ps.flatMap Piece.text)
      (ps.flatMap fun
        | .other c => [c]
        | .found y => f y) := by
  induction ps
  case nil => exact .refl []
  case cons p ps ih =>
    have ih := ih fun y hy => h y (List.mem_cons_of_mem p hy)
    cases p
    case other c =>
      have hr := (Raises.refl [c]).append ih
      rwa [Int.zero_add] at hr
    case found y => exact (h y List.mem_cons_self).append ih

theorem Raises.replace {new : Text} (h : t.Raises (n s) s new) (x : Text) :
    t.Raises ((findAll (literal s) x).map n).sum x (replace s new x) := by
  have hy : ∀ y, .found y ∈ pieces (literal s) x → t.Raises (n y) y new := fun y hy =>
    eq_of_found_literal hy ▸ h
  have hr := Raises.flatMap hy
  rwa [flatMap_text_pieces] at hr

end Tag

-- The snippets that an edit replaces, as often as it does. One that was found may be gone when its
-- turn comes.
def replaced (f : Text → Text) : List Text → Text → List Text
  | [],      _ => []
  | s :: ss, y => findAll (literal s) y ++ replaced f ss (replace s (f s) y)

theorem raises_foldl (h : ∀ s ∈ ss, t.Raises (n s) s (f s)) (y : Text) :
    t.Raises ((replaced f ss y).map n).sum y (ss.foldl (fun y s => replace s (f s) y) y) := by
  induction ss generalizing y
  case nil => exact .refl y
  case cons s ss ih =>
    have ⟨hs, h⟩ := List.forall_mem_cons.mp h
    rw [replaced, List.map_append, List.sum_append]
    exact (Tag.Raises.replace hs y).trans (ih h _)

theorem excess_pad (t : Tag) (x : Text) : t.excess (pad x) = t.excess x := by
  rw [pad, Tag.excess_concat (by decide) (by decide), List.singleton_append,
    Tag.excess_cons (by decide)]

theorem excess_dropStart (t : Tag) (x : Text) : t.excess (dropStart [' '] x) = t.excess x := by
  by_cases hs : [' '] <+: x
  case pos =>
    obtain ⟨z, rfl⟩ := hs
    rw [dropStart_append, List.singleton_append, Tag.excess_cons (by decide)]
  case neg => rw [dropStart, if_neg (by simpa using hs)]

theorem excess_dropEnd (t : Tag) (x : Text) : t.excess (dropEnd [' '] x) = t.excess x := by
  by_cases hs : [' '] <:+ x
  case pos =>
    conv_rhs => rw [← dropEnd_append hs, Tag.excess_concat (by decide) (by decide)]
  case neg => rw [dropEnd, if_neg (by simpa using hs)]

theorem excess_edit (h : ∀ s, .found s ∈ pieces w (pad x) → t.Raises (n s) s (f s)) :
    t.excess (edit w f x) =
      t.excess x + ((replaced f (findAll w (pad x)) (pad x)).map n).sum := by
  have hr := raises_foldl (fun s hs => h s (found_of_mem_findAll hs)) (pad x)
  rw [edit, unpad, excess_dropEnd, excess_dropStart, hr.excess_eq, excess_pad]

-- The snippets with stars that are replaced in a text, once its quotes and its code are set.
def starRuns (x : Text) : List Text :=
  let y := pad (edit (markedWidth '\x60') code (edit (markedWidth '"') quoted x))
  replaced starred (findAll (markedWidth '*') y) y

theorem excess_toHtml (t : Tag) (x : Text) :
    t.excess (toHtml x) = t.excess x + ((starRuns x).map fun s => (unclosed t s : Int)).sum := by
  have hq : ∀ y s, .found s ∈ pieces (markedWidth '"') y → t.Raises 0 s (quoted s) := by
    intro y s hs
    have ⟨r, hr, he⟩ := exists_of_found_marked (Style.inner_mark .quoted) hs
    exact he ▸ Tag.raises_tags (k := .quoted) t hr (Nat.pos_of_ne_zero hr.left)
      (Nat.pos_of_ne_zero hr.right)
  have hc : ∀ y s, .found s ∈ pieces (markedWidth '\x60') y → t.Raises 0 s (code s) := by
    intro y s hs
    have ⟨r, hr, he⟩ := exists_of_found_marked (Style.inner_mark .code) hs
    exact he ▸ Tag.raises_tags (k := .code) t hr (Nat.pos_of_ne_zero hr.left)
      (Nat.pos_of_ne_zero hr.right)
  have hs : ∀ y s, .found s ∈ pieces (markedWidth '*') y →
      t.Raises (unclosed t s) s (starred s) := by
    intro y s hs
    have ⟨r, hr, he⟩ := exists_of_found_marked (Style.inner_mark .em) hs
    exact he ▸ Tag.raises_starred t hr
  have hl : ∀ y s, .found s ∈ pieces Link.width y → t.Raises 0 s (linked s) := by
    intro y s hs
    have ⟨l, hl, he, hh⟩ := exists_of_found_link hs
    rw [hh, he]
    exact .linked hl
  rw [toHtml, excess_edit (n := fun _ => 0) (hl _), excess_edit (hs _),
    excess_edit (n := fun _ => 0) (hc _), excess_edit (n := fun _ => 0) (hq _)]
  simp [starRuns]

theorem balanced_iff (hx : '<' ∉ x) (t : Tag) :
    t.Balanced (toHtml x) ↔ ∀ s ∈ starRuns x, unclosed t s = 0 := by
  have he := excess_toHtml t x
  have hs : ((starRuns x).map fun s => (unclosed t s : Int)).sum =
      (((starRuns x).map (unclosed t)).sum : Nat) := by
    induction starRuns x <;> simp_all
  rw [Tag.excess_eq_zero hx, Int.zero_add, Tag.excess, hs] at he
  have hb : t.Balanced (toHtml x) ↔ ((starRuns x).map (unclosed t)).sum = 0 := by
    rw [Tag.Balanced]
    omega
  rw [hb, List.sum_eq_zero_iff_forall_eq_nat, List.forall_mem_map]

-- Quotes, code and links are always closed. All tags are, unless there is a run of stars that is
-- taken for one of the styles by the number of its stars alone.
theorem toHtml_balanced (hx : '<' ∉ x) :
    (∀ t ∈ [Tag.i, .code, .a], t.Balanced (toHtml x)) ∧
      ((∀ t : Tag, t.Balanced (toHtml x)) ↔ ∀ s ∈ starRuns x, ¬Lopsided s) := by
  constructor
  case left =>
    intro t ht
    exact (balanced_iff hx t).mpr fun s _ => unclosed_eq_zero ht s
  case right =>
    simp only [balanced_iff hx, ← forall_unclosed_iff]
    exact ⟨fun h s hs t => h t s hs, fun h t s hs => h s hs t⟩

theorem toHtml_balanced_odd :
    let x : Text := "\"\"a\": \x60b\x60\x60, *c** **d**, ****e*. [f(g)](h#i)"
    let y : Text :=
      "<i>&quot;&quot;</i>a\": <code>b</code>\x60, *c** **d**, ****e*. <a href=\"h#i\">f(g)</a>"
    '<' ∉ x ∧ toHtml x = y ∧ starRuns x = [" *c** ".toList, " ****e*.".toList] ∧
      ∀ t : Tag, t.Balanced (toHtml x) := by
  intro x y
  have hx : '<' ∉ x := by decide
  have hs : starRuns x = [" *c** ".toList, " ****e*.".toList] := by decide +kernel
  have hl : ∀ s ∈ starRuns x, ¬Lopsided s := by
    rw [hs]
    decide
  exact ⟨hx, by decide +kernel, hs, (toHtml_balanced hx).right.mpr hl⟩

-- The second of the marks is not found, as there is one star on the left.
theorem not_balanced_toHtml :
    '<' ∉ "*a***".toList ∧ toHtml "*a***" = "*a<b>*".toList ∧
      ¬Tag.b.Balanced (toHtml "*a***") := by
  decide +kernel

end Markdown.Emphasis
end DocPress
