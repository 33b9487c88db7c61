import DocPress.Proofs.Docstring.Headings
import DocPress.Proofs.Text.Ends
import DocPress.Proofs.Text.Tight

-- What is read of a documented variable. Paragraphs have no blank lines inside, so that none is
-- left in a description either.

namespace DocPress.Text

variable {w : Text → Nat} {x y : Text} {ps : List Piece} {ys : List Text}

theorem prefix_of_splitParts (h : splitParts ps = y :: ys) : y <+: ps.flatMap Piece.text := by
  induction ps generalizing y ys
  case nil =>
    cases h
    exact List.nil_prefix
  case cons p ps ih =>
    cases p
    case found =>
      cases h
      exact List.nil_prefix
    case other c =>
      cases hs : splitParts ps
      all_goals rw [splitParts, hs] at h
      case nil => contradiction
      case cons =>
        cases h
        exact (List.prefix_cons_inj c).mpr (ih hs)

theorem prefix_of_splitAround (h : splitAround w x = y :: ys) : y <+: x :=
  flatMap_text_pieces w x ▸ prefix_of_splitParts h

theorem of_splitAt? {x a b : Text} {c : Char} (h : splitAt? c x = some (a, b)) :
    x = a ++ c :: b := by
  induction x generalizing a
  case nil => contradiction
  case cons d x ih =>
    rw [splitAt?] at h
    split at h
    case isTrue hd =>
      cases h
      rw [hd]
      rfl
    case isFalse =>
      obtain ⟨p, hp, he⟩ := Option.map_eq_some_iff.mp h
      cases he
      rw [ih hp, List.cons_append]

end DocPress.Text

namespace DocPress.Docstring

open Text

-- There is a blank line with others around it.
def Broken (x : Text) : Prop :=
  ∃ g, blank g ∧ '\n' :: (g ++ ['\n']) <:+: x

variable {g par x y : Text} {ls : List Text}

theorem Broken.mono (h : Broken x) (hy : x <:+: y) : Broken y :=
  have ⟨g, hg, hx⟩ := h
  ⟨g, hg, hx.trans hy⟩

theorem not_broken_nil : ¬Broken [] := fun ⟨_, _, h⟩ =>
  absurd (List.infix_nil.mp h) (List.cons_ne_nil _ _)

theorem not_prefix_of_breakWidth (h : breakWidth ('\n' :: x) = 0) (hg : blank g) :
    ¬g ++ ['\n'] <+: x := by
  rintro ⟨t, rfl⟩
  have hb : ∀ c ∈ g ++ ['\n'], isBlank c :=
    List.forall_mem_append.mpr ⟨List.all_eq_true.mp hg, List.forall_mem_singleton.mpr rfl⟩
  have hd : ((g ++ ['\n'] ++ t).takeWhile isBlank).reverse.dropWhile (· ≠ '\n') ≠ [] := by
    rw [List.takeWhile_append_of_pos hb, Ne, List.dropWhile_eq_nil_iff]
    intro h
    simpa using h '\n' (by simp)
  rw [breakWidth] at h
  split at h
  case h_1 he => exact hd he
  case h_2    => contradiction

-- What stands between two breaks has no further one.
theorem not_broken_of_mem_splitAround (x : Text) : ∀ y ∈ splitAround breakWidth x, ¬Broken y := by
  induction x using pieces.induct breakWidth
  case case1 =>
    rw [splitAround, pieces]
    exact List.forall_mem_singleton.mpr not_broken_nil
  case case2 c x hw ih =>
    rw [splitAround_cons hw]
    cases hs : splitAround breakWidth x
    all_goals rw [hs] at ih
    case nil => exact List.forall_mem_nil _
    case cons z zs =>
      obtain ⟨hz, hzs⟩ := List.forall_mem_cons.mp ih
      refine List.forall_mem_cons.mpr ⟨?_, hzs⟩
      rintro ⟨g, hg, h⟩
      cases List.infix_cons_iff.mp h
      case inr h => exact hz ⟨g, hg, h⟩
      case inl h =>
        obtain ⟨rfl, hp⟩ := List.cons_prefix_cons.mp h
        exact not_prefix_of_breakWidth hw hg (hp.trans (prefix_of_splitAround hs))
  case case3 c x n hw ih =>
    rw [splitAround, pieces, hw]
    exact List.forall_mem_cons.mpr ⟨not_broken_nil, ih⟩

theorem not_broken_of_mem_paragraphs (h : par ∈ paragraphs x) : ¬Broken par := by
  have ⟨y, hy, he⟩ := List.mem_map.mp (List.mem_filter.mp h).left
  have hi : par <:+: y := by
    rw [← he, trimBy_eq]
    exact (prefix_trimEndBy _ _).isInfix.trans (List.dropWhile_suffix _).isInfix
  exact fun hb => not_broken_of_mem_splitAround x y hy (hb.mono hi)

theorem pairwise_of_not_broken (h : ¬Broken (y ++ ls.flatMap ('\n' :: ·))) :
    ls.Pairwise fun l _ => blank l = false := by
  induction ls generalizing y
  case nil => exact .nil
  case cons l ls ih =>
    have hs : y ++ (l :: ls).flatMap ('\n' :: ·) = y ++ '\n' :: l ++ ls.flatMap ('\n' :: ·) := by
      simp
    rw [hs] at h
    refine .cons (fun k hk => ?_) (ih h)
    have ⟨m, ms, hm⟩ := List.exists_cons_of_ne_nil (List.ne_nil_of_mem hk)
    by_contra hb
    refine h ⟨l, by simpa using hb, y, m ++ ms.flatMap ('\n' :: ·), ?_⟩
    rw [hm]
    simp

theorem sublist_of_mem_definitions {l : Text} {doc : List Text} (h : (l, doc) ∈ definitions ls) :
    (l :: doc).Sublist ls := by
  induction ls
  case nil => contradiction
  case cons k ls ih =>
    rw [definitions] at h
    split at h
    case isFalse => exact (ih h).cons k
    case isTrue =>
      cases List.mem_cons.mp h
      case inl h =>
        cases h
        exact (List.takeWhile_sublist _).cons_cons l
      case inr h => exact (ih h).cons k

-- What is read of a variable.
structure Variable.Clean (v : Variable) : Prop where
  name : '\n' ∉ v.name
  type : '\n' ∉ v.type
  doc  : Tight v.doc

theorem clean_read {l : Text} (hl : '\n' ∉ l) (hf : ∀ l ∈ ls, '\n' ∉ l)
    (hb : ls.Pairwise fun l _ => blank l = false) : (Variable.read l (joinLines ls)).Clean := by
  have hd := tight_dedent hf hb
  rw [Variable.read]
  split
  case h_1 name type hs =>
    rw [of_splitAt? hs] at hl
    have ht : '\n' ∉ type := fun hc => hl (List.mem_append_right _ (List.mem_cons_of_mem _ hc))
    exact ⟨lineFeed_not_mem_trim fun hc => hl (List.mem_append_left _ hc),
      lineFeed_not_mem_trim ht, hd⟩
  case h_2 => exact ⟨lineFeed_not_mem_trim hl, List.not_mem_nil, hd⟩

theorem clean_of_mem_readVariables {v : Variable} (hf : ∀ l ∈ ls, '\n' ∉ l)
    (hb : ls.Pairwise fun l _ => blank l = false) (hv : v ∈ readVariables (joinLines ls)) :
    v.Clean := by
  by_cases hn : ls = []
  case pos =>
    subst hn
    contradiction
  case neg =>
    have hp : (lines (joinLines ls)).Pairwise fun l _ => blank l = false :=
      pairwise_lines (by rwa [splitLines_joinLines hf hn])
    rw [readVariables] at hv
    split at hv
    case isTrue => contradiction
    case isFalse =>
      obtain ⟨⟨l, doc⟩, hd, hv⟩ := List.mem_map.mp hv
      have hs := (sublist_of_mem_definitions hd).trans List.filter_sublist
      obtain ⟨hl, hdoc⟩ := List.forall_mem_cons.mp fun k hk =>
        lineFeed_not_mem_of_mem_lines (hs.mem hk)
      exact hv ▸ clean_read hl hdoc (hp.sublist hs).of_cons

-- The names and types of documented variables stand on one line, and their descriptions have no
-- blank lines but for an empty last one.
theorem clean_of_read {vocabulary : Vocabulary} {bs : List Block} {heading : Text}
    {vs : List Variable} {v : Variable} (h : read vocabulary x = .ok bs)
    (hb : .variableList heading vs ∈ bs) (hv : v ∈ vs) : v.Clean := by
  have ⟨f, hf, hr⟩ := exists_read_eq_map vocabulary
  cases (hr x).symm.trans h
  have ⟨par, hp, he⟩ := List.mem_map.mp hb
  have hreads := hf par
  rw [he] at hreads
  cases hreads
  case variableList n ls _ hl _ _ =>
    have hx : heading ++ (underline n :: ls).flatMap ('\n' :: ·) = par := by
      rw [← joinLines_cons_eq, ← hl, joinLines_splitLines]
    have hb : ¬Broken (heading ++ (underline n :: ls).flatMap ('\n' :: ·)) :=
      hx ▸ not_broken_of_mem_paragraphs hp
    have hls : ∀ l ∈ ls, '\n' ∉ l := fun l hm =>
      not_mem_of_mem_splitLines (hl ▸ List.mem_cons_of_mem _ (List.mem_cons_of_mem _ hm))
    exact clean_of_mem_readVariables hls (pairwise_of_not_broken hb).of_cons hv

end DocPress.Docstring
