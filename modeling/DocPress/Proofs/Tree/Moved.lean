import DocPress.Proofs.Text.Words
import DocPress.Proofs.Tree.Content

-- Outlines whose lines are moved to the right. An outline is read without the white space in front
-- of its first line, so that in what is read all lines but the first one are moved.

namespace DocPress

open Text

namespace Outline

-- What is left of a text without white space at its end and the dashes in front of that.
def crop (x : Text) : Text :=
  trimEndBy (· = '-') (trimEndBy isBlank x)

-- The beginning of a line, up to white space and dashes.
structure Begins (l k : Text) : Prop where
  front : l <+: k
  rest  : content l = content k

-- What is read of the two texts begins with the same line, and the other lines of the second one
-- are moved. Whether blank lines are moved as well does not matter.
structure Moved (n : Nat) (x y m : Text) (ls ks : List Text) : Prop where
  left    : core x = joinLines (m :: ls)
  right   : core y = joinLines (m :: ks)
  oneLine : ∀ l ∈ m :: (ls ++ ks), '\n' ∉ l
  head    : ∃ c ∈ m.head?, isBlank c = false
  moved   : ks.map emptied = (ls.map (indented (spaces n))).map emptied

variable {n : Nat} {k l m r x y z : Text} {bs ks ls : List Text}

theorem core_eq (x : Text) : core x = crop (trimStart x) := rfl

theorem begins_crop (x : Text) : Begins (crop x) x where
  front := (prefix_trimEndBy _ _).trans (prefix_trimEndBy _ x)
  rest  := by
    rw [crop, content_trimEndBy fun c hc => .inr (of_decide_eq_true hc),
      content_trimEndBy fun _ => .inl]

theorem Begins.refl (x : Text) : Begins x x := ⟨List.prefix_rfl, rfl⟩

theorem crop_append (x : Text) (hy : blank y) : crop (x ++ y) = crop x := by
  rw [crop, trimEndBy_append x (List.all_eq_true.mp hy), crop]

-- Dashes are not taken off beyond the line they are on.
theorem crop_append_lineFeed (x : Text) (hy : blank y = false) :
    crop (x ++ '\n' :: y) = x ++ '\n' :: crop y := by
  have hb := trimEndBy_append_of_not (exists_not_isBlank hy) (x ++ ['\n'])
  have hd : ∃ c ∈ '\n' :: trimEndBy isBlank y, decide (c = '-') = false :=
    ⟨'\n', List.mem_cons_self, by decide⟩
  rw [List.append_assoc, List.append_assoc, List.singleton_append, List.singleton_append] at hb
  rw [crop, hb, trimEndBy_append_of_not hd, trimEndBy_cons (by decide)]
  rfl

theorem crop_spaces_append (n : Nat) (hx : blank x = false) :
    crop (spaces n ++ x) = spaces n ++ crop x := by
  rw [crop, trimEndBy_append_of_not (exists_not_isBlank hx), crop]
  induction n
  case zero => rfl
  case succ n ih =>
    have hs : spaces (n + 1) = ' ' :: spaces n := rfl
    rw [hs, List.cons_append, trimEndBy_cons (by decide), ih, List.cons_append]

theorem blank_flatMap_lineFeed (h : ∀ b ∈ bs, blank b) : blank (bs.flatMap ('\n' :: ·)) := by
  simp only [blank, List.all_flatMap, List.all_eq_true]
  intro b hb
  exact List.all_eq_true.mp (show blank ('\n' :: b) from h b hb)

theorem crop_joinLines (hk : blank k = false) (hb : ∀ b ∈ bs, blank b) (m : Text) (ls : List Text) :
    crop (joinLines (m :: (ls ++ k :: bs))) = joinLines (m :: (ls ++ [crop k])) := by
  have hj : ∀ x : Text, joinLines (m :: (ls ++ [x])) = joinLines (m :: ls) ++ '\n' :: x := by
    intro x
    rw [← List.cons_append, joinLines_append (List.cons_ne_nil m ls) (List.cons_ne_nil x []),
      joinLines_singleton]
  have hl : ls ++ k :: bs = ls ++ [k] ++ bs := by simp
  rw [hl, joinLines_cons_eq, List.flatMap_append, ← List.append_assoc,
    ← joinLines_cons_eq m (ls ++ [k]), crop_append _ (blank_flatMap_lineFeed hb), hj,
    crop_append_lineFeed _ hk, hj]

theorem crop_joinLines_of_blank (hb : ∀ b ∈ bs, blank b) (m : Text) :
    crop (joinLines (m :: bs)) = crop m := by
  rw [joinLines_cons_eq, crop_append _ (blank_flatMap_lineFeed hb)]

theorem blank_or_exists_first (ls : List Text) :
    (∀ l ∈ ls, blank l) ∨
      ∃ bs k ks, ls = bs ++ k :: ks ∧ (∀ b ∈ bs, blank b) ∧ blank k = false := by
  induction ls
  case nil => exact .inl (List.forall_mem_nil _)
  case cons l ls ih =>
    cases hl : blank l
    case false => exact .inr ⟨[], l, ls, rfl, List.forall_mem_nil _, hl⟩
    case true =>
      rcases ih with hb | ⟨bs, k, ks, he, hb, hk⟩
      case inl => exact .inl (List.forall_mem_cons.mpr ⟨hl, hb⟩)
      case inr =>
        exact .inr ⟨l :: bs, k, ks, by rw [he]; rfl, List.forall_mem_cons.mpr ⟨hl, hb⟩, hk⟩

theorem blank_or_exists_last (ls : List Text) :
    (∀ l ∈ ls, blank l) ∨
      ∃ ks k bs, ls = ks ++ k :: bs ∧ blank k = false ∧ ∀ b ∈ bs, blank b := by
  rcases blank_or_exists_first ls.reverse with hb | ⟨bs, k, ks, he, hb, hk⟩
  case inl => exact .inl fun l hl => hb l (List.mem_reverse.mpr hl)
  case inr =>
    have he := congrArg List.reverse he
    rw [List.reverse_reverse, List.reverse_append, List.reverse_cons, List.append_assoc] at he
    exact .inr ⟨ks.reverse, k, bs.reverse, he, hk, fun b h => hb b (List.mem_reverse.mp h)⟩

theorem core_joinLines (hr : blank r = false) (ls : List Text) :
    core (joinLines (r :: ls)) = crop (joinLines (trimStart r :: ls)) := by
  rw [core_eq, joinLines_cons_eq, trimStart_append hr, joinLines_cons_eq]

theorem map_indented_of_blank (hb : ∀ b ∈ bs, blank b) (x : Text) : bs.map (indented x) = bs :=
  .trans (List.map_congr_left fun b h => indented_of_blank (hb b h)) (List.map_id bs)

theorem emptied_append (hx : blank x) (l : Text) : emptied (x ++ l) = emptied (indented x l) := by
  cases hl : blank l
  case true =>
    have hb : blank (x ++ l) := by rw [blank, List.all_append, ← blank, ← blank, hx, hl]; rfl
    rw [indented_of_blank hl, emptied_of_blank hb, emptied_of_blank hl]
  case false => rw [indented_of_not_blank hl]

theorem map_emptied_append (hx : blank x) (ls : List Text) (l : Text) :
    (ls.map (indented x) ++ [x ++ l]).map emptied =
      ((ls ++ [l]).map (indented x)).map emptied := by
  simp only [List.map_append, List.map_singleton, emptied_append hx]

-- Two texts of which nothing is read, or moved lines.
def Shifts (n : Nat) (r : Text) (ls : List Text) (x y : Text) : Prop :=
  (core x = [] ∧ core y = []) ∨
    ∃ m ks js, Moved n x y m ks js ∧ Begins m (trimStart r) ∧ ∀ k ∈ ks, ∃ l ∈ ls, Begins k l

theorem lineFeed_not_mem_spaces_append (n : Nat) (h : '\n' ∉ l) : '\n' ∉ spaces n ++ l := by
  simp [spaces, h]

theorem lineFeed_not_mem_indented (n : Nat) (h : '\n' ∉ l) : '\n' ∉ indented (spaces n) l := by
  rw [indented]
  split
  case isTrue  => exact h
  case isFalse => exact lineFeed_not_mem_spaces_append n h

theorem lineFeed_not_mem_moved (n : Nat) (hm : '\n' ∉ m) (hl : ∀ l ∈ ls, '\n' ∉ l) (hk : '\n' ∉ k) :
    ∀ l ∈ m :: (ls ++ [k] ++ (ls.map (indented (spaces n)) ++ [spaces n ++ k])), '\n' ∉ l := by
  have hs := lineFeed_not_mem_spaces_append n hk
  have hi : ∀ l ∈ ls.map (indented (spaces n)), '\n' ∉ l :=
    List.forall_mem_map.mpr fun l h => lineFeed_not_mem_indented n (hl l h)
  have hls := List.forall_mem_append.mpr ⟨hl, List.forall_mem_singleton.mpr hk⟩
  have hks := List.forall_mem_append.mpr ⟨hi, List.forall_mem_singleton.mpr hs⟩
  exact List.forall_mem_cons.mpr ⟨hm, List.forall_mem_append.mpr ⟨hls, hks⟩⟩

-- Above blank lines only the first line is read, as far as the dashes at its end.
theorem shifts_of_blank (n : Nat) (hr : blank r = false) (hf : '\n' ∉ r)
    (hb : ∀ b ∈ bs, blank b) :
    Shifts n r bs (joinLines (r :: bs)) (joinLines (r :: bs)) := by
  have hg := begins_crop (trimStart r)
  have hx : core (joinLines (r :: bs)) = crop (trimStart r) := by
    rw [core_joinLines hr, crop_joinLines_of_blank hb]
  by_cases hn : crop (trimStart r) = []
  case pos => exact .inl ⟨hx.trans hn, hx.trans hn⟩
  case neg =>
    have hx : core (joinLines (r :: bs)) = joinLines [crop (trimStart r)] := by
      rw [hx, joinLines_singleton]
    have ⟨c, hc, hb⟩ := exists_head_trimStart hr
    have ⟨d, t, hd⟩ := List.exists_cons_of_ne_nil hn
    have ⟨e, he⟩ := hg.front
    rw [← he, hd] at hc
    refine .inr ⟨_, [], [], ⟨hx, hx, ?_, ⟨c, hd ▸ hc, hb⟩, rfl⟩, hg, List.forall_mem_nil _⟩
    exact List.forall_mem_singleton.mpr fun hc =>
      hf ((List.dropWhile_sublist isBlank).mem (hg.front.mem hc))

-- The lines behind the first one are moved.
theorem shifts_lines (n : Nat) (hr : blank r = false) (hf : ∀ l ∈ r :: ls, '\n' ∉ l) :
    Shifts n r ls (joinLines (r :: ls)) (joinLines (r :: ls.map (indented (spaces n)))) := by
  have ⟨hm, hls⟩ := List.forall_mem_cons.mp hf
  rcases blank_or_exists_last ls with hl | ⟨ks, k, bs, rfl, hk, hl⟩
  case inl =>
    rw [map_indented_of_blank hl]
    exact shifts_of_blank n hr hm hl
  case inr =>
    have ⟨hks, hkb⟩ := List.forall_mem_append.mp hls
    have hm : '\n' ∉ trimStart r := fun hc => hm ((List.dropWhile_sublist isBlank).mem hc)
    have hc : '\n' ∉ crop k := fun hc =>
      (List.forall_mem_cons.mp hkb).left ((begins_crop k).front.mem hc)
    have hi : (ks ++ k :: bs).map (indented (spaces n)) =
        ks.map (indented (spaces n)) ++ (spaces n ++ k) :: bs := by
      rw [List.map_append, List.map_cons, indented_of_not_blank hk, map_indented_of_blank hl]
    have hx := core_joinLines hr (ks ++ k :: bs)
    have hy := core_joinLines hr (ks.map (indented (spaces n)) ++ (spaces n ++ k) :: bs)
    rw [crop_joinLines hk hl] at hx
    rw [crop_joinLines (not_blank_append hk) hl, crop_spaces_append n hk] at hy
    rw [hi]
    refine .inr ⟨_, _, _, ⟨hx, hy, lineFeed_not_mem_moved n hm hks hc, exists_head_trimStart hr,
      map_emptied_append (blank_spaces n) ks _⟩, .refl _, ?_⟩
    refine List.forall_mem_append.mpr ⟨fun l hl => ?_, List.forall_mem_singleton.mpr ?_⟩
    · exact ⟨l, List.mem_append_left _ hl, .refl l⟩
    · exact ⟨k, by simp, begins_crop k⟩

theorem trim_joinLines_append (hb : ∀ b ∈ bs, blank b) (ls : List Text) :
    trim (joinLines (bs ++ ls)) = trim (joinLines ls) := by
  induction bs
  case nil => rfl
  case cons b bs ih =>
    have ⟨hb, hbs⟩ := List.forall_mem_cons.mp hb
    by_cases hn : bs ++ ls = []
    case pos =>
      have hl : ls = [] := (List.append_eq_nil_iff.mp hn).right
      rw [List.cons_append, hn, joinLines_singleton, trim_of_blank hb, hl]
      rfl
    case neg =>
      have hs : b ++ '\n' :: joinLines (bs ++ ls) = (b ++ ['\n']) ++ joinLines (bs ++ ls) := by simp
      have hb : blank (b ++ ['\n']) := by
        rw [blank, List.all_append, ← blank, hb]
        rfl
      rw [List.cons_append, joinLines_cons b hn, hs, trim_append_left hb, ih hbs]

theorem core_congr (h : trim x = trim y) : core x = core y :=
  congrArg (trimEndBy (· = '-')) h

theorem core_of_blank (h : blank x) : core x = [] := by
  rw [core, trim_of_blank h]
  rfl

-- White space in front of the first line is not read, and neither are blank lines above it.
theorem shifts_indent (n : Nat) (x : Text) :
    ∃ r ∈ splitLines x, ∃ ls ⊆ splitLines x, Shifts n r ls x (indent (spaces n) x) := by
  have hf : ∀ l ∈ splitLines x, '\n' ∉ l := fun _ => not_mem_of_mem_splitLines
  have hi : indent (spaces n) x = joinLines ((splitLines x).map (indented (spaces n))) := rfl
  rcases blank_or_exists_first (splitLines x) with hb | ⟨bs, r, ls, he, hb, hr⟩
  case inl =>
    have hx : blank x := by
      rw [← joinLines_splitLines x, blank_joinLines]
      exact List.all_eq_true.mpr hb
    have ⟨r, _, hm⟩ := List.exists_cons_of_ne_nil (splitLines_ne_nil x)
    refine ⟨r, by simp [hm], [], List.nil_subset _, .inl ⟨core_of_blank hx, ?_⟩⟩
    rw [hi, map_indented_of_blank hb, joinLines_splitLines]
    exact core_of_blank hx
  case inr =>
    rw [he] at hf hi
    have hx : core (joinLines (r :: ls)) = core x := by
      rw [← joinLines_splitLines x, he]
      exact core_congr (trim_joinLines_append hb _).symm
    have hy : core (joinLines (r :: ls.map (indented (spaces n)))) =
        core (indent (spaces n) x) := by
      rw [hi, List.map_append, List.map_cons, map_indented_of_blank hb, indented_of_not_blank hr]
      refine core_congr (.trans ?_ (trim_joinLines_append hb _).symm)
      rw [joinLines_cons_eq, joinLines_cons_eq, List.append_assoc,
        trim_append_left (blank_spaces n)]
    have hl := shifts_lines n hr (List.forall_mem_append.mp hf).right
    refine ⟨r, by simp [he], ls, by simp [he], ?_⟩
    rcases hl with ⟨hl, hk⟩ | ⟨m, ks, js, hm, hb⟩
    case inl => exact .inl ⟨hx ▸ hl, hy ▸ hk⟩
    case inr =>
      exact .inr ⟨m, ks, js, ⟨hx ▸ hm.left, hy ▸ hm.right, hm.oneLine, hm.head, hm.moved⟩, hb⟩

end Outline
end DocPress
