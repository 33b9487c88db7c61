import DocPress.Markdown.Page
import DocPress.Proofs.Markdown.Emphasis
import DocPress.Proofs.Text.Words
import DocPress.Proofs.Tree.Content
import DocPress.Proofs.Tree.NestedLists

-- What is set as a list. A block is taken for a list if white space of any kind follows its first
-- dash, but it is read as an outline, and there an item is a dash and a space.

namespace DocPress

open Text Outline

-- A dash and the character behind it at the front of a text, which holds more than dashes and white
-- space.
structure Text.Dashed (c : Char) (x : Text) : Prop where
  front  : ['-', c] <+: x
  filled : content x ≠ []

-- A snippet of text, where it is put in the place of another one: it begins with the same
-- character, and behind that the other one has no dash.
structure Text.Snippet (s t : Text) : Prop where
  front  : ∃ d m x y, s = d :: m :: x ∧ t = d :: y ∧ d ≠ '-' ∧ m ≠ '-'
  filled : content t ≠ []

variable {c d : Char} {f : Text → Text} {mark new old r s start stop t x y z : Text}
  {ss : List Text} {w : Text → Nat}

namespace Text

theorem content_append_ne_nil (h : content x ≠ [] ∨ content y ≠ []) : content (x ++ y) ≠ [] := by
  rw [content_append]
  cases h <;> simp [*]

theorem content_replaceFirst (hn : content new ≠ []) (hx : content x ≠ []) :
    content (replaceFirst old new x) ≠ [] := by
  induction x
  case nil => exact hx
  case cons c x ih =>
    rw [replaceFirst]
    split
    case isTrue => exact content_append_ne_nil (.inl hn)
    case isFalse =>
      by_cases hc : content x = []
      case neg => exact content_append_ne_nil (x := [c]) (.inr (ih hc))
      case pos =>
        refine content_append_ne_nil (x := [c]) (.inl fun h => hx ?_)
        rw [← List.singleton_append, content_append, h, hc]
        rfl

-- Where something is put in the place of another text, a piece with more than dashes and white
-- space either stays or is put in.
theorem content_replace (hn : content new ≠ []) (hx : content x ≠ []) :
    content (replace old new x) ≠ [] := by
  intro h
  refine hx ?_
  rw [replace, substitute, content_flatMap, List.flatMap_eq_nil_iff] at h
  rw [← flatMap_text_pieces (literal old) x, content_flatMap, List.flatMap_eq_nil_iff]
  intro p hp
  cases p
  case other c => exact h _ hp
  case found y => exact absurd (h _ hp) hn

-- No tag but the one of the paragraph begins at its front.
theorem replace_labelled (new : Text) (hh : old.head? = some '<') (hn : ¬old <+: "<p>-" ++ z) :
    replace old new ("<p>-" ++ z) = "<p>-" ++ replace old new z := by
  obtain ⟨o, rfl⟩ := List.head?_eq_some_iff.mp hh
  have hc : ∀ d x, d ≠ '<' → literal ('<' :: o) (d :: x) = 0 := fun d x hd =>
    literal_eq_zero fun hp => hd (List.cons_prefix_cons.mp hp).left.symm
  have hl : literal ('<' :: o) ('<' :: 'p' :: '>' :: '-' :: z) = 0 := literal_eq_zero hn
  show replace _ new ('<' :: 'p' :: '>' :: '-' :: z) = _
  rw [replace_of_zero new hl, replace_of_zero new (hc _ _ (by decide)),
    replace_of_zero new (hc _ _ (by decide)), replace_of_zero new (hc _ _ (by decide))]
  rfl

-- A snippet begins in front of the dash or behind it, so that the dash is not part of it.
theorem Snippet.prefix_replace (hs : Snippet s t) (hx : [' ', '-', c] <+: x) :
    [' ', '-', c] <+: replace s t x := by
  obtain ⟨r, rfl⟩ := hx
  obtain ⟨d, m, u, v, rfl, rfl, hd, hm⟩ := hs.front
  have h₁ : ¬(d :: m :: u) <+: ' ' :: '-' :: c :: r := by simp [hm]
  have h₂ : ¬(d :: m :: u) <+: '-' :: c :: r := by simp [hd]
  have hr : [c] <+: replace (d :: m :: u) (d :: v) (c :: r) := by
    by_cases hp : (d :: m :: u) <+: c :: r
    case neg => exact ⟨_, (replace_of_zero _ (literal_eq_zero hp)).symm⟩
    case pos =>
      have hc : d = c := by simpa using (List.cons_prefix_cons.mp hp).left
      have ⟨z, hz⟩ := hp
      rw [← hz, replace_match _ (List.cons_ne_nil _ _), hc]
      exact ⟨_, rfl⟩
  have ⟨y, hy⟩ := hr
  refine ⟨y, ?_⟩
  show _ = replace _ _ (' ' :: '-' :: c :: r)
  rw [replace_of_zero _ (literal_eq_zero h₁), replace_of_zero _ (literal_eq_zero h₂), ← hy]
  rfl

-- As long as something else is left at the end, the front is.
theorem Dashed.of_prefix (h : Dashed c x) (hz : z <+: x) (hf : content z ≠ []) : Dashed c z := by
  refine ⟨?_, hf⟩
  cases List.prefix_or_prefix_of_prefix h.front hz
  case inl hc => exact hc
  case inr hc =>
    match z, hc, hf with
    | [], _, hf => exact absurd rfl hf
    | [a], hc, hf =>
      have ha : a = '-' := (List.cons_prefix_cons.mp hc).left
      exact absurd (ha ▸ rfl) hf
    | a :: b :: z, hc, _ =>
      have ⟨ha, hc⟩ := List.cons_prefix_cons.mp hc
      exact ⟨z, by rw [ha, (List.cons_prefix_cons.mp hc).left]; rfl⟩

theorem Dashed.dropEnd (h : Dashed c x) : Dashed c (dropEnd [' '] x) := by
  refine h.of_prefix (prefix_dropEnd x [' ']) ?_
  by_cases hs : [' '] <:+ x
  case neg =>
    rw [Text.dropEnd, if_neg (by simpa using hs)]
    exact h.filled
  case pos =>
    have hc := h.filled
    rwa [← dropEnd_append hs, content_append, content_eq_nil (x := [' ']) (by simp [isBlank]),
      List.append_nil] at hc

theorem Dashed.trimEndBy {p : Char → Bool} (h : Dashed c x) (hp : ∀ c, p c → isBlank c ∨ c = '-') :
    Dashed c (trimEndBy p x) :=
  h.of_prefix (prefix_trimEndBy p x) (content_trimEndBy hp x ▸ h.filled)

theorem Dashed.head? (h : Dashed c x) : x.head? = some '-' := by
  have ⟨r, hr⟩ := h.front
  rw [← hr]
  rfl

theorem Dashed.core (h : Dashed c x) : Dashed c (core x) := by
  have ht : trim x = Text.trimEndBy isBlank x := by
    rw [trim, trimBy_eq, dropWhile_eq_self (by simp [h.head?, isBlank])]
  rw [Outline.core, ht]
  exact (h.trimEndBy fun _ => .inl).trimEndBy fun c hc => .inr (of_decide_eq_true hc)

end Text

namespace Markdown.Emphasis

theorem prefix_foldl (h : ∀ s ∈ ss, Snippet s (f s)) (hx : [' ', '-', c] <+: x)
    (hc : content x ≠ []) :
    [' ', '-', c] <+: ss.foldl (fun y s => replace s (f s) y) x ∧
      content (ss.foldl (fun y s => replace s (f s) y) x) ≠ [] := by
  induction ss generalizing x
  case nil => exact ⟨hx, hc⟩
  case cons s ss ih =>
    have ⟨hs, h⟩ := List.forall_mem_cons.mp h
    exact ih h (hs.prefix_replace hx) (content_replace hs.filled hc)

theorem dashed_unpad (hx : [' ', '-', c] <+: x) (hc : content x ≠ []) : Dashed c (unpad x) := by
  obtain ⟨r, rfl⟩ := hx
  have hd : dropStart [' '] ([' ', '-', c] ++ r) = ['-', c] ++ r := dropStart_append [' '] _
  have h : Dashed c (['-', c] ++ r) := ⟨⟨r, rfl⟩, hc⟩
  rw [unpad, hd]
  exact h.dropEnd

theorem dashed_edit (hx : Dashed c x) (h : ∀ s, .found s ∈ pieces w (pad x) → Snippet s (f s)) :
    Dashed c (edit w f x) := by
  have ⟨r, hr⟩ := hx.front
  have hp : [' ', '-', c] <+: pad x := ⟨r ++ [' '], by rw [pad, ← hr]; simp⟩
  have hc : content (pad x) ≠ [] := content_append_ne_nil (.inl hx.filled)
  have hs : ∀ s ∈ findAll w (pad x), Snippet s (f s) := fun s hs => h s (found_of_mem_findAll hs)
  have ⟨hf, hc⟩ := prefix_foldl hs hp hc
  exact dashed_unpad hf hc

-- A character that marks a run can neither stand in front of it nor be a dash.
structure IsMark (m : Char) : Prop where
  opens  : opens m = false
  filled : content [m] ≠ []

variable {m : Char}

theorem IsMark.ne_dash (h : IsMark m) : m ≠ '-' := by
  rintro rfl
  exact h.filled rfl

theorem exists_of_markedWidth (h : markedWidth m z ≠ 0) :
    ∃ d x n, z = d :: m :: x ∧ Emphasis.opens d ∧ markedWidth m z = n + 2 := by
  cases z
  case nil => contradiction
  case cons d x =>
    have ⟨⟨n, hw⟩, ho, hl⟩ : (∃ n, markedWidth m (d :: x) = n + 2) ∧ Emphasis.opens d ∧
        x.takeWhile (· = m) ≠ [] := by
      simp only [markedWidth] at h ⊢
      split at h
      case h_1 => contradiction
      case h_2 =>
        split at h
        case isFalse => contradiction
        case isTrue hc =>
          refine ⟨⟨_, if_pos hc⟩, ?_⟩
          simp only [Bool.and_eq_true, Bool.not_eq_true', List.isEmpty_eq_false_iff] at hc
          exact hc.left.left.left
    cases x
    case nil => exact absurd rfl hl
    case cons e x =>
      have he : e = m := by
        by_contra he
        exact hl (List.takeWhile_cons_of_neg (by simpa using he))
      exact ⟨d, x, n, by rw [he], ho, hw⟩

theorem ne_dash_of_opens (ho : Emphasis.opens d) : d ≠ '-' := by
  rintro rfl
  exact absurd ho (by decide)

theorem IsMark.content_ne_nil (h : IsMark m) (d : Char) (x : Text) : content (d :: m :: x) ≠ [] :=
  content_append_ne_nil (x := [d]) (.inr (content_append_ne_nil (x := [m]) (.inl h.filled)))

theorem snippet_tag (hm : IsMark m) (hk : mark.head? = some m) (ho : Emphasis.opens d)
    (hs : content start ≠ []) (ht : content stop ≠ []) (x : Text) :
    Snippet (d :: m :: x) (tag mark start stop (d :: m :: x)) := by
  have hd : m ≠ d := by
    rintro rfl
    exact Bool.false_ne_true (hm.opens.symm.trans ho)
  obtain ⟨k, rfl⟩ := List.head?_eq_some_iff.mp hk
  have hp : ∀ y, ¬(m :: k) <+: d :: y := fun y h => hd (List.cons_prefix_cons.mp h).left
  have he : tag (m :: k) start stop (d :: m :: x) =
      d :: replaceFirst (m :: k) stop (replaceFirst (m :: k) start (m :: x)) := by
    rw [tag, replaceFirst_cons (hp _), replaceFirst_cons (hp _)]
  exact ⟨⟨d, m, x, _, rfl, he, ne_dash_of_opens ho, hm.ne_dash⟩,
    content_replaceFirst ht (content_replaceFirst hs (hm.content_ne_nil d x))⟩

theorem exists_of_found_mark (h : .found s ∈ pieces (markedWidth m) x) :
    ∃ d y, s = d :: m :: y ∧ Emphasis.opens d := by
  have ⟨z, hz, hs⟩ := exists_of_found h
  have ⟨d, y, n, he, ho, hw⟩ := exists_of_markedWidth hz
  exact ⟨d, y.take n, by rw [hs, hw, he]; rfl, ho⟩

theorem snippet_starred (ho : Emphasis.opens d) (x : Text) :
    Snippet (d :: '*' :: x) (starred (d :: '*' :: x)) := by
  have hm : IsMark '*' := ⟨by decide, by decide⟩
  rw [starred]
  split
  case h_4 =>
    exact ⟨⟨d, '*', x, '*' :: x, rfl, rfl, ne_dash_of_opens ho, hm.ne_dash⟩, hm.content_ne_nil d x⟩
  all_goals exact snippet_tag hm rfl ho (by decide) (by decide) x

theorem snippet_linked (h : .found s ∈ pieces Link.width x) : Snippet s (linked s) := by
  have ⟨l, hl, hs, hh⟩ := exists_of_found_link h
  have hd : l.before ≠ '-' := by
    intro hd
    have hb := hl.before
    rw [hd] at hb
    contradiction
  rw [hh, hs]
  refine ⟨⟨l.before, '[', _, _, rfl, rfl, hd, by decide⟩, ?_⟩
  have ha : content "<a href=\"" ≠ [] := by decide
  rw [Link.html]
  simp only [List.append_assoc]
  exact content_append_ne_nil (.inr (content_append_ne_nil (.inl ha)))

theorem dashed_toHtml (h : Dashed c x) : Dashed c (toHtml x) := by
  have hq : IsMark '"' := ⟨by decide, by decide⟩
  have hc : IsMark '\x60' := ⟨by decide, by decide⟩
  refine dashed_edit (dashed_edit (dashed_edit (dashed_edit h ?_) ?_) ?_) fun s => snippet_linked
  all_goals
    intro s hs
    obtain ⟨d, y, rfl, ho⟩ := exists_of_found_mark hs
  case refine_1 => exact snippet_tag hq rfl ho (by decide) (by decide) y
  case refine_2 => exact snippet_tag hc rfl ho (by decide) (by decide) y
  case refine_3 => exact snippet_starred ho y

end Markdown.Emphasis

-- The text up to the first item.

namespace Outline

theorem headerOf_space (h : Dashed ' ' x) : headerOf (splitLines x) = [] := by
  have ⟨r, hr⟩ := h.front
  have ⟨l, ls, hl⟩ := List.exists_cons_of_ne_nil (splitLines_ne_nil r)
  have hs := splitLines_append_of_not_mem (x := ['-', ' ']) (by decide) r
  rw [hr, hl, List.modifyHead_cons] at hs
  have ho : opensItem (['-', ' '] ++ l) := opensItem_of_dash (n := 0) (List.prefix_append _ l)
  rw [headerOf, hs, List.takeWhile_cons_of_neg (by simpa using ho)]
  rfl

theorem head?_headerOf (h : Dashed c x) (hc : c ≠ ' ') :
    (headerOf (splitLines x)).head? = some '-' := by
  have ⟨r, hr⟩ := h.front
  have ⟨l, ls, hl⟩ := List.exists_cons_of_ne_nil (splitLines_ne_nil (c :: r))
  have hs := splitLines_append_of_not_mem (x := ['-']) (by decide) (c :: r)
  have hf : ∀ d ∈ (c :: r).head?, d ≠ ' ' := by simpa using hc
  have hd : ∀ d ∈ l.head?, d ≠ ' ' := head_splitLines hf l (by rw [hl]; rfl)
  have ho : opensItem ('-' :: l) = false := by
    rw [opensItem, List.dropWhile_cons_of_neg (by decide)]
    cases l
    case nil => rfl
    case cons d l => simp [startsWith, List.isPrefixOf, Ne.symm (hd d rfl)]
  have hx : ['-'] ++ c :: r = x := hr
  rw [hx, hl, List.modifyHead_cons, List.singleton_append] at hs
  rw [headerOf, hs, List.takeWhile_cons_of_pos (by simpa using ho)]
  exact head?_trim_eq (head?_joinLines (List.cons_ne_nil _ _)) (by decide)

end Outline

namespace Tree

-- The root is an unnamed one with items exactly if the dash is followed by a space.
theorem root_of_dashed (h : Dashed c x) :
    (c = ' ' → (ofOutline x).data = [] ∧ (ofOutline x).children ≠ []) ∧
    (c ≠ ' ' → (ofOutline x).data.head? = some '-') := by
  cases hr : read? x
  case none => exact absurd (content_of_read?_eq_none hr) h.filled
  case some o =>
    have ho : o.header = headerOf (splitLines (core x)) := by rw [eq_of_read? hr]
    rw [ofOutline_of_read? hr, data_named, children_named, ho]
    refine ⟨fun hc => ?_, head?_headerOf h.core⟩
    subst hc
    have hn := headerOf_space h.core
    refine ⟨hn, fun hi => h.filled ?_⟩
    rw [← content_read? hr, ho, hn, List.map_eq_nil_iff.mp hi]
    rfl

variable {t : Tree}

open Markup

theorem toHtml_of_list (step : Nat) (hd : t.data = []) (hn : t.children ≠ []) :
    ∃ z, t.toHtml step = "<p>\n<ul>" ++ '\n' :: z := by
  have hi : ∀ y : Text, y ≠ [] → ¬y <:+: oneLine t.data := by
    rw [hd]
    exact fun y hy hi => hy (List.infix_nil.mp hi)
  have hr := toHtml_eq_rows step (hi _ (by decide)) (hi _ (by decide))
  rw [paragraphRows, if_neg hn, joinLines_enclosed (listRows_ne_nil _ _ _), listRows, listed,
    joinLines_enclosed (itemsRows_ne_nil hn), hd] at hr
  exact ⟨_, hr⟩

theorem exists_replace_opening (z : Text) :
    ∃ y, replace "<li>" "<p>" ("<li>" ++ '-' :: z) = "<p>-" ++ y := by
  refine ⟨replace "<li>" "<p>" z, ?_⟩
  rw [replace_match _ (by decide), replace_of_zero _ rfl]
  rfl

-- The tags in front of a label that begins with a dash are replaced, whatever stands in the label.
theorem toHtml_of_label (step : Nat) (h : t.data.head? = some '-') :
    ∃ z, t.toHtml step = "<p>-" ++ z := by
  have hli : Spaced "li" := by decide
  have ⟨x, hx⟩ := exists_oneLine_cons h (by decide)
  by_cases hn : t.children = []
  case pos =>
    have hi : item (spaces step) t = "<li>" ++ (oneLine t.data ++ "</li>") := by
      rw [item_eq_ite, if_pos hn, List.append_assoc]
    have hr : IsRow ("<li>" ++ (oneLine t.data ++ "</li>")) := by
      simpa [Row.print, Row.text, Part.print, spaces] using (element_proper hli 0 t.data).isRow
    obtain ⟨y, hy⟩ := exists_replace_opening (x ++ "</li>")
    rw [toHtml, hi, unindentBody_row hr, asParagraph_row hr, hx]
    exact ⟨_, (congrArg _ hy).trans (replace_labelled _ rfl (by simp))⟩
  case neg =>
    have hr := isRow_of_mem_print <| enclosed_proper (labelled_proper hli 0 t.data)
      (.closing 0 hli) (listRows_proper step 0 t.children)
    obtain ⟨y, hy⟩ := exists_replace_opening x
    have hl : spaces 0 ++ [.opening "li", .content (oneLine t.data)].flatMap Part.print =
        "<li>" ++ '-' :: x := by
      simp [Part.print, spaces, hx]
    rw [map_print_enclosed] at hr
    rw [toHtml, unindentBody_item step hn, map_print_enclosed, asParagraph_rows hr, hl, hy,
      joinLines_cons_eq, List.append_assoc]
    exact ⟨_, rfl⟩

end Tree

namespace Markdown

variable {b : Block} {bs : List Block}

theorem eq_ofText_of_mem_blocks (h : blocks x = .ok bs) (hb : b ∈ bs) : b = .ofText b.text := by
  rw [blocks] at h
  cases hp : paragraphs x
  all_goals rw [hp] at h
  case error => contradiction
  case ok ps =>
    cases h
    have ⟨y, _, hy⟩ := List.mem_map.mp hb
    exact hy ▸ rfl

theorem exists_of_kindOf_list (h : Block.kindOf x = .list) :
    ∃ c, isBlank c ∧ ['-', c] <+: x := by
  have hl : Block.isList x := by
    by_contra hl
    grind [Block.kindOf]
  unfold Block.isList at hl
  split at hl
  case h_1 c r => exact ⟨c, hl, r, rfl⟩
  case h_2     => contradiction

theorem startsWith_dash_iff (h : Dashed c x) : startsWith x "- " ↔ c = ' ' := by
  have ⟨r, hr⟩ := h.front
  rw [← hr, startsWith, List.isPrefixOf_iff_prefix]
  show ['-', ' '] <+: '-' :: c :: r ↔ _
  rw [List.cons_prefix_cons, List.cons_prefix_cons]
  exact ⟨fun hp => hp.right.left.symm, fun hc => ⟨rfl, hc.symm, List.nil_prefix⟩⟩

theorem startsWith_listHtml_iff (options : Options) (h : Dashed c x) :
    startsWith (Block.listHtml options x) ("<p>\n<ul class=\"" ++ options.listClass ++ "\">\n") ↔
      c = ' ' := by
  have hx := Tree.root_of_dashed (Emphasis.dashed_toHtml h)
  rw [Block.listHtml]
  by_cases hc : c = ' '
  case pos =>
    obtain ⟨hd, hn⟩ := hx.left hc
    obtain ⟨z, hz⟩ := Tree.toHtml_of_list options.htmlIndent hd hn
    rw [hz, replace_match _ (by decide), replace_of_zero _ rfl]
    simp [startsWith, hc]
  case neg =>
    obtain ⟨z, hz⟩ := Tree.toHtml_of_label options.htmlIndent (hx.right hc)
    rw [hz, replace_labelled _ rfl (by simp)]
    simp [startsWith, hc]

-- A block of the kind of a list becomes a list in the page exactly if the white space behind its
-- first dash is a space, as it is in the outline that it is read as.
theorem list_iff_startsWith (h : blocks x = .ok bs) (hb : b ∈ bs) (hk : b.kind = .list)
    (hc : content b.text ≠ []) :
    let t := Tree.ofOutline (Emphasis.toHtml b.text)
    (t.data = [] ∧ t.children ≠ [] ↔ startsWith b.text "- ") ∧
    ∀ options : Options,
      (startsWith (b.toHtml options) ("<p>\n<ul class=\"" ++ options.listClass ++ "\">\n") ↔
        startsWith b.text "- ") := by
  have he := eq_ofText_of_mem_blocks h hb
  have hl : Block.kindOf b.text = .list := by
    rw [he] at hk
    exact hk
  have ⟨c, _, hf⟩ := exists_of_kindOf_list hl
  have hd : Dashed c b.text := ⟨hf, hc⟩
  have hr := Tree.root_of_dashed (Emphasis.dashed_toHtml hd)
  rw [startsWith_dash_iff hd]
  refine ⟨⟨fun ⟨ht, _⟩ => ?_, hr.left⟩, fun options => ?_⟩
  · by_contra hc
    have ht' := hr.right hc
    rw [ht] at ht'
    contradiction
  · rw [Block.toHtml, hk]
    exact startsWith_listHtml_iff options hd

theorem list_iff_startsWith_tab :
    let b : Block := ⟨.list, "- *A*\n  - B"⟩
    let t : Block := ⟨.list, "-\tA"⟩
    let x : Text := "- *A*\n  - B\n\n-\tA"
    blocks x = .ok [b, t] ∧ content b.text ≠ [] ∧ content t.text ≠ [] ∧
      startsWith (b.toHtml {}) "<p>\n<ul class=\"md-list\">\n" ∧
      ¬startsWith (t.toHtml {}) "<p>\n<ul class=\"md-list\">\n" := by
  intro b t x
  have hx : blocks x = .ok [b, t] := by decide
  have hb : content b.text ≠ [] := by decide
  have ht : content t.text ≠ [] := by decide
  refine ⟨hx, hb, ht, ?_, fun h => ?_⟩
  · exact ((list_iff_startsWith hx (by simp) rfl hb).right {}).mpr (by decide)
  · exact absurd (((list_iff_startsWith hx (by simp) rfl ht).right {}).mp h) (by decide)

-- A tab is white space as well, but it does not make an item.
theorem leaf_of_dash_tab :
    let b : Block := ⟨.list, "-\tA"⟩
    blocks "-\tA" = .ok [b] ∧ content b.text ≠ [] ∧
      Tree.ofOutline (Emphasis.toHtml b.text) = .leaf "-\tA" ∧
      b.toHtml {} = "<p>- A</p>".toList := by
  intro b
  have he : Emphasis.toHtml b.text = b.text := by decide +kernel
  have hr : read? b.text = some ⟨"-\tA", []⟩ := by decide +kernel
  refine ⟨by decide, by decide, ?_, by decide +kernel⟩
  rw [he, Tree.ofOutline_of_read? hr]
  rfl

end Markdown
end DocPress
