import DocPress.Proofs.Lists
import DocPress.Proofs.Markdown.Anchors
import DocPress.Proofs.Markdown.Contents
import DocPress.Proofs.Tree.Parents

-- A table of contents lists the links of all headings, each of them once and in their order. The
-- levels decide where the links hang: at some levels, headings hang below others of the same level.

namespace DocPress.Markdown

open Text

variable {name target : Text} {hs : List Text} {c : Collection} {ds : List (Text × Text)}

namespace Contents

def links (target : Text) (headings : List Text) : List Text :=
  (entries headings).map (·.link target)

-- The links with the levels of their headings.
def leveled (target : Text) (headings : List Text) : List (Nat × Text) :=
  (entries headings).map fun e => (e.level, e.link target)

theorem length_links (target : Text) (hs : List Text) : (links target hs).length = hs.length := by
  have h := congrArg List.length (map_anchor_entries hs)
  rw [Anchor.length_ofHeadings, List.length_map, List.length_map] at h
  rw [links, List.length_map, h]

theorem map_snd_leveled (target : Text) (hs : List Text) :
    (leveled target hs).map (·.2) = links target hs := by
  rw [leveled, links, List.map_map]
  rfl

theorem map_fst_leveled (target : Text) (hs : List Text) :
    (leveled target hs).map (·.1) = levels hs := by
  rw [leveled, levels, List.map_map]
  rfl

theorem leveled_eq_nil_iff : leveled target hs = [] ↔ hs = [] := by
  rw [← List.length_eq_zero_iff, ← List.length_map (·.2), map_snd_leveled, length_links,
    List.length_eq_zero_iff]

theorem plain_leveled (ht : '\n' ∉ target) (hh : ∀ h ∈ hs, '\n' ∉ h) :
    ∀ p ∈ leveled target hs, Plain p.2 :=
  List.forall_mem_map.mpr fun _ he => plain_link ht hh he

theorem one_le_leveled : ∀ p ∈ leveled target hs, 1 ≤ p.1 :=
  List.forall_mem_map.mpr fun _ he => one_le_level he

theorem items_ladder (ht : '\n' ∉ target) (hh : ∀ h ∈ hs, '\n' ∉ h) :
    Tree.Ladder 2 1 (items target hs) (leveled target hs) := by
  have hr : rungs target hs = Tree.raised 1 (leveled target hs) := by
    rw [rungs, Tree.raised, leveled, List.map_map]
    rfl
  rw [items_eq_dashLines, hr]
  exact .of_dashLines one_le_leveled (plain_leveled ht hh)

theorem ofOutline_outline (ht : '\n' ∉ target) (hh : ∀ h ∈ hs, '\n' ∉ h) :
    Tree.ofOutline (outline target hs) =
      Tree.outlined (Tree.least (leveled target hs)) (leveled target hs) := by
  by_cases hn : hs = []
  case pos =>
    subst hn
    have ho : outline target [] = [] := rfl
    have hr : Outline.read? [] = none := by decide
    rw [ho, Tree.ofOutline_eq, hr]
    rfl
  case neg =>
    rw [outline_eq ht hh hn]
    exact Tree.ofOutline_ladder (by decide) (items_ladder ht hh).dedent (leveled_eq_nil_iff.not.mpr hn)

theorem carried_outline (ht : '\n' ∉ target) (hh : ∀ h ∈ hs, '\n' ∉ h) :
    Tree.carried [Tree.ofOutline (outline target hs)] = links target hs := by
  rw [ofOutline_outline ht hh,
    Tree.carried_outlined fun p hp => (plain_leveled ht hh p hp).nonempty, map_snd_leveled]

theorem one_le_level_of_accepts {h : Text} (hh : Heading.accepts h) : 1 ≤ Heading.level h := by
  have ⟨x, hx⟩ := List.head?_eq_some_iff.mp (head?_of_accepts hh)
  rw [Heading.level, hx, List.takeWhile_cons_of_pos (by decide), List.length_cons]
  exact Nat.succ_pos _

theorem levels_eq_map (hh : ∀ h ∈ hs, Heading.accepts h) : levels hs = hs.map Heading.level :=
  (map_entries (fun _ _ => rfl) hs).trans <| List.map_congr_left fun h hm =>
    Nat.max_eq_left (one_le_level_of_accepts (hh h hm))

theorem descends_outline (ht : '\n' ∉ target) (hh : ∀ h ∈ hs, Heading.accepts h) :
    Tree.Descends [Tree.ofOutline (outline target hs)] (hs.map Heading.level) ↔
      ¬Tree.Overhangs (0 :: hs.map Heading.level) := by
  have hf : ∀ h ∈ hs, '\n' ∉ h := fun h hm => lineFeed_not_mem_of_accepts (hh h hm)
  have h := Tree.descends_outlined (fun p hp => (plain_leveled ht hf p hp).nonempty) one_le_leveled
  rwa [← ofOutline_outline ht hf, map_fst_leveled, levels_eq_map hh] at h

end Contents

namespace Collection

-- The links of all headings, document by document.
def links (c : Collection) : Except Error (List Text) :=
  List.flatten <$> c.documents.mapM fun (name, text) =>
    Contents.links (fileOf name) <$> headings text

-- The headings of a document that can be cut into blocks.
def headingsOf (d : Text × Text) : List Text :=
  (headings d.2).toOption.getD []

-- The lines that a document takes in the outline of all documents.
def linesOf (d : Text × Text) : List Text :=
  if headingsOf d = [] then [[]] else Contents.items (fileOf d.1) (headingsOf d)

def leveledOf (d : Text × Text) : List (Nat × Text) :=
  Contents.leveled (fileOf d.1) (headingsOf d)

theorem headings_eq {d : Text × Text} (hp : ∃ hs, headings d.2 = .ok hs) :
    headings d.2 = .ok (headingsOf d) := by
  have ⟨hs, hx⟩ := hp
  rw [headingsOf, hx]
  rfl

theorem linesOf_ladder {d : Text × Text} (hp : ∃ hs, headings d.2 = .ok hs) (hf : '\n' ∉ d.1) :
    Tree.Ladder 2 1 (linesOf d) (leveledOf d) := by
  rw [linesOf, leveledOf]
  split
  case isTrue h  => rw [h]; exact .gap .nil
  case isFalse h =>
    exact Contents.items_ladder (lineFeed_not_mem_fileOf hf) fun h =>
      lineFeed_not_mem_heading (headings_eq hp)

theorem flatMap_linesOf (d : Text × Text) :
    (linesOf d).flatMap ('\n' :: ·) =
      '\n' :: joinLines (Contents.items (fileOf d.1) (headingsOf d)) := by
  rw [linesOf]
  split
  case isTrue h  => rw [h]; rfl
  case isFalse h =>
    have ⟨e, es, he⟩ := Contents.exists_entries h
    apply flatMap_lineFeed
    rw [Contents.items, he]
    exact List.cons_ne_nil _ _

theorem joinLines_eq_tail (ls : List Text) : joinLines ls = (ls.flatMap ('\n' :: ·)).tail := by
  cases ls
  case nil       => rfl
  case cons l ls => rw [joinLines_cons_eq, List.flatMap_cons, List.cons_append, List.tail_cons]

-- The outline of all documents has the lines of each of them. A document without headings leaves an
-- empty one.
theorem joinLines_outlines (ds : List (Text × Text)) :
    joinLines (ds.map fun d => joinLines (Contents.items (fileOf d.1) (headingsOf d))) =
      joinLines (ds.flatMap linesOf) := by
  rw [joinLines_eq_tail, joinLines_eq_tail, List.flatMap_map, List.flatMap_assoc]
  congr 2
  funext d
  exact (flatMap_linesOf d).symm

theorem flatMap_linesOf_ladder (hp : ∀ d ∈ ds, ∃ hs, headings d.2 = .ok hs)
    (hf : ∀ d ∈ ds, '\n' ∉ d.1) : Tree.Ladder 2 1 (ds.flatMap linesOf) (ds.flatMap leveledOf) := by
  induction ds
  case nil => exact .nil
  case cons d ds ih =>
    have ⟨hp, hps⟩ := List.forall_mem_cons.mp hp
    have ⟨hf, hfs⟩ := List.forall_mem_cons.mp hf
    exact (linesOf_ladder hp hf).append (ih hps hfs)

theorem plain_flatMap_leveledOf (hp : ∀ d ∈ ds, ∃ hs, headings d.2 = .ok hs)
    (hf : ∀ d ∈ ds, '\n' ∉ d.1) : ∀ p ∈ ds.flatMap leveledOf, Plain p.2 := by
  intro p hm
  have ⟨d, hd, hm⟩ := List.mem_flatMap.mp hm
  exact Contents.plain_leveled (lineFeed_not_mem_fileOf (hf d hd))
    (fun h => lineFeed_not_mem_heading (headings_eq (hp d hd))) p hm

theorem links_eq (hp : ∀ d ∈ c.documents, ∃ hs, headings d.2 = .ok hs) :
    c.links = .ok ((c.documents.flatMap leveledOf).map (·.2)) := by
  have h : ∀ d ∈ c.documents, Contents.links (fileOf d.1) <$> headings d.2 =
      .ok (Contents.links (fileOf d.1) (headingsOf d)) := by
    intro d hd
    rw [headings_eq (hp d hd)]
    rfl
  rw [links, mapM_eq_pure h, List.map_flatMap, List.flatMap_def]
  simp only [leveledOf, Contents.map_snd_leveled]
  rfl

theorem contents_eq (hp : ∀ d ∈ c.documents, ∃ hs, headings d.2 = .ok hs) (step : Nat) :
    c.contents step = .ok (outlineHtml step (joinLines (c.documents.flatMap linesOf))) := by
  have h : ∀ d ∈ c.documents, outlineOf d.1 d.2 =
      .ok (joinLines (Contents.items (fileOf d.1) (headingsOf d))) := fun d hd =>
    outlineOf_eq (headings_eq (hp d hd)) d.1
  rw [contents, mapM_eq_pure h, ← joinLines_outlines]
  rfl

theorem flatMap_leveledOf_eq_nil_iff (hp : ∀ d ∈ ds, ∃ hs, headings d.2 = .ok hs) :
    ds.flatMap leveledOf = [] ↔ ∀ d ∈ ds, headings d.2 = .ok [] := by
  rw [List.flatMap_eq_nil_iff]
  apply forall₂_congr
  intro d hd
  rw [leveledOf, Contents.leveled_eq_nil_iff, headings_eq (hp d hd), Except.ok.injEq]

theorem toHtml_outlined_ne_nil {ps : List (Nat × Text)} (hn : ps ≠ []) (margin step : Nat) :
    (Tree.outlined margin ps).toHtml step ≠ [] := by
  have ⟨p, ps, hp⟩ := List.exists_cons_of_ne_nil hn
  rw [hp, Tree.outlined, Tree.parts_margin]
  exact Tree.toHtml_ne_nil step [] _ _

theorem outlineHtml_ladder {margin : Nat} {ls : List Text} {ps : List (Nat × Text)}
    (h : Tree.Ladder 2 margin ls ps) (step : Nat) :
    outlineHtml step (joinLines ls) =
      if ps = [] then [] else (Tree.outlined margin ps).toHtml step := by
  by_cases hn : ps = []
  case pos => rw [outlineHtml, if_pos (h.blank_iff.mpr hn), if_pos hn]
  case neg =>
    rw [outlineHtml, if_neg (h.blank_iff.not.mpr hn), if_neg hn]
    rw [Tree.ofOutline_ladder (by decide) h hn]

theorem exists_contents (hp : ∀ d ∈ c.documents, ∃ hs, headings d.2 = .ok hs)
    (hf : ∀ d ∈ c.documents, '\n' ∉ d.1) (step : Nat) :
    ∃ ls x, c.links = .ok ls ∧ c.contents step = .ok x ∧
      (x = [] ↔ ∀ d ∈ c.documents, headings d.2 = .ok []) ∧
      (x ≠ [] → ∃ t : Tree, x = t.toHtml step ∧ Tree.carried [t] = ls) := by
  generalize hps : c.documents.flatMap leveledOf = ps
  have hl : c.links = .ok (ps.map (·.2)) := hps ▸ links_eq hp
  have hn : ps = [] ↔ ∀ d ∈ c.documents, headings d.2 = .ok [] :=
    hps ▸ flatMap_leveledOf_eq_nil_iff hp
  have hx : c.contents step =
      .ok (if ps = [] then [] else (Tree.outlined 1 ps).toHtml step) := by
    rw [contents_eq hp, outlineHtml_ladder (flatMap_linesOf_ladder hp hf), hps]
  have ht : Tree.carried [Tree.outlined 1 ps] = ps.map (·.2) :=
    Tree.carried_outlined (fun p h => (plain_flatMap_leveledOf hp hf p (hps ▸ h)).nonempty) 1
  by_cases he : ps = []
  case pos =>
    rw [if_pos he] at hx
    exact ⟨_, _, hl, hx, iff_of_true rfl (hn.mp he), absurd rfl⟩
  case neg =>
    have hne := toHtml_outlined_ne_nil he 1 step
    rw [if_neg he] at hx
    exact ⟨_, _, hl, hx, iff_of_false hne (hn.not.mp he), fun _ => ⟨_, rfl, ht⟩⟩

end Collection

-- Headings hang below headings of higher levels alone exactly if no level overhangs: if, below some
-- heading or at the top, deeper headings precede one of a level between, then the first of them has
-- to be above all others.
theorem Contents.descends_iff_not_overhangs (ht : '\n' ∉ target)
    (hh : ∀ h ∈ hs, Heading.accepts h) :
    Tree.carried [Tree.ofOutline (outline target hs)] = links target hs ∧
      ((∀ i j, Tree.Above [Tree.ofOutline (outline target hs)] i j →
          ∀ k ∈ (hs.map Heading.level)[i]?, ∀ l ∈ (hs.map Heading.level)[j]?, k < l) ↔
        ¬Tree.Overhangs (0 :: hs.map Heading.level)) :=
  ⟨carried_outline ht fun h hm => lineFeed_not_mem_of_accepts (hh h hm), descends_outline ht hh⟩

theorem Contents.descends_iff_not_overhangs_skipping :
    let hs : List Text := ["## A", "#### B", "# C"]
    '\n' ∉ "d.md".toList ∧ (∀ h ∈ hs, Heading.accepts h) ∧
      Tree.carried [Tree.ofOutline (outline "d.md" hs)] = links "d.md" hs ∧
      ((∀ i j, Tree.Above [Tree.ofOutline (outline "d.md" hs)] i j →
          ∀ k ∈ (hs.map Heading.level)[i]?, ∀ l ∈ (hs.map Heading.level)[j]?, k < l) ↔
        ¬Tree.Overhangs (0 :: hs.map Heading.level)) := by
  intro hs
  have ht : '\n' ∉ "d.md".toList := by decide
  have hh : ∀ h ∈ hs, Heading.accepts h := by decide +kernel
  exact ⟨ht, hh, descends_iff_not_overhangs ht hh⟩

-- Of two headings at the third level, the second one hangs below the first one if a heading at the
-- second level follows.
theorem Contents.not_descends_outline :
    let hs : List Text := ["# X", "### A", "### B", "## C"]
    (∀ h ∈ hs, Heading.accepts h) ∧ hs.map Heading.level = [1, 3, 3, 2] ∧
      ¬∀ i j, Tree.Above [Tree.ofOutline (outline [] hs)] i j →
        ∀ k ∈ (hs.map Heading.level)[i]?, ∀ l ∈ (hs.map Heading.level)[j]?, k < l := by
  intro hs
  have hh : ∀ h ∈ hs, Heading.accepts h := by decide +kernel
  have hl : hs.map Heading.level = [1, 3, 3, 2] := by decide +kernel
  have ho : Tree.Overhangs (0 :: hs.map Heading.level) :=
    ⟨1, [3, 3, 2], hl ▸ ⟨[0], rfl⟩, 3, [3], 2, List.prefix_rfl, by decide, by decide, by decide⟩
  exact ⟨hh, hl, fun h => (descends_outline List.not_mem_nil hh).mp h ho⟩

-- Where headings with the same parent have the same level, the tree is the outline of the headings:
-- each link once and in order, below the link of its parent and below nothing else, however far the
-- level jumps from the one to the other.
theorem Contents.ofOutline_outline_of_aligned (hn : hs ≠ []) (ht : '\n' ∉ target)
    (hh : ∀ h ∈ hs, '\n' ∉ h) (ha : Tree.Aligned (levels hs)) :
    Tree.ofOutline (outline target hs) = .node [] (Tree.placed (leveled target hs) none) ∧
      Tree.namesAll (Tree.placed (leveled target hs) none) = links target hs ∧
      (leveled target hs).map (·.1) = levels hs ∧
      ((∀ h ∈ hs, Heading.accepts h) → levels hs = hs.map Heading.level) := by
  have hl : leveled target hs ≠ [] := leveled_eq_nil_iff.not.mpr hn
  have hp : Tree.namesAll (Tree.placed (leveled target hs) none) = links target hs := by
    rw [Tree.namesAll_placed, map_snd_leveled]
  rw [← map_fst_leveled target hs] at ha
  rw [ofOutline_outline ht hh, Tree.outlined_of_aligned hl ha]
  exact ⟨rfl, hp, map_fst_leveled target hs, levels_eq_map⟩

theorem Contents.ofOutline_outline_of_aligned_jumps :
    let hs : List Text := ["## A", "##### B", "##### C", "## D", "### E"]
    hs ≠ [] ∧ '\n' ∉ "d.md".toList ∧ (∀ h ∈ hs, '\n' ∉ h) ∧ Tree.Aligned (levels hs) ∧
      (∀ h ∈ hs, Heading.accepts h) ∧
      Tree.ofOutline (outline "d.md" hs) = .node [] (Tree.placed (leveled "d.md" hs) none) ∧
      Tree.namesAll (Tree.placed (leveled "d.md" hs) none) = links "d.md" hs ∧
      (leveled "d.md" hs).map (·.1) = levels hs ∧ levels hs = hs.map Heading.level := by
  intro hs
  have ht : '\n' ∉ "d.md".toList := by decide
  have hh : ∀ h ∈ hs, '\n' ∉ h := by decide
  have ha : Tree.Aligned (levels hs) := by decide +kernel
  have hd : ∀ h ∈ hs, Heading.accepts h := by decide +kernel
  have ⟨ho, hn, hl, hm⟩ := ofOutline_outline_of_aligned (List.cons_ne_nil _ _) ht hh ha
  exact ⟨List.cons_ne_nil _ _, ht, hh, ha, hd, ho, hn, hl, hm hd⟩

-- The contents of documents are empty exactly if none of them has a heading. Otherwise they are the
-- HTML of a tree whose nodes carry the links of all headings, each once and in order. The same holds
-- for the headings of one document.
theorem Collection.contents_carried :
    (∀ c : Collection, (∀ d ∈ c.documents, ∃ hs, headings d.2 = .ok hs) →
      (∀ d ∈ c.documents, '\n' ∉ d.1) → ∀ step, ∃ ls x,
        c.links = .ok ls ∧ c.contents step = .ok x ∧
        (x = [] ↔ ∀ d ∈ c.documents, headings d.2 = .ok []) ∧
        (x ≠ [] → ∃ t : Tree, x = t.toHtml step ∧ Tree.carried [t] = ls)) ∧
    ∀ target hs, '\n' ∉ target → (∀ h ∈ hs, '\n' ∉ h) →
      Tree.carried [Tree.ofOutline (Contents.outline target hs)] = Contents.links target hs ∧
      (Contents.links target hs).length = hs.length := by
  constructor
  case left => exact fun c hp hf step => exists_contents hp hf step
  case right =>
    intro target hs ht hh
    exact ⟨Contents.carried_outline ht hh, Contents.length_links target hs⟩

theorem Collection.contents_carried_notes :
    let c : Collection := ⟨[("a", "### A\n\n# B"), ("b", "-"), ("c", "## C\n\n#### C")]⟩
    let hs : List Text := ["### A", "# B"]
    (∀ d ∈ c.documents, ∃ hs, headings d.2 = .ok hs) ∧ (∀ d ∈ c.documents, '\n' ∉ d.1) ∧
      (∃ ls x, c.links = .ok ls ∧ c.contents 4 = .ok x ∧
        (x = [] ↔ ∀ d ∈ c.documents, headings d.2 = .ok []) ∧
        (x ≠ [] → ∃ t : Tree, x = t.toHtml 4 ∧ Tree.carried [t] = ls)) ∧
      '\n' ∉ "a.md".toList ∧ (∀ h ∈ hs, '\n' ∉ h) ∧
      Tree.carried [Tree.ofOutline (Contents.outline "a.md" hs)] = Contents.links "a.md" hs ∧
      (Contents.links "a.md" hs).length = hs.length := by
  intro c hs
  have ha : headings "### A\n\n# B" = .ok ["### A", "# B"] := by decide +kernel
  have hb : headings "-" = .ok [] := by decide +kernel
  have hc : headings "## C\n\n#### C" = .ok ["## C", "#### C"] := by decide +kernel
  have hp : ∀ d ∈ c.documents, ∃ hs, headings d.2 = .ok hs :=
    List.forall_mem_cons.mpr ⟨⟨_, ha⟩, List.forall_mem_cons.mpr ⟨⟨_, hb⟩,
      List.forall_mem_singleton.mpr ⟨_, hc⟩⟩⟩
  have hf : ∀ d ∈ c.documents, '\n' ∉ d.1 := by decide
  have ht : '\n' ∉ "a.md".toList := by decide
  have hh : ∀ h ∈ hs, '\n' ∉ h := by decide
  exact ⟨hp, hf, contents_carried.left c hp hf 4, ht, hh, contents_carried.right _ hs ht hh⟩

end DocPress.Markdown
