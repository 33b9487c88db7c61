import DocPress.Markdown.Collection
import DocPress.Proofs.Lists
import DocPress.Proofs.Tree.DashLines
import DocPress.Proofs.Tree.Html

-- What the contents of several documents hold for one of them, against the table of contents that
-- the document has alone. The latter is moved to the margin before it is read.

namespace DocPress.Markdown

open Text

variable {a h name target text x : Text} {hs seen : List Text} {c : Collection}

-- Headings and what is made of them stand on one line.

namespace Anchor

theorem lineFeed_not_mem_base (h : Text) : '\n' ∉ base h := by
  intro hc
  cases of_mem_join hc
  case inl hc => exact absurd hc (by decide)
  case inr hc =>
    have ⟨w, hw, hc⟩ := hc
    exact Bool.noConfusion (not_isBlank_of_mem_words hw _ hc)

theorem lineFeed_not_mem_numbered (hx : '\n' ∉ x) (k : Nat) : '\n' ∉ numbered x k := by
  cases k
  case zero => exact hx
  case succ k =>
    exact List.not_mem_append (List.not_mem_append hx (by decide)) (not_mem_decimal rfl)

theorem lineFeed_not_mem_following (ha : a ∈ following seen hs) : '\n' ∉ a := by
  induction hs generalizing seen
  case nil => contradiction
  case cons h hs ih =>
    cases List.mem_cons.mp ha
    case inl he => exact he ▸ lineFeed_not_mem_numbered (lineFeed_not_mem_base h) _
    case inr ha => exact ih ha

end Anchor

theorem accepts_of_kindOf (h : Block.kindOf x = .heading) : Heading.accepts x := by
  by_contra hx
  simp only [Block.kindOf, if_neg hx] at h
  grind

theorem lineFeed_not_mem_of_accepts (h : Heading.accepts x) : '\n' ∉ x := by
  simp only [Heading.accepts, Bool.and_eq_true] at h
  simpa using h.left.left

theorem head?_of_accepts (h : Heading.accepts x) : x.head? = some '#' := by
  simp only [Heading.accepts, Bool.and_eq_true, decide_eq_true_eq] at h
  exact h.left.right

theorem lineFeed_not_mem_heading (hx : headings x = .ok hs) (hh : h ∈ hs) : '\n' ∉ h := by
  rw [headings, blocks] at hx
  cases hp : paragraphs x
  case error e => rw [hp] at hx; contradiction
  case ok ps =>
    rw [hp] at hx
    cases hx
    have ⟨b, hb, he⟩ := List.mem_map.mp hh
    have ⟨hb, hk⟩ := List.mem_filter.mp hb
    have ⟨p, _, hp⟩ := List.mem_map.mp hb
    subst hp he
    exact lineFeed_not_mem_of_accepts (accepts_of_kindOf (of_decide_eq_true hk))

namespace Contents

theorem exists_of_mem_entries {e : Entry} (he : e ∈ entries hs) :
    ∃ h ∈ hs, ∃ a ∈ Anchor.ofHeadings (hs.map Heading.content),
      e = ⟨max (Heading.level h) 1, Heading.content h, a⟩ := by
  rw [entries, ← List.map_uncurry_zip_eq_zipWith] at he
  have ⟨⟨h, a⟩, hz, he⟩ := List.mem_map.mp he
  have ⟨hh, ha⟩ := List.of_mem_zip hz
  exact ⟨h, hh, a, ha, he.symm⟩

theorem one_le_level {e : Entry} (he : e ∈ entries hs) : 1 ≤ e.level := by
  have ⟨h, _, a, _, he⟩ := exists_of_mem_entries he
  exact he ▸ Nat.le_max_right _ 1

theorem link_eq (target : Text) (e : Entry) :
    e.link target = ['<', 'a', ' ', 'h', 'r', 'e', 'f', '=', '"'] ++ e.href target ++ ['"', '>'] ++
      e.text ++ ['<', '/', 'a', '>'] := by
  have h₁ : "<a href=\"".toList = ['<', 'a', ' ', 'h', 'r', 'e', 'f', '=', '"'] := by decide
  have h₂ : "\">".toList = ['"', '>'] := by decide
  have h₃ : "</a>".toList = ['<', '/', 'a', '>'] := by decide
  unfold Entry.link
  rw [h₁, h₂, h₃]

theorem plain_link {e : Entry} (ht : '\n' ∉ target) (hh : ∀ h ∈ hs, '\n' ∉ h)
    (he : e ∈ entries hs) : Plain (e.link target) := by
  have ⟨h, hm, a, ha, he⟩ := exists_of_mem_entries he
  have hc : '\n' ∉ e.text := he ▸ fun hc => hh h hm ((List.dropWhile_suffix _).mem hc)
  have ha : '\n' ∉ a := Anchor.lineFeed_not_mem_following ha
  have hr : '\n' ∉ e.href target := by
    rw [Entry.href, he]
    exact List.not_mem_append (List.not_mem_append ht (by decide)) ha
  rw [link_eq]
  constructor
  case toTidy =>
    constructor
    case nonempty => simp
    case oneLine  => simp [hr, hc]
    case last =>
      rw [List.getLast?_append_of_ne_nil _ (by simp)]
      rintro c ⟨⟩
      decide
  case head   => simp [isBlank]
  case noItem => rfl

-- The items of a table of contents, with the depths they stand at.
def rungs (target : Text) (hs : List Text) : List (Nat × Text) :=
  (entries hs).map fun e => (e.level - 1, e.link target)

theorem items_eq_dashLines (target : Text) (hs : List Text) :
    items target hs = Tree.dashLines 2 (rungs target hs) := by
  rw [Tree.dashLines, rungs, List.map_map]
  rfl

theorem plain_rungs (ht : '\n' ∉ target) (hh : ∀ h ∈ hs, '\n' ∉ h) :
    ∀ p ∈ rungs target hs, Plain p.2 := by
  intro p hp
  have ⟨e, he, hp⟩ := List.mem_map.mp hp
  exact hp ▸ plain_link ht hh he

theorem exists_entries (hn : hs ≠ []) : ∃ e es, entries hs = e :: es := by
  cases hs
  case nil  => contradiction
  case cons => exact ⟨_, _, rfl⟩

theorem outline_eq (ht : '\n' ∉ target) (hh : ∀ h ∈ hs, '\n' ∉ h) (hn : hs ≠ []) :
    outline target hs = joinLines (dedentLines (items target hs)) := by
  have hf : ∀ l ∈ items target hs, '\n' ∉ l := by
    rw [items_eq_dashLines]
    exact fun l hl => (Tree.tidy_dashLines 2 (plain_rungs ht hh) l hl).oneLine
  have he : items target hs ≠ [] := by
    have ⟨e, es, he⟩ := exists_entries hn
    rw [items, he]
    exact List.cons_ne_nil _ _
  rw [outline, dedent, splitLines_joinLines hf he]

-- The levels of headings as they count for the nesting.
def levels (hs : List Text) : List Nat :=
  (entries hs).map (·.level)

end Contents

-- One of the levels is the top level, or the first one is above all others.
def Rooted (levels : List Nat) : Prop :=
  1 ∈ levels ∨ ∀ l ∈ levels.head?, ∀ m ∈ levels.tail, l < m

instance (levels : List Nat) : Decidable (Rooted levels) :=
  inferInstanceAs (Decidable (_ ∨ _))

namespace Contents

theorem exists_rungs_iff (target : Text) (hs : List Text) :
    (∃ p ∈ rungs target hs, p.1 = 0) ↔ 1 ∈ levels hs := by
  constructor
  case mp =>
    rintro ⟨p, hp, h₀⟩
    have ⟨e, he, hp⟩ := List.mem_map.mp hp
    have h₁ := one_le_level he
    subst hp
    exact List.mem_map.mpr ⟨e, he, by omega⟩
  case mpr =>
    intro h
    have ⟨e, he, h₁⟩ := List.mem_map.mp h
    exact ⟨_, List.mem_map_of_mem he, Nat.sub_eq_zero_of_le (Nat.le_of_eq h₁)⟩

-- Reading the items as they stand gives the tree that is read from the margin under this condition
-- and under no other.
theorem ofOutline_items_iff (ht : '\n' ∉ target) (hh : ∀ h ∈ hs, '\n' ∉ h) (hn : hs ≠ []) :
    Tree.ofOutline (joinLines (items target hs)) = Tree.ofOutline (outline target hs) ↔
      Rooted (levels hs) := by
  have ⟨e, es, he⟩ := exists_entries hn
  have hl : ∀ f ∈ e :: es, 1 ≤ f.level := he ▸ fun f => one_le_level
  have hr : rungs target hs = (e.level - 1, e.link target) ::
      es.map fun e => (e.level - 1, e.link target) := congrArg (List.map _) he
  have hm : (∀ p ∈ es.map fun e => (e.level - 1, e.link target), e.level - 1 < p.1) ↔
      ∀ l ∈ (levels hs).head?, ∀ m ∈ (levels hs).tail, l < m := by
    simp only [levels, he, List.map_cons, List.head?_cons, List.tail_cons, List.forall_mem_map,
      Option.mem_some_iff, forall_eq']
    have ⟨h₁, hl⟩ := List.forall_mem_cons.mp hl
    exact forall₂_congr fun f hf => have := hl f hf; by omega
  have hi := Tree.ofOutline_dedentLines_iff (by decide : 1 ≤ 2) (hr ▸ plain_rungs ht hh)
  rw [← hr, ← items_eq_dashLines, exists_rungs_iff, hm, eq_comm] at hi
  rw [outline_eq ht hh hn, hi, Rooted]

end Contents

namespace Collection

def title (level : Nat) (name : Text) : Text :=
  List.replicate (max level 1) '#' ++ " " ++ name

-- The table of contents of a document alone, with the links leading to its file.
def ownTree (name : Text) (hs : List Text) : Tree :=
  .ofOutline (Contents.outline (fileOf name) hs)

-- The tree that is read from the same links as they stand.
def sharedTree (name : Text) (hs : List Text) : Tree :=
  .ofOutline (joinLines (Contents.items (fileOf name) hs))

-- A section for a document shows the tree of its headings, which the contents of this document
-- alone show as well. It is the tree that the document has by itself if the levels allow for it.
def Shows (level step : Nat) (d : Text × Text) (s : Text) : Prop :=
  ∃ hs, headings d.2 = .ok hs ∧ (hs = [] → s = title level d.1) ∧
    (hs ≠ [] → '\n' ∉ d.1 →
      s = joinBlocks [title level d.1, (sharedTree d.1 hs).toHtml step] ∧
        contents ⟨[d]⟩ step = .ok ((sharedTree d.1 hs).toHtml step) ∧
        (sharedTree d.1 hs = ownTree d.1 hs ↔ Rooted (Contents.levels hs)))

theorem outlineOf_eq (hx : headings text = .ok hs) (name : Text) :
    outlineOf name text = .ok (joinLines (Contents.items (fileOf name) hs)) := by
  rw [outlineOf, hx]
  rfl

theorem lineFeed_not_mem_fileOf (hf : '\n' ∉ name) : '\n' ∉ fileOf name :=
  List.not_mem_append hf (by decide)

theorem toHtml_sharedTree_ne_nil (hf : '\n' ∉ name) (hh : ∀ h ∈ hs, '\n' ∉ h) (hn : hs ≠ [])
    (step : Nat) : (sharedTree name hs).toHtml step ≠ [] := by
  have ⟨e, es, he⟩ := Contents.exists_entries hn
  have hp := Contents.plain_rungs (lineFeed_not_mem_fileOf hf) hh
  have hr : Contents.rungs (fileOf name) hs = _ :: _ := congrArg (List.map _) he
  rw [hr] at hp
  have ⟨t, ts, hi⟩ := Tree.exists_ofOutline_eq_node (by decide : 1 ≤ 2) hp
  rw [sharedTree, Contents.items_eq_dashLines, hr, hi]
  exact Tree.toHtml_ne_nil step [] t ts

theorem outlineHtml_eq (name : Text) (hn : hs ≠ []) (step : Nat) :
    outlineHtml step (joinLines (Contents.items (fileOf name) hs)) =
      (sharedTree name hs).toHtml step := by
  have ⟨e, es, he⟩ := Contents.exists_entries hn
  have h : blank (e.item (fileOf name)) = false := Tree.not_blank_dash 2 _ _
  have hb : blank (joinLines (Contents.items (fileOf name) hs)) = false := by
    rw [blank_joinLines, Contents.items, he, List.map_cons, List.all_cons, h, Bool.false_and]
  rw [outlineHtml, hb]
  rfl

theorem section?_eq (hx : headings text = .ok hs) (name : Text) (level step : Nat) :
    let toc := outlineHtml step (joinLines (Contents.items (fileOf name) hs))
    Collection.section? level step name text =
      .ok (if toc.isEmpty then title level name else joinBlocks [title level name, toc]) := by
  rw [section?, outlineOf_eq hx]
  rfl

theorem section?_shows (hx : headings text = .ok hs) (name : Text) (level step : Nat) :
    ∃ s, section? level step name text = .ok s ∧ Shows level step (name, text) s := by
  refine ⟨_, section?_eq hx name level step, hs, hx, ?_, fun hn hf => ?_⟩
  · rintro rfl
    rfl
  · have hh : ∀ h ∈ hs, '\n' ∉ h := fun h => lineFeed_not_mem_heading hx
    have ht := outlineHtml_eq name hn step
    have hne := toHtml_sharedTree_ne_nil hf hh hn step
    refine ⟨?_, ?_, Contents.ofOutline_items_iff (lineFeed_not_mem_fileOf hf) hh hn⟩
    · rw [ht, if_neg (by simpa using hne)]
    · simp only [contents, List.mapM_cons, List.mapM_nil, outlineOf_eq hx]
      show Except.ok (outlineHtml step (joinLines [_])) = _
      rw [joinLines_singleton, ← ht]

theorem mapM_section?_shows {ds : List (Text × Text)}
    (hp : ∀ d ∈ ds, ∃ hs, headings d.2 = .ok hs) (level step : Nat) :
    ∃ ss, ds.mapM (fun (name, text) => section? level step name text) = .ok ss ∧
      List.Forall₂ (Shows level step) ds ss := by
  refine exists_mapM fun d hd => ?_
  have ⟨_, hx⟩ := hp d hd
  exact section?_shows hx d.1 level step

theorem sectionedContents_shows (hp : ∀ d ∈ c.documents, ∃ hs, headings d.2 = .ok hs)
    (level step : Nat) :
    ∃ ss, c.sectionedContents level step = .ok (joinBlocks ss) ∧
      List.Forall₂ (Shows level step) c.documents ss := by
  have ⟨ss, hs, hd⟩ := mapM_section?_shows hp level step
  refine ⟨ss, ?_, hd⟩
  rw [sectionedContents, hs]
  rfl

theorem sectionedContents_shows_three :
    let c : Collection := ⟨[("a", "# A\n\n## B"), ("b", "## A\n\n## B"), ("c", "C")]⟩
    (∀ d ∈ c.documents, ∃ hs, headings d.2 = .ok hs) ∧
      Rooted (Contents.levels ["# A", "## B"]) ∧ ¬Rooted (Contents.levels ["## A", "## B"]) ∧
      ∃ ss, c.sectionedContents 2 4 = .ok (joinBlocks ss) ∧
        List.Forall₂ (Shows 2 4) c.documents ss := by
  intro c
  have ha : headings "# A\n\n## B" = .ok ["# A", "## B"] := by decide +kernel
  have hb : headings "## A\n\n## B" = .ok ["## A", "## B"] := by decide +kernel
  have hc : headings "C" = .ok [] := by decide +kernel
  have hp : ∀ d ∈ c.documents, ∃ hs, headings d.2 = .ok hs :=
    List.forall_mem_cons.mpr ⟨⟨_, ha⟩, List.forall_mem_cons.mpr ⟨⟨_, hb⟩,
      List.forall_mem_singleton.mpr ⟨_, hc⟩⟩⟩
  exact ⟨hp, by decide +kernel, by decide +kernel, sectionedContents_shows hp 2 4⟩

-- Two headings of the second level are nested in the contents, where the document alone has them
-- next to each other.
theorem contents_ne_ownTree :
    let c : Collection := ⟨[("d", "## A\n\n## B")]⟩
    let own := (ownTree "d" ["## A", "## B"]).toHtml 4
    headings "## A\n\n## B" = .ok ["## A", "## B"] ∧ c.contents 4 ≠ .ok own ∧
      c.sectionedContents 1 4 ≠ .ok (joinBlocks [title 1 "d", own]) := by
  decide +kernel

end Collection
end DocPress.Markdown
