import DocPress.Proofs.Lists
import DocPress.Proofs.Markdown.Documents
import DocPress.Proofs.Markdown.Listing
import DocPress.Proofs.Tree.ItemLines

-- The contents of documents line by line. There is a line for every heading, which opens an item
-- with a link to it, whether the documents share one list or have sections of their own.

namespace DocPress.Markdown

open Text Tree

variable {l x : Text} {hs ls : List Text} {d : Text × Text} {ds : List (Text × Text)}
  {c : Collection}

-- The line opens an item with a link that has the text of a heading.
def Names (heading line : Text) : Prop :=
  ∃ target, ∃ e : Contents.Entry, e.text = Heading.content heading ∧ Opens (e.link target) line

-- A text has an item of its own for each of the headings.
def ListsAll (x : Text) (hs : List Text) : Prop :=
  ∃ ls, ls.Subperm (itemLines x) ∧ List.Forall₂ Names hs ls

theorem quote_mem_link (target : Text) (e : Contents.Entry) : '"' ∈ e.link target := by
  rw [Contents.link_eq]
  simp

theorem quote_mem_of_names (h : List.Forall₂ Names hs ls) : ∀ l ∈ ls, '"' ∈ l := by
  induction h
  case nil => exact List.forall_mem_nil _
  case cons h _ ih =>
    have ⟨target, e, _, ho⟩ := h
    exact List.forall_mem_cons.mpr ⟨ho.quote_iff.mpr (quote_mem_link target e), ih⟩

theorem ListsAll.length_le (h : ListsAll x hs) : hs.length ≤ (linkLines x).length := by
  have ⟨ls, hls, hn⟩ := h
  have hq : ls.filter ('"' ∈ ·) = ls :=
    List.filter_eq_self.mpr fun l hl => decide_eq_true (quote_mem_of_names hn l hl)
  have hf := hls.filter ('"' ∈ ·)
  rw [hq] at hf
  exact hn.length_eq ▸ hf.length_le

theorem lists_of_names (h : List.Forall₂ Names hs (linkLines x)) : ListsAll x hs :=
  ⟨linkLines x, List.filter_sublist.subperm, h⟩

theorem ListsAll.perm {gs : List Text} (h : ListsAll x hs) (hp : gs.Perm hs) : ListsAll x gs :=
  have ⟨_, hls, hn⟩ := h
  have ⟨ks, hk, hkp⟩ := List.perm_comp_forall₂ hp hn
  ⟨ks, hkp.subperm.trans hls, hk⟩

namespace Collection

-- The links of a document, and the lines they stand on.

theorem forall₂_leveledOf (d : Text × Text) :
    List.Forall₂ (fun h p => ∃ e : Contents.Entry, e.text = Heading.content h ∧
      e.link (fileOf d.1) = p.2) (headingsOf d) (leveledOf d) := by
  have h : (Contents.entries (headingsOf d)).map (·.text) = (headingsOf d).map Heading.content :=
    Contents.map_entries (fun _ _ => rfl) _
  rw [← List.forall₂_eq_eq_eq, List.forall₂_map_left_iff, List.forall₂_map_right_iff] at h
  rw [leveledOf, Contents.leveled, List.forall₂_map_right_iff]
  exact h.flip.imp fun h e he => ⟨e, he, rfl⟩

theorem quote_mem_leveledOf (d : Text × Text) : ∀ p ∈ leveledOf d, '"' ∈ p.2 :=
  List.forall_mem_map.mpr fun e _ => quote_mem_link (fileOf d.1) e

theorem names_of_opens
    (h : List.Forall₂ Opens ((ds.flatMap leveledOf).map (·.2)) ls) :
    List.Forall₂ Names (ds.flatMap headingsOf) ls := by
  have hd : List.Forall₂ (fun h p => ∃ target, ∃ e : Contents.Entry,
      e.text = Heading.content h ∧ e.link target = p.2) (ds.flatMap headingsOf)
      (ds.flatMap leveledOf) := by
    refine List.rel_flatMap (List.forall₂_eq_eq_eq ▸ rfl) fun d _ he => ?_
    exact he ▸ (forall₂_leveledOf d).imp fun h p hp => ⟨_, hp⟩
  rw [List.forall₂_map_left_iff] at h
  refine (forall₂_comp hd h).imp fun a l hl => ?_
  have ⟨p, ⟨target, e, he, hp⟩, ho⟩ := hl
  exact ⟨target, e, he, hp ▸ ho⟩

theorem opens_outlineHtml (hd : ∀ d ∈ ds, ∃ hs, headings d.2 = .ok hs) (hf : ∀ d ∈ ds, '\n' ∉ d.1)
    (step : Nat) :
    List.Forall₂ Opens ((ds.flatMap leveledOf).map (·.2))
      (linkLines (outlineHtml step (joinLines (ds.flatMap linesOf)))) := by
  have hl := flatMap_linesOf_ladder hd hf
  have hq : ∀ p ∈ ds.flatMap leveledOf, '"' ∈ p.2 := fun p hp =>
    have ⟨d, _, hp⟩ := List.mem_flatMap.mp hp
    quote_mem_leveledOf d p hp
  generalize ds.flatMap leveledOf = ps at hl hq
  rw [outlineHtml_ladder hl]
  cases ps
  case nil => exact .nil
  case cons p ps =>
    have hc : carried [outlined 1 (p :: ps)] = (p :: ps).map (·.2) :=
      carried_outlined (fun p hp => List.ne_nil_of_mem (hq p hp)) 1
    rw [if_neg (List.cons_ne_nil p ps), ← hc]
    exact opens_linkLines step rfl (hc ▸ List.forall_mem_map.mpr hq)

theorem names_contents (hd : ∀ d ∈ c.documents, ∃ hs, headings d.2 = .ok hs) (step : Nat) :
    ∃ x, c.contents step = .ok x ∧ ((∀ d ∈ c.documents, '\n' ∉ d.1) →
      List.Forall₂ Names (c.documents.flatMap headingsOf) (linkLines x)) :=
  ⟨_, contents_eq hd step, fun hf => names_of_opens (opens_outlineHtml hd hf step)⟩

-- A section has the lines of its document only, for its title is no item.

theorem linkLines_title (hf : '\n' ∉ d.1) (level : Nat) : linkLines (title level d.1) = [] := by
  have ht : ∃ y, title level d.1 = '#' :: y := by
    rw [title, show max level 1 = max level 1 - 1 + 1 by omega, List.replicate_succ]
    exact ⟨_, rfl⟩
  have hn : '\n' ∉ title level d.1 := by simp [title, List.mem_replicate, hf]
  have ⟨y, hy⟩ := ht
  rw [linkLines, itemLines, splitLines_of_not_mem hn, hy]
  rfl

theorem names_section? (hd : ∃ hs, headings d.2 = .ok hs) (level step : Nat) :
    ∃ s, section? level step d.1 d.2 = .ok s ∧
      ('\n' ∉ d.1 → List.Forall₂ Names (headingsOf d) (linkLines s)) := by
  refine ⟨_, section?_eq (headings_eq hd) d.1 level step, fun hf => ?_⟩
  have hn := names_of_opens (opens_outlineHtml (List.forall_mem_singleton.mpr hd)
    (List.forall_mem_singleton.mpr hf) step)
  have hj := joinLines_outlines [d]
  rw [List.map_singleton, joinLines_singleton] at hj
  rw [List.flatMap_singleton, ← hj] at hn
  split
  case isTrue he =>
    have hl : linkLines [] = [] := rfl
    rwa [List.isEmpty_iff.mp he, hl, ← linkLines_title hf level] at hn
  case isFalse =>
    rwa [linkLines_joinBlocks, List.flatMap_cons, List.flatMap_singleton, linkLines_title hf,
      List.nil_append]

theorem names_sections (hd : ∀ d ∈ ds, ∃ hs, headings d.2 = .ok hs) (level step : Nat) :
    ∃ ss, ds.mapM (fun (name, text) => section? level step name text) = .ok ss ∧
      ((∀ d ∈ ds, '\n' ∉ d.1) →
        List.Forall₂ Names (ds.flatMap headingsOf) (ss.flatMap linkLines)) := by
  induction ds
  case nil => exact ⟨[], rfl, fun _ => .nil⟩
  case cons d ds ih =>
    have ⟨hd, hds⟩ := List.forall_mem_cons.mp hd
    have ⟨s, hs, hn⟩ := names_section? hd level step
    have ⟨ss, hss, hns⟩ := ih hds
    refine ⟨s :: ss, ?_, fun hf => ?_⟩
    · simp only [List.mapM_cons, hs, hss]
      rfl
    · have ⟨hf, hfs⟩ := List.forall_mem_cons.mp hf
      exact List.rel_append (hn hf) (hns hfs)

theorem names_sectionedContents (hd : ∀ d ∈ c.documents, ∃ hs, headings d.2 = .ok hs)
    (level step : Nat) :
    ∃ x, c.sectionedContents level step = .ok x ∧ ((∀ d ∈ c.documents, '\n' ∉ d.1) →
      List.Forall₂ Names (c.documents.flatMap headingsOf) (linkLines x)) := by
  have ⟨ss, hss, hn⟩ := names_sections hd level step
  refine ⟨joinBlocks ss, ?_, fun hf => (linkLines_joinBlocks ss).symm ▸ hn hf⟩
  rw [sectionedContents, hss]
  rfl

-- All headings are listed, those of documents that have been replaced among them, if and only if
-- none has been lost that way.
theorem lists_iff (hc : c.documents.Perm (kept ds))
    (hn : List.Forall₂ Names (c.documents.flatMap headingsOf) (linkLines x)) :
    ListsAll x (ds.flatMap headingsOf) ↔
      ds.Pairwise fun d e => d.1 = e.1 → headingsOf d = [] := by
  have hp := hc.flatMap_right headingsOf
  rw [← flatMap_kept_eq_iff]
  constructor
  case mp =>
    intro h
    have hl := h.length_le
    rw [← hn.length_eq, hp.length_eq] at hl
    exact (flatMap_kept_sublist headingsOf ds).eq_of_length_le hl
  case mpr =>
    intro h
    exact (lists_of_names hn).perm (h ▸ hp.symm)

end Collection

end DocPress.Markdown
