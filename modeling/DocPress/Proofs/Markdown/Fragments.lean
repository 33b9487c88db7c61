import DocPress.Proofs.Markdown.Runs

-- Pieces of HTML in a document. A paragraph that opens with one of the tags for them is taken over
-- into the page as it is, but for the carriage returns at the ends of its lines.

namespace DocPress.Markdown

open Text

variable {l x : Text} {ls xs : List Text}

theorem isFence_dropEnd (l : Text) : Fence.isFence (dropEnd ['\r'] l) = Fence.isFence l := by
  by_cases h : ['\r'] <:+ l
  case pos => rw [← isFence_concat, dropEnd_append h]
  case neg => rw [dropEnd, if_neg (by simpa using h)]

-- The text of a document of one block.
def blockText (x : Text) : Text :=
  trim (joinLines ((splitLines x).map (dropEnd ['\r'])))

theorem blocks_of_lines (h : ∀ l ∈ splitLines x, Fence.isFence l = false ∧ blank l = false) :
    blocks x = .ok [.ofText (blockText x)] := by
  have hd : ∀ l ∈ (splitLines x).map (dropEnd ['\r']), Fence.isFence l = false ∧ blank l = false :=
    List.forall_mem_map.mpr fun l hl => by
      rw [isFence_dropEnd, blank_dropEnd]
      exact h l hl
  have ⟨l, ls, hl⟩ := List.exists_cons_of_ne_nil (splitLines_ne_nil x)
  have hn : blockText x ≠ [] :=
    trim_joinLines_ne_nil ⟨dropEnd ['\r'] l, by simp [hl], (hd _ (by simp [hl])).right⟩
  have hp : paragraph ((splitLines x).map (dropEnd ['\r'])) = [blockText x] :=
    List.filter_cons_of_pos (decide_eq_true hn)
  rw [blocks, paragraphs, ← cut_lines, cut_of_lines hd, List.nil_append, hp]
  rfl

-- A first line without bars is no row of a table.
theorem not_accepts_of_lines (hl : lines x = l :: ls) (hb : '|' ∉ l) :
    PipeTable.accepts x = false := by
  by_contra ha
  simp only [PipeTable.accepts, Bool.not_eq_false, Bool.and_eq_true, List.contains_eq_mem,
    decide_eq_true_eq] at ha
  have ⟨⟨_, hx⟩, hm⟩ := ha
  have ⟨k, hk, hc⟩ := exists_mem_lines hx (by decide) (by decide)
  rw [hl] at hk hm
  split at hm
  case h_2 => contradiction
  case h_1 l m ms he =>
    cases he
    simp only [Bool.and_eq_true, List.all_eq_true, decide_eq_true_eq] at hm
    have h := hm.left k hk
    rw [PipeTable.bars, PipeTable.bars, List.count_eq_zero.mpr hb] at h
    exact List.count_eq_zero.mp h hc

theorem not_accepts_of_line (h : '\n' ∉ x) : PipeTable.accepts x = false := by
  simp [PipeTable.accepts, h]

theorem kindOf_tag (hx : x.head? = some '<') (hp : PipeTable.accepts x = false) :
    Block.kindOf x = .paragraph := by
  obtain ⟨r, rfl⟩ := List.head?_eq_some_iff.mp hx
  have hf : startsWith ('<' :: r) Fence.mark = false := rfl
  simp [Block.kindOf, Block.isRule, Heading.accepts, Block.isList, hp, Fence.accepts, hf]

-- A document of nothing but paragraphs has no table of contents.
theorem ofText_paragraphs (options : Options) (h : blocks x = .ok (xs.map Block.ofText))
    (hn : xs ≠ []) (hk : ∀ y ∈ xs, Block.kindOf y = .paragraph) :
    Page.ofText options x = .ok ⟨joinBlocks (xs.map Block.paragraphHtml), []⟩ := by
  have hf : (xs.map Block.ofText).filter (·.kind = .heading) = [] := by
    refine List.filter_eq_nil_iff.mpr (List.forall_mem_map.mpr fun y hy => ?_)
    simp [Block.ofText, hk y hy]
  have ht : (xs.map Block.ofText).map (·.toHtml options) = xs.map Block.paragraphHtml := by
    rw [List.map_map]
    refine List.map_congr_left fun y hy => ?_
    rw [Function.comp_apply, Block.toHtml, Block.ofText, hk y hy]
  rw [Page.ofText_eq options h (by simpa using hn), Page.ofBlocks, hf, ht]
  rfl

-- A piece of HTML as a block.
structure Fragment (x : Text) : Prop where
  kind     : Block.kindOf x = .paragraph
  verbatim : Block.isVerbatim x

theorem Fragment.paragraphHtml (h : Fragment x) : Block.paragraphHtml x = x := by
  rw [Block.paragraphHtml, if_pos h.verbatim]

theorem ofText_fragments (options : Options) (h : blocks x = .ok (xs.map Block.ofText))
    (hn : xs ≠ []) (hx : ∀ y ∈ xs, Fragment y) :
    Page.ofText options x = .ok ⟨joinBlocks xs, []⟩ := by
  have hm : xs.map Block.paragraphHtml = xs := by
    rw [List.map_congr_left fun y hy => (hx y hy).paragraphHtml, List.map_id']
  rw [ofText_paragraphs options h hn fun y hy => (hx y hy).kind, hm]

end DocPress.Markdown
