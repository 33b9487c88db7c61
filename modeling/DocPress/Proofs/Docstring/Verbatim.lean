import DocPress.Docstring.Printer
import DocPress.Markdown.Page
import DocPress.Proofs.Docstring.Variables
import DocPress.Proofs.Markdown.Emphasis
import DocPress.Proofs.Markdown.Fragments

-- Printed variables as a part of a document. What is printed of a variable is two pieces of HTML
-- that a page takes as they are, as long as there is a description that holds the second one
-- together.

namespace DocPress.Docstring

open Text Markdown

variable {l m x : Text} {v : Variable}

theorem lineFeed_not_mem_wrap (hl : '\n' ∉ l) (hm : '\n' ∉ m) (hx : '\n' ∉ x) :
    '\n' ∉ wrap l m x := by
  rw [wrap]
  split
  case isTrue  => exact List.not_mem_nil
  case isFalse => exact List.not_mem_append (List.not_mem_append hl hx) hm

theorem lineFeed_not_mem_definition {name type : Text} (hn : '\n' ∉ name) (ht : '\n' ∉ type) :
    '\n' ∉ Variable.definition name type := by
  have hn : '\n' ∉ Variable.nameHtml name := lineFeed_not_mem_wrap (by decide) (by decide) hn
  have ht : '\n' ∉ Variable.typeHtml type := lineFeed_not_mem_wrap (by decide) (by decide) ht
  rw [Variable.definition]
  split
  case isFalse => exact List.not_mem_append (List.not_mem_append hn (by decide)) ht
  case isTrue =>
    refine lineFeed_not_mem_replace (by decide) (lineFeed_not_mem_replace (by decide) ?_)
    split
    case isTrue  => exact ht
    case isFalse => exact hn

theorem emphasize_eq_nil_iff (x : Text) : emphasize x = [] ↔ x = [] := by
  have hn : ∀ y, gaps y = [some []] ↔ y = [] := by
    intro y
    constructor
    case mpr => rintro rfl; rfl
    case mp =>
      intro h
      have ⟨l, hl, hg⟩ := List.map_eq_singleton_iff.mp h
      rw [← joinLines_splitLines y, hl, joinLines_singleton]
      simp only [gap, Option.ite_none_right_eq_some, Option.some.injEq] at hg
      exact hg.right
  rw [← hn, gaps_emphasize, hn]

theorem tight_emphasize (h : Tight x) : Tight (emphasize x) :=
  have hg := gaps_emphasize x
  ⟨hg.symm ▸ h.inner, hg.symm ▸ h.last⟩

namespace Variable

-- The first piece stands on one line.

theorem definitionHtml_eq (name type : Text) :
    ∃ y, definitionHtml name type = '<' :: 'p' :: (y ++ ['>']) := by
  refine ⟨"><span class=\"vardef\">" ++ definition name type ++ "</span></p".toList, ?_⟩
  unfold definitionHtml
  simp

theorem lineFeed_not_mem_definitionHtml (hv : v.Clean) : '\n' ∉ definitionHtml v.name v.type :=
  have h := lineFeed_not_mem_definition hv.name hv.type
  List.not_mem_append (List.not_mem_append (by decide) h) (by decide)

theorem splitLines_definitionHtml (hv : v.Clean) :
    splitLines (definitionHtml v.name v.type) = [definitionHtml v.name v.type] :=
  splitLines_of_not_mem (lineFeed_not_mem_definitionHtml hv)

theorem fragment_definitionHtml (hv : v.Clean) : Fragment (definitionHtml v.name v.type) := by
  have hf := not_accepts_of_line (lineFeed_not_mem_definitionHtml hv)
  have ⟨y, hy⟩ := definitionHtml_eq v.name v.type
  rw [hy] at hf ⊢
  constructor
  case kind     => exact kindOf_tag rfl hf
  case verbatim => simp [Block.isVerbatim, startsWith]

theorem dropEnd_definitionHtml (name type : Text) :
    dropEnd ['\r'] (definitionHtml name type) = definitionHtml name type := by
  have ⟨y, hy⟩ := definitionHtml_eq name type
  rw [hy, dropEnd_eq_self_iff]
  rintro ⟨z, hz⟩
  have h := congrArg List.getLast? hz
  simp [List.getLast?_cons] at h

theorem blocks_definitionHtml (hv : v.Clean) :
    blocks (definitionHtml v.name v.type) = .ok [.ofText (definitionHtml v.name v.type)] := by
  have ⟨y, hy⟩ := definitionHtml_eq v.name v.type
  have hl : ∀ l ∈ splitLines (definitionHtml v.name v.type),
      Fence.isFence l = false ∧ blank l = false := by
    rw [splitLines_definitionHtml hv, hy]
    exact List.forall_mem_singleton.mpr ⟨rfl, rfl⟩
  have ht : blockText (definitionHtml v.name v.type) = definitionHtml v.name v.type := by
    rw [blockText, splitLines_definitionHtml hv, List.map_singleton, dropEnd_definitionHtml,
      joinLines_singleton, hy]
    exact trimBy_eq_self (by simp [isBlank]) (by simp [isBlank, List.getLast?_cons])
  rw [blocks_of_lines hl, ht]

-- The second piece has a line for every line of the description, where there is one.

def docStart : Text := "<dl><dd>"
def docStop : Text := "</dd></dl>"

def docLines (doc : Text) : List Text :=
  (lines (emphasize doc)).map ("  " ++ trimStart ·)

theorem docHtml_eq (x : Text) :
    docHtml x = docStart ++ '\n' :: (joinLines (docLines x) ++ '\n' :: docStop) := by
  have hstart : "<dl><dd>\n".toList = docStart ++ ['\n'] := by decide
  have hstop : "\n</dd></dl>".toList = '\n' :: docStop := by decide
  unfold docHtml docLines
  rw [hstart, hstop, List.append_assoc, List.append_assoc, List.singleton_append]

theorem docLines_spec (h : Tight x) :
    ∀ l ∈ docLines x, '\n' ∉ l ∧ Fence.isFence l = false ∧ blank l = false := by
  refine List.forall_mem_map.mpr fun l hl => ⟨?_, rfl, ?_⟩
  · have hf := lineFeed_not_mem_of_mem_lines hl
    exact List.not_mem_append (by decide) fun hc => hf ((List.dropWhile_sublist _).mem hc)
  · have hb := not_blank_of_tight (tight_emphasize h) l hl
    have ⟨s, hs, he⟩ := exists_trimStart l
    rw [← he, blank, List.all_append, ← blank, hs, Bool.true_and] at hb
    exact not_blank_append hb

theorem docLines_ne_nil (hx : x ≠ []) : docLines x ≠ [] := by
  rw [docLines, Ne, List.map_eq_nil_iff]
  exact lines_ne_nil ((emphasize_eq_nil_iff x).not.mpr hx)

theorem splitLines_docHtml (h : Tight x) (hx : x ≠ []) :
    splitLines (docHtml x) = docStart :: docLines x ++ [docStop] := by
  have hstart : '\n' ∉ docStart := by decide
  have hstop : '\n' ∉ docStop := by decide
  have hf : ∀ l ∈ docStart :: docLines x ++ [docStop], '\n' ∉ l :=
    List.forall_mem_append.mpr
      ⟨List.forall_mem_cons.mpr ⟨hstart, fun l hl => (docLines_spec h l hl).left⟩,
        List.forall_mem_singleton.mpr hstop⟩
  have hj : docHtml x = joinLines (docStart :: docLines x ++ [docStop]) := by
    rw [List.cons_append, joinLines_cons _ (by simp),
      joinLines_append (docLines_ne_nil hx) (by simp), joinLines_singleton, docHtml_eq]
  rw [hj, splitLines_joinLines hf (by simp)]

theorem lines_docHtml (h : Tight x) (hx : x ≠ []) :
    lines (docHtml x) = docStart :: ((docLines x).map (dropEnd ['\r']) ++ [docStop]) := by
  have hs : dropEnd ['\r'] docStart = docStart := by decide
  rw [lines_of_concat (splitLines_docHtml h hx), List.map_cons, hs]
  rfl

theorem blockText_docHtml (h : Tight x) (hx : x ≠ []) :
    blockText (docHtml x) = joinLines (lines (docHtml x)) := by
  have hs : dropEnd ['\r'] docStart = docStart := by decide
  have ht : dropEnd ['\r'] docStop = docStop := by decide
  have hstart : trimStart docStart = docStart := by decide
  have hstop : trimEndBy isBlank docStop = docStop := by decide
  rw [blockText, splitLines_docHtml h hx, lines_docHtml h hx, List.map_append, List.map_singleton,
    ht, List.map_cons, hs, List.cons_append, trim_joinLines_concat (by decide) (by decide), hstart,
    hstop]

theorem exists_joinLines_lines_docHtml (h : Tight x) (hx : x ≠ []) :
    ∃ y, joinLines (lines (docHtml x)) = docStart ++ '\n' :: y := by
  rw [lines_docHtml h hx]
  exact ⟨_, joinLines_cons _ (by simp)⟩

theorem fragment_docHtml (h : Tight x) (hx : x ≠ []) :
    Fragment (joinLines (lines (docHtml x))) := by
  have ⟨y, hy⟩ := exists_joinLines_lines_docHtml h hx
  have hl : lines (docStart ++ '\n' :: y) = docStart :: lines y := lines_append docStart y
  rw [hy]
  constructor
  case kind     => exact kindOf_tag rfl (not_accepts_of_lines hl (by decide))
  case verbatim => rfl

theorem blocks_docHtml (h : Tight x) (hx : x ≠ []) :
    blocks (docHtml x) = .ok ([joinLines (lines (docHtml x))].map .ofText) := by
  have hl : ∀ l ∈ splitLines (docHtml x), Fence.isFence l = false ∧ blank l = false := by
    rw [splitLines_docHtml h hx]
    exact List.forall_mem_append.mpr
      ⟨List.forall_mem_cons.mpr ⟨⟨rfl, rfl⟩, fun l hl => (docLines_spec h l hl).right⟩,
        List.forall_mem_singleton.mpr ⟨rfl, rfl⟩⟩
  rw [blocks_of_lines hl, blockText_docHtml h hx, List.map_singleton]

theorem print_eq (v : Variable) :
    v.print = definitionHtml v.name v.type ++ ['\n', '\n'] ++ docHtml v.doc := by
  rw [print, joinBlocks, join_cons_cons, join_singleton]

theorem blocks_print {ys : List Text} (hv : v.Clean)
    (h : blocks (docHtml v.doc) = .ok (ys.map .ofText)) :
    blocks v.print = .ok ((definitionHtml v.name v.type :: ys).map .ofText) := by
  rw [print_eq, blocks_append_eq (blocks_definitionHtml hv), h]
  rfl

theorem splitLines_print (hv : v.Clean) :
    splitLines v.print = definitionHtml v.name v.type :: [] :: splitLines (docHtml v.doc) := by
  rw [print_eq, splitLines_append_gap, splitLines_definitionHtml hv, List.singleton_append]

theorem lines_print (hv : v.Clean) :
    lines v.print = definitionHtml v.name v.type :: [] :: lines (docHtml v.doc) := by
  rw [print_eq, lines_append_gap, splitLines_definitionHtml hv, List.map_singleton,
    dropEnd_definitionHtml, List.singleton_append]

theorem ofText_print (hv : v.Clean) (hd : v.doc ≠ []) (options : Options) :
    Page.ofText options v.print = .ok ⟨joinLines (lines v.print), []⟩ := by
  have hn : lines (docHtml v.doc) ≠ [] := by simp [lines_docHtml hv.doc hd]
  have hb := blocks_print hv (blocks_docHtml hv.doc hd)
  have hf := List.forall_mem_cons.mpr
    ⟨fragment_definitionHtml hv, List.forall_mem_singleton.mpr (fragment_docHtml hv.doc hd)⟩
  rw [ofText_fragments options hb (List.cons_ne_nil _ _) hf, lines_print hv, joinLines_gap _ hn]

-- Without a description there is an empty line between the tags, so that the closing ones are taken
-- for a paragraph of text.

theorem docHtml_nil : docHtml [] = docStart ++ ['\n', '\n'] ++ docStop := by
  have he : docLines [] = [] := by
    rw [docLines, (emphasize_eq_nil_iff []).mpr rfl]
    rfl
  rw [docHtml_eq, he]
  rfl

theorem blocks_docHtml_nil : blocks (docHtml []) = .ok ([docStart, docStop].map .ofText) := by
  rw [docHtml_nil]
  rfl

theorem paragraphHtml_docStop : ∃ y, Markdown.Block.paragraphHtml docStop = '<' :: 'p' :: y := by
  rw [Markdown.Block.paragraphHtml, if_neg (by decide)]
  exact ⟨_, rfl⟩

theorem ofText_print_nil (hv : v.Clean) (hd : v.doc = []) (options : Options) :
    ∃ x, Page.ofText options v.print = .ok ⟨x, []⟩ ∧ x ≠ v.print := by
  have hb : blocks (docHtml v.doc) = .ok ([docStart, docStop].map .ofText) :=
    hd ▸ blocks_docHtml_nil
  have hf := fragment_definitionHtml hv
  have hs : Fragment docStart := ⟨by decide, by decide⟩
  have hk : ∀ y ∈ [definitionHtml v.name v.type, docStart, docStop],
      Markdown.Block.kindOf y = .paragraph := by
    refine List.forall_mem_cons.mpr ⟨hf.kind, List.forall_mem_cons.mpr ⟨hs.kind, ?_⟩⟩
    exact List.forall_mem_singleton.mpr (by decide)
  have ⟨y, hy⟩ := paragraphHtml_docStop
  refine ⟨_, ofText_paragraphs options (blocks_print hv hb) (List.cons_ne_nil _ _) hk,
    fun h => ?_⟩
  rw [List.map_cons, List.map_cons, List.map_singleton, hf.paragraphHtml, hs.paragraphHtml, hy,
    joinBlocks, join_cons_cons, join_cons_cons, join_singleton, print_eq, hd, docHtml_nil] at h
  have h := congrArg (·[1]?) (List.append_cancel_left (List.append_cancel_left h))
  exact absurd (Option.some.inj h) (show 'p' ≠ '/' by decide)

theorem exists_ofText_print (hv : v.Clean) (options : Options) :
    ∃ p, Page.ofText options v.print = .ok p ∧ p.toc = [] ∧
      (v.doc ≠ [] → p.text = joinLines (lines v.print)) ∧
      (p.text = v.print ↔ v.doc ≠ [] ∧ ¬['\r', '\n'] <:+: v.print) := by
  by_cases hd : v.doc = []
  case pos =>
    have ⟨x, hx, hne⟩ := ofText_print_nil hv hd options
    exact ⟨_, hx, rfl, fun h => absurd hd h, iff_of_false hne fun h => h.left hd⟩
  case neg =>
    have hs : splitLines v.print =
        (definitionHtml v.name v.type :: [] :: docStart :: docLines v.doc) ++ [docStop] := by
      rw [splitLines_print hv, splitLines_docHtml hv.doc hd]
      rfl
    have hi := joinLines_lines_eq_iff hs (by decide)
    exact ⟨_, ofText_print hv hd options, rfl, fun _ => rfl, hi.trans (and_iff_right hd).symm⟩

end Variable

-- A page that is made of what is printed of a documented variable has the same text, but for
-- carriage returns at the ends of lines, if there is a description, and another one if there is
-- none.
theorem ofText_print_eq_iff {vocabulary : Vocabulary} {bs : List Block} {heading : Text}
    {vs : List Variable} (h : read vocabulary x = .ok bs)
    (hb : .variableList heading vs ∈ bs) (hv : v ∈ vs) (options : Options) :
    ∃ p, Page.ofText options v.print = .ok p ∧ p.toc = [] ∧
      (v.doc ≠ [] → p.text = joinLines (lines v.print)) ∧
      (p.text = v.print ↔ v.doc ≠ [] ∧ ¬['\r', '\n'] <:+: v.print) :=
  Variable.exists_ofText_print (clean_of_read h hb hv) options

-- A description of two lines.
theorem ofText_print_eq_iff_described :
    let v : Variable := ⟨"x", "int", "One.\nTwo."⟩
    let bs : List Block := [.variableList "Parameters" [v]]
    (read {} "Parameters\n---\nx : int\n  One.\n  Two." = .ok bs ∧
      Block.variableList "Parameters" [v] ∈ bs ∧ v ∈ [v]) ∧
    ∃ p, Page.ofText {} v.print = .ok p ∧ p.toc = [] ∧
      (v.doc ≠ [] → p.text = joinLines (lines v.print)) ∧
      (p.text = v.print ↔ v.doc ≠ [] ∧ ¬['\r', '\n'] <:+: v.print) := by
  intro v bs
  have h : read {} "Parameters\n---\nx : int\n  One.\n  Two." = .ok bs := by decide +kernel
  have hb : Block.variableList "Parameters" [v] ∈ bs := List.mem_singleton_self _
  have hv : v ∈ [v] := List.mem_singleton_self _
  exact ⟨⟨h, hb, hv⟩, ofText_print_eq_iff h hb hv {}⟩

-- Without a description the closing tags are no part of the piece any more, and get a paragraph.
theorem ofText_print_ne_print :
    read {} "Parameters\n---\nx" = .ok [.variableList "Parameters" [⟨"x", [], []⟩]] ∧
    Page.ofText {} (Variable.print ⟨"x", [], []⟩) =
      .ok ⟨joinBlocks [Variable.definitionHtml "x" [], "<dl><dd>", "<p></dd></dl></p>"], []⟩ ∧
    joinBlocks [Variable.definitionHtml "x" [], "<dl><dd>", "<p></dd></dl></p>"] ≠
      Variable.print ⟨"x", [], []⟩ := by
  decide +kernel

end DocPress.Docstring
