import DocPress.Proofs.Docstring.Paragraphs
import DocPress.Proofs.Grid.Html
import DocPress.Proofs.Markdown.Emphasis
import DocPress.Proofs.Markdown.FencedCode
import DocPress.Proofs.Text.Case
import DocPress.Proofs.Text.Tight
import DocPress.Proofs.Tree.NestedLists

-- The chunks of a page. Every kind of block is set without blank lines, so that the empty lines of
-- a page are the ones between its blocks.

namespace DocPress

open Text Docstring

namespace Text

-- The parts of a text between its empty lines.
def chunks (x : Text) : List Text :=
  splitAround (literal ['\n', '\n']) x

variable {l x y old new : Text} {ls xs : List Text}

theorem breaks_emptyLine : Breaks (literal ['\n', '\n']) [] where
  char hc x := by simp [literal, Ne.symm hc]
  line {l} hl hb x := by
    have ⟨c, l, he⟩ := List.exists_cons_of_ne_nil (ne_nil_of_not_blank hb)
    subst he
    have hc : '\n' ≠ c := fun h => hl (h ▸ List.mem_cons_self)
    simp [literal, hc]
  gap {l} _ _ x := by simp [literal]

theorem chunks_joinBlocks (hx : ∀ x ∈ xs, Solid x) (hn : xs ≠ []) : chunks (joinBlocks xs) = xs :=
  splitAround_joinBlocks breaks_emptyLine hx hn

-- Solid texts are those without gaps.

theorem gap_eq_none_iff : gap l = none ↔ blank l = false := by
  simp [gap]

theorem solid_iff_gaps : Solid x ↔ ∀ g ∈ gaps x, g = none := by
  simp only [Solid, gaps, List.forall_mem_map, gap_eq_none_iff]

theorem solid_congr (h : gaps x = gaps y) : Solid x ↔ Solid y := by
  rw [solid_iff_gaps, solid_iff_gaps, h]

theorem Visible.solid (h : Visible x) : Solid x := by
  rw [Solid, splitLines_of_not_mem h.oneLine]
  exact List.forall_mem_singleton.mpr h.notBlank

theorem solid_append_left (hx : '\n' ∉ x) (h : Solid y) : Solid (x ++ y) := by
  have ⟨l, ls, hl⟩ := List.exists_cons_of_ne_nil (splitLines_ne_nil y)
  rw [Solid, hl] at h
  have ⟨hb, h⟩ := List.forall_mem_cons.mp h
  rw [Solid, splitLines_append_of_not_mem hx, hl]
  exact List.forall_mem_cons.mpr ⟨not_blank_append hb, h⟩

theorem not_blank_append_left (h : blank x = false) (y : Text) : blank (x ++ y) = false := by
  rw [blank, List.all_append, ← blank, h, Bool.false_and]

theorem solid_append_right (h : Solid x) (hy : '\n' ∉ y) : Solid (x ++ y) := by
  have ⟨ls, l, hl⟩ := exists_splitLines_concat x
  rw [Solid, hl] at h
  have ⟨h, hb⟩ := List.forall_mem_append.mp h
  rw [Solid, splitLines_append_of_concat hl hy]
  exact List.forall_mem_append.mpr ⟨h, List.forall_mem_singleton.mpr <|
    not_blank_append_left (hb l (List.mem_singleton_self l)) y⟩

-- A text in tags, all of which may be missing.
theorem solid_enclosed (hx : Visible x) (hy : Visible y) (h : Solid l ∨ l = []) :
    Solid (x ++ l ++ y) := by
  cases h
  case inl h => exact solid_append_right (solid_append_left hx.oneLine h) hy.oneLine
  case inr h =>
    rw [h, List.append_nil]
    exact solid_append_right hx.solid hy.oneLine

theorem solid_of_rows (h : ∀ l ∈ ls, IsRow l) (hn : ls ≠ []) : Solid (joinLines ls) :=
  solid_joinLines (fun l hl => ⟨(h l hl).spaced.lineFeed, (h l hl).notBlank⟩) hn

theorem not_blank_of_mem_lines (hx : Solid x) : ∀ l ∈ lines x, blank l = false := by
  rw [solid_iff_gaps] at hx
  refine not_blank_of_tight ⟨List.pairwise_iff_forall_sublist.mpr fun h => ?_, fun l hl => ?_⟩
  · exact hx _ (h.subset List.mem_cons_self)
  · cases hx _ hl

theorem solid_dedent (hl : ∀ l ∈ ls, '\n' ∉ l ∧ blank l = false) (hn : ls ≠ []) :
    Solid (dedent (joinLines ls)) := by
  rw [solid_iff_gaps, gaps_dedent (fun l h => (hl l h).left) hn, List.forall_mem_map]
  exact fun l h => if_neg (by simp [(hl l h).right])

theorem visible_of_mem_references {r : Char × Text} (h : r ∈ references) :
    Visible r.2 ∧ Visible [r.1] :=
  have hr : ∀ r ∈ references, Visible r.2 ∧ Visible [r.1] := by decide
  hr r h

theorem sameGaps_escape (x : Text) : SameGaps (escape x) x := by
  have h : SameGaps (x.flatMap escapeChar) (x.flatMap fun c => [c]) := .flatMap fun c _ => by
    rcases escapeChar_cases c with h | ⟨_, _, he⟩
    case inl =>
      have ⟨hr, hc⟩ := visible_of_mem_references h
      exact hr.sameGaps hc
    case inr => exact he ▸ .refl [c]
  rwa [List.flatMap_singleton'] at h

theorem Visible.replace (hn : Visible new) (ho : Visible old) (hx : Visible x) :
    Visible (replace old new x) := by
  have hf : '\n' ∉ Text.replace old new x := lineFeed_not_mem_replace hn.oneLine hx.oneLine
  have hs := (solid_congr (sameGaps_replace (hn.sameGaps ho) x).gaps_eq).mpr hx.solid
  rw [Solid, splitLines_of_not_mem hf] at hs
  exact ⟨hf, hs _ (List.mem_singleton_self _)⟩

theorem solid_trim_joinLines (hl : ∀ l ∈ ls, '\n' ∉ l ∧ blank l = false) (hn : ls ≠ []) :
    Solid (trim (joinLines ls)) := by
  have hh : ∀ l ∈ ls.modifyHead trimStart, '\n' ∉ l ∧ blank l = false := by
    cases ls
    case nil => contradiction
    case cons l ls =>
      have ⟨⟨hf, hb⟩, hl⟩ := List.forall_mem_cons.mp hl
      refine List.forall_mem_cons.mpr ⟨⟨fun hc => hf ?_, (blank_trimStart l).trans hb⟩, hl⟩
      exact (List.dropWhile_sublist isBlank).mem hc
  have ht : ∀ l ∈ trimEnds ls, '\n' ∉ l ∧ blank l = false := forall_mem_modifyLast hh fun l h =>
    ⟨fun hc => (hh l h).left ((prefix_trimEndBy isBlank l).mem hc),
      (blank_trimEnd l).trans (hh l h).right⟩
  have he : trim (joinLines ls) = joinLines (trimEnds ls) := trim_joinLines
    (fun l h => (hl l (List.mem_of_mem_head? h)).right)
    (fun l h => (hl l (List.mem_of_mem_getLast? h)).right)
  have ⟨l, ks, hk⟩ := List.exists_cons_of_ne_nil hn
  have ht' : trim (joinLines ls) ≠ [] :=
    Markdown.trim_joinLines_ne_nil ⟨l, by simp [hk], (hl l (by simp [hk])).right⟩
  rw [he] at ht' ⊢
  exact solid_joinLines ht fun h => ht' (by rw [h]; rfl)

end Text

namespace Tree

open Markup

-- The tags of the root are replaced wherever they occur in its label, but the rows stay rows.
theorem solid_toHtml (step : Nat) (t : Tree) : Solid (t.toHtml step) := by
  have hli : Spaced "li" := by decide
  have hv : ∀ {l : Text}, IsRow l → Visible l := fun h => ⟨h.spaced.lineFeed, h.notBlank⟩
  have ho : ∀ {l : Text}, Visible l → Visible (replace "<li>" "<p>" l) := fun h =>
    .replace (by decide) (by decide) h
  have hc : ∀ {l : Text}, Visible l → Visible (replace "</li>" "</p>" l) := fun h =>
    .replace (by decide) (by decide) h
  rw [toHtml]
  by_cases hn : t.children = []
  case pos =>
    have hr : IsRow (item (spaces step) t) := by
      rw [item_eq_ite, if_pos hn]
      simpa [Row.print, Row.text, Part.print, spaces] using (element_proper hli 0 t.data).isRow
    rw [unindentBody_row hr, asParagraph_row hr]
    exact (hc (ho (hv hr))).solid
  case neg =>
    have hr := isRow_of_mem_print <| enclosed_proper (labelled_proper hli 0 t.data)
      (.closing 0 hli) (listRows_proper step 0 t.children)
    rw [unindentBody_item step hn, map_print_enclosed]
    rw [map_print_enclosed] at hr
    rw [asParagraph_rows hr]
    obtain ⟨hl, hr⟩ := List.forall_mem_cons.mp hr
    obtain ⟨hr, hz⟩ := List.forall_mem_append.mp hr
    have hz := hz _ (List.mem_singleton_self _)
    have h : ∀ {l : Text}, Visible l → '\n' ∉ l ∧ blank l = false := fun h =>
      ⟨h.oneLine, h.notBlank⟩
    exact solid_joinLines (List.forall_mem_cons.mpr ⟨h (ho (hv hl)), List.forall_mem_append.mpr
      ⟨fun l hl => h (hv (hr l hl)), List.forall_mem_singleton.mpr (h (hc (hv hz)))⟩⟩)
      (List.cons_ne_nil _ _)

end Tree

namespace Markdown

variable {options : Options} {b : Block} {l x : Text} {ls : List Text} {bs : List Block}

-- All texts that can be set are on one line.
structure Options.OneLine (options : Options) : Prop where
  codeLanguages    : ∀ l ∈ options.codeLanguages, '\n' ∉ l
  defaultCodeClass : '\n' ∉ options.defaultCodeClass
  listClass        : '\n' ∉ options.listClass
  tocAnchor        : '\n' ∉ options.tocAnchor

theorem Heading.solid_toHtml (ho : options.OneLine) (hx : '\n' ∉ x) :
    Solid (Heading.toHtml options x) := by
  have hl : '\n' ∉ decimal (level x) := not_mem_decimal (by decide)
  have hc : '\n' ∉ content x := fun h => hx ((List.dropWhile_sublist _).mem h)
  refine Visible.solid ⟨?_, not_blank_append (y := ">") rfl⟩
  simp [Heading.toHtml, ho.tocAnchor, hl, hc]

theorem PipeTable.exists_columns (hx : x ≠ []) : ∃ cs ∈ columns x, cs ≠ [] := by
  have ⟨l, ls, hl⟩ := List.exists_cons_of_ne_nil (lines_ne_nil hx)
  have hc : ∀ l : Text, 1 ≤ (cells l).length := fun l =>
    List.length_pos_iff.mpr (List.splitOn_ne_nil _ _)
  obtain ⟨rs, hr⟩ : ∃ rs, ((lines x).eraseIdx 1).map cells = cells l :: rs.map cells :=
    ⟨ls.eraseIdx 0, by rw [hl]; rfl⟩
  have hm : 1 ≤ (((cells l :: rs.map cells).map List.length).min?).getD 0 := by
    cases hm : ((cells l :: rs.map cells).map List.length).min?
    case none => simp at hm
    case some n =>
      have ⟨ks, hk, hn⟩ := List.mem_map.mp (List.min?_eq_some_iff.mp hm).left
      rw [← List.map_cons] at hk
      have ⟨k, _, hk⟩ := List.mem_map.mp hk
      exact hn ▸ hk ▸ hc k
  refine ⟨_, List.mem_map.mpr ⟨0, List.mem_range.mpr ?_, rfl⟩, ?_⟩
  all_goals simp only [hr]
  · exact hm
  · exact List.cons_ne_nil _ _

theorem PipeTable.solid_toHtml (options : Options) (hx : Solid x) :
    Solid (PipeTable.toHtml options x) := by
  have he := (solid_congr (Emphasis.gaps_toHtml x)).mpr hx
  have hg := Grid.neat_ofColumns (exists_columns he.ne_nil)
  rw [toHtml, Grid.toHtml_eq_rows hg]
  have hr := Markup.isRow_of_mem_print (Grid.tableRows_proper hg options.htmlIndent)
  exact solid_of_rows hr (List.cons_ne_nil _ _)

namespace Fence

theorem lineFeed_not_mem_lang (x : Text) : '\n' ∉ lang x := fun h => by
  have h := List.mem_takeWhile_imp ((sublist_trimBy _ _).mem h)
  simp at h

theorem visible_openTag (ho : options.OneLine) (hl : '\n' ∉ l) : Visible (openTag options l) := by
  have ht := lineFeed_not_mem_title hl
  rw [openTag]
  split
  case isTrue  => exact ⟨by simp [ht, hl], not_blank_append rfl⟩
  case isFalse =>
    refine ⟨?_, not_blank_append rfl⟩
    split <;> simp [hl, ho.defaultCodeClass]

theorem visible_closeTag (options : Options) (l : Text) : Visible (closeTag options l) := by
  rw [closeTag]
  split <;> decide

theorem solid_body (hx : Solid x) : Solid (body x) ∨ body x = [] := by
  have hl : ∀ l ∈ ((lines x).drop 1).dropLast, '\n' ∉ l ∧ blank l = false := fun l h =>
    have h := (List.drop_sublist 1 _).mem ((List.dropLast_sublist _).mem h)
    ⟨lineFeed_not_mem_of_mem_lines h, not_blank_of_mem_lines hx l h⟩
  rw [body]
  by_cases hn : ((lines x).drop 1).dropLast = []
  case pos => rw [hn]; exact .inr rfl
  case neg => exact .inl ((solid_congr (sameGaps_escape _).gaps_eq).mpr (solid_dedent hl hn))

theorem solid_toHtml (ho : options.OneLine) (hx : Solid x) : Solid (Fence.toHtml options x) := by
  rw [toHtml_eq]
  exact solid_enclosed (visible_openTag ho (lineFeed_not_mem_lang x)) (visible_closeTag _ _)
    (solid_body hx)

end Fence

namespace Block

theorem solid_paragraphHtml (hx : Solid x) : Solid (paragraphHtml x) := by
  rw [paragraphHtml]
  split
  case isTrue  => exact hx
  case isFalse =>
    have he := (solid_congr (Emphasis.gaps_toHtml x)).mpr hx
    exact solid_enclosed (x := "<p>") (y := "</p>") (by decide) (by decide) (.inl he)

theorem solid_listHtml (ho : options.OneLine) (x : Text) : Solid (listHtml options x) := by
  have hn : Visible ("<ul class=\"" ++ options.listClass ++ "\">") :=
    ⟨by simp [ho.listClass], not_blank_append rfl⟩
  have hs : SameGaps ("<p>\n<ul class=\"" ++ options.listClass ++ "\">") "<p>\n<ul>" :=
    (SameGaps.refl ['<', 'p', '>', '\n']).append (hn.sameGaps (y := "<ul>") (by decide))
  exact (solid_congr (sameGaps_replace hs _).gaps_eq).mpr (Tree.solid_toHtml _ _)

theorem accepts_of_kindOf (h : kindOf x = .heading) : Heading.accepts x := by
  by_contra ha
  grind [kindOf]

-- A block without blank lines is set without blank lines.
theorem solid_toHtml (ho : options.OneLine) (hb : b = .ofText b.text) (hx : Solid b.text) :
    Solid (b.toHtml options) := by
  rw [toHtml]
  split
  case h_1 hk =>
    have ha : Heading.accepts b.text := by
      rw [hb] at hk
      exact accepts_of_kindOf hk
    simp only [Heading.accepts, Bool.and_eq_true, Bool.not_eq_true', List.contains_eq_mem,
      decide_eq_false_iff_not] at ha
    exact Heading.solid_toHtml ho ha.left.left
  case h_2 => exact Visible.solid (by decide)
  case h_3 => exact solid_paragraphHtml hx
  case h_4 => exact solid_listHtml ho _
  case h_5 => exact PipeTable.solid_toHtml options hx
  case h_6 => exact Fence.solid_toHtml ho hx

end Block

-- Where there are no fences, the blocks are the runs of lines that are not blank.

theorem not_blank_of_unbroken (h : Unbroken false ls) (hf : ∀ l ∈ ls, Fence.isFence l = false) :
    ∀ l ∈ ls, blank l = false := by
  generalize hb : false = b at h
  induction h
  case nil => exact List.forall_mem_nil _
  case fence l _ _ h _ _ =>
    rw [hf l List.mem_cons_self] at h
    contradiction
  case line l _ _ _ hi _ ih =>
    subst hb
    have ⟨_, hf⟩ := List.forall_mem_cons.mp hf
    exact List.forall_mem_cons.mpr ⟨by simpa using hi, ih hf rfl⟩

theorem exists_blocks (hf : ∀ l ∈ lines x, Fence.isFence l = false) :
    ∃ bs, blocks x = .ok bs ∧ ∀ b ∈ bs, b = .ofText b.text ∧ Solid b.text := by
  have hc : (fences 1 (lines x)).length = 0 := by
    rw [length_fences]
    exact List.countP_eq_zero.mpr fun l hl => by simp [hf l hl]
  have hx := (blocks_keptRuns x).right.left (by rw [hc])
  have ⟨ho, _⟩ := openFence_of_blocks hx
  have ⟨ps, pss, hk, hp, hs⟩ := keptParts_unbroken ho
  refine ⟨_, hx, List.forall_mem_map.mpr fun ls hl => ⟨rfl, ?_⟩⟩
  rw [keptRuns_eq, List.mem_filter] at hl
  have hm : ∀ l ∈ ls, l ∈ lines x := fun l h => mem_of_mem_keptParts hl.left h
  have hu : Unbroken false ls :=
    (List.forall_mem_cons (p := Unbroken false)).mpr ⟨hp, hs⟩ ls (hk ▸ hl.left)
  have hb := not_blank_of_unbroken hu fun l h => hf l (hm l h)
  exact solid_trim_joinLines (fun l h => ⟨lineFeed_not_mem_of_mem_lines (hm l h), hb l h⟩)
    (by simpa using hl.right)

-- The page of a text without fences falls into as many chunks as there are blocks, each of them the
-- HTML of one block, and no line of them is blank.
theorem Page.chunks_text (ho : options.OneLine) (hf : ∀ l ∈ lines x, Fence.isFence l = false) :
    ∃ bs, blocks x = .ok bs ∧
      (∀ b ∈ bs, ∀ l ∈ splitLines (b.toHtml options), blank l = false) ∧
      (bs ≠ [] → ∃ p, Page.ofText options x = .ok p ∧
        chunks p.text = bs.map (·.toHtml options)) := by
  have ⟨bs, hx, hb⟩ := exists_blocks hf
  have hs : ∀ b ∈ bs, Solid (b.toHtml options) := fun b h =>
    Block.solid_toHtml ho (hb b h).left (hb b h).right
  refine ⟨bs, hx, hs, fun hn => ⟨_, ofText_eq options hx hn, ?_⟩⟩
  exact chunks_joinBlocks (List.forall_mem_map.mpr hs) (by simpa using hn)

theorem Page.chunks_text_kinds :
    let x := joinLines ["# T", "", "---", "", "a *b*", "<p>", " ", "", "- c", "  - <li>", "",
      "| d", "| -", "| ", "", "<!--", "-->", "", " \x60\x60\x60c", " e", " \x60\x60\x60"]
    let ks : List Kind := [.heading, .rule, .paragraph, .list, .table, .paragraph, .code]
    (∀ l ∈ lines x, Fence.isFence l = false) ∧ Options.OneLine {} ∧
      ∃ bs p, blocks x = .ok bs ∧ bs.map (·.kind) = ks ∧ Page.ofText {} x = .ok p ∧
        chunks p.text = bs.map (·.toHtml {}) := by
  intro x ks
  have hf : ∀ l ∈ lines x, Fence.isFence l = false := by decide
  have ho : Options.OneLine {} := ⟨by decide, by decide, by decide, by decide⟩
  have ⟨bs, hx, _, hp⟩ := chunks_text ho hf
  have hk : (·.map (·.kind)) <$> blocks x = .ok ks := by decide
  rw [hx] at hk
  have hk : bs.map (·.kind) = ks := Except.ok.inj hk
  have ⟨p, hp, hc⟩ := hp (by rintro rfl; contradiction)
  exact ⟨hf, ho, bs, p, hx, hk, hp, hc⟩

end Markdown
end DocPress
