import DocPress.Proofs.Markdown.Fragments
import DocPress.Proofs.Markdown.Rereading
import DocPress.Proofs.Text.Escape

-- Code between two fences. Whatever its lines look like, they are one block, and they are found in
-- the page as they are, but for the margin and for the characters that have a meaning in HTML.

namespace DocPress.Markdown

open Text

-- A text that is read as the name of a language.
structure IsTag (x : Text) : Prop where
  oneLine : '\n' ∉ x ∧ '\r' ∉ x
  noBar   : '|' ∉ x
  noMark  : '\x60' ∉ x
  tight   : x.head? ≠ some ' ' ∧ x.getLast? ≠ some ' '

-- A line that can stand between fences.
structure IsCode (l : Text) : Prop where
  oneLine : '\n' ∉ l ∧ '\r' ∉ l
  noFence : Fence.isFence l = false

instance (x : Text) : Decidable (IsTag x) :=
  decidable_of_iff (('\n' ∉ x ∧ '\r' ∉ x) ∧ '|' ∉ x ∧ '\x60' ∉ x ∧
      x.head? ≠ some ' ' ∧ x.getLast? ≠ some ' ')
    ⟨fun ⟨h, hb, hm, ht⟩ => ⟨h, hb, hm, ht⟩, fun ⟨h, hb, hm, ht⟩ => ⟨h, hb, hm, ht⟩⟩

instance (l : Text) : Decidable (IsCode l) :=
  decidable_of_iff (('\n' ∉ l ∧ '\r' ∉ l) ∧ Fence.isFence l = false)
    ⟨fun ⟨h, hf⟩ => ⟨h, hf⟩, fun ⟨h, hf⟩ => ⟨h, hf⟩⟩

-- Lines of code between two fences, of which the first one names the language.
def fenced (tag : Text) (ls : List Text) : Text :=
  joinLines ((Fence.mark ++ tag) :: (ls ++ [Fence.mark]))

namespace Fence

-- Whether a page says which language some code is in.
def isTitled (options : Options) (lang : Text) : Bool :=
  !lang.isEmpty && options.codeLanguages.contains lang

-- What stands around the code in a page.
def openTag (options : Options) (lang : Text) : Text :=
  if isTitled options lang then
    "<pre><span class=\"lang-name\">" ++ title lang ++ "</span><code class=\"language-" ++ lang ++
      "\">"
  else
    "<pre class=\"" ++ (if lang = [] then options.defaultCodeClass else lang) ++ "\">"

def closeTag (options : Options) (lang : Text) : Text :=
  if isTitled options lang then "</code></pre>" else "</pre>"

theorem isTitled_iff {options : Options} {lang : Text} :
    isTitled options lang ↔ lang ≠ [] ∧ lang ∈ options.codeLanguages := by
  simp [isTitled]

theorem toHtml_eq (options : Options) (x : Text) :
    toHtml options x = openTag options (lang x) ++ body x ++ closeTag options (lang x) := by
  simp only [toHtml, openTag, closeTag, isTitled_iff]
  split <;> simp

end Fence

variable {l x tag : Text} {ls : List Text}

theorem lines_fenced (ht : IsTag tag) (hl : ∀ l ∈ ls, IsCode l) :
    lines (fenced tag ls) = (Fence.mark ++ tag) :: (ls ++ [Fence.mark]) := by
  have hm : '\n' ∉ Fence.mark ∧ '\r' ∉ Fence.mark := by decide
  refine lines_joinLines_of_last ?_ ?_
  case refine_1 =>
    refine List.forall_mem_cons.mpr ⟨?_, List.forall_mem_append.mpr ⟨fun l h => (hl l h).oneLine,
      List.forall_mem_singleton.mpr hm⟩⟩
    simp [hm, ht.oneLine]
  case refine_2 =>
    rw [← List.cons_append, List.getLast?_concat]
    rintro l ⟨⟩
    exact List.cons_ne_nil _ _

theorem isFence_mark_append (x : Text) : Fence.isFence (Fence.mark ++ x) :=
  isFence_iff.mpr (List.prefix_append _ x)

theorem unbroken_fenced (hl : ∀ l ∈ ls, IsCode l) :
    Unbroken false ((Fence.mark ++ tag) :: (ls ++ [Fence.mark])) := by
  refine .fence (isFence_mark_append tag) ?_
  induction ls
  case nil => exact .fence rfl .nil
  case cons l ls ih =>
    have ⟨h, hl⟩ := List.forall_mem_cons.mp hl
    exact .line h.noFence rfl (ih hl)

theorem fenced_eq (tag : Text) (ls : List Text) :
    fenced tag ls = Fence.mark ++ tag ++ '\n' :: joinLines (ls ++ [Fence.mark]) :=
  joinLines_cons _ (by simp)

theorem suffix_fenced (tag : Text) (ls : List Text) : Fence.mark <:+ fenced tag ls :=
  suffix_join ['\n'] ((Fence.mark ++ tag) :: ls) Fence.mark

theorem trim_fenced (tag : Text) (ls : List Text) : trim (fenced tag ls) = fenced tag ls := by
  apply trimBy_eq_self
  case hh => simp [fenced_eq, Fence.mark, isBlank]
  case hl =>
    obtain ⟨x, hx⟩ := suffix_fenced tag ls
    have hn : Fence.mark ≠ [] := List.cons_ne_nil _ _
    rw [← hx, List.getLast?_append_of_ne_nil x hn]
    rintro c ⟨⟩
    rfl

-- No list and no table begins like a fence.
theorem kindOf_fenced (ht : IsTag tag) (hl : ∀ l ∈ ls, IsCode l) :
    Block.kindOf (fenced tag ls) = .code := by
  have hn : '\n' ∈ fenced tag ls := by simp [fenced_eq]
  have hb : '|' ∉ Fence.mark ++ tag := by simp [Fence.mark, ht.noBar]
  have ha : PipeTable.accepts (fenced tag ls) = false :=
    not_accepts_of_lines (lines_fenced ht hl) hb
  have hi : Block.isList (fenced tag ls) = false := by rw [fenced_eq]; rfl
  have hs : startsWith (fenced tag ls) Fence.mark := by
    rw [fenced_eq, List.append_assoc]
    exact isFence_mark_append _
  have he : endsWith (fenced tag ls) Fence.mark :=
    List.isSuffixOf_iff_suffix.mpr (suffix_fenced tag ls)
  simp [Block.kindOf, Block.isRule, Heading.accepts, Fence.accepts, hn, hi, ha, hs, he]

theorem lang_fenced (ht : IsTag tag) (ls : List Text) : Fence.lang (fenced tag ls) = tag := by
  have hn : '\n' ∉ Fence.mark ++ tag := by simp [Fence.mark, ht.oneLine]
  rw [Fence.lang, fenced, joinLines_cons_eq, firstLine_append hn]
  refine trimBy_eq_self (x := tag) (fun c hc => ?_) (fun c hc => ?_)
  · have hm : c ≠ '\x60' := fun h => ht.noMark (h ▸ List.mem_of_mem_head? hc)
    have hs : c ≠ ' ' := fun h => ht.tight.left (h ▸ hc)
    simp [hm, hs]
  · have hm : c ≠ '\x60' := fun h => ht.noMark (h ▸ List.mem_of_mem_getLast? hc)
    have hs : c ≠ ' ' := fun h => ht.tight.right (h ▸ hc)
    simp [hm, hs]

theorem body_fenced (ht : IsTag tag) (hl : ∀ l ∈ ls, IsCode l) :
    Fence.body (fenced tag ls) = escape (dedent (joinLines ls)) := by
  rw [Fence.body, lines_fenced ht hl, List.drop_one, List.tail_cons, List.dropLast_concat]

theorem blocks_fenced_eq (ht : IsTag tag) (hl : ∀ l ∈ ls, IsCode l) :
    blocks (fenced tag ls) = .ok [⟨.code, fenced tag ls⟩] := by
  have hs := lines_fenced ht hl
  have hu : Unbroken false (lines (fenced tag ls)) := hs ▸ unbroken_fenced hl
  have hb : Block.ofRun (lines (fenced tag ls)) = ⟨.code, fenced tag ls⟩ := by
    rw [Block.ofRun, hs, ← fenced, trim_fenced, Block.ofText, kindOf_fenced ht hl]
  rw [blocks_of_unbroken hu (by simp [hs]), hb]

-- Code between fences is one block of a document and is what its page holds: without the margin,
-- with references for five characters, and not emphasised.
theorem blocks_fenced (ht : IsTag tag) (hl : ∀ l ∈ ls, IsCode l) :
    let x := fenced tag ls
    let code := dedent (joinLines ls)
    blocks x = .ok [⟨.code, x⟩] ∧ Fence.lang x = tag ∧
      unescape (Fence.body x) = code ∧ (∀ c ∈ Fence.body x, isMarkup c = false) ∧
      ∀ options, Page.ofText options x =
        .ok ⟨Fence.openTag options tag ++ escape code ++ Fence.closeTag options tag, []⟩ := by
  intro x code
  have hb : Fence.body x = escape code := body_fenced ht hl
  have ha : Fence.lang x = tag := lang_fenced ht ls
  have hx : blocks x = .ok [⟨.code, x⟩] := blocks_fenced_eq ht hl
  refine ⟨hx, ha, ?_, fun c hc => ?_, fun options => ?_⟩
  · rw [hb, unescape_escape]
  · exact not_isMarkup_of_mem_escape (hb ▸ hc)
  · have hp : Page.ofBlocks options [⟨.code, x⟩] = ⟨joinBlocks [Fence.toHtml options x], []⟩ := rfl
    rw [Page.ofText_eq options hx (List.cons_ne_nil _ _), hp, joinBlocks, join_singleton,
      Fence.toHtml_eq, ha, hb]

theorem blocks_fenced_lookalikes :
    let ls : List Text := ["  | a | b", "  |---|---", "", "  - *x* < y", "  # &"]
    let x := fenced "rust" ls
    let code : Text := "| a | b\n|---|---\n\n- *x* < y\n# &"
    let body : Text := "| a | b\n|---|---\n\n- *x* &lt; y\n# &amp;"
    IsTag "rust" ∧ (∀ l ∈ ls, IsCode l) ∧ blocks x = .ok [⟨.code, x⟩] ∧ Fence.lang x = "rust" ∧
      unescape (Fence.body x) = code ∧ Fence.body x = body ∧
      (∀ c ∈ Fence.body x, isMarkup c = false) ∧
      Page.ofText {} x = .ok ⟨"<pre class=\"rust\">" ++ body ++ "</pre>", []⟩ := by
  intro ls x code body
  have ht : IsTag "rust" := by decide
  have hl : ∀ l ∈ ls, IsCode l := by decide
  have hc : dedent (joinLines ls) = code := by decide
  have he : escape code = body := by decide
  have ⟨hx, ha, hu, hm, hp⟩ := blocks_fenced ht hl
  refine ⟨ht, hl, hx, ha, hc ▸ hu, ?_, hm, ?_⟩
  · rw [← he, ← hc]
    exact body_fenced ht hl
  · rw [hp {}, hc, he]
    rfl

end DocPress.Markdown
