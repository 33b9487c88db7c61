import DocPress.Command.Run
import DocPress.Proofs.Markdown.LinkLines

-- Contents over several files. Files are told apart by their stems alone, so that one of them takes
-- the place of another one in a different directory.

namespace DocPress.Command

open Text Markdown Collection

-- The file can be made a document.
structure Usable (d : Disk) (file : Path) : Prop where
  named : file.stem?.isSome
  cut   : ∃ x, d.read file = .ok x ∧ ∃ hs, headings x = .ok hs

def document (d : Disk) (file : Path) : Text × Text :=
  (file.stem?.getD [], (d.read file).toOption.getD [])

-- The headings of a file that can be made a document.
def headingsIn (d : Disk) (file : Path) : List Text :=
  headingsOf (document d file)

variable {d : Disk} {f g : Path} {fs : List Path}

namespace Usable

theorem stem?_eq (h : Usable d f) : f.stem? = some (document d f).1 := by
  have ⟨name, hn⟩ := Option.isSome_iff_exists.mp h.named
  rw [document, hn]
  rfl

theorem read_eq (h : Usable d f) : d.read f = .ok (document d f).2 := by
  have ⟨x, hx, _⟩ := h.cut
  rw [document, hx]
  rfl

theorem headings_eq_ok (h : Usable d f) : ∃ hs, headings (document d f).2 = .ok hs := by
  have ⟨x, hx, hs⟩ := h.cut
  cases hx.symm.trans h.read_eq
  exact hs

theorem stem?_eq_iff (hf : Usable d f) (hg : Usable d g) :
    (document d f).1 = (document d g).1 ↔ f.stem? = g.stem? := by
  rw [hf.stem?_eq, hg.stem?_eq, Option.some.injEq]

end Usable

theorem foldlM_eq_ok {α β : Type} {F : β → α → Except Failure β} {G : β → α → β} {as : List α}
    (h : ∀ b, ∀ a ∈ as, F b a = .ok (G b a)) (b : β) : as.foldlM F b = .ok (as.foldl G b) := by
  induction as generalizing b
  case nil => rfl
  case cons a as ih =>
    rw [List.foldlM_cons, h b a List.mem_cons_self]
    exact ih (fun b c hc => h b c (List.mem_cons_of_mem a hc)) (G b a)

theorem collect_eq (h : ∀ f ∈ fs, Usable d f) :
    collect d fs = .ok (ofList (fs.map (document d))) := by
  rw [ofList, List.foldl_map]
  refine foldlM_eq_ok (fun c f hf => ?_) empty
  rw [(h f hf).stem?_eq, input, (h f hf).read_eq]
  rfl

-- The contents that are asked for, with sections of a level or without.
def contentsFor (c : Collection) (step : Nat) : Option Nat → Except Error Text
  | none       => c.contents step
  | some level => c.sectionedContents level step

theorem run_contents_eq (settings : Settings) {c : Collection} {x : Text} {level : Option Nat}
    (hc : collect d fs = .ok c) (hx : contentsFor c settings.markdown.htmlIndent level = .ok x) :
    run settings d (.contents fs level) = .ok ⟨x, "contents", "html"⟩ := by
  rw [run, hc]
  cases level
  all_goals
    simp only [contentsFor] at hx
    simp only [Except.bind, bind, hx]
    rfl

theorem names_contentsFor {c : Collection} (hd : ∀ e ∈ c.documents, ∃ hs, headings e.2 = .ok hs)
    (step : Nat) (level : Option Nat) :
    ∃ x, contentsFor c step level = .ok x ∧ ((∀ e ∈ c.documents, '\n' ∉ e.1) →
      List.Forall₂ Names (c.documents.flatMap headingsOf) (Tree.linkLines x)) := by
  cases level
  case none       => exact names_contents hd step
  case some level => exact names_sectionedContents hd level step

-- The run gives contents, with a single list or with sections. They have an item for every heading
-- of every file if and only if no file with headings is followed by another one with the same stem.
theorem run_contents_lists_iff (settings : Settings) (h : ∀ f ∈ fs, Usable d f)
    (level : Option Nat) :
    ∃ o, run settings d (.contents fs level) = .ok o ∧
      ((∀ f ∈ fs, ∀ name ∈ f.stem?, '\n' ∉ name) →
        (ListsAll o.text (fs.flatMap (headingsIn d)) ↔
          fs.Pairwise fun f g => f.stem? = g.stem? → headingsIn d f = [])) := by
  have hd : ∀ e ∈ (ofList (fs.map (document d))).documents, ∃ hs, headings e.2 = .ok hs :=
    forall_mem_ofList (List.forall_mem_map.mpr fun f hm => (h f hm).headings_eq_ok)
  have ⟨x, hx, hn⟩ := names_contentsFor hd settings.markdown.htmlIndent level
  refine ⟨_, run_contents_eq settings (collect_eq h) hx, fun hf => ?_⟩
  have hl := lists_iff (documents_ofList_perm _) <| hn <|
    forall_mem_ofList (List.forall_mem_map.mpr fun f hm => hf f hm _ (h f hm).stem?_eq)
  rw [List.flatMap_map, List.pairwise_map] at hl
  refine hl.trans (List.Pairwise.iff_of_mem fun hf hg => ?_)
  rw [(h _ hf).stem?_eq_iff (h _ hg)]
  rfl

theorem run_contents_lists_iff_directories :
    let d : Disk := ⟨[(["a"], .directory), (["b"], .directory),
      (["a", "x.md"], .file (some "No headings.")), (["b", "x.md"], .file (some "# A\n\n## B")),
      (["b", "y.md"], .file (some "# A"))]⟩
    let fs : List Path := ["a/x.md", "b/x.md", "b/y.md"]
    (∀ f ∈ fs, Usable d f) ∧ (∀ f ∈ fs, ∀ name ∈ f.stem?, '\n' ∉ name) ∧
      ∃ o, run {} d (.contents fs (some 2)) = .ok o ∧
        (ListsAll o.text (fs.flatMap (headingsIn d)) ↔
          fs.Pairwise fun f g => f.stem? = g.stem? → headingsIn d f = []) := by
  intro d fs
  have hx : Usable d "a/x.md" := ⟨by decide +kernel, "No headings.", by decide +kernel, [],
    by decide +kernel⟩
  have hy : Usable d "b/x.md" := ⟨by decide +kernel, "# A\n\n## B", by decide +kernel,
    ["# A", "## B"], by decide +kernel⟩
  have hz : Usable d "b/y.md" := ⟨by decide +kernel, "# A", by decide +kernel, ["# A"],
    by decide +kernel⟩
  have h : ∀ f ∈ fs, Usable d f := List.forall_mem_cons.mpr ⟨hx, List.forall_mem_cons.mpr
    ⟨hy, List.forall_mem_singleton.mpr hz⟩⟩
  have hf : ∀ f ∈ fs, ∀ name ∈ f.stem?, '\n' ∉ name := by decide +kernel
  have ⟨o, ho, hl⟩ := run_contents_lists_iff {} h (some 2)
  exact ⟨h, hf, o, ho, hl hf⟩

-- Of two files with the same name in different directories only the second one is listed.
theorem not_lists_run_contents :
    let d : Disk := ⟨[(["a"], .directory), (["b"], .directory),
      (["a", "x.md"], .file (some "# A")), (["b", "x.md"], .file (some "# B"))]⟩
    let fs : List Path := ["a/x.md", "b/x.md"]
    (∀ f ∈ fs, Usable d f) ∧ fs.flatMap (headingsIn d) = ["# A", "# B"] ∧
      ∃ o, run {} d (.contents fs none) = .ok o ∧
        Tree.itemLines o.text = ["<li><a href=\"x.md#b\">B</a></li>"] ∧
        ¬ListsAll o.text (fs.flatMap (headingsIn d)) := by
  intro d fs
  have hx : Usable d "a/x.md" := ⟨by decide +kernel, "# A", by decide +kernel, ["# A"],
    by decide +kernel⟩
  have hy : Usable d "b/x.md" := ⟨by decide +kernel, "# B", by decide +kernel, ["# B"],
    by decide +kernel⟩
  have hh : fs.flatMap (headingsIn d) = ["# A", "# B"] := by decide +kernel
  let x : Text := "<p>\n<ul>\n    <li><a href=\"x.md#b\">B</a></li>\n</ul>\n</p>"
  have hr : run {} d (.contents fs none) = .ok ⟨x, "contents", "html"⟩ := by decide +kernel
  have hi : Tree.itemLines x = ["<li><a href=\"x.md#b\">B</a></li>"] := by decide +kernel
  have hl : (Tree.linkLines x).length = 1 := by decide +kernel
  refine ⟨List.forall_mem_cons.mpr ⟨hx, List.forall_mem_singleton.mpr hy⟩, hh, _, hr, hi,
    fun h => ?_⟩
  have hn := h.length_le
  rw [hl, hh] at hn
  exact absurd hn (by decide)

end DocPress.Command
