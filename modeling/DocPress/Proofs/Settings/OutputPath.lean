import DocPress.Proofs.Disk.Names
import DocPress.Settings.Storage

-- The file that the output for an input goes to. Only a stem without dots is kept as a whole, so
-- that inputs with different stems may share their file.

namespace DocPress.Settings

open Text Path

variable {s : Settings} {dir input : Path} {stem : Text}

theorem outputPath_eq (hd : s.outputDir = some dir) (hs : input.stem? = some stem) (e : Text) :
    s.outputPath input e = some ((join dir stem).withExtension e) := by
  rw [outputPath, hd, hs]
  rfl

theorem withExtension_join_eq_iff (hn : stem ≠ []) (hs : '/' ∉ stem) (dir : Path) (e : Text) :
    (join dir stem).withExtension e = join dir (stem ++ '.' :: e) ↔
      e ≠ [] ∧ stem ≠ ['.'] ∧ '.' ∉ stem.tail := by
  have ⟨front, hj, hf⟩ := exists_front dir
  rw [hj, hj]
  by_cases ho : Ordinary stem
  case pos =>
    rw [withExtension_append hn hs ho hf, List.append_cancel_left_eq,
      stemOf_append_dotted_eq_iff, and_iff_right ho.left]
  case neg =>
    rw [← List.append_assoc]
    by_cases hd : stem = ['.']
    case pos =>
      rw [hd]
      exact iff_of_false (withExtension_ne_append (bare_append_dot hf) e) (by simp)
    case neg =>
      have hd : stem = ['.', '.'] := by
        by_contra h
        exact ho ⟨hd, h⟩
      rw [hd]
      exact iff_of_false (withExtension_ne_append (.inr (fileName?_append_dots hf)) e) (by simp)

theorem withExtension_join_inj {stem' : Text} (hn : stem ≠ []) (hs : '/' ∉ stem)
    (ho : Ordinary stem) (hn' : stem' ≠ []) (hs' : '/' ∉ stem') (ho' : Ordinary stem') (dir : Path)
    (e : Text) :
    (join dir stem).withExtension e = (join dir stem').withExtension e ↔
      stemOf stem = stemOf stem' := by
  have ⟨front, hj, hf⟩ := exists_front dir
  rw [hj, hj, withExtension_append hn hs ho hf, withExtension_append hn' hs' ho' hf,
    List.append_cancel_left_eq, List.append_cancel_right_eq]

-- The output goes to a file with the whole stem of the input and the extension exactly if there is
-- an extension and the stem has no dot but at its start. Two inputs share their file exactly if
-- their stems are the same up to the last dot.
theorem outputPath_eq_iff (hd : s.outputDir = some dir) (hs : input.stem? = some stem) (e : Text) :
    (s.outputPath input e = some (join dir (stem ++ '.' :: e)) ↔
      e ≠ [] ∧ stem ≠ ['.'] ∧ '.' ∉ stem.tail) ∧
    ∀ other stem', other.stem? = some stem' → Ordinary stem → Ordinary stem' →
      (s.outputPath input e = s.outputPath other e ↔ stemOf stem = stemOf stem') := by
  have ⟨hn, hm⟩ := of_stem?_eq_some hs
  rw [outputPath_eq hd hs, Option.some.injEq]
  refine ⟨withExtension_join_eq_iff hn hm dir e, fun other stem' hs' ho ho' => ?_⟩
  have ⟨hn', hm'⟩ := of_stem?_eq_some hs'
  rw [outputPath_eq hd hs', Option.some.injEq]
  exact withExtension_join_inj hn hm ho hn' hm' ho' dir e

theorem outputPath_eq_iff_versions :
    let s : Settings := { outputDir := some "out" }
    Path.stem? "docs/v1.2.md" = some "v1.2" ∧ Path.stem? "v1.3.md" = some "v1.3" ∧
      Ordinary "v1.2" ∧ Ordinary "v1.3" ∧
      (s.outputPath "docs/v1.2.md" "html" =
          some (join "out" ("v1.2".toList ++ '.' :: "html".toList)) ↔
        "html".toList ≠ [] ∧ "v1.2".toList ≠ ['.'] ∧ '.' ∉ "v1.2".toList.tail) ∧
      (s.outputPath "docs/v1.2.md" "html" = s.outputPath "v1.3.md" "html" ↔
        stemOf "v1.2" = stemOf "v1.3") := by
  intro s
  have hs : Path.stem? "docs/v1.2.md" = some "v1.2" := by decide
  have ht : Path.stem? "v1.3.md" = some "v1.3" := by decide
  have ho : Ordinary "v1.2" := ⟨by decide, by decide⟩
  have ho' : Ordinary "v1.3" := ⟨by decide, by decide⟩
  have ⟨hp, hi⟩ := outputPath_eq_iff (s := s) rfl hs "html"
  exact ⟨hs, ht, ho, ho', hp, hi _ _ ht ho ho'⟩

-- A second dot is taken for the start of an extension.
theorem outputPath_loses_stem :
    let s : Settings := { outputDir := some "out" }
    Path.stem? "v1.2.md" = some "v1.2" ∧ Path.stem? "v1.3.md" = some "v1.3" ∧
      s.outputPath "v1.2.md" "html" = some "out/v1.html" ∧
      s.outputPath "v1.2.md" "html" ≠ some (join "out" "v1.2.html") ∧
      s.outputPath "v1.2.md" "html" = s.outputPath "v1.3.md" "html" := by
  decide

end DocPress.Settings
