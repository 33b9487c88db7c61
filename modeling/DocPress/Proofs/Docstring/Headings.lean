import DocPress.Proofs.Lists
import DocPress.Proofs.Docstring.RoundTrip

-- Headings are recognised by the first two lines of a paragraph and split off at the first dash
-- that begins a line. Both find the same underline, so reading never fails.

namespace DocPress.Docstring

open Text

-- What a paragraph is read as. An underlined section goes before an underlined list of variables.
inductive Reads (vocabulary : Vocabulary) : Text → Block → Prop
  | titled {x w n ls} (hl : splitLines x = w :: underline n :: ls) (hn : 3 ≤ n)
    (hw : w ∈ vocabulary.sections) : Reads vocabulary x (.titled w (trim (joinLines ls)))
  | variableList {x w n ls} (hl : splitLines x = w :: underline n :: ls) (hn : 3 ≤ n)
    (hw : w ∈ vocabulary.varlists) (hs : w ∉ vocabulary.sections) :
    Reads vocabulary x (.variableList w (readVariables (joinLines ls)))
  | text {x}
    (hh : ∀ w ∈ vocabulary.sections ++ vocabulary.varlists,
      ∀ n ≥ 3, ¬[w, underline n] <+: splitLines x) :
    Reads vocabulary x (.text x)

variable {vocabulary : Vocabulary} {b : Block} {w x : Text} {ls : List Text} {n : Nat}

-- The line feed that ends the underline is not part of what stands below it.

theorem trim_flatMap_lineFeed (ls : List Text) :
    trim (ls.flatMap ('\n' :: ·)) = trim (joinLines ls) := by
  by_cases hn : ls = []
  case pos => rw [hn]; rfl
  case neg =>
    rw [flatMap_lineFeed hn]
    exact trim_append_left (x := ['\n']) rfl _

theorem readVariables_lineFeed (x : Text) : readVariables ('\n' :: x) = readVariables x := by
  have hb : blank ('\n' :: x) = blank x := rfl
  have hl : lines ('\n' :: x) = [] :: lines x := lines_append [] x
  simp [readVariables, hb, hl]

theorem readVariables_flatMap_lineFeed (ls : List Text) :
    readVariables (ls.flatMap ('\n' :: ·)) = readVariables (joinLines ls) := by
  by_cases hn : ls = []
  case pos => rw [hn]; rfl
  case neg => rw [flatMap_lineFeed hn, readVariables_lineFeed]

theorem eq_headed (hl : splitLines x = w :: underline n :: ls) :
    x = headed w n ls ∧ '\n' ∉ w := by
  have hw : w ∈ splitLines x := hl ▸ List.mem_cons_self
  exact ⟨by rw [headed, ← hl, joinLines_splitLines], not_mem_of_mem_splitLines hw⟩

namespace Reads

theorem readParagraph (h : Reads vocabulary x b) : readParagraph vocabulary x = .ok b := by
  cases h
  case titled w n ls hl hn hw =>
    have ⟨hx, hf⟩ := eq_headed hl
    have hk : kindOf vocabulary (headed w n ls) = .titled := by
      rw [kindOf, hasHeading_headed hf hn, if_pos (List.contains_iff_mem.mpr hw)]
    simp [hx, Docstring.readParagraph, hk, splitHeading_headed hf hn, trim_flatMap_lineFeed]
  case variableList w n ls hl hn hw hs =>
    have ⟨hx, hf⟩ := eq_headed hl
    have hk : kindOf vocabulary (headed w n ls) = .variableList := by
      rw [kindOf, hasHeading_headed hf hn, hasHeading_headed hf hn, if_neg (by simpa using hs),
        if_pos (List.contains_iff_mem.mpr hw)]
    simp [hx, Docstring.readParagraph, hk, splitHeading_headed hf hn,
      readVariables_flatMap_lineFeed]
  case text hh =>
    have hs := hasHeading_eq_false fun w hw => hh w (List.mem_append_left _ hw)
    have hl := hasHeading_eq_false fun w hw => hh w (List.mem_append_right _ hw)
    simp [Docstring.readParagraph, kindOf, hs, hl]

-- Further dashes are left where they are, in the heading as well as below its underline.
example : Docstring.readParagraph { sections := ["-A--B"] } "-A--B\n---\n- c\n---" =
    .ok (.titled "-A--B" "- c\n---") := by
  decide

end Reads

-- There is something that any paragraph is read as.
theorem exists_reads (vocabulary : Vocabulary) (x : Text) : ∃ b, Reads vocabulary x b := by
  by_cases hh : ∃ w ∈ vocabulary.sections ++ vocabulary.varlists,
      ∃ n ≥ 3, [w, underline n] <+: splitLines x
  case neg => exact ⟨.text x, .text fun w hw n hn hp => hh ⟨w, hw, n, hn, hp⟩⟩
  case pos =>
    have ⟨w, hw, n, hn, ls, hl⟩ := hh
    by_cases hs : w ∈ vocabulary.sections
    case pos => exact ⟨_, .titled hl.symm hn hs⟩
    case neg =>
      exact ⟨_, .variableList hl.symm hn ((List.mem_append.mp hw).resolve_left hs) hs⟩

theorem mapM_readParagraph {xs : List Text} {bs : List Block}
    (h : List.Forall₂ (Reads vocabulary) xs bs) : xs.mapM (readParagraph vocabulary) = .ok bs :=
  mapM_of_forall₂ (h.imp fun _ _ => Reads.readParagraph)

-- Each paragraph is read by itself.
theorem exists_read_eq_map (vocabulary : Vocabulary) :
    ∃ f, (∀ x, Reads vocabulary x (f x)) ∧
      ∀ x, read vocabulary x = .ok ((paragraphs x).map f) := by
  choose f hf using exists_reads vocabulary
  have hm : ∀ x, List.Forall₂ (Reads vocabulary) (paragraphs x) ((paragraphs x).map f) := fun x =>
    List.forall₂_map_right_iff.mpr (List.forall₂_same.mpr fun x _ => hf x)
  exact ⟨f, hf, fun x => mapM_readParagraph (hm x)⟩

-- Every docstring is read, and its blocks are what its paragraphs are read as, one for each.
theorem read_eq_ok_iff (vocabulary : Vocabulary) (x : Text) :
    (∃ bs, read vocabulary x = .ok bs) ∧
    ∀ bs, read vocabulary x = .ok bs ↔ List.Forall₂ (Reads vocabulary) (paragraphs x) bs := by
  have ⟨f, hf, hr⟩ := exists_read_eq_map vocabulary
  refine ⟨⟨_, hr x⟩, fun bs => ⟨fun h => ?_, mapM_readParagraph⟩⟩
  cases (hr x).symm.trans h
  exact List.forall₂_map_right_iff.mpr (List.forall₂_same.mpr fun x _ => hf x)

end DocPress.Docstring
