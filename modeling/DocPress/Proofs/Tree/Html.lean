import DocPress.Proofs.Text.Lines
import DocPress.Tree.Html

-- The HTML of a tree that is more than a leaf takes several lines: the tags of the root have lines
-- of their own.

namespace DocPress.Tree

open Text

variable {x : Text}

theorem two_le_count_item (step d : Text) (t : Tree) (ts : List Tree) :
    2 ≤ (item step (node d (t :: ts))).count '\n' := by
  have h₁ : "\n".toList.count '\n' = 1 := by decide
  have h₂ : "\n</li>".toList.count '\n' = 1 := by decide
  unfold item
  simp only [List.count_append, h₁, h₂]
  omega

theorem two_le_count_unindentBody (h : 2 ≤ x.count '\n') : 2 ≤ (unindentBody x).count '\n' := by
  have hl : ¬(lines x).length < 2 := Nat.not_lt.mpr (Nat.le_trans h (count_le_length_lines x))
  simp only [unindentBody, if_neg hl, joinLines_cons_eq, List.flatMap_cons, List.flatMap_nil,
    List.count_append, List.count_cons_self]
  omega

theorem asParagraph_ne_nil (h : 2 ≤ x.count '\n') : asParagraph x ≠ [] := by
  have hl := Nat.le_trans h (count_le_length_lines x)
  have hn : (lines x).modifyHead (replace "<li>" "<p>") ≠ [] := by
    rw [List.ne_nil_iff_length_pos, List.length_modifyHead]
    omega
  rw [asParagraph, List.getLast?_eq_getLast_of_ne_nil hn]
  apply joinLines_ne_nil_of_two_le
  simp only [List.length_append, List.length_dropLast, List.length_modifyHead, Option.toList_some,
    List.map_cons, List.map_nil, List.length_singleton]
  omega

theorem toHtml_ne_nil (step : Nat) (d : Text) (t : Tree) (ts : List Tree) :
    (node d (t :: ts)).toHtml step ≠ [] :=
  asParagraph_ne_nil (two_le_count_unindentBody (two_le_count_item _ d t ts))

end DocPress.Tree
