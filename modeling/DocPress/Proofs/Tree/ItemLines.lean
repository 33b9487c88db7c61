import DocPress.Proofs.Tree.Levels
import DocPress.Proofs.Tree.NestedLists

-- The lines on which the items of nested lists open. Each node below the root of a tree has one of
-- them in the HTML of the tree, in pre-order.

namespace DocPress.Tree

open Text Markup

-- The lines of a text that open an item, without the spaces in front of them.
def itemLines (x : Text) : List Text :=
  ((splitLines x).map (·.dropWhile (· = ' '))).filter (startsWith · "<li>")

-- The line opens an item with a label, which is closed on a later line if there is a list in it.
def Opens (d l : Text) : Prop :=
  l = "<li>" ++ oneLine d ∨ l = "<li>" ++ oneLine d ++ "</li>"

-- The lines that open an item with a link, which is told by the quotes around its address.
def linkLines (x : Text) : List Text :=
  (itemLines x).filter ('"' ∈ ·)

variable {d l x y : Text} {t : Tree} {ts : List Tree} {rs : List Row} {step depth : Nat}

-- The rows that open an item.
def openedRows (rs : List Row) : List Text :=
  (rs.map Row.text).filter (startsWith · "<li>")

theorem opened_append (rs qs : List Row) :
    openedRows (rs ++ qs) = openedRows rs ++ openedRows qs := by
  rw [openedRows, List.map_append, List.filter_append, openedRows, openedRows]

theorem opened_cons (r : Row) (rs : List Row) :
    openedRows (r :: rs) = openedRows [r] ++ openedRows rs :=
  opened_append [r] rs

theorem opened_enclosed {first last : List Part} :
    openedRows (enclosed depth first last rs) =
      openedRows [⟨depth, first⟩] ++ (openedRows rs ++ openedRows [⟨depth, last⟩]) := by
  rw [enclosed, opened_cons, opened_append]

theorem opened_listRows (step depth : Nat) (ts : List Tree) :
    openedRows (listRows step depth ts) = openedRows (itemsRows step (depth + step) ts) := by
  have hf : openedRows [⟨depth, [.opening "ul"]⟩] = [] := rfl
  have hl : openedRows [⟨depth, [.closing "ul"]⟩] = [] := rfl
  rw [listRows, listed, opened_enclosed, hf, hl, List.nil_append, List.append_nil]

theorem opens_itemRows
    (h : ∀ depth, List.Forall₂ Opens (namesAll t.children)
      (openedRows (itemsRows step depth t.children))) :
    List.Forall₂ Opens (t.data :: namesAll t.children) (openedRows (itemRows step depth t)) := by
  rw [itemRows_eq_ite]
  split
  case isTrue hn =>
    rw [hn]
    exact .cons (.inr (by simp [Row.text, Part.print])) .nil
  case isFalse =>
    have hl : openedRows [⟨depth, [.closing "li"]⟩] = [] := rfl
    have hf : openedRows [⟨depth, [.opening "li", .content (oneLine t.data)]⟩] =
        ["<li>".toList ++ (oneLine t.data ++ [])] := rfl
    rw [opened_enclosed, opened_listRows, hl, hf, List.append_nil, List.append_nil]
    exact .cons (.inl rfl) (h _)

theorem opens_itemsRows (step depth : Nat) (ts : List Tree) :
    List.Forall₂ Opens (namesAll ts) (openedRows (itemsRows step depth ts)) := by
  induction ts using childrenInduction generalizing depth
  case nil => exact .nil
  case cons t ts ihc ihs =>
    rw [namesAll, names_eq, itemsRows, opened_append]
    exact List.rel_append (opens_itemRows ihc) (ihs depth)

-- The paragraph of the root is no item.
theorem opened_paragraphRows (step : Nat) (t : Tree) :
    openedRows (t.paragraphRows step) = openedRows (itemsRows step step t.children) := by
  rw [paragraphRows]
  split
  case isTrue hn =>
    rw [hn]
    rfl
  case isFalse =>
    have hf : openedRows [⟨0, [.opening "p", .content (oneLine t.data)]⟩] = [] := rfl
    have hl : openedRows [⟨0, [.closing "p"]⟩] = [] := rfl
    rw [opened_enclosed, opened_listRows, hf, hl, List.nil_append, List.append_nil,
      Nat.zero_add]

theorem opens_toHtml (step : Nat) (ho : ¬"<li>".toList <:+: oneLine t.data)
    (hc : ¬"</li>".toList <:+: oneLine t.data) :
    List.Forall₂ Opens (namesAll t.children) (itemLines (t.toHtml step)) := by
  have hr : itemLines (t.toHtml step) = openedRows (t.paragraphRows step) := by
    rw [itemLines, map_dropWhile_lines step ho hc, List.map_map]
    rfl
  rw [hr, opened_paragraphRows]
  exact opens_itemsRows step step t.children

-- Placeholders have no quotes in their labels, so that they are told from links.

theorem Opens.quote_iff (h : Opens d l) : '"' ∈ l ↔ '"' ∈ d := by
  have ho : '"' ∉ "<li>".toList := by decide
  have hc : '"' ∉ "</li>".toList := by decide
  have hd : '"' ∈ oneLine d ↔ '"' ∈ d := by
    refine ⟨fun hm => ?_, fun hm => mem_oneLine hm rfl⟩
    exact (of_mem_oneLine hm).elim (absurd · (by decide)) And.left
  cases h
  case inl h => rw [h, List.mem_append, or_iff_right ho, hd]
  case inr h => rw [h, List.mem_append, or_iff_left hc, List.mem_append, or_iff_right ho, hd]

theorem opens_linkLines (step : Nat) (hr : t.data = []) (hq : ∀ d ∈ carried [t], '"' ∈ d) :
    List.Forall₂ Opens (carried [t]) (linkLines (t.toHtml step)) := by
  rw [carried_placeholder hr] at hq ⊢
  have hd : ∀ d ∈ namesAll t.children, d ≠ [] ↔ '"' ∈ d := fun d hm =>
    ⟨fun hn => hq d (List.mem_filter.mpr ⟨hm, decide_eq_true hn⟩), List.ne_nil_of_mem⟩
  have ho := opens_toHtml step (t := t) (by rw [hr]; decide) (by rw [hr]; decide)
  have hf := (List.forall₂_and_left _ _).mpr ⟨hd, ho⟩
  refine (List.rel_filter (fun d l h => ?_) hf).imp fun d l h => h.right
  simp only [decide_eq_true_iff]
  rw [h.left, h.right.quote_iff]

-- Texts that stand some lines apart have the lines of each of them.

theorem linkLines_append_gap (x y : Text) :
    linkLines (x ++ ['\n', '\n'] ++ y) = linkLines x ++ linkLines y := by
  have h : itemLines (x ++ ['\n', '\n'] ++ y) = itemLines x ++ itemLines y := by
    rw [itemLines, splitLines_append_gap, List.map_append, List.filter_append]
    rfl
  rw [linkLines, h, List.filter_append, linkLines, linkLines]

theorem linkLines_joinBlocks (xs : List Text) :
    linkLines (joinBlocks xs) = xs.flatMap linkLines := by
  induction xs
  case nil => rfl
  case cons x xs ih =>
    cases xs
    case nil =>
      rw [joinBlocks, join_singleton, List.flatMap_singleton]
    case cons y ys =>
      rw [joinBlocks, join_cons_cons, linkLines_append_gap, List.flatMap_cons, ← ih, joinBlocks]

end DocPress.Tree
