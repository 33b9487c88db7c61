import DocPress.Proofs.Text.Markup
import DocPress.Proofs.Text.Replace
import DocPress.Proofs.Tree.Nodes
import DocPress.Tree.Html

-- The HTML of a tree, printed from the top. A row is printed at its depth once and for all, where
-- the views of subtrees are moved to the right level by level and moved back in the end.

namespace DocPress.Tree

open Text Markup

def listed (depth : Nat) (rows : List Row) : List Row :=
  enclosed depth [.opening "ul"] [.closing "ul"] rows

mutual

-- The rows of an item. Below its label stands the list of its children, one step to the right, and
-- in it the items of the children, one more step to the right.
def itemRows (step depth : Nat) : Tree → List Row
  | leaf d           => [⟨depth, [.opening "li", .content (oneLine d), .closing "li"]⟩]
  | node d []        => [⟨depth, [.opening "li", .content (oneLine d), .closing "li"]⟩]
  | node d (t :: ts) =>
    enclosed depth [.opening "li", .content (oneLine d)] [.closing "li"]
      (listed (depth + step) (itemsRows step (depth + step + step) (t :: ts)))

def itemsRows (step depth : Nat) : List Tree → List Row
  | []      => []
  | t :: ts => itemRows step depth t ++ itemsRows step depth ts

end

-- A list at a depth, with its items one step to the right.
def listRows (step depth : Nat) (ts : List Tree) : List Row :=
  listed depth (itemsRows step (depth + step) ts)

-- The root is a paragraph, and the list of its children stands at the margin.
def paragraphRows (step : Nat) (t : Tree) : List Row :=
  if t.children = [] then [⟨0, [.opening "p", .content (oneLine t.data), .closing "p"]⟩]
  else
    enclosed 0 [.opening "p", .content (oneLine t.data)] [.closing "p"]
      (listRows step 0 t.children)

variable {step depth k : Nat} {d x : Text} {t : Tree} {ts : List Tree} {rs : List Row}

theorem itemRows_eq_ite (step depth : Nat) (t : Tree) :
    itemRows step depth t =
      if t.children = [] then
        [⟨depth, [.opening "li", .content (oneLine t.data), .closing "li"]⟩]
      else
        enclosed depth [.opening "li", .content (oneLine t.data)] [.closing "li"]
          (listRows step (depth + step) t.children) := by
  match t with
  | leaf d           => rfl
  | node d []        => rfl
  | node d (t :: ts) => rfl

theorem item_eq_ite (s : Text) (t : Tree) :
    item s t =
      if t.children = [] then "<li>" ++ oneLine t.data ++ "</li>"
      else
        "<li>" ++ oneLine t.data ++ "\n" ++
          indent s ("<ul>\n" ++ indent s (joinLines (items s t.children)) ++ "\n</ul>") ++
          "\n</li>" := by
  match t with
  | leaf d           => rfl
  | node d []        => rfl
  | node d (t :: ts) => rfl

theorem itemRows_ne_nil (step depth : Nat) (t : Tree) : itemRows step depth t ≠ [] := by
  rw [itemRows_eq_ite]
  split <;> exact List.cons_ne_nil _ _

theorem itemsRows_ne_nil (h : ts ≠ []) : itemsRows step depth ts ≠ [] := by
  cases ts
  case nil       => contradiction
  case cons t ts => exact List.append_ne_nil_of_left_ne_nil (itemRows_ne_nil step depth t) _

-- The rows of items depend on their depth by a shift only.
theorem map_shift_itemsRows (step k depth : Nat) (ts : List Tree) :
    (itemsRows step depth ts).map (Row.shift k) = itemsRows step (k + depth) ts := by
  induction ts using childrenInduction generalizing depth
  case nil => rfl
  case cons t ts ihc ihs =>
    simp only [itemsRows, itemRows_eq_ite, listRows, listed, List.map_append, ihs, apply_ite,
      map_shift_enclosed, ihc, Nat.add_assoc]
    rfl

theorem labelled_proper {tag : Text} (ht : Spaced tag) (depth : Nat) (d : Text) :
    Row.Proper ⟨depth, [.opening tag, .content (oneLine d)]⟩ :=
  .opening ht (List.forall_mem_singleton.mpr (spaced_oneLine d))

theorem element_proper {tag : Text} (ht : Spaced tag) (depth : Nat) (d : Text) :
    Row.Proper ⟨depth, [.opening tag, .content (oneLine d), .closing tag]⟩ :=
  .opening ht
    (List.forall_mem_cons.mpr ⟨spaced_oneLine d, (Row.Proper.closing depth ht).spaced⟩)

theorem listed_proper (hr : ∀ r ∈ rs, r.Proper) : ∀ r ∈ listed depth rs, r.Proper :=
  enclosed_proper (.opening (by decide) (List.forall_mem_nil _))
    (.closing depth (by decide)) hr

theorem itemRows_proper (hr : ∀ depth, ∀ r ∈ itemsRows step depth t.children, r.Proper) :
    ∀ r ∈ itemRows step depth t, r.Proper := by
  have hli : Spaced "li" := by decide
  rw [itemRows_eq_ite]
  split
  case isTrue => exact List.forall_mem_singleton.mpr (element_proper hli depth _)
  case isFalse =>
    exact enclosed_proper (labelled_proper hli depth _) (.closing depth hli) (listed_proper (hr _))

theorem itemsRows_proper (step depth : Nat) (ts : List Tree) :
    ∀ r ∈ itemsRows step depth ts, r.Proper := by
  induction ts using childrenInduction generalizing depth
  case nil => exact List.forall_mem_nil _
  case cons t ts ihc ihs => exact List.forall_mem_append.mpr ⟨itemRows_proper ihc, ihs depth⟩

theorem listRows_ne_nil (step depth : Nat) (ts : List Tree) : listRows step depth ts ≠ [] :=
  List.cons_ne_nil _ _

theorem map_shift_listRows (step k depth : Nat) (ts : List Tree) :
    (listRows step depth ts).map (Row.shift k) = listRows step (k + depth) ts := by
  rw [listRows, listed, map_shift_enclosed, map_shift_itemsRows, ← Nat.add_assoc]
  rfl

theorem listRows_proper (step depth : Nat) (ts : List Tree) :
    ∀ r ∈ listRows step depth ts, r.Proper :=
  listed_proper (itemsRows_proper step _ ts)

-- The views that are put together from the leaves up are the printed rows.

theorem list_eq (hn : ts ≠ []) (h : joinLines (items (spaces step) ts) =
      joinLines ((itemsRows step 0 ts).map Row.print)) :
    "<ul>\n" ++ indent (spaces step) (joinLines (items (spaces step) ts)) ++ "\n</ul>" =
      joinLines ((listRows step 0 ts).map Row.print) := by
  rw [h, indent_print (itemsRows_proper step 0 ts) (itemsRows_ne_nil hn), map_shift_itemsRows,
    listRows, listed, joinLines_enclosed (itemsRows_ne_nil hn)]
  simp [spaces, Part.print]

theorem item_eq (h : joinLines (items (spaces step) t.children) =
      joinLines ((itemsRows step 0 t.children).map Row.print)) :
    item (spaces step) t = joinLines ((itemRows step 0 t).map Row.print) := by
  rw [item_eq_ite, itemRows_eq_ite]
  split
  case isTrue => simp [Row.print, Row.text, spaces, Part.print]
  case isFalse hn =>
    rw [list_eq hn h, indent_print (listRows_proper step 0 _) (listRows_ne_nil step 0 _),
      map_shift_listRows, joinLines_enclosed (listRows_ne_nil _ _ _)]
    simp [spaces, Part.print]

theorem items_eq (step : Nat) (ts : List Tree) :
    joinLines (items (spaces step) ts) = joinLines ((itemsRows step 0 ts).map Row.print) := by
  induction ts using childrenInduction
  case nil => rfl
  case cons t ts ihc ihs =>
    rw [items, item_eq ihc, itemsRows, List.map_append]
    by_cases hn : ts = []
    case pos => simp [hn, items, itemsRows]
    case neg =>
      have hi : items (spaces step) ts ≠ [] := by
        cases ts
        case nil  => contradiction
        case cons => exact List.cons_ne_nil _ _
      rw [joinLines_cons _ hi, ihs, joinLines_append]
      case hl => simpa using itemRows_ne_nil step 0 t
      case hk => simpa using itemsRows_ne_nil hn

-- The root.

theorem unindentBody_rows {l z : Text} {ls : List Text} (h : ∀ k ∈ l :: (ls ++ [z]), IsRow k) :
    unindentBody (joinLines (l :: (ls ++ [z]))) = joinLines [l, dedent (joinLines ls), z] := by
  have hd : ((l :: (ls ++ [z])).drop 1).dropLast = ls := List.dropLast_concat
  have hz : (l :: (ls ++ [z])).getLastD [] = z := List.getLastD_cons.trans List.getLastD_concat
  have hn : ¬(l :: (ls ++ [z])).length < 2 := by simp
  rw [unindentBody, lines_of_rows h]
  simp only [hd, hz, if_neg hn, List.headD_cons]

theorem unindentBody_row {l : Text} (hl : IsRow l) : unindentBody l = l := by
  have h : lines (joinLines [l]) = [l] := lines_of_rows (List.forall_mem_singleton.mpr hl)
  rw [joinLines_singleton] at h
  simp [unindentBody, h]

theorem asParagraph_row {l : Text} (hl : IsRow l) :
    asParagraph l = replace "</li>" "</p>" (replace "<li>" "<p>" l) := by
  have h : lines (joinLines [l]) = [l] := lines_of_rows (List.forall_mem_singleton.mpr hl)
  rw [joinLines_singleton] at h
  simp [asParagraph, h]

theorem asParagraph_rows {l z : Text} {ls : List Text} (h : ∀ k ∈ l :: (ls ++ [z]), IsRow k) :
    asParagraph (joinLines (l :: (ls ++ [z]))) =
      joinLines (replace "<li>" "<p>" l :: (ls ++ [replace "</li>" "</p>" z])) := by
  have hm : (l :: (ls ++ [z])).modifyHead (replace "<li>" "<p>") =
      replace "<li>" "<p>" l :: ls ++ [z] := rfl
  rw [asParagraph, lines_of_rows h, hm, List.dropLast_concat, List.getLast?_concat]
  rfl

theorem unindentBody_item (step : Nat) (hn : t.children ≠ []) :
    unindentBody (item (spaces step) t) =
      joinLines ((enclosed 0 [.opening "li", .content (oneLine t.data)] [.closing "li"]
        (listRows step 0 t.children)).map Row.print) := by
  have hp : ∀ l ∈ (itemRows step 0 t).map Row.print, IsRow l :=
    isRow_of_mem_print (itemRows_proper (itemsRows_proper step · t.children))
  have hr := listRows_proper step 0 t.children
  rw [itemRows_eq_ite, if_neg hn, Nat.zero_add] at hp
  rw [item_eq (items_eq step _), itemRows_eq_ite, if_neg hn, Nat.zero_add]
  rw [map_print_enclosed] at hp ⊢
  have hs : listRows step step t.children = (listRows step 0 t.children).map (Row.shift step) :=
    (map_shift_listRows step step 0 t.children).symm
  rw [unindentBody_rows hp, hs, dedent_print_shift hr ⟨_, List.mem_cons_self, rfl⟩,
    joinLines_enclosed (listRows_ne_nil step 0 _)]
  simp [joinLines_cons]

-- The tags of the root are the only ones that are replaced.

theorem replace_opening (ho : ¬"<li>".toList <:+: x) {y : Text} (hy : ∀ d ∈ y.head?, d = '<') :
    replace "<li>" "<p>" ("<li>" ++ (x ++ y)) = "<p>" ++ (x ++ replace "<li>" "<p>" y) := by
  have h : replace "<li>" "<p>" (x ++ y) = x ++ replace "<li>" "<p>" y :=
    replace_append "<p>" (by decide) ho hy
  rw [replace_match _ (by decide), h]

theorem replace_closing : replace "</li>" "</p>" "</li>" = "</p>".toList := by
  have hn : "</li>".toList ≠ [] := by decide
  simpa using replace_match "</p>" hn []

theorem replace_element (ho : ¬"<li>".toList <:+: x) (hc : ¬"</li>".toList <:+: x) :
    replace "</li>" "</p>" (replace "<li>" "<p>" ("<li>" ++ (x ++ "</li>"))) =
      "<p>" ++ (x ++ "</p>") := by
  have hd : ∀ d ∈ "</li>".toList.head?, d = '<' := by simp
  have hl : replace "<li>" "<p>" "</li>" = "</li>".toList :=
    replace_eq_self "<p>" (by decide) (by decide)
  have hx : replace "</li>" "</p>" (x ++ "</li>") = x ++ replace "</li>" "</p>" "</li>" :=
    replace_append "</p>" (by decide) hc hd
  have hp : "<p>".toList ++ (x ++ "</li>".toList) =
      '<' :: 'p' :: '>' :: (x ++ "</li>".toList) := rfl
  rw [replace_opening ho hd, hl, hp, replace_of_zero _ rfl, replace_of_zero _ rfl,
    replace_of_zero _ rfl, hx, replace_closing]
  rfl

theorem toHtml_eq_rows (step : Nat) (ho : ¬"<li>".toList <:+: oneLine t.data)
    (hc : ¬"</li>".toList <:+: oneLine t.data) :
    t.toHtml step = joinLines ((t.paragraphRows step).map Row.print) := by
  have hli : Spaced "li" := by decide
  rw [toHtml, paragraphRows]
  split
  case isTrue hn =>
    have hi : item (spaces step) t = "<li>" ++ (oneLine t.data ++ "</li>") := by
      rw [item_eq_ite, if_pos hn, List.append_assoc]
    have hr : IsRow ("<li>" ++ (oneLine t.data ++ "</li>")) := by
      simpa [Row.print, Row.text, Part.print, spaces] using (element_proper hli 0 t.data).isRow
    rw [hi, unindentBody_row hr, asParagraph_row hr, replace_element ho hc]
    simp [Row.print, Row.text, Part.print, spaces]
  case isFalse hn =>
    have hr := isRow_of_mem_print <| enclosed_proper (labelled_proper hli 0 t.data)
      (.closing 0 hli) (listRows_proper step 0 t.children)
    have hl : replace "<li>" "<p>"
          (spaces 0 ++ [.opening "li", .content (oneLine t.data)].flatMap Part.print) =
        spaces 0 ++ [.opening "p", .content (oneLine t.data)].flatMap Part.print := by
      simpa [Part.print, spaces] using replace_opening ho (y := []) (by simp)
    have hz : replace "</li>" "</p>" (spaces 0 ++ [.closing "li"].flatMap Part.print) =
        spaces 0 ++ [.closing "p"].flatMap Part.print := by
      simpa [Part.print, spaces] using replace_closing
    rw [map_print_enclosed] at hr
    rw [unindentBody_item step hn, map_print_enclosed, asParagraph_rows hr, hl, hz,
      map_print_enclosed]

-- What is said about all rows.

theorem paragraphRows_proper (step : Nat) (t : Tree) : ∀ r ∈ t.paragraphRows step, r.Proper := by
  have hp : Spaced "p" := by decide
  rw [paragraphRows]
  split
  case isTrue => exact List.forall_mem_singleton.mpr (element_proper hp 0 _)
  case isFalse =>
    exact enclosed_proper (labelled_proper hp 0 _) (.closing 0 hp) (listRows_proper step 0 _)

theorem nested_listed (hr : Nested (rs.flatMap Row.parts)) :
    Nested ((listed depth rs).flatMap Row.parts) := by
  rw [listed, flatMap_parts_enclosed]
  exact .element hr

theorem nested_itemsRows (step depth : Nat) (ts : List Tree) :
    Nested ((itemsRows step depth ts).flatMap Row.parts) := by
  induction ts using childrenInduction generalizing depth
  case nil => exact .nil
  case cons t ts ihc ihs =>
    rw [itemsRows, itemRows_eq_ite, List.flatMap_append]
    refine .append ?_ (ihs depth)
    split
    case isTrue => exact .element (.content .nil)
    case isFalse =>
      rw [flatMap_parts_enclosed]
      exact .element (.content (nested_listed (ihc _)))

theorem nested_paragraphRows (step : Nat) (t : Tree) :
    Nested ((t.paragraphRows step).flatMap Row.parts) := by
  rw [paragraphRows]
  split
  case isTrue => exact .element (.content .nil)
  case isFalse =>
    rw [flatMap_parts_enclosed]
    exact .element (.content (nested_listed (nested_itemsRows step _ _)))

-- The step decides about the depths only.
theorem map_parts_itemsRows (step k depth depth' : Nat) (ts : List Tree) :
    (itemsRows step depth ts).map Row.parts = (itemsRows k depth' ts).map Row.parts := by
  induction ts using childrenInduction generalizing depth depth'
  case nil => rfl
  case cons t ts ihc ihs =>
    simp only [itemsRows, itemRows_eq_ite, List.map_append]
    rw [ihs depth depth']
    split
    case isTrue => rfl
    case isFalse =>
      simp only [map_parts_enclosed, listRows, listed]
      rw [ihc (depth + step + step) (depth' + k + k)]

theorem map_parts_paragraphRows (step k : Nat) (t : Tree) :
    (t.paragraphRows step).map Row.parts = (t.paragraphRows k).map Row.parts := by
  simp only [paragraphRows]
  split
  case isTrue => rfl
  case isFalse =>
    simp only [map_parts_enclosed, listRows, listed]
    rw [map_parts_itemsRows step k (0 + step) (0 + k)]

-- The lines of the HTML behind the spaces that they are indented by.
theorem map_dropWhile_lines (step : Nat) (ho : ¬"<li>".toList <:+: oneLine t.data)
    (hc : ¬"</li>".toList <:+: oneLine t.data) :
    (splitLines (t.toHtml step)).map (List.dropWhile (· = ' ')) =
      ((t.paragraphRows step).map Row.parts).map (List.flatMap Part.print) := by
  have hr := paragraphRows_proper step t
  have hn : (t.paragraphRows step).map Row.print ≠ [] := by
    rw [paragraphRows]
    split <;> exact List.cons_ne_nil _ _
  rw [toHtml_eq_rows step ho hc, splitLines_of_rows (isRow_of_mem_print hr) hn, List.map_map,
    List.map_map]
  exact List.map_congr_left fun r h => (hr r h).dropWhile_print

-- The HTML is what is printed from the top, the tags that it adds are properly nested, and another
-- step changes nothing but the spaces in front of the lines.
theorem toHtml_printed (step : Nat) (t : Tree) (ho : ¬"<li>".toList <:+: oneLine t.data)
    (hc : ¬"</li>".toList <:+: oneLine t.data) :
    t.toHtml step = joinLines ((t.paragraphRows step).map Row.print) ∧
    Nested ((t.paragraphRows step).flatMap Row.parts) ∧
    ∀ k, (splitLines (t.toHtml k)).map (List.dropWhile (· = ' ')) =
      (splitLines (t.toHtml step)).map (List.dropWhile (· = ' ')) := by
  refine ⟨toHtml_eq_rows step ho hc, nested_paragraphRows step t, fun k => ?_⟩
  rw [map_dropWhile_lines k ho hc, map_dropWhile_lines step ho hc, map_parts_paragraphRows k step]

theorem toHtml_printed_tags :
    let t := node "a\n</ul>" [node "<li>" [leaf " x", node "" []], leaf "y  z"]
    ¬"<li>".toList <:+: oneLine t.data ∧ ¬"</li>".toList <:+: oneLine t.data ∧
      t.toHtml 2 = joinLines
        ["<p>a </ul>", "<ul>", "  <li><li>", "    <ul>", "      <li>x</li>", "      <li></li>",
          "    </ul>", "  </li>", "  <li>y z</li>", "</ul>", "</p>"] := by
  intro t
  have ho : ¬"<li>".toList <:+: oneLine t.data := by decide +kernel
  have hc : ¬"</li>".toList <:+: oneLine t.data := by decide +kernel
  exact ⟨ho, hc, (toHtml_printed 2 t ho hc).left.trans rfl⟩

end DocPress.Tree
