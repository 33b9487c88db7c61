import DocPress.Proofs.Text.Margin
import DocPress.Proofs.Tree.Nodes
import DocPress.Tree.Outline

-- Dash lists that are written from trees, and what is read from them.

namespace DocPress

open Text

-- A line that stands by itself and ends in neither white space nor a dash.
structure Tidy (l : Text) : Prop where
  nonempty : l ≠ []
  oneLine  : '\n' ∉ l
  last     : ∀ c ∈ l.getLast?, isBlank c = false ∧ c ≠ '-'

-- A name that is not taken for an item or for the space around one.
structure Plain (n : Text) : Prop extends Tidy n where
  head   : ∀ c ∈ n.head?, isBlank c = false
  noItem : startsWith n ['-', ' '] = false

variable {l h n x : Text} {ls ks : List Text} {t : Tree} {ts : List Tree} {step depth : Nat}

theorem tidy_iff : Tidy l ↔
    l ≠ [] ∧ '\n' ∉ l ∧ l.getLast?.all (fun c => !isBlank c && c ≠ '-') := by
  have h : l.getLast?.all (fun c => !isBlank c && c ≠ '-') ↔
      ∀ c ∈ l.getLast?, isBlank c = false ∧ c ≠ '-' := by cases l.getLast? <;> simp
  rw [h]
  exact ⟨fun ⟨h₁, h₂, h₃⟩ => ⟨h₁, h₂, h₃⟩, fun ⟨h₁, h₂, h₃⟩ => ⟨h₁, h₂, h₃⟩⟩

theorem plain_iff : Plain n ↔
    Tidy n ∧ n.head?.all (!isBlank ·) ∧ startsWith n ['-', ' '] = false := by
  have h : n.head?.all (!isBlank ·) ↔ ∀ c ∈ n.head?, isBlank c = false := by
    cases n.head? <;> simp
  rw [h]
  exact ⟨fun ⟨h₁, h₂, h₃⟩ => ⟨h₁, h₂, h₃⟩, fun ⟨h₁, h₂, h₃⟩ => ⟨h₁, h₂, h₃⟩⟩

instance (l : Text) : Decidable (Tidy l) :=
  decidable_of_iff _ tidy_iff.symm

instance (n : Text) : Decidable (Plain n) :=
  decidable_of_iff _ plain_iff.symm

namespace Tree

def dash (step depth : Nat) (d : Text) : Text :=
  spaces (step * depth) ++ ['-', ' '] ++ d

mutual

-- The line of an item with the lines of the items below it, which stand one step further in.
def dashes (step depth : Nat) : Tree → List Text
  | leaf d    => [dash step depth d]
  | node d ts => dash step depth d :: dashesAll step (depth + 1) ts

def dashesAll (step depth : Nat) : List Tree → List Text
  | []      => []
  | t :: ts => t.dashes step depth ++ dashesAll step depth ts

end

-- A list under its header, which has a line of its own unless it is empty.
def dashList (step : Nat) (h : Text) (ts : List Tree) : Text :=
  joinLines (if h = [] then dashesAll step 0 ts else h :: dashesAll step 0 ts)

end Tree

theorem last_joinLines (hn : ls ≠ []) (ht : ∀ k ∈ ls.getLast?, Tidy k) :
    ∀ c ∈ (joinLines ls).getLast?, isBlank c = false ∧ c ≠ '-' := by
  have ⟨ks, l, he⟩ := (List.eq_nil_or_concat ls).resolve_left hn
  rw [List.concat_eq_append] at he
  have hl : Tidy l := ht l (by simp [he])
  rw [he, ← List.nil_append l, joinLines_concat_append, List.getLast?_append_of_ne_nil _ hl.nonempty]
  exact hl.last

theorem trim_joinLines (hl : ∀ c ∈ l.head?, isBlank c = false) (hn : l ≠ [])
    (ht : ∀ k ∈ (l :: ls).getLast?, Tidy k) : trim (joinLines (l :: ls)) = joinLines (l :: ls) := by
  rw [← head?_joinLines hn] at hl
  exact trimBy_eq_self hl fun c hc => (last_joinLines (List.cons_ne_nil l ls) ht c hc).left

-- Lines between a first one and a last one that are tidy are read as they stand, with or without
-- white space after them.
theorem read?_lines (hl : ∀ c ∈ l.head?, isBlank c = false) (hn : l ≠ [])
    (ho : ∀ k ∈ l :: ls, '\n' ∉ k) (ht : ∀ k ∈ (l :: ls).getLast?, Tidy k) (hx : blank x) :
    Outline.read? (joinLines (l :: ls) ++ x) =
      some ⟨Outline.headerOf (l :: ls), Outline.itemsOf (l :: ls)⟩ := by
  have hlast := last_joinLines (List.cons_ne_nil l ls) ht
  have hc : Outline.core (joinLines (l :: ls) ++ x) = joinLines (l :: ls) := by
    rw [Outline.core, trim_append _ hx, trim_joinLines hl hn ht]
    exact trimEndBy_eq_self fun c hc => decide_eq_false (hlast c hc).right
  rw [Outline.read?, hc, if_neg (joinLines_ne_nil hn), splitLines_joinLines ho (List.cons_ne_nil l ls)]

theorem read?_lines_of_tidy (hl : ∀ c ∈ l.head?, isBlank c = false) (ht : ∀ k ∈ l :: ls, Tidy k)
    (hx : blank x) : Outline.read? (joinLines (l :: ls) ++ x) =
      some ⟨Outline.headerOf (l :: ls), Outline.itemsOf (l :: ls)⟩ :=
  read?_lines hl (ht l List.mem_cons_self).nonempty (fun k hk => (ht k hk).oneLine)
    (fun k hk => ht k (List.mem_of_mem_getLast? hk)) hx

namespace Plain

theorem dropWhile_eq (h : Plain n) : n.dropWhile (· = ' ') = n :=
  dropWhile_eq_self fun c hc => by
    have := h.head c hc
    simp only [decide_eq_false_iff_not]
    rintro rfl
    simp [isBlank] at this

theorem not_blank (h : Plain n) : blank n = false := by
  have ⟨c, x, hn⟩ := List.exists_cons_of_ne_nil h.nonempty
  exact not_blank_of_head (hn ▸ rfl) (h.head c (hn ▸ rfl))

theorem not_opensItem (h : Plain n) : Outline.opensItem n = false := by
  rw [Outline.opensItem, h.dropWhile_eq, h.noItem]

end Plain

namespace Tree

theorem dashesAll_cons (step depth : Nat) (t : Tree) (ts : List Tree) :
    dashesAll step depth (t :: ts) =
      dash step depth t.data ::
        (dashesAll step (depth + 1) t.children ++ dashesAll step depth ts) := by
  cases t <;> rfl

theorem tidy_dash (step depth : Nat) (h : Tidy n) : Tidy (dash step depth n) where
  nonempty := by simp [dash]
  oneLine  := by simp [dash, spaces, h.oneLine]
  last     := by rw [dash, List.getLast?_append_of_ne_nil _ h.nonempty]; exact h.last

theorem exists_of_mem_dashesAll (hl : l ∈ dashesAll step depth ts) :
    ∃ k, ∃ n ∈ namesAll ts, l = dash step k n := by
  induction ts using childrenInduction generalizing depth
  case nil => contradiction
  case cons t ts hu ht =>
    simp only [dashesAll_cons, List.mem_cons, List.mem_append] at hl
    simp only [namesAll_cons, List.mem_cons, List.mem_append]
    cases hl
    case inl hl => exact ⟨depth, t.data, .inl rfl, hl⟩
    case inr hl =>
      cases hl
      case inl hl =>
        have ⟨k, n, hn, hl⟩ := hu hl
        exact ⟨k, n, .inr (.inl hn), hl⟩
      case inr hl =>
        have ⟨k, n, hn, hl⟩ := ht hl
        exact ⟨k, n, .inr (.inr hn), hl⟩

theorem dash_succ (step depth : Nat) (d : Text) :
    dash step (depth + 1) d = spaces step ++ dash step depth d := by
  simp only [dash, Nat.mul_succ, Nat.add_comm _ step, spaces_add, List.append_assoc]

-- One level further in, all lines begin with one more step.
theorem dashesAll_succ (step depth : Nat) (ts : List Tree) :
    dashesAll step (depth + 1) ts = (dashesAll step depth ts).map (spaces step ++ ·) := by
  induction ts using childrenInduction generalizing depth
  case nil => rfl
  case cons t ts hu ht =>
    simp only [dashesAll_cons, List.map_cons, List.map_append, dash_succ, hu, ht]

theorem dashesAll_eq_map (step depth : Nat) (ts : List Tree) :
    dashesAll step depth ts = (dashesAll step 0 ts).map (spaces (step * depth) ++ ·) := by
  induction depth
  case zero => simp [spaces]
  case succ depth ih =>
    rw [dashesAll_succ, ih, List.map_map]
    simp only [Function.comp_def, Nat.mul_succ, Nat.add_comm _ step, spaces_add, List.append_assoc]

theorem not_blank_dash (step depth : Nat) (d : Text) : blank (dash step depth d) = false := by
  simp [dash, blank, isBlank]

theorem dedentLines_dashesAll (step depth : Nat) (ts : List Tree) :
    dedentLines (dashesAll step depth ts) = dashesAll step 0 ts := by
  cases ts
  case nil => rfl
  case cons t ts =>
    have hb : ∀ l ∈ dashesAll step 0 (t :: ts), blank l = false := by
      intro l hl
      have ⟨k, n, _, he⟩ := exists_of_mem_dashesAll hl
      exact he ▸ not_blank_dash step k n
    have hl : dash step 0 t.data ∈ dashesAll step 0 (t :: ts) :=
      dashesAll_cons .. ▸ List.mem_cons_self
    rw [dashesAll_eq_map, dedentLines_map_append (fun _ => isIndent_of_mem_spaces) hb]
    exact dedentLines_eq_self hb hl (by simp [dash, spaces, isIndent])

theorem item?_dash (step : Nat) (hn : Plain n) : Outline.item? (dash step 0 n) = some n := by
  simp [dash, spaces, Outline.item?, hn.dropWhile_eq]

theorem item?_spaces_append (hs : 1 ≤ step) (x : Text) :
    Outline.item? (spaces step ++ x) = none := by
  have ⟨s, hs⟩ := Nat.exists_eq_add_of_le' hs
  rw [hs]
  rfl

theorem item?_of_mem_dashesAll_succ (hs : 1 ≤ step) (hl : l ∈ dashesAll step (depth + 1) ts) :
    Outline.item? l = none := by
  rw [dashesAll_succ] at hl
  have ⟨k, _, he⟩ := List.mem_map.mp hl
  exact he ▸ item?_spaces_append hs k

theorem opensItem_dash (step depth : Nat) (n : Text) : Outline.opensItem (dash step depth n) := by
  have h : ∀ c ∈ spaces (step * depth), decide (c = ' ') := by simp [spaces]
  rw [Outline.opensItem, dash, List.append_assoc, List.dropWhile_append_of_pos h]
  rfl

theorem groups_append (hl : ∀ l ∈ ls, Outline.item? l = none) (ks : List Text) :
    Outline.groups (ls ++ ks) = (Outline.groups ks).modifyHead (ls ++ ·) := by
  induction ls
  case nil => cases h : Outline.groups ks <;> simp [h]
  case cons l ls ih =>
    have ⟨hl, hls⟩ := List.forall_mem_cons.mp hl
    rw [List.cons_append, Outline.groups, hl, ih hls]
    cases Outline.groups ks <;> rfl

-- The items at the margin are cut apart, with the deeper lines left where they are.
theorem groups_dashesAll (hs : 1 ≤ step) (hn : ∀ n ∈ namesAll ts, Plain n) :
    Outline.groups (dashesAll step 0 ts) =
      [] :: ts.map fun t => t.data :: dashesAll step 1 t.children := by
  induction ts
  case nil => rfl
  case cons t ts ih =>
    simp only [namesAll_cons, List.mem_cons, List.mem_append] at hn
    have hd := item?_dash step (hn _ (.inl rfl))
    rw [dashesAll_cons, Outline.groups, hd]
    simp only
    rw [groups_append fun l hl => item?_of_mem_dashesAll_succ hs hl]
    rw [ih fun n hm => hn n (.inr (.inr hm))]
    simp

theorem tidy_of_mem_dashesAll (hn : ∀ n ∈ namesAll ts, Plain n) (hl : l ∈ dashesAll step depth ts) :
    Tidy l := by
  have ⟨k, n, hm, he⟩ := exists_of_mem_dashesAll hl
  exact he ▸ tidy_dash step k (hn n hm).toTidy

-- The text of an item, which is its name with the items below it.
def itemText (step : Nat) (t : Tree) : Text :=
  joinLines (t.data :: dashesAll step 1 t.children)

theorem trim_itemText (hn : ∀ n ∈ t.names, Plain n) : trim (t.itemText step) = t.itemText step := by
  rw [names_eq] at hn
  have ⟨hd, hn⟩ := List.forall_mem_cons.mp hn
  have ht : ∀ l ∈ t.data :: dashesAll step 1 t.children, Tidy l :=
    List.forall_mem_cons.mpr ⟨hd.toTidy, fun l => tidy_of_mem_dashesAll hn⟩
  exact trim_joinLines hd.head hd.nonempty fun k hk => ht k (List.mem_of_mem_getLast? hk)

-- The header ends where the first item opens.
theorem takeWhile_append_items (hk : ∀ k ∈ ks, Plain k) (hl : ∀ l ∈ ls.head?, Outline.opensItem l) :
    (ks ++ ls).takeWhile (!Outline.opensItem ·) = ks := by
  have hk : ∀ k ∈ ks, !Outline.opensItem k := fun k hm => by simp [(hk k hm).not_opensItem]
  rw [List.takeWhile_append_of_pos hk]
  cases ls <;> simp_all

theorem dropWhile_append_items (hk : ∀ k ∈ ks, Plain k) (hl : ∀ l ∈ ls.head?, Outline.opensItem l) :
    (ks ++ ls).dropWhile (!Outline.opensItem ·) = ls := by
  have hk : ∀ k ∈ ks, !Outline.opensItem k := fun k hm => by simp [(hk k hm).not_opensItem]
  rw [List.dropWhile_append_of_pos hk]
  cases ls <;> simp_all

theorem opensItem_head_dashesAll (step depth : Nat) (ts : List Tree) :
    ∀ l ∈ (dashesAll step depth ts).head?, Outline.opensItem l := by
  cases ts
  case nil       => simp [dashesAll]
  case cons t ts => simp [dashesAll_cons, opensItem_dash]

theorem headerOf_append (hk : ∀ k ∈ ks, Plain k) (hl : ∀ l ∈ ls.head?, Outline.opensItem l) :
    Outline.headerOf (ks ++ ls) = joinLines ks := by
  rw [Outline.headerOf, takeWhile_append_items hk hl]
  cases ks
  case nil => rfl
  case cons k ks =>
    have hf := hk k List.mem_cons_self
    exact trim_joinLines hf.head hf.nonempty fun k hm => (hk k (List.mem_of_mem_getLast? hm)).toTidy

-- The texts of the items that open at the margin.
def itemTexts (ls : List Text) : List Text :=
  ((Outline.groups ls).map fun g => trim (joinLines g)).filter (· ≠ [])

theorem itemsOf_append (hk : ∀ k ∈ ks, Plain k) (hl : ∀ l ∈ ls.head?, Outline.opensItem l) :
    Outline.itemsOf (ks ++ ls) = itemTexts (dedentLines ls) := by
  rw [Outline.itemsOf, dropWhile_append_items hk hl, itemTexts]

theorem itemText_ne_nil (hn : ∀ n ∈ t.names, Plain n) : t.itemText step ≠ [] := by
  rw [names_eq] at hn
  exact joinLines_ne_nil (hn t.data List.mem_cons_self).nonempty

theorem itemTexts_dashesAll (hs : 1 ≤ step) (hn : ∀ n ∈ namesAll ts, Plain n) :
    itemTexts (dashesAll step 0 ts) = ts.map (itemText step) := by
  have hn' : ∀ t ∈ ts, ∀ n ∈ t.names, Plain n := fun t ht n hm => hn n (mem_namesAll_of_mem ht hm)
  have ht : ts.map (fun t => trim (t.itemText step)) = ts.map (itemText step) :=
    List.map_congr_left fun t hm => trim_itemText (hn' t hm)
  have hne : (ts.map (itemText step)).filter (· ≠ []) = ts.map (itemText step) := by
    apply List.filter_eq_self.mpr
    intro x hx
    apply decide_eq_true
    have ⟨t, hm, hx⟩ := List.mem_map.mp hx
    exact hx ▸ itemText_ne_nil (hn' t hm)
  rw [itemTexts, groups_dashesAll hs hn, List.map_cons, List.map_map]
  exact .trans (List.filter_cons_of_neg (by simp [joinLines, trim, trimBy])) (ht ▸ hne)

theorem head_append (step : Nat) (hk : ∀ k ∈ ks, Plain k) (hd : ks = [] → depth = 0 ∧ ts ≠ []) :
    ∃ l ls, ks ++ dashesAll step depth ts = l :: ls ∧ ∀ c ∈ l.head?, isBlank c = false := by
  cases ks
  case cons k ks => exact ⟨k, _, rfl, (hk k List.mem_cons_self).head⟩
  case nil =>
    have ⟨hd, hts⟩ := hd rfl
    have ⟨t, ts, hts⟩ := List.exists_cons_of_ne_nil hts
    exact ⟨_, _, hts ▸ dashesAll_cons step depth t ts, by simp [hd, dash, spaces, isBlank]⟩

theorem tidy_append (step depth : Nat) (hk : ∀ k ∈ ks, Plain k) (hn : ∀ n ∈ namesAll ts, Plain n) :
    ∀ l ∈ ks ++ dashesAll step depth ts, Tidy l := by
  intro l hl
  cases List.mem_append.mp hl
  case inl hl => exact (hk l hl).toTidy
  case inr hl => exact tidy_of_mem_dashesAll hn hl

-- One level of a list is taken apart into the lines before it and the texts of its items. The items
-- may stand at any depth, unless nothing is before them.
theorem read?_joinLines (depth : Nat) (hs : 1 ≤ step) (hk : ∀ k ∈ ks, Plain k)
    (hn : ∀ n ∈ namesAll ts, Plain n) (hd : ks = [] → depth = 0 ∧ ts ≠ []) (hx : blank x) :
    Outline.read? (joinLines (ks ++ dashesAll step depth ts) ++ x) =
      some ⟨joinLines ks, ts.map (itemText step)⟩ := by
  have ⟨l, ls, he, hl⟩ := head_append step hk hd
  have ht := tidy_append step depth hk hn
  have hh := headerOf_append hk (opensItem_head_dashesAll step depth ts)
  have hi : Outline.itemsOf (ks ++ dashesAll step depth ts) = ts.map (itemText step) := by
    rw [itemsOf_append hk (opensItem_head_dashesAll step depth ts), dedentLines_dashesAll,
      itemTexts_dashesAll hs hn]
  rw [he] at ht hh hi ⊢
  rw [read?_lines_of_tidy hl ht hx, hh, hi]

theorem ofOutline_joinLines (depth : Nat) (hs : 1 ≤ step) (hk : ∀ k ∈ ks, Plain k)
    (hn : ∀ n ∈ namesAll ts, Plain n) (hd : ks = [] → depth = 0 ∧ ts ≠ []) (hx : blank x) :
    ofOutline (joinLines (ks ++ dashesAll step depth ts) ++ x) =
      if ts = [] then leaf (joinLines ks)
      else node (joinLines ks) ((ts.map (itemText step)).map ofOutline) := by
  rw [ofOutline_eq, read?_joinLines depth hs hk hn hd hx]
  simp only [List.map_eq_nil_iff]

-- The text of an item is read as the tree it was written from.
theorem map_ofOutline_itemText (hs : 1 ≤ step) (hn : ∀ n ∈ namesAll ts, Plain n) :
    (ts.map (itemText step)).map ofOutline = prunedAll ts := by
  induction ts using childrenInduction
  case nil => rfl
  case cons t ts hu ht =>
    rw [namesAll_cons, List.forall_mem_cons, List.forall_mem_append] at hn
    have ⟨hd, hnu, hnt⟩ := hn
    have hk : ∀ k ∈ [t.data], Plain k := List.forall_mem_singleton.mpr hd
    have h := ofOutline_joinLines 1 hs hk hnu (by simp) (x := []) rfl
    rw [List.append_nil, joinLines_singleton, hu hnu, ← pruned_eq_ite] at h
    rw [List.map_cons, List.map_cons, ht hnt, prunedAll]
    exact congrArg (· :: prunedAll ts) h

-- A dash list keeps the nesting it was written with. White space after it changes nothing.
theorem ofOutline_dashList (hs : 1 ≤ step) (hts : ts ≠ []) (hh : h ≠ [] → Plain h)
    (hn : ∀ n ∈ namesAll ts, Plain n) (hx : blank x) :
    ofOutline (dashList step h ts ++ x) = node h (prunedAll ts) := by
  have hk : ∀ k ∈ [h].filter (· ≠ []), Plain k := by simpa using hh
  have hl : dashList step h ts = joinLines ([h].filter (· ≠ []) ++ dashesAll step 0 ts) := by
    rw [dashList]
    split <;> simp_all
  have hj : joinLines ([h].filter (· ≠ [])) = h := by
    by_cases hh : h = [] <;> simp [hh, joinLines]
  rw [hl, ofOutline_joinLines 0 hs hk hn (fun _ => ⟨rfl, hts⟩) hx, if_neg hts, hj]
  rw [map_ofOutline_itemText hs hn]

theorem ofOutline_dashList_nested :
    let ts := [node ['a'] [leaf ['b'], node ['c'] [leaf ['-', 'd']]], leaf ['e']]
    1 ≤ 2 ∧ ts ≠ [] ∧ (['h'] ≠ [] → Plain ['h']) ∧ (∀ n ∈ namesAll ts, Plain n) ∧ blank ['\n'] ∧
      ofOutline (dashList 2 ['h'] ts ++ ['\n']) = node ['h'] ts := by
  intro ts
  have hts : ts ≠ [] := List.cons_ne_nil _ _
  have hh : ['h'] ≠ [] → Plain ['h'] := by decide
  have hn : ∀ n ∈ namesAll ts, Plain n := by decide
  have h : ofOutline (dashList 2 ['h'] ts ++ ['\n']) = node ['h'] (prunedAll ts) :=
    ofOutline_dashList (by decide) hts hh hn rfl
  exact ⟨by decide, hts, hh, hn, rfl, h⟩

example : dashList 2 ['h'] [node ['a'] [leaf ['b'], leaf ['c']], leaf ['d']] =
    "h\n- a\n  - b\n  - c\n- d".toList := by decide

end Tree
end DocPress
