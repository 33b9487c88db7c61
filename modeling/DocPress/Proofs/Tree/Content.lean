import DocPress.Proofs.Text.Ends
import DocPress.Proofs.Tree.Addresses
import DocPress.Proofs.Tree.Ladder

-- What is read from an outline holds all of its text, in order. Only white space and dashes are
-- lost on the way, and nothing that is left in a node looks like an item.

namespace DocPress

open Text

namespace Outline

-- A text without white space and dashes.
def content (x : Text) : Text :=
  x.filter fun c => !isBlank c && c ≠ '-'

variable {l x y : Text} {ls : List Text} {o : Outline} {p : Char → Bool}

theorem content_append (x y : Text) : content (x ++ y) = content x ++ content y :=
  List.filter_append x y

theorem content_eq_nil (h : ∀ c ∈ x, isBlank c ∨ c = '-') : content x = [] := by
  refine List.filter_eq_nil_iff.mpr fun c hc => ?_
  cases h c hc <;> simp [*]

theorem content_flatMap {α : Type} (f : α → Text) (as : List α) :
    content (as.flatMap f) = as.flatMap fun a => content (f a) :=
  List.filter_flatMap ..

theorem content_joinLines (ls : List Text) : content (joinLines ls) = ls.flatMap content := by
  cases ls
  case nil       => rfl
  case cons l ls => rw [joinLines_cons_eq, content_append, content_flatMap]; rfl

theorem content_splitLines (x : Text) : (splitLines x).flatMap content = content x := by
  rw [← content_joinLines, joinLines_splitLines]

theorem content_dropWhile (h : ∀ c, p c → isBlank c ∨ c = '-') (x : Text) :
    content (x.dropWhile p) = content x := by
  conv_rhs => rw [← List.takeWhile_append_dropWhile (p := p) (l := x), content_append]
  rw [content_eq_nil fun c hc => h c (List.mem_takeWhile_imp hc), List.nil_append]

theorem content_trimEndBy (h : ∀ c, p c → isBlank c ∨ c = '-') (x : Text) :
    content (trimEndBy p x) = content x := by
  have ⟨y, hy, hp⟩ := exists_trimEndBy_append p x
  conv_rhs => rw [← hy, content_append]
  rw [content_eq_nil fun c hc => h c (hp c hc), List.append_nil]

theorem content_trim (x : Text) : content (trim x) = content x := by
  have h : ∀ c, isBlank c → isBlank c ∨ c = '-' := fun _ => .inl
  rw [trim, trimBy_eq, content_trimEndBy h, content_dropWhile h]

theorem content_core (x : Text) : content (core x) = content x := by
  rw [core, content_trimEndBy (fun c hc => .inr (of_decide_eq_true hc)), content_trim]

theorem content_dropStart (h : ∀ c ∈ x, isBlank c ∨ c = '-') (l : Text) :
    content (dropStart x l) = content l := by
  rw [dropStart]
  split
  case isFalse => rfl
  case isTrue hp =>
    obtain ⟨r, hr⟩ := List.isPrefixOf_iff_prefix.mp hp
    rw [← hr, List.drop_left, content_append, content_eq_nil h, List.nil_append]

theorem content_emptied (l : Text) : content (emptied l) = content l := by
  rw [emptied]
  split
  case isFalse   => rfl
  case isTrue hb => exact (content_eq_nil fun c hc => .inl (List.all_eq_true.mp hb c hc)).symm

-- The margin and blank lines hold white space only.
theorem content_dedentLines (ls : List Text) :
    (dedentLines ls).flatMap content = ls.flatMap content := by
  have hm : ∀ c ∈ marginOf ((ls.map emptied).filter (· ≠ [])), isBlank c ∨ c = '-' := fun c hc =>
    .inl (isBlank_of_isIndent (isIndent_of_mem_marginOf hc))
  simp only [dedentLines_eq, List.flatMap_map, content_dropStart hm, content_emptied]

theorem content_dropSpaces (x : Text) : content (x.dropWhile (· = ' ')) = content x := by
  have hp : ∀ c, decide (c = ' ') → isBlank c ∨ c = '-' := fun c hc =>
    .inl (of_decide_eq_true hc ▸ rfl)
  exact content_dropWhile hp x

theorem content_item? {r : Text} (h : item? l = some r) : content r = content l := by
  unfold item? at h
  split at h
  case h_1 =>
    rw [← Option.some.inj h, content_dropSpaces]
    rfl
  case h_2 => contradiction

theorem groups_ne_nil (ls : List Text) : groups ls ≠ [] := by
  induction ls
  case nil          => exact List.cons_ne_nil _ _
  case cons l ls ih =>
    rw [groups]
    split
    case h_1 => simpa using ih
    case h_2 => exact List.cons_ne_nil _ _

theorem content_groups (ls : List Text) :
    (groups ls).flatMap (List.flatMap content) = ls.flatMap content := by
  induction ls
  case nil => rfl
  case cons l ls ih =>
    have ⟨g, gs, hg⟩ := List.exists_cons_of_ne_nil (groups_ne_nil ls)
    rw [hg, List.flatMap_cons] at ih
    rw [groups, hg]
    cases hi : item? l
    case none => simp [← ih]
    case some r => simp [← ih, content_item? hi]

theorem content_itemsOf (ls : List Text) :
    (itemsOf ls).flatMap content = (ls.dropWhile (!opensItem ·)).flatMap content := by
  have hf : ∀ xs : List Text, (xs.filter (· ≠ [])).flatMap content = xs.flatMap content := by
    intro xs
    induction xs
    case nil          => rfl
    case cons x xs ih => by_cases hx : x = [] <;> simp_all [content]
  rw [itemsOf, hf, List.flatMap_map]
  simp only [content_trim, content_joinLines]
  rw [content_groups, content_dedentLines]

theorem eq_of_read? (h : read? x = some o) :
    o = ⟨headerOf (splitLines (core x)), itemsOf (splitLines (core x))⟩ := by
  unfold read? at h
  split at h
  case isTrue  => contradiction
  case isFalse => exact (Option.some.inj h).symm

theorem content_read? (h : read? x = some o) :
    content o.header ++ o.items.flatMap content = content x := by
  rw [eq_of_read? h, headerOf, content_trim, content_joinLines, content_itemsOf,
    ← List.flatMap_append, List.takeWhile_append_dropWhile, content_splitLines, content_core]

theorem content_of_read?_eq_none (h : read? x = none) : content x = [] := by
  rw [← content_core]
  unfold read? at h
  split at h
  case isTrue hc => rw [hc]; rfl
  case isFalse   => contradiction

-- Nothing can be trimmed off the text, and no line of it opens an item.
structure Bare (x : Text) : Prop where
  trimmed : trim x = x
  noItem : ∀ l ∈ splitLines x, ∀ n, ¬spaces n ++ ['-', ' '] <+: l

theorem bare_nil : Bare [] := by
  refine ⟨rfl, fun l hl n hn => ?_⟩
  have hl : l = [] := List.mem_singleton.mp hl
  rw [hl, List.prefix_nil] at hn
  simp at hn

theorem opensItem_of_dash {n : Nat} (h : spaces n ++ ['-', ' '] <+: l) : opensItem l := by
  have ⟨r, hr⟩ := h
  have ho := Tree.opensItem_dash 1 n r
  rwa [Tree.dash, Nat.one_mul, hr] at ho

theorem not_opensItem_of_mem_splitLines (h : ∀ k ∈ ls, '\n' ∉ k)
    (hl : l ∈ splitLines (joinLines (ls.takeWhile (!opensItem ·)))) : opensItem l = false := by
  have hs := (List.takeWhile_prefix (!opensItem ·) (l := ls)).subset
  by_cases hn : ls.takeWhile (!opensItem ·) = []
  case pos =>
    rw [hn] at hl
    exact List.mem_singleton.mp hl ▸ rfl
  case neg =>
    rw [splitLines_joinLines (fun k hk => h k (hs hk)) hn] at hl
    simpa using List.mem_takeWhile_imp hl

-- Nothing is trimmed off in front of the header, so its lines begin like those in front of the
-- first item.
theorem bare_headerOf (h : ∀ c ∈ x.head?, isBlank c = false) : Bare (headerOf (splitLines x)) := by
  refine ⟨trim_trim _, fun l hl n hn => ?_⟩
  have ht := trim_prefix_of_head h (prefix_joinLines_takeWhile (!opensItem ·) x)
  have ⟨k, hk, hl⟩ := exists_prefix_of_mem_splitLines ht hl
  have ho := not_opensItem_of_mem_splitLines (fun _ => not_mem_of_mem_splitLines) hk
  exact Bool.false_ne_true (ho.symm.trans (opensItem_of_dash (hn.trans hl)))

theorem bare_of_read? (h : read? x = some o) : Bare o.header := by
  rw [eq_of_read? h]
  exact bare_headerOf head_core

-- A text is an outline of shorter texts, or none.
theorem itemsInduction {P : Text → Prop} (none : ∀ x, read? x = none → P x)
    (some : ∀ x o, read? x = some o → (∀ i ∈ o.items, P i) → P x) (x : Text) : P x := by
  cases h : read? x
  case none => exact none x h
  case some o =>
    exact some x o h fun i hi =>
      have := Nat.lt_of_lt_of_le (length_lt_of_mem_items h hi) (length_core_le x)
      itemsInduction none some i
termination_by x.length

end Outline

namespace Tree

open Outline

variable {x : Text} {o : Outline}

theorem names_ofOutline (h : read? x = some o) :
    (ofOutline x).names = o.header :: o.items.flatMap fun i => (ofOutline i).names := by
  rw [names_eq, ofOutline_of_read? h, data_named, children_named, namesAll_eq_flatMap,
    List.flatMap_map]

theorem ofOutline_of_read?_eq_none (h : read? x = none) : ofOutline x = leaf [] := by
  rw [ofOutline_eq, h]

theorem content_names_ofOutline (x : Text) : content (ofOutline x).names.flatten = content x := by
  induction x using itemsInduction
  case none x h => rw [ofOutline_of_read?_eq_none h, content_of_read?_eq_none h]; rfl
  case some x o h ih =>
    rw [names_ofOutline h, ← content_read? h, ← List.flatMap_congr ih, List.flatten_cons,
      content_append, ← List.flatMap_id, List.flatMap_assoc, content_flatMap]
    simp only [List.flatMap_id]

theorem bare_of_mem_names {d : Text} (hd : d ∈ (ofOutline x).names) : Bare d := by
  induction x using itemsInduction
  case none x h =>
    rw [ofOutline_of_read?_eq_none h] at hd
    exact List.mem_singleton.mp hd ▸ bare_nil
  case some x o h ih =>
    rw [names_ofOutline h] at hd
    cases hd
    case head => exact bare_of_read? h
    case tail hd =>
      have ⟨i, hi, hd⟩ := List.mem_flatMap.mp hd
      exact ih i hi hd

theorem at?_ofOutline_ne (x : Text) (p : List Nat) (d : Text) :
    (ofOutline x).at? p ≠ some (node d []) := by
  induction x using itemsInduction generalizing p
  case none x h =>
    rw [ofOutline_of_read?_eq_none h]
    cases p <;> simp [at?, children]
  case some x o h ih =>
    rw [ofOutline_of_read? h]
    cases p
    case nil => cases o.items <;> simp [at?, named]
    case cons i p =>
      rw [at?, children_named, List.getElem?_map]
      cases hi : o.items[i]?
      case none   => simp
      case some y => exact ih y (List.mem_of_getElem? hi) p

-- The tree holds all of the text in pre-order, and its nodes are laid bare.
structure Carries (t : Tree) (x : Text) : Prop where
  content : Outline.content t.names.flatten = Outline.content x
  bare : ∀ d ∈ t.names, Bare d
  children : ∀ p d, t.at? p ≠ some (node d [])

theorem carries_ofOutline (x : Text) : (ofOutline x).Carries x where
  content := content_names_ofOutline x
  bare _ := bare_of_mem_names
  children := at?_ofOutline_ne x

end Tree
end DocPress
