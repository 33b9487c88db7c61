import Mathlib.Data.List.Flatten
import DocPress.Disk.Basic
import DocPress.Proofs.Lists
import DocPress.Proofs.Tree.Content

-- Reading an outline comes to an end. The items of a text are parts of it from which at least a
-- dash is missing, so they get shorter and shorter, and no more of them can lie within each other
-- than the text has characters.

namespace DocPress

open Text

namespace Text

variable {x y : Text}

theorem bytes_le_of_sublist (h : x.Sublist y) : Disk.bytes x ≤ Disk.bytes y := by
  induction h
  case slnil          => rfl
  case cons c _ ih    => exact ih.trans (Nat.le_add_left _ _)
  case cons_cons _ ih => exact Nat.add_le_add_left ih _

-- A part of a text takes fewer bytes, whatever the characters are that it leaves out.
theorem bytes_lt_of_sublist (h : x.Sublist y) (hl : x.length < y.length) :
    Disk.bytes x < Disk.bytes y := by
  induction h
  case slnil => contradiction
  case cons c h _ =>
    exact Nat.lt_of_le_of_lt (bytes_le_of_sublist h) (Nat.lt_add_of_pos_left c.utf8Size_pos)
  case cons_cons ih => exact Nat.add_lt_add_left (ih (Nat.lt_of_succ_lt_succ hl)) _

end Text

namespace Outline

-- The text is one of the items that are read from the other one.
def IsItem (i x : Text) : Prop :=
  ∃ o, read? x = some o ∧ i ∈ o.items

variable {g ls : List Text} {i l r x : Text}

theorem sublist_of_item? (h : item? l = some r) : r.Sublist l := by
  unfold item? at h
  split at h
  case h_1 => exact Option.some.inj h ▸ ((List.dropWhile_sublist _).cons _).cons _
  case h_2 => contradiction

-- A group holds parts of lines that stand one below the other.
theorem sublist_of_mem_groups (h : g ∈ groups ls) :
    (g.flatMap ('\n' :: ·)).Sublist (ls.flatMap ('\n' :: ·)) := by
  induction ls generalizing g
  case nil => exact List.mem_singleton.mp h ▸ .refl _
  case cons l ls ih =>
    have ⟨k, ks, hk⟩ := List.exists_cons_of_ne_nil (groups_ne_nil ls)
    have ⟨hfirst, hrest⟩ := List.forall_mem_cons.mp fun g hg => ih (g := g) (hk ▸ hg)
    have hadd : ∀ r, r.Sublist l →
        ((r :: k).flatMap ('\n' :: ·)).Sublist ((l :: ls).flatMap ('\n' :: ·)) :=
      fun r hr => (hr.cons_cons '\n').append hfirst
    have hskip : ∀ g ∈ ks, (g.flatMap ('\n' :: ·)).Sublist ((l :: ls).flatMap ('\n' :: ·)) :=
      fun g hg => (hrest g hg).trans (List.sublist_append_right _ _)
    rw [groups, hk] at h
    cases hi : item? l
    case none =>
      rw [hi] at h
      cases List.mem_cons.mp h
      case inl he => exact he ▸ hadd l (.refl l)
      case inr hg => exact hskip g hg
    case some r =>
      rw [hi] at h
      cases List.mem_cons.mp h
      case inl he => exact he ▸ List.nil_sublist _
      case inr h =>
        cases List.mem_cons.mp h
        case inl he => exact he ▸ hadd r (sublist_of_item? hi)
        case inr hg => exact hskip g hg

theorem sublist_dedentLines (ls : List Text) :
    ((dedentLines ls).flatMap ('\n' :: ·)).Sublist (ls.flatMap ('\n' :: ·)) := by
  rw [dedentLines_eq, List.map_map, List.flatMap_map]
  exact .flatMap_right ls fun l _ =>
    ((sublist_dropStart _ _).trans (sublist_emptied l)).cons_cons '\n'

theorem sublist_joinLines {ks : List Text}
    (h : (ks.flatMap ('\n' :: ·)).Sublist (ls.flatMap ('\n' :: ·))) :
    (joinLines ks).Sublist (joinLines ls) := by
  cases ks
  case nil => exact List.nil_sublist _
  case cons k ks =>
    cases ls
    case nil => simp at h
    case cons l ls =>
      have hk := flatMap_lineFeed (List.cons_ne_nil k ks)
      have hl := flatMap_lineFeed (List.cons_ne_nil l ls)
      rwa [hk, hl, List.cons_sublist_cons] at h

theorem sublist_of_mem_itemsOf (h : i ∈ itemsOf ls) : i.Sublist (joinLines ls) := by
  have ⟨hm, _⟩ := List.mem_filter.mp h
  have ⟨g, hg, he⟩ := List.mem_map.mp hm
  have hd : ((ls.dropWhile (!opensItem ·)).flatMap ('\n' :: ·)).Sublist
      (ls.flatMap ('\n' :: ·)) := by
    conv_rhs => rw [← List.takeWhile_append_dropWhile (p := (!opensItem ·)) (l := ls),
      List.flatMap_append]
    exact List.sublist_append_right _ _
  rw [← he]
  exact (sublist_trimBy isBlank _).trans <| sublist_joinLines <|
    (sublist_of_mem_groups hg).trans <| (sublist_dedentLines _).trans hd

namespace IsItem

theorem sublist_trim (h : IsItem i x) : i.Sublist (trim x) := by
  have ⟨o, ho, hi⟩ := h
  rw [eq_of_read? ho] at hi
  have hc : (core x).Sublist (trim x) := (prefix_trimEndBy _ _).sublist
  exact (joinLines_splitLines (core x) ▸ sublist_of_mem_itemsOf hi).trans hc

theorem length_lt (h : IsItem i x) : i.length < (trim x).length :=
  have ⟨_, ho, hi⟩ := h
  Nat.lt_of_lt_of_le (length_lt_of_mem_items ho hi) (prefix_trimEndBy _ _).length_le

theorem bytes_lt (h : IsItem i x) : Disk.bytes i < Disk.bytes (trim x) :=
  bytes_lt_of_sublist h.sublist_trim h.length_lt

theorem wellFounded : WellFounded IsItem :=
  Subrelation.wf (fun h => Nat.lt_of_lt_of_le h.length_lt (length_trimBy_le _ _))
    (measure List.length).wf

end IsItem

end Outline

namespace Tree

open Outline

-- Reads an outline, but gives up on items that lie too deep.
def ofOutlineWithin : Nat → Text → Option Tree
  | 0,     _ => none
  | n + 1, x =>
    match read? x with
    | none   => some (leaf [])
    | some o =>
      if o.items = [] then some (leaf o.header)
      else (o.items.mapM (ofOutlineWithin n)).map (node o.header)

-- A depth of as many items as there are characters is enough.
theorem ofOutlineWithin_eq {n : Nat} {x : Text} (h : (trim x).length < n) :
    ofOutlineWithin n x = some (ofOutline x) := by
  induction n generalizing x
  case zero => contradiction
  case succ n ih =>
    rw [ofOutlineWithin, ofOutline_eq]
    cases ho : read? x
    case none   => rfl
    case some o =>
      have hi : ∀ i ∈ o.items, ofOutlineWithin n i = some (ofOutline i) := by
        intro i hi
        have hl := IsItem.length_lt ⟨o, ho, hi⟩
        have ht : (trim i).length ≤ i.length := length_trimBy_le _ _
        exact ih (by omega)
      simp only [mapM_eq_pure hi]
      split <;> rfl

-- Every item is shorter than its text after trimming, in characters and in bytes, so items cannot
-- lie within each other without end, and reading them gives a tree for every text.
theorem ofOutline_terminates :
    (∀ x o, read? x = some o → ∀ i ∈ o.items,
      i.length < (trim x).length ∧ Disk.bytes i < Disk.bytes (trim x)) ∧
    WellFounded IsItem ∧
    ∀ x n, (trim x).length < n → ofOutlineWithin n x = some (ofOutline x) := by
  refine ⟨fun x o ho i hi => ?_, IsItem.wellFounded, fun x n => ofOutlineWithin_eq⟩
  have h : IsItem i x := ⟨o, ho, hi⟩
  exact ⟨h.length_lt, h.bytes_lt⟩

-- The tab keeps the margin empty, so that the only item is all of the text below the header.
theorem ofOutline_terminates_whole :
    let x : Text := " A\n - B\n\t- -"
    let i : Text := "- B\n\t-"
    read? x = some ⟨"A", [i]⟩ ∧ i.length < (trim x).length ∧
      Disk.bytes i < Disk.bytes (trim x) ∧ (trim x).length < 13 ∧
      ofOutlineWithin 13 x = some (ofOutline x) := by
  intro x i
  have hr : read? x = some ⟨"A", [i]⟩ := by decide +kernel
  have hn : (trim x).length < 13 := by decide
  have ⟨hi, _, ht⟩ := ofOutline_terminates
  have ⟨hl, hb⟩ := hi x _ hr i List.mem_cons_self
  exact ⟨hr, hl, hb, hn, ht x 13 hn⟩

end Tree

end DocPress
