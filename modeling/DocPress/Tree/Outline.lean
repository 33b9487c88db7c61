import DocPress.Text.Margin
import DocPress.Tree.Basic

-- An outline is a header followed by a list of items, each behind a dash. The text of an item is an
-- outline again, so that nested lists make a tree.

namespace DocPress

open Text

structure Outline where
  header : Text
  items  : List Text
  deriving DecidableEq, Repr

namespace Outline

-- The line opens an item, at any depth.
def opensItem (l : Text) : Bool :=
  startsWith (l.dropWhile (· = ' ')) ['-', ' ']

-- The rest of a line that opens an item at the margin.
def item? : Text → Option Text
  | '-' :: ' ' :: r => some (r.dropWhile (· = ' '))
  | _               => none

theorem length_item?_lt {l r : Text} (h : item? l = some r) : r.length + 2 ≤ l.length := by
  unfold item? at h
  split at h
  · next t =>
    have := (List.dropWhile_suffix (· = ' ') (l := t)).length_le
    simp only [Option.some.injEq] at h
    subst h
    simp only [List.length_cons]
    omega
  · simp at h

-- Cuts the lines in front of every item at the margin. The first group holds what precedes them.
def groups : List Text → List (List Text)
  | []      => [[]]
  | l :: ls =>
    match item? l with
    | none   => (groups ls).modifyHead (l :: ·)
    | some r => [] :: (groups ls).modifyHead (r :: ·)

def headerOf (ls : List Text) : Text :=
  trim (joinLines (ls.takeWhile (!opensItem ·)))

def itemsOf (ls : List Text) : List Text :=
  (groups (dedentLines (ls.dropWhile (!opensItem ·)))).map (fun g => trim (joinLines g))
    |>.filter (· ≠ [])

-- What an outline is read from: the text without white space around it and dashes at its end.
def core (x : Text) : Text :=
  trimEndBy (· = '-') (trim x)

def read? (x : Text) : Option Outline :=
  if core x = [] then none
  else some ⟨headerOf (splitLines (core x)), itemsOf (splitLines (core x))⟩

theorem extent_groups_le {ls g : List Text} (h : g ∈ groups ls) : extent g ≤ extent ls := by
  induction ls generalizing g with
  | nil => simp_all [groups]
  | cons l ls ih =>
    simp only [groups] at h
    cases hg : groups ls with
    | nil => cases hi : item? l <;> simp_all
    | cons k ks =>
      have hk : extent k ≤ extent ls := ih (hg ▸ List.mem_cons_self)
      have hks : ∀ g ∈ ks, extent g ≤ extent ls := fun g hm => ih (hg ▸ List.mem_cons_of_mem _ hm)
      rw [hg] at h
      cases hi : item? l with
      | none =>
        simp only [hi, List.modifyHead_cons, List.mem_cons] at h
        rcases h with rfl | h
        · simp; omega
        · have := hks g h; simp; omega
      | some r =>
        have hr := length_item?_lt hi
        simp only [hi, List.modifyHead_cons, List.mem_cons] at h
        rcases h with rfl | rfl | h
        · simp
        · simp; omega
        · have := hks g h; simp; omega

theorem extent_groups_cons_le {l r : Text} {ls g : List Text} (hi : item? l = some r)
    (h : g ∈ groups (l :: ls)) : extent g + 2 ≤ extent (l :: ls) := by
  have hr := length_item?_lt hi
  simp only [groups, hi] at h
  cases hg : groups ls with
  | nil => simp_all; omega
  | cons k ks =>
    have hk : ∀ g ∈ k :: ks, extent g ≤ extent ls := fun g hm => extent_groups_le (hg ▸ hm)
    simp only [hg, List.modifyHead_cons, List.mem_cons] at h
    rcases h with rfl | rfl | h
    · simp; omega
    · have := hk k List.mem_cons_self; simp; omega
    · have := hk g (List.mem_cons_of_mem _ h); simp; omega

-- An item that opens at the very left is an item at the margin.
theorem item?_isSome_of_opensItem {l : Text} (ho : opensItem l)
    (hl : ∀ c ∈ l.head?, isBlank c = false) : ∃ r, l = '-' :: ' ' :: r := by
  cases l with
  | nil => simp [opensItem, startsWith] at ho
  | cons c r =>
    have hc : c ≠ ' ' := by rintro rfl; simp [isBlank] at hl
    cases r with
    | nil => simp [opensItem, startsWith, hc] at ho
    | cons d r =>
      simp only [opensItem, startsWith, hc, List.dropWhile_cons, decide_false, Bool.false_eq_true,
        if_false, List.isPrefixOf_cons_cons, Bool.and_eq_true, beq_iff_eq] at ho
      exact ⟨r, by rw [ho.1, ho.2.1]⟩

-- The items of lines that begin at the very left take at least two characters less than the lines.
theorem length_lt_of_mem_itemsOf {ls : List Text} {x : Text} (hx : x ∈ itemsOf ls)
    (hl : ∀ l ∈ ls.head?, ∀ c ∈ l.head?, isBlank c = false) : x.length + 2 ≤ extent ls := by
  simp only [itemsOf, List.mem_filter, List.mem_map, decide_eq_true_eq] at hx
  obtain ⟨⟨g, hg, rfl⟩, hne⟩ := hx
  have hlen : (trim (joinLines g)).length ≤ extent g - 1 :=
    length_joinLines g ▸ length_trimBy_le isBlank _
  have hpos : 0 < (trim (joinLines g)).length := List.length_pos_iff.mpr hne
  cases ls with
  | nil => simp_all [groups, dedentLines, extent]
  | cons l ls =>
    cases ho : opensItem l with
    | false =>
      have hs : extent (ls.dropWhile (!opensItem ·)) ≤ extent ls := by
        clear hg hl
        induction ls with
        | nil => simp
        | cons k ks ih => simp only [List.dropWhile_cons]; split <;> simp; omega
      simp only [List.dropWhile_cons, ho, Bool.not_false, if_true] at hg
      have := Nat.le_trans (extent_groups_le hg) (extent_dedentLines_le _)
      simp
      omega
    | true =>
      obtain ⟨r, rfl⟩ := item?_isSome_of_opensItem ho (hl l rfl)
      simp only [List.dropWhile_cons, ho, Bool.not_true, Bool.false_eq_true, if_false] at hg
      rw [dedentLines_cons ls (by simp [blank, isBlank]) (by simp [isIndent])] at hg
      have h₁ := extent_groups_cons_le rfl hg
      have h₂ := extent_map_le (f := fun l => if blank l then [] else l) (by intro l; split <;> simp) ls
      simp only [extent_cons] at h₁ ⊢
      omega

theorem head_splitLines {x : Text} {p : Char → Prop} (h : ∀ c ∈ x.head?, p c) :
    ∀ l ∈ (splitLines x).head?, ∀ c ∈ l.head?, p c := by
  cases x with
  | nil => simp [splitLines]
  | cons d r =>
    simp only [splitLines, List.splitOn_cons_eq_if_modifyHead]
    split
    · simp
    · cases hs : r.splitOn '\n' <;> simp_all

theorem head_core {x : Text} : ∀ c ∈ (core x).head?, isBlank c = false := by
  intro c hc
  have ⟨r, hr⟩ : ∃ r, core x = c :: r := List.head?_eq_some_iff.mp hc
  have ⟨t, ht⟩ := prefix_trimEndBy (· = '-') (trim x)
  have hr' : trim x = c :: (r ++ t) := by rw [← ht]; simp_all [core]
  exact head_trimBy hr'

-- Every item is shorter than the text that its outline is read from.
theorem length_lt_of_mem_items {x i : Text} {o : Outline} (h : read? x = some o) (hi : i ∈ o.items) :
    i.length < (core x).length := by
  unfold read? at h
  split at h
  · simp at h
  · simp only [Option.some.injEq] at h
    subst h
    have := length_lt_of_mem_itemsOf hi (head_splitLines head_core)
    rw [extent_splitLines] at this
    omega

theorem length_core_le (x : Text) : (core x).length ≤ x.length :=
  Nat.le_trans (prefix_trimEndBy _ _).length_le (length_trimBy_le _ _)

end Outline

-- Reads an outline down to its innermost items.
def Tree.ofOutline (x : Text) : Tree :=
  match _ : Outline.read? x with
  | none => .leaf []
  | some o =>
    if o.items = [] then .leaf o.header
    else .node o.header (o.items.attach.map fun ⟨i, _⟩ => ofOutline i)
termination_by x.length
decreasing_by
  exact Nat.lt_of_lt_of_le (Outline.length_lt_of_mem_items ‹_› ‹_›) (Outline.length_core_le x)

theorem Tree.ofOutline_eq (x : Text) :
    ofOutline x = match Outline.read? x with
      | none   => .leaf []
      | some o => if o.items = [] then .leaf o.header else .node o.header (o.items.map ofOutline) := by
  rw [ofOutline]
  split <;> simp_all

end DocPress
