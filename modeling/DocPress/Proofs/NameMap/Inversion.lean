import Mathlib.Data.Char
import Mathlib.Data.List.Dedup
import Mathlib.Data.List.Lex
import Mathlib.Data.List.Sort
import DocPress.NameMap.Names
import DocPress.Proofs.NameMap.Lookup

-- Maps from names to names that are turned round. Turned round twice, a map has its own lists again,
-- in order and without repetition.

namespace DocPress.NameMap

-- The names that a name is mapped to. A name outside the map is mapped to none.
def listed (m : NameMap (List Text)) (k : Text) : List Text :=
  (m.find? k).getD []

-- The names whose lists hold a name.
def keysOf (m : NameMap (List Text)) (v : Text) : List Text :=
  (m.entries.filter fun e => e.2.contains v).map (·.1)

-- Names in order and without repetition.
def ordered (vs : List Text) : List Text :=
  vs.dedup.insertionSort (· ≤ ·)

-- The map without empty lists, and with every other list in order and without repetition.
def tidied (m : NameMap (List Text)) : NameMap (List Text) where
  entries := (m.entries.filter (·.2 ≠ [])).map fun (k, vs) => (k, ordered vs)
  sorted  := List.pairwise_map.mpr (m.sorted.filter _)

variable {m n : NameMap (List Text)} {k v w : Text} {us vs : List Text}
  {es : List (Text × List Text)}

section Entries

variable {α : Type} {m n : NameMap α} {a : α}

theorem pairwise_keys (m : NameMap α) : (m.entries.map (·.1)).Pairwise (· < ·) :=
  List.pairwise_map.mpr m.sorted

theorem nodup_keys (m : NameMap α) : (m.entries.map (·.1)).Nodup :=
  m.pairwise_keys.nodup

theorem mem_entries_iff : (k, a) ∈ m.entries ↔ m.find? k = some a :=
  ⟨lookup_of_mem m.nodup_keys, mem_of_lookup_eq_some⟩

-- Maps with the same entries are the same.
theorem ext_entries (h : ∀ e, e ∈ m.entries ↔ e ∈ n.entries) : m = n := by
  have : Std.Asymm fun (d e : Text × α) => d.1 < e.1 := ⟨fun _ _ => List.lt_asymm⟩
  have he : m.entries = n.entries := m.sorted.eq_of_mem_iff n.sorted h
  cases m
  cases n
  congr

end Entries

theorem mem_ordered : k ∈ ordered vs ↔ k ∈ vs := by
  rw [ordered, List.mem_insertionSort, List.mem_dedup]

theorem pairwise_ordered (vs : List Text) : (ordered vs).Pairwise (· < ·) := by
  have hs : (ordered vs).Pairwise (· ≤ ·) := List.pairwise_insertionSort (· ≤ ·) vs.dedup
  have hn : (ordered vs).Nodup :=
    (List.perm_insertionSort (· ≤ ·) vs.dedup).nodup_iff.mpr vs.nodup_dedup
  exact hs.imp₂ (fun _ _ => lt_of_le_of_ne) hn

-- Adding a key changes the list of one name.

theorem listed_addKey (m : NameMap (List Text)) (v k w : Text) :
    (m.addKey v k).listed w =
      if w = v ∧ k ∉ m.listed w then m.listed w ++ [k] else m.listed w := by
  rw [listed, addKey, find?_insert]
  by_cases hw : w = v
  case neg => simp [hw, listed]
  case pos =>
    subst hw
    by_cases hk : k ∈ m.listed w
    all_goals simp_all [listed]

theorem listed_foldl_addKey (vs : List Text) (m : NameMap (List Text)) (k w : Text) :
    (vs.foldl (·.addKey · k) m).listed w =
      if w ∈ vs ∧ k ∉ m.listed w then m.listed w ++ [k] else m.listed w := by
  induction vs generalizing m
  case nil => simp
  case cons v vs ih =>
    rw [List.foldl_cons, ih, listed_addKey]
    by_cases hk : k ∈ m.listed w
    case pos => simp [hk]
    case neg => by_cases hv : w = v <;> by_cases hw : w ∈ vs <;> simp_all

theorem listed_foldl_entries (hk : (es.map (·.1)).Nodup) (hn : ∀ e ∈ es, ∀ w, e.1 ∉ m.listed w)
    (v : Text) :
    (es.foldl (fun m e => e.2.foldl (·.addKey · e.1) m) m).listed v =
      m.listed v ++ (es.filter fun e => e.2.contains v).map (·.1) := by
  induction es generalizing m
  case nil => simp
  case cons e es ih =>
    have ⟨he, hk⟩ := List.nodup_cons.mp hk
    have ⟨h, hn⟩ := List.forall_mem_cons.mp hn
    -- The keys of the other entries are not the one that is added.
    have hn : ∀ e' ∈ es, ∀ w, e'.1 ∉ (e.2.foldl (·.addKey · e.1) m).listed w := by
      intro e' he' w
      have hne : e'.1 ≠ e.1 := ne_of_mem_of_not_mem (List.mem_map_of_mem he') he
      rw [listed_foldl_addKey]
      split <;> simp [hn e' he' w, hne]
    rw [List.foldl_cons, ih hk hn, listed_foldl_addKey]
    by_cases hv : v ∈ e.2 <;> simp [hv, h]

theorem invert_eq (m : NameMap (List Text)) :
    m.invert = m.entries.foldl (fun m e => e.2.foldl (·.addKey · e.1) m) empty := by
  simp only [invert, pairs, List.foldl_flatMap, List.foldl_map]

-- Every name is mapped to the keys that list it, in their order.
theorem listed_invert (m : NameMap (List Text)) (v : Text) : m.invert.listed v = m.keysOf v := by
  rw [invert_eq, listed_foldl_entries m.nodup_keys (fun _ _ _ => List.not_mem_nil)]
  rfl

-- No name is mapped to nothing, for a key is added wherever there is a new name.
theorem find?_addKey_ne_nil (h : ∀ w, m.find? w ≠ some []) (v k : Text) :
    ∀ w, (m.addKey v k).find? w ≠ some [] := by
  intro w
  rw [addKey, find?_insert]
  split
  case isFalse => exact h w
  case isTrue =>
    split
    case isFalse   => simp
    case isTrue hk =>
      have hk : k ∈ (m.find? v).getD [] := by simpa using hk
      exact fun he => List.ne_nil_of_mem hk (Option.some.inj he)

theorem find?_invert_ne_nil (m : NameMap (List Text)) : ∀ v, m.invert.find? v ≠ some [] :=
  List.foldlRecOn (motive := fun n : NameMap (List Text) => ∀ v, n.find? v ≠ some []) m.pairs _
    (by simp [find?, empty]) fun _ h p _ => find?_addKey_ne_nil h p.2 p.1

theorem find?_invert_eq_some_iff : m.invert.find? v = some us ↔ us = m.keysOf v ∧ us ≠ [] := by
  have h := m.find?_invert_ne_nil v
  rw [← listed_invert, listed]
  cases hf : m.invert.find? v
  case none => simp
  case some ks =>
    have hn : ks ≠ [] := fun he => h (he ▸ hf)
    rw [Option.getD_some, Option.some.injEq]
    exact ⟨fun he => ⟨he.symm, he ▸ hn⟩, fun ⟨he, _⟩ => he.symm⟩

theorem mem_listed_iff : v ∈ m.listed k ↔ ∃ vs, (k, vs) ∈ m.entries ∧ v ∈ vs := by
  simp only [mem_entries_iff, listed]
  cases m.find? k <;> simp

theorem mem_keysOf_iff : k ∈ m.keysOf v ↔ v ∈ m.listed k := by
  simp [mem_listed_iff, keysOf]

theorem pairwise_keysOf (m : NameMap (List Text)) (v : Text) : (m.keysOf v).Pairwise (· < ·) :=
  List.pairwise_map.mpr (m.sorted.filter _)

theorem mem_tidied_iff : (k, us) ∈ m.tidied.entries ↔
    ∃ vs, (k, vs) ∈ m.entries ∧ vs ≠ [] ∧ us = ordered vs := by
  simp only [tidied, List.mem_map, List.mem_filter, decide_eq_true_eq]
  constructor
  case mp =>
    rintro ⟨⟨j, vs⟩, ⟨he, hn⟩, h⟩
    cases h
    exact ⟨vs, he, hn, rfl⟩
  case mpr =>
    rintro ⟨vs, he, hn, rfl⟩
    exact ⟨(k, vs), ⟨he, hn⟩, rfl⟩

-- The list that a name has after turning the map round twice.
theorem keysOf_invert (h : (k, vs) ∈ m.entries) : m.invert.keysOf k = ordered vs := by
  refine (pairwise_keysOf _ _).eq_of_mem_iff (pairwise_ordered vs) fun v => ?_
  rw [mem_keysOf_iff, listed_invert, mem_keysOf_iff, mem_ordered, listed,
    mem_entries_iff.mp h, Option.getD_some]

theorem invert_invert (m : NameMap (List Text)) : m.invert.invert = m.tidied := by
  refine ext_entries fun ⟨k, us⟩ => ?_
  rw [mem_entries_iff, find?_invert_eq_some_iff, mem_tidied_iff]
  constructor
  case mp =>
    rintro ⟨rfl, hn⟩
    have ⟨v, hv⟩ := List.exists_mem_of_ne_nil _ hn
    rw [mem_keysOf_iff, listed_invert, mem_keysOf_iff, mem_listed_iff] at hv
    have ⟨vs, he, hv⟩ := hv
    exact ⟨vs, he, List.ne_nil_of_mem hv, keysOf_invert he⟩
  case mpr =>
    rintro ⟨vs, he, hn, rfl⟩
    have ⟨v, hv⟩ := List.exists_mem_of_ne_nil _ hn
    exact ⟨(keysOf_invert he).symm, List.ne_nil_of_mem (mem_ordered.mpr hv)⟩

-- A name is listed for another one exactly if that one is listed for it in the inverse map. The
-- lists of the inverse map are in order, without repetition and not empty, and its own inverse is
-- the map again but for empty lists, repetitions and order.
theorem invert_converse (m : NameMap (List Text)) :
    (∀ k v, k ∈ m.invert.listed v ↔ v ∈ m.listed k) ∧
      (∀ v ks, m.invert.find? v = some ks → ks ≠ [] ∧ ks.Nodup ∧ ks.Pairwise (· < ·)) ∧
      m.invert.invert = m.tidied := by
  refine ⟨fun k v => ?_, fun v ks h => ?_, m.invert_invert⟩
  · rw [listed_invert, mem_keysOf_iff]
  · obtain ⟨rfl, hn⟩ := find?_invert_eq_some_iff.mp h
    exact ⟨hn, (m.pairwise_keysOf v).nodup, m.pairwise_keysOf v⟩

theorem invert_converse_repeated :
    let m : NameMap (List Text) :=
      ofList [("B", ["x", "A", "x"]), ("A", ["x", "B"]), ("C", []), ("x", ["B", "A", "B"])]
    let ks : List Text := ["A", "B"]
    let es : List (Text × List Text) := [("A", ["B", "x"]), ("B", ["A", "x"]), ("x", ["A", "B"])]
    m.invert.find? "x" = some ks ∧ ks.Pairwise (· < ·) ∧ m.invert.invert.entries = es := by
  intro m ks es
  have hx : m.invert.find? "x" = some ks := by decide +kernel
  have he : m.tidied.entries = es := by decide +kernel
  have ⟨_, ho, hi⟩ := invert_converse m
  exact ⟨hx, (ho "x" ks hx).right.right, hi ▸ he⟩

end DocPress.NameMap
