import DocPress.NameMap.Basic

-- What is found in a map after names were put into it or taken out of it.

namespace DocPress.NameMap

variable {α : Type} {k : Text} {v : α} {es : List (Text × α)}

section Keys

variable {κ : Type} [BEq κ] [LawfulBEq κ] [DecidableEq κ]

theorem lookup_cons_eq_ite (j : κ) (e : κ × α) (es : List (κ × α)) :
    (e :: es).lookup j = if j = e.1 then some e.2 else es.lookup j := by
  cases e with
  | mk k v => by_cases h : j = k <;> simp [List.lookup_cons, beq_eq_false_iff_ne.mpr, h]

theorem lookup_filter (p : κ → Bool) (k : κ) (es : List (κ × α)) :
    (es.filter fun e => p e.1).lookup k = if p k then es.lookup k else none := by
  induction es
  case nil => simp
  case cons e es ih =>
    by_cases hk : k = e.1
    case pos => by_cases hp : p k <;> simp_all [lookup_cons_eq_ite]
    case neg =>
      simp only [List.filter_cons, lookup_cons_eq_ite, hk, if_false]
      split <;> simp [lookup_cons_eq_ite, hk, ih]

end Keys

theorem mem_of_lookup_eq_some (h : es.lookup k = some v) : (k, v) ∈ es := by
  have ⟨l, r, he, _⟩ := List.lookup_eq_some_iff.mp h
  exact he ▸ List.mem_append_right l List.mem_cons_self

theorem lookup_of_mem (hk : (es.map (·.1)).Nodup) (h : (k, v) ∈ es) : es.lookup k = some v := by
  have ⟨l, r, he⟩ := List.append_of_mem h
  refine List.lookup_eq_some_iff.mpr ⟨l, r, he, fun p hp => ?_⟩
  rw [he, List.map_append, List.nodup_append] at hk
  simpa using (hk.right.right p.1 (List.mem_map_of_mem hp) k List.mem_cons_self).symm

theorem lookup_place (j k : Text) (v : α) (es : List (Text × α)) :
    (place k v es).lookup j = if j = k then some v else es.lookup j := by
  induction es
  case nil => simp [place, lookup_cons_eq_ite]
  case cons e es ih =>
    simp only [place]
    split
    case isTrue => simp only [lookup_cons_eq_ite]
    case isFalse hk =>
      split
      case isTrue hj =>
        have hne : e.1 ≠ k := fun h => List.lt_irrefl _ (h ▸ hj)
        simp only [lookup_cons_eq_ite, ih]
        split <;> simp_all
      case isFalse hj =>
        have he : k = e.1 := List.le_antisymm (List.not_lt.mp hj) (List.not_lt.mp hk)
        simp only [lookup_cons_eq_ite, he]
        split <;> rfl

theorem find?_insert (m : NameMap α) (j k : Text) (v : α) :
    (m.insert k v).find? j = if j = k then some v else m.find? j :=
  lookup_place j k v m.entries

theorem find?_foldl_insert (m : NameMap α) (es : List (Text × α)) (k : Text) :
    (es.foldl (fun m (k, v) => m.insert k v) m).find? k =
      (es.reverse.lookup k).or (m.find? k) := by
  induction es generalizing m
  case nil => simp
  case cons e es ih =>
    simp only [List.foldl_cons, ih, find?_insert, List.reverse_cons, List.lookup_append,
      Option.or_assoc]
    congr 1
    by_cases h : k = e.1 <;> simp [lookup_cons_eq_ite, h]

theorem find?_ofList (es : List (Text × α)) (k : Text) :
    (ofList es).find? k = es.reverse.lookup k := by
  rw [ofList, find?_foldl_insert]
  simp [find?, empty]

theorem mem_of_find?_ofList (h : (ofList es).find? k = some v) : (k, v) ∈ es := by
  rw [find?_ofList, List.lookup_eq_some_iff] at h
  have ⟨_, _, h, _⟩ := h
  rw [← List.mem_reverse, h]
  simp

theorem find?_ofList_ne_none (h : (k, v) ∈ es) : (ofList es).find? k ≠ none := by
  rw [find?_ofList, ne_eq, List.lookup_eq_none_iff]
  intro hn
  have := hn (k, v) (List.mem_reverse.mpr h)
  simp at this

theorem find?_filterKeys (m : NameMap α) (p : Text → Bool) (k : Text) :
    (m.filterKeys p).find? k = if p k then m.find? k else none :=
  lookup_filter p k m.entries

theorem filterKeys_filterKeys (m : NameMap α) (p q : Text → Bool) :
    (m.filterKeys p).filterKeys q = m.filterKeys fun k => p k && q k := by
  simp [filterKeys, List.filter_filter, Bool.and_comm]

theorem size_filterKeys_lt {m : NameMap α} {p : Text → Bool} (h : m.find? k = some v)
    (hp : p k = false) : (m.filterKeys p).size < m.size := by
  have ⟨_, _, h, _⟩ := List.lookup_eq_some_iff.mp h
  refine List.length_filter_lt_length_iff_exists.mpr ⟨(k, v), ?_, ?_⟩
  · rw [h]; simp
  · simp [hp]

end DocPress.NameMap
