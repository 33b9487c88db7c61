import Mathlib.Data.List.Basic
import DocPress.Proofs.Markdown.Documents
import DocPress.Proofs.NameMap.Lookup

-- Collections under insertion. A document is found with the text that was last inserted under its
-- name, and it stands where its name was first inserted.

namespace DocPress.Markdown.Collection

-- Inserts documents one after the other.
def insertAll (c : Collection) (ds : List (Text × Text)) : Collection :=
  ds.foldl (fun c d => c.insert d.1 d.2) c

-- What a collection tells of the documents that were inserted, given in the order of insertion.
structure Records (c : Collection) (ds : List (Text × Text)) : Prop where
  distinct : c.names.Nodup
  names    : ∀ n, n ∈ c.names ↔ n ∈ ds.map (·.1)
  ordered  : c.names.Pairwise fun m n => (ds.map (·.1)).idxOf m < (ds.map (·.1)).idxOf n
  found    : ∀ n, c.find? n = ds.reverse.lookup n
  listed   : ∀ n x, (n, x) ∈ c.documents ↔ c.find? n = some x

-- What an insertion changes. Other documents stay as they are, and a document that is there already
-- stays at its position.
structure Inserts (c : Collection) (n x : Text) (b : Collection) : Prop where
  found    : b.find? n = some x
  others   : ∀ m, m ≠ n → b.find? m = c.find? m
  replaced : n ∈ c.names → b.documents = c.documents.map fun d => if d.1 = n then (n, x) else d
  added    : n ∉ c.names → b.documents = c.documents ++ [(n, x)]

variable {m n x : Text} {ds es : List (Text × Text)} {b c : Collection}

theorem lookup_put (m n x : Text) (ds : List (Text × Text)) :
    (put n x ds).lookup m = if m = n then some x else ds.lookup m := by
  induction ds
  case nil => exact NameMap.lookup_cons_eq_ite m (n, x) []
  case cons d ds ih =>
    rw [put]
    split
    case isTrue h =>
      simp only [NameMap.lookup_cons_eq_ite, h]
      split <;> rfl
    case isFalse h =>
      simp only [NameMap.lookup_cons_eq_ite, ih]
      split <;> simp_all

-- Behind the place of a name there is nothing else to be replaced.
theorem put_of_mem (h : n ∈ ds.map (·.1)) (hn : (ds.map (·.1)).Nodup) :
    put n x ds = ds.map fun d => if d.1 = n then (n, x) else d := by
  induction ds
  case nil => contradiction
  case cons d ds ih =>
    have ⟨hd, hn⟩ := List.nodup_cons.mp hn
    rw [put, List.map_cons]
    split
    case isTrue hdn =>
      have hs : ∀ e ∈ ds, (if e.1 = n then (n, x) else e) = id e := fun e he =>
        if_neg fun hen => hd (List.mem_map.mpr ⟨e, he, hen.trans hdn.symm⟩)
      rw [List.map_congr_left hs, List.map_id, hdn]
    case isFalse hdn =>
      rw [ih ((List.mem_cons.mp h).resolve_left (Ne.symm hdn)) hn]

theorem put_of_not_mem (h : n ∉ ds.map (·.1)) : put n x ds = ds ++ [(n, x)] := by
  induction ds
  case nil => rfl
  case cons d ds ih =>
    have ⟨hd, h⟩ := not_or.mp (mt List.mem_cons.mpr h)
    rw [put, if_neg (Ne.symm hd), ih h, List.cons_append]

theorem inserts (hc : c.names.Nodup) (n x : Text) : Inserts c n x (c.insert n x) where
  found    := (lookup_put n n x c.documents).trans (if_pos rfl)
  others   := fun m hm => (lookup_put m n x c.documents).trans (if_neg hm)
  replaced := fun h => put_of_mem h hc
  added    := put_of_not_mem

theorem Inserts.names_eq (h : Inserts c n x b) (hn : n ∈ c.names) : b.names = c.names := by
  rw [names, h.replaced hn, List.map_map]
  refine List.map_congr_left fun d _ => ?_
  simp only [Function.comp_apply]
  split
  case isTrue hd => exact hd.symm
  case isFalse   => rfl

namespace Records

theorem empty : Records empty [] where
  distinct := .nil
  names    := fun _ => Iff.rfl
  ordered  := .nil
  found    := fun _ => rfl
  listed   := by simp [Collection.empty, find?]

theorem names_insert (h : Records c ds) (n x : Text) :
    (c.insert n x).names = if n ∈ c.names then c.names else c.names ++ [n] := by
  have hi := inserts h.distinct n x
  split
  case isTrue hn => exact hi.names_eq hn
  case isFalse hn =>
    rw [Collection.names, hi.added hn, List.map_append]
    rfl

-- A name that is new comes behind all others.
theorem ordered_insert (h : Records c ds) (n x : Text) :
    (c.insert n x).names.Pairwise fun l m =>
      ((ds ++ [(n, x)]).map (·.1)).idxOf l < ((ds ++ [(n, x)]).map (·.1)).idxOf m := by
  have hm : ∀ m ∈ c.names, ((ds ++ [(n, x)]).map (·.1)).idxOf m = (ds.map (·.1)).idxOf m := by
    intro m hm
    rw [List.map_append]
    exact List.idxOf_append_of_mem ((h.names m).mp hm)
  have ho := h.ordered.imp_of_mem fun hl hn hlt => by rwa [← hm _ hl, ← hm _ hn] at hlt
  rw [h.names_insert]
  split
  case isTrue => exact ho
  case isFalse hn =>
    refine List.pairwise_append.mpr ⟨ho, List.pairwise_singleton _ _, fun l hl m hmn => ?_⟩
    rw [List.mem_singleton.mp hmn, hm l hl, List.map_append]
    rw [List.idxOf_append_of_notMem fun hd => hn ((h.names n).mpr hd)]
    have hi := List.idxOf_lt_length_iff.mpr ((h.names l).mp hl)
    exact Nat.lt_of_lt_of_le hi (Nat.le_add_right ..)

theorem insert (h : Records c ds) (n x : Text) : Records (c.insert n x) (ds ++ [(n, x)]) := by
  have hi := inserts h.distinct n x
  have hn : (c.insert n x).names.Nodup := nodup_names_insert h.distinct (n, x)
  refine ⟨hn, fun m => ?names, h.ordered_insert n x, fun m => ?found, fun m y => ?listed⟩
  case names =>
    rw [h.names_insert, List.map_append, List.mem_append, ← h.names]
    split
    case isTrue hc => simpa using fun hm => hm ▸ hc
    case isFalse   => exact List.mem_append
  case found =>
    rw [List.reverse_append, List.reverse_singleton, List.singleton_append,
      NameMap.lookup_cons_eq_ite, ← h.found]
    exact lookup_put m n x c.documents
  case listed => exact ⟨NameMap.lookup_of_mem hn, NameMap.mem_of_lookup_eq_some⟩

theorem insertAll (h : Records c ds) (es : List (Text × Text)) :
    Records (c.insertAll es) (ds ++ es) := by
  induction es generalizing c ds
  case nil => rwa [List.append_nil]
  case cons e es ih =>
    have hr := ih (h.insert e.1 e.2)
    rwa [List.append_assoc] at hr

end Records

-- A collection is made of some documents, and further ones are inserted. It holds one document for
-- each of the names, in the order in which the names were first used and with the text that came
-- last, and one more insertion changes one document only.
theorem ofList_insertAll_records (ds es : List (Text × Text)) :
    Records ((ofList ds).insertAll es) (ds ++ es) ∧
      ∀ n x, Inserts ((ofList ds).insertAll es) n x (((ofList ds).insertAll es).insert n x) := by
  have hd : Records (ofList ds) ds := Records.empty.insertAll ds
  have h := hd.insertAll es
  exact ⟨h, inserts h.distinct⟩

end DocPress.Markdown.Collection
