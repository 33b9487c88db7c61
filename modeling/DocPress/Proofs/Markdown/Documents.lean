import Mathlib.Data.List.Flatten
import Mathlib.Data.List.Pairwise
import DocPress.Markdown.Collection

-- Which documents a collection holds after others have been put into it. Of those with the same
-- name only the last one is left.

namespace DocPress.Markdown.Collection

variable {n x : Text} {d : Text × Text} {ds : List (Text × Text)} {c : Collection}

-- The documents behind which no other one has the same name.
def kept (ds : List (Text × Text)) : List (Text × Text) :=
  ds.pwFilter (·.1 ≠ ·.1)

theorem kept_sublist (ds : List (Text × Text)) : (kept ds).Sublist ds :=
  List.pwFilter_sublist ds

theorem forall_mem_kept (n : Text) (ds : List (Text × Text)) :
    (∀ e ∈ kept ds, n ≠ e.1) ↔ ∀ e ∈ ds, n ≠ e.1 :=
  List.forall_mem_pwFilter (a := (n, [])) (fun h => by grind) ds

theorem kept_cons_of_forall (h : ∀ e ∈ ds, d.1 ≠ e.1) : kept (d :: ds) = d :: kept ds :=
  List.pwFilter_cons_of_pos ((forall_mem_kept d.1 ds).mpr h)

theorem kept_cons_of_not_forall (h : ¬∀ e ∈ ds, d.1 ≠ e.1) : kept (d :: ds) = kept ds :=
  List.pwFilter_cons_of_neg ((forall_mem_kept d.1 ds).not.mpr h)

theorem put_perm (d : Text × Text) (hn : (ds.map (·.1)).Nodup) :
    (put d.1 d.2 ds).Perm (d :: ds.filter (d.1 ≠ ·.1)) := by
  induction ds
  case nil => exact .refl _
  case cons e es ih =>
    have ⟨he, hn⟩ := List.nodup_cons.mp hn
    rw [put]
    split
    case isTrue h =>
      have hf : (e :: es).filter (d.1 ≠ ·.1) = es := by
        rw [List.filter_cons_of_neg (by simp [h]), List.filter_eq_self]
        exact fun b hb => decide_eq_true fun hd => he (List.mem_map.mpr ⟨b, hb, (h.trans hd).symm⟩)
      rw [hf, h]
    case isFalse h =>
      have hf : (e :: es).filter (d.1 ≠ ·.1) = e :: es.filter (d.1 ≠ ·.1) :=
        List.filter_cons_of_pos (decide_eq_true (Ne.symm h))
      rw [hf]
      exact ((ih hn).cons e).trans (.swap d e _)

theorem nodup_names_insert (hn : c.names.Nodup) (d : Text × Text) :
    (c.insert d.1 d.2).names.Nodup := by
  have hp : (c.insert d.1 d.2).names.Perm ((d :: c.documents.filter (d.1 ≠ ·.1)).map (·.1)) :=
    (put_perm d hn).map _
  rw [hp.nodup_iff, List.map_cons, List.nodup_cons]
  constructor
  case left =>
    intro h
    have ⟨e, he, hd⟩ := List.mem_map.mp h
    exact of_decide_eq_true (List.mem_filter.mp he).right hd.symm
  case right => exact hn.sublist (List.filter_sublist.map _)

theorem foldl_insert_perm (hn : c.names.Nodup) (ds : List (Text × Text)) :
    (ds.foldl (fun c (name, text) => c.insert name text) c).documents.Perm
      (c.documents.filter (fun a => ∀ e ∈ ds, a.1 ≠ e.1) ++ kept ds) := by
  induction ds generalizing c
  case nil =>
    have hf : c.documents.filter (fun a => ∀ e ∈ ([] : List (Text × Text)), a.1 ≠ e.1) =
        c.documents :=
      List.filter_eq_self.mpr fun a _ => decide_eq_true fun e he => absurd he List.not_mem_nil
    rw [hf, kept, List.pwFilter_nil, List.append_nil, List.foldl_nil]
  case cons d ds ih =>
    have hf : c.documents.filter (fun a => ∀ e ∈ d :: ds, a.1 ≠ e.1) =
        (c.documents.filter (d.1 ≠ ·.1)).filter (fun a => ∀ e ∈ ds, a.1 ≠ e.1) := by
      rw [List.filter_filter]
      refine List.filter_congr fun a _ => ?_
      rw [← Bool.decide_and, decide_eq_decide, List.forall_mem_cons, and_comm, ne_comm]
    have hp := (put_perm d hn).filter fun a => ∀ e ∈ ds, a.1 ≠ e.1
    refine (ih (nodup_names_insert hn d)).trans ((hp.append_right (kept ds)).trans ?_)
    rw [hf, List.filter_cons]
    by_cases hd : ∀ e ∈ ds, d.1 ≠ e.1
    case pos =>
      rw [if_pos (decide_eq_true hd), kept_cons_of_forall hd]
      exact List.perm_middle.symm
    case neg => rw [if_neg (decide_eq_true_iff.not.mpr hd), kept_cons_of_not_forall hd]

theorem documents_ofList_perm (ds : List (Text × Text)) : (ofList ds).documents.Perm (kept ds) :=
  foldl_insert_perm (c := empty) List.nodup_nil ds

theorem forall_mem_ofList {P : Text × Text → Prop} (h : ∀ d ∈ ds, P d) :
    ∀ d ∈ (ofList ds).documents, P d := fun d hd =>
  h d ((kept_sublist ds).mem ((documents_ofList_perm ds).mem_iff.mp hd))

-- What is made of the documents is lost with those that are replaced.
section

variable {α : Type} {f : Text × Text → List α}

theorem flatMap_kept_sublist (f : Text × Text → List α) (ds : List (Text × Text)) :
    ((kept ds).flatMap f).Sublist (ds.flatMap f) :=
  (kept_sublist ds).flatMap f

theorem length_flatMap_kept_le (f : Text × Text → List α) (ds : List (Text × Text)) :
    ((kept ds).flatMap f).length ≤ (ds.flatMap f).length :=
  (flatMap_kept_sublist f ds).length_le

theorem flatMap_kept_eq_iff :
    (kept ds).flatMap f = ds.flatMap f ↔ ds.Pairwise fun d e => d.1 = e.1 → f d = [] := by
  induction ds
  case nil => exact iff_of_true rfl .nil
  case cons d ds ih =>
    rw [List.pairwise_cons, ← ih]
    by_cases hd : ∀ e ∈ ds, d.1 ≠ e.1
    case pos =>
      rw [kept_cons_of_forall hd, List.flatMap_cons, List.flatMap_cons, List.append_right_inj,
        and_iff_right fun e he h => absurd h (hd e he)]
    case neg =>
      have hf : (∀ e ∈ ds, d.1 = e.1 → f d = []) ↔ f d = [] := by
        have ⟨e, he, h⟩ : ∃ e ∈ ds, d.1 = e.1 := by simpa using hd
        exact ⟨fun hf => hf e he h, fun h _ _ _ => h⟩
      rw [kept_cons_of_not_forall hd, List.flatMap_cons, hf]
      constructor
      case mpr =>
        rintro ⟨hf, h⟩
        rw [hf, h, List.nil_append]
      case mp =>
        intro h
        have hl := length_flatMap_kept_le f ds
        have hn : f d = [] := by
          rw [h, List.length_append] at hl
          exact List.length_eq_zero_iff.mp (by omega)
        rw [hn, List.nil_append] at h
        exact ⟨hn, h⟩

end

end DocPress.Markdown.Collection
