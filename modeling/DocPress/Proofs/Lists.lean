import Mathlib.Data.List.Forall2

-- Lists in general.

namespace DocPress

variable {α β γ : Type} {as : List α} {bs : List β}

section Monads

variable {M : Type → Type} [Monad M] [LawfulMonad M] {f : α → M β}

theorem mapM_of_forall₂ (h : List.Forall₂ (fun a b => f a = pure b) as bs) :
    as.mapM f = pure bs := by
  induction h
  case nil         => exact List.mapM_nil
  case cons h _ ih => rw [List.mapM_cons, h, ih, pure_bind, pure_bind]

theorem mapM_eq_pure {g : α → β} (h : ∀ a ∈ as, f a = pure (g a)) :
    as.mapM f = pure (as.map g) :=
  mapM_of_forall₂ (List.forall₂_map_right_iff.mpr (List.forall₂_same.mpr h))

theorem exists_mapM {R : α → β → Prop} (h : ∀ a ∈ as, ∃ b, f a = pure b ∧ R a b) :
    ∃ bs, as.mapM f = pure bs ∧ List.Forall₂ R as bs := by
  induction as
  case nil => exact ⟨[], List.mapM_nil, .nil⟩
  case cons a as ih =>
    have ⟨⟨b, hb, hr⟩, h⟩ := List.forall_mem_cons.mp h
    have ⟨bs, hbs, hrs⟩ := ih h
    exact ⟨b :: bs, by rw [List.mapM_cons, hb, hbs, pure_bind, pure_bind], .cons hr hrs⟩

end Monads

theorem forall₂_comp {R : α → β → Prop} {S : β → γ → Prop} {cs : List γ}
    (hr : List.Forall₂ R as bs) (hs : List.Forall₂ S bs cs) :
    List.Forall₂ (fun a c => ∃ b, R a b ∧ S b c) as cs := by
  induction hr generalizing cs
  case nil =>
    cases hs
    exact .nil
  case cons h _ ih =>
    cases hs
    case cons hs' hs => exact .cons ⟨_, h, hs'⟩ (ih hs)

theorem pairwise_concat {P : α → Prop} {a : α} :
    (as ++ [a]).Pairwise (fun b _ => P b) ↔ ∀ b ∈ as, P b := by
  have h : (∀ b ∈ as, P b) → as.Pairwise fun b _ => P b := fun h =>
    List.pairwise_of_forall_mem_list fun b hb _ _ => h b hb
  simpa [List.pairwise_append] using h

theorem headD_mem (a : α) (h : as ≠ []) : as.headD a ∈ as := by
  cases as
  case nil  => contradiction
  case cons => exact List.mem_cons_self

theorem getLastD_mem (a : α) (h : as ≠ []) : as.getLastD a ∈ as := by
  rw [List.getLastD_eq_getLast?, List.getLast?_eq_getLast_of_ne_nil h]
  exact List.getLast_mem h

theorem map_range_succ (f : Nat → α) (n : Nat) :
    (List.range (n + 1)).map f = f 0 :: (List.range n).map fun r => f (r + 1) := by
  rw [List.range_succ_eq_map, List.map_cons, List.map_map]
  rfl

end DocPress
