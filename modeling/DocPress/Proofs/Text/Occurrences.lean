import DocPress.Proofs.Text.Replace

-- How often a text occurs in another one, overlaps included. Two texts that are put together hold
-- what they held before, unless an occurrence comes about where they meet.

namespace DocPress.Text

variable {c : Char} {t x y : Text}

def occurrences (t : Text) : Text → Nat
  | []     => 0
  | c :: x => (if t <+: c :: x then 1 else 0) + occurrences t x

-- No occurrence of the text goes on where the second part begins, as it has that character at its
-- front only, or as the one before it stands at its end only.
def Apart (t x y : Text) : Prop :=
  (∀ c ∈ y.head?, c ∉ t.tail) ∨ (∀ c ∈ x.getLast?, c ∉ t.dropLast)

theorem isPrefixOf_append_of_last (hn : x ≠ []) (hx : ∀ c ∈ x.getLast?, c ∉ t.dropLast)
    (h : t <+: x ++ y) : t <+: x := by
  cases List.prefix_or_prefix_of_prefix h (List.prefix_append x y)
  case inl hx => exact hx
  case inr h' =>
    obtain ⟨z, rfl⟩ := h'
    cases z
    case nil => simp
    case cons d z =>
      rw [List.dropLast_append_cons] at hx
      have hm : x.getLast hn ∈ x ++ (d :: z).dropLast :=
        List.mem_append_left _ (List.getLast_mem hn)
      exact absurd hm (hx _ (List.getLast?_eq_some_getLast hn))

theorem Apart.isPrefixOf_iff (h : Apart t x y) (hn : x ≠ []) : t <+: x ++ y ↔ t <+: x := by
  refine ⟨fun hp => ?_, fun hp => hp.trans (List.prefix_append x y)⟩
  cases t
  case nil => exact List.nil_prefix
  case cons c t =>
    cases h
    case inl h => exact prefix_of_prefix_append hn h hp
    case inr h => exact isPrefixOf_append_of_last hn h hp

theorem Apart.tail (h : Apart t (c :: x) y) : Apart t x y := by
  refine h.imp id fun h d hd => h d ?_
  cases x
  case nil => contradiction
  case cons => exact hd

theorem occurrences_append (h : Apart t x y) :
    occurrences t (x ++ y) = occurrences t x + occurrences t y := by
  induction x
  case nil => simp [occurrences]
  case cons c x ih =>
    have hp : t <+: c :: (x ++ y) ↔ t <+: c :: x := h.isPrefixOf_iff (List.cons_ne_nil c x)
    simp only [List.cons_append, occurrences, hp, ih h.tail, Nat.add_assoc]

theorem occurrences_eq_zero (ht : c ∈ t) (hx : c ∉ x) : occurrences t x = 0 := by
  induction x
  case nil => rfl
  case cons d x ih =>
    have hp : ¬t <+: d :: x := fun hp => hx (hp.subset ht)
    rw [occurrences, if_neg hp, ih fun h => hx (List.mem_cons_of_mem d h)]

-- A character at an end of the text counts only if it is the one at that end of an occurrence.

theorem occurrences_cons (hc : ∀ d ∈ t.head?, c ≠ d) (ht : t ≠ []) (x : Text) :
    occurrences t (c :: x) = occurrences t x := by
  have hp : ¬t <+: c :: x := fun hp => by
    have ⟨d, r, hr⟩ := List.exists_cons_of_ne_nil ht
    rw [hr] at hp hc
    exact hc d rfl (List.cons_prefix_cons.mp hp).left.symm
  rw [occurrences, if_neg hp, Nat.zero_add]

theorem occurrences_concat (hc : ∀ d ∈ t.getLast?, c ≠ d) (ht : t ≠ []) (x : Text) :
    occurrences t (x ++ [c]) = occurrences t x := by
  have hp : ∀ x, t <+: x ++ [c] → t <+: x := fun x hp => by
    refine (List.prefix_concat_iff.mp hp).resolve_left fun he => ?_
    exact hc c (by simp [he]) rfl
  induction x
  case nil =>
    have hp : ¬t <+: [c] := fun h => ht (List.prefix_nil.mp (hp [] h))
    simp only [List.nil_append, occurrences, if_neg hp]
  case cons d x ih =>
    have hp : t <+: d :: (x ++ [c]) ↔ t <+: d :: x :=
      ⟨hp (d :: x), fun h => h.trans (List.prefix_append (d :: x) [c])⟩
    simp only [List.cons_append, occurrences, hp, ih]

end DocPress.Text
