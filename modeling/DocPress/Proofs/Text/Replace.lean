import DocPress.Proofs.Text.Lines
import DocPress.Text.Search

-- Replacing what a text holds once. A text that begins with a character it has nowhere else cannot
-- overlap with itself, so whether it occurs in a part of another text is up to that part.

namespace DocPress.Text

variable {w : Text → Nat} {c : Char} {m old x y : Text}

theorem pieces_of_zero (h : w (c :: x) = 0) : pieces w (c :: x) = .other c :: pieces w x := by
  rw [pieces, h]

theorem pieces_of_match (hm : m ≠ []) (h : w (m ++ x) = m.length) :
    pieces w (m ++ x) = .found m :: pieces w x := by
  cases m
  case nil => contradiction
  case cons c m =>
    rw [List.cons_append, List.length_cons] at h
    rw [List.cons_append, pieces, h]
    simp

theorem found_of_mem_findAll (h : y ∈ findAll w x) : .found y ∈ pieces w x := by
  have ⟨p, hp, hm⟩ := List.mem_filterMap.mp h
  cases p
  case other => contradiction
  case found =>
    cases hm
    exact hp

theorem literal_eq_zero (h : ¬old <+: x) : literal old x = 0 :=
  if_neg (by simpa using h)

theorem replaceFirst_cons {new : Text} (h : ¬old <+: c :: x) :
    replaceFirst old new (c :: x) = c :: replaceFirst old new x :=
  if_neg (by simpa using h)

@[simp]
theorem replace_nil (old new : Text) : replace old new [] = [] := by
  simp [replace, substitute, pieces]

theorem replace_of_zero (new : Text) (h : literal old (c :: x) = 0) :
    replace old new (c :: x) = c :: replace old new x := by
  rw [replace, substitute, pieces_of_zero h]
  rfl

theorem replace_match (new : Text) (ho : old ≠ []) (x : Text) :
    replace old new (old ++ x) = new ++ replace old new x := by
  have h : literal old (old ++ x) = old.length := if_pos (by simp)
  rw [replace, substitute, pieces_of_match ho h]
  rfl

-- An occurrence that goes on behind a text holds what follows, and not as its first character.
theorem prefix_of_prefix_append (hn : x ≠ []) (hy : ∀ d ∈ y.head?, d ∉ old)
    (h : (c :: old) <+: x ++ y) : (c :: old) <+: x := by
  cases List.prefix_or_prefix_of_prefix h (List.prefix_append x y)
  case inl hx => exact hx
  case inr hx =>
    have ⟨z, hz⟩ := hx
    cases z
    case nil => exact ⟨[], by rw [List.append_nil, ← hz, List.append_nil]⟩
    case cons d z =>
      have ⟨v, hv⟩ : (d :: z) <+: y := (List.prefix_append_right_inj x).mp (hz ▸ h)
      have ⟨e, r, hx⟩ := List.exists_cons_of_ne_nil hn
      rw [hx, List.cons_append, List.cons_eq_cons] at hz
      have hm : d ∈ old := hz.right ▸ List.mem_append_right r List.mem_cons_self
      exact absurd hm (hy d (hv ▸ rfl))

-- What stands in front of a text that begins like an occurrence is left as it is, if it has none.
theorem replace_append (new : Text) (hc : c ∉ old) (hx : ¬(c :: old) <:+: x)
    (hy : ∀ d ∈ y.head?, d = c) :
    replace (c :: old) new (x ++ y) = x ++ replace (c :: old) new y := by
  induction x
  case nil => rfl
  case cons d x ih =>
    have hl : literal (c :: old) (d :: (x ++ y)) = 0 := by
      refine literal_eq_zero fun hp => hx ?_
      have hp := prefix_of_prefix_append (List.cons_ne_nil d x) (fun e he => hy e he ▸ hc) hp
      exact hp.isInfix
    have hx : ¬(c :: old) <:+: x := fun h => hx (h.trans (List.suffix_cons d x).isInfix)
    rw [List.cons_append, replace_of_zero new hl, ih hx, List.cons_append]

theorem replace_eq_self (new : Text) (hc : c ∉ old) (hx : ¬(c :: old) <:+: x) :
    replace (c :: old) new x = x := by
  have h := replace_append (y := []) new hc hx (by simp)
  rwa [List.append_nil, replace_nil, List.append_nil] at h

-- What is left of the text, and what is put in.

theorem of_mem_replace (hc : c ∈ replace old new x) : c ∈ new ∨ c ∈ x := by
  have ⟨p, hp, hc⟩ := List.mem_flatMap.mp hc
  cases p
  case found => exact .inl hc
  case other =>
    refine .inr ?_
    rw [← flatMap_text_pieces (literal old) x]
    exact List.mem_flatMap.mpr ⟨_, hp, hc⟩

theorem lineFeed_not_mem_replace (hn : '\n' ∉ new) (hx : '\n' ∉ x) : '\n' ∉ replace old new x :=
  fun hc => (of_mem_replace hc).elim hn hx

end DocPress.Text
