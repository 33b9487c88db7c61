import DocPress.Text.Case

-- Letter case and line ends: no letter has a line feed in its other case.

namespace DocPress.Text

variable {c : Char} {x : Text}

theorem ofNat_ne_lineFeed {n : Nat} (h : n ≠ 10) : Char.ofNat n ≠ '\n' := by
  intro he
  by_cases hv : n.isValidChar
  case pos =>
    have hn : Char.ofNat n = Char.ofNatAux n hv := dif_pos hv
    exact h (congrArg Char.toNat (hn.symm.trans he))
  case neg =>
    have hn : Char.ofNat n = '\x00' := dif_neg hv
    exact absurd (hn.symm.trans he) (by decide)

theorem lineFeed_not_mem_map {runs : List Case.Run} {texts : List (Nat × List Nat)}
    (hr : ∀ r ∈ runs, 10 < r.image) (ht : ∀ p ∈ texts, 10 ∉ p.2) (hc : c ≠ '\n') :
    '\n' ∉ Case.map runs texts c := by
  intro h
  rw [Case.map] at h
  split at h
  case h_1 ns hn =>
    have ⟨n, hm, he⟩ := List.mem_map.mp h
    have ⟨_, _, hl, _⟩ := List.lookup_eq_some_iff.mp hn
    have ht : 10 ∉ ns := ht (c.toNat, ns) (by simp [hl])
    exact ofNat_ne_lineFeed (fun hn => ht (hn ▸ hm)) he
  case h_2 =>
    have h := List.mem_singleton.mp h
    cases hf : runs.findSome? (·.image? c.toNat)
    all_goals rw [hf] at h
    case none   => exact hc h.symm
    case some n =>
      have ⟨r, hm, hi⟩ := List.exists_of_findSome?_eq_some hf
      rw [Case.Run.image?] at hi
      split at hi
      case isFalse => contradiction
      case isTrue  =>
        cases hi
        have := hr r hm
        exact ofNat_ne_lineFeed (by omega) h.symm

theorem lineFeed_not_mem_ascii {f : Char → Char}
    (hf : ∀ n < 128, n ≠ 10 → f (Char.ofNat n) ≠ '\n') (hl : c.toNat < 128) (hc : c ≠ '\n') :
    '\n' ∉ [f c] := by
  have h := hf c.toNat hl fun hn => hc (Char.toNat_inj.mp hn)
  rw [Char.ofNat_toNat] at h
  exact fun hm => h (List.mem_singleton.mp hm).symm

theorem lineFeed_not_mem_lowerChar (hc : c ≠ '\n') : '\n' ∉ lowerChar c := by
  rw [lowerChar]
  split
  case isTrue hl => exact lineFeed_not_mem_ascii (by decide) hl hc
  case isFalse   => exact lineFeed_not_mem_map (by decide +kernel) (by decide +kernel) hc

theorem lineFeed_not_mem_upperChar (hc : c ≠ '\n') : '\n' ∉ upperChar c := by
  rw [upperChar]
  split
  case isTrue hl => exact lineFeed_not_mem_ascii (by decide) hl hc
  case isFalse   => exact lineFeed_not_mem_map (by decide +kernel) (by decide +kernel) hc

theorem lineFeed_not_mem_title (hx : '\n' ∉ x) : '\n' ∉ title x := by
  cases x
  case nil => exact hx
  case cons c x =>
    have ⟨hc, hx⟩ := List.ne_and_not_mem_of_not_mem_cons hx
    intro h
    rcases List.mem_append.mp h with h | h
    case inl => exact lineFeed_not_mem_upperChar hc.symm h
    case inr =>
      have ⟨d, hd, h⟩ := List.mem_flatMap.mp h
      exact lineFeed_not_mem_lowerChar (fun he => hx (he ▸ hd)) h

end DocPress.Text
