import DocPress.Toml.Scalar

-- Decimal numbers are read back as they were written.

namespace DocPress.Toml

open Text

variable {x : Text} {k : Nat}

theorem digitValue_of_isDigit {c : Char} (h : c.isDigit) :
    digitValue c = some (c.toNat - '0'.toNat) ∧ c.toNat - '0'.toNat < 10 := by
  refine ⟨if_pos h, ?_⟩
  have ⟨_, hl⟩ : '0'.toNat ≤ c.toNat ∧ c.toNat ≤ '9'.toNat := by
    simpa [Char.isDigit, UInt32.le_iff_toNat_le] using h
  exact Nat.sub_lt_right_of_lt_add (by assumption) (Nat.lt_succ_of_le hl)

theorem foldlM_digits (h : ∀ c ∈ x, c.isDigit) (n : Nat) :
    x.foldlM (fun n c => do
      let d ← digitValue c
      if d < 10 then some (n * 10 + d) else none) n = some (Nat.ofDigitChars 10 x n) := by
  induction x generalizing n
  case nil => rfl
  case cons c x ih =>
    rw [List.forall_mem_cons] at h
    have ⟨hd, hl⟩ := digitValue_of_isDigit h.left
    rw [List.foldlM_cons, hd, Nat.ofDigitChars_cons, Nat.mul_comm 10]
    simp only [Option.bind_eq_bind, Option.bind_some, if_pos hl]
    exact ih h.right _

theorem numeral_decimal (k : Nat) : numeral 10 (decimal k) = some k := by
  rw [numeral, foldlM_digits (fun c => isDigit_of_mem_decimal), decimal,
    Nat.ofDigitChars_ten_toDigits]

-- Only zero is written with a zero in front.
theorem head?_decimal (k : Nat) (h : (decimal k).head? = some '0') : k = 0 := by
  induction k using Nat.strongRecOn
  case ind k ih =>
    rw [decimal, Nat.toDigits_eq_if (by decide)] at h
    split at h
    case isTrue hk =>
      have hz : ∀ k < 10, Nat.digitChar k = '0' → k = 0 := by decide
      exact hz k hk (by simpa using h)
    case isFalse hk =>
      have hs : (Nat.toDigits 10 (k / 10)).head?.isSome :=
        List.isSome_head?.mpr Nat.toDigits_ne_nil
      rw [List.head?_append, Option.or_of_isSome hs] at h
      have := ih (k / 10) (by omega) h
      omega

theorem integer?_decimal (h : k < Nat.pow 2 128) : integer? (decimal k) = some (k : Int) := by
  have hd : decimal? (decimal k) = some k := by
    have hz : ¬((decimal k).head? = some '0' ∧ decimal k ≠ ['0']) := by
      rintro ⟨hh, hn⟩
      rw [head?_decimal k hh] at hn
      exact hn rfl
    rw [decimal?, if_neg hz, digits?, List.splitOn_eq_singleton (not_mem_decimal rfl)]
    simp [decimal_ne_nil, numeral_decimal]
  have hs : signed (decimal k) = (false, decimal k) := by
    unfold signed
    split
    case h_1 hx => exact absurd (hx ▸ List.mem_cons_self) (not_mem_decimal rfl)
    case h_2 hx => exact absurd (hx ▸ List.mem_cons_self) (not_mem_decimal rfl)
    case h_3    => rfl
  unfold integer?
  split
  case h_1 hx => exact absurd (hx ▸ by simp) (not_mem_decimal (n := k) (c := 'x') rfl)
  case h_2 hx => exact absurd (hx ▸ by simp) (not_mem_decimal (n := k) (c := 'o') rfl)
  case h_3 hx => exact absurd (hx ▸ by simp) (not_mem_decimal (n := k) (c := 'b') rfl)
  case h_4 =>
    simp only [hs, hd, Option.bind_some]
    exact if_pos h

end DocPress.Toml
