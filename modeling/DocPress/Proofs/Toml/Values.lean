import DocPress.Proofs.Text.Lines
import DocPress.Proofs.Toml.Numbers
import DocPress.Proofs.Toml.Quoted
import DocPress.Toml.Reader
import DocPress.Toml.Writer

-- Written values are read back: texts, arrays of texts and numbers.

namespace DocPress.Toml

open Text

-- The text is read as a value when it is followed by the end of its line.
structure Reads (x : Text) (v : Value) : Prop where
  head  : ∀ c ∈ x.head?, isSpace c = false
  value : ∀ n rest, x.length < n → value? n 0 (x ++ '\n' :: rest) = some (v, '\n' :: rest)

variable {x rest : Text} {xs : List Text} {n k : Nat}

theorem follows_cons {c : Char} (h : c ≠ '"' ∧ c ≠ '\x27') (rest : Text) : Follows (c :: rest) := by
  rintro _ ⟨⟩
  exact h

theorem exists_writeQuoted (x : Text) :
    ∃ m y, (m = '"' ∨ m = '\x27') ∧ writeQuoted x = m :: y := by
  have hm : (Quote.forText x).mark = '"' ∨ (Quote.forText x).mark = '\x27' := by
    rcases forText_cases x with h | h | ⟨h, _⟩ | ⟨h, _⟩
    all_goals
      rw [h]
      decide
  refine ⟨_, (writeQuoted x).tail, hm, ?_⟩
  rw [writeQuoted, writeIn, Quote.marks]
  split <;> rfl

theorem value?_writeQuoted (n depth : Nat) (x : Text) (hr : Follows rest) :
    value? (n + 1) depth (writeQuoted x ++ rest) = some (.string x, rest) := by
  have hq := quoted?_writeQuoted x hr
  have ⟨m, y, hm, hy⟩ := exists_writeQuoted x
  rw [hy, List.cons_append] at hq ⊢
  rcases hm with rfl | rfl
  all_goals rw [value?, hq, Option.map_some]

theorem skipVoid_writeQuoted (x rest : Text) :
    skipVoid false (writeQuoted x ++ rest) = some (writeQuoted x ++ rest) := by
  have ⟨m, y, hm, hy⟩ := exists_writeQuoted x
  rw [hy]
  rcases hm with rfl | rfl <;> rfl

theorem items?_congr {y : Text} (h : skipVoid false x = skipVoid false y) (n depth : Nat) :
    items? n depth x = items? n depth y := by
  cases n
  case zero => rw [items?, items?]
  case succ => rw [items?, items?, h]

-- A text in an array, with what follows it.
theorem items?_writeQuoted (n depth : Nat) (x rest : Text) :
    (items? (n + 2) depth (writeQuoted x ++ ']' :: rest) = some ([.string x], rest)) ∧
      items? (n + 2) depth (writeQuoted x ++ ',' :: rest) =
        (items? (n + 1) depth rest).bind fun (vs, z) => some (.string x :: vs, z) := by
  have hv (c : Char) (hc : c ≠ '"' ∧ c ≠ '\x27') :=
    value?_writeQuoted n depth x (follows_cons hc rest)
  have hs (c : Char) := skipVoid_writeQuoted x (c :: rest)
  have ⟨m, y, hm, hy⟩ := exists_writeQuoted x
  simp only [hy, List.cons_append] at hv hs ⊢
  rw [items?, items?, hs, hs]
  rcases hm with rfl | rfl
  all_goals
    constructor
    · simp [hv ']' (by decide), skipVoid, isSpace]
    · simp [hv ',' (by decide), skipVoid, isSpace]

theorem items?_flatten (xs : List Text) (depth : Nat) (rest : Text) (h : xs.length < n) :
    items? n depth ((xs.map writeItem).flatten ++ ']' :: rest) = some (xs.map .string, rest) := by
  induction xs generalizing n
  case nil =>
    obtain ⟨n, rfl⟩ := Nat.exists_eq_add_of_lt h
    simp [items?, skipVoid, isSpace]
  case cons x xs ih =>
    obtain ⟨n, rfl⟩ : ∃ m, n = m + 2 := Nat.exists_eq_add_of_le' (by simp at h; omega)
    let y := (xs.map writeItem).flatten ++ ']' :: rest
    have hs : skipVoid false (((x :: xs).map writeItem).flatten ++ ']' :: rest) =
        skipVoid false (writeQuoted x ++ ',' :: '\n' :: y) := by
      simp [y, writeItem, spaces, skipVoid, isSpace, List.replicate]
    have hn : skipVoid false ('\n' :: y) = skipVoid false y := rfl
    rw [items?_congr hs, (items?_writeQuoted n depth x _).right, items?_congr hn,
      ih (by simp at h; omega)]
    rfl

theorem length_le_flatten (xs : List Text) : xs.length ≤ ((xs.map writeItem).flatten).length := by
  induction xs
  case nil => exact Nat.le_refl 0
  case cons x xs ih =>
    simp only [List.map_cons, List.flatten_cons, List.length_append, List.length_cons, writeItem,
      spaces, List.length_replicate]
    omega

theorem value?_bracket (n : Nat) (y : Text) :
    value? (n + 1) 0 ('[' :: y) = (items? n 1 y).map fun (vs, z) => (.array vs, z) := by
  rw [value?, if_neg (by decide)]

theorem isScalarChar_of_isDigit {c : Char} (h : c.isDigit) : isScalarChar c := by
  simp [isScalarChar, Char.isAlphanum, h]

theorem scalarOf?_decimal (h : k < Nat.pow 2 128) :
    scalarOf? (Text.decimal k) = some (.integer k) := by
  have ht : Text.decimal k ≠ "true" := fun h =>
    not_mem_decimal (n := k) (c := 't') rfl (h ▸ by decide)
  have hf : Text.decimal k ≠ "false" := fun h =>
    not_mem_decimal (n := k) (c := 'f') rfl (h ▸ by decide)
  rw [scalarOf?, if_neg ht, if_neg hf, integer?_decimal h]

theorem scalarToken_decimal (k : Nat) (rest : Text) :
    scalarToken (Text.decimal k ++ '\n' :: rest) = (Text.decimal k, '\n' :: rest) := by
  have hd : ∀ c ∈ Text.decimal k, isScalarChar c := fun c hc =>
    isScalarChar_of_isDigit (isDigit_of_mem_decimal hc)
  have ht : ('\n' :: rest).takeWhile isScalarChar = [] := rfl
  have hr : ('\n' :: rest).dropWhile isScalarChar = '\n' :: rest := rfl
  rw [scalarToken, List.takeWhile_append_of_pos hd, List.dropWhile_append_of_pos hd, ht, hr,
    List.append_nil]
  rfl

namespace Reads

theorem writeQuoted (x : Text) : Reads (writeQuoted x) (.string x) where
  head  := by
    have ⟨m, y, hm, hy⟩ := exists_writeQuoted x
    rw [hy]
    rcases hm with rfl | rfl <;> simp [isSpace]
  value := fun n rest hn => by
    obtain ⟨n, rfl⟩ := Nat.exists_eq_add_of_lt hn
    exact value?_writeQuoted _ 0 x (follows_cons (by decide) rest)

theorem writeTexts (xs : List Text) : Reads (writeTexts xs) (.array (xs.map .string)) where
  head  := by
    unfold Toml.writeTexts
    split <;> simp [isSpace]
  value := fun n rest hn => by
    obtain ⟨n, rfl⟩ : ∃ m, n = m + 3 := by
      refine Nat.exists_eq_add_of_le' (Nat.le_of_lt_succ (Nat.lt_succ_of_le ?_))
      unfold Toml.writeTexts at hn
      split at hn <;> simp at hn <;> omega
    unfold Toml.writeTexts at hn ⊢
    split
    case h_1 =>
      have hi : items? (n + 2) 1 (']' :: '\n' :: rest) = some ([], '\n' :: rest) := by
        simp [items?, skipVoid, isSpace]
      exact (value?_bracket (n + 2) _).trans (congrArg (Option.map _) hi)
    case h_2 x =>
      have ht : ("[".toList ++ Toml.writeQuoted x ++ "]".toList ++ '\n' :: rest : Text) =
          '[' :: (Toml.writeQuoted x ++ ']' :: '\n' :: rest) := by simp
      rw [ht, value?_bracket, (items?_writeQuoted n 1 x _).left]
      rfl
    case h_3 =>
      have ht : ("[\n".toList ++ (xs.map writeItem).flatten ++ "]".toList ++ '\n' :: rest : Text) =
          '[' :: '\n' :: ((xs.map writeItem).flatten ++ ']' :: '\n' :: rest) := by simp
      have hs : skipVoid false ('\n' :: ((xs.map writeItem).flatten ++ ']' :: '\n' :: rest)) =
          skipVoid false ((xs.map writeItem).flatten ++ ']' :: '\n' :: rest) := rfl
      have hl := length_le_flatten xs
      have hb : "]".toList.length = 1 := rfl
      simp only [List.length_append, hb] at hn
      rw [ht, value?_bracket, items?_congr hs, items?_flatten xs 1 _ (by omega)]
      rfl

theorem decimal (h : k < Nat.pow 2 128) : Reads (decimal k) (.integer k) where
  head  := fun c hc => by
    have hd := isDigit_of_mem_decimal (List.mem_of_mem_head? hc)
    rw [Bool.eq_false_iff]
    intro hs
    rcases (by simpa [isSpace] using hs : c = ' ' ∨ c = '\t') with rfl | rfl <;> contradiction
  value := fun n rest hn => by
    obtain ⟨n, rfl⟩ := Nat.exists_eq_add_of_lt hn
    obtain ⟨c, y, hy⟩ := List.exists_cons_of_ne_nil (decimal_ne_nil k)
    have hd : c.isDigit := isDigit_of_mem_decimal (hy ▸ List.mem_cons_self)
    have hs : scalar? (Text.decimal k ++ '\n' :: rest) = some (.integer k, '\n' :: rest) := by
      rw [scalar?, scalarToken_decimal]
      exact congrArg (Option.map _) (scalarOf?_decimal h)
    rw [hy, List.cons_append] at hs ⊢
    unfold value?
    split <;> simp_all

end Reads

end DocPress.Toml
