-- Documents are handled as lists of characters, so that every rule of the library is an ordinary
-- recursion on a list. String literals stand for the list of their characters.

namespace DocPress

abbrev Text := List Char

instance : Coe String Text where
  coe := String.toList

namespace Text

-- Pieces joined by a separator that stands between them only.
def join (sep : Text) (pieces : List Text) : Text :=
  sep.intercalate pieces

@[simp]
theorem join_nil (sep : Text) : join sep [] = [] := rfl

@[simp]
theorem join_singleton (sep x : Text) : join sep [x] = x := by
  simp [join, List.intercalate]

theorem join_cons_cons (sep x y : Text) (zs : List Text) :
    join sep (x :: y :: zs) = x ++ sep ++ join sep (y :: zs) := by
  simp [join, List.intercalate]

-- The number of characters, which is what a column of a table is measured in.
def width (x : Text) : Nat :=
  x.length

def spaces (n : Nat) : Text :=
  List.replicate n ' '

-- Removes the characters of a class from both ends.
def trimBy (p : Char → Bool) (x : Text) : Text :=
  ((x.dropWhile p).reverse.dropWhile p).reverse

-- Removes the characters of a class from the end only.
def trimEndBy (p : Char → Bool) (x : Text) : Text :=
  (x.reverse.dropWhile p).reverse

theorem length_trimBy_le (p : Char → Bool) (x : Text) : (trimBy p x).length ≤ x.length := by
  have h₁ := (List.dropWhile_suffix p (l := x)).length_le
  have h₂ := (List.dropWhile_suffix p (l := (x.dropWhile p).reverse)).length_le
  simp only [trimBy, List.length_reverse] at h₂ ⊢
  omega

theorem prefix_trimEndBy (p : Char → Bool) (x : Text) : trimEndBy p x <+: x := by
  have h := List.dropWhile_suffix p (l := x.reverse)
  simpa [trimEndBy] using List.reverse_prefix.mpr h

theorem trimBy_eq (p : Char → Bool) (x : Text) : trimBy p x = trimEndBy p (x.dropWhile p) := rfl

-- What is left after trimming begins with a character outside the class.
theorem head_trimBy {p : Char → Bool} {x r : Text} {c : Char} (h : trimBy p x = c :: r) :
    p c = false := by
  have ⟨t, ht⟩ := prefix_trimEndBy p (x.dropWhile p)
  rw [← trimBy_eq, h] at ht
  have := List.head?_dropWhile_not p x
  simp [← ht] at this
  exact this

def startsWith (x start : Text) : Bool :=
  start.isPrefixOf x

def endsWith (x stop : Text) : Bool :=
  stop.isSuffixOf x

-- The text without a given beginning, or the text itself where it begins otherwise.
def dropStart (start x : Text) : Text :=
  if start.isPrefixOf x then x.drop start.length else x

@[simp]
theorem dropStart_nil (x : Text) : dropStart [] x = x := by
  simp [dropStart]

theorem length_dropStart_le (start x : Text) : (dropStart start x).length ≤ x.length := by
  unfold dropStart
  split <;> simp

def dropEnd (stop x : Text) : Text :=
  if stop.isSuffixOf x then x.take (x.length - stop.length) else x

-- The parts before and after the first occurrence of a character.
def splitAt? (c : Char) : Text → Option (Text × Text)
  | []     => none
  | d :: r => if d = c then some ([], r) else (splitAt? c r).map fun (a, b) => (d :: a, b)

-- No part of a split holds a separator.
theorem not_of_mem_splitOnP {p : Char → Bool} {x y : Text} (h : y ∈ x.splitOnP p) :
    ∀ c ∈ y, p c = false := by
  induction x generalizing y with
  | nil => simp_all
  | cons d r ih =>
    rw [List.splitOnP_cons_eq_if_modifyHead] at h
    split at h
    · rcases List.mem_cons.mp h with rfl | h
      · simp
      · exact ih h
    · next hd =>
      match hs : r.splitOnP p, List.splitOnP_ne_nil p r with
      | z :: zs, _ =>
        rw [hs, List.modifyHead_cons] at h
        rcases List.mem_cons.mp h with rfl | h
        · intro c hc
          rcases List.mem_cons.mp hc with rfl | hc
          · simpa using hd
          · exact ih (hs ▸ List.mem_cons_self) c hc
        · exact ih (hs ▸ List.mem_cons_of_mem _ h)

def decimal (n : Nat) : Text :=
  Nat.toDigits 10 n

theorem decimal_ne_nil (n : Nat) : decimal n ≠ [] :=
  Nat.toDigits_ne_nil

theorem isDigit_of_mem_decimal {n : Nat} {c : Char} (h : c ∈ decimal n) : c.isDigit :=
  Nat.isDigit_of_mem_toDigits (by decide) (by decide) h

theorem not_mem_decimal {n : Nat} {c : Char} (h : c.isDigit = false) : c ∉ decimal n := fun hc =>
  Bool.false_ne_true (h.symm.trans (isDigit_of_mem_decimal hc))

theorem decimal_injective {m n : Nat} (h : decimal m = decimal n) : m = n := by
  have h := congrArg (Nat.ofDigitChars 10 · 0) h
  simpa [decimal] using h

end Text
end DocPress
