import Mathlib.Tactic.SplitIfs
import DocPress.Toml.Quoted

-- Quotes are read back as they were written. What stands between the marks of a quote is told by a
-- relation, which every form of quote fulfils in its own way and from which it is read in one.

namespace DocPress.Toml

open Text

-- The character stands for itself in a quote.
structure Quote.Keeps (q : Quote) (c : Char) : Prop where
  ne_mark   : c ≠ q.mark
  unescaped : ¬(c = '\\' ∧ q.escapes = true)
  allowed   : isPlain c = true ∨ (q.multiline = true ∧ c = '\n')

-- The text behind a backslash stands for a character, whatever comes after it.
structure Escape (w : Text) (c : Char) : Prop where
  reads : ∀ x, escape? (w ++ x) = some (c, w.length)
  stays : ∀ x, newline? ((w ++ x).dropWhile isSpace) = none

-- The first text, between the marks of a quote, stands for the second one. In a quote that may span
-- lines at most two marks stand side by side.
inductive Quote.Holds (q : Quote) : Text → Text → Prop
  | nil : Holds q [] []
  | kept : q.Keeps c → Holds q w x → Holds q (c :: w) (c :: x)
  | escaped : q.escapes → Escape v c → Holds q w x → Holds q ('\\' :: (v ++ w)) (c :: x)
  | mark : q.multiline → ¬[q.mark, q.mark] <+: w → Holds q w x → Holds q (q.mark :: w) (q.mark :: x)

variable {q : Quote} {c : Char} {v w x y rest : Text}

theorem startsWith_iff : startsWith x y ↔ y <+: x :=
  List.isPrefixOf_iff_prefix

section Steps

theorem readQuoted_kept (h : q.Keeps c) (y : Text) :
    readQuoted q (c :: y) = (readQuoted q y).map fun (x, r) => (c :: x, r) := by
  have ha : isPlain c = true ∨ (q.multiline = true ∧ (newline? (c :: y)).isSome = true) :=
    h.allowed.imp_right fun ⟨hm, hc⟩ => ⟨hm, by rw [hc]; rfl⟩
  rw [readQuoted, if_neg h.ne_mark, if_neg h.unescaped, if_pos ha]

theorem readQuoted_escape (he : q.escapes) (hm : q.mark ≠ '\\') (h : Escape w c) (y : Text) :
    readQuoted q ('\\' :: (w ++ y)) = (readQuoted q y).map fun (x, r) => (c :: x, r) := by
  rw [readQuoted, if_neg hm.symm, if_pos ⟨rfl, he⟩, h.stays, h.reads]
  simp

theorem readQuoted_mark (hm : q.multiline) (h : ¬[q.mark, q.mark] <+: y) :
    readQuoted q (q.mark :: y) = (readQuoted q y).map fun (x, r) => (q.mark :: x, r) := by
  rw [readQuoted, if_pos rfl, if_pos hm, if_neg (mt startsWith_iff.mp h)]

theorem readQuoted_stop (hm : q.multiline = false) (y : Text) :
    readQuoted q (q.mark :: y) = some ([], y) := by
  rw [readQuoted, if_pos rfl, if_neg (by simp [hm])]

-- Of several marks at the end of a quote the last three close it.
theorem readQuoted_close (hm : q.multiline) (hr : rest.head? ≠ some q.mark) {k : Nat} (hk : k ≤ 2) :
    readQuoted q (List.replicate (k + 3) q.mark ++ rest) =
      some (List.replicate k q.mark, rest) := by
  have hs : startsWith (List.replicate (k + 2) q.mark ++ rest) [q.mark, q.mark] := by
    rw [startsWith_iff]
    exact ⟨List.replicate k q.mark ++ rest, by simp [List.replicate_succ]⟩
  have hw : rest.takeWhile (· = q.mark) = [] := by
    cases rest <;> simp_all
  have hd : (List.replicate (k + 2) q.mark ++ rest).drop 2 = List.replicate k q.mark ++ rest := rfl
  have ht : (List.replicate k q.mark ++ rest).takeWhile (· = q.mark) = List.replicate k q.mark := by
    rw [List.takeWhile_append_of_pos (by simp), hw, List.append_nil]
  rw [List.replicate_succ, List.cons_append, readQuoted, if_pos rfl, if_pos hm, if_pos hs]
  simp only [hd, ht, List.take_replicate, Nat.min_eq_right hk, List.length_replicate]
  rw [List.drop_left' List.length_replicate]

end Steps

theorem not_prefix_append {c d : Char} (h : ¬[c, d] <+: w) (hn : w ≠ []) (hc : w ≠ [c]) (y : Text) :
    ¬[c, d] <+: w ++ y := by
  obtain _ | ⟨a, _ | ⟨b, w⟩⟩ := w
  case nil           => contradiction
  case cons.nil      => simp_all [eq_comm]
  case cons.cons     => simpa using h

namespace Quote.Holds

theorem eq_nil (h : q.Holds [] x) : x = [] := by
  cases h
  rfl

theorem of_mark (h : q.Holds w x) (hq : q.mark ≠ '\\') (hw : w = q.mark :: v) :
    ∃ y, x = q.mark :: y ∧ q.Holds v y := by
  cases h
  case nil => contradiction
  case kept hc _ => exact absurd (List.cons.inj hw).left hc.ne_mark
  case escaped => exact absurd (List.cons.inj hw).left hq.symm
  case mark h => exact ⟨_, rfl, (List.cons.inj hw).right ▸ h⟩

theorem read_line (h : q.Holds w x) (hm : q.multiline = false) (hq : q.mark ≠ '\\') (rest : Text) :
    readQuoted q (w ++ q.mark :: rest) = some (x, rest) := by
  induction h
  case nil => exact readQuoted_stop hm rest
  case kept hc _ ih => rw [List.cons_append, readQuoted_kept hc, ih]; rfl
  case escaped he hv _ ih =>
    rw [List.cons_append, List.append_assoc, readQuoted_escape he hq hv, ih]
    rfl
  case mark hm' _ _ _ => exact absurd (hm.symm.trans hm') Bool.false_ne_true

-- Marks at the end of the content stand next to those that close the quote.
theorem read_lines (h : q.Holds w x) (hm : q.multiline) (hq : q.mark ≠ '\\')
    (hr : rest.head? ≠ some q.mark) :
    readQuoted q (w ++ List.replicate 3 q.mark ++ rest) = some (x, rest) := by
  induction h
  case nil => exact readQuoted_close hm hr (Nat.zero_le 2)
  case kept hc _ ih =>
    rw [List.cons_append, List.cons_append, readQuoted_kept hc, ih]
    rfl
  case escaped v _ _ _ he hv _ ih =>
    rw [List.cons_append, List.cons_append, List.append_assoc v, List.append_assoc v,
      readQuoted_escape he hq hv, ih]
    rfl
  case mark w x _ hw h ih =>
    by_cases hn : w = []
    case pos =>
      subst hn
      rw [h.eq_nil]
      exact readQuoted_close hm hr (k := 1) (by decide)
    case neg =>
      by_cases hc : w = [q.mark]
      case pos =>
        have ⟨y, hx, hy⟩ := h.of_mark hq hc
        rw [hc, hx, hy.eq_nil]
        exact readQuoted_close hm hr (k := 2) (by decide)
      case neg =>
        have hp := not_prefix_append hw hn hc (List.replicate 3 q.mark ++ rest)
        rw [← List.append_assoc] at hp
        rw [List.cons_append, List.cons_append, readQuoted_mark hm hp, ih]
        rfl

end Quote.Holds

section Escaping

theorem escape_named {d : Char} (h : ∀ x, escape? (d :: x) = some (c, 1)) (hd : isSpace d = false)
    (hl : d ≠ '\n' ∧ d ≠ '\r') : Escape [d] c where
  reads := h
  stays := fun x => by
    rw [List.singleton_append, List.dropWhile_cons_of_neg (by simp [hd])]
    unfold newline?
    split <;> simp_all

theorem hexDigits_read : ∀ n < 128, numeral 16 (hexDigits 4 n) = some n ∧
    (hexDigits 4 n).length = 4 := by
  decide

theorem escape_coded (h : c.toNat < 128) : Escape ('u' :: hexDigits 4 c.toNat) c where
  reads := fun x => by
    have ⟨hn, hl⟩ := hexDigits_read _ h
    have hc : c.toNat.isValidChar := c.valid
    have ht : (hexDigits 4 c.toNat ++ x).take 4 = hexDigits 4 c.toNat := List.take_left' hl
    rw [List.cons_append, escape?, coded, if_neg (by simp [hl]), ht, hn]
    simp only [if_pos hc, Char.ofNat_toNat, List.length_cons, hl]
  stays := fun _ => rfl

theorem toNat_lt_of_not_isPlain (h : ¬isPlain c = true) : c.toNat < 128 := by
  simp [isPlain] at h
  omega

-- A character is written as it is or behind a backslash.
theorem escapeChar_cases (hq : q.mark = '"') (hc : c ≠ '"') :
    (escapeChar q.multiline c = [c] ∧ q.Keeps c) ∨
      ∃ v, escapeChar q.multiline c = '\\' :: v ∧ Escape v c := by
  unfold escapeChar
  split_ifs with h₁ h₂ h₃ hm h₄ h₅ h₆ hp
  case pos => exact .inr ⟨['b'], rfl, h₁ ▸ escape_named (fun _ => rfl) rfl (by decide)⟩
  case pos => exact .inr ⟨['t'], rfl, h₂ ▸ escape_named (fun _ => rfl) rfl (by decide)⟩
  case pos => exact .inl ⟨rfl, hq ▸ hc, by simp [h₃], .inr ⟨hm, h₃⟩⟩
  case neg => exact .inr ⟨['n'], rfl, h₃ ▸ escape_named (fun _ => rfl) rfl (by decide)⟩
  case pos => exact .inr ⟨['f'], rfl, h₄ ▸ escape_named (fun _ => rfl) rfl (by decide)⟩
  case pos => exact .inr ⟨['r'], rfl, h₅ ▸ escape_named (fun _ => rfl) rfl (by decide)⟩
  case pos =>
    rw [h₆]
    exact .inr ⟨['\\'], rfl, escape_named (fun _ => rfl) rfl (by decide)⟩
  case pos => exact .inl ⟨rfl, hq ▸ hc, fun h => h₆ h.left, .inl hp⟩
  case neg => exact .inr ⟨_, rfl, escape_coded (toNat_lt_of_not_isPlain hp)⟩

theorem not_quote_escapeChar (hc : c ≠ '"') (m : Bool) (y : Text) :
    ¬['"'] <+: escapeChar m c ++ y := by
  rcases escapeChar_cases (q := ⟨'"', true, m⟩) rfl hc with ⟨he, _⟩ | ⟨v, he, _⟩
  · simpa [show escapeChar m c = [c] from he] using hc.symm
  · simp [show escapeChar m c = '\\' :: v from he]

theorem not_quote_writeEscaped (hn : 2 ≤ n) (x : Text) : ¬['"'] <+: writeEscaped true n x := by
  cases x
  case nil => simp [writeEscaped]
  case cons c x =>
    rw [writeEscaped]
    split
    case isTrue  => simp [Nat.not_lt.mpr hn]
    case isFalse hc => exact not_quote_escapeChar hc true _

-- After one mark comes at most one other before the next is escaped.
theorem not_quotes_writeEscaped (hn : 1 ≤ n) (x : Text) :
    ¬['"', '"'] <+: writeEscaped true n x := by
  cases x
  case nil => simp [writeEscaped]
  case cons c x =>
    rw [writeEscaped]
    split
    case isTrue hc =>
      have h := not_quote_writeEscaped (Nat.succ_le_succ hn) x
      simp only [if_true]
      split
      case isTrue  => simpa [hc] using h
      case isFalse => simp
    case isFalse hc =>
      exact fun h => not_quote_escapeChar hc true _ ((List.prefix_append ['"'] ['"']).trans h)

theorem holds_writeEscaped (he : q.escapes) (hq : q.mark = '"') (n : Nat) (x : Text) :
    q.Holds (writeEscaped q.multiline n x) x := by
  induction x generalizing n
  case nil => exact .nil
  case cons c x ih =>
    rw [writeEscaped]
    split
    case isTrue hc =>
      have hs : Escape ['"'] '"' := escape_named (fun _ => rfl) rfl (by decide)
      rw [hc]
      split_ifs with hm hn
      case pos =>
        have hw := not_quotes_writeEscaped (Nat.le_add_left 1 n) x
        rw [← hm, ← hq] at hw
        exact hq ▸ .mark hm hw (ih (n + 1))
      case neg => exact .escaped he hs (ih (n + 1))
      case pos hn => exact absurd hn (Nat.not_lt_zero n)
      case neg => exact .escaped he hs (ih (n + 1))
    case isFalse hc =>
      rcases escapeChar_cases hq hc with ⟨hw, hk⟩ | ⟨v, hw, hv⟩
      · rw [hw]
        exact .kept hk (ih 0)
      · rw [hw]
        exact .escaped he hv (ih 0)

end Escaping

-- The quotes without escapes.
section Literal

theorem le_longestRun (mark : Char) (n : Nat) (x : Text) : n ≤ longestRun mark n x := by
  induction x generalizing n
  case nil => exact Nat.le_refl n
  case cons c x ih =>
    rw [longestRun]
    split
    case isTrue  => exact Nat.le_of_succ_le (ih (n + 1))
    case isFalse => exact Nat.le_max_left ..

theorem holds_literal (hx : ∀ c ∈ x, isPlain c) (hm : '\x27' ∉ x) : Quote.literal.Holds x x := by
  induction x
  case nil => exact .nil
  case cons c x ih =>
    rw [List.forall_mem_cons] at hx
    have ⟨hc, hm⟩ := List.ne_and_not_mem_of_not_mem_cons hm
    exact .kept ⟨hc.symm, by simp [Quote.literal], .inl hx.left⟩ (ih hx.right hm)

theorem holds_multiLiteral (hx : ∀ c ∈ x, needsEscape c = false) {n : Nat}
    (hn : longestRun '\x27' n x ≤ 2) : Quote.multiLiteral.Holds x x := by
  induction x generalizing n
  case nil => exact .nil
  case cons c x ih =>
    rw [List.forall_mem_cons] at hx
    rw [longestRun] at hn
    split at hn
    case isTrue hc =>
      rw [hc]
      refine .mark rfl (fun hp => ?_) (ih hx.right hn)
      have ⟨y, hy⟩ := hp
      have hl := le_longestRun '\x27' (n + 1 + 1 + 1) y
      simp only [← hy, List.cons_append, List.nil_append, longestRun, if_pos,
        Quote.multiLiteral] at hn
      omega
    case isFalse hc =>
      have hk : Quote.multiLiteral.Keeps c := by
        refine ⟨hc, by simp [Quote.multiLiteral], ?_⟩
        have h := hx.left
        simp [needsEscape] at h
        by_cases hp : isPlain c
        · exact .inl hp
        · exact .inr ⟨rfl, by simpa [hp] using h⟩
      exact .kept hk (ih hx.right (Nat.le_trans (Nat.le_max_right ..) hn))

end Literal

-- The text in a quote before it is put between its marks.
def Quote.content (q : Quote) (x : Text) : Text :=
  if q.escapes then writeEscaped q.multiline 0 x else x

-- Nothing after a quote may be taken for one more of its marks.
def Follows (rest : Text) : Prop :=
  ∀ c ∈ rest.head?, c ≠ '"' ∧ c ≠ '\x27'

theorem writeIn_eq (q : Quote) (x rest : Text) :
    writeIn q x ++ rest =
      q.marks ++ ((if q.multiline && x.contains '\n' then ['\n'] else []) ++
        (q.content x ++ q.marks ++ rest)) := by
  simp [writeIn, Quote.content]

theorem forText_cases (x : Text) :
    Quote.forText x = .basic ∨ Quote.forText x = .multiBasic ∨
      (Quote.forText x = .literal ∧ (∀ c ∈ x, isPlain c) ∧ '\x27' ∉ x) ∨
      (Quote.forText x = .multiLiteral ∧ (∀ c ∈ x, needsEscape c = false) ∧
        longestRun '\x27' 0 x ≤ 2) := by
  unfold Quote.forText
  simp only [Bool.and_eq_true, Bool.not_eq_true', decide_eq_true_eq]
  split_ifs with h₁ h₂ h₃ h₄ h₅
  case pos => exact .inl rfl
  case pos =>
    have ⟨⟨hp, hl⟩, hm⟩ := h₂
    have hx : ∀ c ∈ x, isPlain c := by
      intro c hc
      have hn : c ≠ '\n' := by
        rintro rfl
        simp [hc] at hl
      simpa [needsEscape, hn] using List.any_eq_false.mp hp c hc
    exact .inr (.inr (.inl ⟨rfl, hx, by simpa using hm⟩))
  case pos => exact .inr (.inl rfl)
  case pos =>
    have ⟨hp, hn⟩ := h₄
    exact .inr (.inr (.inr ⟨rfl, by simpa using hp, hn⟩))
  case pos => exact .inl rfl
  case neg => exact .inr (.inl rfl)

theorem holds_content (x : Text) : (Quote.forText x).Holds ((Quote.forText x).content x) x := by
  rcases forText_cases x with h | h | ⟨h, hx, hm⟩ | ⟨h, hx, hm⟩
  · rw [h]
    exact holds_writeEscaped rfl rfl 0 x
  · rw [h]
    exact holds_writeEscaped rfl rfl 0 x
  · rw [h]
    exact holds_literal hx hm
  · rw [h]
    exact holds_multiLiteral hx hm

theorem Quote.Holds.head_ne_mark (h : q.Holds w x) (hm : q.multiline = false)
    (hq : q.mark ≠ '\\') : w.head? ≠ some q.mark := by
  cases h
  case nil => simp
  case kept hc _ => simpa using hc.ne_mark
  case escaped => simpa using hq.symm
  case mark hm' _ _ => exact absurd (hm.symm.trans hm') Bool.false_ne_true

theorem quoted?_basic (h : ¬['"', '"'] <+: y) : quoted? ('"' :: y) = readQuoted .basic y := by
  unfold quoted?
  split <;> simp_all

theorem quoted?_literal (h : ¬['\x27', '\x27'] <+: y) :
    quoted? ('\x27' :: y) = readQuoted .literal y := by
  unfold quoted?
  split <;> simp_all

theorem not_marks_prefix {m : Char} (hw : w.head? ≠ some m) (hr : rest.head? ≠ some m) :
    ¬[m, m] <+: w ++ m :: rest := by
  cases w
  case nil => cases rest <;> simp_all [eq_comm]
  case cons => simp_all [eq_comm]

-- The content begins with a line end only if the text does.
theorem newline?_content (h : q.Holds w x) (hx : '\n' ∉ x) (hq : q.mark = '"' ∨ q.mark = '\x27')
    (y : Text) : newline? (w ++ q.mark :: y) = none := by
  have hm : ∀ y, newline? (q.mark :: y) = none := by
    rcases hq with hq | hq <;> exact fun y => hq ▸ rfl
  cases h
  case nil => exact hm y
  case kept c w x hc _ =>
    have ⟨hn, _⟩ := List.ne_and_not_mem_of_not_mem_cons hx
    have hr : c ≠ '\r' := by
      rintro rfl
      exact hc.allowed.elim (by decide) fun h => absurd h.right (by decide)
    rw [List.cons_append]
    unfold newline?
    split <;> simp_all
  case escaped => rfl
  case mark => exact hm _

theorem quoted?_line (hq : q = .basic ∨ q = .literal) (h : q.Holds w x) (hr : Follows rest) :
    quoted? (q.mark :: (w ++ q.mark :: rest)) = some (x, rest) := by
  rcases hq with rfl | rfl
  · have hp := not_marks_prefix (h.head_ne_mark rfl (by decide)) fun hh => (hr _ hh).left rfl
    exact (quoted?_basic hp).trans (h.read_line rfl (by decide) rest)
  · have hp := not_marks_prefix (h.head_ne_mark rfl (by decide)) fun hh => (hr _ hh).right rfl
    exact (quoted?_literal hp).trans (h.read_line rfl (by decide) rest)

theorem quoted?_lines (hq : q = .multiBasic ∨ q = .multiLiteral) (h : q.Holds w x)
    (hr : Follows rest) :
    quoted? (List.replicate 3 q.mark ++ ((if x.contains '\n' then ['\n'] else []) ++
      (w ++ List.replicate 3 q.mark ++ rest))) = some (x, rest) := by
  have hs (hm : q.mark = '"' ∨ q.mark = '\x27') :
      skipNewline ((if x.contains '\n' then ['\n'] else []) ++
        (w ++ List.replicate 3 q.mark ++ rest)) = w ++ List.replicate 3 q.mark ++ rest := by
    split
    case isTrue => rfl
    case isFalse hx =>
      have hn := newline?_content h (by simpa using hx) hm (List.replicate 2 q.mark ++ rest)
      rw [List.nil_append, skipNewline, List.append_assoc]
      exact congrArg (Option.getD · _) hn
  rcases hq with rfl | rfl
  · have hr := h.read_lines rfl (by decide) fun hh => (hr _ hh).left rfl
    exact (congrArg (readQuoted .multiBasic) (hs (.inl rfl))).trans hr
  · have hr := h.read_lines rfl (by decide) fun hh => (hr _ hh).right rfl
    exact (congrArg (readQuoted .multiLiteral) (hs (.inr rfl))).trans hr

-- Whatever quote is chosen for a text, the text is read back.
theorem quoted?_writeQuoted (x : Text) (hr : Follows rest) :
    quoted? (writeQuoted x ++ rest) = some (x, rest) := by
  have h := holds_content x
  rw [writeQuoted, writeIn_eq]
  rcases forText_cases x with hq | hq | ⟨hq, _⟩ | ⟨hq, _⟩
  all_goals rw [hq] at h ⊢
  · have hl := quoted?_line (.inl rfl) h hr
    simpa [Quote.marks, Quote.basic] using hl
  · have hl := quoted?_lines (.inl rfl) h hr
    simpa [Quote.marks, Quote.multiBasic] using hl
  · have hl := quoted?_line (.inr rfl) h hr
    simpa [Quote.marks, Quote.literal] using hl
  · have hl := quoted?_lines (.inr rfl) h hr
    simpa [Quote.marks, Quote.multiLiteral] using hl

end DocPress.Toml
