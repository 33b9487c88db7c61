import DocPress.Docstring.Keyword
import DocPress.Proofs.Text.Gaps

-- Emphasis puts tags in the place of marks and around keywords. It leaves blank lines as they are,
-- and no other line becomes blank.

namespace DocPress.Text

-- What is said of all characters of a text is decided on the text, not on all characters there are.

instance (priority := high) {p : Char → Prop} [DecidablePred p] (x : Text) :
    Decidable (∀ c ∈ x, p c) :=
  List.decidableBAll p x

instance (priority := high) {p : Char → Prop} [DecidablePred p] (x : Option Char) :
    Decidable (∀ c ∈ x, p c) :=
  Option.decidableForallMem x

end DocPress.Text

namespace DocPress.Markdown.Emphasis

open Text

-- Links are read from what they were written as, whatever follows it.

namespace Link

inductive IsName : Text → Prop
  | plain : n ≠ [] → (∀ c ∈ n, isNameChar c) → IsName n
  | call  : n ≠ [] → (∀ c ∈ n, isNameChar c) → (∀ c ∈ x, isWordChar c) →
      IsName (n ++ '(' :: (x ++ [')']))

structure Written (l : Link) : Prop where
  before : isBlank l.before
  name   : IsName l.name
  path   : ∀ c ∈ l.path, isPathChar c
  after  : closes l.after

variable {l : Link} {call n name rest t x y : Text}

theorem call?_append (hx : ∀ c ∈ x, isWordChar c) (rest : Text) :
    call? ('(' :: (x ++ ')' :: rest)) = some ('(' :: (x ++ [')']), rest) := by
  have hd : (x ++ ')' :: rest).dropWhile isWordChar = ')' :: rest := by
    rw [List.dropWhile_append_of_pos hx, List.dropWhile_cons_of_neg (by decide)]
  have ht : (x ++ ')' :: rest).takeWhile isWordChar = x := by
    rw [List.takeWhile_append_of_pos hx, List.takeWhile_cons_of_neg (by decide), List.append_nil]
  simp [call?, hd, ht]

theorem call?_eq_some (h : call? x = some (call, rest)) :
    x = call ++ rest ∧ ∃ y, call = '(' :: (y ++ [')']) ∧ ∀ c ∈ y, isWordChar c := by
  unfold call? at h
  split at h
  case h_2 => contradiction
  case h_1 x =>
    split at h
    case h_2 => contradiction
    case h_1 y hy =>
      cases h
      have hs := List.takeWhile_append_dropWhile (p := isWordChar) (l := x)
      rw [hy] at hs
      exact ⟨by simp [hs], _, rfl, fun c hc => List.mem_takeWhile_imp hc⟩

-- What the name is cut at is not part of it.
theorem name?_of_chars (hn : n ≠ []) (hc : ∀ c ∈ n, isNameChar c)
    (hx : ∀ c ∈ x.head?, isNameChar c = false) :
    name? (n ++ x) = match call? x with
      | some (call, rest) => some (n ++ call, rest)
      | none              => some (n, x) := by
  have ht := takeWhile_append_of_head hc hx
  have hd := dropWhile_append_of_head hc hx
  have hn : n.isEmpty = false := List.isEmpty_eq_false_iff.mpr hn
  cases hr : call? x
  all_goals simp only [name?, ht, hd, hn, hr, Bool.false_eq_true, if_false]

theorem IsName.name?_append (hn : IsName name) (rest : Text) :
    name? (name ++ ']' :: rest) = some (name, ']' :: rest) := by
  cases hn
  case plain hn hc =>
    rw [name?_of_chars hn hc (by simp; decide)]
    rfl
  case call n x hn hc hx =>
    have hr := call?_append hx (']' :: rest)
    rw [List.append_assoc, List.cons_append, List.append_assoc, List.singleton_append,
      name?_of_chars hn hc (by simp; decide), hr]

-- A character that is not one of a name can only be a parenthesis of the call.
theorem IsName.not_mem {c : Char} (hn : IsName name) (hc : isNameChar c = false) (hl : c ≠ '(')
    (hr : c ≠ ')') : c ∉ name := by
  have hw : isWordChar c = false := by
    simp only [isNameChar, Bool.or_eq_false_iff] at hc
    exact hc.left.right
  cases hn
  case plain hn => exact fun h => Bool.false_ne_true (hc.symm.trans (hn c h))
  case call n x _ hn hx =>
    have hn : c ∉ n := fun h => Bool.false_ne_true (hc.symm.trans (hn c h))
    have hx : c ∉ x := fun h => Bool.false_ne_true (hw.symm.trans (hx c h))
    simp [hn, hx, hl, hr]

theorem name?_eq_some (h : name? x = some (name, rest)) : x = name ++ rest ∧ IsName name := by
  have hs := List.takeWhile_append_dropWhile (p := isNameChar) (l := x)
  have hc : ∀ c ∈ x.takeWhile isNameChar, isNameChar c := fun c hc => List.mem_takeWhile_imp hc
  rw [name?] at h
  split at h
  case isTrue => contradiction
  case isFalse hn =>
    have hn : x.takeWhile isNameChar ≠ [] := by simpa using hn
    cases hr : call? (x.dropWhile isNameChar)
    all_goals rw [hr] at h
    case none =>
      cases h
      exact ⟨hs.symm, .plain hn hc⟩
    case some p =>
      cases h
      have ⟨hd, y, hy, hw⟩ := call?_eq_some hr
      rw [hd, ← List.append_assoc] at hs
      exact ⟨hs.symm, hy ▸ .call hn hc hw⟩

theorem Written.read?_append (h : Written l) (t : Text) : read? (l.source ++ t) = some l := by
  have hd : (l.path ++ ')' :: l.after :: t).dropWhile isPathChar = ')' :: l.after :: t := by
    rw [List.dropWhile_append_of_pos h.path, List.dropWhile_cons_of_neg (by decide)]
  have ht : (l.path ++ ')' :: l.after :: t).takeWhile isPathChar = l.path := by
    rw [List.takeWhile_append_of_pos h.path, List.takeWhile_cons_of_neg (by decide),
      List.append_nil]
  have hs : l.source ++ t =
      l.before :: '[' :: (l.name ++ ']' :: ('(' :: (l.path ++ ')' :: l.after :: t))) := by
    simp [source]
  rw [hs, read?, if_pos h.before, h.name.name?_append]
  simp only [hd, ht, h.after, if_true]

theorem read?_eq_some (h : read? x = some l) : Written l ∧ l.source <+: x := by
  unfold read? at h
  split at h
  case h_2 => contradiction
  case h_1 c x =>
    split at h
    case isFalse => contradiction
    case isTrue hc =>
      split at h
      case h_2 => contradiction
      case h_1 name y hn =>
        split at h
        case h_2 => contradiction
        case h_1 d t hy =>
          split at h
          case isFalse => contradiction
          case isTrue hd =>
            cases h
            have ⟨hx, hn⟩ := name?_eq_some hn
            have hs := List.takeWhile_append_dropWhile (p := isPathChar) (l := y)
            rw [hy] at hs
            refine ⟨⟨hc, hn, fun c hc => List.mem_takeWhile_imp hc, hd⟩, t, ?_⟩
            rw [hx]
            simp [source, hs]

theorem lineFeed_not_mem_path (h : Written l) : '\n' ∉ l.path := fun hc =>
  absurd (h.path _ hc) (by decide)

theorem Written.sameGaps (h : Written l) : SameGaps l.html l.source := by
  have hf := lineFeed_not_mem_path h
  have hstart : Visible ("<a href=\"" ++ l.path ++ "\">".toList) :=
    ⟨by simpa using hf, rfl⟩
  have hstop : Visible ("](" ++ l.path ++ [')']) := ⟨by simpa using hf, rfl⟩
  have hs := ((SameGaps.refl [l.before]).append (hstart.sameGaps (y := ['[']) (by decide))).append
    (SameGaps.refl l.name)
  have hr := (hs.append (Visible.sameGaps (x := "</a>") (by decide) hstop)).append
    (SameGaps.refl [l.after])
  simpa [html, source] using hr

end Link

variable {e mark start stop s x y : Text} {w : Text → Nat} {f : Text → Text} {ss : List Text}

theorem sameGaps_tag (hm : Visible mark) (hstart : Visible start) (hstop : Visible stop)
    (s : Text) : SameGaps (tag mark start stop s) s :=
  (sameGaps_replaceFirst (hstop.sameGaps hm) _).trans (sameGaps_replaceFirst (hstart.sameGaps hm) s)

theorem sameGaps_quoted (s : Text) : SameGaps (quoted s) s :=
  sameGaps_tag (by decide) (by decide) (by decide) s

theorem sameGaps_code (s : Text) : SameGaps (code s) s :=
  sameGaps_tag (by decide) (by decide) (by decide) s

theorem sameGaps_starred (s : Text) : SameGaps (starred s) s := by
  rw [starred]
  split
  case h_4 => exact .refl s
  all_goals exact sameGaps_tag (by decide) (by decide) (by decide) s

-- A link is found as it was written, so that nothing behind it is lost.
theorem exists_of_found_link (h : .found s ∈ pieces Link.width x) :
    ∃ l, Link.Written l ∧ s = l.source ∧ linked s = l.html := by
  have ⟨z, hz, hs⟩ := exists_of_found h
  cases hr : Link.read? z
  case none => simp [Link.width, hr] at hz
  case some l =>
    have ⟨hl, t, ht⟩ := Link.read?_eq_some hr
    have hw : Link.width z = l.source.length := by rw [Link.width, hr]; rfl
    have hs : s = l.source := by rw [hs, hw, ← ht, List.take_left]
    have hx := hl.read?_append []
    rw [List.append_nil] at hx
    exact ⟨l, hl, hs, by rw [linked, hs, hx]; rfl⟩

theorem sameGaps_linked (h : .found s ∈ pieces Link.width x) : SameGaps (linked s) s := by
  have ⟨l, hl, hs, hh⟩ := exists_of_found_link h
  rw [hh, hs]
  exact hl.sameGaps

theorem unpad_pad (x : Text) : unpad (pad x) = x := by
  have hd : dropStart [' '] (pad x) = x ++ [' '] := dropStart_append [' '] _
  have he := dropEnd_append (List.suffix_append x [' '])
  rw [unpad, hd]
  exact List.append_cancel_right he

theorem gaps_unpad (h : gaps e = gaps (pad x)) : gaps (unpad e) = gaps x :=
  gaps_dropEnd (gaps_dropStart h)

theorem sameGaps_foldl (h : ∀ s ∈ ss, SameGaps (f s) s) (y : Text) :
    SameGaps (ss.foldl (fun y s => replace s (f s) y) y) y := by
  induction ss generalizing y
  case nil => exact .refl y
  case cons s ss ih =>
    have ⟨hs, h⟩ := List.forall_mem_cons.mp h
    exact (ih h _).trans (sameGaps_replace hs y)

theorem gaps_edit (h : ∀ s, .found s ∈ pieces w (pad x) → SameGaps (f s) s) :
    gaps (edit w f x) = gaps x :=
  gaps_unpad (sameGaps_foldl (fun s hs => h s (found_of_mem_findAll hs)) _).gaps_eq

theorem gaps_toHtml (x : Text) : gaps (toHtml x) = gaps x := by
  rw [toHtml, gaps_edit fun s => sameGaps_linked, gaps_edit fun s _ => sameGaps_starred s,
    gaps_edit fun s _ => sameGaps_code s, gaps_edit fun s _ => sameGaps_quoted s]

end DocPress.Markdown.Emphasis

namespace DocPress.Docstring

open Text Markdown

variable {y z : Text}

-- A keyword is found with the characters around it.
theorem exists_of_keywordWidth (h : keywordWidth z ≠ 0) :
    ∃ c d x, ∃ k ∈ keywords, isWordChar d = false ∧ z = c :: (k ++ d :: x) ∧
      keywordWidth z = k.length + 2 := by
  cases z
  case nil => contradiction
  case cons c x =>
    rw [keywordWidth] at h ⊢
    split at h
    case isTrue => contradiction
    case isFalse hc =>
      rw [if_neg hc]
      cases hk : keywords.find? (startsWith x ·)
      all_goals simp only [hk] at h ⊢
      case none   => contradiction
      case some k =>
        have hp : startsWith x k := List.find?_some (p := (startsWith x ·)) hk
        obtain ⟨r, hr⟩ := List.isPrefixOf_iff_prefix.mp hp
        have hm := List.mem_of_find?_eq_some hk
        rw [← hr, List.drop_left] at h ⊢
        cases r
        case nil => contradiction
        case cons d r =>
          simp only at h ⊢
          split at h
          case isTrue => contradiction
          case isFalse hd => exact ⟨c, d, r, k, hm, by simpa using hd, rfl, if_neg hd⟩

theorem emphasizeKeyword_eq (c d : Char) (k : Text) :
    emphasizeKeyword (c :: (k ++ [d])) = [c] ++ ("<em>" ++ k ++ "</em>") ++ [d] := by
  simp [emphasizeKeyword, List.getLast?_cons]

theorem sameGaps_emphasizeKeyword (h : .found y ∈ pieces keywordWidth x) :
    SameGaps (emphasizeKeyword y) y := by
  have ⟨z, hz, hy⟩ := exists_of_found h
  have ⟨c, d, x, k, hk, _, he, hw⟩ := exists_of_keywordWidth hz
  have he : y = c :: (k ++ [d]) := by
    rw [hy, hw, he]
    simp [List.take_append, List.take_of_length_le]
  have hv : ∀ k ∈ keywords, Visible k ∧ Visible ("<em>" ++ k ++ "</em>".toList) := by decide
  have hs := (SameGaps.refl [c]).append (((hv k hk).right.sameGaps (hv k hk).left))
  rw [he, emphasizeKeyword_eq]
  exact hs.append (.refl [d])

theorem gaps_emphasize (x : Text) : gaps (emphasize x) = gaps x := by
  rw [emphasize, Emphasis.gaps_toHtml, emphasizeKeywords]
  exact Emphasis.gaps_unpad (sameGaps_substitute fun y => sameGaps_emphasizeKeyword).gaps_eq

end DocPress.Docstring
