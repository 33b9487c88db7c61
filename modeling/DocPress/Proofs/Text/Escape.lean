import Mathlib.Data.List.Basic
import DocPress.Text.Escape

-- Text that is written inside HTML is read back from its references, and cannot be taken for a tag
-- or for the end of a value.

namespace DocPress.Text

-- Puts the five characters in the place of the references to them.
def unescape : Text → Text
  | '&' :: 'a' :: 'm' :: 'p' :: ';' :: x        => '&' :: unescape x
  | '&' :: 'l' :: 't' :: ';' :: x               => '<' :: unescape x
  | '&' :: 'g' :: 't' :: ';' :: x               => '>' :: unescape x
  | '&' :: 'q' :: 'u' :: 'o' :: 't' :: ';' :: x => '"' :: unescape x
  | '&' :: '#' :: 'x' :: '2' :: '7' :: ';' :: x => '\x27' :: unescape x
  | c :: x                                      => c :: unescape x
  | []                                          => []

-- The characters that end a tag or a value, or begin a tag.
def isMarkup (c : Char) : Bool :=
  c = '<' || c = '>' || c = '"' || c = '\x27'

-- The characters that have references.
def references : List (Char × Text) :=
  [('&', "&amp;"), ('<', "&lt;"), ('>', "&gt;"), ('"', "&quot;"), ('\x27', "&#x27;")]

variable {c : Char}

theorem escapeChar_cases (c : Char) :
    (c, escapeChar c) ∈ references ∨ c ≠ '&' ∧ isMarkup c = false ∧ escapeChar c = [c] := by
  unfold escapeChar
  split
  case h_6 => exact .inr ⟨by assumption, by grind [isMarkup], rfl⟩
  all_goals exact .inl (by simp [references])

theorem unescape_cons (hc : c ≠ '&') (x : Text) : unescape (c :: x) = c :: unescape x := by
  rw [unescape]
  all_goals intros; simp_all

theorem unescape_escapeChar (c : Char) (x : Text) :
    unescape (escapeChar c ++ x) = c :: unescape x := by
  rcases escapeChar_cases c with h | ⟨hc, _, he⟩
  case inr => rw [he, List.singleton_append, unescape_cons hc]
  case inl =>
    simp only [references, List.mem_cons, Prod.mk.injEq, List.not_mem_nil, or_false] at h
    rcases h with ⟨rfl, he⟩ | ⟨rfl, he⟩ | ⟨rfl, he⟩ | ⟨rfl, he⟩ | ⟨rfl, he⟩
    all_goals rw [he]; rfl

theorem unescape_escape (x : Text) : unescape (escape x) = x := by
  induction x
  case nil => rfl
  case cons c x ih =>
    rw [escape, List.flatMap_cons, unescape_escapeChar]
    exact congrArg _ ih

theorem not_isMarkup_of_mem_escape {x : Text} (hc : c ∈ escape x) : isMarkup c = false := by
  have ⟨d, _, hd⟩ := List.mem_flatMap.mp hc
  rcases escapeChar_cases d with h | ⟨_, hm, he⟩
  case inr =>
    rw [he] at hd
    exact List.mem_singleton.mp hd ▸ hm
  case inl =>
    have hr : references.all fun p => p.2.all (!isMarkup ·) := by decide
    simpa using List.all_eq_true.mp (List.all_eq_true.mp hr _ h) c hd

end DocPress.Text
