import Mathlib.Data.List.Chain
import DocPress.Proofs.Markdown.Emphasis

-- Which keywords are emphasised. A keyword stands by itself if it is a whole run of word
-- characters. It is found with the characters around it, so that of two keywords with a single
-- character between them the second one is passed over, if the first one is not.

namespace DocPress

open Text Markdown

namespace Text

-- The runs of word characters; between two characters that are none stands an empty one.
def wordRuns (x : Text) : List Text :=
  x.splitOnP fun c => !isWordChar c

def separators (x : Text) : Text :=
  x.filter fun c => !isWordChar c

-- Runs with the separators between them.
def weave : Text → List Text → Text
  | c :: cs, r :: rs => r ++ c :: weave cs rs
  | _,       rs      => rs.flatten

variable {c d : Char} {cs r x y : Text} {rs : List Text}

theorem isWordChar_of_mem_wordRuns (h : r ∈ wordRuns x) : ∀ c ∈ r, isWordChar c := fun c hc => by
  simpa using not_of_mem_splitOnP h c hc

theorem not_isWordChar_of_mem_separators (h : c ∈ separators x) : isWordChar c = false := by
  simpa using (List.mem_filter.mp h).right

theorem length_wordRuns (x : Text) : (wordRuns x).length = (separators x).length + 1 := by
  induction x
  case nil => rfl
  case cons c x ih =>
    rw [wordRuns, separators] at ih ⊢
    rw [List.splitOnP_cons_eq_if_modifyHead]
    cases h : isWordChar c <;> simp [h, ih]

theorem weave_nil (r : Text) : weave [] [r] = r := by
  simp [weave]

theorem weave_separators_wordRuns (x : Text) : weave (separators x) (wordRuns x) = x := by
  have hw : ∀ cs rs, rs.length = cs.length + 1 →
      weave cs rs = (rs.zipWith (· ++ ·) (cs.map ([·]) ++ [[]])).flatten := by
    intro cs
    induction cs
    case nil =>
      intro rs hl
      obtain ⟨r, rfl⟩ := List.length_eq_one_iff.mp hl
      simp [weave]
    case cons c cs ih =>
      intro rs hl
      cases rs
      case nil       => contradiction
      case cons r rs => simp [weave, ih rs (Nat.succ.inj hl)]
  rw [hw _ _ (length_wordRuns x)]
  exact List.splitOnP_spec x

end Text

namespace Docstring

def isKeyword (r : Text) : Bool :=
  keywords.contains r

def emphasized (r : Text) : Text :=
  if isKeyword r then "<em>" ++ (r ++ "</em>") else r

-- What becomes of a list of runs. A keyword is left as it is behind one that was emphasised.
def emphasizeRuns : Bool → List Text → List Text
  | _,     []      => []
  | true,  r :: rs => r :: emphasizeRuns false rs
  | false, r :: rs => emphasized r :: emphasizeRuns (isKeyword r) rs

variable {b : Bool} {c d e : Char} {cs k r x y : Text} {rs : List Text}

@[simp] theorem isKeyword_iff : isKeyword r ↔ r ∈ keywords :=
  List.contains_iff_mem

@[simp] theorem isKeyword_eq_false_iff : isKeyword r = false ↔ r ∉ keywords := by
  rw [← isKeyword_iff, Bool.not_eq_true]

theorem emphasized_of_mem (hr : r ∈ keywords) : emphasized r = "<em>" ++ (r ++ "</em>") :=
  if_pos (isKeyword_iff.mpr hr)

theorem emphasized_of_not_mem (hr : r ∉ keywords) : emphasized r = r :=
  if_neg (mt isKeyword_iff.mp hr)

theorem isWordChar_of_mem_keyword (hk : k ∈ keywords) : ∀ c ∈ k, isWordChar c := by
  have h : ∀ k ∈ keywords, ∀ c ∈ k, isWordChar c := by decide
  exact h k hk

-- Of two runs of word characters at the front of a text none is longer than the other.
theorem eq_of_append (hk : ∀ c ∈ k, isWordChar c) (hr : ∀ c ∈ r, isWordChar c)
    (hd : isWordChar d = false) (he : isWordChar e = false) (h : k ++ d :: x = r ++ e :: y) :
    k = r := by
  have hx : (k ++ d :: x).takeWhile isWordChar = k :=
    takeWhile_append_of_head hk (by simpa using hd)
  have hy : (r ++ e :: y).takeWhile isWordChar = r :=
    takeWhile_append_of_head hr (by simpa using he)
  rw [← hx, h, hy]

theorem keywordWidth_of_isWordChar (hc : isWordChar c) (x : Text) : keywordWidth (c :: x) = 0 :=
  if_pos hc

theorem keywordWidth_eq_zero (hr : ∀ c ∈ r, isWordChar c) (hn : r ∉ keywords)
    (hd : isWordChar d = false) (c : Char) (x : Text) : keywordWidth (c :: (r ++ d :: x)) = 0 := by
  by_contra h
  have ⟨_, e, y, k, hk, he, hx, _⟩ := exists_of_keywordWidth h
  have hx := (List.cons_eq_cons.mp hx).right
  exact hn (eq_of_append hr (isWordChar_of_mem_keyword hk) hd he hx ▸ hk)

theorem keywordWidth_of_mem (hr : r ∈ keywords) (hc : isWordChar c = false)
    (hd : isWordChar d = false) (x : Text) :
    keywordWidth (c :: (r ++ d :: x)) = r.length + 2 := by
  have hf : keywords.find? (startsWith (r ++ d :: x) ·) = some r := by
    simp only [keywords, List.mem_cons, List.not_mem_nil, or_false] at hr
    rcases hr with rfl | rfl | rfl <;> rfl
  simp [keywordWidth, hc, hf, hd]

-- Inside a run nothing is found.
theorem substitute_append (hr : ∀ c ∈ r, isWordChar c) (x : Text) :
    substitute keywordWidth emphasizeKeyword (r ++ x) =
      r ++ substitute keywordWidth emphasizeKeyword x := by
  induction r
  case nil => rfl
  case cons c r ih =>
    have ⟨hc, hr⟩ := List.forall_mem_cons.mp hr
    rw [List.cons_append, substitute, pieces_of_zero (keywordWidth_of_isWordChar hc _)]
    exact congrArg (c :: ·) (ih hr)

theorem substitute_of_not_mem (hr : ∀ c ∈ r, isWordChar c) (hn : r ∉ keywords)
    (hd : isWordChar d = false) (c : Char) (x : Text) :
    substitute keywordWidth emphasizeKeyword (c :: (r ++ d :: x)) =
      c :: (r ++ substitute keywordWidth emphasizeKeyword (d :: x)) := by
  rw [substitute, pieces_of_zero (keywordWidth_eq_zero hr hn hd c x)]
  exact congrArg (c :: ·) (substitute_append hr (d :: x))

theorem substitute_of_mem (hr : r ∈ keywords) (hc : isWordChar c = false)
    (hd : isWordChar d = false) (x : Text) :
    substitute keywordWidth emphasizeKeyword (c :: (r ++ d :: x)) =
      c :: (emphasized r ++ d :: substitute keywordWidth emphasizeKeyword x) := by
  have hw : keywordWidth ((c :: (r ++ [d])) ++ x) = (c :: (r ++ [d])).length := by
    simpa using keywordWidth_of_mem hr hc hd x
  have hp := pieces_of_match (List.cons_ne_nil c (r ++ [d])) hw
  have hx : c :: (r ++ d :: x) = (c :: (r ++ [d])) ++ x := by simp
  rw [hx, substitute, hp, List.flatMap_cons]
  simp [emphasizeKeyword_eq, emphasized_of_mem hr, substitute]

theorem substitute_nil : substitute keywordWidth emphasizeKeyword [] = [] := by
  simp [substitute, pieces]

theorem substitute_space : substitute keywordWidth emphasizeKeyword [' '] = [' '] := by
  decide +kernel

-- The character in front of the runs is still there, or it went with the keyword before it.
theorem substitute_weave (hl : rs.length = cs.length + 1)
    (hr : ∀ r ∈ rs, ∀ c ∈ r, isWordChar c) (hs : ∀ c ∈ cs, isWordChar c = false) :
    (∀ c, isWordChar c = false →
      substitute keywordWidth emphasizeKeyword (c :: (weave cs rs ++ [' '])) =
        c :: (weave cs (emphasizeRuns false rs) ++ [' '])) ∧
    substitute keywordWidth emphasizeKeyword (weave cs rs ++ [' ']) =
      weave cs (emphasizeRuns true rs) ++ [' '] := by
  have h₀ : isWordChar ' ' = false := by decide
  induction cs generalizing rs
  case nil =>
    obtain ⟨r, rfl⟩ := List.length_eq_one_iff.mp hl
    have hr := List.forall_mem_singleton.mp hr
    simp only [emphasizeRuns, weave_nil]
    refine ⟨fun c hc => ?_, ?_⟩
    · by_cases hk : r ∈ keywords
      case pos => rw [substitute_of_mem hk hc h₀, substitute_nil]
      case neg => rw [substitute_of_not_mem hr hk h₀, substitute_space, emphasized_of_not_mem hk]
    · rw [substitute_append hr, substitute_space]
  case cons d cs ih =>
    cases rs
    case nil => contradiction
    case cons r rs =>
      have ⟨hd, hs⟩ := List.forall_mem_cons.mp hs
      have ⟨hr, hrs⟩ := List.forall_mem_cons.mp hr
      have ⟨h₁, h₂⟩ := ih (Nat.succ.inj hl) hrs hs
      simp only [emphasizeRuns, weave, List.append_assoc, List.cons_append]
      refine ⟨fun c hc => ?_, ?_⟩
      · by_cases hk : r ∈ keywords
        case pos => rw [substitute_of_mem hk hc hd, h₂, isKeyword_iff.mpr hk]
        case neg =>
          rw [substitute_of_not_mem hr hk hd, h₁ d hd, isKeyword_eq_false_iff.mpr hk,
            emphasized_of_not_mem hk]
      · rw [substitute_append hr, h₁ d hd]

theorem emphasizeKeywords_eq (x : Text) :
    emphasizeKeywords x = weave (separators x) (emphasizeRuns false (wordRuns x)) := by
  have h := (substitute_weave (length_wordRuns x) (fun r => isWordChar_of_mem_wordRuns)
    fun c => not_isWordChar_of_mem_separators).left ' ' (by decide)
  rw [weave_separators_wordRuns] at h
  have hp : Emphasis.pad x = ' ' :: (x ++ [' ']) := rfl
  rw [emphasizeKeywords, hp, h]
  exact Emphasis.unpad_pad _

-- No two keywords stand by themselves with a single character between them.
def Scattered (rs : List Text) : Prop :=
  rs.IsChain fun r s => isKeyword r → isKeyword s = false

instance (rs : List Text) : Decidable (Scattered rs) :=
  inferInstanceAs (Decidable (rs.IsChain _))

theorem length_lt_emphasized (hr : r ∈ keywords) : r.length < (emphasized r).length := by
  have h : 0 < "<em>".toList.length := by decide
  rw [emphasized_of_mem hr, List.length_append, List.length_append]
  omega

theorem eq_emphasized_iff : r = emphasized r ↔ r ∉ keywords :=
  ⟨fun h hr => absurd (congrArg List.length h) (Nat.ne_of_lt (length_lt_emphasized hr)),
    fun h => (emphasized_of_not_mem h).symm⟩

theorem emphasizeRuns_eq_iff :
    emphasizeRuns b rs = rs.map emphasized ↔ (b → ∀ r ∈ rs.head?, r ∉ keywords) ∧ Scattered rs := by
  induction rs generalizing b
  case nil => simp [emphasizeRuns, Scattered]
  case cons r rs ih =>
    have ha : Scattered (r :: rs) ↔
        (∀ s ∈ rs.head?, r ∈ keywords → s ∉ keywords) ∧ Scattered rs := by
      simp [Scattered, List.isChain_cons]
    cases b
    case false =>
      have hr : (∀ s ∈ rs.head?, r ∈ keywords → s ∉ keywords) ↔
          (r ∈ keywords → ∀ s ∈ rs.head?, s ∉ keywords) :=
        ⟨fun h hr s hs => h s hs hr, fun h s hs hr => h hr s hs⟩
      simp only [emphasizeRuns, List.map_cons, List.cons_eq_cons, true_and, ih, ha, hr,
        isKeyword_iff, Bool.false_eq_true, false_implies]
    case true =>
      have hr : r ∉ keywords → ∀ s ∈ rs.head?, r ∈ keywords → s ∉ keywords :=
        fun hr s _ hm => absurd hm hr
      simp only [emphasizeRuns, List.map_cons, List.cons_eq_cons, ih, ha, eq_emphasized_iff,
        Bool.false_eq_true, false_implies, true_and, List.head?_cons, Option.mem_some_iff,
        forall_eq', true_implies]
      exact ⟨fun ⟨h, h'⟩ => ⟨h, hr h, h'⟩, fun ⟨h, _, h'⟩ => ⟨h, h'⟩⟩

-- No run becomes longer than it is with the keywords emphasised, so that the length tells whether
-- one was left as it is.

theorem length_le_emphasized (r : Text) :
    r.length ≤ (emphasized r).length ∧ (r.length = (emphasized r).length → r = emphasized r) := by
  by_cases hk : r ∈ keywords
  case pos =>
    have hl := length_lt_emphasized hk
    exact ⟨Nat.le_of_lt hl, fun h => absurd h (Nat.ne_of_lt hl)⟩
  case neg =>
    have he := eq_emphasized_iff.mpr hk
    exact ⟨Nat.le_of_eq (congrArg List.length he), fun _ => he⟩

theorem length_weave (hl : rs.length = cs.length + 1) (b : Bool) :
    (weave cs (emphasizeRuns b rs)).length ≤ (weave cs (rs.map emphasized)).length ∧
      ((weave cs (emphasizeRuns b rs)).length = (weave cs (rs.map emphasized)).length →
        emphasizeRuns b rs = rs.map emphasized) := by
  induction cs generalizing rs b
  case nil =>
    obtain ⟨r, rfl⟩ := List.length_eq_one_iff.mp hl
    have ⟨hr, he⟩ := length_le_emphasized r
    cases b
    all_goals simp only [emphasizeRuns, List.map_cons, List.map_nil, weave_nil]
    case false => exact ⟨Nat.le_refl _, fun _ => trivial⟩
    case true  => exact ⟨hr, fun h => congrArg ([·]) (he h)⟩
  case cons c cs ih =>
    cases rs
    case nil => contradiction
    case cons r rs =>
      have ⟨hr, he⟩ := length_le_emphasized r
      cases b
      all_goals
        simp only [emphasizeRuns, List.map_cons, weave, List.length_append, List.length_cons]
      case false =>
        have ⟨hw, hi⟩ := ih (Nat.succ.inj hl) (isKeyword r)
        exact ⟨by omega, fun h => by rw [hi (by omega)]⟩
      case true =>
        have ⟨hw, hi⟩ := ih (Nat.succ.inj hl) false
        exact ⟨by omega, fun h => by rw [hi (by omega), ← he (by omega)]⟩

theorem emphasizeKeywords_wraps (x : Text) :
    x = weave (separators x) (wordRuns x) ∧
      emphasizeKeywords x = weave (separators x) (emphasizeRuns false (wordRuns x)) ∧
      (emphasizeKeywords x = weave (separators x) ((wordRuns x).map emphasized) ↔
        Scattered (wordRuns x)) := by
  refine ⟨(weave_separators_wordRuns x).symm, emphasizeKeywords_eq x, ?_⟩
  have hi : emphasizeRuns false (wordRuns x) = (wordRuns x).map emphasized ↔
      (false → ∀ r ∈ (wordRuns x).head?, r ∉ keywords) ∧ Scattered (wordRuns x) :=
    emphasizeRuns_eq_iff
  rw [emphasizeKeywords_eq]
  constructor
  case mp =>
    intro h
    have he := (length_weave (length_wordRuns x) false).right (congrArg List.length h)
    exact (hi.mp he).right
  case mpr =>
    intro h
    rw [hi.mpr ⟨fun h => absurd h Bool.false_ne_true, h⟩]

-- The space goes with the first keyword.
theorem emphasizeKeywords_ne :
    let x : Text := "True False"
    wordRuns x = ["True".toList, "False".toList] ∧ wordRuns x ⊆ keywords ∧
      emphasizeKeywords x = "<em>True</em> False".toList ∧
      emphasizeKeywords x ≠ weave (separators x) ((wordRuns x).map emphasized) := by
  decide +kernel

end Docstring
end DocPress
