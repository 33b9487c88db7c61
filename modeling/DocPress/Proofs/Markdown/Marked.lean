import DocPress.Proofs.Markdown.Emphasis

-- Something between marks, as it is found in a text, and the tags that are put in the place of the
-- marks: one for each run of marks, if both runs are equally long.

namespace DocPress

open Text

namespace Text

variable {m : Char} {j k : Nat} {mark new x y : Text}

theorem replaceFirst_match (new : Text) (hm : mark ≠ []) (x : Text) :
    replaceFirst mark new (mark ++ x) = new ++ x := by
  have ⟨c, r, hr⟩ := List.exists_cons_of_ne_nil hm
  have hp : mark.isPrefixOf (c :: (r ++ x)) := by simp [hr]
  have hd : (c :: (r ++ x)).drop mark.length = x := by simp [hr]
  conv_lhs => rw [hr, List.cons_append, replaceFirst, ← hr, if_pos hp, hd]

-- No occurrence begins where the first mark of it does not stand.
theorem replaceFirst_append_of_not_mem (hk : k ≠ 0) (hx : m ∉ x) (y : Text) :
    replaceFirst (List.replicate k m) new (x ++ y) =
      x ++ replaceFirst (List.replicate k m) new y := by
  induction x
  case nil => rfl
  case cons c x ih =>
    have ⟨hc, hx⟩ := List.ne_and_not_mem_of_not_mem_cons hx
    have hp : ¬List.replicate k m <+: c :: (x ++ y) := by
      have ⟨j, hj⟩ := Nat.exists_eq_succ_of_ne_zero hk
      rw [hj, List.replicate_succ]
      exact fun h => hc (List.cons_prefix_cons.mp h).left
    rw [List.cons_append, replaceFirst_cons hp, ih hx, List.cons_append]

-- None begins in a run of too few marks either.
theorem not_prefix_replicate_append (hj : j < k) (hy : ∀ c ∈ y.head?, c ≠ m) :
    ¬List.replicate k m <+: List.replicate j m ++ y := by
  induction j generalizing k
  case zero =>
    have ⟨i, hi⟩ := Nat.exists_eq_succ_of_ne_zero (Nat.ne_of_gt hj)
    intro h
    rw [hi, List.replicate_succ] at h
    cases y
    case nil       => simp at h
    case cons c y => exact hy c rfl (List.cons_prefix_cons.mp h).left.symm
  case succ j ih =>
    have ⟨i, hi⟩ := Nat.exists_eq_succ_of_ne_zero (Nat.ne_of_gt (Nat.zero_lt_of_lt hj))
    intro h
    rw [hi, List.replicate_succ, List.replicate_succ, List.cons_append] at h
    exact ih (by omega) (List.cons_prefix_cons.mp h).right

theorem replaceFirst_replicate_append (hj : j < k) (hy : ∀ c ∈ y.head?, c ≠ m) :
    replaceFirst (List.replicate k m) new (List.replicate j m ++ y) =
      List.replicate j m ++ replaceFirst (List.replicate k m) new y := by
  induction j
  case zero => rfl
  case succ j ih =>
    have hp := not_prefix_replicate_append hj hy
    rw [List.replicate_succ, List.cons_append] at hp ⊢
    rw [replaceFirst_cons hp, ih (Nat.lt_of_succ_lt hj), List.cons_append]

end Text

namespace Markdown.Emphasis

structure Marked where
  before : Char
  left   : Nat
  middle : Text
  right  : Nat
  after  : Char
  deriving DecidableEq, Repr

namespace Marked

def source (m : Char) (r : Marked) : Text :=
  [r.before] ++ (List.replicate r.left m ++ (r.middle ++ (List.replicate r.right m ++ [r.after])))

structure Written (m : Char) (r : Marked) : Prop where
  before : opens r.before
  left   : r.left ≠ 0
  filled : r.middle ≠ []
  middle : m ∉ r.middle
  right  : r.right ≠ 0
  after  : closes r.after

end Marked

-- A mark is none of the characters that stand around what is marked.
structure Inner (m : Char) : Prop where
  opens  : opens m = false
  closes : closes m = false

variable {m : Char} {r : Marked} {s t x : Text}

namespace Marked.Written

theorem before_ne (h : r.Written m) (hm : Inner m) : m ≠ r.before := by
  rintro he
  exact Bool.false_ne_true (hm.opens.symm.trans (he ▸ h.before))

theorem after_ne (h : r.Written m) (hm : Inner m) : m ≠ r.after := by
  rintro he
  exact Bool.false_ne_true (hm.closes.symm.trans (he ▸ h.after))

theorem head?_middle (h : r.Written m) (x : Text) : ∀ c ∈ (r.middle ++ x).head?, c ≠ m := by
  have ⟨d, y, hy⟩ := List.exists_cons_of_ne_nil h.filled
  rintro c hc rfl
  rw [hy] at hc
  exact h.middle (Option.some.inj hc ▸ hy ▸ List.mem_cons_self)

theorem markedWidth_append (h : r.Written m) (hm : Inner m) (t : Text) :
    markedWidth m (r.source m ++ t) = (r.source m).length := by
  have hp : ∀ k, ∀ c ∈ List.replicate k m, decide (c = m) := fun k c hc =>
    decide_eq_true (List.eq_of_mem_replicate hc)
  have hn : ∀ c ∈ r.middle, decide (c ≠ m) := fun c hc =>
    decide_eq_true fun he => h.middle (he ▸ hc)
  -- What the three cuts leave behind them.
  let z := List.replicate r.right m ++ r.after :: t
  have hy : ∀ c ∈ (r.middle ++ z).head?, decide (c = m) = false := fun c hc =>
    decide_eq_false (h.head?_middle z c hc)
  have hz : ∀ c ∈ z.head?, decide (c ≠ m) = false := by
    have ⟨k, hk⟩ := Nat.exists_eq_succ_of_ne_zero h.right
    simp [z, hk, List.replicate_succ]
  have ht : ∀ c ∈ (r.after :: t).head?, decide (c = m) = false := by
    simpa using (h.after_ne hm).symm
  have hl₁ := takeWhile_append_of_head (hp r.left) hy
  have hl₂ := dropWhile_append_of_head (hp r.left) hy
  have hm₁ := takeWhile_append_of_head hn hz
  have hm₂ := dropWhile_append_of_head hn hz
  have hr₁ := takeWhile_append_of_head (hp r.right) ht
  have hr₂ := dropWhile_append_of_head (hp r.right) ht
  have hs : r.source m ++ t = r.before :: (List.replicate r.left m ++ (r.middle ++ z)) := by
    simp [source, z]
  have hc : (opens r.before && !(List.replicate r.left m).isEmpty && !r.middle.isEmpty &&
      !(List.replicate r.right m).isEmpty && closes r.after) = true := by
    simp [h.before, h.left, h.filled, h.right, h.after]
  rw [hs, markedWidth]
  simp only [hl₁, hl₂, hm₁, hm₂, z, hr₁, hr₂, hc, if_true]
  simp [source]
  omega

-- Marks that are k characters wide are looked for in each of the two runs.

section Tags

variable {k : Nat} {new start stop : Text}

theorem not_mem_before (h : r.Written m) (hm : Inner m) : m ∉ [r.before] := by
  simpa using h.before_ne hm

theorem replaceFirst_after (h : r.Written m) (hm : Inner m) {j : Nat} (hj : j < k) :
    replaceFirst (List.replicate k m) new (List.replicate j m ++ [r.after]) =
      List.replicate j m ++ [r.after] := by
  have ha : m ∉ [r.after] := by simpa using h.after_ne hm
  have hk := Nat.ne_of_gt (Nat.zero_lt_of_lt hj)
  have hr : replaceFirst (List.replicate k m) new ([r.after] ++ []) = [r.after] :=
    replaceFirst_append_of_not_mem hk ha []
  rw [List.append_nil] at hr
  rw [replaceFirst_replicate_append hj (by simpa using (h.after_ne hm).symm), hr]

theorem replaceFirst_left (h : r.Written m) (hm : Inner m) (hk : k ≠ 0) (hl : k ≤ r.left) :
    replaceFirst (List.replicate k m) new (r.source m) =
      [r.before] ++ (new ++ (List.replicate (r.left - k) m ++
        (r.middle ++ (List.replicate r.right m ++ [r.after])))) := by
  have hs : List.replicate r.left m = List.replicate k m ++ List.replicate (r.left - k) m := by
    rw [List.replicate_append_replicate, Nat.add_sub_cancel' hl]
  rw [source, hs, replaceFirst_append_of_not_mem hk (h.not_mem_before hm), List.append_assoc,
    replaceFirst_match new (by simpa using hk)]

-- Too few marks on the left.
theorem replaceFirst_right (h : r.Written m) (hm : Inner m) (hl : r.left < k) (hr : k ≤ r.right) :
    replaceFirst (List.replicate k m) new (r.source m) =
      [r.before] ++ (List.replicate r.left m ++ (r.middle ++
        (new ++ (List.replicate (r.right - k) m ++ [r.after])))) := by
  have hk := Nat.ne_of_gt (Nat.zero_lt_of_lt hl)
  have hs : List.replicate r.right m = List.replicate k m ++ List.replicate (r.right - k) m := by
    rw [List.replicate_append_replicate, Nat.add_sub_cancel' hr]
  rw [source, hs, replaceFirst_append_of_not_mem hk (h.not_mem_before hm),
    replaceFirst_replicate_append hl (h.head?_middle _), replaceFirst_append_of_not_mem hk h.middle,
    List.append_assoc, replaceFirst_match new (by simpa using hk)]

theorem tag_even (h : r.Written m) (hm : Inner m) (hs : m ∉ start) (hl : r.left = k)
    (hr : r.right = k) :
    tag (List.replicate k m) start stop (r.source m) =
      [r.before] ++ (start ++ (r.middle ++ (stop ++ [r.after]))) := by
  have hk : k ≠ 0 := hl ▸ h.left
  rw [tag, h.replaceFirst_left hm hk hl.ge, hl, Nat.sub_self, List.replicate_zero, List.nil_append,
    replaceFirst_append_of_not_mem hk (h.not_mem_before hm), replaceFirst_append_of_not_mem hk hs,
    replaceFirst_append_of_not_mem hk h.middle, hr, replaceFirst_match stop (by simpa using hk)]

-- Where one of the runs is too short for a second mark, only the opening tag is put in.

theorem tag_left (h : r.Written m) (hm : Inner m) (hs : m ∉ start) (hl : k ≤ r.left)
    (hl' : r.left - k < k) (hr : r.right < k) :
    tag (List.replicate k m) start stop (r.source m) =
      replaceFirst (List.replicate k m) start (r.source m) := by
  have hk := Nat.ne_of_gt (Nat.zero_lt_of_lt hr)
  rw [tag, h.replaceFirst_left hm hk hl,
    replaceFirst_append_of_not_mem hk (h.not_mem_before hm), replaceFirst_append_of_not_mem hk hs,
    replaceFirst_replicate_append hl' (h.head?_middle _),
    replaceFirst_append_of_not_mem hk h.middle, h.replaceFirst_after hm hr]

theorem tag_right (h : r.Written m) (hm : Inner m) (hs : m ∉ start) (hl : r.left < k)
    (hr : k ≤ r.right) (hr' : r.right - k < k) :
    tag (List.replicate k m) start stop (r.source m) =
      replaceFirst (List.replicate k m) start (r.source m) := by
  have hk := Nat.ne_of_gt (Nat.zero_lt_of_lt hl)
  rw [tag, h.replaceFirst_right hm hl hr,
    replaceFirst_append_of_not_mem hk (h.not_mem_before hm),
    replaceFirst_replicate_append hl (h.head?_middle _),
    replaceFirst_append_of_not_mem hk h.middle, replaceFirst_append_of_not_mem hk hs,
    h.replaceFirst_after hm hr']

end Tags

theorem count_source (h : r.Written m) (hm : Inner m) :
    (r.source m).count m = r.left + r.right := by
  have hb := List.count_eq_zero_of_not_mem (h.not_mem_before hm)
  have hc := List.count_eq_zero_of_not_mem h.middle
  have ha : [r.after].count m = 0 :=
    List.count_eq_zero_of_not_mem (by simpa using h.after_ne hm)
  simp only [source, List.count_append, hb, hc, ha, List.count_replicate_self]
  omega

end Marked.Written

-- Whatever is found is something between marks.
theorem exists_marked (h : markedWidth m x ≠ 0) : ∃ r : Marked, r.Written m ∧ r.source m <+: x := by
  cases x
  case nil => contradiction
  case cons c x =>
    simp only [markedWidth] at h
    split at h
    case h_1 => contradiction
    case h_2 d t ht =>
      split at h
      case isFalse => contradiction
      case isTrue hc =>
        simp only [Bool.and_eq_true, Bool.not_eq_true', List.isEmpty_eq_false_iff] at hc
        obtain ⟨⟨⟨⟨hb, hl⟩, hf⟩, hr⟩, ha⟩ := hc
        have hrep : ∀ y : Text,
            y.takeWhile (· = m) = List.replicate (y.takeWhile (· = m)).length m := fun y =>
          List.eq_replicate_of_mem fun c hc => by simpa using List.mem_takeWhile_imp hc
        have hcut : ∀ (p : Char → Bool) (y : Text), y = y.takeWhile p ++ y.dropWhile p := fun p y =>
          List.takeWhile_append_dropWhile.symm
        refine ⟨⟨c, _, _, _, d⟩, ⟨hb, mt List.length_eq_zero_iff.mp hl, hf, fun hm => ?_,
          mt List.length_eq_zero_iff.mp hr, ha⟩, t, ?_⟩
        · simpa using List.mem_takeWhile_imp hm
        · rw [Marked.source, ← hrep, ← hrep]
          conv_rhs => rw [hcut (· = m) x, hcut (· ≠ m) (x.dropWhile (· = m)),
            hcut (· = m) ((x.dropWhile (· = m)).dropWhile (· ≠ m)), ht]
          simp

theorem exists_of_found_marked (hm : Inner m) (h : .found s ∈ pieces (markedWidth m) x) :
    ∃ r : Marked, r.Written m ∧ s = r.source m := by
  have ⟨z, hz, hs⟩ := exists_of_found h
  have ⟨r, hr, y, hy⟩ := exists_marked hz
  rw [← hy, hr.markedWidth_append hm, List.take_left] at hs
  exact ⟨r, hr, hs⟩

-- The marks there are, each with the tags that take their place.

inductive Style where
  | quoted
  | code
  | em
  | b
  | strong
  deriving DecidableEq, Repr

namespace Style

def mark : Style → Char
  | quoted => '"'
  | code   => '\x60'
  | _      => '*'

def width : Style → Nat
  | b      => 2
  | strong => 3
  | _      => 1

def start : Style → Text
  | quoted => "<i>&quot;"
  | code   => "<code>"
  | em     => "<em>"
  | b      => "<b>"
  | strong => "<b><em>"

def stop : Style → Text
  | quoted => "&quot;</i>"
  | code   => "</code>"
  | em     => "</em>"
  | b      => "</b>"
  | strong => "</em></b>"

def marks (k : Style) : Text :=
  List.replicate k.width k.mark

def tags (k : Style) (snippet : Text) : Text :=
  tag k.marks k.start k.stop snippet

theorem inner_mark (k : Style) : Inner k.mark := by
  cases k <;> exact ⟨by decide, by decide⟩

theorem width_ne_zero (k : Style) : k.width ≠ 0 := by
  cases k <;> decide

theorem mark_not_mem_start (k : Style) : k.mark ∉ k.start := by
  cases k <;> decide

end Style

-- The style that a number of stars stands for.
def starStyle? : Nat → Option Style
  | 2 => some .em
  | 4 => some .b
  | 6 => some .strong
  | _ => none

theorem starred_eq (s : Text) :
    starred s = ((starStyle? (s.count '*')).map (·.tags s)).getD s := by
  rw [starred]
  split
  case h_4 => simp [starStyle?, *]
  all_goals
    rename_i h
    rw [h]
    rfl

theorem starStyle?_eq_some {k : Style} {n : Nat} (h : starStyle? n = some k) :
    k.mark = '*' ∧ n = 2 * k.width := by
  unfold starStyle? at h
  split at h
  case h_4 => contradiction
  all_goals
    cases h
    exact ⟨rfl, rfl⟩

end Markdown.Emphasis
end DocPress
