import Mathlib.Data.List.Chain
import DocPress.Proofs.Markdown.Marked

-- One edit of a text that is cut into segments, each of which either stays as it is or is found as
-- a whole. What is found begins with an opening character and a mark; as no mark follows an opening
-- character anywhere but at the front of a segment, every occurrence of a segment that was found is
-- again such a segment.

namespace DocPress

open Text

namespace Markdown.Emphasis

def Finds (w : Text → Nat) (m : Char) : Prop :=
  ∀ x, w x ≠ 0 → ∃ c r, x = c :: m :: r ∧ opens c

def Quiet (m : Char) (x : Text) : Prop :=
  x.IsChain fun c d => d = m → opens c = false

-- A segment that is found, whatever stands behind it, and what takes its place.
structure Found (w : Text → Nat) (m : Char) (f : Text → Text) (x y : Text) : Prop where
  front : ∃ c u v, x = c :: u ∧ y = c :: v ∧ c ≠ m ∧ Quiet m u
  whole : ∀ r, w (x ++ r) = x.length
  quiet : Quiet m y
  edit  : f x = y

inductive Turns (w : Text → Nat) (m : Char) (f : Text → Text) : Text → Text → Prop
  | kept  {x} (hh : ∀ c ∈ x.head?, c ≠ m) (hx : Quiet m x) : Turns w m f x x
  | found {x y} (h : Found w m f x y) : Turns w m f x y

-- The text once some of the segments are replaced.
def current (done : List Text) (segs : List (Text × Text)) : Text :=
  segs.flatMap fun p => if done.contains p.1 then p.2 else p.1

variable {c m : Char} {f : Text → Text} {done ss : List Text} {r s x y : Text}
  {segs : List (Text × Text)} {w : Text → Nat}

theorem quiet_of_not_mem (h : m ∉ x) : Quiet m x :=
  List.Pairwise.isChain (List.pairwise_of_forall_mem_list fun _ _ _ hd he => absurd (he ▸ hd) h)

theorem quiet_of_not_opens (h : ∀ c ∈ x, opens c = false) : Quiet m x :=
  List.Pairwise.isChain (List.pairwise_of_forall_mem_list fun c hc _ _ _ => h c hc)

theorem Quiet.append (hx : Quiet m x) (hy : Quiet m y)
    (h : (∀ c ∈ x.getLast?, opens c = false) ∨ ∀ c ∈ y.head?, c ≠ m) : Quiet m (x ++ y) := by
  refine List.IsChain.append hx hy fun c hc d hd he => ?_
  cases h
  case inl h => exact h c hc
  case inr h => exact absurd he (h d hd)

theorem Finds.eq_zero (hw : Finds w m) (hx : Quiet m (c :: x)) (hr : ∀ d ∈ r.head?, d ≠ m) :
    w (c :: (x ++ r)) = 0 := by
  by_contra h
  have ⟨e, z, he, ho⟩ := hw _ h
  have ⟨hc, hz⟩ := List.cons_eq_cons.mp he
  cases x
  case nil         => exact hr m (by rw [← List.nil_append r, hz]; rfl) rfl
  case cons d x =>
    have hd := (List.cons_eq_cons.mp hz).left
    have hn := List.rel_of_isChain_cons_cons hx hd
    exact Bool.false_ne_true (hn.symm.trans (hc ▸ ho))

theorem Finds.pieces_append (hw : Finds w m) (hx : Quiet m x) (hr : ∀ d ∈ r.head?, d ≠ m) :
    pieces w (x ++ r) = x.map Piece.other ++ pieces w r := by
  induction x
  case nil => rfl
  case cons c x ih =>
    rw [List.cons_append, pieces_of_zero (hw.eq_zero hx hr), ih (List.isChain_of_isChain_cons hx)]
    rfl

theorem Finds.findAll_append (hw : Finds w m) (hx : Quiet m x) (hr : ∀ d ∈ r.head?, d ≠ m) :
    findAll w (x ++ r) = findAll w r := by
  have hn : (x.map Piece.other).filterMap Piece.match? = [] := by
    simp [List.filterMap_map, Function.comp_def, Piece.match?]
  rw [findAll, hw.pieces_append hx hr, List.filterMap_append, hn]
  rfl

theorem Finds.replace_append (hw : Finds (literal s) m) (hx : Quiet m x)
    (hr : ∀ d ∈ r.head?, d ≠ m) (new : Text) : replace s new (x ++ r) = x ++ replace s new r := by
  rw [replace, substitute, hw.pieces_append hx hr, List.flatMap_append]
  refine congrArg (· ++ _) ?_
  simp [List.flatMap_map]

namespace Found

theorem ne_nil (h : Found w m f x y) : x ≠ [] := by
  have ⟨c, u, v, hx, _⟩ := h.front
  rw [hx]
  exact List.cons_ne_nil c u

theorem findAll_append (h : Found w m f x y) (r : Text) :
    findAll w (x ++ r) = x :: findAll w r := by
  rw [findAll, pieces_of_match h.ne_nil (h.whole r)]
  rfl

theorem width_of_prefix (h : Found w m f s y) (hx : s <+: x) : w x = s.length := by
  have ⟨r, hr⟩ := hx
  rw [← hr, h.whole]

-- Wherever it occurs, it is found.
theorem finds_literal (h : Found w m f s y) (hw : Finds w m) : Finds (literal s) m := by
  intro x hx
  have hp : s <+: x := by
    by_contra hp
    exact hx (literal_eq_zero hp)
  exact hw x (h.width_of_prefix hp ▸ mt List.length_eq_zero_iff.mp h.ne_nil)

-- Of two that are found at the same place one is not longer than the other.
theorem eq_of_prefix {z : Text} (h : Found w m f s y) (h' : Found w m f x z) (hs : s <+: x ++ r) :
    s = x := by
  have hl : s.length = x.length := (h.width_of_prefix hs).symm.trans (h'.whole r)
  have ⟨t, ht⟩ := hs
  exact (List.append_inj ht hl).left

end Found

theorem Turns.head (h : Turns w m f x y) :
    (∀ c ∈ x.head?, c ≠ m) ∧ ∀ c ∈ y.head?, c ≠ m := by
  cases h
  case kept hh _ => exact ⟨hh, hh⟩
  case found h =>
    obtain ⟨c, u, v, rfl, rfl, hc, _⟩ := h.front
    exact ⟨by simpa using hc, by simpa using hc⟩

theorem head_append (hx : ∀ c ∈ x.head?, c ≠ m) (hr : ∀ c ∈ r.head?, c ≠ m) :
    ∀ c ∈ (x ++ r).head?, c ≠ m := by
  cases x
  case nil  => exact hr
  case cons => exact hx

theorem head_current (hs : ∀ p ∈ segs, Turns w m f p.1 p.2) (done : List Text) :
    ∀ c ∈ (current done segs).head?, c ≠ m := by
  induction segs
  case nil => simp [current]
  case cons p segs ih =>
    have ⟨hp, hs⟩ := List.forall_mem_cons.mp hs
    rw [current, List.flatMap_cons]
    refine head_append ?_ (ih hs)
    split
    · exact hp.head.right
    · exact hp.head.left

-- One replacement sets all segments that read alike.
theorem replace_current (hw : Finds w m) (hs : ∀ p ∈ segs, Turns w m f p.1 p.2)
    (h : Found w m f s y) (done : List Text) :
    replace s (f s) (current done segs) = current (s :: done) segs := by
  have hl := h.finds_literal hw
  induction segs
  case nil => simp [current]
  case cons p segs ih =>
    have ⟨hp, hs⟩ := List.forall_mem_cons.mp hs
    have hr := head_current hs done
    have hc : ∀ done, current done (p :: segs) =
        (if p.1 ∈ done then p.2 else p.1) ++ current done segs := by
      simp [current]
    rw [hc, hc, ← ih hs]
    obtain ⟨x, z⟩ := p
    cases hp
    case kept hh hx =>
      rw [ite_self, ite_self, hl.replace_append hx hr]
    case found hp =>
      by_cases hd : x ∈ done
      case pos =>
        rw [if_pos hd, if_pos (List.mem_cons_of_mem s hd), hl.replace_append hp.quiet hr]
      case neg =>
        by_cases he : x = s
        case pos =>
          rw [if_neg hd, if_pos (he ▸ List.mem_cons_self), he, replace_match _ h.ne_nil, ← he,
            hp.edit]
        case neg =>
          have ⟨c, u, v, hx, _, _, hu⟩ := hp.front
          have hx : x = c :: u := hx
          have hz : literal s (c :: (u ++ current done segs)) = 0 := by
            refine literal_eq_zero fun hq => ?_
            rw [← List.cons_append, ← hx] at hq
            exact he (h.eq_of_prefix hp hq).symm
          rw [if_neg hd, if_neg (by simp [he, hd]), hx, List.cons_append, replace_of_zero _ hz,
            hl.replace_append hu hr, List.cons_append]

theorem foldl_current (hw : Finds w m) (hs : ∀ p ∈ segs, Turns w m f p.1 p.2)
    (h : ∀ s ∈ ss, ∃ y, Found w m f s y) (done : List Text) :
    ss.foldl (fun y s => replace s (f s) y) (current done segs) =
      current (ss.reverse ++ done) segs := by
  induction ss generalizing done
  case nil => rfl
  case cons s ss ih =>
    have ⟨⟨y, hy⟩, h⟩ := List.forall_mem_cons.mp h
    rw [List.foldl_cons, replace_current hw hs hy, ih h, List.reverse_cons, List.append_assoc,
      List.singleton_append]

-- What is found are the segments that are to be found.
theorem findAll_segments (hw : Finds w m) (hs : ∀ p ∈ segs, Turns w m f p.1 p.2) :
    (∀ s ∈ findAll w (current [] segs), ∃ y, Found w m f s y) ∧
      ∀ p ∈ segs, p.1 ∉ findAll w (current [] segs) → p.1 = p.2 := by
  induction segs
  case nil => exact ⟨by simp [current, findAll, pieces], by simp⟩
  case cons p segs ih =>
    obtain ⟨hp, hs⟩ := List.forall_mem_cons.mp hs
    obtain ⟨hf, hk⟩ := ih hs
    have hr := head_current hs []
    have hc : current [] (p :: segs) = p.1 ++ current [] segs := rfl
    obtain ⟨x, z⟩ := p
    rw [hc]
    cases hp
    case kept hx =>
      rw [hw.findAll_append hx hr]
      exact ⟨hf, List.forall_mem_cons.mpr ⟨fun _ => rfl, hk⟩⟩
    case found hp =>
      rw [hp.findAll_append]
      refine ⟨List.forall_mem_cons.mpr ⟨⟨z, hp⟩, hf⟩, List.forall_mem_cons.mpr ⟨?_, ?_⟩⟩
      · exact fun h => absurd List.mem_cons_self h
      · exact fun q hq h => hk q hq fun hm => h (List.mem_cons_of_mem x hm)

theorem edit_of_turns (hw : Finds w m) (hs : ∀ p ∈ segs, Turns w m f p.1 p.2)
    (hx : pad x = segs.flatMap Prod.fst) (hy : pad y = segs.flatMap Prod.snd) : edit w f x = y := by
  have hc : pad x = current [] segs := hx
  have ⟨hf, hk⟩ := findAll_segments hw hs
  have ha : current ((findAll w (current [] segs)).reverse ++ []) segs = pad y := by
    rw [hy, current]
    refine List.flatMap_congr fun p hp => ?_
    split
    case isTrue    => rfl
    case isFalse h => exact hk p hp (by simpa using h)
  rw [edit, hc, foldl_current hw hs hf, ha, unpad_pad]

end Markdown.Emphasis
end DocPress
