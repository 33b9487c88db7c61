import DocPress.Proofs.Markdown.Runs
import DocPress.Proofs.Text.Ends

-- Blocks that are read again by themselves. Fences are told on the lines of the document, but the
-- text of a block is trimmed, so that its first line may become a fence that it was not before.

namespace DocPress.Markdown

open Text

-- Lines that make one paragraph, where a fence is open before them or not: there is no gap between
-- them, and no fence is open behind them.
inductive Unbroken : Bool → List Text → Prop
  | nil   : Unbroken false []
  | fence : Fence.isFence l → Unbroken (!b) ls → Unbroken b (l :: ls)
  | line  : Fence.isFence l = false → (b || !blank l) → Unbroken b ls → Unbroken b (l :: ls)

-- The first line is a fence but for the white space in front of it.
def IndentedFence (ls : List Text) : Prop :=
  ∃ l ∈ ls.head?, Fence.isFence (trimStart l) ∧ Fence.isFence l = false

-- The block of a run of lines.
def Block.ofRun (ls : List Text) : Block :=
  .ofText (trim (joinLines ls))

-- What is asked of a line when a document is cut.
def look (l : Text) : Bool × Bool :=
  (Fence.isFence l, blank l)

variable {n : Nat} {f : Option Nat} {b : Bool} {l x : Text} {current ls ks ps : List Text}
  {bs : List Block}

theorem isFence_iff : Fence.isFence l ↔ Fence.mark <+: l :=
  List.isPrefixOf_iff_prefix

theorem trimStart_of_isFence (h : Fence.isFence l) : trimStart l = l := by
  have ⟨r, hr⟩ := isFence_iff.mp h
  rw [← hr]
  rfl

theorem isFence_trimEnd (l : Text) : Fence.isFence (trimEndBy isBlank l) = Fence.isFence l := by
  refine Bool.eq_iff_iff.mpr ⟨fun h => ?_, fun h => ?_⟩
  · exact isFence_iff.mpr ((isFence_iff.mp h).trans (prefix_trimEndBy isBlank l))
  · have ⟨r, hr⟩ := isFence_iff.mp h
    have hm : trimEndBy isBlank (Fence.mark ++ r) = Fence.mark ++ trimEndBy isBlank r := by
      have hc : isBlank '\x60' = false := by decide
      exact .trans (trimEndBy_cons hc _)
        (congrArg _ (.trans (trimEndBy_cons hc _) (congrArg _ (trimEndBy_cons hc r))))
    exact isFence_iff.mpr ⟨trimEndBy isBlank r, by rw [← hr, hm]⟩

theorem look_trimEnd (l : Text) : look (trimEndBy isBlank l) = look l := by
  rw [look, look, isFence_trimEnd, blank_trimEnd]

namespace Unbroken

theorem of_look (h : Unbroken b ls) (hk : ks.map look = ls.map look) : Unbroken b ks := by
  induction h generalizing ks
  all_goals cases ks
  case nil.nil => exact .nil
  case fence.cons hf _ ih k ks =>
    have ⟨hl, hk⟩ := List.cons_eq_cons.mp hk
    have ⟨hl, _⟩ := Prod.mk.inj hl
    exact .fence (hl.trans hf) (ih hk)
  case line.cons hf hb _ ih k ks =>
    have ⟨hl, hk⟩ := List.cons_eq_cons.mp hk
    have ⟨hl, hn⟩ := Prod.mk.inj hl
    exact .line (hl.trans hf) (hn ▸ hb) (ih hk)
  all_goals contradiction

-- The fences close each other.
theorem even (h : Unbroken b ls) : (b.toNat + ls.countP Fence.isFence) % 2 = 0 := by
  induction h
  case nil => rfl
  case fence b _ hf _ ih =>
    rw [List.countP_cons_of_pos hf]
    cases b <;> simp at ih ⊢ <;> omega
  case line hf _ _ ih => rwa [List.countP_cons_of_neg (by simp [hf])]

theorem not_blank_head (h : Unbroken false ls) : ∀ l ∈ ls.head?, blank l = false := by
  rintro l hl
  cases h
  case nil           => contradiction
  case fence k ks hf hu => exact Option.some.inj hl ▸ not_blank_of_isFence hf
  case line hb _     => exact Option.some.inj hl ▸ by simpa using hb

theorem not_blank_last (h : Unbroken b ls) : ∀ l ∈ ls.getLast?, blank l = false := by
  induction h
  case nil => simp
  case fence l _ ls hf hu ih =>
    cases ls
    case nil => simpa using not_blank_of_isFence hf
    case cons k ks => simpa [List.getLast?_cons_cons] using ih
  case line l _ ls _ hb hu ih =>
    cases ls
    case nil =>
      cases hu
      simpa using hb
    case cons k ks => simpa [List.getLast?_cons_cons] using ih

end Unbroken

theorem cut_of_unbroken (h : Unbroken b ls) (hb : f.isSome = b) (n : Nat) (current : List Text) :
    cut n f current ls = .ok (paragraph (current ++ ls)) := by
  induction h generalizing n f current
  case nil =>
    cases f
    case some => contradiction
    case none => rw [cut, List.append_nil]
  case fence l b ls hf hu ih =>
    have hs : (if f.isSome then none else some n).isSome = !b := by subst hb; cases f <;> rfl
    rw [cut_fence hf, ih hs, List.append_assoc]
    rfl
  case line l b ls hf hi hu ih =>
    rw [cut_line hf (hb ▸ hi), ih hb, List.append_assoc]
    rfl

-- What stands between the gaps of a document whose fences are closed.
theorem keptParts_unbroken (h : openFence n f ls = none) :
    ∃ ps pss, keptParts f.isSome ls = ps :: pss ∧ Unbroken f.isSome ps ∧
      ∀ qs ∈ pss, Unbroken false qs := by
  induction ls generalizing n f
  case nil =>
    cases h
    exact ⟨[], [], rfl, .nil, List.forall_mem_nil _⟩
  case cons l ls ih =>
    rw [openFence] at h
    obtain ⟨ps, pss, hk, hp, hq⟩ := ih h
    cases Role.of f l
    case fence hf =>
      have hs : (if f.isSome then none else some n).isSome = !f.isSome := by cases f <;> rfl
      rw [if_pos hf, hs] at hk hp
      have hi : !blank l || f.isSome := by simp [not_blank_of_isFence hf]
      have hl := keptParts_kept hi ls
      rw [hf, Bool.xor_true, hk, List.modifyHead_cons] at hl
      exact ⟨l :: ps, pss, hl, .fence hf hp, hq⟩
    case line hf hi =>
      rw [if_neg (by simp [hf])] at hk hp
      have hl := keptParts_kept (Bool.or_comm _ _ ▸ hi) ls
      rw [hf, Bool.xor_false, hk, List.modifyHead_cons] at hl
      exact ⟨l :: ps, pss, hl, .line hf hi hp, hq⟩
    case gap hf hb =>
      rw [if_neg (by simp [hf])] at hk hp
      exact ⟨[], ps :: pss, (keptParts_gap hf hb ls).trans (congrArg _ hk), .nil,
        List.forall_mem_cons.mpr ⟨hp, hq⟩⟩

theorem map_flaggedFrom (b : Bool) (ls : List Text) : (flaggedFrom b ls).map (·.1) = ls := by
  induction ls generalizing b
  case nil          => rfl
  case cons l ls ih => rw [flaggedFrom, List.map_cons, ih]

theorem mem_of_mem_keptParts (hp : ps ∈ keptParts b ls) (hl : l ∈ ps) : l ∈ ls := by
  have ⟨qs, hq, he⟩ := List.mem_map.mp hp
  have ⟨p, hm, hl⟩ := List.mem_map.mp (he ▸ hl)
  exact map_flaggedFrom b ls ▸ hl ▸ List.mem_map_of_mem (mem_of_mem_splitOnP hq hm)

-- What a run of a document is whose fences are closed.
structure IsRun (ls : List Text) : Prop where
  unbroken : Unbroken false ls
  ne_nil   : ls ≠ []
  plain    : ∀ l ∈ ls, '\n' ∉ l ∧ '\r' ∉ l

theorem isRun_of_mem_keptRuns (hr : '\r' ∉ x) (h : openFence 1 none (lines x) = none)
    (hl : ls ∈ keptRuns (lines x)) : IsRun ls := by
  have ⟨qs, pss, hk, hq, hs⟩ := keptParts_unbroken h
  have hu : ∀ ps ∈ keptParts false (lines x), Unbroken false ps :=
    hk ▸ List.forall_mem_cons.mpr ⟨hq, hs⟩
  rw [keptRuns_eq, List.mem_filter] at hl
  refine ⟨hu ls hl.left, by simpa using hl.right, fun l hm => ?_⟩
  have hm := mem_of_mem_keptParts hl.left hm
  exact ⟨lineFeed_not_mem_of_mem_lines hm, fun hc => hr (mem_of_mem_lines hm hc)⟩

-- Lines that make one paragraph are one block.
theorem blocks_of_unbroken (h : Unbroken false (lines x)) (hn : lines x ≠ []) :
    blocks x = .ok [.ofRun (lines x)] := by
  have ⟨l, ls, hl⟩ := List.exists_cons_of_ne_nil hn
  have hb : trim (joinLines (lines x)) ≠ [] :=
    trim_joinLines_ne_nil ⟨l, by simp [hl], h.not_blank_head l (by simp [hl])⟩
  have hp : paragraph (lines x) = [trim (joinLines (lines x))] :=
    List.filter_cons_of_pos (decide_eq_true hb)
  rw [blocks, paragraphs, cut_of_unbroken h rfl, List.nil_append, hp]
  rfl

theorem length_fences (n : Nat) (ls : List Text) :
    (fences n ls).length = ls.countP Fence.isFence := by
  induction ls generalizing n
  case nil => rfl
  case cons l ls ih =>
    rw [fences_cons]
    cases hf : Fence.isFence l
    case false => rw [List.countP_cons_of_neg (by simp [hf]), if_neg Bool.false_ne_true, ih]
    case true  => rw [List.countP_cons_of_pos hf, if_pos rfl, List.length_cons, ih]

theorem blocks_of_odd (h : (lines x).countP Fence.isFence % 2 = 1) :
    ∃ n, blocks x = .error (.unclosedFence n) := by
  have hf := openFence_eq 1 none (lines x)
  have hn : fences 1 (lines x) ≠ [] := by
    intro hn
    rw [← length_fences 1, hn] at h
    contradiction
  rw [Option.isSome_none, Bool.toNat_false, Nat.zero_add, length_fences, if_pos h, Option.or_none,
    List.getLast?_eq_some_getLast hn] at hf
  exact ⟨_, by rw [blocks, paragraphs_eq, hf]; rfl⟩

theorem openFence_of_blocks (h : blocks x = .ok bs) :
    openFence 1 none (lines x) = none ∧ bs = (keptRuns (lines x)).map Block.ofRun := by
  rw [blocks, paragraphs_eq] at h
  cases ho : openFence 1 none (lines x)
  all_goals rw [ho] at h
  case some => contradiction
  case none =>
    cases h
    exact ⟨rfl, List.map_map⟩

theorem map_look_trimEnds (ls : List Text) :
    (trimEnds ls).map look = (ls.modifyHead trimStart).map look :=
  map_modifyLast fun k _ => look_trimEnd k

theorem exists_sublist_of_mem_trimEnds (ls : List Text) :
    ∀ l ∈ trimEnds ls, ∃ k ∈ ls, l.Sublist k := by
  have h : ∀ l ∈ ls.modifyHead trimStart, ∃ k ∈ ls, l.Sublist k := by
    cases ls
    case nil => simp
    case cons k ks =>
      exact List.forall_mem_cons.mpr ⟨⟨k, List.mem_cons_self, List.dropWhile_sublist isBlank⟩,
        fun l hl => ⟨l, List.mem_cons_of_mem k hl, .refl l⟩⟩
  refine forall_mem_modifyLast h fun l hl => ?_
  have ⟨k, hk, hs⟩ := h l hl
  exact ⟨k, hk, (prefix_trimEndBy isBlank l).sublist.trans hs⟩

theorem countP_isFence (ls : List Text) : ls.countP Fence.isFence = (ls.map look).countP (·.1) := by
  rw [List.countP_map]
  rfl

-- Trimming makes a fence of an indented one and leaves the others as they are.
theorem map_look_modifyHead (h : ¬IndentedFence ls) :
    (ls.modifyHead trimStart).map look = ls.map look := by
  cases ls
  case nil => rfl
  case cons l ls =>
    have hl : Fence.isFence (trimStart l) = Fence.isFence l := by
      cases hf : Fence.isFence l
      case true  => rw [trimStart_of_isFence hf, hf]
      case false => exact Bool.eq_false_iff.mpr fun ht => h ⟨l, rfl, ht, hf⟩
    rw [List.modifyHead_cons, List.map_cons, look, hl, blank_trimStart, List.map_cons, look]

theorem countP_modifyHead (h : IndentedFence ls) :
    (ls.modifyHead trimStart).countP Fence.isFence = ls.countP Fence.isFence + 1 := by
  have ⟨l, hl, ht, hf⟩ := h
  obtain ⟨ks, rfl⟩ := List.head?_eq_some_iff.mp hl
  rw [List.modifyHead_cons, List.countP_cons_of_pos ht, List.countP_cons_of_neg (by simp [hf])]

theorem isFence_of_kindOf (h : Block.kindOf x = .code) : Fence.isFence x := by
  by_contra hf
  have hs : startsWith x Fence.mark = false := Bool.eq_false_iff.mpr hf
  have ha : Fence.accepts x = false := by
    rw [Fence.accepts, hs, Bool.and_false, Bool.false_and]
  grind [Block.kindOf]

theorem isFence_firstLine (h : Fence.isFence x) : Fence.isFence (firstLine x) := by
  have ⟨r, hr⟩ := isFence_iff.mp h
  exact isFence_iff.mpr ⟨firstLine r, by rw [← hr]; rfl⟩

namespace IsRun

theorem not_blank_last_trimEnds (h : IsRun ls) : ∀ l ∈ (trimEnds ls).getLast?, blank l = false := by
  have hm : ∀ ks : List Text, (ks.map look).map (·.2) = ks.map blank := fun ks => List.map_map
  have hb : (trimEnds ls).map blank = ls.map blank := by
    rw [← hm, map_look_trimEnds, hm]
    cases ls
    case nil       => rfl
    case cons l ls => rw [List.modifyHead_cons, List.map_cons, blank_trimStart, List.map_cons]
  intro l hl
  have hb := congrArg List.getLast? hb
  rw [List.getLast?_map, List.getLast?_map, Option.mem_def.mp hl] at hb
  have ⟨k, hk, he⟩ := Option.map_eq_some_iff.mp hb.symm
  exact he ▸ h.unbroken.not_blank_last k hk

theorem text_eq (h : IsRun ls) : (Block.ofRun ls).text = joinLines (trimEnds ls) :=
  trim_joinLines h.unbroken.not_blank_head h.unbroken.not_blank_last

theorem lines_text (h : IsRun ls) : lines (Block.ofRun ls).text = trimEnds ls := by
  rw [h.text_eq]
  refine lines_joinLines_of_last (fun l hl => ?_) fun l hl =>
    ne_nil_of_not_blank (h.not_blank_last_trimEnds l hl)
  have ⟨k, hk, hs⟩ := exists_sublist_of_mem_trimEnds ls l hl
  have ⟨hf, hr⟩ := h.plain k hk
  exact ⟨fun hc => hf (hs.mem hc), fun hc => hr (hs.mem hc)⟩

theorem blocks_text (h : IsRun ls) (hi : ¬IndentedFence ls) :
    blocks (Block.ofRun ls).text = .ok [.ofRun ls] := by
  have hm := (map_look_trimEnds ls).trans (map_look_modifyHead hi)
  have hn : trimEnds ls ≠ [] := fun hn => h.ne_nil (by simpa [hn] using hm)
  have ht : Block.ofRun (trimEnds ls) = .ofRun ls := by
    rw [Block.ofRun, ← h.text_eq]
    exact congrArg Block.ofText (trim_trim _)
  have hb := blocks_of_unbroken (h.lines_text ▸ h.unbroken.of_look hm) (h.lines_text ▸ hn)
  rwa [h.lines_text, ht] at hb

theorem blocks_text_of_indentedFence (h : IsRun ls) (hi : IndentedFence ls) :
    ∃ n, blocks (Block.ofRun ls).text = .error (.unclosedFence n) := by
  have he := h.unbroken.even
  apply blocks_of_odd
  rw [h.lines_text, countP_isFence, map_look_trimEnds, ← countP_isFence, countP_modifyHead hi]
  simp only [Bool.toNat_false, Nat.zero_add] at he
  omega

-- Code begins with a fence, at least after trimming.
theorem isFence_trimStart (h : IsRun ls) (hk : (Block.ofRun ls).kind = .code) :
    ∃ l ∈ ls.head?, Fence.isFence (trimStart l) := by
  have hf : Fence.isFence (firstLine (Block.ofRun ls).text) :=
    isFence_firstLine (isFence_of_kindOf hk)
  have ⟨l, ks, hl⟩ := List.exists_cons_of_ne_nil h.ne_nil
  have hm := map_look_trimEnds ls
  rw [hl, List.modifyHead_cons, List.map_cons, ← hl] at hm
  have ⟨m, ms, he, hh, _⟩ := List.map_eq_cons_iff.mp hm
  have hn : '\n' ∉ m := fun hc =>
    have ⟨k, hk, hs⟩ := exists_sublist_of_mem_trimEnds ls m (by simp [he])
    (h.plain k hk).left (hs.mem hc)
  refine ⟨l, by simp [hl], ?_⟩
  rw [h.text_eq, he, joinLines_cons_eq, firstLine_append hn] at hf
  exact (Prod.mk.inj hh).left.symm.trans hf

end IsRun

-- A block that is read again by itself is the same block again, unless it begins with an indented
-- fence: that is no fence in the document, but in the block it is one, and is not closed.
theorem blocks_text_iff (hr : '\r' ∉ x) (h : blocks x = .ok bs) :
    bs = (keptRuns (lines x)).map Block.ofRun ∧
    ∀ ls ∈ keptRuns (lines x),
      (blocks (Block.ofRun ls).text = .ok [.ofRun ls] ↔ ¬IndentedFence ls) ∧
      (IndentedFence ls → ∃ n, blocks (Block.ofRun ls).text = .error (.unclosedFence n)) ∧
      ((Block.ofRun ls).kind = .code →
        (blocks (Block.ofRun ls).text = .ok [.ofRun ls] ↔ ∃ l ∈ ls.head?, Fence.isFence l)) := by
  have ⟨ho, hb⟩ := openFence_of_blocks h
  refine ⟨hb, fun ls hl => ?_⟩
  have hu := isRun_of_mem_keptRuns hr ho hl
  have hs : blocks (Block.ofRun ls).text = .ok [.ofRun ls] ↔ ¬IndentedFence ls := by
    refine ⟨fun hb hi => ?_, hu.blocks_text⟩
    have ⟨n, he⟩ := hu.blocks_text_of_indentedFence hi
    rw [hb] at he
    contradiction
  refine ⟨hs, hu.blocks_text_of_indentedFence, fun hk => hs.trans ⟨fun hi => ?_, fun hf hi => ?_⟩⟩
  · have ⟨l, hl, ht⟩ := hu.isFence_trimStart hk
    refine ⟨l, hl, ?_⟩
    by_contra hf
    exact hi ⟨l, hl, ht, by simpa using hf⟩
  · have ⟨l, hl, hf⟩ := hf
    have ⟨k, hk, _, hn⟩ := hi
    rw [Option.mem_def.mp hl] at hk
    rw [← Option.some.inj hk, hf] at hn
    contradiction

theorem blocks_text_iff_indented :
    let x : Text := "\x60\x60\x60\n\n- a\n\x60\x60\x60\n\n  \x60\x60\x60\na\n  \x60\x60\x60"
    let ls : List Text := ["\x60\x60\x60", "", "- a", "\x60\x60\x60"]
    let ks : List Text := ["  \x60\x60\x60", "a", "  \x60\x60\x60"]
    '\r' ∉ x ∧ blocks x = .ok [.ofRun ls, .ofRun ks] ∧ keptRuns (lines x) = [ls, ks] ∧
      (Block.ofRun ls).kind = .code ∧ blocks (Block.ofRun ls).text = .ok [.ofRun ls] ∧
      (Block.ofRun ks).kind = .code ∧
      ∃ n, blocks (Block.ofRun ks).text = .error (.unclosedFence n) := by
  intro x ls ks
  have hr : '\r' ∉ x := by decide
  have hx : blocks x = .ok [.ofRun ls, .ofRun ks] := by decide
  have hk : keptRuns (lines x) = [ls, ks] := by decide
  have ⟨_, h⟩ := blocks_text_iff hr hx
  have ⟨_, _, hls⟩ := h ls (by simp [hk])
  have ⟨_, hks, _⟩ := h ks (by simp [hk])
  have hl : (Block.ofRun ls).kind = .code := by decide
  refine ⟨hr, hx, hk, hl, (hls hl).mpr ⟨_, rfl, by decide⟩, by decide, hks ⟨_, rfl, by decide⟩⟩

-- The white space in front of the first fence is lost, that in front of the second one is not.
theorem not_blocks_text_of_indented :
    let x : Text := "  \x60\x60\x60\na\n  \x60\x60\x60"
    let b : Block := ⟨.code, "\x60\x60\x60\na\n  \x60\x60\x60"⟩
    '\r' ∉ x ∧ blocks x = .ok [b] ∧ blocks b.text = .error (.unclosedFence 1) := by
  decide

end DocPress.Markdown
