import DocPress.Proofs.Markdown.Blocks

-- Documents as runs of lines. A blank line separates the runs before and behind it, unless a fence
-- is open there; whether one is open is told by the number of fences before the line.

namespace DocPress.Markdown

open Text

-- The numbers of the fences, where the lines are counted from a given number on.
def fences (n : Nat) (ls : List Text) : List Nat :=
  ((ls.zipIdx n).filter (Fence.isFence ·.1)).map (·.2)

-- All lines, each with whether it is kept: blank lines are kept behind an odd number of fences
-- only.
def flagged (ls : List Text) : List (Text × Bool) :=
  ls.mapIdx fun i l => (l, !blank l || (ls.take i).countP Fence.isFence % 2 == 1)

def keptRuns (ls : List Text) : List (List Text) :=
  (runs (·.2) (flagged ls)).map (·.map (·.1))

-- All lines, each with whether a fence is open before it.
def opened (ls : List Text) : List (Text × Bool) :=
  ls.mapIdx fun i l => (l, (ls.take i).countP Fence.isFence % 2 == 1)

-- The same for lines before which a fence is open or not.
def openedFrom : Bool → List Text → List (Text × Bool)
  | _, []      => []
  | b, l :: ls => (l, b) :: openedFrom (b ^^ Fence.isFence l) ls

def flaggedFrom : Bool → List Text → List (Text × Bool)
  | _, []      => []
  | b, l :: ls => (l, !blank l || b) :: flaggedFrom (b ^^ Fence.isFence l) ls

-- The line of the fence that is open behind all lines.
def openFence (n : Nat) (f : Option Nat) : List Text → Option Nat
  | []      => f
  | l :: ls =>
    openFence (n + 1) (if Fence.isFence l then if f.isSome then none else some n else f) ls

-- The lines that stand between those that are not kept.
def keptParts (b : Bool) (ls : List Text) : List (List Text) :=
  ((flaggedFrom b ls).splitOnP (!·.2)).map (·.map (·.1))

variable {n : Nat} {f : Option Nat} {b : Bool} {l x : Text} {current ls ps : List Text}
  {pss : List (List Text)}

theorem mapIdx_eq_openedFrom (k : Nat) (ls : List Text) :
    (ls.mapIdx fun i l => (l, (k + (ls.take i).countP Fence.isFence) % 2 == 1)) =
      openedFrom (k % 2 == 1) ls := by
  induction ls generalizing k
  case nil => rfl
  case cons l ls ih =>
    have hb : (k % 2 == 1 ^^ Fence.isFence l) = ((k + (Fence.isFence l).toNat) % 2 == 1) := by
      cases Fence.isFence l <;> simp; grind
    have hk : ∀ i, k + ((l :: ls).take (i + 1)).countP Fence.isFence =
        k + (Fence.isFence l).toNat + (ls.take i).countP Fence.isFence := by
      intro i
      rw [List.take_succ_cons, List.countP_cons]
      cases Fence.isFence l <;> simp; omega
    simp only [List.mapIdx_cons, hk, ih, hb, openedFrom, List.take_zero, List.countP_nil,
      Nat.add_zero]

theorem opened_eq_openedFrom (ls : List Text) : opened ls = openedFrom false ls := by
  simpa [opened] using mapIdx_eq_openedFrom 0 ls

theorem map_openedFrom (b : Bool) (ls : List Text) :
    (openedFrom b ls).map (fun p => (p.1, !blank p.1 || p.2)) = flaggedFrom b ls := by
  induction ls generalizing b
  case nil          => rfl
  case cons l ls ih => rw [openedFrom, List.map_cons, ih, flaggedFrom]

theorem flagged_eq_flaggedFrom (ls : List Text) : flagged ls = flaggedFrom false ls := by
  rw [← map_openedFrom, ← opened_eq_openedFrom]
  simp [flagged, opened, List.mapIdx_eq_zipIdx_map]

theorem not_blank_of_isFence (hf : Fence.isFence l) : blank l = false := by
  have ⟨_, h⟩ := List.isPrefixOf_iff_prefix.mp hf
  rw [← h]
  rfl

theorem keptParts_kept (hk : (!blank l || b) = true) (ls : List Text) :
    keptParts b (l :: ls) = (keptParts (b ^^ Fence.isFence l) ls).modifyHead (l :: ·) := by
  simp only [keptParts, flaggedFrom, List.splitOnP_cons_eq_if_modifyHead, hk]
  cases (flaggedFrom (b ^^ Fence.isFence l) ls).splitOnP (!·.2) <;> simp

theorem keptParts_gap (hf : Fence.isFence l = false) (hb : blank l) (ls : List Text) :
    keptParts false (l :: ls) = [] :: keptParts false ls := by
  simp [keptParts, flaggedFrom, List.splitOnP_cons_eq_if_modifyHead, hb, hf]

-- The lines are cut into the parts between those that are not kept, unless a fence is left open. A
-- fence is open where the number of a line is remembered for it.
theorem cut_eq (n : Nat) (f : Option Nat) (current ls : List Text) :
    cut n f current ls =
      match openFence n f ls with
      | some m => .error (.unclosedFence m)
      | none   => .ok (((keptParts f.isSome ls).modifyHead (current ++ ·)).flatMap paragraph) := by
  induction ls generalizing n f current
  case nil =>
    cases f
    case some => rfl
    case none => simp [cut, openFence, keptParts, flaggedFrom]
  case cons l ls ih =>
    have happ : ((current ++ ·) ∘ (l :: ·) : List Text → List Text) = (current ++ [l] ++ ·) := by
      funext ls
      simp
    cases Role.of f l
    case fence hf =>
      have hb := not_blank_of_isFence hf
      have hs : (if f.isSome then none else some n).isSome = (f.isSome ^^ Fence.isFence l) := by
        cases f <;> simp [hf]
      rw [cut_fence hf, ih, hs, keptParts_kept (by simp [hb]), List.modifyHead_modifyHead, happ,
        openFence, if_pos hf]
    case line hf hi =>
      rw [cut_line hf hi, ih, keptParts_kept (Bool.or_comm _ _ ▸ hi), List.modifyHead_modifyHead,
        happ, openFence, hf, Bool.xor_false, if_neg Bool.false_ne_true]
    case gap hf hb =>
      have hid : (([] ++ ·) : List Text → List Text) = id := rfl
      rw [cut_gap hf hb, ih, openFence, hf, if_neg Bool.false_ne_true, Option.isSome_none,
        keptParts_gap hf hb, hid, List.modifyHead_id]
      cases openFence (n + 1) none ls <;> simp

theorem fences_cons (n : Nat) (l : Text) (ls : List Text) :
    fences n (l :: ls) = if Fence.isFence l then n :: fences (n + 1) ls else fences (n + 1) ls := by
  rw [fences, List.zipIdx_cons, List.filter_cons]
  split <;> rfl

-- A fence is left open where the number of fences is odd, and then it is the last one.
theorem openFence_eq (n : Nat) (f : Option Nat) (ls : List Text) :
    openFence n f ls =
      if (f.isSome.toNat + (fences n ls).length) % 2 = 1 then (fences n ls).getLast?.or f
      else none := by
  induction ls generalizing n f
  case nil => cases f <;> rfl
  case cons l ls ih =>
    rw [openFence, ih, fences_cons]
    cases Fence.isFence l
    case false => rfl
    case true  =>
      cases f
      case none =>
        cases h : (fences (n + 1) ls).getLast? <;> simp [List.getLast?_cons, h, Nat.add_comm]
      case some m =>
        have hm : ((1 + ((fences (n + 1) ls).length + 1)) % 2 = 1) =
            ((fences (n + 1) ls).length % 2 = 1) := by
          rw [Nat.add_comm, Nat.add_assoc, Nat.add_mod_right]
        cases h : fences (n + 1) ls <;> simp_all [List.getLast?_cons]

-- Every part has a line that is not blank, except for the first one where a fence is open.
theorem exists_not_blank_of_mem_keptParts (b : Bool) (ls : List Text) :
    (∀ ps ∈ (keptParts b ls).tail, ps ≠ [] → ∃ l ∈ ps, blank l = false) ∧
      (b = false → ∀ ps ∈ keptParts b ls, ps ≠ [] → ∃ l ∈ ps, blank l = false) := by
  induction ls generalizing b
  case nil => simp [keptParts, flaggedFrom]
  case cons l ls ih =>
    cases hk : !blank l || b
    case true =>
      rw [keptParts_kept hk, List.tail_modifyHead]
      refine ⟨(ih _).left, fun hb => ?_⟩
      have hl : blank l = false := by simpa [hb] using hk
      have ht := (ih (b ^^ Fence.isFence l)).left
      cases hp : keptParts (b ^^ Fence.isFence l) ls
      case nil => simp
      case cons ps pss =>
        rw [hp] at ht
        exact List.forall_mem_cons.mpr ⟨fun _ => ⟨l, List.mem_cons_self, hl⟩, ht⟩
    case false =>
      simp only [Bool.or_eq_false_iff, Bool.not_eq_false'] at hk
      have ⟨hl, hb⟩ := hk
      subst hb
      have hf : Fence.isFence l = false := by
        by_contra hf
        simp [not_blank_of_isFence (by simpa using hf)] at hl
      have h := (ih false).right rfl
      rw [keptParts_gap hf hl]
      exact ⟨h, fun _ => List.forall_mem_cons.mpr ⟨fun hn => absurd rfl hn, h⟩⟩

theorem keptRuns_eq (ls : List Text) : keptRuns ls = (keptParts false ls).filter (!·.isEmpty) := by
  simp [keptRuns, runs, flagged_eq_flaggedFrom, keptParts, List.filter_map, Function.comp_def]

theorem trim_joinLines_ne_nil (h : ∃ l ∈ ps, blank l = false) : trim (joinLines ps) ≠ [] := by
  have ⟨l, hl, hb⟩ := h
  apply trim_ne_nil
  rw [blank_joinLines]
  exact List.all_eq_false.mpr ⟨l, hl, by simp [hb]⟩

theorem flatMap_paragraph (h : ∀ ps ∈ pss, ps ≠ [] → ∃ l ∈ ps, blank l = false) :
    pss.flatMap paragraph =
      (pss.filter (!·.isEmpty)).map fun ps => trim (joinLines ps) := by
  induction pss
  case nil => rfl
  case cons ps pss ih =>
    have ⟨hp, h⟩ := List.forall_mem_cons.mp h
    rw [List.flatMap_cons, ih h]
    by_cases hn : ps = []
    case pos => simp [hn, paragraph, joinLines, trim, trimBy]
    case neg => simp [hn, paragraph, trim_joinLines_ne_nil (hp hn)]

theorem paragraphs_eq (x : Text) :
    paragraphs x =
      match openFence 1 none (lines x) with
      | some n => .error (.unclosedFence n)
      | none   => .ok ((keptRuns (lines x)).map fun ls => trim (joinLines ls)) := by
  have hid : (([] ++ ·) : List Text → List Text) = id := rfl
  have h := (exists_not_blank_of_mem_keptParts false (lines x)).right rfl
  rw [paragraphs, cut_eq, hid, List.modifyHead_id, Option.isSome_none, id, flatMap_paragraph h,
    keptRuns_eq]

-- The blocks of a document are the runs of the lines that are kept, and none of them is empty. A
-- document is refused if the number of its fences is odd, because of the last one.
theorem blocks_keptRuns (x : Text) :
    ((fences 1 (lines x)).length % 2 = 1 →
      ∃ n, (fences 1 (lines x)).getLast? = some n ∧ blocks x = .error (.unclosedFence n)) ∧
    ((fences 1 (lines x)).length % 2 = 0 →
      blocks x = .ok ((keptRuns (lines x)).map fun ls => Block.ofText (trim (joinLines ls)))) ∧
    ∀ ls ∈ keptRuns (lines x), trim (joinLines ls) ≠ [] := by
  have hf := openFence_eq 1 none (lines x)
  rw [Option.isSome_none, Bool.toNat_false, Nat.zero_add, Option.or_none] at hf
  refine ⟨fun ho => ?odd, fun he => ?even, fun ls hl => ?nonempty⟩
  case odd =>
    have hn : fences 1 (lines x) ≠ [] := by
      intro hn
      simp [hn] at ho
    have hl := List.getLast?_eq_some_getLast hn
    refine ⟨_, hl, ?_⟩
    rw [blocks, paragraphs_eq, hf, if_pos ho, hl]
    rfl
  case even =>
    rw [blocks, paragraphs_eq, hf, if_neg (by simp [he])]
    exact congrArg Except.ok List.map_map
  case nonempty =>
    rw [keptRuns_eq, List.mem_filter] at hl
    have h := (exists_not_blank_of_mem_keptParts false (lines x)).right rfl ls hl.left
    exact trim_joinLines_ne_nil (h (by simpa using hl.right))

theorem blocks_keptRuns_fenced :
    let x := ['a', '\n', '\n'] ++ Fence.mark ++ ['\n', ' ', '\n'] ++ Fence.mark
    let y := x ++ ['\n'] ++ Fence.mark
    (fences 1 (lines x)).length % 2 = 0 ∧
      keptRuns (lines x) = [[['a']], [Fence.mark, [' '], Fence.mark]] ∧
      blocks x = .ok [.ofText ['a'], .ofText (joinLines [Fence.mark, [' '], Fence.mark])] ∧
      (∀ ls ∈ keptRuns (lines x), trim (joinLines ls) ≠ []) ∧
      (fences 1 (lines y)).length % 2 = 1 ∧ blocks y = .error (.unclosedFence 6) := by
  intro x y
  have hx : (fences 1 (lines x)).length % 2 = 0 := by decide
  have hk : keptRuns (lines x) = [[['a']], [Fence.mark, [' '], Fence.mark]] := by decide
  have hy : (fences 1 (lines y)).length % 2 = 1 := by decide
  have ⟨_, h, hn⟩ := blocks_keptRuns x
  have ⟨n, hl, he⟩ := (blocks_keptRuns y).left hy
  cases hl
  refine ⟨hx, hk, ?_, hn, hy, he⟩
  rw [h hx, hk]
  rfl

end DocPress.Markdown
