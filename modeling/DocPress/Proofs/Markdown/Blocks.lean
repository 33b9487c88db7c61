import DocPress.Markdown.Page
import DocPress.Proofs.Text.Lines

-- How documents are cut behind an empty line. Outside of a fence nothing is carried over it, so
-- that the blocks of what follows are those of a document by itself.

namespace DocPress

open Text

-- The error of a document that has a number of lines put in front of it.
def Error.shift (k : Nat) : Error → Error
  | unclosedFence n => unclosedFence (n + k)
  | e               => e

namespace Markdown

-- What a line is to the paragraph before it: a fence, a further line, or the gap that ends it.
-- There are no gaps in an open fence.
inductive Role : Option Nat → Text → Prop
  | fence : Fence.isFence l → Role f l
  | line  : Fence.isFence l = false → (f.isSome || !blank l) → Role f l
  | gap   : Fence.isFence l = false → blank l → Role none l

variable {n : Nat} {f : Option Nat} {current ls ks ms ps : List Text} {x l : Text}
  {bs cs : List Block}

theorem Role.of (f : Option Nat) (l : Text) : Role f l := by
  cases hf : Fence.isFence l
  case true  => exact .fence hf
  case false =>
    cases hi : f.isSome || !blank l
    case true  => exact .line hf hi
    case false =>
      cases f
      case some => contradiction
      case none => exact .gap hf (by simpa using hi)

theorem cut_fence (hf : Fence.isFence l) :
    cut n f current (l :: ls) =
      cut (n + 1) (if f.isSome then none else some n) (current ++ [l]) ls :=
  if_pos hf

theorem cut_line (hf : Fence.isFence l = false) (hi : f.isSome || !blank l) :
    cut n f current (l :: ls) = cut (n + 1) f (current ++ [l]) ls := by
  simp only [cut, hf, hi, Bool.false_eq_true, if_false, if_true]

theorem cut_gap (hf : Fence.isFence l = false) (hb : blank l) :
    cut n none current (l :: ls) = (paragraph current ++ ·) <$> cut (n + 1) none [] ls := by
  simp [cut, hf, hb]

-- Lines without gaps and fences make one block.
theorem cut_of_lines {current : List Text}
    (h : ∀ k ∈ ls, Fence.isFence k = false ∧ blank k = false) (n : Nat) :
    cut n none current ls = .ok (paragraph (current ++ ls)) := by
  induction ls generalizing n current
  case nil => rw [cut, List.append_nil]
  case cons k ks ih =>
    have ⟨⟨hf, hb⟩, hks⟩ := List.forall_mem_cons.mp h
    rw [cut_line hf (by simp [hb]), ih hks, List.append_assoc]
    rfl

-- Counting the lines from a later number on changes the number in the error and nothing else.
theorem cut_add (n k : Nat) (f : Option Nat) (current ls : List Text) :
    cut (n + k) (f.map (· + k)) current ls = (cut n f current ls).mapError (.shift k) := by
  induction ls generalizing n f current
  case nil => cases f <;> rfl
  case cons l ls ih =>
    have ih := fun f current => Nat.add_right_comm n k 1 ▸ ih (n + 1) f current
    cases Role.of f l
    case fence hf =>
      rw [cut_fence hf, cut_fence hf, ← ih]
      cases f <;> rfl
    case line hf hi =>
      have hi' : (f.map (· + k)).isSome || !blank l := by simpa using hi
      rw [cut_line hf hi, cut_line hf hi', ih]
    case gap hf hb =>
      have ih : cut (n + k + 1) none [] ls = _ := ih none []
      rw [Option.map_none, cut_gap hf hb, cut_gap hf hb, ih]
      cases cut (n + 1) none [] ls <;> rfl

-- At an empty line outside of a fence nothing is left of what came before.
theorem cut_append (h : cut n f current ls = .ok ps) (ms : List Text) :
    cut n f current (ls ++ [] :: ms) = (ps ++ ·) <$> cut (n + ls.length + 1) none [] ms := by
  induction ls generalizing n f current ps
  case nil =>
    cases f
    case some => contradiction
    case none =>
      cases h
      rfl
  case cons l ls ih =>
    rw [List.length_cons, ← Nat.add_assoc, Nat.add_right_comm n, List.cons_append]
    cases Role.of f l
    case fence hf =>
      rw [cut_fence hf] at h ⊢
      exact ih h
    case line hf hi =>
      rw [cut_line hf hi] at h ⊢
      exact ih h
    case gap hf hb =>
      rw [cut_gap hf hb] at h ⊢
      cases hc : cut (n + 1) none [] ls
      all_goals rw [hc] at h
      case error => contradiction
      case ok cs =>
        cases h
        rw [ih hc]
        cases cut (n + 1 + ls.length + 1) none [] ms
        case error => rfl
        case ok ds => exact congrArg Except.ok (List.append_assoc _ _ _).symm

theorem cut_congr (h : ∀ n f current, cut n f current ks = cut n f current ms) (n : Nat)
    (f : Option Nat) (current ls : List Text) :
    cut n f current (ls ++ ks) = cut n f current (ls ++ ms) := by
  induction ls generalizing n f current
  case nil          => exact h n f current
  case cons l ls ih => simp only [List.cons_append, cut, ih]

theorem isFence_concat (l : Text) : Fence.isFence (l ++ ['\r']) = Fence.isFence l := by
  have h : Fence.mark ≠ l ++ ['\r'] := by
    intro h
    have h := congrArg List.getLast? h
    rw [List.getLast?_concat] at h
    exact absurd h (by decide)
  apply Bool.eq_iff_iff.mpr
  simp only [Fence.isFence, startsWith, List.isPrefixOf_iff_prefix]
  exact List.prefix_concat_iff.trans (or_iff_right h)

theorem paragraph_concat (current : List Text) (l : Text) :
    paragraph (current ++ [l ++ ['\r']]) = paragraph (current ++ [l]) := by
  simp only [paragraph, joinLines_concat_append, trim_append _ (show blank ['\r'] from rfl)]

theorem cut_nil_concat (n : Nat) (f : Option Nat) (current : List Text) (l : Text) :
    cut n f (current ++ [l ++ ['\r']]) [] = cut n f (current ++ [l]) [] := by
  cases f
  case some => rfl
  case none => exact congrArg Except.ok (paragraph_concat current l)

-- A carriage return at the end of the last line has no effect.
theorem cut_concat (n : Nat) (f : Option Nat) (current : List Text) (l : Text) :
    cut n f current [l ++ ['\r']] = cut n f current [l] := by
  cases Role.of f l
  case fence hf =>
    rw [cut_fence hf, cut_fence ((isFence_concat l).trans hf)]
    exact cut_nil_concat _ _ current l
  case line hf hi =>
    rw [cut_line hf hi, cut_line ((isFence_concat l).trans hf) (blank_concat l ▸ hi)]
    exact cut_nil_concat _ f current l
  case gap hf hb =>
    rw [cut_gap hf hb, cut_gap ((isFence_concat l).trans hf) (blank_concat l ▸ hb)]

theorem cut_empty (n : Nat) (f : Option Nat) (current : List Text) :
    cut n f current [[]] = cut n f current [] := by
  cases f
  case some => rfl
  case none => exact congrArg Except.ok (List.append_nil _)

theorem cut_dropEnd (l : Text) (n : Nat) (f : Option Nat) (current : List Text) :
    cut n f current [dropEnd ['\r'] l] = cut n f current ([l].filter (· ≠ [])) := by
  by_cases h : ['\r'] <:+ l
  case pos =>
    have he := dropEnd_append h
    have hl : l ≠ [] := he ▸ List.append_ne_nil_of_right_ne_nil _ (List.cons_ne_nil _ _)
    rw [← cut_concat, he]
    simp [hl]
  case neg =>
    have hd : dropEnd ['\r'] l = l := if_neg (by simpa using h)
    rw [hd]
    by_cases hl : l = []
    case pos => simpa [hl] using cut_empty n f current
    case neg => simp [hl]

-- Whether the last line is ended like the others makes no difference.
theorem cut_lines (n : Nat) (f : Option Nat) (current : List Text) (x : Text) :
    cut n f current ((splitLines x).map (dropEnd ['\r'])) = cut n f current (lines x) := by
  have ⟨ls, l, h⟩ := (List.eq_nil_or_concat (splitLines x)).resolve_left (splitLines_ne_nil x)
  simp only [lines, h, List.concat_eq_append, List.map_append, List.map_cons, List.map_nil,
    List.dropLast_concat, List.getLast?_concat, Option.toList_some]
  exact cut_congr (cut_dropEnd l) n f current (ls.map (dropEnd ['\r']))

theorem paragraphs_append (h : paragraphs x = .ok ps) (y : Text) :
    paragraphs (x ++ ['\n', '\n'] ++ y) =
      (ps ++ ·) <$> (paragraphs y).mapError (.shift (x.count '\n' + 2)) := by
  rw [paragraphs, ← cut_lines] at h
  rw [paragraphs, lines_append_gap, cut_append h, List.length_map, length_splitLines, paragraphs, ← cut_add]
  rfl

theorem blocks_append_eq (h : blocks x = .ok bs) (y : Text) :
    blocks (x ++ ['\n', '\n'] ++ y) =
      (bs ++ ·) <$> (blocks y).mapError (.shift (x.count '\n' + 2)) := by
  rw [blocks] at h
  cases hx : paragraphs x
  all_goals rw [hx] at h
  case error => contradiction
  case ok ps =>
    cases h
    rw [blocks, paragraphs_append hx, blocks]
    cases paragraphs y
    case error => rfl
    case ok qs => exact congrArg Except.ok List.map_append

namespace Page

theorem ofText_eq (options : Options) (h : blocks x = .ok bs) (hb : bs ≠ []) :
    ofText options x = .ok (ofBlocks options bs) := by
  cases x
  case nil =>
    cases h
    contradiction
  case cons c x =>
    rw [ofText, h]
    rfl

theorem text_ofBlocks_append (options : Options) (hb : bs ≠ []) (hc : cs ≠ []) :
    (ofBlocks options (bs ++ cs)).text =
      (ofBlocks options bs).text ++ ['\n', '\n'] ++ (ofBlocks options cs).text := by
  simp only [ofBlocks, joinBlocks, List.map_append]
  exact join_append _ (List.map_eq_nil_iff.not.mpr hb) (List.map_eq_nil_iff.not.mpr hc)

end Page

-- A document that follows another one behind an empty line is cut as it is by itself. Only the
-- number of the line in its error counts the lines before it.
theorem blocks_append (h : blocks x = .ok bs) (y : Text) :
    (∀ cs, blocks y = .ok cs → blocks (x ++ ['\n', '\n'] ++ y) = .ok (bs ++ cs)) ∧
    (∀ n, blocks y = .error (.unclosedFence n) →
      blocks (x ++ ['\n', '\n'] ++ y) = .error (.unclosedFence (n + 2 + x.count '\n'))) ∧
    (∀ options cs, blocks y = .ok cs → bs ≠ [] → cs ≠ [] →
      ∃ p q r, Page.ofText options x = .ok p ∧ Page.ofText options y = .ok q ∧
        Page.ofText options (x ++ ['\n', '\n'] ++ y) = .ok r ∧
        r.text = p.text ++ ['\n', '\n'] ++ q.text) := by
  have he := blocks_append_eq h y
  have ha : ∀ cs, blocks y = .ok cs → blocks (x ++ ['\n', '\n'] ++ y) = .ok (bs ++ cs) := by
    intro cs hy
    rw [he, hy]
    rfl
  refine ⟨ha, fun n hy => ?_, fun options cs hy hb hc => ?_⟩
  · rw [he, hy, Nat.add_right_comm, Nat.add_assoc]
    rfl
  · have hbc : bs ++ cs ≠ [] := List.append_ne_nil_of_left_ne_nil hb cs
    exact ⟨_, _, _, Page.ofText_eq options h hb, Page.ofText_eq options hy hc,
      Page.ofText_eq options (ha cs hy) hbc, Page.text_ofBlocks_append options hb hc⟩

theorem blocks_append_unclosed :
    blocks ['a', '\n'] = .ok [⟨.paragraph, ['a']⟩] ∧
      blocks Fence.mark = .error (.unclosedFence 1) ∧
      blocks (['a', '\n'] ++ ['\n', '\n'] ++ Fence.mark) = .error (.unclosedFence 4) := by
  have hx : blocks ['a', '\n'] = .ok [⟨.paragraph, ['a']⟩] := rfl
  have hy : blocks Fence.mark = .error (.unclosedFence 1) := rfl
  exact ⟨hx, hy, (blocks_append hx Fence.mark).right.left 1 hy⟩

end Markdown
end DocPress
