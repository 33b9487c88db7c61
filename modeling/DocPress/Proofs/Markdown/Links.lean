import DocPress.Proofs.Markdown.Anchors
import DocPress.Proofs.Markdown.Contents
import DocPress.Proofs.Markdown.Runs
import DocPress.Proofs.Text.Ends

-- The addresses of headings, against the contents of their document. Both number the same headings
-- in the same way, and neither takes a line of fenced code for a heading.

namespace DocPress.Markdown

open Text

-- The lines that are neither fences nor between them.
def unfenced (ls : List Text) : List Text :=
  ((opened ls).filter fun p => !p.2 && !Fence.isFence p.1).map (·.1)

-- The same for lines before which a fence is open or not.
def unfencedFrom (b : Bool) (ls : List Text) : List Text :=
  ((openedFrom b ls).filter fun p => !p.2 && !Fence.isFence p.1).map (·.1)

-- The lines of a paragraph that can make a heading. There are none if it holds a fence.
def openLines (current : List Text) : List Text :=
  if current.any Fence.isFence then [] else current

def headingTexts (bs : List Block) : List Text :=
  (bs.filter (·.kind = .heading)).map (·.text)

-- The lines of a paragraph that is being read. Blank lines get into it behind a fence only.
inductive Current : Option Nat → List Text → Prop
  | empty : Current none []
  | line  : Fence.isFence l = false → blank l = false → Current none [l]
  | fence : Fence.isFence l → Current f (l :: ls)
  | lines : blank l = false → (∃ k ∈ ls, blank k = false) → (f.isSome → ls.any Fence.isFence) →
      Current f (l :: ls)

variable {f g : Option Nat} {b : Bool} {n : Nat} {l x name heading text : Text}
  {current hs ls ps : List Text} {bs : List Block} {c : Collection}

theorem unfenced_eq (ls : List Text) : unfenced ls = unfencedFrom false ls := by
  rw [unfenced, opened_eq_openedFrom, unfencedFrom]

theorem unfencedFrom_fence (hf : Fence.isFence l) (b : Bool) (ls : List Text) :
    unfencedFrom b (l :: ls) = unfencedFrom (!b) ls := by
  simp [unfencedFrom, openedFrom, hf]

theorem unfencedFrom_true (hf : Fence.isFence l = false) (ls : List Text) :
    unfencedFrom true (l :: ls) = unfencedFrom true ls := by
  simp [unfencedFrom, openedFrom, hf]

theorem unfencedFrom_false (hf : Fence.isFence l = false) (ls : List Text) :
    unfencedFrom false (l :: ls) = l :: unfencedFrom false ls := by
  simp [unfencedFrom, openedFrom, hf]

theorem Current.concat_fence (h : Current f current) (hf : Fence.isFence l) (g : Option Nat) :
    Current g (current ++ [l]) := by
  have hb := not_blank_of_isFence hf
  cases h
  case empty           => exact .fence hf
  case line hl         => exact .lines hl ⟨l, List.mem_singleton_self l, hb⟩ fun _ => by simp [hf]
  case fence hk        => exact .fence hk
  case lines hk hl _   => exact .lines hk ⟨l, by simp, hb⟩ fun _ => by simp [hf]

theorem Current.concat_line (h : Current f current) (hf : Fence.isFence l = false)
    (hi : f.isSome || !blank l) : Current f (current ++ [l]) := by
  cases h
  case empty          => exact .line hf (by simpa using hi)
  case line hl        =>
    exact .lines hl ⟨l, List.mem_singleton_self l, by simpa using hi⟩ (absurd · Bool.false_ne_true)
  case fence hk       => exact .fence hk
  case lines hk hl ho =>
    obtain ⟨k, hm, hb⟩ := hl
    exact .lines hk ⟨k, List.mem_append_left _ hm, hb⟩ fun hs => by simp [ho hs]

theorem Current.any_isFence (h : Current (some n) current) : current.any Fence.isFence := by
  cases h
  case fence hk    => rw [List.any_cons, hk, Bool.true_or]
  case lines hk ho => rw [List.any_cons, ho rfl, Bool.or_true]

theorem head?_of_isFence (hf : Fence.isFence l) : l.head? = some '\x60' := by
  have ⟨r, hr⟩ := List.isPrefixOf_iff_prefix.mp hf
  rw [← hr]
  rfl

-- A heading is a single line that does not begin with the mark of a fence.
theorem kindOf_ne_heading_of_isFence (hf : Fence.isFence l) (ls : List Text) :
    Block.kindOf (trim (joinLines (l :: ls))) ≠ .heading := by
  have hn : l ≠ [] := ne_nil_of_not_blank (not_blank_of_isFence hf)
  have hj : (joinLines (l :: ls)).head? = some '\x60' :=
    (head?_joinLines hn).trans (head?_of_isFence hf)
  have ht := head?_trim_eq hj rfl
  intro h
  rw [head?_of_accepts (accepts_of_kindOf h)] at ht
  exact absurd ht (by decide)

theorem kindOf_ne_heading_of_lines (hl : blank l = false) (h : ∃ k ∈ ls, blank k = false) :
    Block.kindOf (trim (joinLines (l :: ls))) ≠ .heading := by
  have ⟨k, hm, hk⟩ := h
  have hb : blank (joinLines ls) = false := by
    rw [blank_joinLines]
    exact List.all_eq_false.mpr ⟨k, hm, by simp [hk]⟩
  have ht : trim (joinLines (l :: ls)) =
      trimStart l ++ '\n' :: trimEndBy isBlank (joinLines ls) := by
    have hy : blank ('\n' :: joinLines ls) = false := not_blank_append hb (x := ['\n'])
    rw [joinLines_cons l (List.ne_nil_of_mem hm), trim_append_of_not_blank hl hy]
    exact congrArg _ (trimEndBy_append_of_not (exists_not_isBlank hb) ['\n'])
  intro h
  have hn := lineFeed_not_mem_of_accepts (accepts_of_kindOf h)
  rw [ht] at hn
  exact hn (List.mem_append_right _ List.mem_cons_self)

theorem Current.headings_sublist (h : Current f current) :
    ((paragraph current).filter (Block.kindOf · = .heading)).Sublist
      ((openLines current).map trim) := by
  cases h
  case empty => exact List.nil_sublist _
  case line hf hb =>
    have ho : openLines [_] = [_] := if_neg (by simpa using hf)
    rw [paragraph, joinLines_singleton, ho, List.map_singleton]
    exact List.filter_sublist.trans List.filter_sublist
  case fence l ls hf =>
    have hp : (paragraph (l :: ls)).filter (Block.kindOf · = .heading) = [] := by
      simp [paragraph, kindOf_ne_heading_of_isFence hf ls]
    rw [hp]
    exact List.nil_sublist _
  case lines l ls hb hk ho =>
    have hp : (paragraph (l :: ls)).filter (Block.kindOf · = .heading) = [] := by
      simp [paragraph, kindOf_ne_heading_of_lines hb hk]
    rw [hp]
    exact List.nil_sublist _

theorem openLines_concat_fence (hf : Fence.isFence l) (current : List Text) :
    openLines (current ++ [l]) = [] :=
  if_pos (by simp [hf])

theorem openLines_concat_opened (hc : current.any Fence.isFence) (l : Text) :
    openLines (current ++ [l]) = openLines current := by
  simp only [openLines, List.any_append, hc, Bool.true_or, if_true]

theorem openLines_concat_sublist (hf : Fence.isFence l = false) (current : List Text) :
    (openLines (current ++ [l])).Sublist (openLines current ++ [l]) := by
  cases hc : current.any Fence.isFence
  case true =>
    rw [openLines_concat_opened hc]
    exact List.sublist_append_left _ _
  case false =>
    have ho : openLines current = current := if_neg (by simp [hc])
    have hl : openLines (current ++ [l]) = current ++ [l] := if_neg (by simp [hc, hf])
    rw [ho, hl]

-- All headings come from lines that no fence is open before, each from a line of its own.
theorem cut_headings_sublist (h : Current f current) (hc : cut n f current ls = .ok ps) :
    (ps.filter (Block.kindOf · = .heading)).Sublist
      ((openLines current ++ unfencedFrom f.isSome ls).map trim) := by
  induction ls generalizing n f current ps
  case nil =>
    cases f
    case some => contradiction
    case none =>
      cases hc
      rw [Option.isSome_none, show unfencedFrom false [] = [] from rfl, List.append_nil]
      exact h.headings_sublist
  case cons l ls ih =>
    cases Role.of f l
    case fence hf =>
      rw [cut_fence hf] at hc
      have hs := ih (h.concat_fence hf _) hc
      have ho : (if f.isSome then none else some n).isSome = !f.isSome := by cases f <;> rfl
      rw [openLines_concat_fence hf, ho, List.nil_append] at hs
      rw [unfencedFrom_fence hf, List.map_append]
      exact hs.trans (List.sublist_append_right _ _)
    case line hf hi =>
      rw [cut_line hf hi] at hc
      have hs := ih (h.concat_line hf hi) hc
      cases f
      case none =>
        have ho := (openLines_concat_sublist hf current).append_right (unfencedFrom false ls)
        rw [List.append_assoc, List.singleton_append, ← unfencedFrom_false hf] at ho
        exact hs.trans (ho.map trim)
      case some =>
        rwa [openLines_concat_opened h.any_isFence, Option.isSome_some,
          ← unfencedFrom_true hf] at hs
    case gap hf hb =>
      rw [cut_gap hf hb] at hc
      cases hd : cut (n + 1) none [] ls
      all_goals rw [hd] at hc
      case error => contradiction
      case ok qs =>
        cases hc
        have hs : _ := ih .empty hd
        rw [Option.isSome_none, unfencedFrom_false hf, List.filter_append, List.map_append]
        exact h.headings_sublist.append (hs.trans (List.sublist_cons_self _ _))

theorem headingTexts_map_ofText (ps : List Text) :
    headingTexts (ps.map Block.ofText) = ps.filter (Block.kindOf · = .heading) := by
  rw [headingTexts, List.filter_map, List.map_map]
  exact List.map_id' _

theorem headingTexts_sublist (h : blocks x = .ok bs) :
    (headingTexts bs).Sublist ((unfenced (lines x)).map trim) := by
  rw [blocks] at h
  cases hp : paragraphs x
  all_goals rw [hp] at h
  case error => contradiction
  case ok ps =>
    cases h
    rw [headingTexts_map_ofText, unfenced_eq]
    exact cut_headings_sublist .empty hp

namespace Contents

theorem map_text_entries (hs : List Text) : (entries hs).map (·.text) = hs.map Heading.content :=
  map_entries (fun _ _ => rfl) hs

theorem find?_entries (hs : List Text) (heading : Text) :
    (entries hs).find? (·.text = heading) =
      ((hs.map Heading.content).idxOf? heading).bind fun i => (entries hs)[i]? := by
  rw [List.find?_eq_bind_findIdx?_getElem?, ← map_text_entries, List.idxOf?, List.findIdx?_map]
  simp only [Function.comp_def, beq_eq_decide]

theorem find?_entries_eq_none_iff :
    (entries hs).find? (·.text = heading) = none ↔ ∀ h ∈ hs, Heading.content h ≠ heading := by
  rw [← List.forall_mem_map (P := (· ≠ heading)), ← map_text_entries, List.forall_mem_map,
    List.find?_eq_none]
  simp only [decide_eq_true_eq, ne_eq]

theorem exists_of_getElem?_entries {i : Nat} {e : Entry} (he : (entries hs)[i]? = some e) :
    ∃ h a, hs[i]? = some h ∧ e = ⟨max (Heading.level h) 1, Heading.content h, a⟩ := by
  rw [entries, List.getElem?_zipWith_eq_some] at he
  obtain ⟨h, a, hh, _, he⟩ := he
  exact ⟨h, a, hh, he.symm⟩

-- The line of the contents with the link to an address.
def lineOf (level : Nat) (href text : Text) : Text :=
  spaces (2 * (level - 1)) ++ "- " ++ ("<a href=\"" ++ href ++ "\">" ++ text ++ "</a>")

theorem lineOf_injective (level : Nat) (text : Text) :
    Function.Injective fun href => lineOf level href text := by
  intro x y h
  simpa [lineOf] using h

theorem item_eq_lineOf (target : Text) (e : Entry) :
    e.item target = lineOf e.level (e.href target) e.text := rfl

theorem content_of_idxOf? {i : Nat} {h : Text}
    (hi : (hs.map Heading.content).idxOf? heading = some i) (hh : hs[i]? = some h) :
    Heading.content h = heading := by
  have ⟨hl, he, _⟩ := List.idxOf?_eq_some_iff.mp hi
  have hm : (hs.map Heading.content)[i]? = some (Heading.content h) := by
    rw [List.getElem?_map, hh]
    rfl
  rw [List.getElem?_eq_getElem hl, he] at hm
  exact (Option.some.inj hm).symm

-- The first heading with a content has the address that its line in the contents links to.
theorem find?_entries_iff {target : Text} :
    (∃ e, (entries hs).find? (·.text = heading) = some e ∧ e.href target = x) ↔
      ∃ i h, (hs.map Heading.content).idxOf? heading = some i ∧ hs[i]? = some h ∧
        (items target hs)[i]? = some (lineOf (max (Heading.level h) 1) x heading) := by
  simp only [find?_entries, Option.bind_eq_some_iff, items, List.getElem?_map,
    Option.map_eq_some_iff]
  constructor
  case mp =>
    rintro ⟨e, ⟨i, hi, he⟩, hx⟩
    obtain ⟨h, a, hh, rfl⟩ := exists_of_getElem?_entries he
    refine ⟨i, h, hi, hh, _, he, ?_⟩
    rw [item_eq_lineOf, hx, content_of_idxOf? hi hh]
  case mpr =>
    rintro ⟨i, h, hi, hh, e, he, hl⟩
    obtain ⟨g, a, hg, rfl⟩ := exists_of_getElem?_entries he
    cases hh.symm.trans hg
    rw [item_eq_lineOf, content_of_idxOf? hi hh] at hl
    exact ⟨_, ⟨i, hi, he⟩, lineOf_injective _ _ hl⟩

end Contents

namespace Collection

theorem blocks_cases (x : Text) :
    (∃ bs, blocks x = .ok bs) ∨ ∃ n, blocks x = .error (.unclosedFence n) := by
  rw [blocks, paragraphs_eq]
  cases openFence 1 none (lines x)
  case none   => exact .inl ⟨_, rfl⟩
  case some n => exact .inr ⟨n, rfl⟩

theorem find?_eq_none_iff : c.find? name = none ↔ name ∉ c.names := by
  rw [find?, List.lookup_eq_none_iff, names, List.mem_map, not_exists]
  simp only [bne_iff_ne, ne_eq, not_and]
  exact forall₂_congr fun d _ => ne_comm

theorem headings_of_blocks (h : blocks text = .ok bs) : headings text = .ok (headingTexts bs) := by
  rw [headings, h]
  rfl

theorem resolve_of_unclosed (hf : c.find? name = some text)
    (hx : blocks text = .error (.unclosedFence n)) (heading : Text) :
    c.resolve name heading = .error (.unclosedFence n) := by
  simp only [resolve, hf, headings, hx]
  rfl

theorem resolve_eq_ok_iff (hf : c.find? name = some text) (hb : blocks text = .ok bs) :
    c.resolve name heading = .ok x ↔
      ∃ e, (Contents.entries (headingTexts bs)).find? (·.text = heading) = some e ∧
        e.href (fileOf name) = x := by
  rw [resolve_eq hf (headings_of_blocks hb)]
  cases (Contents.entries (headingTexts bs)).find? (·.text = heading) <;> simp

theorem resolve_eq_error_iff {e : Error} (hf : c.find? name = some text)
    (hb : blocks text = .ok bs) :
    c.resolve name heading = .error e ↔
      e = .missingHeading name heading ∧
        ∀ b ∈ bs, b.kind = .heading → Heading.content b.text ≠ heading := by
  have hn : (Contents.entries (headingTexts bs)).find? (·.text = heading) = none ↔
      ∀ b ∈ bs, b.kind = .heading → Heading.content b.text ≠ heading := by
    rw [Contents.find?_entries_eq_none_iff, headingTexts, List.forall_mem_map]
    simp only [List.mem_filter, decide_eq_true_eq, and_imp]
  rw [resolve_eq hf (headings_of_blocks hb), ← hn]
  cases (Contents.entries (headingTexts bs)).find? (·.text = heading) <;> simp [eq_comm]

theorem resolve_missingDocument_iff :
    c.resolve name heading = .error (.missingDocument name) ↔ name ∉ c.names := by
  rw [← find?_eq_none_iff]
  cases hf : c.find? name
  case none      => exact iff_of_true (by rw [resolve, hf]; rfl) rfl
  case some text =>
    refine iff_of_false (fun h => ?_) (Option.some_ne_none text)
    cases blocks_cases text
    case inl hb =>
      obtain ⟨bs, hb⟩ := hb
      obtain ⟨he, _⟩ := (resolve_eq_error_iff hf hb).mp h
      contradiction
    case inr hb =>
      obtain ⟨n, hb⟩ := hb
      rw [resolve_of_unclosed hf hb] at h
      cases h

theorem resolve_unclosedFence_iff (hf : c.find? name = some text) :
    c.resolve name heading = .error (.unclosedFence n) ↔
      blocks text = .error (.unclosedFence n) := by
  cases blocks_cases text
  case inl hb =>
    have ⟨bs, hb⟩ := hb
    rw [resolve_eq_error_iff hf hb, hb]
    simp
  case inr hb =>
    have ⟨m, hb⟩ := hb
    rw [resolve_of_unclosed hf hb, hb]
    simp

-- An address is not found because the document is missing, or else because a fence is left open in
-- it, or else because no heading has the content. Otherwise it is the one that the contents of the
-- document link to from the first heading with the content. No heading comes from fenced code.
theorem resolve_agrees (c : Collection) (name heading : Text) :
    (c.resolve name heading = .error (.missingDocument name) ↔ name ∉ c.names) ∧
      ∀ text, c.find? name = some text →
        (∀ n, c.resolve name heading = .error (.unclosedFence n) ↔
          blocks text = .error (.unclosedFence n)) ∧
        ((∃ bs, blocks text = .ok bs) ∨ ∃ n, blocks text = .error (.unclosedFence n)) ∧
        ∀ bs, blocks text = .ok bs →
          (c.resolve name heading = .error (.missingHeading name heading) ↔
            ∀ b ∈ bs, b.kind = .heading → Heading.content b.text ≠ heading) ∧
          (∀ x, c.resolve name heading = .ok x ↔
            ∃ i h, ((headingTexts bs).map Heading.content).idxOf? heading = some i ∧
              (headingTexts bs)[i]? = some h ∧
              (Contents.items (fileOf name) (headingTexts bs))[i]? =
                some (Contents.lineOf (max (Heading.level h) 1) x heading)) ∧
          outlineOf name text =
            .ok (joinLines (Contents.items (fileOf name) (headingTexts bs))) ∧
          (headingTexts bs).Sublist ((unfenced (lines text)).map trim) := by
  refine ⟨resolve_missingDocument_iff, fun text hf => ?_⟩
  refine ⟨fun n => resolve_unclosedFence_iff hf, blocks_cases text, fun bs hb => ?_⟩
  refine ⟨?_, fun x => ?_, outlineOf_eq (headings_of_blocks hb) name, headingTexts_sublist hb⟩
  · exact (resolve_eq_error_iff hf hb).trans (and_iff_right rfl)
  · exact (resolve_eq_ok_iff hf hb).trans Contents.find?_entries_iff

theorem resolve_agrees_fenced :
    let text : Text := "# A\n\n\x60\x60\x60\n# B\n\x60\x60\x60\n\n## A"
    let c : Collection := ⟨[("d", text)]⟩
    let bs : List Block :=
      [⟨.heading, "# A"⟩, ⟨.code, "\x60\x60\x60\n# B\n\x60\x60\x60"⟩, ⟨.heading, "## A"⟩]
    c.find? "d" = some text ∧ blocks text = .ok bs ∧
      (c.resolve "d" "B" = .error (.missingHeading "d" "B") ↔
        ∀ b ∈ bs, b.kind = .heading → Heading.content b.text ≠ "B".toList) ∧
      c.resolve "d" "B" = .error (.missingHeading "d" "B") ∧
      (∃ i h, ((headingTexts bs).map Heading.content).idxOf? "A".toList = some i ∧
        (headingTexts bs)[i]? = some h ∧
        (Contents.items (fileOf "d") (headingTexts bs))[i]? =
          some (Contents.lineOf (max (Heading.level h) 1) "d.md#a" "A")) ∧
      c.resolve "d" "A" = .ok "d.md#a".toList := by
  intro text c bs
  have hf : c.find? "d" = some text := by decide +kernel
  have hb : blocks text = .ok bs := by decide +kernel
  have ⟨hn, hx, _, _⟩ := ((resolve_agrees c "d" "B").right text hf).right.right bs hb
  have ⟨_, ha, _, _⟩ := ((resolve_agrees c "d" "A").right text hf).right.right bs hb
  have hr : c.resolve "d" "A" = .ok "d.md#a".toList := by decide +kernel
  exact ⟨hf, hb, hn, hn.mpr (by decide +kernel), (ha _).mp hr, hr⟩

end Collection

end DocPress.Markdown
