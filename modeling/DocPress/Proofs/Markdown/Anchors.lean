import Mathlib.Data.List.Nodup
import DocPress.Markdown.Collection

-- When anchors tell headings apart. A base is numbered by its own repetitions only, so that two
-- anchors fall together where one heading has for its base another base with a number behind it.

namespace DocPress.Markdown

open Text

variable {a b c h x y name heading text : Text} {hs seen : List Text} {k l : Nat}

-- The last hyphen of a numbered base stands in front of the number.
theorem append_hyphen_injective (hx : '-' ∉ x) (hy : '-' ∉ y) (h : b ++ '-' :: x = c ++ '-' :: y) :
    b = c ∧ x = y := by
  cases List.append_eq_append_iff.mp h
  case' inl h => have ⟨z, hc, hz⟩ := h
  case' inr h => have ⟨z, hc, hz⟩ := h
  all_goals
    cases z
    case nil => simp_all
    case cons d z =>
      simp only [List.cons_append, List.cons.injEq] at hz
      simp [hz.right] at hx hy

namespace Anchor

-- The bases of headings, each with the number of times that it came before.
def counted (seen : List Text) : List Text → List (Text × Nat)
  | []      => []
  | h :: hs => (base h, seen.count (base h)) :: counted (base h :: seen) hs

-- A heading has the numbered anchor of a repeated base for its own base.
def Clashing (headings : List Text) : Prop :=
  ∃ h ∈ headings, ∃ g ∈ headings, ∃ k, 0 < k ∧ k < (headings.map base).count (base g) ∧
    base h = numbered (base g) k

theorem following_eq_map (seen hs : List Text) :
    following seen hs = (counted seen hs).map fun p => numbered p.1 p.2 := by
  induction hs generalizing seen
  case nil          => rfl
  case cons h hs ih => simp [following, counted, ih]

theorem length_following (seen hs : List Text) : (following seen hs).length = hs.length := by
  induction hs generalizing seen
  case nil          => rfl
  case cons h hs ih => simp [following, ih]

theorem length_ofHeadings (hs : List Text) : (ofHeadings hs).length = hs.length :=
  length_following [] hs

theorem mem_counted_iff :
    (b, k) ∈ counted seen hs ↔ seen.count b ≤ k ∧ k < seen.count b + (hs.map base).count b := by
  induction hs generalizing seen
  case nil => simp [counted]
  case cons h hs ih =>
    simp only [counted, List.mem_cons, Prod.mk.injEq, ih, List.map_cons, List.count_cons]
    by_cases hb : base h = b
    case pos => simp [hb]; omega
    case neg => simp [hb, Ne.symm hb]

theorem nodup_counted (seen hs : List Text) : (counted seen hs).Nodup := by
  induction hs generalizing seen
  case nil => exact List.nodup_nil
  case cons h hs ih =>
    refine List.nodup_cons.mpr ⟨fun hm => ?_, ih _⟩
    have hk := (mem_counted_iff.mp hm).left
    rw [List.count_cons_self] at hk
    exact Nat.not_succ_le_self _ hk

theorem numbered_succ (b : Text) (k : Nat) :
    numbered b (k + 1) = b ++ '-' :: decimal (k + 1) := by
  simp [numbered]

-- Two anchors are the same if base and number are, or if one of the bases ends in a number.
theorem numbered_eq_numbered (h : numbered b k = numbered c l) :
    (b = c ∧ k = l) ∨ (0 < k ∧ c = numbered b k) ∨ (0 < l ∧ b = numbered c l) := by
  match k, l with
  | 0, 0         => exact .inl ⟨h, rfl⟩
  | k + 1, 0     => exact .inr (.inl ⟨k.succ_pos, h.symm⟩)
  | 0, l + 1     => exact .inr (.inr ⟨l.succ_pos, h⟩)
  | k + 1, l + 1 =>
    simp only [numbered_succ] at h
    have ⟨hb, hk⟩ := append_hyphen_injective (not_mem_decimal rfl) (not_mem_decimal rfl) h
    exact .inl ⟨hb, decimal_injective hk⟩

theorem exists_of_count_pos (hb : 0 < (hs.map base).count b) : ∃ h ∈ hs, base h = b :=
  List.mem_map.mp (List.count_pos_iff.mp hb)

theorem count_base_pos (hh : h ∈ hs) : 0 < (hs.map base).count (base h) :=
  List.count_pos_iff.mpr (List.mem_map_of_mem hh)

theorem clashing_of_numbered_eq (hb : 0 < (hs.map base).count b)
    (hc : k < (hs.map base).count c) (hk : 0 < k) (he : b = numbered c k) : Clashing hs := by
  have ⟨h, hh, hhb⟩ := exists_of_count_pos hb
  have ⟨g, hg, hgc⟩ := exists_of_count_pos (Nat.zero_lt_of_lt hc)
  exact ⟨h, hh, g, hg, k, hk, hgc ▸ hc, hhb ▸ hgc ▸ he⟩

-- The anchors are pairwise different unless headings clash.
theorem nodup_iff_not_clashing : (ofHeadings hs).Nodup ↔ ¬Clashing hs := by
  have hm : ∀ b k, (b, k) ∈ counted [] hs ↔ k < (hs.map base).count b := by
    simp [mem_counted_iff]
  simp only [ofHeadings, following_eq_map, List.nodup_map_iff_inj_on (nodup_counted [] hs)]
  constructor
  case mp =>
    intro hn ⟨h, hh, g, hg, k, hk, hc, he⟩
    have h := hn _ ((hm (base h) 0).mpr (count_base_pos hh)) _ ((hm (base g) k).mpr hc) he
    exact Nat.ne_of_lt hk (congrArg Prod.snd h)
  case mpr =>
    intro hn ⟨b, k⟩ hb ⟨c, l⟩ hc he
    have hb := (hm b k).mp hb
    have hc := (hm c l).mp hc
    rcases numbered_eq_numbered he with ⟨rfl, rfl⟩ | ⟨hk, hcb⟩ | ⟨hl, hbc⟩
    · rfl
    · exact absurd (clashing_of_numbered_eq (Nat.zero_lt_of_lt hc) hb hk hcb) hn
    · exact absurd (clashing_of_numbered_eq (Nat.zero_lt_of_lt hb) hc hl hbc) hn

end Anchor

namespace Contents

-- What an entry has from its heading.
theorem map_entries {α : Type} {F : Entry → α} {g : Text → α}
    (h : ∀ x a, F ⟨max (Heading.level x) 1, Heading.content x, a⟩ = g x) (hs : List Text) :
    (entries hs).map F = hs.map g := by
  have hl : hs.length = (Anchor.ofHeadings (hs.map Heading.content)).length := by
    rw [Anchor.length_ofHeadings, List.length_map]
  rw [entries, ← List.map_uncurry_zip_eq_zipWith, List.map_map]
  calc (hs.zip _).map _
    _ = (hs.zip _).map (g ∘ Prod.fst) := List.map_congr_left fun p _ => h p.1 p.2
    _ = hs.map g                      := by rw [← List.map_map, List.map_fst_zip (Nat.le_of_eq hl)]

theorem map_anchor_entries (hs : List Text) :
    (entries hs).map (·.anchor) = Anchor.ofHeadings (hs.map Heading.content) := by
  have hl : (Anchor.ofHeadings (hs.map Heading.content)).length = hs.length := by
    rw [Anchor.length_ofHeadings, List.length_map]
  rw [entries, ← List.map_uncurry_zip_eq_zipWith, List.map_map]
  exact List.map_snd_zip (Nat.le_of_eq hl)

theorem href_injective (target : Text) :
    Function.Injective fun anchor => target ++ "#".toList ++ anchor :=
  fun _ _ h => List.append_cancel_left h

theorem nodup_href_iff (target : Text) (hs : List Text) :
    ((entries hs).map (·.href target)).Nodup ↔ ¬Anchor.Clashing (hs.map Heading.content) := by
  have hm : (entries hs).map (·.href target) =
      ((entries hs).map (·.anchor)).map fun anchor => target ++ "#".toList ++ anchor := by
    rw [List.map_map]
    rfl
  rw [hm, List.nodup_map_iff (href_injective target), map_anchor_entries,
    Anchor.nodup_iff_not_clashing]

end Contents

namespace Collection

variable {c : Collection}

theorem resolve_eq (hf : c.find? name = some text) (hx : headings text = .ok hs) (heading : Text) :
    c.resolve name heading =
      match (Contents.entries hs).find? (·.text = heading) with
      | none   => .error (.missingHeading name heading)
      | some e => .ok (e.href (fileOf name)) := by
  simp only [resolve, hf, hx, bind, Except.bind]
  cases (Contents.entries hs).find? (·.text = heading) <;> rfl

theorem exists_of_resolve_eq_ok (hf : c.find? name = some text) (hx : headings text = .ok hs)
    (hr : c.resolve name heading = .ok x) :
    ∃ e ∈ Contents.entries hs, e.href (fileOf name) = x := by
  rw [resolve_eq hf hx] at hr
  cases he : (Contents.entries hs).find? (·.text = heading)
  all_goals rw [he] at hr
  case none   => contradiction
  case some e =>
    cases hr
    exact ⟨e, List.mem_of_find?_eq_some he, rfl⟩

-- An address that a heading is resolved to belongs to one heading alone.
theorem countP_href_of_resolve (hf : c.find? name = some text)
    (hx : headings text = .ok hs) (hn : ¬Anchor.Clashing (hs.map Heading.content))
    (hr : c.resolve name heading = .ok x) :
    (Contents.entries hs).countP (·.href (fileOf name) = x) = 1 := by
  have ⟨e, he, hex⟩ := exists_of_resolve_eq_ok hf hx hr
  have hd := (Contents.nodup_href_iff (fileOf name) hs).mpr hn
  have hm : x ∈ (Contents.entries hs).map (·.href (fileOf name)) := hex ▸ List.mem_map_of_mem he
  have h := List.count_eq_one_of_mem hd hm
  rw [List.count, List.countP_map] at h
  exact .trans (List.countP_congr fun e _ => by simp) h

end Collection

-- There is an anchor for every heading. The anchors are pairwise different exactly if no heading
-- clashes with a repeated one; then every link of the contents and every address that a heading is
-- resolved to leads to one heading alone.
theorem Anchor.distinct_iff_not_clashing (titles : List Text) :
    (ofHeadings titles).length = titles.length ∧
      ((ofHeadings titles).Nodup ↔ ¬Clashing titles) ∧
      ∀ hs, hs.map Heading.content = titles →
        (∀ target, ((Contents.entries hs).map (·.href target)).Nodup ↔ ¬Clashing titles) ∧
        ∀ c : Collection, ∀ name heading text x, c.find? name = some text →
          headings text = .ok hs → ¬Clashing titles → c.resolve name heading = .ok x →
          (Contents.entries hs).countP (·.href (Collection.fileOf name) = x) = 1 := by
  refine ⟨length_ofHeadings titles, nodup_iff_not_clashing, ?_⟩
  rintro hs rfl
  constructor
  case left  => exact fun target => Contents.nodup_href_iff target hs
  case right =>
    intro c name heading text x
    exact Collection.countP_href_of_resolve

theorem Anchor.distinct_iff_not_clashing_notes :
    let c : Collection := ⟨[("api", "# API\n\n## Notes\n\n## Notes")]⟩
    let hs : List Text := ["# API", "## Notes", "## Notes"]
    headings "# API\n\n## Notes\n\n## Notes" = .ok hs ∧ ¬Clashing (hs.map Heading.content) ∧
      c.resolve "api" "Notes" = .ok "api.md#notes".toList ∧
      (Contents.entries hs).countP (·.href (Collection.fileOf "api") = "api.md#notes".toList) = 1 := by
  intro c hs
  have hx : headings "# API\n\n## Notes\n\n## Notes" = .ok hs := by decide +kernel
  have hn : ¬Clashing (hs.map Heading.content) := nodup_iff_not_clashing.mp (by decide +kernel)
  have hr : c.resolve "api" "Notes" = .ok "api.md#notes".toList := by decide +kernel
  have h := distinct_iff_not_clashing (hs.map Heading.content)
  exact ⟨hx, hn, hr, (h.right.right hs rfl).right c _ _ _ _ rfl hx hn hr⟩

-- The number of a repetition is not compared with headings that end in a number.
theorem Anchor.ofHeadings_not_nodup :
    ofHeadings ["A", "A", "A 1"] = ["a", "a-1", "a-1"] ∧ ¬(ofHeadings ["A", "A", "A 1"]).Nodup := by
  decide +kernel

end DocPress.Markdown
