import DocPress.Proofs.Docstring.Headings

-- The lines of a list of variables, and the variable that each of them belongs to. A line that does
-- not begin with a space defines a variable, and the lines below it describe that variable up to the
-- next definition.

namespace DocPress.Text

variable {c : Char} {x : Text}

theorem splitAt?_of_mem (h : c ∈ x) :
    splitAt? c x = some (x.takeWhile (· ≠ c), (x.dropWhile (· ≠ c)).drop 1) := by
  have ⟨a, b, hx, ha⟩ := List.eq_append_cons_of_mem h
  have hp : ∀ d ∈ a, decide (d ≠ c) := fun d hd => decide_eq_true fun he => ha (he ▸ hd)
  have hc : ∀ d ∈ (c :: b).head?, decide (d ≠ c) = false := by simp
  rw [hx, splitAt?_append ha, takeWhile_append_of_head hp hc, dropWhile_append_of_head hp hc]
  rfl

end DocPress.Text

namespace DocPress.Docstring

open Text

-- Definitions with the lines below them, as they stand in a list of lines. All lines from the first
-- definition on are taken, in their order.
structure Entries (ls : List Text) (entries : List (Text × List Text)) : Prop where
  definitions  : entries.map (·.1) = ls.filter (·.head? ≠ some ' ')
  descriptions : ∀ e ∈ entries, ∀ l ∈ e.2, l.head? = some ' '
  lines        : entries.flatMap (fun e => e.1 :: e.2) = ls.dropWhile (·.head? = some ' ')

variable {vocabulary : Vocabulary} {par : Text} {ls : List Text}
  {entries : List (Text × List Text)}

theorem map_fst_definitions (ls : List Text) : (definitions ls).map (·.1) = ls.filter defines := by
  induction ls
  case nil => rfl
  case cons l ls ih =>
    rw [definitions]
    split
    case isTrue hl  => rw [List.map_cons, ih, List.filter_cons_of_pos hl]
    case isFalse hl => rw [ih, List.filter_cons_of_neg hl]

theorem not_defines_of_mem_definitions :
    ∀ e ∈ definitions ls, ∀ l ∈ e.2, defines l = false := by
  induction ls
  case nil => exact List.forall_mem_nil _
  case cons l ls ih =>
    rw [definitions]
    split
    case isFalse => exact ih
    case isTrue =>
      refine List.forall_mem_cons.mpr ⟨fun k hk => ?_, ih⟩
      simpa using List.mem_takeWhile_imp hk

-- The lines that a definition takes are those that are passed over before the next one.
theorem flatMap_definitions (ls : List Text) :
    (definitions ls).flatMap (fun e => e.1 :: e.2) = ls.dropWhile (!defines ·) := by
  induction ls
  case nil => rfl
  case cons l ls ih =>
    rw [definitions]
    split
    case isFalse hl => rw [ih, List.dropWhile_cons_of_pos (by simp [hl])]
    case isTrue hl =>
      rw [List.flatMap_cons, ih, List.cons_append, List.takeWhile_append_dropWhile,
        List.dropWhile_cons_of_neg (by simp [hl])]

theorem definitions_dropWhile (ls : List Text) :
    definitions (ls.dropWhile (!defines ·)) = definitions ls := by
  conv_rhs => rw [← List.takeWhile_append_dropWhile (p := (!defines ·)) (l := ls)]
  exact (definitions_append (fun l hl => by simpa using List.mem_takeWhile_imp hl) _).symm

theorem definitions_flatMap
    (h : ∀ e ∈ entries, defines e.1 ∧ ∀ l ∈ e.2, defines l = false) :
    definitions (entries.flatMap fun e => e.1 :: e.2) = entries := by
  induction entries
  case nil => rfl
  case cons e entries ih =>
    have ⟨⟨hd, hl⟩, h⟩ := List.forall_mem_cons.mp h
    have hh : ∀ l ∈ (entries.flatMap fun e => e.1 :: e.2).head?, defines l := by
      match entries, h with
      | [],     _ => simp
      | e' :: _, h =>
        rintro l ⟨⟩
        exact (h e' List.mem_cons_self).left
    rw [List.flatMap_cons, List.cons_append, definitions_cons hd hl hh, ih h]

-- There is one way to give the lines to definitions.
theorem entries_iff : Entries ls entries ↔ entries = definitions ls := by
  constructor
  case mp =>
    intro h
    have hd : ∀ e ∈ entries, defines e.1 ∧ ∀ l ∈ e.2, defines l = false := by
      intro e he
      have hm : e.1 ∈ ls.filter (·.head? ≠ some ' ') := h.definitions ▸ List.mem_map_of_mem he
      exact ⟨(List.mem_filter.mp hm).right, fun l hl => by simp [defines, h.descriptions e he l hl]⟩
    have hl : entries.flatMap (fun e => e.1 :: e.2) = ls.dropWhile (!defines ·) := by
      simp [h.lines, defines]
    rw [← definitions_dropWhile, ← hl, definitions_flatMap hd]
  case mpr =>
    rintro rfl
    constructor
    case definitions  => exact map_fst_definitions ls
    case descriptions =>
      intro e he l hl
      simpa [defines] using not_defines_of_mem_definitions e he l hl
    case lines        => simp [flatMap_definitions, defines]

theorem Variable.read_eq (l doc : Text) :
    Variable.read l doc =
      ⟨trim (l.takeWhile (· ≠ ':')), trim ((l.dropWhile (· ≠ ':')).drop 1), dedent doc⟩ := by
  by_cases h : ':' ∈ l
  case pos => rw [Variable.read, splitAt?_of_mem h]
  case neg =>
    have hp : ∀ c ∈ l, decide (c ≠ ':') := fun c hc => decide_eq_true fun he => h (he ▸ hc)
    rw [Variable.read, splitAt?_eq_none h, List.takeWhile_eq_self_iff.mpr hp,
      List.dropWhile_eq_nil_iff.mpr hp]
    rfl

theorem exists_variableList (hk : kindOf vocabulary par = .variableList) :
    ∃ w n ls, splitLines par = w :: underline n :: ls ∧ 3 ≤ n ∧ w ∈ vocabulary.varlists ∧
      readParagraph vocabulary par = .ok (.variableList w (readVariables (joinLines ls))) := by
  have ⟨b, hb⟩ := exists_reads vocabulary par
  have hr := hb.readParagraph
  cases hb
  case variableList w n ls hl hn hw hs => exact ⟨w, n, ls, hl, hn, hw, hr⟩
  all_goals
    rw [readParagraph, hk] at hr
    cases hs : splitHeading par <;> rw [hs] at hr <;> cases hr

-- The variables of a list are read from its definitions, each with the lines below it. The first
-- colon of a definition separates the name from the type.
theorem readParagraph_entries (hk : kindOf vocabulary par = .variableList) :
    ∃ w n ls, splitLines par = w :: underline n :: ls ∧ 3 ≤ n ∧ w ∈ vocabulary.varlists ∧
      (blank (joinLines ls) = false →
        ∃ entries : List (Text × List Text),
          (∀ es, Entries ((lines (joinLines ls)).filter (· ≠ [])) es ↔ es = entries) ∧
          readParagraph vocabulary par = .ok (.variableList w (entries.map fun e =>
            { name := trim (e.1.takeWhile (· ≠ ':'))
              type := trim ((e.1.dropWhile (· ≠ ':')).drop 1)
              doc  := dedent (joinLines e.2) }))) := by
  have ⟨w, n, ls, hl, hn, hw, hr⟩ := exists_variableList hk
  refine ⟨w, n, ls, hl, hn, hw, fun hb => ⟨_, fun _ => entries_iff, ?_⟩⟩
  rw [hr, readVariables, if_neg (by simp [hb])]
  simp only [Variable.read_eq]

theorem readParagraph_entries_orphans :
    let par := joinLines ["Returns", "----", "  stray", "a", "", "b : c : d", "   e", " \t", "    f",
      "\tg:", "  : h", "i"]
    kindOf {} par = .variableList ∧
      readParagraph {} par = .ok (.variableList "Returns"
        [⟨"a", "", ""⟩, ⟨"b", "c : d", "e\n\n f"⟩, ⟨"g", "", ": h"⟩, ⟨"i", "", ""⟩]) := by
  intro par
  have hk : kindOf {} par = .variableList := by decide
  have ⟨w, n, ls, hl, _, _, hr⟩ := readParagraph_entries hk
  have hs : splitLines par = "Returns".toList :: "----".toList :: ["  stray", "a", "", "b : c : d",
      "   e", " \t", "    f", "\tg:", "  : h", "i"] := by decide
  obtain ⟨rfl, h⟩ := List.cons_eq_cons.mp (hs.symm.trans hl)
  obtain ⟨_, rfl⟩ := List.cons_eq_cons.mp h
  have ⟨entries, he, hr⟩ := hr (by decide)
  have he := (he [("a", []), ("b : c : d", ["   e", " \t", "    f"]), ("\tg:", ["  : h"]),
    ("i", [])]).mp ⟨by decide, by decide, by decide⟩
  rw [← he] at hr
  exact ⟨hk, hr⟩

end DocPress.Docstring
