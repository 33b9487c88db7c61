import DocPress.Proofs.Docstring.Definitions

-- Descriptions that are indented in one way or another. Only a space at the start of a line keeps
-- it from being a definition, so descriptions behind a tab are read as further variables.

namespace DocPress.Docstring

open Text

-- Spaces and tabs, at least one of them.
structure Indentation (p : Text) : Prop where
  ne_nil   : p ≠ []
  isIndent : ∀ c ∈ p, isIndent c

-- A line of a list of variables, where descriptions stand without their indentation.
inductive Line where
  | definition (l : Text)
  | description (l : Text)

namespace Line

def content : Line → Text
  | definition l | description l => l

def describes : Line → Bool
  | definition _  => false
  | description _ => true

def map (f : Text → Text) : Line → Line
  | definition l  => definition (f l)
  | description l => description (f l)

-- The line as it is written, with an indentation in front of descriptions.
def write (p : Text) : Line → Text
  | definition l  => l
  | description l => p ++ l

structure Proper (r : Line) : Prop where
  lineFeed : '\n' ∉ r.content
  notBlank : blank r.content = false
  defines  : ∀ l, r = definition l → defines l

end Line

variable {p q w : Text} {r : Line} {rs : List Line} {v : Variable} {vs : List Variable} {n : Nat}
  {vocabulary : Vocabulary}

def Variable.listing (v : Variable) : List Line :=
  .definition v.line :: (rows v.doc).map .description

theorem Variable.entry_eq (p : Text) (v : Variable) : v.entry p = v.listing.map (Line.write p) := by
  rw [entry, listing, List.map_cons, List.map_map]
  rfl

theorem Variable.Listable.proper (hv : v.Listable) : ∀ r ∈ v.listing, r.Proper := by
  refine List.forall_mem_cons.mpr ⟨?_, List.forall_mem_map.mpr fun l hl => ?_⟩
  · refine ⟨hv.lineFeed_not_mem_line, hv.not_blank_line, fun l hl => ?_⟩
    cases hl
    exact hv.defines_line
  · have ⟨hs, hb⟩ := of_mem_rows (hv.doc.imp_right And.left) hl
    exact ⟨not_mem_of_mem_splitLines hs, hb, fun _ => Line.noConfusion⟩

-- A carriage return that is taken off a line leaves it what it is.

namespace Line.Proper

theorem write_map (h : r.Proper) (p : Text) :
    (r.map (dropEnd ['\r'])).write p = dropEnd ['\r'] (r.write p) := by
  cases r
  case definition  => rfl
  case description => exact (dropEnd_append_of_ne_nil _ p (ne_nil_of_not_blank h.notBlank)).symm

theorem map (h : r.Proper) : (r.map (dropEnd ['\r'])).Proper := by
  have hc : (r.map (dropEnd ['\r'])).content = dropEnd ['\r'] r.content := by cases r <;> rfl
  have hb := (blank_dropEnd r.content).trans h.notBlank
  have ⟨t, ht⟩ := prefix_dropEnd r.content ['\r']
  refine ⟨fun hf => h.lineFeed (ht ▸ List.mem_append_left t (hc ▸ hf)), hc ▸ hb, fun l hl => ?_⟩
  cases r
  case description => contradiction
  case definition k =>
    cases hl
    have hd := h.defines k rfl
    have hh : (dropEnd ['\r'] k ++ t).head? = (dropEnd ['\r'] k).head? :=
      List.head?_append_of_ne_nil _ (ne_nil_of_not_blank hb)
    rw [content] at ht
    rwa [Docstring.defines, ← hh, ht]

theorem lineFeed_not_mem_write (h : r.Proper) (hp : ∀ c ∈ p, isIndent c) : '\n' ∉ r.write p := by
  cases r
  case definition => exact h.lineFeed
  case description =>
    exact List.not_mem_append (not_mem_of_isIndent hp rfl) h.lineFeed

theorem not_blank_write (h : r.Proper) (p : Text) : blank (r.write p) = false := by
  cases r
  case definition  => exact h.notBlank
  case description => exact not_blank_append h.notBlank

end Line.Proper

theorem describes_map (f : Text → Text) (r : Line) : (r.map f).describes = r.describes := by
  cases r <;> rfl

-- The lines that are read, whatever the indentation is.
theorem exists_lines_write (h : ∀ r ∈ rs, r.Proper) :
    ∃ rs' : List Line, (∀ r ∈ rs', r.Proper) ∧ rs'.map Line.describes = rs.map Line.describes ∧
      ∀ p, (∀ c ∈ p, isIndent c) →
        (lines ((rs.map (Line.write p)).flatMap ('\n' :: ·))).filter (· ≠ []) =
          rs'.map (Line.write p) := by
  rcases List.eq_nil_or_concat rs with rfl | ⟨ks, k, rfl⟩
  case inl => exact ⟨[], List.forall_mem_nil _, rfl, fun _ _ => rfl⟩
  case inr =>
    rw [List.concat_eq_append] at h ⊢
    have ⟨hks, hk⟩ := List.forall_mem_append.mp h
    refine ⟨ks.map (Line.map (dropEnd ['\r'])) ++ [k], ?_, ?_, fun p hp => ?_⟩
    · exact List.forall_mem_append.mpr ⟨List.forall_mem_map.mpr fun r hr => (hks r hr).map, hk⟩
    · simp [Function.comp_def, describes_map]
    · have hw : (ks ++ [k]).map (Line.write p) = ks.map (Line.write p) ++ [k.write p] :=
        List.map_append
      have hf : ∀ l ∈ (ks ++ [k]).map (Line.write p), '\n' ∉ l :=
        List.forall_mem_map.mpr fun r hr => (h r hr).lineFeed_not_mem_write hp
      have hb : ∀ l ∈ (ks ++ [k]).map (Line.write p), blank l = false :=
        List.forall_mem_map.mpr fun r hr => (h r hr).not_blank_write p
      rw [hw] at hf hb ⊢
      rw [filter_lines_concat hf hb, List.map_append, List.map_map, List.map_map]
      exact congrArg (· ++ _) (List.map_congr_left fun r hr => ((hks r hr).write_map p).symm)

-- The variables that are read from lines.
def readLines (ls : List Text) : List Variable :=
  (definitions ls).map fun (l, doc) => .read l (joinLines doc)

theorem exists_readVariables_write (h : ∀ r ∈ rs, r.Proper) :
    ∃ rs' : List Line, (∀ r ∈ rs', r.Proper) ∧ rs'.map Line.describes = rs.map Line.describes ∧
      ∀ p, (∀ c ∈ p, isIndent c) →
        readVariables ((rs.map (Line.write p)).flatMap ('\n' :: ·)) =
          readLines (rs'.map (Line.write p)) := by
  have ⟨rs', hr, hd, hl⟩ := exists_lines_write h
  refine ⟨rs', hr, hd, fun p hp => ?_⟩
  rw [readVariables, hl p hp, readLines]
  split
  case isFalse => rfl
  case isTrue hb =>
    -- No line is blank, so there is none.
    rw [blank_flatMap, List.all_eq_true] at hb
    have hn : rs = [] := List.eq_nil_iff_forall_not_mem.mpr fun r hm => by
      have hb := hb _ (List.mem_map_of_mem hm)
      rw [(h r hm).not_blank_write p] at hb
      contradiction
    rw [hn, List.map_nil, List.map_eq_nil_iff] at hd
    rw [hd]
    rfl

-- What is read does not depend on the indentation as long as the same lines are definitions.

theorem read_append (hp : ∀ c ∈ p, isIndent c) (l x : Text) :
    Variable.read (p ++ l) x = Variable.read l x := by
  have hc : ∀ c ∈ p, decide (c ≠ ':') := fun c hc =>
    decide_eq_true fun he => not_mem_of_isIndent hp rfl (he ▸ hc)
  rw [Variable.read_eq, Variable.read_eq, List.takeWhile_append_of_pos hc, trim_append_left (blank_of_isIndent hp),
    List.dropWhile_append_of_pos hc]

theorem read_write (hp : ∀ c ∈ p, isIndent c) (r : Line) (x : Text) :
    Variable.read (r.write p) x = Variable.read r.content x := by
  cases r
  case definition  => rfl
  case description => exact read_append hp _ x

-- The variables that are read from lines, where descriptions are told apart from definitions or not.
def readAs (apart : Bool) : List Line → List Variable
  | []      => []
  | r :: rs =>
    if r.describes && apart then readAs apart rs
    else
      let doc := (rs.takeWhile fun r => r.describes && apart).map Line.content
      .read r.content (joinLines doc) :: readAs apart rs

def spaced (p : Text) : Bool :=
  p.head? = some ' '

theorem defines_write (h : r.Proper) (hn : p ≠ []) :
    defines (r.write p) = !(r.describes && spaced p) := by
  cases r
  case definition l => exact h.defines l rfl
  case description l => simp [Line.write, Line.describes, defines, spaced, hn]

theorem takeWhile_write (h : ∀ r ∈ rs, r.Proper) (hn : p ≠ []) :
    (rs.map (Line.write p)).takeWhile (!defines ·) =
      (rs.takeWhile fun r => r.describes && spaced p).map (Line.write p) := by
  induction rs
  case nil => rfl
  case cons r rs ih =>
    have ⟨hr, h⟩ := List.forall_mem_cons.mp h
    rw [List.map_cons, List.takeWhile_cons, List.takeWhile_cons, defines_write hr hn, Bool.not_not]
    split
    case isTrue  => rw [ih h, List.map_cons]
    case isFalse => rfl

theorem dedent_write (h : ∀ r ∈ rs, r.Proper) (hd : ∀ r ∈ rs, r.describes)
    (hp : ∀ c ∈ p, isIndent c) :
    dedent (joinLines (rs.map (Line.write p))) = dedent (joinLines (rs.map Line.content)) := by
  have hw : rs.map (Line.write p) = (rs.map Line.content).map (p ++ ·) := by
    rw [List.map_map]
    refine List.map_congr_left fun r hr => ?_
    cases r
    case definition  => exact absurd (hd _ hr) Bool.false_ne_true
    case description => rfl
  rw [hw]
  exact dedent_joinLines_append hp (List.forall_mem_map.mpr fun r hr => (h r hr).lineFeed)
    (List.forall_mem_map.mpr fun r hr => (h r hr).notBlank)

theorem read_write_joinLines (h : ∀ r ∈ rs, r.Proper) (hd : ∀ r ∈ rs, r.describes)
    (hp : ∀ c ∈ p, isIndent c) (r : Line) :
    Variable.read (r.write p) (joinLines (rs.map (Line.write p))) =
      Variable.read r.content (joinLines (rs.map Line.content)) := by
  rw [read_write hp, Variable.read_eq, dedent_write h hd hp, Variable.read_eq]

theorem describes_of_mem_takeWhile {a : Bool} (h : r ∈ rs.takeWhile fun r => r.describes && a) :
    r.describes := by
  have h := List.mem_takeWhile_imp h
  exact (Bool.and_eq_true_iff.mp h).left

-- All that matters about the indentation is whether it begins with a space.
theorem readLines_write (h : ∀ r ∈ rs, r.Proper) (hn : p ≠ []) (hp : ∀ c ∈ p, isIndent c) :
    readLines (rs.map (Line.write p)) = readAs (spaced p) rs := by
  induction rs
  case nil => rfl
  case cons r rs ih =>
    have ⟨hr, h⟩ := List.forall_mem_cons.mp h
    rw [readLines, List.map_cons, definitions, defines_write hr hn, readAs]
    cases hs : r.describes && spaced p
    case true  => exact ih h
    case false =>
      have hs := List.takeWhile_sublist (l := rs) fun k => k.describes && spaced p
      have hd := read_write_joinLines (fun k hk => h k (hs.mem hk))
        (fun _ => describes_of_mem_takeWhile) hp r
      rw [Bool.not_false, if_pos rfl, takeWhile_write h hn, List.map_cons]
      exact congrArg₂ List.cons hd (ih h)

theorem length_readAs (apart : Bool) (rs : List Line) :
    (readAs apart rs).length = rs.countP fun r => !(r.describes && apart) := by
  induction rs
  case nil => rfl
  case cons r rs ih =>
    rw [readAs, List.countP_cons, ← ih]
    split
    case isTrue hr  => simp [hr]
    case isFalse hr => simp [hr]

theorem readAs_eq (h : ∀ r ∈ rs, r.describes = false) (a b : Bool) : readAs a rs = readAs b rs := by
  induction rs
  case nil => rfl
  case cons r rs ih =>
    have ⟨hr, h⟩ := List.forall_mem_cons.mp h
    have ht : ∀ c, (rs.takeWhile fun r => r.describes && c) = [] := fun c =>
      List.takeWhile_eq_nil_iff.mpr fun hl => by simp [h _ (List.getElem_mem hl)]
    simp [readAs, hr, ht, ih h]

-- Telling descriptions from definitions makes a difference wherever there are any.
theorem readAs_eq_iff {a b : Bool} :
    readAs a rs = readAs b rs ↔ a = b ∨ ∀ r ∈ rs, r.describes = false := by
  constructor
  case mpr => exact fun h => h.elim (fun h => h ▸ rfl) fun h => readAs_eq h a b
  case mp =>
    intro h
    by_cases hab : a = b
    case pos => exact .inl hab
    case neg =>
      have hl := congrArg List.length h
      rw [length_readAs, length_readAs] at hl
      have hl : rs.countP (fun r => !r.describes) = rs.length := by
        cases a <;> cases b <;> simp_all
      exact .inr (by simpa [List.countP_eq_length] using hl)

-- An indentation begins with a space or with a tab.
theorem Indentation.head?_eq (hp : Indentation p) : p.head? = some ' ' ∨ p.head? = some '\t' := by
  have ⟨c, _, h⟩ := List.exists_cons_of_ne_nil hp.ne_nil
  have hc := hp.isIndent c (h ▸ List.mem_cons_self)
  simpa [h, Text.isIndent] using hc

theorem spaced_eq_iff (hp : Indentation p) (hq : Indentation q) :
    spaced p = spaced q ↔ p.head? = q.head? := by
  rcases hp.head?_eq with h | h <;> rcases hq.head?_eq with h' | h' <;> simp [spaced, h, h']

theorem listing_proper (hv : ∀ v ∈ vs, v.Listable) : ∀ r ∈ vs.flatMap Variable.listing, r.Proper := by
  intro r hr
  have ⟨v, hm, hr⟩ := List.mem_flatMap.mp hr
  exact (hv v hm).proper r hr

theorem flatMap_entry (p : Text) (vs : List Variable) :
    vs.flatMap (Variable.entry p) = (vs.flatMap Variable.listing).map (Line.write p) := by
  rw [List.map_flatMap]
  exact List.flatMap_congr fun v _ => v.entry_eq p

theorem describes_listing_iff :
    (∀ r ∈ vs.flatMap Variable.listing, r.describes = false) ↔ ∀ v ∈ vs, v.doc = [] := by
  have hv : ∀ v : Variable, (∀ r ∈ v.listing, r.describes = false) ↔ v.doc = [] := by
    intro v
    simp [Variable.listing, Line.describes, ← List.eq_nil_iff_forall_not_mem, rows_eq_nil_iff]
  rw [List.forall_mem_flatMap]
  exact forall₂_congr fun v _ => hv v

theorem countP_listing (vs : List Variable) :
    (vs.flatMap Variable.listing).countP (!·.describes) = vs.length := by
  induction vs
  case nil => rfl
  case cons v vs ih =>
    have hv : v.listing.countP (!·.describes) = 1 := by
      simp [Variable.listing, Line.describes, List.countP_eq_zero]
    rw [List.flatMap_cons, List.countP_append, hv, ih, List.length_cons, Nat.add_comm]

-- The variables that are read of a list, whatever its descriptions are indented with.
theorem exists_readParagraph (hw : w ∈ vocabulary.varlists) (hs : w ∉ vocabulary.sections)
    (hf : '\n' ∉ w) (hn : 3 ≤ n) (hv : ∀ v ∈ vs, v.Listable) :
    ∃ rs : List Line, rs.map Line.describes = (vs.flatMap Variable.listing).map Line.describes ∧
      ∀ p, Indentation p →
        readParagraph vocabulary (headed w n (vs.flatMap (Variable.entry p))) =
          .ok (.variableList w (readAs (spaced p) rs)) := by
  have ⟨rs, hr, hd, hrs⟩ := exists_readVariables_write (listing_proper hv)
  refine ⟨rs, hd, fun p hp => ?_⟩
  rw [readParagraph_headed hf hw hs hn, flatMap_entry, hrs p hp.isIndent,
    readLines_write hr hp.ne_nil hp.isIndent]

theorem length_readAs_listing (hd : rs.map Line.describes =
      (vs.flatMap Variable.listing).map Line.describes) (p : Text) :
    (readAs (spaced p) rs).length =
      if p.head? = some ' ' then vs.length else (vs.flatMap (Variable.entry p)).length := by
  rw [length_readAs]
  split
  case isTrue h =>
    have hc := congrArg (List.countP (!·)) hd
    rw [List.countP_map, List.countP_map] at hc
    simpa [spaced, h, Function.comp_def] using hc.trans (countP_listing vs)
  case isFalse h =>
    have hl := congrArg List.length hd
    rw [flatMap_entry, List.length_map]
    simpa [spaced, h] using hl

theorem listed_flatMap_entry (hv : ∀ v ∈ vs, v.Writable) (hp : IsMargin p) :
    Listed vs (vs.flatMap (Variable.entry p)) := by
  induction vs
  case nil => exact .nil
  case cons v vs ih =>
    have ⟨h, hv⟩ := List.forall_mem_cons.mp hv
    exact .cons h hp (ih hv)

-- Two indentations give the same variables if and only if both begin with a space or both with a
-- tab, unless there are no descriptions. Behind a space the variables are read that were written.
-- Behind a tab every line of a description is a variable of its own.
theorem readParagraph_indented_iff (hw : w ∈ vocabulary.varlists) (hs : w ∉ vocabulary.sections)
    (hf : '\n' ∉ w) (hn : 3 ≤ n) (hv : ∀ v ∈ vs, v.Listable) (hp : Indentation p)
    (hq : Indentation q) :
    ∃ us us' : List Variable,
      readParagraph vocabulary (headed w n (vs.flatMap (Variable.entry p))) =
        .ok (.variableList w us) ∧
      readParagraph vocabulary (headed w n (vs.flatMap (Variable.entry q))) =
        .ok (.variableList w us') ∧
      us.length = (if p.head? = some ' ' then vs.length
        else (vs.flatMap (Variable.entry p)).length) ∧
      (p.head? = some ' ' → (∀ v ∈ vs, v.Writable) → us = vs) ∧
      (us = us' ↔ p.head? = q.head? ∨ ∀ v ∈ vs, v.doc = []) := by
  have ⟨rs, hd, hr⟩ := exists_readParagraph hw hs hf hn hv
  have hdoc : (∀ r ∈ rs, r.describes = false) ↔ ∀ v ∈ vs, v.doc = [] := by
    rw [← describes_listing_iff, ← List.forall_mem_map (P := (· = false)), hd, List.forall_mem_map]
  refine ⟨_, _, hr p hp, hr q hq, length_readAs_listing hd p, fun hh hv => ?_, ?_⟩
  · have hl := listed_flatMap_entry hv ⟨hh, hp.isIndent⟩
    have h := hr p hp
    rw [readParagraph_headed hf hw hs hn, hl.readVariables] at h
    cases h
    rfl
  · rw [readAs_eq_iff, spaced_eq_iff hp hq, hdoc]

theorem readParagraph_indented_iff_returns :
    let v : Variable := ⟨"x", "a : b", "One.\n\tTwo:\r\nThree."⟩
    let w : Variable := ⟨"y", "", ""⟩
    (∀ u ∈ [v, w], u.Listable) ∧ Indentation ['\t', ' '] ∧ Indentation ['\t'] ∧
      ∃ us us' : List Variable,
        readParagraph {} (headed "Returns" 3 ([v, w].flatMap (Variable.entry ['\t', ' ']))) =
          .ok (.variableList "Returns" us) ∧
        readParagraph {} (headed "Returns" 3 ([v, w].flatMap (Variable.entry ['\t']))) =
          .ok (.variableList "Returns" us') ∧
        us.length = 5 ∧ us = us' := by
  intro v w
  have hv : v.Listable :=
    ⟨by decide, by decide, by decide, by decide, by decide, .inr ⟨by decide, by decide⟩⟩
  have hw : w.Listable := ⟨by decide, by decide, by decide, by decide, by decide, .inl rfl⟩
  have h : ∀ u ∈ [v, w], u.Listable :=
    List.forall_mem_cons.mpr ⟨hv, List.forall_mem_singleton.mpr hw⟩
  have hp : Indentation ['\t', ' '] := ⟨by decide, by simp [isIndent]⟩
  have hq : Indentation ['\t'] := ⟨by decide, by simp [isIndent]⟩
  have hr : "Returns".toList ∈ ({} : Vocabulary).varlists := by decide
  obtain ⟨us, us', hu, hu', hl, -, hi⟩ :=
    readParagraph_indented_iff hr (n := 3) (by decide) (by decide) (by decide) h hp hq
  exact ⟨h, hp, hq, us, us', hu, hu', hl, hi.mpr (.inl rfl)⟩

-- A description that is indented with a tab is read as a variable.
theorem readParagraph_tab_ne_space :
    let v : Variable := ⟨"x", "", "a"⟩
    v.Listable ∧ Indentation ['\t'] ∧ Indentation [' '] ∧
      readParagraph {} (headed "Returns" 3 (v.entry ['\t'])) =
        .ok (.variableList "Returns" [⟨"x", "", ""⟩, ⟨"a", "", ""⟩]) ∧
      readParagraph {} (headed "Returns" 3 (v.entry [' '])) =
        .ok (.variableList "Returns" [⟨"x", "", "a"⟩]) := by
  intro v
  have hv : v.Listable :=
    ⟨by decide, by decide, by decide, by decide, by decide, .inr ⟨by decide, by decide⟩⟩
  have hp : Indentation ['\t'] := ⟨by decide, by simp [isIndent]⟩
  have hq : Indentation [' '] := ⟨by decide, by simp [isIndent]⟩
  exact ⟨hv, hp, hq, by decide, by decide⟩

end DocPress.Docstring
