import DocPress.Proofs.Docstring.Paragraphs
import DocPress.Proofs.Text.Margin

-- Docstrings that are written block by block are read as the blocks they were written from.

namespace DocPress.Docstring

open Text

-- The words of a vocabulary are lines with something to read on them.
def Vocabulary.Proper (vocabulary : Vocabulary) : Prop :=
  ∀ w ∈ vocabulary.sections ++ vocabulary.varlists, '\n' ∉ w ∧ blank w = false

instance (vocabulary : Vocabulary) : Decidable vocabulary.Proper :=
  List.decidableBAll (fun w => '\n' ∉ w ∧ blank w = false) _

def underline (n : Nat) : Text :=
  List.replicate n '-'

-- The lines of a text, where the empty text has none.
def rows (x : Text) : List Text :=
  if x = [] then [] else splitLines x

-- A heading, its underline and the lines below them.
def headed (heading : Text) (n : Nat) (body : List Text) : Text :=
  joinLines (heading :: underline n :: body)

-- A description is indented by a margin, which begins with a space.
def IsMargin (m : Text) : Prop :=
  m.head? = some ' ' ∧ ∀ c ∈ m, isIndent c

-- A line with something to read on it and no line end of any kind.
structure IsLine (l : Text) : Prop where
  lineFeed       : '\n' ∉ l
  carriageReturn : '\r' ∉ l
  notBlank       : blank l = false

namespace Variable

-- The variables whose name and type can be told apart, and whose description has no blank lines.
structure Listable (v : Variable) : Prop where
  name_ne_nil : v.name ≠ []
  name_trim   : trim v.name = v.name
  name_colon  : ':' ∉ v.name
  type_trim   : trim v.type = v.type
  oneLine     : '\n' ∉ v.name ++ v.type
  doc         : v.doc = [] ∨ Solid v.doc ∧ dedent v.doc = v.doc

-- The variables that can be written and read again.
structure Writable (v : Variable) : Prop where
  name_ne_nil : v.name ≠ []
  name_trim   : trim v.name = v.name
  name_colon  : ':' ∉ v.name
  type_trim   : trim v.type = v.type
  oneLine     : '\n' ∉ v.name ++ v.type
  noReturn    : '\r' ∉ v.name ++ v.type ++ v.doc
  doc         : v.doc = [] ∨ Solid v.doc ∧ dedent v.doc = v.doc

-- The line a variable is defined on.
def line (v : Variable) : Text :=
  if v.type = [] then v.name else v.name ++ " : " ++ v.type

def entry (m : Text) (v : Variable) : List Text :=
  v.line :: (rows v.doc).map (m ++ ·)

end Variable

-- The lines that variables are written on, each description with a margin of its own.
inductive Listed : List Variable → List Text → Prop
  | nil : Listed [] []
  | cons {v vs m ls} (hv : v.Writable) (hm : IsMargin m) (hl : Listed vs ls) :
    Listed (v :: vs) (v.entry m ++ ls)

-- The texts that a block can be written as.
inductive Written (vocabulary : Vocabulary) : Block → Text → Prop
  | text {x} (hx : Solid x)
    (hh : ∀ w ∈ vocabulary.sections ++ vocabulary.varlists,
      ∀ n ≥ 3, ¬[w, underline n] <+: splitLines x) :
    Written vocabulary (.text x) x
  | titled {w n x} (hw : w ∈ vocabulary.sections) (hn : 3 ≤ n)
    (hx : x = [] ∨ trim x = x ∧ Solid x) :
    Written vocabulary (.titled w x) (headed w n (rows x))
  | variableList {w n vs ls} (hw : w ∈ vocabulary.varlists) (hs : w ∉ vocabulary.sections)
    (hr : '\r' ∉ w) (hn : 3 ≤ n) (hl : Listed vs ls) :
    Written vocabulary (.variableList w vs) (headed w n ls)

variable {vocabulary : Vocabulary} {b : Block} {v : Variable} {l m w x : Text}
  {words ls xs : List Text} {bs : List Block} {vs : List Variable} {n : Nat}

theorem isUnderline_underline (hn : 3 ≤ n) : isUnderline (underline n) := by
  simp [isUnderline, underline, hn]

theorem exists_of_isUnderline (hl : isUnderline l) : ∃ n ≥ 3, l = underline n := by
  have ⟨hn, ha⟩ : 3 ≤ l.length ∧ ∀ c ∈ l, c = '-' := by simpa [isUnderline] using hl
  exact ⟨l.length, hn, List.eq_replicate_iff.mpr ⟨rfl, ha⟩⟩

theorem underline_eq_cons (hn : 3 ≤ n) : underline n = '-' :: underline (n - 1) := by
  rw [underline, ← Nat.sub_add_cancel (Nat.le_of_succ_le hn), List.replicate_succ]
  rfl

theorem lineFeed_not_mem_underline (n : Nat) : '\n' ∉ underline n := fun h =>
  absurd (List.eq_of_mem_replicate h) (by decide)

theorem headed_eq (w : Text) (n : Nat) (ls : List Text) :
    headed w n ls = w ++ '\n' :: (underline n ++ ls.flatMap ('\n' :: ·)) := by
  rw [headed, joinLines_cons_eq, List.flatMap_cons, List.cons_append]

-- Whether a heading is recognised is up to the first two lines.

theorem hasHeading_lines (hl : '\n' ∉ l) (hm : '\n' ∉ m) (words ls : List Text) :
    hasHeading words (l ++ '\n' :: (m ++ ls.flatMap ('\n' :: ·))) =
      (words.contains l && isUnderline m) := by
  simp only [hasHeading, splitAt?_append hl, firstLine_append hm]

theorem hasHeading_headed (hw : '\n' ∉ w) (hn : 3 ≤ n) (words ls : List Text) :
    hasHeading words (headed w n ls) = words.contains w := by
  rw [headed_eq, hasHeading_lines hw (lineFeed_not_mem_underline n), isUnderline_underline hn,
    Bool.and_true]

theorem hasHeading_eq_false (hh : ∀ w ∈ words, ∀ n ≥ 3, ¬[w, underline n] <+: splitLines x) :
    hasHeading words x = false := by
  have hx := joinLines_splitLines x
  have hf : ∀ l ∈ splitLines x, '\n' ∉ l := fun l => not_mem_of_mem_splitLines
  match hs : splitLines x with
  | []      => exact absurd hs (splitLines_ne_nil x)
  | [l]     =>
    rw [hs, joinLines_singleton] at hx
    have hl : '\n' ∉ x := hx ▸ hf l (hs ▸ List.mem_singleton_self l)
    simp only [hasHeading, splitAt?_eq_none hl]
  | l :: m :: ls =>
    have ⟨hl, hf⟩ := List.forall_mem_cons.mp (hs ▸ hf)
    have ⟨hm, _⟩ := List.forall_mem_cons.mp hf
    rw [hs, joinLines_cons_eq, List.flatMap_cons, List.cons_append] at hx
    rw [← hx, hasHeading_lines hl hm, Bool.and_eq_false_imp]
    intro hc
    refine Bool.eq_false_iff.mpr fun hu => ?_
    have ⟨n, hn, hm⟩ := exists_of_isUnderline hu
    exact hh l (List.contains_iff_mem.mp hc) n hn (hs ▸ hm ▸ ⟨ls, rfl⟩)

theorem splitUnderline?_append (hx : '\n' ∉ x) (y : Text) :
    splitUnderline? (x ++ '\n' :: '-' :: y) = some (x, '-' :: y) := by
  induction x
  case nil => rfl
  case cons c x ih =>
    have ⟨hc, hx⟩ := List.ne_and_not_mem_of_not_mem_cons hx
    rw [List.cons_append, splitUnderline?, ih hx, Option.map_some]
    rintro y rfl
    contradiction

-- What stands below the heading begins behind the dashes, with the end of their line.
theorem splitHeading_headed (hw : '\n' ∉ w) (hn : 3 ≤ n) (ls : List Text) :
    splitHeading (headed w n ls) = .ok (w, ls.flatMap ('\n' :: ·)) := by
  have hs := splitUnderline?_append hw (underline (n - 1) ++ ls.flatMap ('\n' :: ·))
  rw [← List.cons_append, ← underline_eq_cons hn, ← headed_eq] at hs
  have hd : ∀ c ∈ underline n, decide (c = '-') := fun c hc =>
    decide_eq_true (List.eq_of_mem_replicate hc)
  simp only [splitHeading, hs, List.dropWhile_append_of_pos hd]
  cases ls <;> rfl

-- The lines that variables are written on.

theorem defines_margin (hm : IsMargin m) (x : Text) : defines (m ++ x) = false := by
  simp [defines, List.head?_append, hm.left]

theorem rows_eq_nil_iff {x : Text} : rows x = [] ↔ x = [] := by
  rw [rows]
  split <;> simp_all [splitLines_ne_nil]

theorem of_mem_rows (hx : x = [] ∨ Solid x) (hl : l ∈ rows x) :
    l ∈ splitLines x ∧ blank l = false := by
  rw [rows] at hl
  split at hl
  case isTrue     => contradiction
  case isFalse hn => exact ⟨hl, hx.resolve_left hn l hl⟩

namespace Variable

theorem Writable.listable (hv : v.Writable) : v.Listable where
  name_ne_nil := hv.name_ne_nil
  name_trim   := hv.name_trim
  name_colon  := hv.name_colon
  type_trim   := hv.type_trim
  oneLine     := hv.oneLine
  doc         := hv.doc

namespace Listable

theorem head_line (hv : v.Listable) : ∃ c, v.line.head? = some c ∧ isBlank c = false := by
  have ⟨c, x, hx⟩ := List.exists_cons_of_ne_nil hv.name_ne_nil
  refine ⟨c, ?_, head_trimBy (hv.name_trim.trans hx)⟩
  rw [line]
  split <;> simp [hx]

theorem defines_line (hv : v.Listable) : defines v.line := by
  have ⟨c, hc, hb⟩ := hv.head_line
  rw [defines, hc]
  exact decide_eq_true (by rintro ⟨⟩; contradiction)

theorem not_blank_line (hv : v.Listable) : blank v.line = false :=
  have ⟨_, hc, hb⟩ := hv.head_line
  not_blank_of_head hc hb

theorem lineFeed_not_mem_line (hv : v.Listable) : '\n' ∉ v.line := by
  have ho := hv.oneLine
  rw [line]
  split <;> simp_all

end Listable
end Variable

namespace Variable.Writable

theorem isLine_line (hv : v.Writable) : IsLine v.line := by
  have hr := hv.noReturn
  refine ⟨hv.listable.lineFeed_not_mem_line, ?_, hv.listable.not_blank_line⟩
  rw [line]
  split <;> simp_all

theorem isLine_rows (hv : v.Writable) (hm : IsMargin m) (hl : l ∈ rows v.doc) :
    IsLine (m ++ l) := by
  have ⟨hs, hb⟩ := of_mem_rows (hv.doc.imp_right And.left) hl
  have hr : '\r' ∉ l := fun hc =>
    hv.noReturn (List.mem_append_right _ (mem_of_mem_splitLines hs hc))
  constructor
  case lineFeed =>
    exact List.not_mem_append (not_mem_of_isIndent hm.right rfl) (not_mem_of_mem_splitLines hs)
  case carriageReturn => exact List.not_mem_append (not_mem_of_isIndent hm.right rfl) hr
  case notBlank       => exact not_blank_append hb

-- The description is read with its margin taken off.
theorem dedent_rows (hv : v.Writable) (hm : IsMargin m) :
    dedent (joinLines ((rows v.doc).map (m ++ ·))) = v.doc := by
  cases hv.doc
  case inl hd => rw [hd]; rfl
  case inr hd =>
    have hr : rows v.doc = splitLines v.doc := if_neg hd.left.ne_nil
    rw [hr, dedent_joinLines_append hm.right (fun l => not_mem_of_mem_splitLines) hd.left,
      joinLines_splitLines]
    exact hd.right

-- The first colon of the line is the one behind the name, whatever the type holds.
theorem read_line (hv : v.Writable) (x : Text) :
    Variable.read v.line x = ⟨v.name, v.type, dedent x⟩ := by
  by_cases ht : v.type = []
  case pos =>
    rw [line, if_pos ht, Variable.read, splitAt?_eq_none hv.name_colon, hv.name_trim, ht]
  case neg =>
    have hl : v.line = (v.name ++ [' ']) ++ ':' :: (' ' :: v.type) := by simp [line, ht]
    have hc : ':' ∉ v.name ++ [' '] := List.not_mem_append hv.name_colon (by decide)
    have hn : trim (v.name ++ [' ']) = v.name := (trim_append v.name rfl).trans hv.name_trim
    have ht : trim (' ' :: v.type) = v.type :=
      (trim_append_left (x := [' ']) rfl v.type).trans hv.type_trim
    simp only [hl, Variable.read, splitAt?_append hc, hn, ht]

theorem read_entry (hv : v.Writable) (hm : IsMargin m) :
    Variable.read v.line (joinLines ((rows v.doc).map (m ++ ·))) = v := by
  rw [hv.read_line, hv.dedent_rows hm]

end Variable.Writable

namespace Listed

theorem isLine (hs : Listed vs ls) : ∀ l ∈ ls, IsLine l := by
  induction hs
  case nil => simp
  case cons hv hm _ ih =>
    intro l hl
    cases List.mem_append.mp hl
    case inr hl => exact ih l hl
    case inl hl =>
      cases List.mem_cons.mp hl
      case inl he => exact he ▸ hv.isLine_line
      case inr hl =>
        have ⟨k, hk, he⟩ := List.mem_map.mp hl
        exact he ▸ hv.isLine_rows hm hk

theorem defines_head (hs : Listed vs ls) : ∀ l ∈ ls.head?, defines l := by
  cases hs
  case nil          => simp
  case cons hv _ _  => simpa [Variable.entry] using hv.listable.defines_line

end Listed

theorem definitions_append {ds : List Text} (hd : ∀ l ∈ ds, defines l = false) (ls : List Text) :
    definitions (ds ++ ls) = definitions ls := by
  induction ds
  case nil => rfl
  case cons l ds ih =>
    have ⟨hl, hd⟩ := List.forall_mem_cons.mp hd
    rw [List.cons_append, definitions, if_neg (by simp [hl]), ih hd]

theorem definitions_cons {ds : List Text} (hl : defines l) (hd : ∀ l ∈ ds, defines l = false)
    (hs : ∀ l ∈ ls.head?, defines l) :
    definitions (l :: (ds ++ ls)) = (l, ds) :: definitions ls := by
  have ht : (ds ++ ls).takeWhile (!defines ·) = ds := by
    rw [List.takeWhile_append_of_pos fun l hl => by simp [hd l hl]]
    cases ls <;> simp_all
  rw [definitions, if_pos hl, ht, definitions_append hd]

-- Every variable takes its own description.
theorem Listed.map_definitions (hs : Listed vs ls) :
    (definitions ls).map (fun (l, doc) => .read l (joinLines doc)) = vs := by
  induction hs
  case nil => rfl
  case cons v vs m ls hv hm hs ih =>
    have hd : ∀ l ∈ (rows v.doc).map (m ++ ·), defines l = false := by
      intro l hl
      have ⟨k, _, he⟩ := List.mem_map.mp hl
      exact he ▸ defines_margin hm k
    rw [Variable.entry, List.cons_append, definitions_cons hv.listable.defines_line hd hs.defines_head,
      List.map_cons, ih]
    exact congrArg (· :: vs) (hv.read_entry hm)

theorem blank_flatMap (ls : List Text) : blank (ls.flatMap ('\n' :: ·)) = ls.all blank := by
  induction ls
  case nil          => rfl
  case cons l ls ih => rw [List.flatMap_cons, blank, List.all_append, ← blank, ← blank, ih]; rfl

-- Every line but the last one loses a carriage return.
theorem filter_lines_concat {l : Text} {ls : List Text} (hf : ∀ k ∈ ls ++ [l], '\n' ∉ k)
    (hb : ∀ k ∈ ls ++ [l], blank k = false) :
    (lines ((ls ++ [l]).flatMap ('\n' :: ·))).filter (· ≠ []) = ls.map (dropEnd ['\r']) ++ [l] := by
  have hn : ls ++ [l] ≠ [] := by simp
  have ⟨hls, hl⟩ := List.forall_mem_append.mp hb
  have hd : ∀ k ∈ ls.map (dropEnd ['\r']), k ≠ [] := List.forall_mem_map.mpr fun k hk =>
    ne_nil_of_not_blank ((blank_dropEnd k).trans (hls k hk))
  have hl : l ≠ [] := ne_nil_of_not_blank (hl l (List.mem_singleton_self l))
  have hc : lines (joinLines (ls ++ [l])) = ls.map (dropEnd ['\r']) ++ [l] := by
    rw [lines_of_concat (splitLines_joinLines hf hn), List.filter_cons_of_pos (by simpa using hl)]
    rfl
  have h : lines ('\n' :: joinLines (ls ++ [l])) = [] :: lines (joinLines (ls ++ [l])) :=
    lines_append [] _
  rw [flatMap_lineFeed hn, h, hc, List.filter_cons_of_neg (by simp)]
  exact List.filter_eq_self.mpr fun k hk => decide_eq_true <|
    (List.mem_append.mp hk).elim (hd k) fun hk => List.mem_singleton.mp hk ▸ hl

theorem filter_lines_flatMap (hl : ∀ l ∈ ls, IsLine l) :
    (lines (ls.flatMap ('\n' :: ·))).filter (· ≠ []) = ls := by
  rcases List.eq_nil_or_concat ls with rfl | ⟨ks, k, rfl⟩
  case inl => rfl
  case inr =>
    rw [List.concat_eq_append] at hl ⊢
    have hk : ks.map (dropEnd ['\r']) = ks := .trans (List.map_congr_left fun l h =>
      dropEnd_eq_self (hl l (List.mem_append_left _ h)).carriageReturn) (List.map_id ks)
    rw [filter_lines_concat (fun l h => (hl l h).lineFeed) fun l h => (hl l h).notBlank, hk]

theorem Listed.readVariables (hs : Listed vs ls) :
    readVariables (ls.flatMap ('\n' :: ·)) = vs := by
  cases hs
  case nil => rfl
  case cons v vs m ls hv hm hs =>
    have hs := Listed.cons hv hm hs
    have hb : blank ((v.entry m ++ ls).flatMap ('\n' :: ·)) = false := by
      rw [blank_flatMap, Variable.entry, List.cons_append, List.all_cons, hv.isLine_line.notBlank,
        Bool.false_and]
    rw [Docstring.readVariables, hb, filter_lines_flatMap hs.isLine]
    exact hs.map_definitions

-- The blocks.

theorem Vocabulary.Proper.sections (hv : vocabulary.Proper) (hw : w ∈ vocabulary.sections) :
    '\n' ∉ w ∧ blank w = false :=
  hv w (List.mem_append_left _ hw)

theorem Vocabulary.Proper.varlists (hv : vocabulary.Proper) (hw : w ∈ vocabulary.varlists) :
    '\n' ∉ w ∧ blank w = false :=
  hv w (List.mem_append_right _ hw)

theorem trim_rows (hx : x = [] ∨ trim x = x ∧ Solid x) :
    trim ((rows x).flatMap ('\n' :: ·)) = x := by
  cases hx
  case inl hx => rw [hx]; rfl
  case inr hx =>
    have hr : rows x = splitLines x := if_neg hx.right.ne_nil
    rw [hr, flatMap_lineFeed (splitLines_ne_nil x), joinLines_splitLines]
    exact (trim_append_left (x := ['\n']) rfl x).trans hx.left

theorem solid_headed (hw : '\n' ∉ w ∧ blank w = false) (hn : 3 ≤ n)
    (hl : ∀ l ∈ ls, '\n' ∉ l ∧ blank l = false) : Solid (headed w n ls) := by
  have hu : blank (underline n) = false := underline_eq_cons hn ▸ rfl
  apply solid_joinLines _ (List.cons_ne_nil _ _)
  exact List.forall_mem_cons.mpr
    ⟨hw, List.forall_mem_cons.mpr ⟨⟨lineFeed_not_mem_underline n, hu⟩, hl⟩⟩

theorem Written.solid (hv : vocabulary.Proper) (hb : Written vocabulary b x) : Solid x := by
  cases hb
  case text hx _ => exact hx
  case titled x hw hn hx =>
    refine solid_headed (hv.sections hw) hn fun l hl => ?_
    have ⟨hs, hb⟩ := of_mem_rows (hx.imp_right And.right) hl
    exact ⟨not_mem_of_mem_splitLines hs, hb⟩
  case variableList hw _ _ hn hl =>
    exact solid_headed (hv.varlists hw) hn fun l h =>
      ⟨(hl.isLine l h).lineFeed, (hl.isLine l h).notBlank⟩

theorem readParagraph_headed (hf : '\n' ∉ w) (hw : w ∈ vocabulary.varlists)
    (hs : w ∉ vocabulary.sections) (hn : 3 ≤ n) (ls : List Text) :
    readParagraph vocabulary (headed w n ls) =
      .ok (.variableList w (readVariables (ls.flatMap ('\n' :: ·)))) := by
  have hk : kindOf vocabulary (headed w n ls) = .variableList := by
    rw [kindOf, hasHeading_headed hf hn, hasHeading_headed hf hn, if_neg (by simpa using hs),
      if_pos (List.contains_iff_mem.mpr hw)]
  simp [Docstring.readParagraph, hk, splitHeading_headed hf hn]

theorem Written.readParagraph (hv : vocabulary.Proper) (hb : Written vocabulary b x) :
    readParagraph vocabulary x = .ok b := by
  cases hb
  case text hx hh =>
    have hs := hasHeading_eq_false fun w hw => hh w (List.mem_append_left _ hw)
    have hl := hasHeading_eq_false fun w hw => hh w (List.mem_append_right _ hw)
    simp [Docstring.readParagraph, kindOf, hs, hl]
  case titled w n x hw hn hx =>
    have ⟨hf, _⟩ := hv.sections hw
    have hk : kindOf vocabulary (headed w n (rows x)) = .titled := by
      rw [kindOf, hasHeading_headed hf hn, if_pos (List.contains_iff_mem.mpr hw)]
    simp [Docstring.readParagraph, hk, splitHeading_headed hf hn, trim_rows hx]
  case variableList w n vs ls hw hs _ hn hl =>
    rw [readParagraph_headed (hv.varlists hw).left hw hs hn, hl.readVariables]

-- Reading gives back the blocks that were written.
theorem read_written (hv : vocabulary.Proper) (hb : List.Forall₂ (Written vocabulary) bs xs) :
    read vocabulary (joinBlocks xs) = .ok bs := by
  have ⟨hs, hr⟩ : (∀ x ∈ xs, Solid x) ∧ xs.mapM (readParagraph vocabulary) = .ok bs := by
    induction hb
    case nil => exact ⟨List.forall_mem_nil _, rfl⟩
    case cons hb _ ih =>
      refine ⟨List.forall_mem_cons.mpr ⟨hb.solid hv, ih.left⟩, ?_⟩
      rw [List.mapM_cons, hb.readParagraph hv, ih.right]
      rfl
  rw [read, paragraphs_joinBlocks hs]
  exact hr

theorem read_written_mixed :
    let v : Variable := ⟨"x", "a : b", "One.\n  Two."⟩
    let w : Variable := ⟨"y", "", ""⟩
    let bs := [.text "Intro.\n  More.", .variableList "Returns" [v, w],
      .titled "Notes" "- one\n- two", .titled "Methods" ""]
    let xs : List Text := ["Intro.\n  More.",
      "Returns\n----\nx : a : b\n    One.\n      Two.\ny", "Notes\n---\n- one\n- two",
      "Methods\n-------"]
    Vocabulary.Proper {} ∧ List.Forall₂ (Written {}) bs xs ∧ read {} (joinBlocks xs) = .ok bs := by
  intro v w bs xs
  have hv : Vocabulary.Proper {} := by decide
  have hm : IsMargin (spaces 4) := ⟨rfl, fun _ => isIndent_of_mem_spaces⟩
  have hx : v.Writable :=
    ⟨by decide, by decide, by decide, by decide, by decide, by decide,
      .inr ⟨by decide, by decide⟩⟩
  have hy : w.Writable :=
    ⟨by decide, by decide, by decide, by decide, by decide, by decide, .inl rfl⟩
  have hi : ∀ w ∈ ({} : Vocabulary).sections ++ ({} : Vocabulary).varlists, ∀ n ≥ 3,
      ¬[w, underline n] <+: ["Intro.".toList, "  More.".toList] := by
    rintro w hw n - hp
    have ⟨he, _⟩ := List.cons_prefix_cons.mp hp
    exact absurd (he ▸ hw) (by decide)
  have hb : List.Forall₂ (Written {}) bs xs :=
    .cons (.text (by decide) hi) <|
    .cons (.variableList (n := 4) (by decide) (by decide) (by decide) (by decide)
      (.cons hx hm (.cons hy hm .nil))) <|
    .cons (.titled (n := 3) (by decide) (by decide) (.inr ⟨by decide, by decide⟩)) <|
    .cons (.titled (n := 7) (by decide) (by decide) (.inl rfl)) .nil
  exact ⟨hv, hb, read_written hv hb⟩

end DocPress.Docstring
