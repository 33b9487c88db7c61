import DocPress.Proofs.NameMap.Lookup
import DocPress.Proofs.Toml.Values

-- Documents are read back as they were written: lines with a key and a value, and tables of them
-- below their headers.

namespace DocPress.Toml

open Text

-- A name that is written without quotes.
structure Bare (name : Text) : Prop where
  ne_nil : name ≠ []
  chars  : ∀ c ∈ name, isBareChar c

theorem bare_iff (name : Text) : !name.isEmpty && name.all isBareChar ↔ Bare name := by
  simp only [Bool.and_eq_true, Bool.not_eq_true', List.isEmpty_eq_false_iff, List.all_eq_true]
  exact ⟨fun h => ⟨h.left, h.right⟩, fun h => ⟨h.ne_nil, h.chars⟩⟩

instance (name : Text) : Decidable (Bare name) :=
  decidable_of_iff _ (bare_iff name)

-- A line of a document, with the value that its text is read as.
structure Line where
  name  : Text
  text  : Text
  value : Value
  bare  : Bare name
  reads : Reads text value

namespace Line

def write (l : Line) : Text :=
  writePair l.name l.text

def pair (l : Line) : Key × Value :=
  (⟨[], l.name⟩, l.value)

def entry (l : Line) : Text × Value :=
  (l.name, l.value)

def string (name x : Text) (h : Bare name) : Line where
  name  := name
  text  := writeQuoted x
  value := .string x
  bare  := h
  reads := .writeQuoted x

def texts (name : Text) (xs : List Text) (h : Bare name) : Line where
  name  := name
  text  := writeTexts xs
  value := .array (xs.map .string)
  bare  := h
  reads := .writeTexts xs

def number (name : Text) (n : Nat) (h : Bare name) (hn : n < Nat.pow 2 128) : Line where
  name  := name
  text  := decimal n
  value := .integer n
  bare  := h
  reads := .decimal hn

@[simp]
theorem write_string (name x : Text) (h : Bare name) :
    (string name x h).write = writePair name (writeQuoted x) := rfl

@[simp]
theorem write_texts (name : Text) (xs : List Text) (h : Bare name) :
    (texts name xs h).write = writePair name (writeTexts xs) := rfl

@[simp]
theorem write_number (name : Text) (n : Nat) (h : Bare name) (hn : n < Nat.pow 2 128) :
    (number name n h hn).write = writePair name (decimal n) := rfl

end Line

def writeLines (ls : List Line) : Text :=
  (ls.map Line.write).flatten

theorem writeLines_nil : writeLines [] = [] := rfl

theorem writeLines_cons (l : Line) (ls : List Line) :
    writeLines (l :: ls) = l.write ++ writeLines ls := rfl

-- The lines below a header. No name is used twice.
structure Table where
  name  : Text
  lines : List Line
  bare  : Bare name
  nodup : (lines.map Line.name).Nodup

namespace Table

def write (t : Table) : Text :=
  writeHeader t.name ++ writeLines t.lines

def part (t : Table) : Section :=
  .table ⟨[], t.name⟩ (t.lines.map Line.pair)

def entry (t : Table) : Text × Value :=
  (t.name, .table .header (t.lines.map Line.entry))

end Table

-- Tables with an empty line between them.
def writeTables (ts : List Table) : Text :=
  join ['\n'] (ts.map Table.write)

-- Lines that stand above all headers, with an empty line behind them, and tables.
structure Document where
  top    : List Line
  tables : List Table
  nodup  : (top.map Line.name ++ tables.map Table.name).Nodup

namespace Document

def write (d : Document) : Text :=
  writeLines d.top ++ ((if d.top.isEmpty then [] else ['\n']) ++ writeTables d.tables)

def entries (d : Document) : Entries :=
  d.top.map Line.entry ++ d.tables.map Table.entry

end Document

-- What follows the lines of a table, with what is left of it when nothing but a header is skipped.
structure Ends (x y : Text) : Prop where
  skip : skipVoid false x = some y
  head : ∀ c ∈ y.head?, c = '['

variable {name text rest x y : Text} {v : Value} {ls : List Line} {ts : List Table}
  {n : Nat} {es : Entries}

section Keys

theorem ne_of_isBareChar {c d : Char} (h : isBareChar c) (hd : isBareChar d = false) : c ≠ d := by
  rintro rfl
  exact Bool.false_ne_true (hd.symm.trans h)

theorem Bare.exists_cons (h : Bare name) : ∃ c x, name = c :: x ∧ isBareChar c := by
  obtain ⟨c, x, rfl⟩ := List.exists_cons_of_ne_nil h.ne_nil
  exact ⟨c, x, rfl, h.chars c List.mem_cons_self⟩

theorem skipSpace_cons {c : Char} (h : isSpace c = false) (x : Text) :
    skipSpace (c :: x) = c :: x :=
  List.dropWhile_cons_of_neg (by simp [h])

theorem isSpace_of_isBareChar {c : Char} (h : isBareChar c) : isSpace c = false := by
  simp [isSpace, ne_of_isBareChar h (d := ' ') rfl, ne_of_isBareChar h (d := '\t') rfl]

theorem key?_bare (hb : Bare name) (hr : ∀ c ∈ rest.head?, isBareChar c = false)
    (hd : (skipSpace rest).head? ≠ some '.') :
    key? (name ++ rest) = some (⟨[], name⟩, skipSpace rest) := by
  have ht : (name ++ rest).takeWhile isBareChar = name := by
    rw [List.takeWhile_append_of_pos hb.chars]
    cases rest <;> simp_all
  have hw : (name ++ rest).dropWhile isBareChar = rest := by
    rw [List.dropWhile_append_of_pos hb.chars]
    cases rest <;> simp_all
  obtain ⟨c, x, rfl, hc⟩ := hb.exists_cons
  have hs : skipSpace (c :: x ++ rest) = c :: x ++ rest :=
    skipSpace_cons (isSpace_of_isBareChar hc) _
  have hk : simpleKey? (c :: x ++ rest) = some (c :: x, rest) := by
    have hq := ne_of_isBareChar hc (d := '"') rfl
    have hl := ne_of_isBareChar hc (d := '\x27') rfl
    unfold simpleKey?
    split
    case h_1 h => exact absurd (List.cons.inj h).left hq
    case h_2 h => exact absurd (List.cons.inj h).left hl
    case h_3 =>
      rw [ht, hw]
      rfl
  have hn : names? (c :: x ++ rest).length (c :: x ++ rest) = some ([c :: x], skipSpace rest) := by
    rw [List.cons_append, List.length_cons, ← List.cons_append, names?, hs, hk]
    simp only [Option.bind_eq_bind, Option.bind_some]
    split
    case h_1 h => exact absurd (congrArg List.head? h) hd
    case h_2   => rfl
  rw [key?, hn]
  rfl

end Keys

theorem pair?_writePair (hb : Bare name) (hv : Reads text v) (rest : Text) :
    pair? (writePair name text ++ rest) = some ((⟨[], name⟩, v), rest) := by
  let y := ' ' :: (text ++ '\n' :: rest)
  have hw : writePair name text ++ rest = name ++ (' ' :: '=' :: y) := by simp [writePair, y]
  have hk : key? (name ++ (' ' :: '=' :: y)) = some (⟨[], name⟩, '=' :: y) :=
    key?_bare hb (by simp [isBareChar]) (by simp [skipSpace, isSpace])
  have hs : skipSpace y = text ++ '\n' :: rest := by
    rw [skipSpace, List.dropWhile_cons_of_pos (by rfl)]
    have hh := hv.head
    cases text
    case nil  => rfl
    case cons => exact skipSpace_cons (hh _ rfl) _
  have hn : text.length < 2 * y.length := by
    simp only [y, List.length_cons, List.length_append]
    omega
  have ha : after? '=' ('=' :: y) = some y := rfl
  simp only [hw, pair?, hk, ha, hs, hv.value _ rest hn, Option.bind_eq_bind, Option.bind_some]
  rfl

theorem skipVoid_bareChar {c : Char} (h : isBareChar c) (x : Text) :
    skipVoid false (c :: x) = some (c :: x) := by
  have hn := ne_of_isBareChar h (d := '\n') rfl
  have hr := ne_of_isBareChar h (d := '\r') rfl
  have hh := ne_of_isBareChar h (d := '#') rfl
  simp [skipVoid, hn, hr, hh, isSpace_of_isBareChar h]

theorem skipVoid_bracket (x : Text) : skipVoid false ('[' :: x) = some ('[' :: x) := by
  simp [skipVoid, isSpace]

theorem block?_cons {c : Char} {p : Key × Value} (hv : skipVoid false (c :: x) = some (c :: x))
    (hc : c ≠ '[') (hp : pair? (c :: x) = some (p, y)) (n : Nat) :
    block? (n + 1) (c :: x) = (block? n y).map fun (ps, z) => (p :: ps, z) := by
  rw [block?, hv]
  simp only [Option.bind_eq_bind, Option.bind_some]
  split
  case h_1 h => contradiction
  case h_2 h => exact absurd (List.cons.inj h).left hc
  case h_3 =>
    rw [hp, Option.bind_some]
    cases block? n y <;> simp

-- The pairs of a table are read up to the next header. There is one step for each line.
theorem block?_writeLines (hn : ls.length < n) (he : Ends x y) :
    block? n (writeLines ls ++ x) = some (ls.map Line.pair, y) := by
  induction ls generalizing n
  case nil =>
    obtain ⟨n, rfl⟩ := Nat.exists_eq_add_of_lt hn
    simp only [writeLines, List.map_nil, List.flatten_nil, List.nil_append, block?, he.skip]
    have hh := he.head
    rcases y with _ | ⟨c, y⟩
    case nil  => rfl
    case cons =>
      obtain rfl := hh c rfl
      rfl
  case cons l ls ih =>
    obtain ⟨n, rfl⟩ := Nat.exists_eq_add_of_lt hn
    let z := writeLines ls ++ x
    have ⟨c, w, hw, hc⟩ : ∃ c w, l.write ++ z = c :: w ∧ isBareChar c := by
      have ⟨c, w, hw, hc⟩ := l.bare.exists_cons
      exact ⟨c, w ++ (" = " ++ l.text ++ "\n" ++ z : Text), by simp [Line.write, writePair, hw], hc⟩
    have hp : pair? (c :: w) = some (l.pair, z) := hw ▸ pair?_writePair l.bare l.reads z
    have hv : skipVoid false (c :: w) = some (c :: w) := skipVoid_bareChar hc w
    have hl : writeLines (l :: ls) ++ x = c :: w := by
      rw [← hw]
      simp [writeLines, z]
    rw [hl, block?_cons hv (ne_of_isBareChar hc rfl) hp, ih (by rw [List.length_cons]; omega)]
    rfl

theorem length_le_writeLines (ls : List Line) : ls.length ≤ (writeLines ls).length := by
  induction ls
  case nil => exact Nat.le_refl 0
  case cons l ls ih =>
    have hl : 0 < l.write.length := List.length_pos_of_ne_nil (by simp [Line.write, writePair])
    rw [writeLines, List.map_cons, List.flatten_cons, List.length_append, List.length_cons,
      ← writeLines]
    omega

theorem tableHeader?_writeHeader (hb : Bare name) (rest : Text) :
    ∃ z, writeHeader name ++ rest = '[' :: z ∧ z.head? ≠ some '[' ∧
      tableHeader? z = some (⟨[], name⟩, rest) := by
  let w := ']' :: '\n' :: rest
  have hk : key? (name ++ w) = some (⟨[], name⟩, w) :=
    key?_bare hb (by simp [w, isBareChar]) (by simp [w, skipSpace, isSpace])
  refine ⟨name ++ w, by simp [writeHeader, w], ?_, ?_⟩
  · obtain ⟨c, x, rfl, hc⟩ := hb.exists_cons
    exact fun h => ne_of_isBareChar hc (d := '[') rfl (Option.some.inj h)
  · have ha : after? ']' w = some ('\n' :: rest) := rfl
    simp only [tableHeader?, hk, ha, Option.bind_eq_bind, Option.bind_some]
    rfl

theorem sections?_bracket {k : Key} {z : Text} (hh : z.head? ≠ some '[')
    (hk : tableHeader? z = some (k, x)) (n : Nat) :
    sections? (n + 1) ('[' :: z) =
      (block? (x.length + 1) x).bind fun (ps, y) => (sections? n y).map (.table k ps :: ·) := by
  have hz : ∀ w, z = '[' :: w → False := by
    rintro w rfl
    exact hh rfl
  rw [sections?, hk]
  case x_3 => exact hz
  simp only [Option.bind_eq_bind, Option.bind_some, Option.map_eq_bind]
  rfl

theorem sections?_cons (t : Table) (he : Ends x y) (n : Nat) :
    sections? (n + 1) (t.write ++ x) = (sections? n y).map (t.part :: ·) := by
  have ⟨z, hz, hh, ht⟩ := tableHeader?_writeHeader t.bare (writeLines t.lines ++ x)
  have hl := length_le_writeLines t.lines
  have hn : t.lines.length < (writeLines t.lines ++ x).length + 1 := by
    rw [List.length_append]
    omega
  rw [Table.write, List.append_assoc, hz, sections?_bracket hh ht, block?_writeLines hn he]
  rfl

theorem writeTables_cons (t : Table) (ts : List Table) :
    writeTables (t :: ts) = t.write ++ ((if ts.isEmpty then [] else ['\n']) ++ writeTables ts) := by
  cases ts <;> simp [writeTables, join_cons_cons]

theorem writeTables_ends (ts : List Table) : Ends (writeTables ts) (writeTables ts) := by
  cases ts
  case nil => exact ⟨rfl, by simp [writeTables]⟩
  case cons t ts =>
    rw [writeTables_cons]
    exact ⟨skipVoid_bracket _, by simp [Table.write, writeHeader]⟩

theorem Ends.newline (h : Ends x y) : Ends ('\n' :: x) y where
  skip := h.skip
  head := h.head

theorem gap_ends (b : Bool) (ts : List Table) :
    Ends ((if b then [] else ['\n']) ++ writeTables ts) (writeTables ts) := by
  cases b
  case false => exact (writeTables_ends ts).newline
  case true  => exact writeTables_ends ts

theorem length_le_writeTables (ts : List Table) : ts.length ≤ (writeTables ts).length := by
  induction ts
  case nil => exact Nat.le_refl 0
  case cons t ts ih =>
    have ht : 0 < t.write.length := List.length_pos_of_ne_nil (by simp [Table.write, writeHeader])
    rw [writeTables_cons, List.length_append, List.length_append, List.length_cons]
    omega

theorem sections?_writeTables (hn : ts.length ≤ n) :
    sections? n (writeTables ts) = some (ts.map Table.part) := by
  induction ts generalizing n
  case nil => simp [writeTables, sections?]
  case cons t ts ih =>
    obtain ⟨n, rfl⟩ := Nat.exists_eq_add_of_lt hn
    rw [writeTables_cons, sections?_cons t (gap_ends _ ts), ih (by simp at hn; omega)]
    rfl

theorem lookup_eq_none {ks : List Text} (h : (es.map (·.1) ++ name :: ks).Nodup) :
    es.lookup name = none := by
  refine List.lookup_eq_none_iff.mpr fun e he => bne_iff_ne.mpr fun hk => ?_
  exact (List.nodup_append.mp h).2.2 e.1 (List.mem_map_of_mem he) name List.mem_cons_self hk.symm

theorem addPairs_map (es : Entries) (hn : (es.map (·.1) ++ ls.map Line.name).Nodup) :
    addPairs es (ls.map Line.pair) = some (es ++ ls.map Line.entry) := by
  induction ls generalizing es
  case nil => simp [addPairs]
  case cons l ls ih =>
    have hp : addPair es l.pair.1 l.pair.2 = some (es ++ [l.entry]) := by
      simp [addPair, alter, Line.pair, Line.entry, lookup_eq_none hn]
    have hr := ih (es ++ [l.entry]) (by simpa [Line.entry] using hn)
    rw [List.append_assoc] at hr
    simpa [addPairs, hp] using hr

theorem set_of_lookup_eq_none (h : es.lookup name = none) (v : Value) :
    es.set name v = es ++ [(name, v)] := by
  induction es
  case nil => rfl
  case cons e es ih =>
    have ⟨hn, hl⟩ : name ≠ e.1 ∧ es.lookup name = none := by
      rw [NameMap.lookup_cons_eq_ite] at h
      split at h
      case isTrue    => contradiction
      case isFalse hn => exact ⟨hn, h⟩
    rw [Entries.set, if_neg (Ne.symm hn), ih hl, List.cons_append]

theorem addSections_map (es : Entries) (hn : (es.map (·.1) ++ ts.map Table.name).Nodup) :
    (ts.map Table.part).foldlM addSection es = some (es ++ ts.map Table.entry) := by
  induction ts generalizing es
  case nil => simp
  case cons t ts ih =>
    have hl := lookup_eq_none hn
    have hp := addPairs_map [] t.nodup
    have ha : addSection es t.part = some (es ++ [t.entry]) := by
      simp [addSection, Table.part, Table.entry, alter, openTable, hl, hp, set_of_lookup_eq_none hl]
    have hr := ih (es ++ [t.entry]) (by simpa [Table.entry] using hn)
    rw [List.append_assoc] at hr
    simpa [ha] using hr

namespace Document

-- No document begins with a mark of the byte order.
theorem dropStart_write (d : Document) : dropStart ['\uFEFF'] d.write = d.write := by
  have hh : ∀ c ∈ d.write.head?, c ≠ '\uFEFF' := by
    obtain ⟨top, tables⟩ := d
    rcases top with _ | ⟨l, ls⟩
    case nil =>
      intro c hc
      rw [(writeTables_ends tables).head c hc]
      decide
    case cons =>
      have ⟨c, x, hx, hc⟩ := l.bare.exists_cons
      simpa [write, writeLines, Line.write, writePair, hx] using ne_of_isBareChar hc rfl
  refine if_neg fun hp => ?_
  have ⟨x, hx⟩ := List.isPrefixOf_iff_prefix.mp hp
  exact hh _ (hx ▸ rfl) rfl

-- A document is read as the entries that were written.
theorem read?_write (d : Document) : read? d.write = some d.entries := by
  have hl := length_le_writeLines d.top
  have hb : block? (d.write.length + 1) d.write =
      some (d.top.map Line.pair, writeTables d.tables) := by
    refine block?_writeLines ?_ (gap_ends d.top.isEmpty d.tables)
    rw [write, List.length_append]
    omega
  have ht := sections?_writeTables (length_le_writeTables d.tables)
  have hp := addPairs_map [] (List.nodup_append.mp d.nodup).left
  have hn : ((d.top.map Line.entry).map (·.1) ++ d.tables.map Table.name).Nodup := by
    rw [List.map_map]
    exact d.nodup
  rw [read?, dropStart_write d]
  simp only [hb, ht, hp, Option.bind_eq_bind, Option.bind_some, List.nil_append]
  exact addSections_map _ hn

end Document

end DocPress.Toml
