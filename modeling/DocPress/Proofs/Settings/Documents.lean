import DocPress.Proofs.Toml.Documents
import DocPress.Settings.Decode
import DocPress.Settings.Encode

-- Settings are read back from the document that they are written as.

namespace DocPress.Settings

open Text Toml

theorem lt_of_le_maxCount {n : Nat} (h : n ≤ maxCount) : n < Nat.pow 2 64 :=
  Nat.lt_of_le_of_lt h (by decide)

section Tables

variable (m : Markdown.Options) (h : m.htmlIndent ≤ maxCount) (d : Docstring.Vocabulary)

def markdownLines : List Line := [
  .texts "code_languages" m.codeLanguages (by decide),
  .string "default_code_class" m.defaultCodeClass (by decide),
  .string "list_class" m.listClass (by decide),
  .string "toc_anchor" m.tocAnchor (by decide),
  .number "html_indent" m.htmlIndent (by decide) (Nat.lt_trans (lt_of_le_maxCount h) (by decide))
]

def docstringsLines : List Line := [
  .texts "sections" d.sections (by decide),
  .texts "varlists" d.varlists (by decide)
]

theorem nodup_markdownLines : ((markdownLines m h).map Line.name).Nodup :=
  (by decide : markdownNames.Nodup)

theorem nodup_docstringsLines : ((docstringsLines d).map Line.name).Nodup :=
  (by decide : docstringNames.Nodup)

def markdownTable : Table where
  name  := "markdown"
  lines := markdownLines m h
  bare  := by decide
  nodup := nodup_markdownLines m h

def docstringsTable : Table where
  name  := "docstrings"
  lines := docstringsLines d
  bare  := by decide
  nodup := nodup_docstringsLines d

end Tables

def topLines (dir : Option Text) : List Line :=
  dir.toList.map fun x => .string "output_dir" x (by decide)

theorem nodup_names (dir : Option Text) :
    ((topLines dir).map Line.name ++ ["markdown".toList, "docstrings".toList]).Nodup := by
  cases dir
  case none => exact (by decide : ["markdown".toList, "docstrings".toList].Nodup)
  case some =>
    exact (by decide : ["output_dir".toList, "markdown".toList, "docstrings".toList].Nodup)

-- The document that settings are written as. It has no line for a directory that is not set.
def document (s : Settings) (h : s.markdown.htmlIndent ≤ maxCount) : Document where
  top    := topLines s.outputDir
  tables := [markdownTable s.markdown h, docstringsTable s.docstrings]
  nodup  := nodup_names s.outputDir

variable {s : Settings}

theorem write_markdownTable (m : Markdown.Options) (h : m.htmlIndent ≤ maxCount) :
    (markdownTable m h).write = writeMarkdown m := by
  have ht : (markdownTable m h).write = writeHeader "markdown" ++ writeLines (markdownLines m h) :=
    rfl
  simp only [ht, markdownLines, writeLines_cons, writeLines_nil, Line.write_string,
    Line.write_texts, Line.write_number, writeMarkdown, List.append_assoc, List.append_nil]

theorem write_docstringsTable (d : Docstring.Vocabulary) :
    (docstringsTable d).write = writeDocstrings d := by
  have ht : (docstringsTable d).write =
      writeHeader "docstrings" ++ writeLines (docstringsLines d) :=
    rfl
  simp only [ht, docstringsLines, writeLines_cons, writeLines_nil, Line.write_texts,
    writeDocstrings, List.append_assoc, List.append_nil]

theorem write_document (h : s.markdown.htmlIndent ≤ maxCount) :
    (s.document h).write = s.toText := by
  have ht : writeTables (s.document h).tables =
      writeMarkdown s.markdown ++ '\n' :: writeDocstrings s.docstrings := by
    simp [document, writeTables, join_cons_cons, write_markdownTable, write_docstringsTable]
  rw [Document.write, ht, toText]
  cases hd : s.outputDir
  case none => simp [document, topLines, hd, writeLines_nil]
  case some => simp [document, topLines, hd, writeLines_nil, writeLines_cons]

theorem asTexts_array (xs : List Text) : asTexts (.array (xs.map .string)) = some xs := by
  rw [asTexts]
  induction xs
  case nil => rfl
  case cons x xs ih => simp [asText, ih]

theorem asCount_integer {n : Nat} (h : n ≤ maxCount) : asCount (.integer n) = some n :=
  if_pos ⟨Int.natCast_nonneg n, lt_of_le_maxCount h⟩

theorem markdownOf?_entry (m : Markdown.Options) (h : m.htmlIndent ≤ maxCount) :
    markdownOf? (markdownTable m h).entry.2 = some m := by
  have ht : (markdownTable m h).entry.2 = .table .header [
      ("code_languages", .array (m.codeLanguages.map .string)),
      ("default_code_class", .string m.defaultCodeClass),
      ("list_class", .string m.listClass),
      ("toc_anchor", .string m.tocAnchor),
      ("html_indent", .integer m.htmlIndent)] :=
    rfl
  simp [ht, markdownOf?, group, field, NameMap.lookup_cons_eq_ite, asTexts_array, asText,
    asCount_integer h]

theorem docstringsOf?_entry (d : Docstring.Vocabulary) :
    docstringsOf? (docstringsTable d).entry.2 = some d := by
  have ht : (docstringsTable d).entry.2 = .table .header [
      ("sections", .array (d.sections.map .string)),
      ("varlists", .array (d.varlists.map .string))] :=
    rfl
  simp [ht, docstringsOf?, group, field, NameMap.lookup_cons_eq_ite, asTexts_array]

theorem ofEntries?_document (h : s.markdown.htmlIndent ≤ maxCount) :
    ofEntries? (s.document h).entries = some s := by
  have hm := markdownOf?_entry s.markdown h
  have hd := docstringsOf?_entry s.docstrings
  let tables : Entries := [
    ("markdown", (markdownTable s.markdown h).entry.2),
    ("docstrings", (docstringsTable s.docstrings).entry.2)]
  have he : (s.document h).entries = (topLines s.outputDir).map Line.entry ++ tables := rfl
  obtain ⟨_ | dir, m, d⟩ := s
  case none => simp [he, tables, topLines, ofEntries?, field, NameMap.lookup_cons_eq_ite, hm, hd]
  case some =>
    simp [he, tables, topLines, Line.string, Line.entry, ofEntries?, field,
      NameMap.lookup_cons_eq_ite, hm, hd, asText]

-- What was written is read as the same settings, whatever their texts are.
theorem ofText?_toText (h : s.markdown.htmlIndent ≤ maxCount) : ofText? s.toText = some s := by
  rw [← write_document h, ofText?, Document.read?_write]
  exact ofEntries?_document h

end DocPress.Settings
