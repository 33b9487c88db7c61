import DocPress.Settings.Basic
import DocPress.Toml.Reader

-- Settings from the tables of a document. What is missing keeps its default, and what is unknown is
-- passed over.

namespace DocPress.Settings

open Toml

def asText : Value → Option Text
  | .string x => some x
  | _         => none

def asTexts : Value → Option (List Text)
  | .array vs => vs.mapM asText
  | _         => none

def asCount : Value → Option Nat
  | .integer n => if 0 ≤ n ∧ n.toNat < Nat.pow 2 64 then some n.toNat else none
  | _          => none

-- The value of a name, or a default.
def field {α : Type} (es : Entries) (name : Text) (read : Value → Option α) (default : α) :
    Option α :=
  match es.lookup name with
  | none   => some default
  | some v => read v

-- The entries of a group of settings. They may also be given without their names, in a fixed order.
-- A date holds none of them.
def group (names : List Text) : Value → Option Entries
  | .table _ es => some es
  | .array vs   => some (names.zip vs)
  | .tables vs  => some (names.zip vs)
  | .datetime _ => some []
  | _           => none

def markdownNames : List Text :=
  ["code_languages", "default_code_class", "list_class", "toc_anchor", "html_indent"]

def markdownOf? (v : Value) : Option Markdown.Options := do
  let es ← group markdownNames v
  let d : Markdown.Options := {}
  return {
    codeLanguages    := ← field es "code_languages" asTexts d.codeLanguages
    defaultCodeClass := ← field es "default_code_class" asText d.defaultCodeClass
    listClass        := ← field es "list_class" asText d.listClass
    tocAnchor        := ← field es "toc_anchor" asText d.tocAnchor
    htmlIndent       := ← field es "html_indent" asCount d.htmlIndent
  }

def docstringNames : List Text :=
  ["sections", "varlists"]

def docstringsOf? (v : Value) : Option Docstring.Vocabulary := do
  let es ← group docstringNames v
  let d : Docstring.Vocabulary := {}
  return {
    sections := ← field es "sections" asTexts d.sections
    varlists := ← field es "varlists" asTexts d.varlists
  }

def ofEntries? (es : Entries) : Option Settings := do
  return {
    outputDir  := ← field es "output_dir" (fun v => some <$> asText v) none
    markdown   := ← field es "markdown" markdownOf? {}
    docstrings := ← field es "docstrings" docstringsOf? {}
  }

def ofText? (x : Text) : Option Settings :=
  Toml.read? x >>= ofEntries?

end DocPress.Settings
