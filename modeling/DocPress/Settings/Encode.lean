import DocPress.Settings.Basic
import DocPress.Toml.Writer

-- Settings as a document. Everything is written, defaults too, but for a directory that is not set.

namespace DocPress.Settings

open Text Toml

-- The largest number that a document can hold.
def maxCount : Nat :=
  Nat.pow 2 63 - 1

def writeMarkdown (m : Markdown.Options) : Text :=
  writeHeader "markdown" ++
    writePair "code_languages" (writeTexts m.codeLanguages) ++
    writePair "default_code_class" (writeQuoted m.defaultCodeClass) ++
    writePair "list_class" (writeQuoted m.listClass) ++
    writePair "toc_anchor" (writeQuoted m.tocAnchor) ++
    writePair "html_indent" (decimal m.htmlIndent)

def writeDocstrings (d : Docstring.Vocabulary) : Text :=
  writeHeader "docstrings" ++
    writePair "sections" (writeTexts d.sections) ++
    writePair "varlists" (writeTexts d.varlists)

def toText (s : Settings) : Text :=
  (match s.outputDir with
    | none     => []
    | some dir => writePair "output_dir" (writeQuoted dir) ++ "\n") ++
    writeMarkdown s.markdown ++ "\n" ++ writeDocstrings s.docstrings

def toText? (s : Settings) : Option Text :=
  if s.markdown.htmlIndent ≤ maxCount then some s.toText else none

end DocPress.Settings
