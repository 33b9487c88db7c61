import DocPress.Markdown.Options
import DocPress.Text.Case
import DocPress.Text.Escape
import DocPress.Text.Margin

-- Code between fences. The line that opens a fence may name a language.

namespace DocPress.Markdown.Fence

open Text

def mark : Text := "\x60\x60\x60"

def isFence (l : Text) : Bool :=
  startsWith l mark

def accepts (x : Text) : Bool :=
  x.contains '\n' && startsWith x mark && endsWith x mark

def lang (x : Text) : Text :=
  trimBy (fun c => c = '\x60' || c = ' ') (firstLine x)

-- The lines between the fences, as they are written in a page.
def body (x : Text) : Text :=
  escape (dedent (joinLines ((lines x).drop 1).dropLast))

def toHtml (options : Options) (x : Text) : Text :=
  let lang := lang x
  if lang ≠ [] ∧ lang ∈ options.codeLanguages then
    "<pre><span class=\"lang-name\">" ++ title lang ++ "</span><code class=\"language-" ++ lang ++
      "\">" ++ body x ++ "</code></pre>"
  else
    let group := if lang = [] then options.defaultCodeClass else lang
    "<pre class=\"" ++ group ++ "\">" ++ body x ++ "</pre>"

end DocPress.Markdown.Fence
