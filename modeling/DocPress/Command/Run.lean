import DocPress.Command.Arguments
import DocPress.Docstring.Printer
import DocPress.Docstring.Reader
import DocPress.Markdown.Collection
import DocPress.Markdown.Page
import DocPress.Settings.Storage
import DocPress.Tree.Drawing

-- Running commands: from what the disk holds to the output, and from there to a file on the disk.

namespace DocPress.Command

open Text

-- What a run has produced, the file that it belongs to, and the extension that it gets.
structure Output where
  text      : Text
  input     : Path
  extension : Text
  deriving DecidableEq, Repr

-- The causes for which a run fails.
inductive Failure where
  | usage (usage : Usage)
  | settings (error : Settings.LoadError)
  | noSettings (path : Path)
  | unreadable (file : Path) (fault : Fault)
  | unconverted (file : Path) (error : Error)
  | unparsed (file : Path) (error : Error)
  | noContents (error : Error)
  | unnamed (file : Path)
  | notCreated (dir : Path) (fault : Fault)
  | notWritten (path : Path) (fault : Fault)
  deriving DecidableEq, Repr

-- What went wrong, followed by why.
def Failure.messages : Failure → List Text
  | usage u            => [u.message]
  | settings e         => [e.message]
  | noSettings p       => ["config file not found: " ++ p]
  | unreadable f fault => ["cannot read " ++ f, fault.message]
  | unconverted f e    => ["cannot convert " ++ f, e.message]
  | unparsed f e       => ["cannot parse docstring in " ++ f, e.message]
  | noContents e       => [e.message]
  | unnamed f          => ["no file name in " ++ f]
  | notCreated d fault => ["cannot create " ++ d, fault.message]
  | notWritten p fault => ["cannot write " ++ p, fault.message]

-- A file of settings that is asked for has to exist, the usual one need not.
def settingsOf (env : Environment) (d : Disk) : Option Path → Except Failure Settings
  | none => do
    let s ← (Settings.load env d (Settings.usualPath env)).mapError .settings
    return s.getD {}
  | some p => do
    match ← (Settings.load env d p).mapError .settings with
    | none   => throw (.noSettings p)
    | some s => return s

def input (d : Disk) (file : Path) : Except Failure Text :=
  (d.read file).mapError (.unreadable file)

def collect (d : Disk) (files : List Path) : Except Failure Markdown.Collection :=
  files.foldlM (fun c file => do
    match file.stem? with
    | none      => throw (.unnamed file)
    | some name => return c.insert name (← input d file)) .empty

def run (settings : Settings) (d : Disk) : Command → Except Failure Output
  | .markdown file toc => do
    let x ← input d file
    let page ← (Markdown.Page.ofText settings.markdown x).mapError (.unconverted file)
    let text := if toc && !page.toc.isEmpty then joinBlocks [page.toc, page.text] else page.text
    return ⟨text, file, "html"⟩
  | .docstring file rst => do
    let doc := trim (dedent (← input d file))
    let bs ← (Docstring.read settings.docstrings doc).mapError (.unparsed file)
    return if rst then ⟨Docstring.Format.rst.print bs, file, "rst"⟩
      else ⟨Docstring.Format.markdown.print bs, file, "md"⟩
  | .tree file html => do
    let t := Tree.ofOutline (← input d file)
    return if html then ⟨t.toHtml settings.markdown.htmlIndent, file, "html"⟩
      else ⟨t.draw, file, "txt"⟩
  | .contents files level => do
    let c ← collect d files
    let step := settings.markdown.htmlIndent
    let text ← match level with
      | some n => (c.sectionedContents n step).mapError .noContents
      | none   => (c.contents step).mapError .noContents
    return ⟨text, "contents", "html"⟩

-- Writes output to its file, if there is a directory for it, and tells the file.
def emit (settings : Settings) (d : Disk) (o : Output) : Except Failure (Option Path × Disk) :=
  match settings.outputPath o.input o.extension with
  | none      => .ok (none, d)
  | some path => do
    let d ← match path.parent? with
      | none     => pure d
      | some dir => (d.makeDirectories dir).mapError (.notCreated dir)
    let d ← (d.write path o.text).mapError (.notWritten path)
    return (some path, d)

-- Runs a command with its settings and emits the output: what was produced, the file that it went
-- to, and what the disk holds afterwards.
def Invocation.perform (call : Invocation) (env : Environment) (d : Disk) :
    Except Failure (Output × Option Path × Disk) := do
  let settings ← settingsOf env d call.config
  let output ← run settings d call.command
  let (path, d) ← emit settings d output
  return (output, path, d)

-- A whole run from the arguments on.
def perform (env : Environment) (d : Disk) (args : List Text) :
    Except Failure (Output × Option Path × Disk) := do
  let call ← (read args).mapError .usage
  call.perform env d

end DocPress.Command
