import DocPress.Disk.Basic
import DocPress.Settings.Decode
import DocPress.Settings.Encode
import DocPress.Settings.Expand

-- Settings in files, and the files that settings lead to.

namespace DocPress.Settings

open Text

inductive LoadError where
  | unreadable (path : Path) (fault : Fault)
  | malformed (path : Path)
  deriving DecidableEq, Repr

def LoadError.message : LoadError → Text
  | unreadable path fault => "Failed to read config file at " ++ path ++ ": " ++ fault.message
  | malformed path        => "Failed to parse config file at " ++ path

-- Settings from a file, if it exists.
def load (env : Environment) (d : Disk) (p : Path) : Except LoadError (Option Settings) :=
  if d.exists? p then
    match d.read p with
    | .error fault => .error (.unreadable p fault)
    | .ok x        =>
      match ofText? x with
      | none   => .error (.malformed p)
      | some s => .ok (some { s with outputDir := s.outputDir.map env.expand })
  else .ok none

-- The names of the variables on which settings from a file may depend.
def mentioned (d : Disk) (p : Path) : List Text :=
  match d.read p with
  | .error _ => []
  | .ok x    => (((ofText? x).bind (·.outputDir)).map Environment.namesIn).getD []

inductive SaveError where
  | fault (f : Fault)
  -- A number that a document cannot hold.
  | tooLarge
  deriving DecidableEq, Repr

def SaveError.message : SaveError → Text
  | fault f  => f.message
  | tooLarge => "out-of-range value for u64 type"

-- Makes the directory of the file, if need be, before anything is written.
def save (d : Disk) (p : Path) (s : Settings) : Except SaveError Disk := do
  let d ← match p.parent? with
    | none     => pure d
    | some dir => (d.makeDirectories dir).mapError .fault
  match s.toText? with
  | none   => throw .tooLarge
  | some x => (d.write p x).mapError .fault

def usualPath (env : Environment) : Path :=
  Path.join (env.expandHome "~/.config/docspyer") "config.toml"

-- Where the output for an input goes, if there is a directory for it.
def outputPath (s : Settings) (input : Path) (extension : Text) : Option Path := do
  let dir ← s.outputDir
  let stem ← input.stem?
  return (Path.join dir stem).withExtension extension

end DocPress.Settings
