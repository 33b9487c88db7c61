import DocPress.Disk.Path
import DocPress.Text.Lines

namespace DocPress

open Text

-- What a run is asked to do.
inductive Command where
  | markdown (file : Path) (toc : Bool)
  | docstring (file : Path) (rst : Bool)
  | tree (file : Path) (html : Bool)
  | contents (files : List Path) (level : Option Nat)
  deriving DecidableEq, Repr

namespace Command

-- The files that a command reads.
def files : Command → List Path
  | markdown f _  => [f]
  | docstring f _ => [f]
  | tree f _      => [f]
  | contents fs _ => fs

-- A command with the file that its settings are read from, if it names one.
structure Invocation where
  config  : Option Path
  command : Command
  deriving DecidableEq, Repr

-- The causes for which arguments do not make a command. Asking for help or for the version is one.
inductive Usage where
  | missingArgument
  | missingCommand
  | unknownArgument
  | unknownCommand
  | missingValue
  | invalidValue
  | unwantedValue
  | repeated
  | help
  | helpForNothing
  | version
  deriving DecidableEq, Repr

-- What is told to those who ask for help.
def guide : Text :=
  joinLines [
    "Render Markdown, docstrings and trees to HTML",
    "",
    "Usage: docspyer [--config FILE] COMMAND",
    "",
    "Commands:",
    "  markdown FILE [--toc]        Convert a Markdown file to HTML",
    "  docstring FILE [--rst]       Convert a docstring to Markdown or reStructuredText",
    "  tree FILE [--html]           Draw a dash list as a tree",
    "  contents FILES [--multi N]   Build a table of contents over Markdown files",
    "  help                         Print this text"]

def Usage.message : Usage → Text
  | missingArgument => "a required argument is missing"
  | missingCommand  => "a command is missing"
  | unknownArgument => "unexpected argument"
  | unknownCommand  => "unknown command"
  | missingValue    => "an option lacks its value"
  | invalidValue    => "invalid value"
  | unwantedValue   => "a value is given to an option that takes none"
  | repeated        => "an option is given twice"
  | help            => guide
  | helpForNothing  => guide
  | version         => "docspyer 0.1.0"

end Command
end DocPress
