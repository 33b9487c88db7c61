import DocPress.Command.Run

-- The program. It looks at the files that a command needs, runs the command on them, and prints the
-- output or writes it to its file.

namespace DocPress

open Text

-- The number that the system gives for a file that turns out to be a directory.
def directoryCode : UInt32 := 21

-- What there is at a path.
def lookAt (p : Path) : IO (Option Disk.Node) := do
  try
    let bytes ← IO.FS.readBinFile (String.ofList p)
    return some (.file ((String.fromUTF8? bytes).map String.toList))
  catch e =>
    match e with
    | .noFileOrDirectory _ _ _    => return none
    | .inappropriateType _ code _ =>
      if code = directoryCode then return some .directory else throw e
    | _                           => throw e

-- The disk as far as it lies at some paths.
def lookAtAll (ps : List Path) : IO Disk :=
  ps.foldlM (fun d p => do
    match ← lookAt p with
    | none   => return d
    | some n => return (d.put p n).toOption.getD d) .empty

def environmentOf (names : List Text) : IO Environment := do
  let bindings ← names.filterMapM fun name => do
    return (← IO.getEnv (String.ofList name)).map fun value => (name, value.toList)
  return ⟨bindings⟩

-- Prints what went wrong, followed by why.
def complain : List Text → IO Unit
  | []      => return
  | m :: ms => do
    IO.eprintln ("Error: " ++ String.ofList m)
    for cause in ms do
      IO.eprintln ("Caused by: " ++ String.ofList cause)

def announce (u : Command.Usage) : IO Unit :=
  IO.println (String.ofList u.message)

-- Prints output that has no file, and writes all other.
def deliver (text : Text) : Option Path → IO Unit
  | none   => IO.println (String.ofList text)
  | some p => do
    match p.parent? with
    | some (c :: dir) => IO.FS.createDirAll (String.ofList (c :: dir))
    | _               => pure ()
    IO.FS.writeFile (String.ofList p) (String.ofList text)
    IO.eprintln ("wrote " ++ String.ofList p)

def start (call : Command.Invocation) : IO UInt32 := do
  let home ← environmentOf ["HOME"]
  let settings := call.config.getD (Settings.usualPath home)
  let d ← lookAtAll (settings :: call.command.files)
  let env ← environmentOf ("HOME" :: Settings.mentioned d settings)
  match call.perform env d with
  | .error e             => complain e.messages; return 1
  | .ok (output, path, _) => deliver output.text path; return 0

end DocPress

def main (args : List String) : IO UInt32 := do
  match DocPress.Command.read (args.map String.toList) with
  | .ok call        => DocPress.start call
  | .error .help    => DocPress.announce .help; return 0
  | .error .version => DocPress.announce .version; return 0
  | .error u        => DocPress.complain [u.message]; return 2
