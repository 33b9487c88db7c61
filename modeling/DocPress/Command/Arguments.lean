import DocPress.Command.Basic

-- Command lines. An option is settled when the next one is met, or at the end, so that the first
-- fault is not always the one that is told.

namespace DocPress.Command

open Text

inductive Name where
  | markdown
  | docstring
  | tree
  | contents
  deriving DecidableEq, Repr

def names : List (Text × Name) :=
  [("markdown", .markdown), ("docstring", .docstring), ("tree", .tree), ("contents", .contents)]

def helpName : Text := "help"

-- What a value is given to.
inductive Slot where
  | config
  | level
  | files
  deriving DecidableEq, Repr

inductive Action where
  | value (slot : Slot)
  | switch
  | help
  | version
  deriving DecidableEq, Repr

def globalOptions : List (Text × Action) :=
  [("config", .value .config), ("help", .help)]

-- The options that a command knows.
def Name.options : Name → List (Text × Action)
  | markdown  => ("toc", .switch) :: globalOptions
  | docstring => ("rst", .switch) :: globalOptions
  | tree      => ("html", .switch) :: globalOptions
  | contents  => ("multi", .value .level) :: globalOptions

def topOptions : List (Text × Action) :=
  ("version", .version) :: globalOptions

-- What has been read. The values that came last are pending, and an option may still wait for one.
structure State where
  config  : Option Path := none
  level   : Option Nat := none
  switch  : Bool := false
  files   : List Path := []
  pending : Option (Slot × List Text) := none
  waiting : Option Slot := none
  deriving DecidableEq, Repr

def count? (x : Text) : Option Nat :=
  let digits := dropStart ['+'] x
  if digits.isEmpty || !digits.all Char.isDigit then none
  else
    let n := digits.foldl (fun n c => 10 * n + (c.toNat - '0'.toNat)) 0
    if n < Nat.pow 2 64 then some n else none

namespace State

-- Gives values to what they are for.
def give (s : State) : Slot → List Text → Except Usage State
  | .files, xs =>
    if xs.any (·.isEmpty) then .error .missingValue
    else .ok { s with files := s.files ++ xs }
  | .config, [x] =>
    if s.config.isSome then .error .repeated
    else if x.isEmpty then .error .missingValue
    else .ok { s with config := some x }
  | .level, [x] =>
    if s.level.isSome then .error .repeated
    else
      match count? x with
      | none   => .error .invalidValue
      | some n => .ok { s with level := some n }
  | _, _ => .error .missingValue

def settle (s : State) : Except Usage State :=
  match s.pending with
  | none            => .ok s
  | some (slot, xs) => give { s with pending := none } slot xs

def fileCount (s : State) : Nat :=
  s.files.length +
    match s.pending with
    | some (.files, xs) => xs.length
    | _                 => 0

def addFile (s : State) (x : Text) : Except Usage State :=
  match s.pending with
  | some (.files, xs) => .ok { s with pending := some (.files, xs ++ [x]) }
  | _                 => do
    let s ← s.settle
    return { s with pending := some (.files, [x]), waiting := none }

-- An option with a long name, and perhaps a value behind an equals sign.
def long (options : List (Text × Action)) (s : State) (x : Text) : Except Usage State :=
  let (name, value) :=
    match splitAt? '=' x with
    | some (name, value) => (name, some value)
    | none               => (x, none)
  match options.lookup name, value with
  | none,               _       => .error .unknownArgument
  | some (.value slot), some v  => do give { ← s.settle with waiting := none } slot [v]
  | some (.value slot), none    => do
    return { ← s.settle with pending := some (slot, []), waiting := some slot }
  | some _,             some _  => .error .unwantedValue
  | some .switch,       none    => do
    let s ← s.settle
    if s.switch then .error .repeated else return { s with switch := true, waiting := none }
  | some .help,         none    => do let _ ← s.settle; .error .help
  | some .version,      none    => do let _ ← s.settle; .error .version

-- Options with short names ask for help or for the version.
def short (options : List (Text × Action)) (s : State) (c : Char) : Except Usage State :=
  if c = 'h' then do let _ ← s.settle; .error .help
  else if c = 'V' ∧ options.any (·.2 = .version) then do let _ ← s.settle; .error .version
  else .error .unknownArgument

end State

-- The arguments behind the name of a command.
def readRest (name : Name) (trailing : Bool) (s : State) : List Text → Except Usage State
  | []      => s.settle
  | x :: xs =>
    let positional : Except Usage State :=
      if name ≠ .contents ∧ 0 < s.fileCount then .error .unknownArgument else s.addFile x
    if trailing then do readRest name true (← positional) xs
    else
      match x with
      | ['-', '-']    => readRest name true s xs
      | '-' :: '-' :: y => do readRest name false (← s.long name.options y) xs
      | '-' :: c :: _   => do readRest name false (← s.short name.options c) xs
      | _ =>
        match s.waiting with
        | some slot =>
          readRest name false { s with pending := some (slot, [x]), waiting := none } xs
        | none => do readRest name false (← positional) xs

def ofState (name : Name) (s : State) : Except Usage Command :=
  match name, s.files with
  | _,          []     => .error .missingArgument
  | .markdown,  f :: _ => .ok (.markdown f s.switch)
  | .docstring, f :: _ => .ok (.docstring f s.switch)
  | .tree,      f :: _ => .ok (.tree f s.switch)
  | .contents,  fs     => .ok (.contents fs s.level)

-- Help may be asked for any command.
def readHelp : List Text → Usage
  | []      => .help
  | x :: xs =>
    if (names.lookup x).isSome ∨ x = helpName then
      if xs.isEmpty then .help else .unknownCommand
    else .unknownCommand

-- The arguments up to the name of a command. A file of settings that is named behind it wins over
-- one that is named before.
def readTop (trailing : Bool) (s : State) : List Text → Except Usage Invocation
  | [] => do
    let s ← s.settle
    .error (if s.config.isSome then .missingCommand else .helpForNothing)
  | x :: xs =>
    if trailing then
      .error (if (names.lookup x).isSome ∨ x = helpName then .unknownArgument else .unknownCommand)
    else
      match s.waiting, names.lookup x with
      | none, some name => do
        let rest ← readRest name false {} xs
        let command ← ofState name rest
        let s ← s.settle
        return ⟨rest.config <|> s.config, command⟩
      | waiting, _ =>
        if waiting.isNone ∧ x = helpName then .error (readHelp xs)
        else
          match x with
          | ['-', '-']      => readTop true s xs
          | '-' :: '-' :: y => do readTop false (← s.long topOptions y) xs
          | '-' :: c :: _   => do readTop false (← s.short topOptions c) xs
          | _ =>
            match waiting with
            | some slot => readTop false { s with pending := some (slot, [x]), waiting := none } xs
            | none      => .error .unknownCommand

def read (args : List Text) : Except Usage Invocation :=
  readTop false {} args

end DocPress.Command
