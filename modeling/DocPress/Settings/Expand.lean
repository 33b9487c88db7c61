import DocPress.Text.Class

-- The output directory may name variables and start at the home directory.

namespace DocPress

open Text

-- The variables of the surroundings.
structure Environment where
  bindings : List (Text × Text)
  deriving Repr

namespace Environment

def find? (env : Environment) (name : Text) : Option Text :=
  env.bindings.lookup name

def isNameChar (c : Char) : Bool :=
  isAlphanumeric c || c = '_'

-- The parts before and after the first colon that a hyphen follows.
def splitDefault? : Text → Option (Text × Text)
  | ':' :: '-' :: x => some ([], x)
  | c :: x          => (splitDefault? x).map fun (a, b) => (c :: a, b)
  | []              => none

-- What stands between braces is a name, or a name with a default.
def braced (env : Environment) (x : Text) : Option Text :=
  match splitDefault? x with
  | some (name, value) =>
    if name = [] then env.find? x else some ((env.find? name).getD value)
  | none => env.find? x

-- Replaces every variable. A dollar sign that starts none stays, and two of them make one.
def expandVariables (env : Environment) : Text → Option Text
  | [] => some []
  | c :: x =>
    if c ≠ '$' then (c :: ·) <$> env.expandVariables x
    else
      match x with
      | [] => some ['$']
      | '$' :: y => ('$' :: ·) <$> env.expandVariables y
      | '\x7b' :: y =>
        match splitAt? '\x7d' y with
        | none => ("$\x7b" ++ · : Text → Text) <$> env.expandVariables y
        | some (inside, _) => do
          let value ← env.braced inside
          (value ++ ·) <$> env.expandVariables (y.drop (inside.length + 1))
      | d :: y =>
        if isNameChar d then do
          let value ← env.find? (d :: y.takeWhile isNameChar)
          (value ++ ·) <$> env.expandVariables (y.dropWhile isNameChar)
        else ('$' :: ·) <$> env.expandVariables (d :: y)
termination_by x => x.length
decreasing_by
  all_goals simp only [List.length_cons, List.length_drop]
  all_goals first
    | omega
    | exact Nat.lt_of_le_of_lt (List.dropWhile_suffix isNameChar).length_le (by omega)

-- A tilde at the start that stands alone or before a slash is the home directory.
def expandHome (env : Environment) (x : Text) : Text :=
  match x with
  | '~' :: y =>
    if y.isEmpty || y.head? = some '/' then
      match env.find? "HOME" with
      | some home => home ++ y
      | none      => x
    else x
  | _ => x

-- If a variable is not set nothing is expanded. A tilde that only a variable has put at the start
-- stays as it is.
def expand (env : Environment) (x : Text) : Text :=
  match env.expandVariables x with
  | none   => x
  | some y => if x.head? ≠ some '~' ∧ y.head? = some '~' then y else env.expandHome y

-- The names that may be looked up for what follows a dollar sign.
def namesAfter : Text → List Text
  | '\x7b' :: y =>
    match splitAt? '\x7d' y with
    | none             => []
    | some (inside, _) => inside :: ((splitDefault? inside).map (·.1)).toList
  | y => [y.takeWhile isNameChar]

-- The names on which the expansion of a text may depend.
def namesIn : Text → List Text
  | []     => ["HOME"]
  | c :: x => (if c = '$' then namesAfter x else []) ++ namesIn x

end Environment
end DocPress
