import DocPress.Text.Basic

-- Quoted text. A quote may span lines when its mark stands three times at both ends, and it may
-- know escapes.

namespace DocPress.Toml

open Text

structure Quote where
  mark      : Char
  escapes   : Bool
  multiline : Bool
  deriving DecidableEq, Repr

namespace Quote

def basic        : Quote := ⟨'"', true, false⟩
def literal      : Quote := ⟨'\x27', false, false⟩
def multiBasic   : Quote := ⟨'"', true, true⟩
def multiLiteral : Quote := ⟨'\x27', false, true⟩

end Quote

def isSpace (c : Char) : Bool :=
  c = ' ' || c = '\t'

-- What may stand in a line without an escape: anything but the control characters, of which only
-- the tab is allowed.
def isPlain (c : Char) : Bool :=
  c = '\t' || (0x20 ≤ c.toNat && c.toNat ≠ 0x7F)

-- A line ends with a line feed, or with a carriage return before one.
def newline? : Text → Option Text
  | '\n' :: x         => some x
  | '\r' :: '\n' :: x => some x
  | _                 => none

def skipNewline (x : Text) : Text :=
  (newline? x).getD x

def skipSpaces : Text → Text
  | ' ' :: x          => skipSpaces x
  | '\t' :: x         => skipSpaces x
  | '\n' :: x         => skipSpaces x
  | '\r' :: '\n' :: x => skipSpaces x
  | x                 => x

theorem length_skipSpaces_le (x : Text) : (skipSpaces x).length ≤ x.length := by
  fun_induction skipSpaces x <;> simp_all <;> omega

-- The value of a digit in some base up to sixteen.
def digitValue (c : Char) : Option Nat :=
  if c.isDigit then some (c.toNat - '0'.toNat)
  else if 'a' ≤ c ∧ c ≤ 'f' then some (c.toNat - 'a'.toNat + 10)
  else if 'A' ≤ c ∧ c ≤ 'F' then some (c.toNat - 'A'.toNat + 10)
  else none

def numeral (base : Nat) (x : Text) : Option Nat :=
  x.foldlM (fun n c => do
    let d ← digitValue c
    if d < base then some (n * base + d) else none) 0

-- The character with a code of so many hexadecimal digits.
def coded (digits : Nat) (x : Text) : Option (Char × Nat) :=
  if x.length < digits then none
  else
    match numeral 16 (x.take digits) with
    | none   => none
    | some n => if n.isValidChar then some (Char.ofNat n, digits + 1) else none

-- The character that an escape stands for, with the width of what follows the backslash.
def escape? : Text → Option (Char × Nat)
  | 'b' :: _  => some ('\x08', 1)
  | 't' :: _  => some ('\t', 1)
  | 'n' :: _  => some ('\n', 1)
  | 'f' :: _  => some ('\x0C', 1)
  | 'r' :: _  => some ('\r', 1)
  | 'e' :: _  => some ('\x1B', 1)
  | '"' :: _  => some ('"', 1)
  | '\\' :: _ => some ('\\', 1)
  | 'x' :: x  => coded 2 x
  | 'u' :: x  => coded 4 x
  | 'U' :: x  => coded 8 x
  | _         => none

-- Reads up to the end of a quote. A backslash at the end of a line takes the space up to the next
-- character away, and up to two marks may stand before the three that end a quote.
def readQuoted (q : Quote) : Text → Option (Text × Text)
  | [] => none
  | c :: x =>
    if c = q.mark then
      if q.multiline then
        if startsWith x [q.mark, q.mark] then
          let y := x.drop 2
          let more := (y.takeWhile (· = q.mark)).take 2
          some (more, y.drop more.length)
        else (readQuoted q x).map fun (y, r) => (c :: y, r)
      else some ([], x)
    else if c = '\\' ∧ q.escapes then
      if q.multiline ∧ (newline? (x.dropWhile isSpace)).isSome then
        readQuoted q (skipSpaces x)
      else
        match escape? x with
        | none        => none
        | some (d, n) => (readQuoted q (x.drop n)).map fun (y, r) => (d :: y, r)
    else if isPlain c ∨ (q.multiline ∧ (newline? (c :: x)).isSome) then
      (readQuoted q x).map fun (y, r) => (c :: y, r)
    else none
termination_by x => x.length
decreasing_by
  · exact Nat.lt_succ_self _
  · exact Nat.lt_succ_of_le (length_skipSpaces_le x)
  · simp only [List.length_cons, List.length_drop]; omega
  · exact Nat.lt_succ_self _

-- Reads a quote of any of the four kinds. A line end right behind the opening marks is left out.
def quoted? : Text → Option (Text × Text)
  | '"' :: '"' :: '"' :: x          => readQuoted .multiBasic (skipNewline x)
  | '"' :: x                        => readQuoted .basic x
  | '\x27' :: '\x27' :: '\x27' :: x => readQuoted .multiLiteral (skipNewline x)
  | '\x27' :: x                     => readQuoted .literal x
  | _                               => none

-- The longest run of a character.
def longestRun (mark : Char) : Nat → Text → Nat
  | n, []     => n
  | n, c :: x => if c = mark then longestRun mark (n + 1) x else max n (longestRun mark 0 x)

def needsEscape (c : Char) : Bool :=
  !isPlain c && c ≠ '\n'

-- The plainest quote that takes a text without escapes, if there is one.
def Quote.forText (x : Text) : Quote :=
  let plain := !x.any needsEscape
  let line := !x.contains '\n'
  if plain && line && !x.contains '\\' && !x.contains '"' then .basic
  else if plain && line && !x.contains '\x27' then .literal
  else if plain && !x.contains '\\' && decide (longestRun '"' 0 x ≤ 2) then .multiBasic
  else if plain && decide (longestRun '\x27' 0 x ≤ 2) then .multiLiteral
  else if line then .basic
  else .multiBasic

def hexDigits (width n : Nat) : Text :=
  let ds := (Nat.toDigits 16 n).map Char.toUpper
  List.replicate (width - ds.length) '0' ++ ds

def escapeChar (multiline : Bool) (c : Char) : Text :=
  if c = '\x08' then "\\b"
  else if c = '\t' then "\\t"
  else if c = '\n' then if multiline then [c] else "\\n"
  else if c = '\x0C' then "\\f"
  else if c = '\r' then "\\r"
  else if c = '\\' then "\\\\"
  else if isPlain c then [c]
  else "\\u" ++ hexDigits 4 c.toNat

-- Writes text with escapes. A quotation mark is escaped when so many precede it that it could end
-- the quote.
def writeEscaped (multiline : Bool) : Nat → Text → Text
  | _, []     => []
  | n, c :: x =>
    if c = '"' then
      (if n < (if multiline then 2 else 0) then [c] else ['\\', c]) ++
        writeEscaped multiline (n + 1) x
    else escapeChar multiline c ++ writeEscaped multiline 0 x

def Quote.marks (q : Quote) : Text :=
  if q.multiline then [q.mark, q.mark, q.mark] else [q.mark]

def writeIn (q : Quote) (x : Text) : Text :=
  q.marks ++ (if q.multiline && x.contains '\n' then ['\n'] else []) ++
    (if q.escapes then writeEscaped q.multiline 0 x else x) ++ q.marks

def writeQuoted (x : Text) : Text :=
  writeIn (.forText x) x

end DocPress.Toml
