import DocPress.Text.Class
import DocPress.Text.Case.Table

-- Full case mapping: a character may map to several, and a sigma that ends a word has a lower case
-- of its own.

namespace DocPress.Text

namespace Case

def Run.image? (run : Run) (n : Nat) : Option Nat :=
  if run.first ≤ n ∧ n ≤ run.last ∧ (n - run.first) % run.step = 0 then
    some (run.image + (n - run.first))
  else
    none

def map (runs : List Run) (texts : List (Nat × List Nat)) (c : Char) : Text :=
  match texts.lookup c.toNat with
  | some ns => ns.map Char.ofNat
  | none    => [(runs.findSome? (·.image? c.toNat)).elim c Char.ofNat]

def isCased (c : Char) : Bool :=
  if c.toNat < 128 then c.isAlpha else inRanges cased c

def isIgnorable (c : Char) : Bool :=
  if c.toNat < 128 then c ∈ ['\x27', '.', ':', '^', '\x60'] else inRanges ignorable c

-- A letter follows, possibly after characters that letter case ignores.
def letterNext (x : Text) : Bool :=
  (x.dropWhile isIgnorable).head?.any isCased

end Case

def lowerChar (c : Char) : Text :=
  if c.toNat < 128 then [c.toLower] else Case.map Case.lowerRuns Case.lowerTexts c

def upperChar (c : Char) : Text :=
  if c.toNat < 128 then [c.toUpper] else Case.map Case.upperRuns Case.upperTexts c

-- The lower case of the text after `before`, which is given backwards. A capital sigma with a
-- letter before it and none after it ends its word.
def lowerFrom (before : Text) : Text → Text
  | []     => []
  | c :: r =>
    let image :=
      if c = 'Σ' then
        if Case.letterNext before && !Case.letterNext r then ['ς'] else ['σ']
      else lowerChar c
    image ++ lowerFrom (c :: before) r

def lower (x : Text) : Text :=
  lowerFrom [] x

-- The first character in upper case and the others in lower case, each by itself.
def title : Text → Text
  | []     => []
  | c :: r => upperChar c ++ r.flatMap lowerChar

end DocPress.Text
