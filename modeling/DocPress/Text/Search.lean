import DocPress.Text.Basic

-- Leftmost search without overlaps. A search is given by the width of the match that begins at
-- the front of a text, zero where none does. The pieces of a text are its matches and the single
-- characters between them.

namespace DocPress.Text

inductive Piece where
  | other (c : Char)
  | found (x : Text)
  deriving DecidableEq, Repr

namespace Piece

def text : Piece → Text
  | other c => [c]
  | found x => x

def match? : Piece → Option Text
  | other _ => none
  | found x => some x

end Piece

def pieces (widthAt : Text → Nat) : Text → List Piece
  | []     => []
  | c :: r =>
    match widthAt (c :: r) with
    | 0     => .other c :: pieces widthAt r
    | n + 1 => .found (c :: r.take n) :: pieces widthAt (r.drop n)
termination_by x => x.length
decreasing_by
  · exact Nat.lt_succ_self _
  · simp only [List.length_cons, List.length_drop]; omega

-- Nothing is lost and nothing is moved.
theorem flatMap_text_pieces (widthAt : Text → Nat) (x : Text) :
    (pieces widthAt x).flatMap Piece.text = x := by
  fun_induction pieces widthAt x with
  | case1 => rfl
  | case2 _ _ _ ih => simp [Piece.text, ih]
  | case3 c r n _ ih => simp [Piece.text, ih]

def findAll (widthAt : Text → Nat) (x : Text) : List Text :=
  (pieces widthAt x).filterMap Piece.match?

-- Puts something else in the place of every match and keeps what stands between them.
def substitute (widthAt : Text → Nat) (f : Text → Text) (x : Text) : Text :=
  (pieces widthAt x).flatMap fun
    | .other c => [c]
    | .found y => f y

-- The parts between the matches, in order; there is one more of them than of matches.
def splitParts : List Piece → List Text
  | []             => [[]]
  | .other c :: ps => (splitParts ps).modifyHead (c :: ·)
  | .found _ :: ps => [] :: splitParts ps

def splitAround (widthAt : Text → Nat) (x : Text) : List Text :=
  splitParts (pieces widthAt x)

def literal (old x : Text) : Nat :=
  if old.isPrefixOf x then old.length else 0

-- Replaces every occurrence of a text, from the left and without overlaps.
def replace (old new x : Text) : Text :=
  substitute (literal old) (fun _ => new) x

-- Replaces the first occurrence only.
def replaceFirst (old new : Text) : Text → Text
  | []     => []
  | c :: r =>
    if old.isPrefixOf (c :: r) then new ++ (c :: r).drop old.length
    else c :: replaceFirst old new r

end DocPress.Text
