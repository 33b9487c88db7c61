import DocPress.Error
import DocPress.Markdown.Block

-- Documents are cut into blocks at empty lines. A fence keeps what is behind it together until the
-- next fence.

namespace DocPress.Markdown

open Text

-- The lines of a finished paragraph.
def paragraph (ls : List Text) : List Text :=
  [trim (joinLines ls)].filter (· ≠ [])

-- Reads lines from a given number on, with the number of the line that opened the current fence, if
-- one is open, and the lines of the current paragraph.
def cut (n : Nat) (fence : Option Nat) (current : List Text) : List Text → Except Error (List Text)
  | [] =>
    match fence with
    | some line => .error (.unclosedFence line)
    | none      => .ok (paragraph current)
  | l :: ls =>
    if Fence.isFence l then
      cut (n + 1) (if fence.isSome then none else some n) (current ++ [l]) ls
    else if fence.isSome || !blank l then
      cut (n + 1) fence (current ++ [l]) ls
    else
      (paragraph current ++ ·) <$> cut (n + 1) fence [] ls

def paragraphs (x : Text) : Except Error (List Text) :=
  cut 1 none [] (lines x)

def blocks (x : Text) : Except Error (List Block) :=
  (·.map Block.ofText) <$> paragraphs x

-- The texts of the headings of a document.
def headings (x : Text) : Except Error (List Text) :=
  (fun bs => (bs.filter (·.kind = .heading)).map (·.text)) <$> blocks x

end DocPress.Markdown
