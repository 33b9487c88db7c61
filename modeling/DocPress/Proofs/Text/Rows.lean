import DocPress.Proofs.Text.Margin

-- Rows are lines that are printed below each other. The only white space on them are spaces, so a
-- text that is joined from rows is read back row by row, and every row of it is moved with it.

namespace DocPress.Text

-- The text has no white space other than spaces.
def Spaced (x : Text) : Prop :=
  ∀ c ∈ x, c = ' ' ∨ isBlank c = false

instance (x : Text) : Decidable (Spaced x) :=
  List.decidableBAll (fun c => c = ' ' ∨ isBlank c = false) x

structure IsRow (l : Text) : Prop where
  spaced   : Spaced l
  notBlank : blank l = false

variable {x y l : Text} {ls : List Text}

theorem spaced_append (hx : Spaced x) (hy : Spaced y) : Spaced (x ++ y) :=
  List.forall_mem_append.mpr ⟨hx, hy⟩

theorem spaced_spaces (n : Nat) : Spaced (spaces n) :=
  fun _ hc => .inl (List.eq_of_mem_replicate hc)

theorem spaced_oneLine (x : Text) : Spaced (oneLine x) :=
  fun _ hc => (of_mem_oneLine hc).imp_right And.right

theorem Spaced.not_mem {c : Char} (h : Spaced x) (hs : c ≠ ' ') (hb : isBlank c) : c ∉ x :=
  fun hc => (h c hc).elim hs fun hn => Bool.noConfusion (hn.symm.trans hb)

theorem Spaced.lineFeed (h : Spaced x) : '\n' ∉ x :=
  h.not_mem (by decide) (by decide)

namespace IsRow

theorem ne_nil (h : IsRow l) : l ≠ [] :=
  ne_nil_of_not_blank h.notBlank

theorem append (hx : Spaced x) (h : IsRow l) : IsRow (x ++ l) where
  spaced   := spaced_append hx h.spaced
  notBlank := not_blank_append h.notBlank

end IsRow

theorem lines_of_rows (h : ∀ l ∈ ls, IsRow l) : lines (joinLines ls) = ls :=
  lines_joinLines fun l hl =>
    ⟨(h l hl).ne_nil, (h l hl).spaced.lineFeed, (h l hl).spaced.not_mem (by decide) (by decide)⟩

theorem splitLines_of_rows (h : ∀ l ∈ ls, IsRow l) (hn : ls ≠ []) :
    splitLines (joinLines ls) = ls :=
  splitLines_joinLines (fun l hl => (h l hl).spaced.lineFeed) hn

end DocPress.Text
