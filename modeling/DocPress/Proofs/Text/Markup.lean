import DocPress.Proofs.Text.Rows

-- Text with tags, printed row by row from the top. A row has a depth, which is the number of spaces
-- in front of it, and its parts are tags and what stands between them.

namespace DocPress

open Text

namespace Markup

inductive Part where
  | opening (tag : Text)
  | closing (tag : Text)
  | content (x : Text)

def Part.print : Part → Text
  | opening tag => "<" ++ tag ++ ">"
  | closing tag => "</" ++ tag ++ ">"
  | content x   => x

structure Row where
  depth : Nat
  parts : List Part

-- Every tag that is opened is closed again, after all tags that are opened inside it.
inductive Nested : List Part → Prop
  | nil : Nested []
  | content {x ps} (hs : Nested ps) : Nested (.content x :: ps)
  | tag {t ps qs} (hp : Nested ps) (hs : Nested qs) :
    Nested (.opening t :: (ps ++ .closing t :: qs))

-- Rows between a first and a last one.
def enclosed (depth : Nat) (first last : List Part) (rows : List Row) : List Row :=
  ⟨depth, first⟩ :: (rows ++ [⟨depth, last⟩])

variable {ps qs first last : List Part} {rs : List Row} {tag x : Text} {depth k : Nat}

namespace Nested

theorem append (hp : Nested ps) (hq : Nested qs) : Nested (ps ++ qs) := by
  induction hp
  case nil                      => exact hq
  case content ih               => exact .content ih
  case tag t ps ps' hp _ _ ih => simpa using Nested.tag (t := t) hp ih

theorem element (hp : Nested ps) : Nested (.opening tag :: (ps ++ [.closing tag])) :=
  .tag hp .nil

end Nested

namespace Row

-- What stands on the row behind the spaces.
def text (r : Row) : Text :=
  r.parts.flatMap Part.print

def print (r : Row) : Text :=
  spaces r.depth ++ r.text

def shift (k : Nat) (r : Row) : Row where
  depth := k + r.depth
  parts := r.parts

-- The row begins with a tag, and there is no other white space on it than spaces.
structure Proper (r : Row) : Prop where
  head   : r.text.head? = some '<'
  spaced : ∀ p ∈ r.parts, Spaced p.print

variable {r : Row}

theorem print_shift (k : Nat) (r : Row) : (r.shift k).print = spaces k ++ r.print := by
  simp only [print, shift, text, spaces_add, List.append_assoc]

theorem Proper.shift (h : r.Proper) (k : Nat) : (r.shift k).Proper :=
  ⟨h.head, h.spaced⟩

theorem Proper.opening (ht : Spaced tag) (hp : ∀ p ∈ ps, Spaced p.print) :
    Proper ⟨depth, .opening tag :: ps⟩ where
  head   := rfl
  spaced :=
    have hs : Spaced (Part.opening tag).print :=
      spaced_append (spaced_append (by decide) ht) (by decide)
    List.forall_mem_cons.mpr ⟨hs, hp⟩

theorem Proper.closing (depth : Nat) (ht : Spaced tag) : Proper ⟨depth, [.closing tag]⟩ where
  head   := rfl
  spaced :=
    have hs : Spaced (Part.closing tag).print :=
      spaced_append (spaced_append (by decide) ht) (by decide)
    List.forall_mem_singleton.mpr hs

theorem Proper.isRow (h : r.Proper) : IsRow r.print := by
  have hs : Spaced r.text := fun c hc =>
    have ⟨p, hp, hc⟩ := List.mem_flatMap.mp hc
    h.spaced p hp c hc
  exact .append (spaced_spaces _) ⟨hs, not_blank_of_head h.head rfl⟩

-- Taking the spaces off a printed row leaves what stands behind them.
theorem Proper.dropWhile_print (h : r.Proper) : r.print.dropWhile (· = ' ') = r.text := by
  have hs : ∀ c ∈ spaces r.depth, decide (c = ' ') := fun c hc =>
    decide_eq_true (List.eq_of_mem_replicate hc)
  rw [print, List.dropWhile_append_of_pos hs]
  exact dropWhile_eq_self fun c hc => by cases h.head.symm.trans hc; rfl

end Row

theorem enclosed_proper (hf : Row.Proper ⟨depth, first⟩) (hl : Row.Proper ⟨depth, last⟩)
    (hr : ∀ r ∈ rs, r.Proper) : ∀ r ∈ enclosed depth first last rs, r.Proper :=
  List.forall_mem_cons.mpr
    ⟨hf, List.forall_mem_append.mpr ⟨hr, List.forall_mem_singleton.mpr hl⟩⟩

theorem map_print_enclosed :
    (enclosed depth first last rs).map Row.print =
      (spaces depth ++ first.flatMap Part.print) ::
        (rs.map Row.print ++ [spaces depth ++ last.flatMap Part.print]) := by
  simp [enclosed, Row.print, Row.text]

theorem map_shift_enclosed :
    (enclosed depth first last rs).map (Row.shift k) =
      enclosed (k + depth) first last (rs.map (Row.shift k)) := by
  simp [enclosed, Row.shift]

theorem map_parts_enclosed :
    (enclosed depth first last rs).map Row.parts = first :: (rs.map Row.parts ++ [last]) := by
  simp [enclosed]

theorem flatMap_parts_enclosed :
    (enclosed depth first last rs).flatMap Row.parts = first ++ (rs.flatMap Row.parts ++ last) := by
  simp [enclosed]

theorem map_print_shift (k : Nat) (rs : List Row) :
    (rs.map (Row.shift k)).map Row.print = (rs.map Row.print).map (spaces k ++ ·) := by
  simp [Row.print_shift]

theorem joinLines_enclosed (hn : rs ≠ []) :
    joinLines ((enclosed depth first last rs).map Row.print) =
      spaces depth ++ first.flatMap Part.print ++ '\n' :: (joinLines (rs.map Row.print) ++
        '\n' :: (spaces depth ++ last.flatMap Part.print)) := by
  have hn : rs.map Row.print ≠ [] := by simpa using hn
  rw [map_print_enclosed, joinLines_cons _ (by simp), joinLines_append hn (List.cons_ne_nil _ []),
    joinLines_singleton]

-- Rows are moved to the right together, and back to the margin.

theorem isRow_of_mem_print (hr : ∀ r ∈ rs, r.Proper) : ∀ l ∈ rs.map Row.print, IsRow l :=
  List.forall_mem_map.mpr fun r h => (hr r h).isRow

theorem shift_proper (hr : ∀ r ∈ rs, r.Proper) (k : Nat) : ∀ r ∈ rs.map (Row.shift k), r.Proper :=
  List.forall_mem_map.mpr fun r h => (hr r h).shift k

theorem indent_print (hr : ∀ r ∈ rs, r.Proper) (hn : rs ≠ []) (k : Nat) :
    indent (spaces k) (joinLines (rs.map Row.print)) =
      joinLines ((rs.map (Row.shift k)).map Row.print) := by
  have hl := isRow_of_mem_print hr
  rw [indent, splitLines_of_rows hl (by simpa using hn), map_print_shift]
  refine congrArg joinLines (List.map_congr_left fun l h => ?_)
  simp [(hl l h).notBlank]

theorem dedent_print_shift (hr : ∀ r ∈ rs, r.Proper) (h₀ : ∃ r ∈ rs, r.depth = 0) (k : Nat) :
    dedent (joinLines ((rs.map (Row.shift k)).map Row.print)) = joinLines (rs.map Row.print) := by
  have ⟨r, hm, hd⟩ := h₀
  have hl := isRow_of_mem_print (shift_proper hr k)
  have hb : ∀ l ∈ rs.map Row.print, blank l = false := fun l h =>
    (isRow_of_mem_print hr l h).notBlank
  have ht : r.print.takeWhile isIndent = [] := by
    have ⟨x, hx⟩ := List.head?_eq_some_iff.mp (hr r hm).head
    simp [Row.print, hd, hx, spaces, isIndent]
  rw [dedent, splitLines_of_rows hl (by simpa using List.ne_nil_of_mem hm), map_print_shift,
    dedentLines_map_append (fun _ => isIndent_of_mem_spaces) hb,
    dedentLines_eq_self hb (List.mem_map_of_mem hm) ht]

end Markup
end DocPress
