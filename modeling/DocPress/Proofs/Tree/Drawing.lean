import DocPress.Proofs.Text.Rows
import DocPress.Proofs.Tree.Nodes
import DocPress.Tree.Drawing

-- A drawing shows which labels the nodes of a tree have and how the nodes hang below each other,
-- and nothing else. Every node has a row. The rows of a subtree stand behind signs of the same
-- width, of which only the one on its first row looks like a branch, so labels are never taken for
-- signs.

namespace DocPress

open Text

namespace Drawing

-- What a subtree hangs on, and what runs down beside its other rows.
def sign (last : Bool) : Text :=
  if last then corner else branch

def rail (last : Bool) : Text :=
  if last then spaces corner.length else trunk

-- A subtree begins on the row.
def begins (l : Text) : Bool :=
  l.head? = some '├' || l.head? = some '└'

variable {first rest l : Text} {ls : List Text}

theorem begins_sign (last : Bool) (x : Text) : begins (sign last ++ x) := by
  cases last <;> rfl

theorem not_begins_rail (last : Bool) (x : Text) : begins (rail last ++ x) = false := by
  cases last <;> rfl

theorem sign_append_inj {last last' : Bool} {x y : Text} (h : sign last ++ x = sign last' ++ y) :
    last = last' ∧ x = y := by
  have hl : ∀ last, (sign last).length = 3 := by decide
  have ⟨hs, hx⟩ := List.append_inj h ((hl last).trans (hl last').symm)
  have hi : ∀ last last', sign last = sign last' → last = last' := by decide
  exact ⟨hi _ _ hs, hx⟩

theorem isRow_sign_append (last : Bool) (hl : IsRow l) : IsRow (sign last ++ l) :=
  hl.append (by cases last <;> decide)

theorem isRow_rail_append (last : Bool) (hl : IsRow l) : IsRow (rail last ++ l) :=
  hl.append (by cases last <;> decide)

theorem hang_joinLines (first rest : Text) (hl : ∀ k ∈ l :: ls, IsRow k) :
    hang first rest (joinLines (l :: ls)) = joinLines ((first ++ l) :: ls.map (rest ++ ·)) := by
  rw [hang, lines_of_rows hl]

end Drawing

namespace Tree

open Drawing

mutual

-- The rows of a tree below the one of its label.
def rowsBelow : Tree → List Text
  | leaf _    => []
  | node _ ts => rows ts

def rows : List Tree → List Text
  | []      => []
  | t :: ts =>
    (sign ts.isEmpty ++ t.label) :: (t.rowsBelow.map (rail ts.isEmpty ++ ·) ++ rows ts)

end

-- The nodes have the same labels at the same places. A node without children looks like a leaf.
inductive Alike : List Tree → List Tree → Prop
  | nil : Alike [] []
  | cons {t u ts us} (hl : t.label = u.label) (hc : Alike t.children u.children)
    (hs : Alike ts us) : Alike (t :: ts) (u :: us)

-- Every label shows something.
def Legible (ts : List Tree) : Prop :=
  ∀ n ∈ namesAll ts, n = [] ∨ blank n = false

instance (ts : List Tree) : Decidable (Legible ts) :=
  List.decidableBAll (fun n => n = [] ∨ blank n = false) _

variable {t u : Tree} {ts us : List Tree}

theorem rowsBelow_eq (t : Tree) : t.rowsBelow = rows t.children := by
  cases t <;> rfl

theorem rows_ne_nil (h : ts ≠ []) : rows ts ≠ [] := by
  cases ts
  case nil  => contradiction
  case cons => exact List.cons_ne_nil _ _

theorem view_eq_ite (t : Tree) :
    t.view =
      if t.children = [] then t.label
      else t.label ++ '\n' :: joinLines (branches (views t.children)) := by
  match t with
  | leaf d           => rfl
  | node d []        => rfl
  | node d (t :: ts) =>
    have hc : (node d (t :: ts)).children ≠ [] := List.cons_ne_nil t ts
    rw [if_neg hc, view, List.append_assoc]
    rfl

theorem isRow_label (h : t.data = [] ∨ blank t.data = false) : IsRow t.label := by
  unfold label
  split
  case isTrue     => exact ⟨by decide, by decide⟩
  case isFalse hd => exact ⟨spaced_oneLine _, not_blank_oneLine (h.resolve_left hd)⟩

-- The rows of a forest, and what the views of its trees are joined to.
theorem isRow_rows (h : Legible ts) : ∀ l ∈ rows ts, IsRow l := by
  induction ts using childrenInduction
  case nil => exact List.forall_mem_nil _
  case cons t ts ihc ihs =>
    simp only [Legible, namesAll_cons, List.forall_mem_cons, List.forall_mem_append] at h
    have ⟨hd, hc, hs⟩ := h
    rw [rows, rowsBelow_eq]
    refine List.forall_mem_cons.mpr ⟨isRow_sign_append _ (isRow_label hd), ?_⟩
    refine List.forall_mem_append.mpr ⟨?_, ihs hs⟩
    exact List.forall_mem_map.mpr fun l hl => isRow_rail_append _ (ihc hc l hl)

-- The view of a tree is its label, with the rows of its children below it.
theorem view_eq (h : joinLines (branches (views t.children)) = joinLines (rows t.children)) :
    t.view = joinLines (t.label :: rows t.children) := by
  rw [view_eq_ite, h]
  split
  case isTrue hc  => rw [hc, rows, joinLines_singleton]
  case isFalse hc => rw [joinLines_cons _ (rows_ne_nil hc)]

theorem joinLines_branches (h : Legible ts) :
    joinLines (branches (views ts)) = joinLines (rows ts) := by
  induction ts using childrenInduction
  case nil => rfl
  case cons t ts ihc ihs =>
    simp only [Legible, namesAll_cons, List.forall_mem_cons, List.forall_mem_append] at h
    have ⟨hd, hc, hs⟩ := h
    have hr : ∀ l ∈ t.label :: rows t.children, IsRow l :=
      List.forall_mem_cons.mpr ⟨isRow_label hd, isRow_rows hc⟩
    cases ts
    case nil =>
      rw [views, views, branches, view_eq (ihc hc), hang_joinLines _ _ hr, rows, rowsBelow_eq]
      simp [sign, rail, rows]
    case cons u us =>
      have hb : branches (views (t :: u :: us)) =
          hang branch trunk t.view :: branches (views (u :: us)) := rfl
      have hn : branches (views (u :: us)) ≠ [] := by cases us <;> exact List.cons_ne_nil _ _
      have ht : rows (t :: u :: us) =
          (branch ++ t.label) :: (rows t.children).map (trunk ++ ·) ++ rows (u :: us) := by
        rw [rows, rowsBelow_eq]
        rfl
      rw [hb, joinLines_cons _ hn, ihs hs, view_eq (ihc hc), hang_joinLines _ _ hr, ht,
        joinLines_append (List.cons_ne_nil _ _) (rows_ne_nil (List.cons_ne_nil u us))]

-- The rows of a drawing: the one of the root above those of the other nodes.
def drawnRows (t : Tree) : List Text :=
  (rootSign ++ t.label) :: (rows t.children).map (spaces rootSign.length ++ ·)

theorem isRow_drawnRows (h : Legible [t]) : ∀ l ∈ t.drawnRows, IsRow l := by
  simp only [Legible, namesAll_cons, List.forall_mem_cons, List.forall_mem_append] at h
  have ⟨hd, hc, _⟩ := h
  refine List.forall_mem_cons.mpr ⟨(isRow_label hd).append (by decide), ?_⟩
  exact List.forall_mem_map.mpr fun l hl => (isRow_rows hc l hl).append (spaced_spaces _)

theorem draw_eq (h : Legible [t]) : t.draw = joinLines t.drawnRows := by
  simp only [Legible, namesAll_cons, List.forall_mem_cons, List.forall_mem_append] at h
  have ⟨hd, hc, _⟩ := h
  have hr : ∀ l ∈ t.label :: rows t.children, IsRow l :=
    List.forall_mem_cons.mpr ⟨isRow_label hd, isRow_rows hc⟩
  rw [draw, view_eq (joinLines_branches hc), hang_joinLines _ _ hr, drawnRows]

theorem lines_draw (h : Legible [t]) : lines t.draw = t.drawnRows := by
  rw [draw_eq h, lines_of_rows (isRow_drawnRows h)]

-- Rows in front of the first one on which a subtree begins are told apart from it and those behind.
theorem append_inj_of_begins {as bs cs ds : List Text} (ha : ∀ l ∈ as, begins l = false)
    (hb : ∀ l ∈ bs, begins l = false) (hc : ∀ l ∈ cs.head?, begins l)
    (hd : ∀ l ∈ ds.head?, begins l) (h : as ++ cs = bs ++ ds) : as = bs ∧ cs = ds := by
  have ht : ∀ {xs ys : List Text}, (∀ l ∈ xs, begins l = false) → (∀ l ∈ ys.head?, begins l) →
      (xs ++ ys).takeWhile (!begins ·) = xs := by
    intro xs ys hx hy
    rw [List.takeWhile_append_of_pos (by simpa using hx)]
    cases ys <;> simp_all
  have hab : as = bs := by rw [← ht ha hc, h, ht hb hd]
  exact ⟨hab, List.append_cancel_left (hab ▸ h)⟩

theorem begins_head_rows (ts : List Tree) : ∀ l ∈ (rows ts).head?, begins l := by
  cases ts
  case nil       => simp [rows]
  case cons t ts => simpa [rows] using begins_sign _ _

theorem not_begins_rails (last : Bool) (ls : List Text) :
    ∀ l ∈ ls.map (rail last ++ ·), begins l = false :=
  List.forall_mem_map.mpr fun l _ => not_begins_rail last l

-- The rows of a forest tell its labels and its shape.
theorem alike_of_rows_eq (h : rows ts = rows us) : Alike ts us := by
  induction ts using childrenInduction generalizing us
  case nil =>
    cases us
    case nil  => exact .nil
    case cons => exact absurd h.symm (rows_ne_nil (List.cons_ne_nil _ _))
  case cons t ts ihc ihs =>
    cases us
    case nil => exact absurd h (rows_ne_nil (List.cons_ne_nil _ _))
    case cons u us =>
      simp only [rows, rowsBelow_eq] at h
      have ⟨hf, hr⟩ := List.cons_eq_cons.mp h
      have ⟨he, hl⟩ := sign_append_inj hf
      rw [he] at hr
      have ⟨hc, hs⟩ := append_inj_of_begins (not_begins_rails _ _) (not_begins_rails _ _)
        (begins_head_rows ts) (begins_head_rows us) hr
      have hi : Function.Injective (rail us.isEmpty ++ ·) := List.append_right_injective _
      exact .cons hl (ihc (hi.list_map hc)) (ihs hs)

theorem Alike.eq_nil_iff (h : Alike ts us) : ts = [] ↔ us = [] := by
  cases h <;> simp

theorem Alike.views_eq (h : Alike ts us) : views ts = views us := by
  induction h
  case nil => rfl
  case cons hl hc _ ihc ihs => simp only [views, view_eq_ite, hl, hc.eq_nil_iff, ihc, ihs]

-- Two trees are drawn alike exactly if they have the same labels at the same places.
theorem draw_eq_iff_alike (ht : Legible [t]) (hu : Legible [u]) :
    t.draw = u.draw ↔ Alike [t] [u] := by
  constructor
  case mp =>
    intro h
    have hr := (lines_draw ht).symm.trans ((congrArg lines h).trans (lines_draw hu))
    have ⟨hl, hr⟩ := List.cons_eq_cons.mp hr
    have hi : Function.Injective (spaces rootSign.length ++ ·) := List.append_right_injective _
    exact .cons (List.append_cancel_left hl) (alike_of_rows_eq (hi.list_map hr)) .nil
  case mpr =>
    intro h
    have hv := h.views_eq
    simp only [views, List.cons.injEq, and_true] at hv
    rw [draw, hv, draw]

theorem draw_eq_iff_alike_signs :
    let t := node "" [node "├─ a" [leaf "│  b", leaf "└─"], leaf "c\n d"]
    let u := node "+" [node "├─ a" [leaf "│ b", node "└─ " []], node "c d" []]
    Legible [t] ∧ Legible [u] ∧ t.draw = u.draw ∧ Alike [t] [u] := by
  intro t u
  have ht : Legible [t] := by decide
  have hu : Legible [u] := by decide
  have hd : t.draw = u.draw := by decide
  exact ⟨ht, hu, hd, (draw_eq_iff_alike ht hu).mp hd⟩

end Tree
end DocPress
