import DocPress.Disk.Path
import DocPress.Proofs.Text.Lines

-- The last names of paths: the name that was joined to a directory is found again, and an extension
-- is put behind its stem.

namespace DocPress.Path

open Text

-- Names of files. The two others lead to a directory.
def Ordinary (name : Text) : Prop :=
  name ≠ ['.'] ∧ name ≠ ['.', '.']

def dotted (extension : Text) : Text :=
  if extension = [] then [] else '.' :: extension

variable {p front : Path} {name stem x : Text}

theorem stemOf_cases (name : Text) :
    ('.' ∉ name.tail ∧ stemOf name = name) ∨
      ∃ a b, a ≠ [] ∧ name = a ++ '.' :: b ∧ stemOf name = a := by
  by_cases h : '.' ∈ name.reverse
  case neg =>
    have ht : '.' ∉ name.tail := fun ht => h (List.mem_reverse.mpr (List.mem_of_mem_tail ht))
    exact .inl ⟨ht, by rw [stemOf, splitLastDot?, splitAt?_eq_none h]; rfl⟩
  case pos =>
    have ⟨b, a, hr, hb⟩ := List.eq_append_cons_of_mem h
    have hn : name = a.reverse ++ '.' :: b.reverse := by
      rw [← List.reverse_reverse name, hr]
      simp
    have hs : stemOf name = if a.reverse = [] then name else a.reverse := by
      rw [stemOf, splitLastDot?, hr, splitAt?_append hb]
      rfl
    by_cases ha : a.reverse = []
    case pos =>
      rw [if_pos ha] at hs
      rw [ha, List.nil_append] at hn
      exact .inl ⟨by rwa [hn, List.tail_cons, List.mem_reverse], hs⟩
    case neg => exact .inr ⟨_, _, ha, hn, hs.trans (if_neg ha)⟩

theorem prefix_stemOf (name : Text) : stemOf name <+: name := by
  rcases stemOf_cases name with ⟨_, hs⟩ | ⟨a, b, _, hn, hs⟩
  · exact hs.symm ▸ List.prefix_refl name
  · rw [hs, hn]
    exact List.prefix_append a _

theorem stemOf_ne_nil (h : name ≠ []) : stemOf name ≠ [] := by
  rcases stemOf_cases name with ⟨_, hs⟩ | ⟨a, b, ha, _, hs⟩
  · rwa [hs]
  · rwa [hs]

-- A dot at the start of a name does not end its stem.
theorem stemOf_eq_self_iff (name : Text) : stemOf name = name ↔ '.' ∉ name.tail := by
  rcases stemOf_cases name with ⟨ht, hs⟩ | ⟨a, b, ha, hn, hs⟩
  · exact iff_of_true hs ht
  · have ht : '.' ∈ name.tail := by
      rw [hn, List.tail_append_of_ne_nil ha]
      exact List.mem_append_right _ List.mem_cons_self
    have hl : stemOf name ≠ name := by
      rw [hs, hn]
      simp
    exact iff_of_false hl (not_not_intro ht)

theorem stemOf_append_dotted_eq_iff (name e : Text) :
    stemOf name ++ dotted e = name ++ '.' :: e ↔ e ≠ [] ∧ '.' ∉ name.tail := by
  have hl := (prefix_stemOf name).length_le
  rw [← stemOf_eq_self_iff, dotted]
  constructor
  case mp =>
    intro h
    have hn := congrArg List.length h
    split at hn
    case isTrue =>
      simp only [List.length_append, List.length_cons, List.length_nil] at hn
      omega
    case isFalse he =>
      rw [if_neg he, List.append_cancel_right_eq] at h
      exact ⟨he, h⟩
  case mpr =>
    intro ⟨he, hs⟩
    rw [if_neg he, hs]

theorem slash_not_mem_lastName (p : Path) : '/' ∉ lastName p := by
  intro h
  have := List.mem_takeWhile_imp (List.mem_reverse.mp h)
  simp at this

theorem of_stem?_eq_some (h : p.stem? = some stem) : stem ≠ [] ∧ '/' ∉ stem := by
  have ⟨name, hn, hs⟩ := Option.map_eq_some_iff.mp h
  rw [fileName?] at hn
  split at hn
  case isTrue => contradiction
  case isFalse hl =>
    cases hn
    rw [← hs]
    exact ⟨stemOf_ne_nil (mt .inl hl),
      fun hm => slash_not_mem_lastName p ((prefix_stemOf _).subset hm)⟩

theorem exists_front (dir : Path) :
    ∃ front, (∀ name, join dir name = front ++ name) ∧ (front = [] ∨ ∃ f, front = f ++ ['/']) := by
  by_cases h : dir = [] ∨ dir.getLast? = some '/'
  case pos =>
    refine ⟨dir, fun name => if_pos h, h.imp_right fun hl => ?_⟩
    have ⟨f, hf⟩ := List.getLast?_eq_some_iff.mp hl
    exact ⟨f, hf⟩
  case neg => exact ⟨dir ++ ['/'], fun name => if_neg h, .inr ⟨dir, rfl⟩⟩

theorem bareReversed_suffix (x : Text) : bareReversed x <:+ x := by
  fun_induction bareReversed x
  case case1 ih => exact ih.trans (List.suffix_cons _ _)
  case case2 ih => exact ih.trans ((List.suffix_cons _ _).trans (List.suffix_cons _ _))
  case case3    => exact List.suffix_refl _

theorem prefix_bare (p : Path) : bare p <+: p := by
  have h := List.reverse_prefix.mpr (bareReversed_suffix p.reverse)
  rwa [List.reverse_reverse] at h

theorem bareReversed_append (hn : x ≠ []) (hs : '/' ∉ x) (hd : x ≠ ['.']) (y : Text) :
    bareReversed (x ++ y) = x ++ y := by
  unfold bareReversed
  split
  case h_1 hx => cases x <;> simp_all
  case h_2 hx =>
    obtain _ | ⟨c, _ | ⟨d, x⟩⟩ := x <;> simp_all
  case h_3 => rfl

-- A path that ends with a name has nothing to be taken off.
theorem bare_append (hn : name ≠ []) (hs : '/' ∉ name) (hd : name ≠ ['.']) (front : Path) :
    bare (front ++ name) = front ++ name := by
  have hb : bareReversed (name.reverse ++ front.reverse) = name.reverse ++ front.reverse :=
    bareReversed_append (by simpa) (by simpa) (by simpa) front.reverse
  rw [bare, List.reverse_append, hb]
  simp

theorem lastName_append (hn : name ≠ []) (hs : '/' ∉ name) (hd : name ≠ ['.'])
    (hf : front = [] ∨ ∃ f, front = f ++ ['/']) : lastName (front ++ name) = name := by
  have hp : ∀ c ∈ name.reverse, decide (c ≠ '/') = true := by
    intro c hc
    exact decide_eq_true fun h => hs (h ▸ List.mem_reverse.mp hc)
  rw [lastName, bare_append hn hs hd, List.reverse_append, List.takeWhile_append_of_pos hp]
  obtain rfl | ⟨f, rfl⟩ := hf
  all_goals simp

theorem fileName?_append (hn : name ≠ []) (hs : '/' ∉ name) (ho : Ordinary name)
    (hf : front = [] ∨ ∃ f, front = f ++ ['/']) : fileName? (front ++ name) = some name := by
  have hl := lastName_append hn hs ho.left hf
  rw [fileName?, hl]
  exact if_neg (by simpa [hn] using And.intro ho.left ho.right)

theorem withExtension_append (hn : name ≠ []) (hs : '/' ∉ name) (ho : Ordinary name)
    (hf : front = [] ∨ ∃ f, front = f ++ ['/']) (e : Text) :
    (front ++ name).withExtension e = front ++ (stemOf name ++ dotted e) := by
  have hk : (front ++ name).take ((front ++ name).length - name.length + (stemOf name).length) =
      front ++ stemOf name := by
    rw [List.length_append, Nat.add_sub_cancel, List.take_length_add_append,
      ← List.prefix_iff_eq_take.mp (prefix_stemOf name)]
  rw [withExtension, fileName?_append hn hs ho hf, bare_append hn hs ho.left]
  simp only [hk, dotted]
  split <;> simp

theorem fileName?_append_dots (hf : front = [] ∨ ∃ f, front = f ++ ['/']) :
    fileName? (front ++ ['.', '.']) = none := by
  rw [fileName?, lastName_append (by decide) (by decide) (by decide) hf]
  rfl

theorem bare_append_dot (hf : front = [] ∨ ∃ f, front = f ++ ['/']) :
    bare (front ++ ['.']) ≠ front ++ ['.'] ∨ fileName? (front ++ ['.']) = none := by
  obtain rfl | ⟨f, rfl⟩ := hf
  case inl => exact .inr rfl
  case inr =>
    have hb : bare (f ++ ['/'] ++ ['.']) = (bareReversed f.reverse).reverse := by
      simp [bare, bareReversed]
    refine .inl fun h => ?_
    have hl := (bareReversed_suffix f.reverse).length_le
    have hn := congrArg List.length (hb.symm.trans h)
    simp only [List.length_reverse, List.length_append, List.length_cons, List.length_nil] at hl hn
    omega

-- Where something is taken off the end of a path, or the path ends with no name, an extension is
-- not put behind the whole of it.
theorem withExtension_ne_append (h : bare p ≠ p ∨ fileName? p = none) (e : Text) :
    p.withExtension e ≠ p ++ '.' :: e := by
  intro he
  have hl := congrArg List.length he
  rw [withExtension] at hl
  split at hl
  case h_1 => simp at hl
  case h_2 name hn =>
    have hb : (bare p).length < p.length := by
      refine Nat.lt_of_le_of_ne (prefix_bare p).length_le fun hb => ?_
      exact h.elim (fun h => h ((prefix_bare p).eq_of_length hb)) (by simp [hn])
    have hk := (List.take_prefix ((bare p).length - name.length + (stemOf name).length)
      (bare p)).length_le
    simp only at hl
    split at hl
    all_goals
      simp only [List.length_append, List.length_cons, List.length_nil] at hl
      omega

end DocPress.Path
