import DocPress.Proofs.Markdown.Segments

-- Text in which everything that is marked stands apart. It is set in four edits, each of which
-- takes one mark for the tags of everything that is written with it, and leaves the rest as it is,
-- whether that is set already or not.

namespace DocPress

open Text

namespace Text

theorem not_isWordChar_of_isBlank {c : Char} (h : isBlank c) : isWordChar c = false := by
  -- All of white space, by its code points.
  let ns := List.range' 9 5 ++ [0x20, 0x85, 0xA0, 0x1680] ++ List.range' 0x2000 11 ++
    [0x2028, 0x2029, 0x202F, 0x205F, 0x3000]
  have hw : ∀ n ∈ ns, isWordChar (Char.ofNat n) = false := by decide +kernel
  have hn : c.toNat ∈ ns := by
    simp only [isBlank, Bool.or_eq_true, Bool.and_eq_true, decide_eq_true_eq, beq_iff_eq] at h
    simp only [ns, List.mem_append, List.mem_range'_1, List.mem_cons, List.not_mem_nil]
    omega
  have hc := hw c.toNat hn
  rwa [Char.ofNat_toNat] at hc

theorem exists_ends {x : Text} (h : 2 ≤ x.length) : ∃ c y d, x = c :: (y ++ [d]) := by
  cases x
  case nil => contradiction
  case cons c x =>
    have hx : x ≠ [] := by
      rintro rfl
      contradiction
    exact ⟨c, x.dropLast, x.getLast hx, by rw [List.dropLast_concat_getLast hx]⟩

end Text

namespace Markdown.Emphasis

def markers : List Char := ['"', '\x60', '*', '[']

def Plain (x : Text) : Prop :=
  ∀ m ∈ markers, m ∉ x

instance (x : Text) : Decidable (Plain x) :=
  inferInstanceAs (Decidable (∀ m ∈ markers, m ∉ x))

inductive Span where
  | marked (k : Style) (x : Text)
  | link (name path : Text)

namespace Span

def mark : Span → Char
  | marked k _ => k.mark
  | link _ _   => '['

def source : Span → Text
  | marked k x     => k.marks ++ (x ++ k.marks)
  | link name path => "[" ++ (name ++ ("](" ++ (path ++ ")".toList)))

def html : Span → Text
  | marked k x     => k.start ++ (x ++ k.stop)
  | link name path => "<a href=\"" ++ (path ++ ("\">" ++ (name ++ "</a>".toList)))

theorem html_marked (k : Style) (x : Text) : (marked k x).html = k.start ++ (x ++ k.stop) := rfl

theorem html_link (name path : Text) : (link name path).html =
    "<a href=\"".toList ++ (path ++ ("\">".toList ++ (name ++ "</a>".toList))) := rfl

-- The characters that may stand in front of it and behind it.

def opens : Span → Char → Bool
  | marked _ _ => Emphasis.opens
  | link _ _   => isBlank

def closes : Span → Char → Bool
  | marked _ _ => Emphasis.closes
  | link _ _   => Link.closes

inductive Proper : Span → Prop
  | marked {k x} (hn : x ≠ []) (hx : Plain x) (hl : ∀ c ∈ x.getLast?, Emphasis.opens c = false) :
    Proper (.marked k x)
  | link {name path} (hn : Link.IsName name) (hp : ∀ c ∈ path, Link.isPathChar c) :
    Proper (.link name path)

-- Set, if its mark is one of those that are already dealt with.
def set (ms : List Char) (s : Span) : Text :=
  if s.mark ∈ ms then s.html else s.source

end Span

-- Every span has the text behind it that reaches up to the next one.
structure Passage where
  start : Text
  rest  : List (Span × Text)

namespace Passage

def print (p : Passage) (F : Span → Text) : Text :=
  p.start ++ p.rest.flatMap fun s => F s.1 ++ s.2

structure Proper (p : Passage) : Prop where
  spans  : ∀ s ∈ p.rest, s.1.Proper
  start  : Plain p.start
  gaps   : ∀ s ∈ p.rest, Plain s.2
  opens  : ∀ s ∈ p.rest.head?, ∀ c ∈ p.start.getLast?, s.1.opens c
  closes : ∀ s ∈ p.rest, ∀ c ∈ s.2.head?, s.1.closes c
  -- Two spans do not share the character between them.
  middle : p.rest.IsChain fun s t => 2 ≤ s.2.length ∧ ∀ c ∈ s.2.getLast?, t.1.opens c

end Passage

variable {a b c m : Char} {f : Text → Text} {k : Style} {ms : List Char} {p : Passage} {s : Span}
  {w : Text → Nat} {x : Text}

theorem inner_of_mem_markers (hm : m ∈ markers) : Inner m := by
  have h : ∀ m ∈ markers, opens m = false ∧ closes m = false := by decide
  exact ⟨(h m hm).left, (h m hm).right⟩

namespace Style

theorem mark_mem_markers (k : Style) : k.mark ∈ markers := by
  cases k <;> decide

theorem plain_start (k : Style) : Plain k.start := by
  cases k <;> decide

theorem plain_stop (k : Style) : Plain k.stop := by
  cases k <;> decide

theorem mark_ne_bracket (k : Style) : k.mark ≠ '[' := by
  cases k <;> decide

end Style

theorem Span.mark_mem_markers (s : Span) : s.mark ∈ markers := by
  cases s
  case marked k _ => exact k.mark_mem_markers
  case link       => exact List.mem_of_getLast? rfl

theorem Span.closes_space (s : Span) : s.closes ' ' := by
  cases s <;> rfl

theorem Span.opens_space (s : Span) : s.opens ' ' := by
  cases s <;> rfl

theorem plain_space : Plain [' '] := by
  decide

theorem Plain.append {y : Text} (hx : Plain x) (hy : Plain y) : Plain (x ++ y) := fun m hm =>
  List.not_mem_append (hx m hm) (hy m hm)

theorem Plain.subset {y : Text} (hy : Plain y) (h : x ⊆ y) : Plain x := fun m hm hx =>
  hy m hm (h hx)

namespace Link

theorem isNameChar_of_mem_markers (hm : m ∈ markers) : isNameChar m = false := by
  have h : ∀ m ∈ markers, isNameChar m = false := by decide
  exact h m hm

theorem isPathChar_of_mem_markers (hm : m ∈ markers) : isPathChar m = false := by
  have h : ∀ m ∈ markers, isPathChar m = false := by decide
  exact h m hm

theorem IsName.plain_name {name : Text} (h : IsName name) : Plain name := by
  intro m hm
  have hp : ∀ m ∈ markers, m ≠ '(' ∧ m ≠ ')' := by decide
  exact h.not_mem (isNameChar_of_mem_markers hm) (hp m hm).left (hp m hm).right

theorem plain_path {path : Text} (h : ∀ c ∈ path, isPathChar c) : Plain path := fun m hm hc =>
  Bool.false_ne_true ((isPathChar_of_mem_markers hm).symm.trans (h m hc))

theorem not_opens_of_isPathChar (h : isPathChar c) : opens c = false := by
  have hb : isBlank c → isPathChar c = false := by
    intro hb
    have hc : ∀ d ∈ ['.', '#', '-'], c ≠ d := by
      rintro d hd rfl
      have hn : ∀ d ∈ ['.', '#', '-'], isBlank d = false := by decide
      exact Bool.false_ne_true ((hn c hd).symm.trans hb)
    simp [isPathChar, not_isWordChar_of_isBlank hb, hc]
  have hg : c = '>' → isPathChar c = false := by
    rintro rfl
    decide
  by_contra ho
  simp only [opens, Bool.not_eq_false, Bool.or_eq_true, decide_eq_true_eq] at ho
  exact Bool.false_ne_true ((ho.elim hb hg).symm.trans h)

end Link

namespace Span.Proper

theorem not_mem_source (h : s.Proper) (hm : m ∈ markers) (hs : s.mark ≠ m) : m ∉ s.source := by
  cases h
  case marked k x _ hx _ =>
    have hk : m ∉ k.marks := fun h => hs (List.eq_of_mem_replicate h).symm
    simp [source, hk, hx m hm]
  case link name path hn hp =>
    have h : ∀ m ∈ markers, m ≠ '[' → m ∉ "[".toList ∧ m ∉ "](".toList ∧ m ∉ ")".toList := by decide
    have ⟨h₁, h₂, h₃⟩ := h m hm (Ne.symm hs)
    have hn := hn.plain_name m hm
    have hp := Link.plain_path hp m hm
    simp only [source, List.mem_append, h₁, h₂, h₃, hn, hp, or_self, not_false_eq_true]

theorem opens_of (h : s.opens b) : Emphasis.opens b := by
  cases s
  case marked => exact h
  case link   => simp [Emphasis.opens, show isBlank b from h]

theorem closes_of (h : s.closes a) : Emphasis.closes a := by
  cases s
  case marked => exact h
  case link   =>
    have h : Link.closes a := h
    simp only [Link.closes, Bool.or_eq_true] at h
    simp only [Emphasis.closes, Bool.or_eq_true]
    exact .inl h

-- What is set holds no marks, apart from the quotes around the path of a link.
theorem quiet_html (h : s.Proper) (hm : m ∈ markers) (hb : m ≠ b) (ha : m ≠ a) :
    Quiet m ([b] ++ (s.html ++ [a])) := by
  have hb : m ∉ [b] := by simpa using hb
  have ha : m ∉ [a] := by simpa using ha
  cases h
  case marked k x _ hx _ =>
    have hx := List.not_mem_append (hx m hm) (k.plain_stop m hm)
    have hx := List.not_mem_append (k.plain_start m hm) hx
    exact quiet_of_not_mem (List.not_mem_append hb (List.not_mem_append hx ha))
  case link name path hn hp =>
    have h : ∀ m ∈ markers, m ∉ "<a ".toList ∧ m ∉ ">".toList ∧ m ∉ "</a>".toList ∧ m ≠ 'h' := by
      decide
    have ⟨h₁, h₂, h₃, h₄⟩ := h m hm
    have ho : ∀ c ∈ "href=\"".toList ++ (path ++ ['"']), Emphasis.opens c = false := by
      have hs : ∀ c ∈ "href=\"".toList, Emphasis.opens c = false := by decide
      refine List.forall_mem_append.mpr ⟨hs, List.forall_mem_append.mpr ⟨fun c hc => ?_, ?_⟩⟩
      · exact Link.not_opens_of_isPathChar (hp c hc)
      · exact List.forall_mem_singleton.mpr (by decide)
    have hq := quiet_of_not_mem (List.not_mem_append hb h₁)
    have hr := List.not_mem_append (hn.plain_name m hm) (List.not_mem_append h₃ ha)
    have hr := quiet_of_not_mem (List.not_mem_append h₂ hr)
    have hr := (quiet_of_not_opens ho).append hr (.inl fun c hc => ho c (List.mem_of_getLast? hc))
    have hh : ∀ c ∈ ("href=\"".toList ++ (path ++ ['"'])).head?, c ≠ m := by
      simpa using h₄.symm
    have hl := hq.append hr (.inr (by simpa using h₄.symm))
    have he : [b] ++ "<a ".toList ++ ("href=\"".toList ++ (path ++ ['"']) ++
        (">".toList ++ (name ++ ("</a>".toList ++ [a])))) =
          [b] ++ ((Span.link name path).html ++ [a]) := by
      simp [html_link]
    exact he ▸ hl

-- In the source, only the character in front of the mark opens.
theorem quiet_source (h : s.Proper) (ha : s.mark ≠ a) : Quiet s.mark (s.source ++ [a]) := by
  cases h
  case marked k x hn hx hl =>
    have ho : ∀ c ∈ k.marks, Emphasis.opens c = false := fun c hc =>
      List.eq_of_mem_replicate hc ▸ k.inner_mark.opens
    have hk : Quiet k.mark k.marks := quiet_of_not_opens ho
    have ho' : ∀ c ∈ k.marks.getLast?, Emphasis.opens c = false := fun c hc =>
      ho c (List.mem_of_getLast? hc)
    have hx : Quiet k.mark x := quiet_of_not_mem (hx _ k.mark_mem_markers)
    have ha : Quiet k.mark [a] := List.isChain_singleton a
    have hr := hk.append (hx.append (hk.append ha (.inl ho')) (.inl hl)) (.inl ho')
    simp only [source, mark, List.append_assoc]
    exact hr
  case link name path hn hp =>
    have hm : '[' ∈ markers := by decide
    have ha : '[' ∉ [a] := by simpa [mark] using ha
    have hr : '[' ∉ name ++ ("](".toList ++ (path ++ (")".toList ++ [a]))) :=
      List.not_mem_append (hn.plain_name _ hm) (List.not_mem_append (by decide)
        (List.not_mem_append (Link.plain_path hp _ hm) (List.not_mem_append (by decide) ha)))
    have hq : Quiet '[' ['['] := List.isChain_singleton '['
    have hq := hq.append (quiet_of_not_mem hr) (.inl (by decide))
    simp only [source, mark, List.append_assoc]
    exact hq

end Span.Proper

-- One of the edits: it finds everything that is written with its mark.
structure Pass (m : Char) (w : Text → Nat) (f : Text → Text) : Prop where
  mark  : m ∈ markers
  finds : Finds w m
  whole : ∀ s : Span, s.Proper → s.mark = m → ∀ b a, s.opens b → s.closes a →
    (∀ r, w (b :: (s.source ++ [a]) ++ r) = (b :: (s.source ++ [a])).length) ∧
      f (b :: (s.source ++ [a])) = b :: (s.html ++ [a])

namespace Pass

theorem turns (h : Pass m w f) (hs : s.Proper) (hb : s.opens b) (ha : s.closes a)
    (ms : List Char) : Turns w m f (b :: (s.set ms ++ [a])) (b :: (s.set (m :: ms) ++ [a])) := by
  have hi := inner_of_mem_markers h.mark
  have hb' : m ≠ b := by
    rintro rfl
    exact Bool.false_ne_true (hi.opens.symm.trans (Span.Proper.opens_of hb))
  have ha' : m ≠ a := by
    rintro rfl
    exact Bool.false_ne_true (hi.closes.symm.trans (Span.Proper.closes_of ha))
  have hh : ∀ x, ∀ c ∈ (b :: x).head?, c ≠ m := fun x c hc => by
    rw [← Option.some.inj hc]
    exact hb'.symm
  have hq := hs.quiet_html h.mark hb' ha'
  by_cases hm : s.mark ∈ ms
  case pos =>
    rw [Span.set, Span.set, if_pos hm, if_pos (List.mem_cons_of_mem m hm)]
    exact .kept (hh _) hq
  case neg =>
    by_cases he : s.mark = m
    case pos =>
      have ⟨hw, hf⟩ := h.whole s hs he b a hb ha
      rw [Span.set, Span.set, if_neg hm, if_pos (he ▸ List.mem_cons_self)]
      exact .found ⟨⟨b, _, _, rfl, rfl, hb'.symm, he ▸ hs.quiet_source (he ▸ ha')⟩, hw, hq, hf⟩
    case neg =>
      rw [Span.set, Span.set, if_neg hm, if_neg (by simp [he, hm])]
      refine .kept (hh _) (quiet_of_not_mem (x := [b] ++ (s.source ++ [a])) ?_)
      exact List.not_mem_append (by simpa using hb')
        (List.not_mem_append (hs.not_mem_source h.mark he) (by simpa using ha'))

theorem marked (hi : m ∈ markers) (hn : m ≠ '[')
    (hf : ∀ k : Style, k.mark = m → ∀ s : Text, s.count m = 2 * k.width → f s = k.tags s) :
    Pass m (markedWidth m) f where
  mark  := hi
  finds x hx := by
    have ⟨r, hr, t, ht⟩ := exists_marked hx
    have ⟨j, hj⟩ := Nat.exists_eq_succ_of_ne_zero hr.left
    exact ⟨r.before, _, by rw [← ht, Marked.source, hj, List.replicate_succ]; rfl, hr.before⟩
  whole s hs he b a hb ha := by
    have hm := inner_of_mem_markers hi
    cases hs
    case link => exact absurd he.symm hn
    case marked k x hx hp hl =>
      have he : k.mark = m := he
      let r : Marked := ⟨b, k.width, x, k.width, a⟩
      have hr : r.Written m :=
        ⟨hb, k.width_ne_zero, hx, hp m hi, k.width_ne_zero, ha⟩
      have hs : b :: ((Span.marked k x).source ++ [a]) = r.source m := by
        simp [Span.source, Marked.source, Style.marks, r, he]
      have hc : (r.source m).count m = 2 * k.width := by
        rw [hr.count_source hm, Nat.two_mul]
      rw [hs]
      refine ⟨fun t => hr.markedWidth_append hm t, ?_⟩
      rw [hf k he _ hc, Style.tags, Style.marks, he,
        hr.tag_even hm (he ▸ k.mark_not_mem_start) rfl rfl]
      simp [Span.html_marked, r]

theorem quotes : Pass '"' (markedWidth '"') quoted :=
  marked (by decide) (by decide) fun k hk s _ => by
    cases k
    case quoted => rfl
    all_goals contradiction

theorem codes : Pass '\x60' (markedWidth '\x60') code :=
  marked (by decide) (by decide) fun k hk s _ => by
    cases k
    case code => rfl
    all_goals contradiction

theorem stars : Pass '*' (markedWidth '*') starred :=
  marked (by decide) (by decide) fun k hk s hs => by
    rw [starred_eq, hs]
    cases k
    case quoted => contradiction
    case code   => contradiction
    all_goals rfl

theorem links : Pass '[' Link.width linked where
  mark  := by decide
  finds x hx := by
    cases hr : Link.read? x
    case none => exact absurd (by rw [Link.width, hr]; rfl) hx
    case some l =>
      obtain ⟨hl, t, ht⟩ := Link.read?_eq_some hr
      refine ⟨l.before, _, by rw [← ht, Link.source]; rfl, ?_⟩
      exact Span.Proper.opens_of (s := .link l.name l.path) hl.before
  whole s hs he b a hb ha := by
    cases hs
    case marked k x _ _ _ => exact absurd he k.mark_ne_bracket
    case link name path hn hp =>
      let l : Link := ⟨b, name, path, a⟩
      have hl : l.Written := ⟨hb, hn, hp, ha⟩
      have hs : b :: ((Span.link name path).source ++ [a]) = l.source := by
        simp [Span.source, Link.source, l]
      have hh : b :: ((Span.link name path).html ++ [a]) = l.html := by
        simp [Span.html_link, Link.html, l]
      rw [hs, hh]
      refine ⟨fun t => by rw [Link.width, hl.read?_append]; rfl, ?_⟩
      have hr := hl.read?_append []
      rw [List.append_nil] at hr
      rw [linked, hr]
      rfl

end Pass

-- Spans with the characters around them. What follows reaches up to the character in front of the
-- next span.
structure Item where
  before : Char
  span   : Span
  after  : Char
  gap    : Text

namespace Item

def print (F : Span → Text) (i : Item) : Text :=
  i.before :: (F i.span ++ [i.after]) ++ i.gap

structure Proper (i : Item) : Prop where
  span   : i.span.Proper
  before : i.span.opens i.before
  after  : i.span.closes i.after
  gap    : Plain i.gap

-- What is to be found and what stands between it.
def segments (F G : Span → Text) (i : Item) : List (Text × Text) :=
  [(i.before :: (F i.span ++ [i.after]), i.before :: (G i.span ++ [i.after])), (i.gap, i.gap)]

theorem turns {i : Item} (h : Pass m w f) (hi : i.Proper) (ms : List Char) :
    ∀ p ∈ i.segments (Span.set ms) (Span.set (m :: ms)), Turns w m f p.1 p.2 := by
  have hg : m ∉ i.gap := hi.gap m h.mark
  refine List.forall_mem_cons.mpr ⟨h.turns hi.span hi.before hi.after ms,
    List.forall_mem_singleton.mpr (.kept (fun c hc he => hg ?_) (quiet_of_not_mem hg))⟩
  exact he ▸ List.mem_of_head? hc

theorem flatMap_segments (F G : Span → Text) (is : List Item) :
    (is.flatMap (segments F G)).flatMap Prod.fst = is.flatMap (print F) ∧
      (is.flatMap (segments F G)).flatMap Prod.snd = is.flatMap (print G) := by
  have hp : ∀ F, print F = fun i => i.before :: (F i.span ++ i.after :: i.gap) := fun F => by
    funext i
    simp [print]
  simp [List.flatMap_assoc, segments, hp]

end Item

namespace Passage

-- The characters at the ends of the text between two spans go with the spans.

theorem Proper.tail {start g : Text} {b : Char} {rest : List (Span × Text)}
    (hp : Proper ⟨start, (s, g ++ [b]) :: rest⟩) : Proper ⟨[b], rest⟩ where
  spans  := (List.forall_mem_cons.mp hp.spans).right
  start  := fun m hm h =>
    hp.gaps _ List.mem_cons_self m hm (List.mem_append_right g h)
  gaps   := (List.forall_mem_cons.mp hp.gaps).right
  opens  := by
    intro t ht c hc
    cases rest
    case nil => contradiction
    case cons r rest =>
      have hr := (List.rel_of_isChain_cons_cons hp.middle).right c (by simpa using hc)
      exact Option.some.inj ht ▸ hr
  closes := (List.forall_mem_cons.mp hp.closes).right
  middle := List.isChain_of_isChain_cons hp.middle

theorem exists_items {b : Char} {rest : List (Span × Text)} (hp : Proper ⟨[b], rest⟩)
    (hn : rest ≠ []) : ∃ is : List Item, (∀ i ∈ is, i.Proper) ∧
      ∀ F, print ⟨[b], rest⟩ F ++ [' '] = is.flatMap (Item.print F) := by
  induction rest generalizing b
  case nil => contradiction
  case cons s rest ih =>
    obtain ⟨s, g⟩ := s
    have hs := hp.spans _ List.mem_cons_self
    have hb := hp.opens _ rfl b rfl
    have hg := hp.gaps _ List.mem_cons_self
    have hc := hp.closes _ List.mem_cons_self
    cases rest
    case nil =>
      have ⟨a, x, hx⟩ : ∃ a x, g ++ [' '] = a :: x :=
        List.exists_cons_of_ne_nil (List.concat_ne_nil ' ' g)
      have ha : s.closes a := by
        cases g
        case nil => exact (List.cons_eq_cons.mp hx).left ▸ s.closes_space
        case cons c g => exact (List.cons_eq_cons.mp hx).left ▸ hc c rfl
      have hx' : Plain x := (hg.append plain_space).subset (hx ▸ List.subset_cons_self a x)
      refine ⟨[⟨b, s, a, x⟩], List.forall_mem_singleton.mpr ⟨hs, hb, ha, hx'⟩, fun F => ?_⟩
      simp [print, Item.print, hx]
    case cons t rest =>
      have ⟨hl, _⟩ := List.rel_of_isChain_cons_cons hp.middle
      obtain ⟨a, x, d, rfl⟩ := exists_ends hl
      have hg : Plain (x ++ [d]) := hg.subset (List.subset_cons_self a _)
      have ⟨is, hi, he⟩ := ih (Proper.tail (g := a :: x) hp) (List.cons_ne_nil t rest)
      refine ⟨⟨b, s, a, x⟩ :: is, List.forall_mem_cons.mpr
        ⟨⟨hs, hb, hc a rfl, hg.subset (List.subset_append_left x [d])⟩, hi⟩, fun F => ?_⟩
      rw [List.flatMap_cons, ← he F]
      simp [print, Item.print]

theorem exists_pad (hp : p.Proper) : ∃ (g : Text) (is : List Item), Plain g ∧
    (∀ i ∈ is, i.Proper) ∧ ∀ F, pad (p.print F) = g ++ is.flatMap (Item.print F) := by
  obtain ⟨start, rest⟩ := p
  have hg : Plain ([' '] ++ start) := plain_space.append hp.start
  by_cases hn : rest = []
  case pos =>
    subst hn
    exact ⟨[' '] ++ start ++ [' '], [], hg.append plain_space, by simp, fun F => by
      simp [pad, print]⟩
  case neg =>
    obtain ⟨g, b, he, hb⟩ : ∃ g b, [' '] ++ start = g ++ [b] ∧
        ∀ s ∈ rest.head?, s.1.opens b := by
      cases List.eq_nil_or_concat start
      case inl hs =>
        exact ⟨[], ' ', by rw [hs]; rfl, fun s _ => s.1.opens_space⟩
      case inr hs =>
        obtain ⟨y, d, rfl⟩ := hs
        exact ⟨' ' :: y, d, by simp, fun s hs => hp.opens s hs d (by simp)⟩
    have hs : Plain [b] := hg.subset (he ▸ List.subset_append_right g [b])
    have hp : Proper ⟨[b], rest⟩ :=
      ⟨hp.spans, hs, hp.gaps, fun s hs c hc => Option.some.inj hc ▸ hb s hs, hp.closes, hp.middle⟩
    have ⟨is, hi, hr⟩ := exists_items hp hn
    refine ⟨g, is, hg.subset ?_, hi, fun F => ?_⟩
    · rw [he]
      exact List.subset_append_left g [b]
    · have hl : pad (print ⟨start, rest⟩ F) = g ++ (print ⟨[b], rest⟩ F ++ [' ']) := by
        simp only [pad, print, ← List.append_assoc, he]
      rw [hl, hr]

theorem edit_print (h : Pass m w f) (hp : p.Proper) (ms : List Char) :
    edit w f (p.print (Span.set ms)) = p.print (Span.set (m :: ms)) := by
  have ⟨g, is, hg, hi, he⟩ := exists_pad hp
  have hg := hg m h.mark
  have hs := Item.flatMap_segments (Span.set ms) (Span.set (m :: ms)) is
  let segs := (g, g) :: is.flatMap (Item.segments (Span.set ms) (Span.set (m :: ms)))
  have ht : ∀ q ∈ segs, Turns w m f q.1 q.2 := by
    refine List.forall_mem_cons.mpr ⟨.kept (fun c hc he => hg ?_) (quiet_of_not_mem hg), ?_⟩
    · exact he ▸ List.mem_of_head? hc
    · rintro q hq
      have ⟨i, hm, hq⟩ := List.mem_flatMap.mp hq
      exact Item.turns h (hi i hm) ms q hq
  refine edit_of_turns h.finds ht ?_ ?_
  · rw [he, List.flatMap_cons, hs.left]
  · rw [he, List.flatMap_cons, hs.right]

theorem toHtml_print (hp : p.Proper) (ms : List Char) :
    toHtml (p.print (Span.set ms)) = p.print Span.html := by
  have hs : Span.set ('[' :: '*' :: '\x60' :: '"' :: ms) = Span.html := by
    have hm : ∀ k ∈ markers, k ∈ '[' :: '*' :: '\x60' :: '"' :: ms := by simp [markers]
    funext s
    exact if_pos (hm _ s.mark_mem_markers)
  rw [toHtml, edit_print .quotes hp, edit_print .codes hp, edit_print .stars hp,
    edit_print .links hp, hs]

theorem toHtml_passage (hp : p.Proper) :
    toHtml (p.print Span.source) = p.print Span.html ∧
      toHtml (p.print Span.html) = p.print Span.html := by
  have hs : Span.source = Span.set [] := by
    funext s
    exact (if_neg List.not_mem_nil).symm
  have hh : Span.html = Span.set markers := by
    funext s
    exact (if_pos s.mark_mem_markers).symm
  refine ⟨by rw [hs, toHtml_print hp], ?_⟩
  conv_lhs => rw [hh, toHtml_print hp]

theorem toHtml_passage_mixed :
    let p : Passage := ⟨"a ", [(.marked .em "b", ", "), (.marked .code "c d", ": "),
      (.link "e.f(g)" "h#i", ". "), (.marked .quoted "j", "</p>"), (.marked .b "k", ", "),
      (.marked .em "b", "")]⟩
    let x : Text := "a *b*, \x60c d\x60: [e.f(g)](h#i). \"j\"</p>**k**, *b*"
    let y : Text := "a <em>b</em>, <code>c d</code>: <a href=\"h#i\">e.f(g)</a>. " ++
      "<i>&quot;j&quot;</i></p><b>k</b>, <em>b</em>".toList
    p.Proper ∧ p.print Span.source = x ∧ toHtml x = y ∧ toHtml y = y := by
  intro p x y
  have hn : Link.IsName "e.f(g)" :=
    .call (n := "e.f") (x := "g") (by decide) (by decide) (by decide)
  have hp : p.Proper := by
    refine ⟨?_, by decide, by decide, by decide, by decide, by decide⟩
    simp only [p, List.forall_mem_cons]
    refine ⟨.marked ?_ ?_ ?_, .marked ?_ ?_ ?_, .link hn ?_, .marked ?_ ?_ ?_, .marked ?_ ?_ ?_,
      .marked ?_ ?_ ?_, List.forall_mem_nil _⟩
    all_goals decide
  have hx : p.print Span.source = x := by decide
  have hy : p.print Span.html = y := by decide
  have ⟨h, h'⟩ := toHtml_passage hp
  rw [hx, hy] at h
  rw [hy] at h'
  exact ⟨hp, hx, h, h'⟩

end Passage
end Markdown.Emphasis
end DocPress
