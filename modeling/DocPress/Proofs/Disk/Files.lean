import DocPress.Disk.Basic
import DocPress.Proofs.NameMap.Lookup

-- A file that was written at a path is read from that path. The path leads to the same place as
-- before, because all the directories on the way are still there.

namespace DocPress.Disk

variable {d d' : Disk} {p : Path} {q r t : Place} {ns : List Text}

theorem node?_set_of_ne (h : r ≠ q) (n : Node) : (d.set q n).node? r = d.node? r := by
  have hf := NameMap.lookup_filter (fun t => decide (t ≠ q)) r d.entries
  rw [node?, node?, set, NameMap.lookup_cons_eq_ite, if_neg h, hf, if_pos (decide_eq_true h)]

-- A file is not put at one of the places that are always directories.
theorem node?_set_self (h : d.node? q ≠ some .directory) (n : Node) :
    (d.set q n).node? q = some n := by
  rw [node?] at h ⊢
  split at h
  case isTrue     => exact absurd rfl h
  case isFalse hq => rw [if_neg hq, set, List.lookup_cons_self]

theorem walk_set (hq : d.node? q ≠ some .directory) (hw : d.walk r ns = .ok t) (n : Node) :
    (d.set q n).walk r ns = .ok t := by
  induction ns generalizing r
  case nil => exact hw
  case cons name ns ih =>
    rw [walk] at hw ⊢
    split at hw
    case h_1 => contradiction
    case h_2 => contradiction
    case h_3 hr =>
      have hn : r ≠ q := by
        rintro rfl
        exact hq hr
      simp only [node?_set_of_ne hn, hr]
      split at hw
      case isTrue     => contradiction
      case isFalse hb => rw [if_neg hb, ih hw]

theorem locate_set (hq : d.node? q ≠ some .directory) (hl : d.locate p = .ok t) (n : Node) :
    (d.set q n).locate p = .ok t := by
  rw [locate] at hl ⊢
  repeat' split at hl <;> try contradiction
  case isFalse hn he hb =>
    rw [if_neg hn, if_neg he, if_neg hb]
    exact walk_set hq hl n

-- The disk with the directory that a path lies in.
def withParent (d : Disk) (p : Path) : Except Fault Disk :=
  match p.parent? with
  | none     => .ok d
  | some dir => d.makeDirectories dir

-- The directory of a path can be made, and then the path leads to a file or to nothing.
def Writable (d : Disk) (p : Path) : Prop :=
  ∃ d' q, d.withParent p = .ok d' ∧ d'.locate p = .ok q ∧ d'.node? q ≠ some .directory

theorem write_eq_ok_iff (x : Text) :
    d.write p x = .ok d' ↔
      ∃ q, d.locate p = .ok q ∧ d.node? q ≠ some .directory ∧ d' = d.set q (.file (some x)) := by
  rw [write]
  cases hl : d.locate p
  case error => simp [bind, Except.bind]
  case ok q =>
    simp only [bind, Except.bind]
    split
    case h_1 hd => simp [hd, throw, throwThe, MonadExceptOf.throw]
    case h_2 hd =>
      constructor
      case mp =>
        rintro ⟨⟩
        exact ⟨q, rfl, hd, rfl⟩
      case mpr =>
        rintro ⟨_, ⟨⟩, _, rfl⟩
        rfl

-- A text that was written is what is read.
theorem read_of_write {x : Text} (h : d.write p x = .ok d') :
    d'.exists? p ∧ d'.read p = .ok x := by
  obtain ⟨q, hl, hq, rfl⟩ := (write_eq_ok_iff x).mp h
  have hs := locate_set hq hl (.file (some x))
  have hn := node?_set_self hq (.file (some x))
  constructor
  · simp only [exists?, hs, hn, Option.isSome_some]
  · simp only [read, hs, hn, bind, Except.bind]
    rfl

end DocPress.Disk
