import DocPress.Text.Basic

-- Finite maps from names, kept in the order of the names.

namespace DocPress

structure NameMap (α : Type) where
  entries : List (Text × α)
  sorted  : entries.Pairwise (·.1 < ·.1)

namespace NameMap

variable {α : Type}

def empty : NameMap α where
  entries := []
  sorted  := .nil

instance : Inhabited (NameMap α) where
  default := empty

def find? (m : NameMap α) (k : Text) : Option α :=
  m.entries.lookup k

def contains (m : NameMap α) (k : Text) : Bool :=
  (m.find? k).isSome

def size (m : NameMap α) : Nat :=
  m.entries.length

-- Puts an entry at its place, instead of the one that is there already.
def place (k : Text) (v : α) : List (Text × α) → List (Text × α)
  | [] => [(k, v)]
  | (j, w) :: r =>
    if k < j then (k, v) :: (j, w) :: r
    else if j < k then (j, w) :: place k v r
    else (k, v) :: r

theorem mem_place {k : Text} {v : α} {es : List (Text × α)} {e : Text × α} (h : e ∈ place k v es) :
    e = (k, v) ∨ e ∈ es := by
  induction es with
  | nil => simp_all [place]
  | cons d r ih =>
    simp only [place] at h
    split at h
    · simpa using h
    · split at h
      · rcases List.mem_cons.mp h with rfl | h
        · simp
        · rcases ih h with h | h <;> simp [h]
      · rcases List.mem_cons.mp h with h | h <;> simp [h]

theorem place_sorted {k : Text} {v : α} {es : List (Text × α)}
    (h : es.Pairwise (·.1 < ·.1)) : (place k v es).Pairwise (·.1 < ·.1) := by
  induction es with
  | nil => simp [place]
  | cons d r ih =>
    have ⟨hd, hr⟩ := List.pairwise_cons.mp h
    simp only [place]
    split
    · next hk =>
      refine List.pairwise_cons.mpr ⟨fun e he => ?_, h⟩
      rcases List.mem_cons.mp he with rfl | he
      · exact hk
      · exact List.lt_trans hk (hd e he)
    · next hk =>
      split
      · next hj =>
        refine List.pairwise_cons.mpr ⟨fun e he => ?_, ih hr⟩
        rcases mem_place he with rfl | he
        · exact hj
        · exact hd e he
      · next hj =>
        have hkd : k = d.1 := List.le_antisymm (List.not_lt.mp hj) (List.not_lt.mp hk)
        exact List.pairwise_cons.mpr ⟨fun e he => hkd ▸ hd e he, hr⟩

def insert (m : NameMap α) (k : Text) (v : α) : NameMap α where
  entries := place k v m.entries
  sorted  := place_sorted m.sorted

-- Of several entries with one name the last one stays.
def ofList (es : List (Text × α)) : NameMap α :=
  es.foldl (fun m (k, v) => m.insert k v) empty

def filterKeys (p : Text → Bool) (m : NameMap α) : NameMap α where
  entries := m.entries.filter fun e => p e.1
  sorted  := m.sorted.filter _

def map {β : Type} (f : α → β) (m : NameMap α) : NameMap β where
  entries := m.entries.map fun (k, v) => (k, f v)
  sorted  := List.pairwise_map.mpr m.sorted

end NameMap
end DocPress
