/-!
# Association lists

`Assoc κ ν` maps keys to values and remembers the order in which keys were first inserted. Main
statements: `get?_insert_self` and `get?_insert_of_ne`, which fix `get?` after an insertion.
-/

namespace TypeInference

/-- A finite map as a list of entries, each key at most once when built by `insert`. -/
structure Assoc (κ ν : Type) where
  toList : List (κ × ν)
  deriving Repr

namespace Assoc

variable {κ ν : Type}

def empty : Assoc κ ν := ⟨[]⟩

instance : EmptyCollection (Assoc κ ν) := ⟨empty⟩

instance : Inhabited (Assoc κ ν) := ⟨empty⟩

def size (m : Assoc κ ν) : Nat := m.toList.length

def keys (m : Assoc κ ν) : List κ := m.toList.map Prod.fst

def values (m : Assoc κ ν) : List ν := m.toList.map Prod.snd

variable [DecidableEq κ]

/-- The value of the first entry with key `k` in a list of entries. -/
def getEntry? (k : κ) : List (κ × ν) → Option ν
  | [] => none
  | (j, v) :: es => if j = k then some v else getEntry? k es

def get? (m : Assoc κ ν) (k : κ) : Option ν := getEntry? k m.toList

def contains (m : Assoc κ ν) (k : κ) : Bool := (m.get? k).isSome

/-- Replace the entry of `k` where it stands, or append one. -/
def insertEntry (k : κ) (v : ν) : List (κ × ν) → List (κ × ν)
  | [] => [(k, v)]
  | (j, w) :: es => if j = k then (j, v) :: es else (j, w) :: insertEntry k v es

/-- A key keeps its place when its value is replaced. -/
def insert (m : Assoc κ ν) (k : κ) (v : ν) : Assoc κ ν := ⟨insertEntry k v m.toList⟩

theorem contains_eq_false {m : Assoc κ ν} {k : κ} : m.contains k = false ↔ m.get? k = none := by
  simp [contains]

@[simp] theorem get?_empty (k : κ) : (∅ : Assoc κ ν).get? k = none := rfl

theorem getEntry?_insertEntry (es : List (κ × ν)) (k j : κ) (v : ν) :
    getEntry? j (insertEntry k v es) = if k = j then some v else getEntry? j es := by
  induction es with
  | nil => simp [insertEntry, getEntry?]
  | cons e es ih =>
    obtain ⟨i, w⟩ := e
    by_cases hk : i = k
    · subst hk
      by_cases hj : i = j <;> simp [insertEntry, getEntry?, hj]
    · by_cases hj : i = j
      · subst hj
        simp [insertEntry, getEntry?, hk, Ne.symm hk]
      · simp [insertEntry, getEntry?, hk, hj, ih]

@[simp] theorem get?_insert_self (m : Assoc κ ν) (k : κ) (v : ν) :
    (m.insert k v).get? k = some v := by
  simp [get?, insert, getEntry?_insertEntry]

theorem get?_insert_of_ne (m : Assoc κ ν) {k j : κ} (h : k ≠ j) (v : ν) :
    (m.insert k v).get? j = m.get? j := by
  simp [get?, insert, getEntry?_insertEntry, h]

theorem contains_insert (m : Assoc κ ν) (k j : κ) (v : ν) :
    (m.insert k v).contains j = (decide (k = j) || m.contains j) := by
  by_cases h : k = j
  · simp [contains, get?, insert, getEntry?_insertEntry, h]
  · simp [contains, get?, insert, getEntry?_insertEntry, h]

theorem mem_values_of_get? {m : Assoc κ ν} {k : κ} {v : ν} (h : m.get? k = some v) :
    v ∈ m.values := by
  obtain ⟨es⟩ := m
  unfold get? at h
  unfold values
  induction es with
  | nil => cases h
  | cons e es ih =>
    unfold getEntry? at h
    split at h
    · rw [← Option.some.inj h]
      exact List.mem_cons_self
    · exact List.mem_cons_of_mem _ (ih h)

theorem mem_toList_insert {m : Assoc κ ν} {k : κ} {v : ν} {e : κ × ν}
    (h : e ∈ (m.insert k v).toList) : e ∈ m.toList ∨ e.2 = v := by
  obtain ⟨es⟩ := m
  unfold insert at h
  dsimp only at h ⊢
  induction es with
  | nil => exact .inr (by rw [List.mem_singleton.1 h])
  | cons d es ih =>
    unfold insertEntry at h
    split at h
    · rcases List.mem_cons.1 h with rfl | h
      · exact .inr rfl
      · exact .inl (List.mem_cons_of_mem _ h)
    · rcases List.mem_cons.1 h with rfl | h
      · exact .inl List.mem_cons_self
      · exact (ih h).imp_left (List.mem_cons_of_mem _)

end Assoc

end TypeInference
