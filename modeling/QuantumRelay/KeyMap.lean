/-!
# Maps keyed by text

`KeyMap α` is a finite map from text to `α` whose entries stand in the order of their keys. Texts
are compared code point by code point, which is also the order of their UTF-8 bytes. A map has one
list of entries, so equal maps are equal values, and `find?_upsert_self`, `find?_upsert_of_ne`,
`find?_erase_self` and `find?_erase_of_ne` say what an update does to a look-up.
-/

namespace QuantumRelay

/-- A finite map from text to values, its entries in strictly rising order of their keys. -/
structure KeyMap (α : Type) where
  entries : List (String × α)
  sorted : entries.Pairwise (fun a b => a.1 < b.1) := by exact .nil

namespace KeyMap

variable {α β : Type}

/-! ### Entry lists -/

/-- Put `f` of what `key` had, if anything, at `key`'s place in a sorted entry list. -/
def upsertEntry (key : String) (f : Option α → α) : List (String × α) → List (String × α)
  | [] => [(key, f none)]
  | e :: rest =>
    if key < e.1 then (key, f none) :: e :: rest
    else if key = e.1 then (key, f (some e.2)) :: rest
    else e :: upsertEntry key f rest

def findIn? (key : String) : List (String × α) → Option α
  | [] => none
  | e :: rest => if key = e.1 then some e.2 else findIn? key rest

theorem mem_upsertEntry {key : String} {f : Option α → α} {e : String × α}
    {l : List (String × α)} (h : e ∈ upsertEntry key f l) : e.1 = key ∨ e ∈ l := by
  induction l with
  | nil => simp [upsertEntry] at h; simp [h]
  | cons x rest ih =>
    rw [upsertEntry] at h
    split at h
    · rcases List.mem_cons.1 h with rfl | h
      · exact .inl rfl
      · exact .inr h
    · split at h
      · rcases List.mem_cons.1 h with rfl | h
        · exact .inl rfl
        · exact .inr (List.mem_cons_of_mem _ h)
      · rcases List.mem_cons.1 h with rfl | h
        · exact .inr List.mem_cons_self
        · exact (ih h).imp_right (List.mem_cons_of_mem _)

theorem lt_of_not_lt_of_ne {a b : String} (h : ¬a < b) (hne : a ≠ b) : b < a :=
  String.not_le.1 fun hab => hne (String.le_antisymm hab (String.not_lt.1 h))

theorem upsertEntry_sorted (key : String) (f : Option α → α) {l : List (String × α)}
    (h : l.Pairwise (fun a b => a.1 < b.1)) :
    (upsertEntry key f l).Pairwise (fun a b => a.1 < b.1) := by
  induction l with
  | nil => simp [upsertEntry]
  | cons x rest ih =>
    have hrest := List.pairwise_cons.1 h
    rw [upsertEntry]
    split
    · rename_i hlt
      refine List.pairwise_cons.2 ⟨fun e he => ?_, h⟩
      rcases List.mem_cons.1 he with rfl | he
      · exact hlt
      · exact String.lt_trans hlt (hrest.1 e he)
    · split
      · rename_i heq
        exact List.pairwise_cons.2 ⟨fun e he => heq ▸ hrest.1 e he, hrest.2⟩
      · rename_i hlt hne
        refine List.pairwise_cons.2 ⟨fun e he => ?_, ih hrest.2⟩
        rcases mem_upsertEntry he with hk | he
        · exact hk ▸ lt_of_not_lt_of_ne hlt hne
        · exact hrest.1 e he

theorem findIn?_upsertEntry_self (key : String) (f : Option α → α) {l : List (String × α)}
    (h : l.Pairwise (fun a b => a.1 < b.1)) :
    findIn? key (upsertEntry key f l) = some (f (findIn? key l)) := by
  induction l with
  | nil => simp [upsertEntry, findIn?]
  | cons x rest ih =>
    have hrest := List.pairwise_cons.1 h
    rw [upsertEntry]
    split
    · rename_i hlt
      have hne : key ≠ x.1 := fun heq => String.lt_irrefl _ (heq ▸ hlt)
      have hnone : ∀ r : List (String × α), (∀ e ∈ r, x.1 < e.1) → findIn? key r = none := by
        intro r hr
        induction r with
        | nil => rfl
        | cons y r ihr =>
          have hy : key ≠ y.1 := fun heq =>
            String.lt_irrefl _ (heq ▸ String.lt_trans hlt (hr y List.mem_cons_self))
          simp [findIn?, hy, ihr fun e he => hr e (List.mem_cons_of_mem _ he)]
      simp [findIn?, hne, hnone rest hrest.1]
    · split
      · rename_i heq
        simp [findIn?, heq]
      · rename_i hne
        simp [findIn?, hne, ih hrest.2]

theorem findIn?_upsertEntry_of_ne {key other : String} (hne : other ≠ key)
    (f : Option α → α) (l : List (String × α)) :
    findIn? other (upsertEntry key f l) = findIn? other l := by
  induction l with
  | nil => simp [upsertEntry, findIn?, hne]
  | cons x rest ih =>
    rw [upsertEntry]
    split
    · simp [findIn?, hne]
    · split
      · rename_i heq
        simp [findIn?, hne, ← heq]
      · simp [findIn?, ih]

/-! ### Maps -/

def empty : KeyMap α := ⟨[], .nil⟩

instance : EmptyCollection (KeyMap α) := ⟨empty⟩
instance : Inhabited (KeyMap α) := ⟨empty⟩
instance [BEq α] : BEq (KeyMap α) := ⟨fun a b => a.entries == b.entries⟩

def find? (m : KeyMap α) (key : String) : Option α := findIn? key m.entries

def contains (m : KeyMap α) (key : String) : Bool := (m.find? key).isSome

/-- Replace what is at `key` by `f` of it. -/
def upsert (m : KeyMap α) (key : String) (f : Option α → α) : KeyMap α :=
  ⟨upsertEntry key f m.entries, upsertEntry_sorted key f m.sorted⟩

def insert (m : KeyMap α) (key : String) (value : α) : KeyMap α := m.upsert key fun _ => value

def erase (m : KeyMap α) (key : String) : KeyMap α :=
  ⟨m.entries.filter (·.1 ≠ key), m.sorted.filter _⟩

/-- Insert pairs in turn; of two with one key the later stays. -/
def ofList (pairs : List (String × α)) : KeyMap α :=
  pairs.foldl (fun m p => m.insert p.1 p.2) empty

def map (f : α → β) (m : KeyMap α) : KeyMap β :=
  ⟨m.entries.map fun e => (e.1, f e.2), by simpa [List.pairwise_map] using m.sorted⟩

def keys (m : KeyMap α) : List String := m.entries.map (·.1)

def values (m : KeyMap α) : List α := m.entries.map (·.2)

def size (m : KeyMap α) : Nat := m.entries.length

def isEmpty (m : KeyMap α) : Bool := m.entries.isEmpty

theorem ext {a b : KeyMap α} (h : a.entries = b.entries) : a = b := by
  cases a; cases b; cases h; rfl

@[simp] theorem find?_empty (key : String) : (empty : KeyMap α).find? key = none := rfl

@[simp] theorem find?_upsert_self (m : KeyMap α) (key : String) (f : Option α → α) :
    (m.upsert key f).find? key = some (f (m.find? key)) :=
  findIn?_upsertEntry_self key f m.sorted

theorem find?_upsert_of_ne (m : KeyMap α) {key other : String} (hne : other ≠ key)
    (f : Option α → α) : (m.upsert key f).find? other = m.find? other :=
  findIn?_upsertEntry_of_ne hne f m.entries

@[simp] theorem find?_insert_self (m : KeyMap α) (key : String) (value : α) :
    (m.insert key value).find? key = some value :=
  find?_upsert_self m key _

theorem find?_insert_of_ne (m : KeyMap α) {key other : String} (hne : other ≠ key) (value : α) :
    (m.insert key value).find? other = m.find? other :=
  find?_upsert_of_ne m hne _

@[simp] theorem find?_erase_self (m : KeyMap α) (key : String) :
    (m.erase key).find? key = none := by
  have h : ∀ l : List (String × α), findIn? key (l.filter (·.1 ≠ key)) = none := by
    intro l
    induction l with
    | nil => rfl
    | cons x rest ih =>
      by_cases hx : x.1 = key
      · simpa [List.filter_cons, hx] using ih
      · have hne : key ≠ x.1 := Ne.symm hx
        simpa [List.filter_cons, hx, findIn?, hne] using ih
  exact h m.entries

theorem find?_erase_of_ne (m : KeyMap α) {key other : String} (hne : other ≠ key) :
    (m.erase key).find? other = m.find? other := by
  have h : ∀ l : List (String × α),
      findIn? other (l.filter (·.1 ≠ key)) = findIn? other l := by
    intro l
    induction l with
    | nil => rfl
    | cons x rest ih =>
      by_cases hx : x.1 = key
      · have hox : other ≠ x.1 := hx ▸ hne
        simpa [List.filter_cons, hx, findIn?, hne, hox] using ih
      · by_cases ho : other = x.1
        · simp [findIn?, ← ho, hne]
        · simpa [List.filter_cons, hx, findIn?, ho] using ih
  exact h m.entries

end KeyMap

end QuantumRelay
