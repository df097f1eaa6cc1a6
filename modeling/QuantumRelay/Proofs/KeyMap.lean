import QuantumRelay.Names

/-!
# Look-ups in keyed maps

A key map is told by its look-ups: `find?_eq_some_iff` ties a look-up to the entries, and every update
has its law in `if` form. It is made of its entries (`ofList_entries`). Of lists of names, `mem_sorted`
says that sorting keeps the names, and `firstRepeated?_eq_none_iff` when no name comes twice.
-/

namespace QuantumRelay

namespace KeyMap

variable {α β : Type}

theorem findIn?_eq_some_iff {key : String} {v : α} {l : List (String × α)}
    (h : l.Pairwise (fun a b => a.1 < b.1)) : findIn? key l = some v ↔ (key, v) ∈ l := by
  induction l with
  | nil => simp [findIn?]
  | cons e rest ih =>
    obtain ⟨first, w⟩ := e
    obtain ⟨hlt, hrest⟩ := List.pairwise_cons.1 h
    rw [findIn?, List.mem_cons, Prod.mk.injEq]
    by_cases heq : key = first
    · subst heq
      have hnot : (key, v) ∉ rest := fun hmem => String.lt_irrefl key (hlt (key, v) hmem)
      simp [hnot, eq_comm]
    · simp [heq, ih hrest]

theorem find?_eq_some_iff {m : KeyMap α} {key : String} {v : α} :
    m.find? key = some v ↔ (key, v) ∈ m.entries := findIn?_eq_some_iff m.sorted

theorem contains_iff {m : KeyMap α} {key : String} :
    m.contains key = true ↔ ∃ v, m.find? key = some v := Option.isSome_iff_exists

theorem mem_keys_iff {m : KeyMap α} {key : String} : key ∈ m.keys ↔ m.contains key = true := by
  rw [contains_iff]
  simp only [keys, List.mem_map, Prod.exists, exists_and_right, exists_eq_right,
    find?_eq_some_iff]

theorem keys_sorted (m : KeyMap α) : m.keys.Pairwise (· < ·) := by
  rw [keys, List.pairwise_map]
  exact m.sorted

@[simp] theorem find?_map (m : KeyMap α) (f : α → β) (key : String) :
    (m.map f).find? key = (m.find? key).map f := by
  have h : ∀ l : List (String × α),
      findIn? key (l.map fun e => (e.1, f e.2)) = (findIn? key l).map f := by
    intro l
    induction l with
    | nil => rfl
    | cons e rest ih =>
      rw [List.map_cons, findIn?, findIn?, ih]
      split <;> rfl
  exact h m.entries

@[simp] theorem contains_map (m : KeyMap α) (f : α → β) (key : String) :
    (m.map f).contains key = m.contains key := by
  rw [contains, find?_map, Option.isSome_map, contains]

theorem find?_insert (m : KeyMap α) (key other : String) (value : α) :
    (m.insert key value).find? other = if other = key then some value else m.find? other := by
  split
  · next h => rw [h, find?_insert_self]
  · next h => exact find?_insert_of_ne m h value

theorem find?_erase (m : KeyMap α) (key other : String) :
    (m.erase key).find? other = if other = key then none else m.find? other := by
  split
  · next h => rw [h, find?_erase_self]
  · next h => exact find?_erase_of_ne m h

theorem erase_insert (m : KeyMap α) (key : String) (value : α) :
    (m.insert key value).erase key = m.erase key := by
  have h : ∀ l : List (String × α),
      (upsertEntry key (fun _ => value) l).filter (·.1 ≠ key) = l.filter (·.1 ≠ key) := by
    intro l
    induction l with
    | nil => simp [upsertEntry]
    | cons e rest ih =>
      rw [upsertEntry]
      split
      · simp
      · split
        · next heq => simp [heq]
        · rw [List.filter_cons, List.filter_cons, ih]
  exact ext (h m.entries)

theorem erase_of_find?_eq_none {m : KeyMap α} {key : String} (h : m.find? key = none) :
    m.erase key = m := by
  refine ext (List.filter_eq_self.2 fun e he => decide_eq_true fun heq => ?_)
  rw [← heq, find?_eq_some_iff.2 he] at h
  cases h

theorem find?_foldl_erase (group : List String) (m : KeyMap α) (key : String) :
    (group.foldl (fun m id => m.erase id) m).find? key =
      if key ∈ group then none else m.find? key := by
  induction group generalizing m with
  | nil => simp
  | cons id rest ih =>
    rw [List.foldl_cons, ih, find?_erase]
    by_cases h : key = id
    · simp [h]
    · simp [h]

theorem contains_foldl_insert (pairs : List (String × α)) (m : KeyMap α) (key : String) :
    (pairs.foldl (fun m p => m.insert p.1 p.2) m).contains key = true ↔
      key ∈ pairs.map (·.1) ∨ m.contains key = true := by
  induction pairs generalizing m with
  | nil => simp
  | cons p rest ih =>
    rw [List.foldl_cons, ih, contains, find?_insert, List.map_cons, List.mem_cons]
    by_cases h : key = p.1
    · simp [h]
    · simp [h, contains]

/-! ### Entries -/

theorem upsertEntry_of_lt {key : String} (f : Option α → α) {l : List (String × α)}
    (h : ∀ e ∈ l, e.1 < key) : upsertEntry key f l = l ++ [(key, f none)] := by
  induction l with
  | nil => rfl
  | cons e rest ih =>
    obtain ⟨he, hrest⟩ := List.forall_mem_cons.1 h
    have hne : key ≠ e.1 := fun heq => String.lt_irrefl key (heq ▸ he)
    rw [upsertEntry, if_neg (String.lt_asymm he), if_neg hne, ih hrest, List.cons_append]

theorem entries_foldl_insert (pairs : List (String × α)) (m : KeyMap α)
    (h : (m.entries ++ pairs).Pairwise (fun a b => a.1 < b.1)) :
    (pairs.foldl (fun m p => m.insert p.1 p.2) m).entries = m.entries ++ pairs := by
  induction pairs generalizing m with
  | nil => rw [List.foldl_nil, List.append_nil]
  | cons p rest ih =>
    have hlt : ∀ e ∈ m.entries, e.1 < p.1 := fun e he =>
      (List.pairwise_append.1 h).2.2 e he p List.mem_cons_self
    have hinsert : (m.insert p.1 p.2).entries = m.entries ++ [p] := upsertEntry_of_lt _ hlt
    rw [List.foldl_cons, ih _ (by rwa [hinsert, List.append_assoc]), hinsert, List.append_assoc]
    rfl

theorem ofList_entries (m : KeyMap α) : ofList m.entries = m :=
  ext ((entries_foldl_insert m.entries empty m.sorted).trans (List.nil_append _))

end KeyMap

/-! ### Lists of names -/

theorem Names.mem_sorted {name : String} {names : List String} :
    name ∈ Names.sorted names ↔ name ∈ names := by
  rw [Names.sorted, KeyMap.mem_keys_iff, KeyMap.ofList, KeyMap.contains_foldl_insert]
  simp [KeyMap.contains, List.map_map, Function.comp_def]

theorem Names.sorted_sorted (names : List String) : (Names.sorted names).Pairwise (· < ·) :=
  KeyMap.keys_sorted _

theorem Names.firstRepeated?_eq_none_iff {seen names : List String} :
    Names.firstRepeated? seen names = none ↔ names.Nodup ∧ ∀ name ∈ names, name ∉ seen := by
  induction names generalizing seen with
  | nil => simp [Names.firstRepeated?]
  | cons name rest ih =>
    rw [Names.firstRepeated?]
    by_cases h : name ∈ seen
    · simp [h]
    · rw [if_neg (by simpa using h), ih, List.nodup_cons, List.forall_mem_cons]
      simp only [List.mem_cons, not_or]
      constructor
      · rintro ⟨hrest, hseen⟩
        exact ⟨⟨fun hmem => (hseen name hmem).1 rfl, hrest⟩, h, fun x hx => (hseen x hx).2⟩
      · rintro ⟨⟨hname, hrest⟩, -, hseen⟩
        exact ⟨hrest, fun x hx => ⟨fun heq => hname (heq ▸ hx), hseen x hx⟩⟩

end QuantumRelay
