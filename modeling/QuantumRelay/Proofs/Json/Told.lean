import QuantumRelay.Proofs.Binary64.Whole
import QuantumRelay.Proofs.Json.Record

/-!
# What texts can tell

A text tells whole numbers of 64 bits and finite doubles only (`told_of_read?`): a number that is larger is
`unreadable`. So whatever is read from the document of a text has finite numbers, also where a whole number
stands for a double (`gives_float`), and readers of lists and records hand this on from their parts
(`Gives`).
-/

namespace QuantumRelay.Json

variable {α : Type}

mutual

/-- Whether a text can tell a value, its unreadable parts aside: its whole numbers have 64 bits and its
doubles are finite. -/
def Told : Json → Prop
  | .int n => IsWord n
  | .float x => x.isFinite = true
  | .array items => ToldItems items
  | .object members => ToldMembers members
  | _ => True

def ToldItems : List Json → Prop
  | [] => True
  | j :: rest => j.Told ∧ ToldItems rest

def ToldMembers : List (String × Json) → Prop
  | [] => True
  | (_, j) :: rest => j.Told ∧ ToldMembers rest

end

theorem told_array_iff {items : List Json} : (Json.array items).Told ↔ ∀ j ∈ items, j.Told := by
  rw [Told]
  induction items with
  | nil => simp [ToldItems]
  | cons j rest ih => rw [ToldItems, ih, List.forall_mem_cons]

theorem told_object_iff {members : List (String × Json)} :
    (Json.object members).Told ↔ ∀ m ∈ members, m.2.Told := by
  rw [Told]
  induction members with
  | nil => simp [ToldMembers]
  | cons m rest ih =>
    obtain ⟨key, j⟩ := m
    rw [ToldMembers, ih, List.forall_mem_cons]

/-! ### Numbers -/

theorem told_signed (negative : Bool) (x : Float) : (signed negative x).Told := by
  unfold signed
  split
  · next h =>
    cases negative with
    | false => exact h
    | true => exact Binary64.isFinite_neg h
  · trivial

theorem told_wholeValue (negative : Bool) (n : Nat) : (wholeValue negative n).Told := by
  have hsize : UInt64.size = 18446744073709551616 := rfl
  unfold wholeValue
  split
  · split
    · next h =>
      simp only [hsize, Bool.and_eq_true, decide_eq_true_eq] at h
      rw [Told, IsWord]
      omega
    · exact told_signed ..
  · split
    · next h =>
      rw [hsize] at h
      rw [Told, IsWord]
      omega
    · exact told_signed ..

theorem told_readMagnitude {negative : Bool} {cs rest : List Char} {j : Json}
    (h : readMagnitude negative cs = some (j, rest)) : j.Told := by
  simp only [readMagnitude, Option.bind_eq_bind, Option.bind_eq_some_iff] at h
  obtain ⟨⟨whole, cs⟩, -, ⟨fraction, cs⟩, -, ⟨exponent, cs⟩, -, h⟩ := h
  dsimp only at h
  split at h
  · obtain ⟨rfl, -⟩ := Prod.mk.inj (Option.some.inj h)
    exact told_wholeValue ..
  · obtain ⟨rfl, -⟩ := Prod.mk.inj (Option.some.inj h)
    exact told_signed ..

/-! ### Texts -/

theorem told_of_word {word cs rest : List Char} {value j : Json}
    (h : (afterWord word cs).map (value, ·) = some (j, rest)) (hvalue : value.Told) : j.Told := by
  obtain ⟨_, -, h⟩ := Option.map_eq_some_iff.1 h
  obtain ⟨rfl, -⟩ := Prod.mk.inj h
  exact hvalue

/-- With so much fuel, a value is read only as one that texts can tell. -/
def TellsValues (fuel : Nat) : Prop :=
  ∀ (depth : Nat) (cs : List Char) (j : Json) (rest : List Char),
    readValue fuel depth cs = some (j, rest) → j.Told

def TellsItems (fuel : Nat) : Prop :=
  ∀ (depth : Nat) (cs : List Char) (items : List Json) (rest : List Char),
    readItems fuel depth cs = some (items, rest) → ∀ j ∈ items, j.Told

def TellsMembers (fuel : Nat) : Prop :=
  ∀ (depth : Nat) (cs : List Char) (members : List (String × Json)) (rest : List Char),
    readMembers fuel depth cs = some (some members, rest) → ∀ m ∈ members, m.2.Told

theorem tellsValues_succ {fuel : Nat} (hitems : TellsItems fuel) (hmembers : TellsMembers fuel) :
    TellsValues (fuel + 1) := by
  intro depth cs j rest h
  rw [readValue] at h
  split at h
  · cases h
  · -- a string
    obtain ⟨⟨s, rest'⟩, -, h⟩ := Option.map_eq_some_iff.1 h
    obtain ⟨rfl, -⟩ := Prod.mk.inj h
    cases s <;> trivial
  · -- a list
    split at h
    · obtain ⟨rfl, -⟩ := Prod.mk.inj (Option.some.inj h)
      split <;> trivial
    · obtain ⟨⟨items, rest'⟩, hread, h⟩ := Option.map_eq_some_iff.1 h
      obtain ⟨rfl, -⟩ := Prod.mk.inj h
      split
      · exact told_array_iff.2 (hitems _ _ _ _ hread)
      · trivial
  · -- an object
    split at h
    · obtain ⟨rfl, -⟩ := Prod.mk.inj (Option.some.inj h)
      split <;> trivial
    · obtain ⟨⟨members, rest'⟩, hread, h⟩ := Option.map_eq_some_iff.1 h
      obtain ⟨rfl, -⟩ := Prod.mk.inj h
      cases members with
      | none => trivial
      | some members =>
        dsimp only
        split
        · exact told_object_iff.2 (hmembers _ _ _ _ hread)
        · trivial
  · exact told_readMagnitude h
  · -- a number without a sign, or one of the three words
    split at h
    · exact told_readMagnitude h
    · split at h
      · exact told_of_word h trivial
      · split at h
        · exact told_of_word h trivial
        · split at h
          · exact told_of_word h trivial
          · cases h

theorem tellsItems_succ {fuel : Nat} (hvalues : TellsValues fuel) (hitems : TellsItems fuel) :
    TellsItems (fuel + 1) := by
  intro depth cs items rest h
  rw [readItems] at h
  split at h
  · cases h
  · next j rest' hvalue =>
    have hj := hvalues _ _ _ _ hvalue
    split at h
    · obtain ⟨rfl, -⟩ := Prod.mk.inj (Option.some.inj h)
      exact List.forall_mem_singleton.2 hj
    · obtain ⟨⟨more, rest''⟩, hmore, h⟩ := Option.map_eq_some_iff.1 h
      obtain ⟨rfl, -⟩ := Prod.mk.inj h
      exact List.forall_mem_cons.2 ⟨hj, hitems _ _ _ _ hmore⟩
    · cases h

theorem tellsMembers_succ {fuel : Nat} (hvalues : TellsValues fuel)
    (hmembers : TellsMembers fuel) : TellsMembers (fuel + 1) := by
  intro depth cs members rest h
  rw [readMembers] at h
  split at h
  · split at h
    · cases h
    · next key rest' hkey =>
      split at h
      · split at h
        · cases h
        · next value rest'' hvalue =>
          have hj := hvalues _ _ _ _ hvalue
          split at h
          · obtain ⟨hsome, -⟩ := Prod.mk.inj (Option.some.inj h)
            obtain ⟨k, -, rfl⟩ := Option.map_eq_some_iff.1 hsome
            exact List.forall_mem_singleton.2 hj
          · obtain ⟨⟨more, rest'''⟩, hmore, h⟩ := Option.map_eq_some_iff.1 h
            obtain ⟨hsome, -⟩ := Prod.mk.inj h
            split at hsome
            · obtain rfl := Option.some.inj hsome
              exact List.forall_mem_cons.2 ⟨hj, hmembers _ _ _ _ hmore⟩
            · cases hsome
          · cases h
      · cases h
  · cases h

theorem tells (fuel : Nat) : TellsValues fuel ∧ TellsItems fuel ∧ TellsMembers fuel := by
  induction fuel with
  | zero =>
    refine ⟨?_, ?_, ?_⟩
    · intro depth cs j rest h
      cases h
    · intro depth cs items rest h
      cases h
    · intro depth cs members rest h
      cases h
  | succ fuel ih =>
    obtain ⟨hvalues, hitems, hmembers⟩ := ih
    exact ⟨tellsValues_succ hitems hmembers, tellsItems_succ hvalues hitems,
      tellsMembers_succ hvalues hmembers⟩

theorem told_of_read? {text : String} {j : Json} (h : read? text = some j) : j.Told := by
  unfold read? at h
  dsimp only at h
  split at h
  · next value rest hvalue =>
    split at h
    · obtain rfl := Option.some.inj h
      exact (tells _).1 _ _ _ _ hvalue
    · cases h
  · cases h

/-! ### Reading -/

/-- Whatever a reader gives for a value that texts can tell has a property. -/
def Gives (value? : Json → Option α) (P : α → Prop) : Prop :=
  ∀ j x, j.Told → value? j = some x → P x

theorem gives_float : Gives float? (·.isFinite = true) := by
  intro j x hj h
  cases j with
  | float y =>
    obtain rfl := Option.some.inj h
    exact hj
  | int n =>
    rw [Told, IsWord] at hj
    have hfinite := Binary64.isFinite_ofNat (show n.natAbs < 2 ^ 64 by omega)
    obtain rfl := Option.some.inj h
    split
    · exact Binary64.isFinite_neg hfinite
    · exact hfinite
  | null | bool | text | array | object | unreadable => cases h

theorem Gives.items {item? : Json → Option α} {P : α → Prop} (h : Gives item? P) :
    Gives (items? item?) fun l => ∀ x ∈ l, P x := by
  intro j l hj hl
  cases j with
  | array items =>
    have hitems := told_array_iff.1 hj
    change items.mapM item? = some l at hl
    induction items generalizing l with
    | nil =>
      obtain rfl := Option.some.inj hl
      exact fun x hx => absurd hx List.not_mem_nil
    | cons item rest ih =>
      obtain ⟨hitem, hrest⟩ := List.forall_mem_cons.1 hitems
      simp only [List.mapM_cons, Option.bind_eq_bind, Option.bind_eq_some_iff] at hl
      obtain ⟨x, hx, more, hmore, hl⟩ := hl
      obtain rfl := Option.some.inj hl
      exact List.forall_mem_cons.2
        ⟨h item x hitem hx, ih more (told_array_iff.2 hrest) hrest hmore⟩
  | null | bool | int | float | text | object | unreadable => cases hl

theorem Gives.nullable {value? : Json → Option α} {P : α → Prop} (h : Gives value? P) :
    Gives (nullable? value?) fun o => ∀ x ∈ o, P x := by
  intro j o hj ho
  have hsome (hread : (value? j).map some = some o) : ∀ x ∈ o, P x := by
    obtain ⟨x, hx, rfl⟩ := Option.map_eq_some_iff.1 hread
    intro y hy
    obtain rfl := Option.some.inj hy
    exact h j x hj hx
  cases j with
  | null =>
    obtain rfl := Option.some.inj ho
    exact fun x hx => nomatch hx
  | bool | int | float | text | array | object | unreadable => exact hsome ho

theorem told_record? {extent : Extent} {names : List String} {j : Json} {r : Record}
    (h : record? extent names j = some r) (hj : j.Told) : ∀ m ∈ r.fields, m.2.Told := by
  cases j with
  | object members =>
    have hmembers := told_object_iff.1 hj
    unfold record? at h
    dsimp only at h
    split at h
    · cases h
    · split at h
      · obtain rfl := Option.some.inj h
        exact fun m hm => hmembers m (List.mem_of_mem_filter hm)
      · cases h
  | array items =>
    have hitems := told_array_iff.1 hj
    unfold record? at h
    dsimp only at h
    split at h
    · obtain rfl := Option.some.inj h
      exact fun m hm => hitems m.2 (List.of_mem_zip hm).2
    · cases h
  | null | bool | int | float | text | unreadable => cases h

theorem told_lookup {fields : List (String × Json)} (h : ∀ m ∈ fields, m.2.Told) {name : String}
    {j : Json} (hj : fields.lookup name = some j) : j.Told := by
  obtain ⟨before, after, rfl, -⟩ := List.lookup_eq_some_iff.1 hj
  exact h (name, j) (by simp)

section Record

variable {value? : Json → Option α} {P : α → Prop} (h : Gives value? P) {r : Record}
  (hr : ∀ m ∈ r.fields, m.2.Told) {name : String} {x : α}

include h hr

theorem Gives.required (hx : r.required name value? = some x) : P x := by
  obtain ⟨j, hj, hx⟩ := Option.bind_eq_some_iff.1 hx
  exact h j x (told_lookup hr hj) hx

theorem Gives.optional {missing : α} (hmissing : P missing)
    (hx : r.optional name missing value? = some x) : P x := by
  unfold Record.optional at hx
  split at hx
  · next j hj => exact h j x (told_lookup hr hj) hx
  · obtain rfl := Option.some.inj hx
    exact hmissing

end Record

/-! ### What is written -/

mutual

/-- Nothing that is written is unreadable. -/
theorem readable_printed : ∀ j : Json, j.printed.readable = true
  | .null | .bool _ | .int _ | .text _ | .unreadable => rfl
  | .float x => by
    rw [printed]
    split <;> rfl
  | .array items => by
    rw [printed, readable]
    exact readable_printedItems items
  | .object members => by
    rw [printed, readable]
    exact readable_printedMembers members

theorem readable_printedItems : ∀ items : List Json, readableItems (printedItems items) = true
  | [] => rfl
  | j :: rest => by
    rw [printedItems, readableItems, readable_printed j, readable_printedItems rest]
    rfl

theorem readable_printedMembers :
    ∀ members : List (String × Json), readableMembers (printedMembers members) = true
  | [] => rfl
  | (_, j) :: rest => by
    rw [printedMembers, readableMembers, readable_printed j, readable_printedMembers rest]
    rfl

end

end QuantumRelay.Json
