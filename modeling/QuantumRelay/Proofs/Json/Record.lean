import QuantumRelay.Json.Record
import QuantumRelay.Proofs.Exchange.Response
import QuantumRelay.Proofs.Json.Text

/-!
# Records and their texts

What is read from the text of a list or a record depends on its parts. A list of numbers is read back if
all of them are finite and refused otherwise (`Reads`, `Reads.items`), a field that was left out is read as
what it was left out for (`optional_of_lookup`).
-/

namespace QuantumRelay.Json

variable {α β γ : Type}

/-! ### What a text says -/

theorem printedItems_eq (items : List Json) : printedItems items = items.map printed := by
  induction items with
  | nil => rfl
  | cons j rest ih => rw [printedItems, ih, List.map_cons]

theorem printedMembers_eq (ms : List (String × Json)) :
    printedMembers ms = ms.map fun m => (m.1, m.2.printed) := by
  induction ms with
  | nil => rfl
  | cons m rest ih =>
    obtain ⟨key, j⟩ := m
    rw [printedMembers, ih, List.map_cons]

theorem printed_object (ms : List (String × Json)) :
    (Json.object ms).printed = .object (ms.map fun m => (m.1, m.2.printed)) := by
  rw [printed, printedMembers_eq]

theorem printed_array (l : List α) (toJson : α → Json) :
    (Json.array (l.map toJson)).printed = .array (l.map fun x => (toJson x).printed) := by
  rw [printed, printedItems_eq, List.map_map]
  rfl

theorem printed_ofKeyMap (toJson : α → Json) (m : KeyMap α) :
    (ofKeyMap toJson m).printed = ofKeyMap (fun v => (toJson v).printed) m := by
  rw [ofKeyMap, printed_object, List.map_map]
  rfl

theorem printed_ofTexts (l : List String) : (ofTexts l).printed = ofTexts l :=
  printed_array l .text

/-! ### Fields -/

theorem record?_of_sublist {names : List String} {fields : List (String × Json)} (extent : Extent)
    (hnames : names.Nodup) (h : (fields.map (·.1)).Sublist names) :
    record? extent names (.object fields) = some ⟨fields⟩ := by
  have hknown : fields.filter (fun m => names.contains m.1) = fields := by
    rw [List.filter_eq_self]
    intro m hm
    exact List.contains_iff_mem.2 (h.subset (List.mem_map_of_mem hm))
  simp only [record?, hknown]
  rw [if_neg (by simp), if_pos (h.nodup hnames)]

section Fields

variable (skip : Bool) (name : String) (j : Json) (value : Option α) (toJson : α → Json)

theorem map_fieldUnless : (fieldUnless skip name j).map (fun m => (m.1, m.2.printed)) =
    fieldUnless skip name j.printed := by
  cases skip with
  | true => rfl
  | false => rfl

theorem map_fieldOf? : (fieldOf? name value toJson).map (fun m => (m.1, m.2.printed)) =
    fieldOf? name value fun v => (toJson v).printed := by
  cases value with
  | none => rfl
  | some v => rfl

theorem names_fieldUnless : ((fieldUnless skip name j).map (·.1)).Sublist [name] := by
  cases skip with
  | true => exact List.nil_sublist _
  | false => exact List.Sublist.refl _

theorem names_fieldOf? : ((fieldOf? name value toJson).map (·.1)).Sublist [name] := by
  cases value with
  | none => exact List.nil_sublist _
  | some v => exact List.Sublist.refl _

theorem lookup_singleton (key : String) :
    [(name, j)].lookup key = if key = name then some j else none := by
  rw [List.lookup]
  by_cases h : key = name
  · rw [beq_iff_eq.2 h, if_pos h]
  · rw [beq_false_of_ne h, if_neg h]
    rfl

theorem lookup_fieldUnless (key : String) : (fieldUnless skip name j).lookup key =
    if key = name then if skip then none else some j else none := by
  cases skip with
  | true => simp [fieldUnless]
  | false => exact lookup_singleton ..

theorem lookup_fieldOf? (key : String) : (fieldOf? name value toJson).lookup key =
    if key = name then value.map toJson else none := by
  cases value with
  | none => simp [fieldOf?]
  | some v => exact lookup_singleton ..

end Fields

theorem required_of_lookup {fields : List (String × Json)} {name : String} {j : Json}
    (value? : Json → Option α) (h : fields.lookup name = some j) :
    Record.required ⟨fields⟩ name value? = value? j := by
  rw [Record.required, h, Option.bind_some]

theorem optional_of_lookup {fields : List (String × Json)} {name : String} {l : List α} {j : Json}
    (value? : Json → Option (List α))
    (h : fields.lookup name = if l.isEmpty then none else some j)
    (hempty : l = [] → value? j = some []) : Record.optional ⟨fields⟩ name [] value? = value? j := by
  unfold Record.optional
  cases l with
  | nil => rw [h, hempty rfl]; rfl
  | cons x rest => rw [h]; rfl

theorem optional_of_some {fields : List (String × Json)} {name : String} {j : Json} (missing : α)
    (value? : Json → Option α) (h : fields.lookup name = some j) :
    Record.optional ⟨fields⟩ name missing value? = value? j := by
  rw [Record.optional, h]

theorem optional_of_map {fields : List (String × Json)} {name : String} {value : Option α}
    {toJson : α → Json} {value? : Json → Option α} (h : fields.lookup name = value.map toJson)
    (hread : ∀ v, nullable? value? (toJson v) = some (some v)) :
    Record.optional ⟨fields⟩ name none (nullable? value?) = some value := by
  unfold Record.optional
  rw [h]
  cases value with
  | none => rfl
  | some v => exact hread v

/-! ### What fits in a text -/

theorem fitsMembers_append {depth : Nat} {ms more : List (String × Json)} :
    FitsMembers depth (ms ++ more) ↔ FitsMembers depth ms ∧ FitsMembers depth more := by
  induction ms with
  | nil => simp [FitsMembers]
  | cons m rest ih =>
    obtain ⟨key, j⟩ := m
    rw [List.cons_append, FitsMembers, FitsMembers, ih, and_assoc]

theorem fits_fieldUnless {depth : Nat} {j : Json} (skip : Bool) (name : String)
    (h : j.Fits depth) : FitsMembers depth (fieldUnless skip name j) := by
  cases skip with
  | true => trivial
  | false => exact ⟨h, trivial⟩

theorem fits_fieldOf? {depth : Nat} {toJson : α → Json} (name : String) (value : Option α)
    (h : ∀ v, (toJson v).Fits depth) : FitsMembers depth (fieldOf? name value toJson) := by
  cases value with
  | none => trivial
  | some v => exact ⟨h v, trivial⟩

theorem fits_array {depth : Nat} (hdepth : depth < maxDepth) {toJson : α → Json}
    (h : ∀ x, (toJson x).Fits (depth + 1)) (l : List α) :
    (Json.array (l.map toJson)).Fits depth := by
  refine ⟨hdepth, ?_⟩
  induction l with
  | nil => trivial
  | cons x rest ih => exact ⟨h x, ih⟩

theorem fits_ofKeyMap {depth : Nat} (hdepth : depth < maxDepth) {toJson : α → Json}
    (h : ∀ v, (toJson v).Fits (depth + 1)) (m : KeyMap α) : (ofKeyMap toJson m).Fits depth := by
  refine ⟨hdepth, ?_⟩
  induction m.entries with
  | nil => trivial
  | cons e rest ih => exact ⟨h e.2, ih⟩

theorem fits_ofWord32 (depth : Nat) (n : UInt32) : (ofWord32 n).Fits depth := by
  have hlt := n.toNat_lt
  rw [ofWord32, Fits, IsWord]
  omega

theorem fits_ofWord64 (depth : Nat) (n : UInt64) : (ofWord64 n).Fits depth := by
  have hlt := n.toNat_lt
  rw [ofWord64, Fits, IsWord]
  omega

/-! ### Reading what was written -/

/-- A reader reads what a writer has written, but for values that lack `P`, which it refuses. -/
def Reads (value? : Json → Option α) (toJson : α → Json) (P : α → Prop) : Prop :=
  ∀ x, (P x → value? (toJson x) = some x) ∧ (¬P x → value? (toJson x) = none)

theorem both_read {a? : Option α} {b? : Option β} {a : α} {b : β} {P Q : Prop} (f : α → β → γ)
    (ha : (P → a? = some a) ∧ (¬P → a? = none)) (hb : (Q → b? = some b) ∧ (¬Q → b? = none)) :
    (P ∧ Q → (a?.bind fun a => b?.map (f a)) = some (f a b)) ∧
      (¬(P ∧ Q) → (a?.bind fun a => b?.map (f a)) = none) := by
  constructor
  · rintro ⟨hP, hQ⟩
    rw [ha.1 hP, hb.1 hQ]
    rfl
  · intro h
    by_cases hP : P
    · rw [ha.1 hP, hb.2 fun hQ => h ⟨hP, hQ⟩]
      rfl
    · rw [ha.2 hP]
      rfl

theorem Reads.items {item? : Json → Option α} {toJson : α → Json} {P : α → Prop}
    (h : Reads item? toJson P) :
    Reads (items? item?) (fun l => .array (l.map toJson)) (fun l => ∀ x ∈ l, P x) := by
  intro l
  constructor
  · intro hl
    show (l.map toJson).mapM item? = some l
    induction l with
    | nil => rfl
    | cons x rest ih =>
      obtain ⟨hx, hrest⟩ := List.forall_mem_cons.1 hl
      rw [List.map_cons, List.mapM_cons, (h x).1 hx, ih hrest]
      rfl
  · intro hl
    show (l.map toJson).mapM item? = none
    induction l with
    | nil => exact absurd (fun x hx => by cases hx) hl
    | cons x rest ih =>
      rw [List.map_cons, List.mapM_cons]
      by_cases hx : P x
      · rw [(h x).1 hx, ih fun hrest => hl (List.forall_mem_cons.2 ⟨hx, hrest⟩)]
        rfl
      · rw [(h x).2 hx]
        rfl

theorem word32?_ofWord32 (n : UInt32) : word32? (ofWord32 n) = some n := by
  have hlt : (n.toNat : Int) < 4294967296 := Int.ofNat_lt.2 n.toNat_lt
  simp [word32?, ofWord32, hlt]

theorem nullable?_ofWord32 (n : UInt32) : nullable? word32? (ofWord32 n) = some (some n) := by
  show (word32? (ofWord32 n)).map some = _
  rw [word32?_ofWord32, Option.map_some]

theorem nullable?_ofWord64 (n : UInt64) : nullable? word64? (ofWord64 n) = some (some n) := by
  show (word64? (ofWord64 n)).map some = _
  rw [word64?_ofWord64, Option.map_some]

theorem reads_float : Reads float? (fun x => (Json.float x).printed) (·.isFinite = true) := by
  intro x
  constructor
  · intro h
    show float? (if x.isFinite then .float x else .null) = _
    rw [if_pos h]
    rfl
  · intro h
    show float? (if x.isFinite then .float x else .null) = _
    rw [if_neg h]
    rfl

theorem reads_words : Reads (items? word32?) (fun l => (Json.array (l.map .ofWord32)).printed)
    fun _ => True := by
  simp only [printed_array]
  exact fun l => ⟨fun _ => mapM_map_eq_some word32?_ofWord32, fun h => absurd trivial h⟩

theorem items?_ofTexts (l : List String) : items? text? (ofTexts l) = some l :=
  mapM_map_eq_some fun _ => rfl

theorem reads_texts : Reads (items? text?) (fun l => (Json.ofTexts l).printed) fun _ => True := by
  simp only [printed_ofTexts]
  exact fun l => ⟨fun _ => items?_ofTexts l, fun h => absurd trivial h⟩

theorem reads_floats : Reads (items? float?) (fun l => (Json.array (l.map .float)).printed)
    fun l => ∀ x ∈ l, x.isFinite = true := by
  simp only [printed_array]
  exact reads_float.items

end QuantumRelay.Json
