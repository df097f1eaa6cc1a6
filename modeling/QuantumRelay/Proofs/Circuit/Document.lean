import QuantumRelay.Circuit.Basic
import QuantumRelay.Proofs.Json.Told

/-!
# Snapshots as documents

A snapshot is read back from the text of its document exactly if all its numbers are finite: a number
that is not is written as `null`, and `null` is no number (`Snapshot.reads_text`). A snapshot that is read
from any text has finite numbers only (`Snapshot.gives_ofJson?`).
-/

namespace QuantumRelay

namespace Instruction

open Json

structure IsFinite (i : Instruction) : Prop where
  params : ∀ x ∈ i.params, x.isFinite = true
  matrix : ∀ m ∈ i.matrix, ∀ row ∈ m, ∀ z ∈ row, z.re.isFinite = true ∧ z.im.isFinite = true

theorem reads_entry : Reads entryOfJson? (fun z => (entryToJson z).printed)
    (fun z => z.re.isFinite = true ∧ z.im.isFinite = true) := by
  intro z
  have hentry : entryOfJson? (entryToJson z).printed =
      (float? (Json.float z.re).printed).bind fun re =>
        (float? (Json.float z.im).printed).map (Complex.mk re) := by
    show (pair? float? float? (.array [(Json.float z.re).printed, (Json.float z.im).printed])).map
      _ = _
    rw [pair?]
    cases float? (Json.float z.re).printed <;> cases float? (Json.float z.im).printed <;> rfl
  simp only [hentry]
  exact both_read Complex.mk (reads_float z.re) (reads_float z.im)

theorem printed_matrixToJson (m : Matrix) : (matrixToJson m).printed =
    .array (m.map fun row => .array (row.map fun z => (entryToJson z).printed)) := by
  rw [matrixToJson, printed_array]
  congr 1
  apply List.map_congr_left
  intro row _
  exact printed_array row entryToJson

theorem reads_matrix : Reads matrixOfJson? (fun m => (matrixToJson m).printed)
    (fun m => ∀ row ∈ m, ∀ z ∈ row, z.re.isFinite = true ∧ z.im.isFinite = true) := by
  intro m
  simp only [printed_matrixToJson]
  exact reads_entry.items.items m

def printedFields (i : Instruction) : List (String × Json) :=
  [("name", .text i.name), ("qubits", (Json.array (i.qubits.map .ofWord32)).printed)] ++
    fieldUnless i.clbits.isEmpty "clbits" (Json.array (i.clbits.map .ofWord32)).printed ++
    fieldUnless i.params.isEmpty "params" (Json.array (i.params.map .float)).printed ++
    fieldOf? "matrix" i.matrix (fun m => (matrixToJson m).printed) ++
    fieldUnless i.circuits.isEmpty "circuits" (Json.ofTexts i.circuits).printed

theorem printed_toJson (i : Instruction) : i.toJson.printed = .object (printedFields i) := by
  simp only [toJson, printed_object, List.map_append, map_fieldUnless, map_fieldOf?]
  rfl

theorem record?_printedFields (i : Instruction) :
    record? .isOpen ["name", "qubits", "clbits", "params", "matrix", "circuits"]
      (.object (printedFields i)) = some ⟨printedFields i⟩ := by
  refine record?_of_sublist .isOpen (by decide) ?_
  simp only [printedFields, List.map_append]
  exact ((((List.Sublist.refl ["name", "qubits"]).append (names_fieldUnless ..)).append
    (names_fieldUnless ..)).append (names_fieldOf? ..)).append (names_fieldUnless ..)

theorem lookup_printedFields (i : Instruction) {key : String} (hname : key ≠ "name")
    (hqubits : key ≠ "qubits") :
    (printedFields i).lookup key =
      (((if key = "clbits" then
          if i.clbits.isEmpty then none else some (Json.array (i.clbits.map .ofWord32)).printed
        else none).or
      (if key = "params" then
          if i.params.isEmpty then none else some (Json.array (i.params.map .float)).printed
        else none)).or
      (if key = "matrix" then i.matrix.map fun m => (matrixToJson m).printed else none)).or
      (if key = "circuits" then
          if i.circuits.isEmpty then none else some (Json.ofTexts i.circuits).printed
        else none) := by
  rw [printedFields, List.lookup_append, List.lookup_append, List.lookup_append,
    List.lookup_append, lookup_fieldUnless, lookup_fieldUnless, lookup_fieldUnless,
    lookup_fieldOf?, List.lookup, beq_false_of_ne hname, lookup_singleton, if_neg hqubits,
    Option.none_or]

theorem optional_matrix (i : Instruction) :
    ((∀ m ∈ i.matrix, ∀ row ∈ m, ∀ z ∈ row, z.re.isFinite = true ∧ z.im.isFinite = true) →
      Record.optional ⟨printedFields i⟩ "matrix" none (nullable? matrixOfJson?) = some i.matrix) ∧
    (¬(∀ m ∈ i.matrix, ∀ row ∈ m, ∀ z ∈ row, z.re.isFinite = true ∧ z.im.isFinite = true) →
      Record.optional ⟨printedFields i⟩ "matrix" none (nullable? matrixOfJson?) = none) := by
  have hlookup : (printedFields i).lookup "matrix" =
      i.matrix.map fun m => (matrixToJson m).printed := by
    simp [lookup_printedFields]
  simp only [Record.optional, hlookup]
  cases i.matrix with
  | none => exact ⟨fun _ => rfl, fun h => absurd (fun _ hm => by cases hm) h⟩
  | some m =>
    have hread : nullable? matrixOfJson? (matrixToJson m).printed =
        (matrixOfJson? (matrixToJson m).printed).map some := by
      rw [printed_matrixToJson]
      rfl
    obtain ⟨hok, hrefused⟩ := reads_matrix m
    simp only [Option.map_some, hread, Option.mem_some_iff, forall_eq']
    exact ⟨fun h => by rw [hok h]; rfl, fun h => by rw [hrefused h]; rfl⟩

theorem reads_toJson : Reads ofJson? (fun i => i.toJson.printed) IsFinite := by
  intro i
  have hclbits : (printedFields i).lookup "clbits" =
      if i.clbits.isEmpty then none else some (Json.array (i.clbits.map .ofWord32)).printed := by
    simp [lookup_printedFields]
  have hparams : (printedFields i).lookup "params" =
      if i.params.isEmpty then none else some (Json.array (i.params.map .float)).printed := by
    simp [lookup_printedFields]
  have hcircuits : (printedFields i).lookup "circuits" =
      if i.circuits.isEmpty then none else some (Json.ofTexts i.circuits).printed := by
    simp [lookup_printedFields]
  have hread : ofJson? i.toJson.printed =
      (items? float? (Json.array (i.params.map .float)).printed).bind fun params =>
        (Record.optional ⟨printedFields i⟩ "matrix" none (nullable? matrixOfJson?)).map fun matrix =>
          { i with params, matrix } := by
    have hname : Record.required ⟨printedFields i⟩ "name" text? = some i.name := rfl
    have hqubits : Record.required ⟨printedFields i⟩ "qubits" (items? word32?) = some i.qubits :=
      (reads_words i.qubits).1 trivial
    rw [printed_toJson, ofJson?, record?_printedFields, Option.bind_eq_bind, Option.bind_some,
      hname, hqubits, optional_of_lookup (items? word32?) hclbits fun h => by rw [h]; rfl,
      optional_of_lookup (items? float?) hparams fun h => by rw [h]; rfl,
      optional_of_lookup (items? text?) hcircuits fun h => by rw [h]; rfl,
      (reads_words i.clbits).1 trivial, (reads_texts i.circuits).1 trivial]
    simp only [Option.bind_eq_bind, Option.bind_some, Option.map_eq_bind, Function.comp_def]
  have hboth := both_read (fun params matrix => { i with params, matrix })
    (reads_floats i.params) (optional_matrix i)
  simp only [hread]
  exact ⟨fun h => hboth.1 ⟨h.params, h.matrix⟩, fun h => hboth.2 fun h' => h ⟨h'.1, h'.2⟩⟩

theorem gives_ofJson? : Gives ofJson? IsFinite := by
  intro j i hj hi
  have hentry : Gives entryOfJson? fun z => z.re.isFinite = true ∧ z.im.isFinite = true := by
    intro j z hj hz
    obtain ⟨⟨re, im⟩, hpair, rfl⟩ := Option.map_eq_some_iff.1 hz
    unfold pair? at hpair
    split at hpair
    · next a b =>
      have hparts := told_array_iff.1 hj
      simp only [Option.bind_eq_bind, Option.bind_eq_some_iff] at hpair
      obtain ⟨x, hx, y, hy, hpair⟩ := hpair
      obtain ⟨rfl, rfl⟩ := Prod.mk.inj (Option.some.inj hpair)
      exact ⟨gives_float a _ (hparts a (by simp)) hx, gives_float b _ (hparts b (by simp)) hy⟩
    · cases hpair
  simp only [ofJson?, Option.bind_eq_bind, Option.bind_eq_some_iff] at hi
  obtain ⟨r, hr, name, -, qubits, -, clbits, -, params, hparams, matrix, hmatrix, circuits, -, hi⟩ := hi
  have hfields := told_record? hr hj
  obtain rfl := Option.some.inj hi
  exact ⟨gives_float.items.optional hfields (fun x hx => absurd hx List.not_mem_nil) hparams,
    hentry.items.items.nullable.optional hfields (by simp) hmatrix⟩

theorem fits_toJson (i : Instruction) : i.toJson.Fits 2 := by
  have hentry (z : Complex Float) : (entryToJson z).Fits 5 := ⟨by decide, trivial, trivial, trivial⟩
  have hmatrix (m : Matrix) : (matrixToJson m).Fits 3 :=
    fits_array (show 3 < 127 by decide) (fun row => fits_array (show 4 < 127 by decide) hentry row) m
  have hwords (l : List UInt32) : (Json.array (l.map .ofWord32)).Fits 3 :=
    fits_array (by decide) (fits_ofWord32 4) l
  have hfloats (l : List Float) : (Json.array (l.map .float)).Fits 3 :=
    fits_array (by decide) (fun x => show (Json.float x).Fits 4 from trivial) l
  have htexts (l : List String) : (Json.ofTexts l).Fits 3 :=
    fits_array (by decide) (fun s => show (Json.text s).Fits 4 from trivial) l
  refine ⟨by decide, ?_⟩
  rw [fitsMembers_append, fitsMembers_append, fitsMembers_append, fitsMembers_append]
  exact ⟨⟨⟨⟨⟨trivial, hwords _, trivial⟩, fits_fieldUnless _ _ (hwords _)⟩,
    fits_fieldUnless _ _ (hfloats _)⟩, fits_fieldOf? _ _ hmatrix⟩, fits_fieldUnless _ _ (htexts _)⟩

end Instruction

namespace Register

open Json

theorem reads_toJson : Reads ofJson? (fun r => r.toJson.printed) fun _ => True := by
  intro r
  refine ⟨fun _ => ?_, fun h => absurd trivial h⟩
  have hrecord : record? .isOpen ["name", "indices"] r.toJson.printed =
      some ⟨[("name", .text r.name), ("indices", (Json.array (r.indices.map .ofWord32)).printed)]⟩ :=
    record?_of_sublist .isOpen (by decide) (List.Sublist.refl _)
  dsimp only
  rw [ofJson?, hrecord, Option.bind_eq_bind, Option.bind_some,
    required_of_lookup (items? word32?) rfl, (reads_words r.indices).1 trivial]
  rfl

theorem fits_toJson (r : Register) : r.toJson.Fits 2 :=
  ⟨by decide, trivial, fits_array (by decide) (fits_ofWord32 4) _, trivial⟩

end Register

namespace Snapshot

open Json

def printedFields (s : Snapshot) : List (String × Json) :=
  [("id", .text s.id),
    ("instructions", (Json.array (s.instructions.map (·.toJson))).printed),
    ("num_qubits", .ofWord32 s.numQubits),
    ("num_clbits", .ofWord32 s.numClbits),
    ("quantum_registers", (Json.array (s.quantumRegisters.map (·.toJson))).printed),
    ("classical_registers", (Json.array (s.classicalRegisters.map (·.toJson))).printed),
    ("is_parametric", .bool s.isParametric),
    ("is_distributed", .bool s.isDistributed)]

theorem record?_printed (s : Snapshot) :
    record? .isOpen fieldNames s.toJson.printed = some ⟨printedFields s⟩ :=
  record?_of_sublist .isOpen (by decide) (List.Sublist.refl _)

theorem reads_toJson : Reads ofJson? (fun s => s.toJson.printed)
    (fun s => ∀ i ∈ s.instructions, i.IsFinite) := by
  intro s
  have hregisters (l : List Register) :
      items? Register.ofJson? (Json.array (l.map (·.toJson))).printed = some l := by
    rw [printed_array]
    exact (Register.reads_toJson.items l).1 fun _ _ => trivial
  have hid : Record.required ⟨printedFields s⟩ "id" text? = some s.id := rfl
  have hqubits : Record.required ⟨printedFields s⟩ "num_qubits" word32? = some s.numQubits :=
    (required_of_lookup _ rfl).trans (word32?_ofWord32 _)
  have hclbits : Record.required ⟨printedFields s⟩ "num_clbits" word32? = some s.numClbits :=
    (required_of_lookup _ rfl).trans (word32?_ofWord32 _)
  have hquantum : Record.required ⟨printedFields s⟩ "quantum_registers"
      (items? Register.ofJson?) = some s.quantumRegisters :=
    (required_of_lookup _ rfl).trans (hregisters _)
  have hclassical : Record.required ⟨printedFields s⟩ "classical_registers"
      (items? Register.ofJson?) = some s.classicalRegisters :=
    (required_of_lookup _ rfl).trans (hregisters _)
  have hparametric : Record.required ⟨printedFields s⟩ "is_parametric" bool? =
      some s.isParametric := rfl
  have hdistributed : Record.required ⟨printedFields s⟩ "is_distributed" bool? =
      some s.isDistributed := rfl
  have hread : ofJson? s.toJson.printed =
      (items? Instruction.ofJson? (Json.array (s.instructions.map (·.toJson))).printed).map
        fun instructions => { s with instructions } := by
    rw [ofJson?, record?_printed, Option.bind_eq_bind, Option.bind_some, hid,
      required_of_lookup (items? Instruction.ofJson?) rfl, hqubits, hclbits, hquantum, hclassical,
      hparametric, hdistributed]
    simp only [Option.bind_eq_bind, Option.bind_some, Option.map_eq_bind, Function.comp_def]
  obtain ⟨hok, hrefused⟩ := Instruction.reads_toJson.items s.instructions
  rw [printed_array] at hread
  dsimp only at hok hrefused ⊢
  rw [hread]
  exact ⟨fun h => by rw [hok h]; rfl, fun h => by rw [hrefused h]; rfl⟩

theorem gives_ofJson? : Gives ofJson? fun s => ∀ i ∈ s.instructions, i.IsFinite := by
  intro j s hj hs
  simp only [ofJson?, Option.bind_eq_bind, Option.bind_eq_some_iff] at hs
  obtain ⟨r, hr, id, -, instructions, hinstructions, _, -, _, -, _, -, _, -, _, -, _, -, hs⟩ := hs
  obtain rfl := Option.some.inj hs
  exact Instruction.gives_ofJson?.items.required (told_record? hr hj) hinstructions

theorem fits_toJson (s : Snapshot) : s.toJson.Fits 0 := by
  have hregisters (l : List Register) : (Json.array (l.map (·.toJson))).Fits 1 :=
    fits_array (by decide) Register.fits_toJson l
  exact ⟨by decide, trivial, fits_array (by decide) Instruction.fits_toJson _, fits_ofWord32 _ _,
    fits_ofWord32 _ _, hregisters _, hregisters _, trivial, trivial, trivial⟩

theorem reads_text (s : Snapshot) :
    ((∀ i ∈ s.instructions, i.IsFinite) → (read? s.text).bind ofJson? = some s) ∧
    (¬(∀ i ∈ s.instructions, i.IsFinite) → (read? s.text).bind ofJson? = none) := by
  rw [text, read?_compact (fits_toJson s), Option.bind_some]
  exact reads_toJson s

end Snapshot

end QuantumRelay
