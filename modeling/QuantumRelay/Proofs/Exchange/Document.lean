import QuantumRelay.Proofs.Circuit.Document
import QuantumRelay.Proofs.Settings.Document

/-!
# Messages and responses as documents

A message is read back from the document that it is sent as, and a response likewise, if their numbers are
finite (`Message.reads_toJson`, `Response.reads_toJson`). Whatever is read from a text has finite numbers
(`Message.gives_ofJson?`, `Response.gives_ofJson?`).
-/

namespace QuantumRelay

open Json

namespace RunRequest

variable (r : RunRequest)

def printedFields : List (String × Json) := [
  ("id", .text r.id),
  ("config", r.config.toJson),
  ("instructions", .array (r.instructions.map fun i => i.toJson.printed)),
  ("exec_type", .text r.execType.name),
  ("num_qubits", .ofWord32 r.numQubits),
  ("num_clbits", .ofWord32 r.numClbits)]

theorem printed_fields : (Json.object r.fields).printed = .object r.printedFields := by
  simp only [printed_object, fields, List.map_cons, List.map_nil, RunConfig.printed_toJson,
    printed_array]
  rfl

variable {r} in
theorem ofJson?_printedFields (h : ∀ i ∈ r.instructions, i.IsFinite) :
    ofJson? (.object r.printedFields) = some r := by
  have hrecord : record? .isOpen
      ["id", "config", "instructions", "exec_type", "num_qubits", "num_clbits"]
      (.object r.printedFields) = some ⟨r.printedFields⟩ :=
    record?_of_sublist .isOpen (by decide) (List.Sublist.refl _)
  have hid : Record.required ⟨r.printedFields⟩ "id" text? = some r.id := rfl
  have hconfig : Record.required ⟨r.printedFields⟩ "config" (RunConfig.ofJson? true) =
      some r.config := (required_of_lookup _ rfl).trans (r.config.ofJson?_toJson true)
  have hinstructions : Record.required ⟨r.printedFields⟩ "instructions"
      (items? Instruction.ofJson?) = some r.instructions :=
    (required_of_lookup _ rfl).trans ((Instruction.reads_toJson.items r.instructions).1 h)
  have htype : Record.required ⟨r.printedFields⟩ "exec_type" (choice? ExecType.choices true) =
      some r.execType := by
    refine (required_of_lookup _ rfl).trans ?_
    cases r.execType <;> rfl
  have hqubits : Record.required ⟨r.printedFields⟩ "num_qubits" word32? = some r.numQubits :=
    (required_of_lookup _ rfl).trans (word32?_ofWord32 _)
  have hclbits : Record.required ⟨r.printedFields⟩ "num_clbits" word32? = some r.numClbits :=
    (required_of_lookup _ rfl).trans (word32?_ofWord32 _)
  rw [ofJson?, hrecord, Option.bind_eq_bind, Option.bind_some, hid, hconfig, hinstructions, htype,
    hqubits, hclbits]
  rfl

theorem gives_ofJson? : Gives ofJson? fun r => ∀ i ∈ r.instructions, i.IsFinite := by
  intro j r hj hr
  simp only [ofJson?, Option.bind_eq_bind, Option.bind_eq_some_iff] at hr
  obtain ⟨fields, hfields, _, -, _, -, instructions, hinstructions, _, -, _, -, _, -, hr⟩ := hr
  obtain rfl := Option.some.inj hr
  exact Instruction.gives_ofJson?.items.required (told_record? hfields hj) hinstructions

theorem fits_fields : FitsMembers 1 r.fields :=
  ⟨trivial, r.config.fits_toJson (by decide), fits_array (by decide) Instruction.fits_toJson _,
    trivial, fits_ofWord32 _ _, fits_ofWord32 _ _, trivial⟩

end RunRequest

namespace ParameterUpdate

variable (u : ParameterUpdate)

def printedFields : List (String × Json) :=
  [("id", .text u.id), ("params", (Json.array (u.params.map .float)).printed)]

theorem printed_fields : (Json.object u.fields).printed = .object u.printedFields := by
  rw [printed_object]
  rfl

variable {u} in
theorem ofJson?_printedFields (h : ∀ x ∈ u.params, x.isFinite = true) :
    ofJson? (.object u.printedFields) = some u := by
  have hrecord : record? .isOpen ["id", "params"] (.object u.printedFields) =
      some ⟨u.printedFields⟩ := record?_of_sublist .isOpen (by decide) (List.Sublist.refl _)
  have hid : Record.required ⟨u.printedFields⟩ "id" text? = some u.id := rfl
  have hparams : Record.required ⟨u.printedFields⟩ "params" (items? float?) = some u.params :=
    (required_of_lookup _ rfl).trans ((reads_floats u.params).1 h)
  rw [ofJson?, hrecord, Option.bind_eq_bind, Option.bind_some, hid, hparams]
  rfl

theorem gives_ofJson? : Gives ofJson? fun u => ∀ x ∈ u.params, x.isFinite = true := by
  intro j u hj hu
  simp only [ofJson?, Option.bind_eq_bind, Option.bind_eq_some_iff] at hu
  obtain ⟨fields, hfields, _, -, params, hparams, hu⟩ := hu
  obtain rfl := Option.some.inj hu
  exact gives_float.items.required (told_record? hfields hj) hparams

theorem fits_fields : FitsMembers 1 u.fields :=
  ⟨trivial, fits_array (by decide) (fun x => show (Json.float x).Fits 2 from trivial) _, trivial⟩

end ParameterUpdate

namespace Message

def IsFinite : Message → Prop
  | .run r => ∀ i ∈ r.instructions, i.IsFinite
  | .update u => ∀ x ∈ u.params, x.isFinite = true

theorem ofJson?_of_kind {kind : String} {fields : List (String × Json)}
    (hreadable : (Json.object (("kind", .text kind) :: fields)).readable = true)
    (hkind : ∀ m ∈ fields, m.1 ≠ "kind") :
    ofJson? (.object (("kind", .text kind) :: fields)) = ofKind? kind (.object fields) := by
  have hnone : fields.filter (·.1 == "kind") = [] :=
    List.filter_eq_nil_iff.2 fun m hm => by simpa using hkind m hm
  have hall : fields.filter (·.1 != "kind") = fields :=
    List.filter_eq_self.2 fun m hm => by simpa using hkind m hm
  unfold ofJson?
  rw [hreadable]
  simp only [Bool.not_true, Bool.false_eq_true, if_false]
  rw [List.filter_cons_of_pos (by rfl), hnone, List.filter_cons_of_neg (by simp), hall]

theorem ofJson?_printed_of_kind {kind : String} {fields printedFields : List (String × Json)}
    (hfields : (Json.object fields).printed = .object printedFields)
    (hkind : ∀ m ∈ printedFields, m.1 ≠ "kind") :
    ofJson? (Json.object (("kind", .text kind) :: fields)).printed =
      ofKind? kind (.object printedFields) := by
  have hprinted : (Json.object (("kind", .text kind) :: fields)).printed =
      .object (("kind", .text kind) :: printedFields) := by
    rw [printed_object, Json.object.injEq] at hfields
    rw [printed_object, List.map_cons, hfields]
    rfl
  have hreadable := readable_printed (.object (("kind", .text kind) :: fields))
  rw [hprinted] at hreadable ⊢
  exact ofJson?_of_kind hreadable hkind

theorem ofJson?_printed {m : Message} (h : m.IsFinite) : ofJson? m.toJson.printed = some m := by
  cases m with
  | run r =>
    refine (ofJson?_printed_of_kind r.printed_fields (by simp [RunRequest.printedFields])).trans ?_
    exact congrArg (Option.map Message.run) (RunRequest.ofJson?_printedFields h)
  | update u =>
    refine (ofJson?_printed_of_kind u.printed_fields
      (by simp [ParameterUpdate.printedFields])).trans ?_
    exact congrArg (Option.map Message.update) (ParameterUpdate.ofJson?_printedFields h)

theorem gives_ofKind? (kind : String) : Gives (ofKind? kind) IsFinite := by
  intro j m hj hm
  unfold ofKind? at hm
  split at hm
  · obtain ⟨r, hr, rfl⟩ := Option.map_eq_some_iff.1 hm
    exact RunRequest.gives_ofJson? j r hj hr
  · split at hm
    · obtain ⟨u, hu, rfl⟩ := Option.map_eq_some_iff.1 hm
      exact ParameterUpdate.gives_ofJson? j u hj hu
    · cases hm

theorem gives_ofJson? : Gives ofJson? IsFinite := by
  intro j m hj hm
  unfold ofJson? at hm
  split at hm
  · cases hm
  · split at hm
    · next members =>
      have hmembers := told_object_iff.1 hj
      split at hm
      · exact gives_ofKind? _ _ m
          (told_object_iff.2 fun m hm => hmembers m (List.mem_of_mem_filter hm)) hm
      · cases hm
    · next items =>
      exact gives_ofKind? _ _ m
        (told_array_iff.2 fun j hj' => told_array_iff.1 hj j (List.mem_cons_of_mem _ hj')) hm
    · cases hm

theorem fits_toJson (m : Message) : m.toJson.Fits 0 := by
  cases m with
  | run r => exact ⟨by decide, trivial, r.fits_fields⟩
  | update u => exact ⟨by decide, trivial, u.fits_fields⟩

end Message

namespace Response

theorem ofJson?_printed {r : Response} (h : ∀ x ∈ r.timeTaken, x.isFinite = true) :
    ofJson? r.toJson.printed = some r := by
  have hprinted : r.toJson.printed = r.toJson := by
    have htime : fieldOf? "time_taken" r.timeTaken (fun x => (Json.float x).printed) =
        fieldOf? "time_taken" r.timeTaken .float := by
      cases htime : r.timeTaken with
      | none => rfl
      | some x =>
        show [("time_taken", if x.isFinite then Json.float x else .null)] = _
        rw [if_pos (h x htime)]
        rfl
    simp only [toJson, printed_object, List.map_append, map_fieldOf?, htime, printed_ofKeyMap]
    rfl
  rw [hprinted, ofJson?_toJson]

theorem gives_ofJson? : Gives ofJson? fun r => ∀ x ∈ r.timeTaken, x.isFinite = true := by
  intro j r hj hr
  simp only [ofJson?, Option.bind_eq_bind, Option.bind_eq_some_iff] at hr
  obtain ⟨fields, hfields, _, -, _, -, time, htime, hr⟩ := hr
  obtain rfl := Option.some.inj hr
  exact gives_float.nullable.optional (told_record? hfields hj) (by simp) htime

theorem fits_toJson (r : Response) : r.toJson.Fits 0 := by
  refine ⟨by decide, ?_⟩
  rw [fitsMembers_append, fitsMembers_append]
  exact ⟨⟨fits_fieldOf? _ _ fun _ => trivial,
    fits_fieldOf? _ _ (fits_ofKeyMap (by decide) (fits_ofWord64 _))⟩,
    fits_fieldOf? _ _ fun _ => trivial⟩

end Response

end QuantumRelay
