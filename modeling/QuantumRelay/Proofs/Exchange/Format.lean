import QuantumRelay.Proofs.Circuit.WellFormed
import QuantumRelay.Proofs.Exchange.Document

/-!
# Values through texts

A text can be written in many ways: with its keys in any order, with keys that nobody asks for, with fields
left out or `null`, with records as lists and whole numbers for doubles. Whichever way it is, the value that
it is decoded to is decoded from its own text again (`Stable`). The values that come from texts at all are
those with finite numbers.
-/

namespace QuantumRelay

variable {α : Type}

def encode (toJson : α → Json) (v : α) : String := (toJson v).compact

def decode? (ofJson? : Json → Option α) (text : String) : Option α := (Json.read? text).bind ofJson?

/-- How writing and reading values as texts agree. -/
structure Stable (encode : α → String) (decode? : String → Option α) (Tells : α → Prop) : Prop where
  /-- A value that is decoded from any text is decoded from its own text. -/
  decoded : ∀ text v, decode? text = some v → decode? (encode v) = some v
  /-- What is decoded from that text is encoded to the same text. -/
  encoded : ∀ text v w, decode? text = some v → decode? (encode v) = some w → encode w = encode v
  /-- The values that come from texts. -/
  image : ∀ v, (∃ text, decode? text = some v) ↔ Tells v

theorem Stable.of_told {encode : α → String} {decode? : String → Option α} {Tells : α → Prop}
    (hreads : ∀ v, Tells v → decode? (encode v) = some v)
    (hgives : ∀ text v, decode? text = some v → Tells v) : Stable encode decode? Tells where
  decoded text v h := hreads v (hgives text v h)
  encoded text v w h hw := by
    rw [hreads v (hgives text v h), Option.some.injEq] at hw
    rw [hw]
  image v := ⟨fun ⟨text, h⟩ => hgives text v h, fun h => ⟨encode v, hreads v h⟩⟩

/-- Documents that tell exactly the values with a property, if they are read from texts. -/
structure Documents (toJson : α → Json) (ofJson? : Json → Option α) (Tells : α → Prop) : Prop where
  fits : ∀ v, (toJson v).Fits 0
  reads : ∀ v, Tells v → ofJson? (toJson v).printed = some v
  gives : Json.Gives ofJson? Tells

namespace Documents

variable {toJson : α → Json} {ofJson? : Json → Option α} {Tells : α → Prop}

theorem decode?_encode (h : Documents toJson ofJson? Tells) {v : α} (hv : Tells v) :
    decode? ofJson? (encode toJson v) = some v := by
  rw [decode?, encode, Json.read?_compact (h.fits v), Option.bind_some, h.reads v hv]

theorem tells (h : Documents toJson ofJson? Tells) {text : String} {v : α}
    (hv : decode? ofJson? text = some v) : Tells v := by
  obtain ⟨j, hj, hv⟩ := Option.bind_eq_some_iff.1 hv
  exact h.gives j v (Json.told_of_read? hj) hv

theorem stable (h : Documents toJson ofJson? Tells) :
    Stable (encode toJson) (decode? ofJson?) Tells :=
  .of_told (fun _ => h.decode?_encode) fun _ _ => h.tells

theorem of_all {ofJson? : Json → Option α} (hfits : ∀ v, (toJson v).Fits 0)
    (hprinted : ∀ v, (toJson v).printed = toJson v) (hread : ∀ v, ofJson? (toJson v) = some v) :
    Documents toJson ofJson? fun _ => True where
  fits := hfits
  reads v _ := by rw [hprinted, hread]
  gives _ _ _ _ := trivial

end Documents

/-! ### Formats -/

theorem Message.documents : Documents Message.toJson Message.ofJson? Message.IsFinite :=
  ⟨Message.fits_toJson, fun _ => Message.ofJson?_printed, Message.gives_ofJson?⟩

theorem Response.documents : Documents Response.toJson Response.ofJson?
    fun r => ∀ x ∈ r.timeTaken, x.isFinite = true :=
  ⟨Response.fits_toJson, fun _ => Response.ofJson?_printed, Response.gives_ofJson?⟩

theorem Snapshot.documents : Documents Snapshot.toJson Snapshot.ofJson?
    fun s => ∀ i ∈ s.instructions, i.IsFinite :=
  ⟨Snapshot.fits_toJson, fun s => (Snapshot.reads_toJson s).1, Snapshot.gives_ofJson?⟩

theorem RunConfig.documents (emptyIsNull : Bool) :
    Documents RunConfig.toJson (RunConfig.ofJson? emptyIsNull) fun _ => True :=
  .of_all (RunConfig.fits_toJson · (by decide)) RunConfig.printed_toJson
    (RunConfig.ofJson?_toJson · emptyIsNull)

theorem Backend.documents : Documents Backend.toJson Backend.ofJson? fun _ => True :=
  .of_all (Backend.fits_toJson · (by decide)) Backend.printed_toJson Backend.ofJson?_toJson

theorem Directory.documents : Documents Directory.toJson Directory.ofJson? fun _ => True :=
  .of_all Directory.fits_toJson Directory.printed_toJson Directory.ofJson?_toJson

theorem Snapshot.read_eq_ok {text : String} {s : Snapshot} : Snapshot.read text = .ok s ↔
    ∃ t, decode? Snapshot.ofJson? text = some t ∧ t.normalized = .ok s := by
  unfold Snapshot.read decode?
  cases (Json.read? text).bind Snapshot.ofJson? <;> simp

theorem toOption_eq_some_iff {ε : Type} {x : Except ε α} {v : α} :
    x.toOption = some v ↔ x = .ok v := by
  cases x <;> simp [Except.toOption]

theorem Snapshot.stable_read : Stable Snapshot.text (fun text => (Snapshot.read text).toOption)
    fun s => s.normalized = .ok s ∧ ∀ i ∈ s.instructions, i.IsFinite := by
  refine .of_told (fun s h => ?_) fun text s h => ?_
  · exact toOption_eq_some_iff.2 (read_eq_ok.2 ⟨s, documents.decode?_encode h.2, h.1⟩)
  · obtain ⟨t, ht, hs⟩ := read_eq_ok.1 (toOption_eq_some_iff.1 h)
    have hinstructions : s.instructions = t.instructions := by
      rw [← (normalized_eq_ok hs).2]
    refine ⟨normalized_normalized hs, ?_⟩
    rw [hinstructions]
    exact documents.tells ht

theorem Directory.stable_read : Stable (encode Directory.toJson)
    (fun text => (Directory.read text).toOption) fun _ => True := by
  have hread : (fun text => (Directory.read text).toOption) = decode? Directory.ofJson? := by
    funext text
    unfold Directory.read decode?
    cases (Json.read? text).bind Directory.ofJson? <;> rfl
  rw [hread]
  exact documents.stable

/-- Whatever a text is decoded to, in whichever way it is written: the value is decoded from its own text,
and encoded to the same text again. -/
theorem decoded_stable :
    Stable (encode Message.toJson) (decode? Message.ofJson?) Message.IsFinite ∧
    Stable (encode Response.toJson) (decode? Response.ofJson?)
      (fun r => ∀ x ∈ r.timeTaken, x.isFinite = true) ∧
    Stable Snapshot.text (decode? Snapshot.ofJson?)
      (fun s => ∀ i ∈ s.instructions, i.IsFinite) ∧
    Stable Snapshot.text (fun text => (Snapshot.read text).toOption)
      (fun s => s.normalized = .ok s ∧ ∀ i ∈ s.instructions, i.IsFinite) ∧
    (∀ emptyIsNull, Stable (encode RunConfig.toJson) (decode? (RunConfig.ofJson? emptyIsNull))
      fun _ => True) ∧
    Stable (encode Backend.toJson) (decode? Backend.ofJson?) (fun _ => True) ∧
    Stable (encode Directory.toJson) (fun text => (Directory.read text).toOption) (fun _ => True) :=
  ⟨Message.documents.stable, Response.documents.stable, Snapshot.documents.stable,
    Snapshot.stable_read, fun emptyIsNull => (RunConfig.documents emptyIsNull).stable,
    Backend.documents.stable, Directory.stable_read⟩

/-! ### A text -/

/-- A request as a list, with an escape, a setting that is `null`, a key that nobody asks for, a whole number
for an angle and an object for a name. -/
def terseText : String :=
  "[\"run\", \"\\u0061\", \x7b\"seed\":null\x7d, [\x7b\"at\": 1e9, \"params\": [1], \"qubits\":[0], " ++
    "\"name\":\"rx\"\x7d], \x7b\"offloading\":\x7b\x7d\x7d, 1, 0]"

def plainText : String :=
  "\x7b\"kind\":\"run\",\"id\":\"a\",\"config\":\x7b\"shots\":1024,\"method\":\"automatic\"," ++
    "\"fusion\":true\x7d,\"instructions\":[\x7b\"name\":\"rx\",\"qubits\":[0],\"params\":[1.0]" ++
    "\x7d],\"exec_type\":\"offloading\",\"num_qubits\":1,\"num_clbits\":0\x7d"

/-- Both texts are decoded to one message, and only the second is its own text. -/
theorem terse_stable : ∃ m, decode? Message.ofJson? terseText = some m ∧
    decode? Message.ofJson? (encode Message.toJson m) = some m ∧
    encode Message.toJson m = plainText := by
  have hplain : (decode? Message.ofJson? terseText).map (encode Message.toJson) = some plainText := by
    decide +kernel
  obtain ⟨m, hdecoded, hencoded⟩ := Option.map_eq_some_iff.1 hplain
  exact ⟨m, hdecoded, decoded_stable.1.decoded _ _ hdecoded, hencoded⟩

end QuantumRelay
