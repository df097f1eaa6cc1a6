import QuantumRelay.Directory
import QuantumRelay.Proofs.Json.Record

/-!
# Settings, backends and directories as documents

Whatever settings, a backend or a directory are, their documents say all of it (`ofJson?_toJson`), and have
nothing in them that a text could not tell (`printed_toJson`, `fits_toJson`). What is left out when it has
nothing to say is read as if it said so.
-/

namespace QuantumRelay

open Json

namespace RunConfig

variable (c : RunConfig)

def fields : List (String × Json) :=
  [("shots", ofWord32 c.shots), ("method", Json.text c.method.name)] ++
    fieldOf? "seed" c.seed ofWord64 ++
    fieldOf? "max_parallel_threads" c.maxParallelThreads ofWord32 ++
    [("fusion", Json.bool c.fusion)]

theorem toJson_eq : c.toJson = .object c.fields := rfl

theorem printed_toJson : c.toJson.printed = c.toJson := by
  simp only [toJson_eq, fields, printed_object, List.map_append, map_fieldOf?]
  rfl

theorem record?_fields : record? .isClosed fieldNames (.object c.fields) = some ⟨c.fields⟩ := by
  refine record?_of_sublist .isClosed (by decide) ?_
  simp only [fields, List.map_append]
  exact (((List.Sublist.refl ["shots", "method"]).append (names_fieldOf? ..)).append
    (names_fieldOf? ..)).append (List.Sublist.refl ["fusion"])

theorem lookup_fields : c.fields.lookup "seed" = c.seed.map ofWord64 ∧
    c.fields.lookup "max_parallel_threads" = c.maxParallelThreads.map ofWord32 ∧
    c.fields.lookup "fusion" = some (.bool c.fusion) := by
  unfold fields
  cases c.seed <;> cases c.maxParallelThreads <;> exact ⟨rfl, rfl, rfl⟩

theorem ofJson?_toJson (emptyIsNull : Bool) : ofJson? emptyIsNull c.toJson = some c := by
  obtain ⟨hseed, hthreads, hlast⟩ := c.lookup_fields
  have hshots : Record.optional ⟨c.fields⟩ "shots" 1024 word32? = some c.shots :=
    (optional_of_some _ _ rfl).trans (word32?_ofWord32 _)
  have hmethod : Record.optional ⟨c.fields⟩ "method" .automatic
      (choice? Method.choices emptyIsNull) = some c.method := by
    refine (optional_of_some _ _ rfl).trans ?_
    cases c.method <;> rfl
  have hfusion : Record.optional ⟨c.fields⟩ "fusion" true bool? = some c.fusion :=
    optional_of_some _ _ hlast
  rw [toJson_eq, ofJson?, record?_fields, Option.bind_eq_bind, Option.bind_some, hshots, hmethod,
    optional_of_map hseed nullable?_ofWord64, optional_of_map hthreads nullable?_ofWord32, hfusion]
  rfl

theorem fits_toJson {depth : Nat} (hdepth : depth < maxDepth) : c.toJson.Fits depth := by
  refine ⟨hdepth, ?_⟩
  rw [fitsMembers_append, fitsMembers_append, fitsMembers_append]
  exact ⟨⟨⟨⟨fits_ofWord32 _ _, trivial, trivial⟩, fits_fieldOf? _ _ (fits_ofWord64 _)⟩,
    fits_fieldOf? _ _ (fits_ofWord32 _)⟩, trivial, trivial⟩

end RunConfig

namespace Backend

variable (b : Backend)

def pairToJson (p : UInt32 × UInt32) : Json := .array [.ofWord32 p.1, .ofWord32 p.2]

def fields : List (String × Json) :=
  [("name", Json.text b.name), ("version", Json.text b.version),
    ("n_qubits", ofWord32 b.numQubits), ("description", Json.text b.description),
    ("simulator", Json.bool b.simulator), ("basis_gates", ofTexts b.basisGates)] ++
  fieldOf? "coupling_map" b.couplingMap (fun pairs => Json.array (pairs.map pairToJson)) ++
  [("custom_instructions", ofTexts b.customInstructions), ("conditional", Json.bool b.conditional),
    ("memory", Json.bool b.memory)]

theorem toJson_eq : b.toJson = .object b.fields := rfl

theorem printed_toJson : b.toJson.printed = b.toJson := by
  have hpairs (pairs : List (UInt32 × UInt32)) :
      (Json.array (pairs.map pairToJson)).printed = .array (pairs.map pairToJson) :=
    printed_array pairs pairToJson
  simp only [toJson_eq, fields, printed_object, List.map_append, map_fieldOf?, hpairs, List.map_cons,
    List.map_nil, printed_ofTexts]
  rfl

theorem record?_fields : record? .isClosed fieldNames (.object b.fields) = some ⟨b.fields⟩ := by
  refine record?_of_sublist .isClosed (by decide) ?_
  simp only [fields, List.map_append]
  exact ((List.Sublist.refl ["name", "version", "n_qubits", "description", "simulator",
    "basis_gates"]).append (names_fieldOf? ..)).append
    (List.Sublist.refl ["custom_instructions", "conditional", "memory"])

theorem pair?_pairToJson (p : UInt32 × UInt32) : pair? word32? word32? (pairToJson p) = some p := by
  rw [pairToJson, pair?, word32?_ofWord32, word32?_ofWord32]
  rfl

theorem lookup_fields :
    b.fields.lookup "coupling_map" =
      b.couplingMap.map (fun pairs => .array (pairs.map pairToJson)) ∧
    b.fields.lookup "custom_instructions" = some (.ofTexts b.customInstructions) ∧
    b.fields.lookup "conditional" = some (.bool b.conditional) ∧
    b.fields.lookup "memory" = some (.bool b.memory) := by
  unfold fields
  cases b.couplingMap <;> exact ⟨rfl, rfl, rfl, rfl⟩

theorem ofJson?_toJson : ofJson? b.toJson = some b := by
  obtain ⟨hcoupling, hinstructions, hbits, hshots⟩ := b.lookup_fields
  have hname : Record.required ⟨b.fields⟩ "name" text? = some b.name := rfl
  have hversion : Record.optional ⟨b.fields⟩ "version" "" text? = some b.version := rfl
  have hqubits : Record.required ⟨b.fields⟩ "n_qubits" word32? = some b.numQubits :=
    (required_of_lookup _ rfl).trans (word32?_ofWord32 _)
  have hdescription : Record.optional ⟨b.fields⟩ "description" "" text? = some b.description := rfl
  have hsimulator : Record.optional ⟨b.fields⟩ "simulator" true bool? = some b.simulator := rfl
  have hgates : Record.optional ⟨b.fields⟩ "basis_gates" [] (items? text?) = some b.basisGates :=
    (optional_of_some _ _ rfl).trans (items?_ofTexts _)
  have hpairs (pairs : List (UInt32 × UInt32)) : nullable? (items? (pair? word32? word32?))
      (.array (pairs.map pairToJson)) = some (some pairs) :=
    congrArg (Option.map some) (mapM_map_eq_some pair?_pairToJson)
  have hcustom : Record.optional ⟨b.fields⟩ "custom_instructions" [] (items? text?) =
      some b.customInstructions := (optional_of_some _ _ hinstructions).trans (items?_ofTexts _)
  have hconditional : Record.optional ⟨b.fields⟩ "conditional" true bool? = some b.conditional :=
    optional_of_some _ _ hbits
  have hmemory : Record.optional ⟨b.fields⟩ "memory" false bool? = some b.memory :=
    optional_of_some _ _ hshots
  rw [toJson_eq, ofJson?, record?_fields, Option.bind_eq_bind, Option.bind_some, hname, hversion,
    hqubits, hdescription, hsimulator, hgates, optional_of_map hcoupling hpairs, hcustom,
    hconditional, hmemory]
  rfl

theorem fits_toJson {depth : Nat} (hdepth : depth + 2 < maxDepth) : b.toJson.Fits depth := by
  have htexts (l : List String) : (ofTexts l).Fits (depth + 1) :=
    fits_array (by omega) (fun s => show (Json.text s).Fits _ from trivial) l
  have hpair (p : UInt32 × UInt32) : (pairToJson p).Fits (depth + 2) :=
    ⟨hdepth, fits_ofWord32 _ _, fits_ofWord32 _ _, trivial⟩
  refine ⟨by omega, ?_⟩
  show FitsMembers (depth + 1) b.fields
  rw [fields, fitsMembers_append, fitsMembers_append]
  exact ⟨⟨⟨trivial, trivial, fits_ofWord32 _ _, trivial, trivial, htexts _, trivial⟩,
    fits_fieldOf? _ _ (fits_array (by omega) hpair)⟩, htexts _, trivial, trivial, trivial⟩

end Backend

namespace EndpointRecord

variable (r : EndpointRecord)

def fields : List (String × Json) :=
  [("address", .text r.address), ("backend", r.backend.toJson)] ++ fieldOf? "group" r.group .text

theorem toJson_eq : r.toJson = .object r.fields := rfl

theorem printed_toJson : r.toJson.printed = r.toJson := by
  simp only [toJson_eq, fields, printed_object, List.map_append, map_fieldOf?, List.map_cons,
    List.map_nil, Backend.printed_toJson]
  rfl

theorem record?_fields :
    record? .isClosed ["address", "backend", "group"] (.object r.fields) = some ⟨r.fields⟩ := by
  refine record?_of_sublist .isClosed (by decide) ?_
  simp only [fields, List.map_append]
  exact (List.Sublist.refl ["address", "backend"]).append (names_fieldOf? ..)

theorem ofJson?_toJson : ofJson? r.toJson = some r := by
  have haddress : Record.required ⟨r.fields⟩ "address" text? = some r.address := rfl
  have hbackend : Record.required ⟨r.fields⟩ "backend" Backend.ofJson? = some r.backend :=
    (required_of_lookup _ rfl).trans r.backend.ofJson?_toJson
  have hgroup : r.fields.lookup "group" = r.group.map .text := by
    unfold fields
    cases r.group <;> rfl
  rw [toJson_eq, ofJson?, record?_fields, Option.bind_eq_bind, Option.bind_some, haddress, hbackend,
    optional_of_map hgroup fun _ => rfl]
  rfl

theorem fits_toJson : r.toJson.Fits 1 := by
  refine ⟨by decide, ?_⟩
  show FitsMembers 2 r.fields
  rw [fields, fitsMembers_append]
  exact ⟨⟨trivial, r.backend.fits_toJson (by decide), trivial⟩,
    fits_fieldOf? _ _ fun _ => trivial⟩

end EndpointRecord

namespace Directory

variable (d : Directory)

theorem printed_toJson : d.toJson.printed = d.toJson := by
  unfold toJson
  rw [printed_ofKeyMap]
  simp only [EndpointRecord.printed_toJson]

theorem ofJson?_toJson : ofJson? d.toJson = some d := by
  rw [ofJson?, toJson, keyed?_ofKeyMap EndpointRecord.ofJson?_toJson]
  rfl

theorem fits_toJson : d.toJson.Fits 0 :=
  fits_ofKeyMap (by decide) EndpointRecord.fits_toJson d.records

end Directory

end QuantumRelay
