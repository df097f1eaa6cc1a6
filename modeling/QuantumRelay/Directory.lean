import QuantumRelay.Job.Error
import QuantumRelay.Json.Printer
import QuantumRelay.Json.Reader

/-!
# Endpoints and directories

An `Endpoint` is a unit that messages can be sent to. A `Directory` lists endpoints by id, with
their addresses and backends; it is kept in the order of the ids.
-/

namespace QuantumRelay

structure EndpointRecord where
  address : String
  backend : Backend
  /-- The label of the group that the endpoint belongs to. -/
  group : Option String := none
deriving DecidableEq, Repr

namespace EndpointRecord

def toJson (r : EndpointRecord) : Json :=
  .object <|
    [("address", .text r.address), ("backend", r.backend.toJson)] ++
    Json.fieldOf? "group" r.group .text

/-- A row read from a document; no field but its own may be there. -/
def ofJson? (j : Json) : Option EndpointRecord := do
  let r ← j.record? .isClosed ["address", "backend", "group"]
  some { address := ← r.required "address" Json.text?
         backend := ← r.required "backend" Backend.ofJson?
         group := ← r.optional "group" none (Json.nullable? Json.text?) }

end EndpointRecord

structure Endpoint where
  id : String
  address : String
  backend : Backend
  group : Option String := none
  /-- Where the network delivers what is sent here. -/
  socket : Nat
deriving DecidableEq, Repr, Inhabited

structure Directory where
  records : KeyMap EndpointRecord := .empty

namespace Directory

def insert (d : Directory) (id : String) (r : EndpointRecord) : Directory :=
  ⟨d.records.insert id r⟩

def get (d : Directory) (id : String) : Except JobError EndpointRecord :=
  match d.records.find? id with
  | some r => .ok r
  | none => .error (.unknownEndpoint id)

def toList (d : Directory) : List (String × EndpointRecord) := d.records.entries

/-- The rows of a group in the order of their ids. -/
def inGroup (d : Directory) (group : String) : List (String × EndpointRecord) :=
  d.toList.filter (·.2.group == some group)

/-- The endpoints of rows, each with the socket of its place. -/
def endpoints (rows : List (String × EndpointRecord)) : List Endpoint :=
  rows.zipIdx.map fun ((id, r), socket) =>
    { id, address := r.address, backend := r.backend, group := r.group, socket }

def toJson (d : Directory) : Json := .ofKeyMap EndpointRecord.toJson d.records

def ofJson? (j : Json) : Option Directory := (j.keyed? EndpointRecord.ofJson?).map (⟨·⟩)

def read (text : String) : Except JobError Directory :=
  match (Json.read? text).bind ofJson? with
  | some d => .ok d
  | none => .error (.configuration .notDirectory)

end Directory

end QuantumRelay
