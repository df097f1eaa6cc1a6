import Mathlib
import QuantumRelay.Exchange.Message
import QuantumRelay.Proofs.KeyMap

/-!
# Responses as documents

A response is read back from the document that it is sent as (`ofJson?_toJson`): counts keep their keys
and numbers, and what is not there stays missing.
-/

namespace QuantumRelay

namespace Json

variable {α β : Type}

theorem mapM_map_eq_some {l : List α} {f : α → β} {g : β → Option α} (h : ∀ x, g (f x) = some x) :
    (l.map f).mapM g = some l := by
  induction l with
  | nil => rfl
  | cons x rest ih =>
    rw [List.map_cons, List.mapM_cons, h, ih]
    rfl

theorem word64?_ofWord64 (n : UInt64) : word64? (ofWord64 n) = some n := by
  have hlt : (n.toNat : Int) < 18446744073709551616 := Int.ofNat_lt.2 n.toNat_lt
  simp [word64?, ofWord64, hlt]

theorem keyed?_ofKeyMap {value? : Json → Option α} {toJson : α → Json}
    (h : ∀ v, value? (toJson v) = some v) (m : KeyMap α) :
    keyed? value? (ofKeyMap toJson m) = some m := by
  have hentries : (m.entries.map fun e => (e.1, toJson e.2)).mapM
      (fun e => (value? e.2).map fun v => (e.1, v)) = some m.entries :=
    mapM_map_eq_some fun e => by rw [h]; rfl
  unfold ofKeyMap keyed?
  simp only [hentries, Option.bind_eq_bind, Option.bind_some, KeyMap.ofList_entries]

end Json

namespace Response

theorem ofJson?_toJson (r : Response) : ofJson? r.toJson = some r := by
  have herror (message : String) :
      Json.nullable? Json.text? (.text message) = some (some message) := rfl
  have hcounts (m : KeyMap UInt64) : Json.nullable? (Json.keyed? Json.word64?)
      (Json.ofKeyMap Json.ofWord64 m) = some (some m) := by
    show (Json.keyed? Json.word64? (Json.ofKeyMap Json.ofWord64 m)).map some = _
    rw [Json.keyed?_ofKeyMap Json.word64?_ofWord64]
    rfl
  have htime (x : Float) : Json.nullable? Json.float? (.float x) = some (some x) := rfl
  -- each field is there or not
  obtain ⟨error, counts, timeTaken⟩ := r
  cases error <;> cases counts <;> cases timeTaken <;>
    simp [ofJson?, toJson, Json.record?, Json.fieldOf?, Json.Record.optional, List.lookup, herror,
      hcounts, htime]

end Response

end QuantumRelay
