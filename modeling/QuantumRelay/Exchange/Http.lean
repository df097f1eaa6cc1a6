import QuantumRelay.Exchange.Network
import QuantumRelay.Json.Printer
import QuantumRelay.Json.Reader

/-!
# Exchanges over HTTP

A message goes to a remote unit as a `POST` request with a JSON body, to one of two routes below the
address of the unit. `Http.delivery` says what the reply makes of the exchange: a successful reply
carries the answer, any other breaks the exchange.
-/

namespace QuantumRelay.Http

structure Request where
  url : String
  contentType : String := "application/json"
  body : String

structure Reply where
  status : Nat
  body : String

/-- An address without the slashes at its end. -/
def baseOf (address : String) : String :=
  String.ofList (address.toList.reverse.dropWhile (· = '/')).reverse

def route : Message → String
  | .run _ => "/run"
  | .update _ => "/parameters"

def request (base : String) (m : Message) : Request :=
  { url := base ++ route m, body := m.toJson.compact }

/-- What a reply from a unit makes of an exchange. -/
def delivery (base : String) (r : Reply) : Delivery :=
  if 200 ≤ r.status && r.status < 300 then
    match (Json.read? r.body).filter Json.readable with
    | some j => .answer j.lastWins
    | none => .broken base ""
  else if r.status = 404 then .broken base s!"no such route on endpoint: {r.body}"
  else .broken base s!"HTTP {r.status}: {r.body}"

/-- Remote units that no connection can be made to. -/
structure Unreachable where
  endpoints : List Endpoint

instance : Network Unreachable where
  send w socket _ := (socket, w)
  receive w ticket :=
    let address := (w.endpoints[ticket]?.map (·.address)).getD ""
    (.broken (baseOf address) "no connection", w)

end QuantumRelay.Http
