import Abacus.Proofs.Api.Bodies
import Abacus.Proofs.Api.Calls
import Abacus.Proofs.Run.Isolation

/-!
# Requests and answers

Whatever the limiter decides, however the body of a request comes and whatever verdict comes with it, the request is
answered once and counted once. It reaches the interpreter if it is answered with success, and any other request gets an
error with the code of its status. Of a body that breaks off no length is known; it is refused as one that is too long.
-/

namespace Abacus

namespace Api

/-- The word that goes with a status of rejection. -/
def codeWord (status : Nat) : Text :=
  if status = 429 then "RATE_LIMITED" else if status = 404 then "NOT_FOUND" else "VALIDATION_ERROR"

end Api

/-! ## One request -/

/-- The status of the answer to a request: the first objection decides, of the limiter, to the size, of the verdict, or
to the members of the body. Of a body that breaks off nothing is known but that it does. -/
def Arrival.status (maxBodySize : Int) (a : Arrival) : Nat :=
  if a.wait.isSome then 429
  else
    match a.request.body with
    | .broken => 413
    | .whole sent =>
      if maxBodySize < sent.length then 413
      else
        match a.verdict sent with
        | .methodNotAllowed => 405
        | .noEndpoint => 404
        | .invalid _ _ => 400
        | .valid operation =>
          match Api.Operation.ofName? operation with
          | some o => if (Api.decode o sent).isOk then 200 else 400
          | none => 404

/-- The operation that a request is valid for, and the call that is read off its body. -/
structure Arrival.Calls (a : Arrival) (sent operation : Text) (o : Api.Operation) (call : Api.Call) : Prop where
  whole : a.request.body = .whole sent
  verdict : a.verdict sent = .valid operation
  known : Api.Operation.ofName? operation = some o
  decoded : Api.decode o sent = .ok call

namespace Server

/-- What a request is answered, and what is done for it, where a run is made by the interpreter `i`. -/
structure Answered (maxBodySize : Int) (i : Interpreter) (a : Arrival) (d : Served) (response : Http.Response)
    (body : Json) : Prop where
  responded : d.responses = [response]
  counted : ∃ route, d.metrics = [.httpRequests response.status route]
  status : response.status = a.status maxBodySize
  read : Json.read response.body = .ok body
  called : response.status = 200 → ∃ sent operation o call, a.Calls sent operation o call ∧ d.calls = [call]
  rejected : response.status ≠ 200 → d.calls = [] ∧ ∃ error, body.get? "error" = some (.object error) ∧
    (Json.object error).get? "code" = some (.string (Api.codeWord response.status))
  ran : response.status = 200 → ∀ sent, a.request.body = .whole sent → a.verdict sent = .valid "run" →
    ∃ req, d.calls = [.run req] ∧ Api.Tells (i.execute a.request.interrupted a.runId req).1.result body

/-- A request leaves the settings as they are, and what it counted is counted. -/
structure Keeps (s : Server) (d : Served) : Prop where
  maxBodySize : d.server.maxBodySize = s.maxBodySize
  limit : d.server.interpreter.limit = s.interpreter.limit
  counted : d.server.counted = s.counted ++ d.metrics

end Server

end Abacus
