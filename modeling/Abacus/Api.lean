import Abacus.Address
import Abacus.Bucket.Registry
import Abacus.Health
import Abacus.Http
import Abacus.Json.Reader

/-!
# The HTTP interface

Scripts can be run and tokenized over HTTP. Each client has a bucket of requests; a request that is let in is checked
in a fixed order, and only one that passes all checks reaches the interpreter. What the limiter and the check against
the description of the interface say of a request comes with it when it is handled.
-/

namespace Abacus

namespace Api

/-- What a request can ask of the interpreter. -/
inductive Operation where
  | tokenize
  | run
deriving DecidableEq, Repr

namespace Operation

def name : Operation → Text
  | .tokenize => "tokenize"
  | .run => "run"

def path (o : Operation) : Text := ("/api/" : Text) ++ o.name

def required : Operation → Text
  | .tokenize => "source"
  | .run => "script"

/-- The members that a request may have, each with a greatest length. -/
def members : Operation → List (Text × Option Nat)
  | .tokenize => [("source", none)]
  | .run => [("script", none), ("source", some 256)]

def all : List Operation := [.tokenize, .run]

def ofName? (name : Text) : Option Operation := all.find? (·.name == name)

end Operation

/-- What the check of a request against the description of the interface comes to; operations go by their names. -/
inductive Verdict where
  | methodNotAllowed
  | noEndpoint
  | invalid (operation reason : Text)
  | valid (operation : Text)
deriving DecidableEq, Repr

/-- Why a request did not reach the interpreter. -/
inductive Rejection where
  | rateLimited (retryAfter : Nat)
  | tooLarge (limit : Int)
  | methodNotAllowed
  | noEndpoint
  | invalid (operation reason : Text)
  | malformed (o : Operation) (reason : Text)
deriving DecidableEq, Repr

namespace Rejection

def status : Rejection → Nat
  | .rateLimited _ => 429
  | .tooLarge _ => 413
  | .methodNotAllowed => 405
  | .noEndpoint => 404
  | .invalid _ _ | .malformed _ _ => 400

def code : Rejection → Code
  | .rateLimited _ => .rateLimited
  | .noEndpoint => .notFound
  | _ => .validation

def route : Rejection → Text
  | .rateLimited _ => "rate_limited"
  | .invalid operation _ => operation
  | .malformed o _ => o.name
  | _ => "api"

def message : Rejection → Text
  | .rateLimited _ => "too many requests"
  | .tooLarge limit => ("request body exceeds " : Text) ++ Text.ofInt limit ++ (" bytes" : Text)
  | .methodNotAllowed => "method not allowed"
  | .noEndpoint => "no such endpoint"
  | .invalid _ reason => ("invalid request: " : Text) ++ (Text.cutAt 10 reason).1
  | .malformed _ reason => ("malformed JSON: " : Text) ++ (Text.cutAt 10 reason).1

end Rejection

/-! ## The description of the interface -/

/-- The operation that a request is for. A final slash does not matter where the method fits. -/
def operationOf (method path : Text) : Except Verdict Operation :=
  let stripped := (path.reverse.dropWhile (· == 47)).reverse
  if method = ("POST" : Text) then
    match Operation.all.find? (·.path == stripped) with
    | some o => .ok o
    | none => .error .noEndpoint
  else if Operation.all.any (·.path == path) then .error .methodNotAllowed
  else .error .noEndpoint

def isJsonType (contentType : Text) : Bool := (Text.cutAt 59 contentType).1 = ("application/json" : Text)

/-- Why a value does not fit a member that holds text. -/
def textFault? (most : Option Nat) : Json → Option Text
  | .string t =>
    match most with
    | some n => if n < t.runeCount then some (("maximum string length is " : Text) ++ Text.ofNat n) else none
    | none => none
  | .null => some "Value is not nullable"
  | .number l =>
    match Numeral.float l with
    | .error .outOfRange =>
      some (("strconv.ParseFloat: parsing " : Text) ++ l.quoted ++ (": value out of range" : Text))
    | _ => some "value must be a string"
  | _ => some "value must be a string"

def atMember (name reason : Text) : Text :=
  ("Error at \"/" : Text) ++ name ++ ("\": " : Text) ++ reason

/-- Why a body does not fit its schema. Members are looked at in order of their names, and then what is missing. -/
def schemaFault? (o : Operation) (body : Json) : Option Text :=
  match body with
  | .object ms =>
    let names := Text.sort (ms.map Prod.fst).eraseDups
    let fault? (name : Text) : Option Text :=
      match o.members.lookup name with
      | none => some (("property " : Text) ++ name.quoted ++ (" is unsupported" : Text))
      | some most => (textFault? most ((body.get? name).getD .null)).map (atMember name)
    match names.findSome? fault? with
    | some e => some e
    | none =>
      if names.contains o.required then none
      else some (atMember o.required (("property " : Text) ++ o.required.quoted ++ (" is missing" : Text)))
  | .null => some "Value is not nullable"
  | .number l =>
    match Numeral.float l with
    | .error .outOfRange =>
      some (("strconv.ParseFloat: parsing " : Text) ++ l.quoted ++ (": value out of range" : Text))
    | _ => some "value must be an object"
  | _ => some "value must be an object"

/-- What is wrong with the body of a request for an operation. Behind its first value the body is not looked at. -/
def bodyFault? (o : Operation) (r : Http.Request) (body : Text) : Option Text :=
  let contentType := r.header "Content-Type"
  if body.isEmpty then some "value is required but missing"
  else if !isJsonType contentType then
    some (("header Content-Type has unexpected value " : Text) ++ contentType.quoted)
  else
    match Json.first body with
    | .error e => some (("failed to decode request body: " : Text) ++ e.message)
    | .ok (v, _) => (schemaFault? o v).map (("doesn't match schema: " : Text) ++ ·)

/-- The verdict on a request whose body has been read. -/
def verdictOn (r : Http.Request) (body : Text) : Verdict :=
  match operationOf r.method (Http.decodePercent (Http.splitTarget r.target).1) with
  | .error v => v
  | .ok o =>
    match bodyFault? o r body with
    | some e => .invalid o.name (("request body has an error: " : Text) ++ e)
    | none => .valid o.name

/-! ## Calls -/

/-- What a request asks of the interpreter, with its texts. -/
inductive Call where
  | tokenize (source : Text)
  | run (req : Interpreter.Request)

/-- Where a run comes from that does not say so. -/
def defaultSource : Text := "api"

/-- The members of that name, which may be written in any case. -/
def membersNamed (ms : List (Text × Json)) (name : Text) : List Json :=
  (ms.filter (fun m => m.1.caseFold == name)).map Prod.snd

/-- The text under a name: the last one, or empty where there is none. -/
def textOf (ms : List (Text × Json)) (name : Text) : Text :=
  let texts := (membersNamed ms name).filterMap fun
    | .string t => some t
    | _ => none
  texts.getLast?.getD []

/-- A member that is used must be a text, or null, which counts as left out. -/
def memberFault? (o : Operation) (ms : List (Text × Json)) : Option Text :=
  ms.findSome? fun (k, v) =>
    if o.members.any (fun m => m.1 == k.caseFold) then
      match v with
      | .string _ | .null => none
      | v => some (("json: cannot unmarshal " : Text) ++ v.kind ++ (" into a text" : Text))
    else none

/-- The members of a body; null has none. -/
def membersOf (o : Operation) (body : Text) : Except Text (List (Text × Json)) :=
  match Json.read body with
  | .error e => .error e.message
  | .ok .null => .ok []
  | .ok (.object ms) =>
    match memberFault? o ms with
    | some e => .error e
    | none => .ok ms
  | .ok v => .error (("json: cannot unmarshal " : Text) ++ v.kind ++ (" into members" : Text))

def decode (o : Operation) (body : Text) : Except Rejection Call :=
  match o, membersOf o body with
  | o, .error e => .error (.malformed o e)
  | .tokenize, .ok ms => .ok (.tokenize (textOf ms "source"))
  | .run, .ok ms =>
    let source := textOf ms "source"
    .ok (.run ⟨if source.isEmpty then defaultSource else source, textOf ms "script"⟩)

/-- Reads the body of a request that was let in, and goes by the verdict. A body that cannot be read is refused as too
long, for whatever reason it cannot. -/
def callOf (maxBodySize : Int) (verdict : Text → Verdict) (body : Http.Body) : Except Rejection Call :=
  match body.read? maxBodySize with
  | none => .error (.tooLarge maxBodySize)
  | some body =>
    match verdict body with
    | .methodNotAllowed => .error .methodNotAllowed
    | .noEndpoint => .error .noEndpoint
    | .invalid operation reason => .error (.invalid operation reason)
    | .valid operation =>
      match Operation.ofName? operation with
      | some o => decode o body
      | none => .error .noEndpoint

/-! ## Answers -/

def text (t : Text) : Json := .string t

def record (ms : List (String × Json)) : Json := .object (ms.map fun (k, v) => ((k : Text), v))

/-- A member that is only there with a value. -/
def whenSome {α : Type} (name : String) (f : α → Json) (a : Option α) : List (String × Json) :=
  (a.map fun a => (name, f a)).toList

/-- A number other than zero, which is left out. -/
def detail? (f : Fault) (key : Text) : Option Int :=
  match f.context.find? key with
  | some (.int n) => if n = 0 then none else some n
  | _ => none

def faultJson (p : Problem) : Json :=
  let f := p.firstFault?
  record ([("code", text p.code.name)] ++
    whenSome "kind" text (if p.family = .none then none else some p.family.name) ++
    [("message", text p.userMessage)] ++
    whenSome "statement" Json.ofInt (f.bind (detail? · Fault.statementKey)) ++
    whenSome "line" Json.ofInt (f.bind (detail? · Fault.lineKey)))

/-- A number as the variable table shows it, and in quotes what JSON has no number for. -/
def numberJson (x : Float) : Json := if Binary.isFinite x then .number (showValue x) else text (showValue x)

def resultJson (r : Result) : Json :=
  let entry (n : Text) : Json :=
    record [("name", text n), ("value", numberJson ((r.bindings.get? n).getD 0))]
  record ([("run_id", text r.runId), ("ok", .bool r.problem.isNone), ("variables", .array (r.names.map entry)),
    ("statements", .ofNat r.outcomes.length)] ++ whenSome "error" faultJson r.problem)

def tokensJson (ts : List Token) : Json :=
  let token (t : Token) : Json := record [("kind", text t.kind.name), ("text", text t.text), ("line", .ofInt t.line)]
  record [("tokens", .array (ts.map token)), ("unknown", .ofNat (ts.filter (·.kind == .unknown)).length)]

def rejectionJson (requestId : Text) (e : Rejection) : Json :=
  record (whenSome "request_id" text (if requestId.isEmpty then none else some requestId) ++
    [("error", record [("code", text e.code.name), ("message", text e.message)])])

def healthJson (h : Health) (now : Instant) : Json :=
  record [("status", text h.status), ("version", text version), ("timestamp", text (Instant.brief now)),
    ("components", .object (h.components.map fun (k, v) => (k, text v)))]

end Api

/-! ## The server -/

/-- What the server reports on when it is asked for its health. -/
structure HealthSource where
  engine : Bool
  store : Option Store

structure Server where
  interpreter : Interpreter
  clients : Registry
  maxBodySize : Int
  health : Option HealthSource
  metricsPage : Bool
  /-- All that was counted so far. -/
  counted : List Metric

/-- What is done for a request. -/
inductive Deed where
  | call (c : Api.Call)
  | count (m : Metric)
  | respond (response : Http.Response)

/-- What serving one request leads to: all that is done, in order. -/
structure Served where
  deeds : List Deed
  server : Server

namespace Served

def calls (d : Served) : List Api.Call :=
  d.deeds.filterMap fun
    | .call c => some c
    | _ => none

def metrics (d : Served) : List Metric :=
  d.deeds.filterMap fun
    | .count m => some m
    | _ => none

def responses (d : Served) : List Http.Response :=
  d.deeds.filterMap fun
    | .respond r => some r
    | _ => none

end Served

/-- A request for the interface with the ids it goes by, and with what is said of it: how the limiter leaves the
clients, how long this one is to wait if it is refused, and the verdict of the description once its body is read. -/
structure Arrival where
  request : Http.Request
  requestId : Text
  runId : Text
  clients : Registry
  wait : Option Rat
  verdict : Text → Api.Verdict

namespace Server

def defaultMaxBody : Int := 65536

def new (interpreter : Interpreter) (rate : Rat) (burst : Int) (ttl : Rat) (maxBodySize : Int)
    (health : Option HealthSource) (metricsPage : Bool) : Server :=
  ⟨interpreter, .new rate burst ttl, if maxBodySize ≤ 0 then defaultMaxBody else maxBodySize, health, metricsPage, []⟩

def clientOf (r : Http.Request) : Text :=
  match splitAddress r.remote with
  | .ok (host, _) => host
  | .error _ => r.remote

/-- An answer in JSON, counted under its route. -/
def answer (s : Server) (requestId route : Text) (status : Nat) (retryAfter : Option Nat) (body : Json) : Served :=
  let m := Metric.httpRequests status route
  ⟨[.count m, .respond ⟨status, "application/json", retryAfter, requestId, body.render ++ [10]⟩],
    { s with counted := s.counted ++ [m] }⟩

def reject (s : Server) (requestId : Text) (e : Api.Rejection) : Served :=
  let retryAfter :=
    match e with
    | .rateLimited n => some n
    | _ => none
  s.answer requestId e.route e.status retryAfter (Api.rejectionJson requestId e)

def perform (s : Server) (r : Http.Request) (requestId runId : Text) (call : Api.Call) : Served :=
  let served :=
    match call with
    | .tokenize source => s.answer requestId "tokenize" 200 none (Api.tokensJson (s.interpreter.tokens source))
    | .run req =>
      let (report, interpreter) := s.interpreter.execute r.interrupted runId req
      { s with interpreter }.answer requestId "run" 200 none (Api.resultJson report.result)
  { served with deeds := .call call :: served.deeds }

/-- Handles a request for the interface: one that its client may not make yet is refused, the others are checked. -/
def handle (s : Server) (a : Arrival) : Served :=
  let s := { s with clients := a.clients }
  match a.wait with
  | some delay => s.reject a.requestId (.rateLimited (max 1 (Bucket.wholeSeconds delay)))
  | none =>
    match Api.callOf s.maxBodySize a.verdict a.request.body with
    | .error e => s.reject a.requestId e
    | .ok call => s.perform a.request a.requestId a.runId call

/-- A request as it arrives: its client has a token left, or learns when it will. -/
def arrival (s : Server) (r : Http.Request) (requestId runId : Text) (clock : Rat) : Arrival :=
  let client := clientOf r
  let (admitted, clients) := s.clients.allow client 1 clock
  let (wait, clients) :=
    if admitted then (none, clients)
    else
      let (delay, clients) := clients.retryAfter client clock
      (some delay, clients)
  ⟨r, requestId, runId, clients, wait, Api.verdictOn r⟩

def serveApi (s : Server) (r : Http.Request) (requestId runId : Text) (clock : Rat) : Served :=
  s.handle (s.arrival r requestId runId clock)

def serveHealth (s : Server) (r : Http.Request) (requestId : Text) (now : Instant) : Served :=
  match s.health with
  | none => s.answer requestId "health" 200 none (Api.record [("status", Api.text "up")])
  | some h =>
    let report := Health.check (if h.engine then some s.interpreter else none) h.store (r.interrupted 0)
    s.answer requestId "health" (if report.status = ("up" : Text) then 200 else 503) none (Api.healthJson report now)

def metricsText (s : Server) : Text :=
  let line : Metric × Nat → Text := fun (m, n) => ("calcscript_" : Text) ++ m.name ++ (32 :: Text.ofNat n)
  Text.unlines ("# TYPE calcscript_http_requests_total counter" :: (Metric.tally s.counted).map line)

/-- An answer that is not counted. -/
def plainly (s : Server) (response : Http.Response) : Served := ⟨[.respond response], s⟩

/-- Serves one request. A request that brings no id gets `fresh`; a run gets `runId`. -/
def serve (s : Server) (r : Http.Request) (fresh runId : Text) (clock : Rat) (now : Instant) : Served :=
  let given := r.header "X-Request-ID"
  let requestId := if given.isEmpty then fresh else given
  let (path, _) := Http.splitTarget r.target
  let clean := if r.method = ("CONNECT" : Text) then path else Http.cleanPath path
  match Http.segments clean with
  | [single] =>
    if single = ("api" : Text) then s.plainly (Http.redirect r requestId (clean ++ [47]))
    else if clean != path then s.plainly (Http.redirect r requestId clean)
    else if single = ("health" : Text) then s.serveHealth r requestId now
    else if single = ("metrics" : Text) && s.metricsPage then
      s.plainly ⟨200, "text/plain; version=0.0.4; charset=utf-8; escaping=underscores", none, requestId, s.metricsText⟩
    else s.plainly (Http.notFound requestId)
  | first :: _ =>
    if clean != path then s.plainly (Http.redirect r requestId clean)
    else if first = ("api" : Text) then s.serveApi r requestId runId clock
    else s.plainly (Http.notFound requestId)
  | [] => s.plainly (Http.notFound requestId)

end Server

end Abacus
