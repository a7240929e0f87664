import Evok.Api.Rpc

/-!
# The service of the API

`ws_handler.py` and what Tornado does with the requests: it calls `prepare()`, then the method of
the handler, and `on_message()` for the messages of the opened connections. The requests and the
messages run as tasks which interleave at their awaits, with each other and with the rest of the
process.

## Main definitions

* `Connection`: a connection of a WebSocket, with the access of its request.
* `Service.onMessage`: `WsHandler.on_message`.
* `Request.reached`, `Service.handle`: the method reached by a request, and its task.
* `Service.Step`: a request, a message, a segment of a task or another step of the process.
-/

namespace Evok

namespace Api

open Changes (Params)
open Devices (numToDevtypeName devtypeAltnames)

/-- A connection with its filter of the events. -/
structure Connection where
  access : Access
  filter : List String := ["default"]

/-- The API with its configuration and the handler of `tornado_jsonrpc2`: the requests which it
passes to `create_response`, and its response. -/
structure Service (σ ι υ S E : Type) extends Backend σ ι υ S E where
  allFiltered : Bool := false
  rpcRequests : Request → List RpcRequest
  rpcResponse : Request → List (Except RpcError Json) → Response

namespace Service

variable {σ ι υ S E : Type} (svc : Service σ ι υ S E)

/-! ## WebSocket -/

/-- `_set_filter`. -/
def setFilter (names : Option Json) : Except E (List String) :=
  match names with
  | some (.arr names) =>
    match names with
    | .str "default" :: _ => .ok ["default"]
    | _ =>
      let devtypes := names.map fun name =>
        (devtypeAltnames.lookup (svc.strOf name)).getD (svc.strOf name)
      let devtypes := devtypes.filter fun devtype => devtype ∈ numToDevtypeName.map (·.2)
      if !names.isEmpty && devtypes.isEmpty then
        .error (svc.valueError s!"Invalid 'devices' argument: {svc.strOf (.arr names)}")
      else .ok devtypes
  | _ => .error (svc.valueError "Command 'filter' requires a list in 'devices'")

/-- The types of `_all`. -/
def allTypes (filter : List String) : List String :=
  if svc.allFiltered && filter = ["default"] then ["di", "ro", "ai", "ao", "sensor"]
  else if svc.allFiltered then (numToDevtypeName.map (·.2)).filter (· ∈ filter)
  else numToDevtypeName.map (·.2)

/-- `Devices.by_name` of values of a message. -/
def byName (dev circuit : Json) : Coroutine σ (Action ι) E (Option ι) :=
  match dev with
  | .str dev => svc.named dev circuit
  | .arr _ | .obj _ => throw (svc.typeError "unhashable type")
  | _ => throw (svc.notFound s!"Invalid device type '{svc.strOf dev}'")

/-- `_set_params` before the check of the params. -/
def setParams (fields : List (String × Json)) : List (String × Json) :=
  let kw := fields.filter fun field => field.1 ∉ ["circuit", "value", "cmd", "dev"]
  match Json.field fields "value" with
  | some (.obj values) => kw ++ values
  | none | some .null => kw
  | some value => kw ++ [("value", value)]

/-- The error sent to the client. -/
def messageError (e : E) : Json :=
  if (svc.clientError e).isSome then Backend.failure (svc.errorText e)
  else Backend.failure ("Server error", "internal")

/-- `dev` and `circuit` of a message. -/
def target (cmd : String) (fields : List (String × Json)) : Except E (Json × Json) :=
  match Json.field fields "dev", Json.field fields "circuit" with
  | some dev, some circuit => .ok (dev, circuit)
  | _, _ => .error (svc.valueError s!"Command '{cmd}' requires 'dev' and 'circuit'")

variable [DecidableEq ι] [DecidableEq υ]

/-- The commands other than `filter`, with the reply. -/
def onCommand (connection : Connection) (fields : List (String × Json)) :
    Coroutine σ (Action ι) E (Option Json) :=
  match Json.field fields "cmd" with
  | some (.str "all") => do
    let states ← .ask (svc.fullOf (svc.allTypes connection.filter))
    .pause
    return some states
  | some (.str "full") => do
    let (dev, circuit) ← .ofExcept (svc.target "full" fields)
    let device ← svc.byName dev circuit
    let device ← .ofExcept (svc.use device)
    let state ← .get (svc.full device)
    .pause
    return some (.ofDict state)
  | some (.str "set") => do
    .ofExcept (svc.requireWrite connection.access)
    let (dev, circuit) ← .ofExcept (svc.target "set" fields)
    let device ← svc.byName dev circuit
    let kw := svc.params (setParams fields)
    .ofExcept (svc.checkParams (svc.strOf dev) kw)
    let device ← .ofExcept (svc.use device)
    let _ ← svc.setDevice device kw
    return none
  | cmd => throw (svc.valueError s!"Unknown command '{svc.strOf (cmd.getD .null)}'")

/-- The coroutine with its error as the reply. -/
def replying (command : Coroutine σ (Action ι) E (Option Json)) :
    Coroutine σ (Action ι) E (Option Json) := do
  match ← command.attempt with
  | .ok reply => return reply
  | .error e =>
    .pause
    return some (svc.messageError e)

/-- `on_message`: the connection after the message, whose filter is set at once, and the task of
the message. -/
def onMessage (connection : Connection) (message : Except String Json) :
    Connection × Coroutine σ (Action ι) E (Option Json) :=
  match message with
  | .error text => (connection, svc.replying (throw (svc.valueError text)))
  | .ok (.obj fields) =>
    match Json.field fields "cmd" with
    | some (.str "filter") =>
      match svc.setFilter (Json.field fields "devices") with
      | .ok filter => ({ connection with filter := filter }, return none)
      | .error e => (connection, svc.replying (throw e))
    | _ => (connection, svc.replying (svc.onCommand connection fields))
  | .ok _ => (connection, svc.replying (throw (svc.valueError "The message must be an object")))

/-! ## Requests -/

omit [DecidableEq ι] [DecidableEq υ] in
/-- The response of Tornado to a method which a handler does not have. -/
def notAllowed : Coroutine σ (Action ι) E Response :=
  return { status := 405, body := .null }

/-- The methods of the handlers, after `prepare()` with the access. -/
def method (access : Access) (req : Request) : Coroutine σ (Action ι) E Response :=
  match req.handler, req.method with
  | .loadAll, .get => svc.getAll
  | .rest path, .get | .json path, .get => svc.getDevice path
  | .rest path, .post => svc.postDevice access path (svc.restParams req)
  | .json path, .post => svc.postDevice access path (svc.jsonParams req.body.json)
  | .bulk, .post => svc.postBulk access req.body.json
  | .version, .get => return { body := .str svc.version }
  | .log, .get => svc.getLog req.lines
  | .rpc, .post => do
    let responses ← svc.createResponses access (svc.rpcRequests req)
    .pause
    return svc.rpcResponse req responses
  | .ws, .get => return { status := if req.allowedOrigin then 101 else 403, body := .null }
  | .loadAll, .options | .rest _, .options | .json _, .options | .bulk, .options =>
    return { status := 204, body := .null }
  | _, _ => notAllowed

end Service

/-- The access with which the method of the handler is called, `none` if it is not called. -/
def Request.reached (tokens : Tokens) (req : Request) : Option Access :=
  if req.handler.supports req.method then
    match req.prepare tokens with
    | .proceed access => some access
    | _ => none
  else none

namespace Service

variable {σ ι υ S E : Type} (svc : Service σ ι υ S E)

/-- The connection which a request opens. -/
def connect (tokens : Tokens) (req : Request) : Option Connection :=
  match req.handler, req.method with
  | .ws, .get => if req.allowedOrigin then (req.reached tokens).map ({ access := · }) else none
  | _, _ => none

/-- The response to a request whose method is not called. -/
def refused (tokens : Tokens) (req : Request) : Response :=
  if req.handler.supports req.method then
    match req.prepare tokens with
    | .unauthorized =>
      { status := 401, body := Backend.failure ("Unauthorized", "Missing or invalid token") }
    | _ => { status := 500, body := .null }
  else { status := 405, body := .null }

variable [DecidableEq ι] [DecidableEq υ]

/-- The task of a request. -/
def handle (tokens : Tokens) (req : Request) : Coroutine σ (Action ι) E Response :=
  match req.reached tokens with
  | some access => svc.method access req
  | none => return refused tokens req

/-! ## The process -/

/-- The state of the process: `tasks` are the requests and the messages, with their responses or
replies, `executed` is what they executed. -/
structure State (σ ι E : Type) where
  world : σ
  executed : List (Action ι) := []
  connections : ℕ → Option Connection := fun _ => none
  tasks : ℕ → Option (Coroutine σ (Action ι) E (Response ⊕ Option Json)) := fun _ => none

/-- What happens: a request or a message as a new task, a segment of a task, a step of the rest of
the process, e.g. of a scan or of a sequence. -/
inductive Event (σ : Type)
  | request (id : ℕ) (req : Request)
  | message (id connection : ℕ) (message : Except String Json)
  | resume (id : ℕ)
  | other (change : σ → σ)

inductive Step (tokens : Tokens) : State σ ι E → Event σ → State σ ι E → Prop
  | request {s : State σ ι E} {id : ℕ} {req : Request} (new : s.tasks id = none)
      (unopened : s.connections id = none) :
      Step tokens s (.request id req)
        { s with
          connections := Function.update s.connections id (connect tokens req)
          tasks := Function.update s.tasks id (some (.inl <$> svc.handle tokens req)) }
  | message {s : State σ ι E} {id c : ℕ} {connection : Connection} {message : Except String Json}
      (new : s.tasks id = none) (unopened : s.connections id = none)
      (opened : s.connections c = some connection) :
      Step tokens s (.message id c message)
        { s with
          connections := Function.update s.connections c (some (svc.onMessage connection message).1)
          tasks := Function.update s.tasks id
            (some (.inr <$> (svc.onMessage connection message).2)) }
  | resume {s : State σ ι E} {id : ℕ} {task : Coroutine σ (Action ι) E (Response ⊕ Option Json)}
      (running : s.tasks id = some task) :
      Step tokens s (.resume id)
        { s with
          world := (task.segment s.world).world
          executed := s.executed ++ (task.segment s.world).actions
          tasks := Function.update s.tasks id (some (task.segment s.world).rest) }
  | other {s : State σ ι E} {change : σ → σ} :
      Step tokens s (.other change) { s with world := change s.world }

end Service

end Api

end Evok
