import Evok.Api.Handlers

/-!
# JSON-RPC

`rpc_handler.py`: the methods callable by JSON-RPC, those allowed with the token for reading, and
`create_response`, which the handler of JSON-RPC awaits for each request of a body.

## Main definitions

* `RpcMethod`: `RPC_METHODS`, with their parameters.
* `rpcReadMethods`: `RPC_READ_METHODS`.
* `bindParams`: `inspect.signature(method).bind`.
* `Backend.call`: the methods.
* `Backend.createResponse`: `create_response`.
-/

namespace Evok

namespace Api

open Changes (Params)

/-- `RPC_METHODS`. -/
inductive RpcMethod
  | inputGet
  | inputGetValue
  | inputSet
  | relayGet
  | relaySet
  | relaySetForTime
  | outputGet
  | outputSet
  | outputSetForTime
  | aiGet
  | aoSetValue
  | aoSet
  | owbusGet
  | owbusSet
  | owbusScan
  | owbusList
  | sensorSet
  | sensorGet
  | sensorGetValue
  deriving DecidableEq

namespace RpcMethod

/-- All methods, with their names. -/
def names : List (String × RpcMethod) :=
  [("input_get", inputGet), ("input_get_value", inputGetValue), ("input_set", inputSet),
    ("relay_get", relayGet), ("relay_set", relaySet), ("relay_set_for_time", relaySetForTime),
    ("output_get", outputGet), ("output_set", outputSet),
    ("output_set_for_time", outputSetForTime), ("ai_get", aiGet), ("ao_set_value", aoSetValue),
    ("ao_set", aoSet), ("owbus_get", owbusGet), ("owbus_set", owbusSet),
    ("owbus_scan", owbusScan), ("owbus_list", owbusList), ("sensor_set", sensorSet),
    ("sensor_get", sensorGet), ("sensor_get_value", sensorGetValue)]

/-- The parameters of the signature, and whether they are required. -/
def params : RpcMethod → List (String × Bool)
  | inputSet => [("circuit", true), ("debounce", true)]
  | relaySet | outputSet | aoSetValue => [("circuit", true), ("value", true)]
  | relaySetForTime => [("circuit", true), ("value", true), ("pulse_duration", true)]
  | outputSetForTime =>
    [("circuit", true), ("value", true), ("pulse_duration", false), ("timeout", false)]
  | aoSet => [("circuit", true), ("value", true), ("mode", true)]
  | owbusSet => [("circuit", true), ("scan_interval", true)]
  | sensorSet => [("circuit", true), ("interval", true)]
  | inputGet | inputGetValue | relayGet | outputGet | aiGet | owbusGet | owbusScan | owbusList
  | sensorGet | sensorGetValue => [("circuit", true)]

end RpcMethod

/-- `RPC_READ_METHODS`. -/
def rpcReadMethods : List String :=
  ["input_get", "input_get_value", "relay_get", "output_get", "ai_get", "owbus_get", "owbus_list",
    "sensor_get", "sensor_get_value"]

/-- The params of a request. -/
inductive RpcParams
  | positional (args : List Json)
  | named (fields : List (String × Json))
  | other

structure RpcRequest where
  method : String
  params : RpcParams := .positional []

inductive RpcError
  | methodNotFound (message : String)
  | invalidParams (message : String)
  | readOnlyAccess (message : String)
  | unitUnavailable (message : String)
  | sequenceRunning (message : String)
  | internal

/-- `inspect.signature(method).bind(*args, **kwargs)`, or the message of `TypeError`. -/
def bindParams (params : List (String × Bool)) :
    RpcParams → Except String (List (String × Json))
  | .positional args =>
    if params.length < args.length then .error "too many positional arguments"
    else
      match (params.drop args.length).find? (·.2) with
      | some missing => .error s!"missing a required argument: '{missing.1}'"
      | none => .ok ((params.map (·.1)).zip args)
  | .named fields =>
    match params.find? fun param => param.2 && (Json.field fields param.1).isNone with
    | some missing => .error s!"missing a required argument: '{missing.1}'"
    | none =>
      match fields.find? fun field => field.1 ∉ params.map (·.1) with
      | some unknown => .error s!"got an unexpected keyword argument '{unknown.1}'"
      | none => .ok fields
  | .other => .error "Params must be an array or an object"

namespace Backend

variable {σ ι υ S E : Type} (api : Backend σ ι υ S E)

/-- `to_bool`. -/
def toBool : Json → Except E Bool
  | .null => .ok false
  | .bool b => .ok b
  | .num value => .ok (value ≠ 0)
  | .nonFinite _ => .ok true
  | .arr items => .ok !items.isEmpty
  | .obj fields => .ok !fields.isEmpty
  | .str s =>
    let text := String.ofList (lower (strip s.toList))
    if text ∈ ["true", "yes", "on", "1"] then .ok true
    else if text ∈ ["false", "no", "off", "0", ""] then .ok false
    else .error (api.valueError s!"Invalid boolean value '{s}'")

/-- `Devices.by_name(devtype, circuit)`; without a circuit it is the list of all devices. -/
def named (devtype : String) (circuit : Json) : Coroutine σ (Action ι) E (Option ι) :=
  .ask fun w =>
    match circuit with
    | .null => ((Changes.byType (api.registry w) devtype).mapError api.aliasError).map fun _ => none
    | _ =>
      (((api.registry w).byName api.dev devtype (api.strOf circuit)).mapError api.aliasError).map some

/-- The use of what `by_name` returned as a device. -/
def use (device : Option ι) : Except E ι :=
  device.elim (.error (api.attributeError "'dict_values' object has no attribute")) .ok

/-- `value[key]`. -/
def item (key : String) : Json → Except E Json
  | .obj fields => (Json.field fields key).elim (.error (api.typeError key)) .ok
  | _ => .error (api.typeError key)

/-- `get()[key]` of a device. -/
def getItem (device : ι) (key : String) (w : σ) : Except E Json := do
  api.item key (← api.get device w)

/-- The params of one value. -/
def param (name : String) (value : Json) : Params Json :=
  api.params [(name, value)]

section

variable [DecidableEq ι] [DecidableEq υ]

/-- `relay_set` and `output_set`: the value as a bit. -/
def setBit (devtype : String) (circuit value : Json) : Coroutine σ (Action ι) E Json := do
  let device ← api.named devtype circuit
  let bit ← .ofExcept (api.toBool value)
  let value := Json.num (if bit then 1 else 0)
  let device ← .ofExcept (api.use device)
  let _ ← api.setDevice device (api.param "value" value)
  return value

/-- `start_pulse`. -/
def startPulse (device : Option ι) (value duration : Json) : Coroutine σ (Action ι) E Json := do
  let (kw, pulse) ← .ofExcept (api.pulseParams device value duration)
  let device ← .ofExcept (api.use device)
  let state ← api.setDevice device kw (some pulse)
  return .ofDict state

/-- `ao_set_value`. -/
def aoSetValue (circuit value : Json) : Coroutine σ (Action ι) E Json := do
  let ao ← api.named "ao" circuit
  let ao ← .ofExcept (api.use ao)
  let (written, result) ← api.change (api.unit ao) true true [ao] do
    .begins (.setValue ao value)
    match ← (api.settingValue ao value).attempt with
    | .error e => return (none, .error e)
    | .ok value => return (some value, .ok ())
  .ofExcept result
  match written with
  | some (some value) => return value
  | _ => throw (api.typeError "list index out of range")

/-- `set()` of the driver of a bus, then its state. -/
def owbusSet (circuit : Json) (kw : List (String × Json)) : Coroutine σ (Action ι) E Json := do
  let ow ← api.named "owbus" circuit
  let ow ← .ofExcept (api.use ow)
  .begins (.busSet ow kw)
  api.busSetting ow kw
  .get fun w => .ofDict (api.full ow w)

/-- A method which reads: the device and a value of it. -/
def reads (devtype : String) (circuit : Json) (value : ι → σ → Except E Json) :
    Coroutine σ (Action ι) E Json := do
  let device ← api.named devtype circuit
  let device ← .ofExcept (api.use device)
  .ask (value device)

/-- The methods with their bound arguments, a missing one has the default `None`. -/
def call (method : RpcMethod) (args : List (String × Json)) : Coroutine σ (Action ι) E Json :=
  let arg := fun name => (Json.field args name).getD .null
  let circuit := arg "circuit"
  match method with
  | .inputGet => api.reads "di" circuit fun inp w => do
    return .arr [← api.getItem inp "value" w, ← api.getItem inp "debounce" w]
  | .inputGetValue => api.reads "di" circuit fun inp w => api.getItem inp "value" w
  | .inputSet => do
    let inp ← api.named "di" circuit
    let inp ← .ofExcept (api.use inp)
    return .ofDict (← api.setDevice inp (api.param "debounce" (arg "debounce")))
  | .relayGet => api.reads "ro" circuit fun relay w => api.getItem relay "value" w
  | .relaySet => api.setBit "ro" circuit (arg "value")
  | .relaySetForTime => do
    let relay ← api.named "ro" circuit
    api.startPulse relay (arg "value") (arg "pulse_duration")
  | .outputGet => api.reads "do" circuit fun relay w => do
    let pending := api.sequenceName relay w = some "pulse"
    return .arr [← api.getItem relay "value" w, .bool pending]
  | .outputSet => api.setBit "do" circuit (arg "value")
  | .outputSetForTime => do
    match arg "pulse_duration", arg "timeout" with
    | .null, .null => throw (api.valueError
        "Exactly one of pulse_duration and its deprecated alias timeout is required")
    | .null, timeout =>
      let relay ← api.named "do" circuit
      api.startPulse relay (arg "value") timeout
    | duration, .null =>
      let relay ← api.named "do" circuit
      api.startPulse relay (arg "value") duration
    | _, _ => throw (api.valueError
        "Exactly one of pulse_duration and its deprecated alias timeout is required")
  | .aiGet => api.reads "ai" circuit api.get
  | .aoSetValue => api.aoSetValue circuit (arg "value")
  | .aoSet => do
    let ao ← api.named "ao" circuit
    let ao ← .ofExcept (api.use ao)
    return .ofDict
      (← api.setDevice ao (api.params [("value", arg "value"), ("mode", arg "mode")]))
  | .owbusGet => api.reads "owbus" circuit api.scanInterval
  | .owbusSet => api.owbusSet circuit [("scan_interval", arg "scan_interval")]
  | .owbusScan => api.owbusSet circuit [("do_scan", .bool true)]
  | .owbusList => api.reads "owbus" circuit api.listSensors
  | .sensorSet => do
    let sens ← api.named "sensor" circuit
    let sens ← .ofExcept (api.use sens)
    let kw := api.param "interval" (arg "interval")
    .begins (.set sens kw)
    api.setting sens kw
    .get fun w => .ofDict (api.full sens w)
  | .sensorGet => api.reads "sensor" circuit api.get
  | .sensorGetValue => api.reads "sensor" circuit api.getValue

/-- The error of RPC for an error of a method. -/
def rpcError (e : E) : RpcError :=
  let message := (api.errorText e).2
  match api.clientError e with
  | some 404 | some 400 => .invalidParams message
  | some 503 => .unitUnavailable message
  | some 409 => .sequenceRunning message
  | _ => .internal

/-- `create_response`. -/
def createResponse (access : Access) (request : RpcRequest) :
    Coroutine σ (Action ι) E (Except RpcError Json) :=
  match RpcMethod.names.lookup request.method with
  | none => return .error (.methodNotFound s!"Method '{request.method}' not found!")
  | some method =>
    if access ≠ .write ∧ request.method ∉ rpcReadMethods then
      return .error (.readOnlyAccess "The token allows only reading")
    else
      match bindParams method.params request.params with
      | .error message => return .error (.invalidParams message)
      | .ok args => do
        let result ← (api.call method args).attempt
        return result.mapError api.rpcError

/-- The responses to the requests of a body, one after another. -/
def createResponses (access : Access) :
    List RpcRequest → Coroutine σ (Action ι) E (List (Except RpcError Json))
  | [] => pure []
  | request :: requests => do
    let response ← api.createResponse access request
    let responses ← createResponses access requests
    return response :: responses

end

end Backend

end Api

end Evok
