import Evok.Api.Auth
import Evok.Library.Coroutine

/-!
# The handlers of the HTTP requests

The handlers of `handlers_base.py`, `bulk_handler.py` and `evok.py` as coroutines over the state of
the process: others run at their awaits. `set_devices` executes the changes of the devices, each
one is recorded when it begins.

## Main definitions

* `Action`: what changes a device, its alias, a sequence or a bus.
* `Backend`: a server with its calls that wait.
* `Backend.setDevices`: `set_devices` with its awaits.
* `Backend.getDevice`, `Backend.postDevice`: the methods of `/rest` and `/json`.
* `Backend.postBulk`, `Backend.getAll`, `Backend.getLog`: the methods of the other handlers.
-/

namespace Evok

namespace Api

open Changes (Params Item Server byType)

/-- What the API executes: `device.set()`, which also sets an alias or cancels a sequence,
`set_value()`, the start of a sequence and `set()` of a 1-Wire bus, with what these do. -/
inductive Action (ι : Type)
  | set (device : ι) (kw : Params Json)
  | setValue (device : ι) (value : Json)
  | start (device : ι)
  | busSet (device : ι) (kw : List (String × Json))
  | step

/-- The JSON of a response with its status. -/
structure Response where
  status : ℕ := 200
  body : Json

/-- A server with its calls that wait as coroutines. -/
structure Backend (σ ι υ S E : Type) extends Server σ ι υ Json S E (Dict String Json) where
  /-- `device.set(**kw)` from its call to its return. -/
  setting : ι → Params Json → Coroutine σ (Action ι) E Unit
  /-- `ao.set_value(value)`. -/
  settingValue : ι → Json → Coroutine σ (Action ι) E Json
  /-- `set()` of the driver of a 1-Wire bus. -/
  busSetting : ι → List (String × Json) → Coroutine σ (Action ι) E Unit
  /-- The wait for the lock of a unit and for the session on its bus, and their end. -/
  locking : υ → Coroutine σ (Action ι) E Unit
  unlocking : υ → Coroutine σ (Action ι) E Unit
  /-- `do_scan(all_groups=True)`. -/
  scanning : υ → Coroutine σ (Action ι) E Bool
  /-- The read after the writes with the check of the devices. -/
  rereading : υ → List ι → Coroutine σ (Action ι) E Unit
  checking : υ → Coroutine σ (Action ι) E Unit
  /-- `pulse_params`: the params of `set()` and the sequence of the pulse. -/
  pulseParams : Option ι → Json → Json → Except E (Params Json × S)
  /-- `get()` and `get_value()` of a device. -/
  get : ι → σ → Except E Json
  getValue : ι → σ → Except E Json
  /-- The name of the running sequence. -/
  sequenceName : ι → σ → Option String
  /-- `scan_interval` and `list()` of the driver of a bus. -/
  scanInterval : ι → σ → Except E Json
  listSensors : ι → σ → Except E Json
  /-- `str()`. -/
  strOf : Json → String
  /-- The request of bulk after its schema. -/
  bulkRequest : Json → Except E (Changes.BulkRequest Json)
  /-- The version and the last lines of the log file, `none` without one. -/
  version : String
  logFile : Bool
  readLogTail : ℕ → σ → String
  intOf : String → Option ℤ
  valueError : String → E
  typeError : String → E
  attributeError : String → E
  /-- The name and the message of an error of `CLIENT_ERRORS`. -/
  errorText : E → String × String

namespace Backend

/-! ## Changes -/

section

variable {σ ι υ S E : Type} (api : Backend σ ι υ S E)

/-- `operation()`: the done assignments with the result. -/
def operation (sequences : ι → Option S) :
    List (Item ι Json) → Coroutine σ (Action ι) E (List (ℕ × ι) × Except E Unit)
  | [] => pure ([], .ok ())
  | (index, device, kw) :: items => do
    let refused ← .get fun w => kw.writes && api.isRunning device w && (sequences device).isNone
    if refused then return ([], .error (api.sequenceRunning device))
    .begins (.set device kw)
    match ← (api.setting device kw).attempt with
    | .error e => return ([], .error e)
    | .ok () =>
      if let some sequence := sequences device then
        .modify (.start device) (api.start device sequence)
      let (done, result) ← operation sequences items
      return ((index, device) :: done, result)

/-- Whether the unit may be changed: a unit without a periodic scan is read first. -/
def checkAvailable (unit : υ) : Coroutine σ (Action ι) E Unit := do
  let unavailable ← .get fun w => (api.scanError unit w).isSome
  if unavailable then
    let periodic ← .get (api.periodicScan unit)
    let responds ← if periodic then pure false else api.scanning unit
    if !responds then .ask fun w => .error (api.unitUnavailable unit w)

/-- `Client.change`: the operation under the lock of the unit, then the read and the check, also
after an error. -/
def change {α : Type} (unit : υ) (available read : Bool) (devices : List ι)
    (operation : Coroutine σ (Action ι) E (α × Except E Unit)) :
    Coroutine σ (Action ι) E (Option α × Except E Unit) := do
  api.locking unit
  let checked ← (if available then api.checkAvailable unit else pure ()).attempt
  let changed ← match checked with
    | .error e => pure (none, .error e)
    | .ok () => do
      let (done, result) ← operation
      let result := result.mapError fun e => (api.communicationError unit e).getD e
      let raised ← (if read then api.rereading unit devices else api.checking unit).attempt
      pure (some done, raised.bind fun _ => result)
  api.unlocking unit
  return changed

/-- The change of a unit; a device which is not on a Modbus unit is set as its own unit. -/
def setUnit (sequences : ι → Option S) (unit : υ) (items : List (Item ι Json)) :
    Coroutine σ (Action ι) E (List (ℕ × ι) × Except E Unit) := do
  if api.isClient unit then
    let writes := items.any fun item => item.2.2.writes
    let (done, result) ←
      api.change unit writes writes (items.map (·.2.1)) (api.operation sequences items)
    return (done.getD [], result)
  else api.operation sequences items

/-- The units one after another, up to the first error. -/
def setUnits (sequences : ι → Option S) :
    List (υ × List (Item ι Json)) → Dict ℕ (Dict String Json) →
      Coroutine σ (Action ι) E (Dict ℕ (Dict String Json) × Except E Unit)
  | [], states => pure (states, .ok ())
  | (unit, items) :: units, states => do
    let (done, result) ← api.setUnit sequences unit items
    let states ← .get (api.addStates states done)
    match result with
    | .error e => return (states, .error e)
    | .ok () => setUnits sequences units states

variable [DecidableEq ι] [DecidableEq υ]

/-- `set_devices`: the states of the done assignments, with the result. -/
def setDevices (assignments : List (ι × Params Json)) (sequences : ι → Option S := fun _ => none) :
    Coroutine σ (Action ι) E
      (Dict ℕ (Dict String Json) × Except E (List (Dict String Json))) := do
  let units := api.units assignments
  let checked ← .get fun w =>
    Devices.Registry.checkAliases api.dev (api.registry w) (Changes.System.givenAliases units)
  match checked with
  | .error e => return (∅, .error (api.aliasError e))
  | .ok _ => do
    let (states, result) ← api.setUnits sequences units.items ∅
    return (states, do
      result
      (List.range assignments.length).mapM fun index =>
        (states.lookup index).elim (.error (api.keyError index)) .ok)

/-- `(state,) = await set_devices([(device, kw)])`. -/
def setDevice (device : ι) (kw : Params Json) (sequence : Option S := none) :
    Coroutine σ (Action ι) E (Dict String Json) := do
  let (_, result) ← api.setDevices [(device, kw)] fun d => if d = device then sequence else none
  match ← .ofExcept result with
  | [state] => return state
  | _ => throw (api.valueError "not enough values to unpack")

end

variable {σ ι υ S E : Type} (api : Backend σ ι υ S E)

/-! ## Requests and responses -/

/-- `DeviceNotFound`. -/
def notFound (message : String) : E :=
  api.aliasError (.notFound message)

/-- The params of `set()`. -/
def params (fields : List (String × Json)) : Params Json where
  aliasValue := match Json.field fields "alias" with
    | none => .null
    | some .null => .null
    | some (.str s) => .str s
    | some value => .other (api.strOf value)
  others := (fields.filter (·.1 ≠ "alias")).foldl (fun d field => d.set field.1 field.2) ∅

/-- `json_params`. -/
def jsonParams (body : Except String Json) : Except E (List (String × Json)) := do
  match ← body.mapError api.valueError with
  | .obj fields => return fields
  | _ => throw (api.valueError "The params must be a JSON object")

/-- `LegacyRestHandler._get_kw`. -/
def restParams (req : Request) : Except E (List (String × Json)) :=
  if req.body.isBlank then .ok []
  else if req.contentType.startsWith "application/json" || req.body.startsWithBrace then
    api.jsonParams req.body.json
  else
    (req.body.form.mapError api.valueError).map fun form =>
      form.map fun field => (field.1, .str field.2)

/-- `{"success": False, "errors": errors}` with the sections of bulk. -/
def failure (errors : String × String) (sections : List (String × Json) := []) : Json :=
  .obj ([("success", .bool false), ("errors", .obj [(errors.1, .str errors.2)])] ++ sections)

/-- The response to an error: of the client, or internal. -/
def failed (e : E) (sections : List (String × Json) := []) : Response :=
  match api.clientError e with
  | some status => { status := status, body := failure (api.errorText e) sections }
  | none => { status := 500, body := failure ("Server error", "internal") sections }

/-- `require_write`. -/
def requireWrite (access : Access) : Except E Unit :=
  if access ≠ .write then .error api.readOnlyAccess else .ok ()

/-! ## The methods -/

/-- The result of `EvokWebHandlerBase.get`. -/
def getResult (path : Path) (w : σ) : Except E Json := do
  let r := api.registry w
  if path.circuit = "all" then
    let devices ← (byType r path.dev).mapError api.aliasError
    let states := devices.map (api.full · w)
    match path.prop with
    | none => return .arr (states.map .ofDict)
    | some prop =>
      -- the devices without the property are skipped
      let result ← (states.filter fun state => (state.lookup prop).isSome).mapM fun state =>
        match state.lookup "circuit", state.lookup prop with
        | some circuit, some value => Except.ok (.obj [("circuit", circuit), (prop, value)])
        | _, _ => throw (api.typeError "circuit")
      if !states.isEmpty && result.isEmpty then
        throw (api.notFound s!"Invalid property name {prop}")
      return .arr result
  else
    let device ← (r.byName api.dev path.dev path.circuit).mapError api.aliasError
    let state := api.full device w
    match path.prop with
    | none => return .ofDict state
    | some prop =>
      match state.lookup prop with
      | none => throw (api.notFound s!"Invalid property name {prop}")
      | some value => return .obj [(prop, value)]

/-- `EvokWebHandlerBase.get`: an error other than `DeviceNotFound` is internal. -/
def getDevice (path : Path) : Coroutine σ (Action ι) E Response := do
  match ← .get (api.getResult path) with
  | .ok body => return { body := body }
  | .error e =>
    if api.clientError e = some 404 then return api.failed e
    else return { status := 500, body := failure ("Server error", "internal") }

/-- `_get_all`. -/
def allTypes : List String :=
  ["di", "ro", "do", "ai", "ao", "sensor", "led", "watchdog", "modbus_slave", "owpower", "nv_save",
    "register", "data_point", "owbus", "device_info"]

/-- The states of the devices of types. -/
def fullOf (types : List String) (w : σ) : Except E Json := do
  let devices ← types.mapM fun devtype => (byType (api.registry w) devtype).mapError api.aliasError
  return .arr (devices.flatten.map fun device => .ofDict (api.full device w))

/-- `LoadAllHandler.get`; Tornado reports an error. -/
def getAll : Coroutine σ (Action ι) E Response := do
  match ← .get (api.fullOf allTypes) with
  | .ok body =>
    .pause
    return { body := body }
  | .error _ => return { status := 500, body := .null }

/-- `LogHandler.get`; the file is read by a thread. -/
def getLog (lines : Option String) : Coroutine σ (Action ι) E Response := do
  if !api.logFile then return { status := 404, body := .str "Logging to a file is not configured" }
  match api.intOf (lines.getD "255") with
  | none => return { status := 400, body := .str "Invalid number of lines" }
  | some lines =>
    .pause
    let text ← .get (api.readLogTail (max 1 (min lines 1000)).toNat)
    return { body := .str text }

/-- The states of a section of bulk. -/
def statesJson (states : List (Dict String Json)) : Json :=
  .arr (states.map .ofDict)

/-- The devices and the values of the commands of a bulk request. -/
def findCommands (request : Changes.BulkRequest Json) (w : σ) :
    Except E (List (List ι × Params Json) × List (ι × Params Json)) := do
  let r := api.registry w
  let groups ← (request.groupAssignments.getD []).mapM (api.findGroup r)
  let individuals ← (request.individualAssignments.getD []).mapM (api.findIndividual r)
  return (groups, individuals)

section

variable [DecidableEq ι] [DecidableEq υ]

/-- `EvokWebHandlerBase.post`; `getKw` is `_get_kw` of the handler. -/
def postDevice (access : Access) (path : Path) (getKw : Except E (List (String × Json))) :
    Coroutine σ (Action ι) E Response := do
  let result ← Coroutine.attempt do
    .ofExcept (api.requireWrite access)
    let prop := path.prop.getD "alias"
    if prop ≠ "alias" then
      throw (api.notFound
        s!"Invalid URL, POST sets the params of the device in the body, not '{prop}'")
    if path.circuit = "all" then
      throw (api.notFound "POST cannot set all devices, use the bulk API")
    let device ← .ask fun w =>
      ((api.registry w).byName api.dev path.dev path.circuit).mapError api.aliasError
    let kw ← .ofExcept (getKw.map api.params)
    .ofExcept (api.checkParams path.dev kw)
    api.setDevice device kw
  .pause
  match result with
  | .ok state => return { body := .obj [("success", .bool true), ("result", .ofDict state)] }
  | .error e => return api.failed e

/-- The changes of a bulk request, with the sections of their results. -/
def bulkChanges (request : Changes.BulkRequest Json) (groups : List (List ι × Params Json))
    (individuals : List (ι × Params Json)) :
    Coroutine σ (Action ι) E (List (String × Json) × Except E Unit) := do
  let (done, result) ← api.setDevices (Changes.assignmentsOf groups individuals)
  let results := Changes.report (Changes.placesOf groups individuals) groups.length done
  let groupResults := request.groupAssignments.toList.map fun _ =>
    ("group_assignments", Json.arr (results.groups.map statesJson))
  let individualResults := request.individualAssignments.toList.map fun _ =>
    ("individual_assignments", statesJson results.individual)
  return (groupResults ++ individualResults, result.map fun _ => ())

/-- The sections of the result of a bulk request done up to its result. -/
def bulkSections (access : Access) (body : Except String Json) :
    Coroutine σ (Action ι) E (List (String × Json) × Except E Unit) := do
  match (body.mapError api.valueError).bind api.bulkRequest with
  | .error e => return ([], .error e)
  | .ok request =>
    let changes := request.groupAssignments.isSome || request.individualAssignments.isSome
    match if changes then api.requireWrite access else .ok () with
    | .error e => return ([], .error e)
    | .ok () =>
      match ← .get (api.findCommands request) with
      | .error e => return ([], .error e)
      | .ok (groups, individuals) =>
        let (queries, queried) ← .get fun w =>
          api.queries (api.registry w) w (request.groupQueries.getD [])
        let sections := request.groupQueries.toList.map fun _ =>
          ("group_queries", Json.arr (queries.map statesJson))
        match queried with
        | .error e => return (sections, .error e)
        | .ok () =>
          let (results, changed) ← api.bulkChanges request groups individuals
          return (sections ++ results, changed)

/-- `JSONBulkHandler.post`. -/
def postBulk (access : Access) (body : Except String Json) :
    Coroutine σ (Action ι) E Response := do
  let (sections, result) ← api.bulkSections access body
  .pause
  match result with
  | .ok () => return { body := .obj (("success", .bool true) :: sections) }
  | .error e => return api.failed e sections

end

end Backend

end Api

end Evok
