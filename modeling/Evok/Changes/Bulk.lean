import Evok.Changes.Partial
import Mathlib.Data.List.Sort
import Mathlib.Algebra.GroupWithZero.Nat

/-!
# The bulk requests

`JSONBulkHandler.post` of `bulk_handler.py`: the devices of all commands are found and their params
are checked before `set_devices`, the states go to the results of their commands, also after an
error.

## Main definitions

* `Server`: a system with the checks of the API.
* `BulkRequest`, `BulkResponse`: a request which passes its schema, and its response.
* `Server.post`: the handler.
* `report`: the states in the results of their commands.

## Main results

* `report_eq`: the states of each command, in the order of its devices.
* `Server.post_refused`: an unknown device, refused params or a refused alias set no device.
* `Server.bulk_partial`: the states of a change and the results of a bulk request.
-/

namespace Evok

namespace Changes

open Devices (AliasValue AliasError Registry dictOf devtypes devtypeAltnames)

/-! ## The request -/

/-- The optional group and circuits of a command. -/
structure Filter where
  group : Option String := none
  deviceCircuits : Option (List String) := none

structure GroupQuery where
  deviceTypes : List String
  filter : Filter

structure GroupCommand (V : Type) where
  deviceType : String
  filter : Filter
  assignedValues : Params V

structure Command (V : Type) where
  deviceType : String
  deviceCircuit : String
  assignedValues : Params V

structure BulkRequest (V : Type) where
  groupQueries : Option (List GroupQuery) := none
  groupAssignments : Option (List (GroupCommand V)) := none
  individualAssignments : Option (List (Command V)) := none

/-- The sections of a response, with the calls of `set()`. -/
structure BulkResponse (σ E R : Type) where
  world : σ
  status : ℕ := 200
  error : Option E := none
  groupQueries : Option (List (List R)) := none
  groupAssignments : Option (List (List R)) := none
  individualAssignments : Option (List R) := none
  calls : List (ℕ × Bool) := []

/-- A system with what the API checks. -/
structure Server (σ ι υ V S E R : Type) extends System σ ι υ V S E R where
  /-- The text of `major_group`, `None` without it. -/
  majorGroup : ι → String
  checkParams : String → Params V → Except E Unit
  readOnlyAccess : E
  /-- The status of an error of `CLIENT_ERRORS`. -/
  clientError : E → Option ℕ

/-- `Devices.by_name` without a circuit: the devices of a type. -/
def byType {ι : Type} (r : Registry ι) (devtype : String) : Except AliasError (List ι) :=
  let key := (devtypeAltnames.lookup devtype).getD devtype
  if key ∉ devtypes then .error (.notFound s!"Invalid device type '{devtype}'")
  else .ok ((r.devices.items.filter fun item => item.1.1 = key).map (·.2))

/-! ## The results -/

/-- The results of the group assignments, and of the individual ones. -/
structure Results (R : Type) where
  groups : List (List R)
  individual : List R

/-- The state of an assignment goes to its place: the result of a group command, or the list of the
individual ones. -/
def addResult {R : Type} (places : List (Option ℕ)) (states : Dict ℕ R) (results : Results R)
    (index : ℕ) : Results R :=
  match places[index]?, states.lookup index with
  | some (some command), some state =>
    { results with groups := results.groups.modify command (· ++ [state]) }
  | some none, some state => { results with individual := results.individual ++ [state] }
  | _, _ => results

/-- The results of the states, in the order of the request. -/
def report {R : Type} (places : List (Option ℕ)) (commands : ℕ) (states : Dict ℕ R) : Results R :=
  (states.keys.mergeSort (· ≤ ·)).foldl (addResult places states)
    ⟨List.replicate commands [], []⟩

/-- The assignments in the order of the request. -/
def assignmentsOf {ι V : Type} (groups : List (List ι × Params V))
    (individuals : List (ι × Params V)) : List (ι × Params V) :=
  (groups.flatMap fun group => group.1.map (·, group.2)) ++ individuals

/-- The place of each assignment, `none` is an individual one. -/
def placesOf {ι V : Type} (groups : List (List ι × Params V)) (individuals : List (ι × Params V)) :
    List (Option ℕ) :=
  (groups.zipIdx.flatMap fun group => List.replicate group.1.1.length (some group.2)) ++
    List.replicate individuals.length none

namespace Server

variable {σ ι υ V S E R : Type} (srv : Server σ ι υ V S E R)

/-- `_filter`. -/
def filter (r : Registry ι) (devices : List ι) (command : Filter) : List ι :=
  let devices := match command.group with
    | some group => devices.filter fun d => srv.majorGroup d = group
    | none => devices
  match command.deviceCircuits with
  | some circuits => devices.filter fun d =>
      (srv.dev d).circuit ∈ circuits || (r.aliasOf d ≠ "" && r.aliasOf d ∈ circuits)
  | none => devices

/-- The devices and the values of a group command. -/
def findGroup (r : Registry ι) (command : GroupCommand V) : Except E (List ι × Params V) := do
  let devices ← (byType r command.deviceType).mapError srv.aliasError
  srv.checkParams command.deviceType command.assignedValues
  return (srv.filter r devices command.filter, command.assignedValues)

/-- The device and the values of an individual command. -/
def findIndividual (r : Registry ι) (command : Command V) : Except E (ι × Params V) := do
  let device ← (r.byName srv.dev command.deviceType command.deviceCircuit).mapError srv.aliasError
  srv.checkParams command.deviceType command.assignedValues
  return (device, command.assignedValues)

/-- The states of a query, the altnames of a type return its devices once. -/
def query (r : Registry ι) (w : σ) (query : GroupQuery) : Except E (List R) := do
  let names := query.deviceTypes.map fun name => (devtypeAltnames.lookup name).getD name
  let devices ← names.eraseDups.mapM fun name => (byType r name).mapError srv.aliasError
  return (srv.filter r devices.flatten query.filter).map (srv.full · w)

/-- The queries up to the first error. -/
def queries (r : Registry ι) (w : σ) : List GroupQuery → List (List R) × Except E Unit
  | [] => ([], .ok ())
  | query :: rest =>
    match srv.query r w query with
    | .error e => ([], .error e)
    | .ok states =>
      let (done, result) := queries r w rest
      (states :: done, result)

/-- The response to an error, with the sections done before it. -/
def failed (response : BulkResponse σ E R) (e : E) : BulkResponse σ E R :=
  { response with error := some e, status := (srv.clientError e).getD 500 }

variable [DecidableEq ι] [DecidableEq υ]

/-- `post`: the request after its schema, or the error of the schema; `write` is the access of the
token. -/
def post (write : Bool) (body : Except E (BulkRequest V)) (w : σ) : BulkResponse σ E R :=
  let r := srv.registry w
  match body with
  | .error e => srv.failed { world := w } e
  | .ok request =>
    if (request.groupAssignments.isSome || request.individualAssignments.isSome) && !write then
      srv.failed { world := w } srv.readOnlyAccess
    else
      match (request.groupAssignments.getD []).mapM (srv.findGroup r) with
      | .error e => srv.failed { world := w } e
      | .ok groups =>
        match (request.individualAssignments.getD []).mapM (srv.findIndividual r) with
        | .error e => srv.failed { world := w } e
        | .ok individuals =>
          let (queries, queried) := srv.queries r w (request.groupQueries.getD [])
          let queries := request.groupQueries.map fun _ => queries
          match queried with
          | .error e => srv.failed { world := w, groupQueries := queries } e
          | .ok () =>
            let changed := srv.setDevices (fun _ => none) (assignmentsOf groups individuals) w
            let results := report (placesOf groups individuals) groups.length changed.states
            let response : BulkResponse σ E R :=
              { world := changed.world
                groupQueries := queries
                groupAssignments := request.groupAssignments.map fun _ => results.groups
                individualAssignments := request.individualAssignments.map fun _ => results.individual
                calls := changed.calls }
            match changed.result with
            | .error e => srv.failed response e
            | .ok _ => response

end Server

/-! ## The states of the commands -/

section

variable {R : Type}

/-- The state of an index if its place is `place`. -/
def stateAt (places : List (Option ℕ)) (states : Dict ℕ R) (place : Option ℕ) (index : ℕ) :
    Option R :=
  if places[index]? = some place then states.lookup index else none

theorem addResult_groups (places : List (Option ℕ)) (states : Dict ℕ R) (results : Results R)
    (index command : ℕ) : (addResult places states results index).groups[command]? =
      results.groups[command]?.map (· ++ (stateAt places states (some command) index).toList) := by
  unfold addResult stateAt
  split
  · next c state hplace hstate =>
    rw [List.getElem?_modify]
    by_cases heq : c = command
    · subst heq
      simp [hplace, hstate]
    · simp [hplace, heq]
  · next state hplace hstate => simp [hplace]
  · next hgroup hnone =>
    cases hplace : places[index]? with
    | none => simp
    | some place =>
      cases place with
      | none => simp
      | some c =>
        cases hstate : states.lookup index with
        | none => simp
        | some state => exact absurd hstate (hgroup c state hplace)

theorem addResult_individual (places : List (Option ℕ)) (states : Dict ℕ R) (results : Results R)
    (index : ℕ) : (addResult places states results index).individual =
      results.individual ++ (stateAt places states none index).toList := by
  unfold addResult stateAt
  split
  · next c state hplace hstate => simp [hplace]
  · next state hplace hstate => simp [hplace, hstate]
  · next hgroup hnone =>
    cases hplace : places[index]? with
    | none => simp
    | some place =>
      cases place with
      | some c => simp
      | none =>
        cases hstate : states.lookup index with
        | none => simp
        | some state => exact absurd hstate (hnone state hplace)

theorem foldl_addResult (places : List (Option ℕ)) (states : Dict ℕ R) (indices : List ℕ)
    (results : Results R) :
    (∀ command : ℕ, (indices.foldl (addResult places states) results).groups[command]? =
      results.groups[command]?.map (· ++ indices.filterMap (stateAt places states (some command)))) ∧
      (indices.foldl (addResult places states) results).individual =
        results.individual ++ indices.filterMap (stateAt places states none) := by
  induction indices generalizing results with
  | nil => simp
  | cons index indices ih =>
    obtain ⟨hgroups, hindividual⟩ := ih (addResult places states results index)
    rw [List.foldl_cons]
    constructor
    · intro command
      rw [hgroups, addResult_groups, Option.map_map]
      cases h : stateAt places states (some command) index <;> simp [h, Function.comp_def]
    · rw [hindividual, addResult_individual]
      cases h : stateAt places states none index <;> simp [h]

/-- The indices of the states in their order. -/
theorem mergeSort_keys {states : Dict ℕ R} {n : ℕ} (h : ∀ index ∈ states.keys, index < n) :
    states.keys.mergeSort (· ≤ ·) = (List.range n).filter (· ∈ states) := by
  have hperm : (states.keys.mergeSort (· ≤ ·)).Perm ((List.range n).filter (· ∈ states)) := by
    refine (List.mergeSort_perm _ _).trans ?_
    rw [List.perm_ext_iff_of_nodup states.keys_nodup (List.nodup_range.filter _)]
    intro index
    rw [List.mem_filter, List.mem_range, decide_eq_true_iff, AList.mem_keys]
    exact ⟨fun hmem => ⟨h index hmem, hmem⟩, fun hmem => hmem.2⟩
  exact hperm.eq_of_pairwise' (List.pairwise_mergeSort' (· ≤ ·) _)
    ((List.pairwise_lt_range.imp fun hlt => Nat.le_of_lt hlt).filter _)

theorem report_eq (places : List (Option ℕ)) (commands : ℕ) {states : Dict ℕ R}
    (h : ∀ index ∈ states.keys, index < places.length) :
    (∀ command : ℕ, command < commands → (report places commands states).groups[command]? =
      some ((List.range places.length).filterMap (stateAt places states (some command)))) ∧
      (report places commands states).groups.length = commands ∧
      (report places commands states).individual =
        (List.range places.length).filterMap (stateAt places states none) := by
  have hsame : ∀ place, ((List.range places.length).filter (· ∈ states)).filterMap
      (stateAt places states place) =
        (List.range places.length).filterMap (stateAt places states place) := by
    intro place
    rw [List.filterMap_filter]
    refine List.filterMap_congr fun index _ => ?_
    by_cases hmem : index ∈ states
    · simp [hmem]
    · simp [hmem, stateAt, AList.lookup_eq_none.mpr hmem]
  obtain ⟨hgroups, hindividual⟩ := foldl_addResult places states (states.keys.mergeSort (· ≤ ·))
    ⟨List.replicate commands [], []⟩
  rw [mergeSort_keys h] at hgroups hindividual
  have hget : ∀ command : ℕ, (report places commands states).groups[command]? =
      (List.replicate commands [])[command]?.map
        (· ++ (List.range places.length).filterMap (stateAt places states (some command))) := by
    intro command
    rw [report, mergeSort_keys h, hgroups, hsame]
  refine ⟨fun command hlt => ?_, ?_, ?_⟩
  · rw [hget]
    simp [hlt]
  · refine le_antisymm ?_ ?_
    · rw [← List.getElem?_eq_none_iff, hget]
      simp
    · by_contra hlt
      have hnone := hget (report places commands states).groups.length
      simp only [List.getElem?_eq_none (le_refl _)] at hnone
      simp only [not_le] at hlt
      simp [hlt] at hnone
  · rw [report, mergeSort_keys h, hindividual, hsame]
    rfl

end

/-! ## The places -/

section

variable {ι V R : Type}

/-- The number of assignments of the group commands before one. -/
def offset (groups : List (List ι × Params V)) (command : ℕ) : ℕ :=
  ((groups.take command).map fun group => group.1.length).sum

@[simp] theorem offset_zero (groups : List (List ι × Params V)) : offset groups 0 = 0 := rfl

@[simp] theorem offset_cons_succ (group : List ι × Params V) (groups : List (List ι × Params V))
    (command : ℕ) :
    offset (group :: groups) (command + 1) = group.1.length + offset groups command := by
  simp [offset]

theorem getElem?_placesOf_aux (groups : List (List ι × Params V)) (start i command : ℕ) :
    ((groups.zipIdx start).flatMap fun group =>
        List.replicate group.1.1.length (some group.2))[i]? = some (some command) ↔
      ∃ j group, command = start + j ∧ groups[j]? = some group ∧ offset groups j ≤ i ∧
        i < offset groups j + group.1.length := by
  induction groups generalizing start i with
  | nil => simp
  | cons group groups ih =>
    rw [List.zipIdx_cons, List.flatMap_cons]
    by_cases hlt : i < group.1.length
    · rw [List.getElem?_append_left (by simpa using hlt)]
      simp only [List.getElem?_replicate, hlt, if_true, Option.some.injEq]
      constructor
      · rintro rfl
        exact ⟨0, group, rfl, rfl, by simp, by simpa using hlt⟩
      · rintro ⟨j, group', rfl, -, hle, -⟩
        cases j with
        | zero => rfl
        | succ j =>
          rw [offset_cons_succ] at hle
          omega
    · rw [List.getElem?_append_right (by simpa using hlt), ih]
      simp only [List.length_replicate]
      constructor
      · rintro ⟨j, group', rfl, hget, hle, hlt'⟩
        exact ⟨j + 1, group', by omega, hget, by rw [offset_cons_succ]; omega,
          by rw [offset_cons_succ]; omega⟩
      · rintro ⟨j, group', rfl, hget, hle, hlt'⟩
        cases j with
        | zero =>
          obtain rfl := Option.some.inj hget
          exact absurd (by simpa using hlt') hlt
        | succ j =>
          rw [offset_cons_succ] at hle hlt'
          exact ⟨j, group', by omega, hget, by omega, by omega⟩

theorem length_groups (groups : List (List ι × Params V)) (start : ℕ) :
    ((groups.zipIdx start).flatMap fun group =>
        List.replicate group.1.1.length (some group.2)).length = offset groups groups.length := by
  induction groups generalizing start with
  | nil => rfl
  | cons group groups ih =>
    rw [List.zipIdx_cons, List.flatMap_cons, List.length_append, ih, List.length_cons,
      offset_cons_succ]
    simp

theorem offset_add_le {groups : List (List ι × Params V)} {j : ℕ} {group : List ι × Params V}
    (h : groups[j]? = some group) :
    offset groups j + group.1.length ≤ offset groups groups.length := by
  induction groups generalizing j with
  | nil => simp at h
  | cons first groups ih =>
    rw [List.length_cons, offset_cons_succ]
    cases j with
    | zero =>
      obtain rfl := Option.some.inj h
      simp
    | succ j =>
      have := ih (j := j) (by simpa using h)
      rw [offset_cons_succ]
      omega

theorem length_placesOf (groups : List (List ι × Params V)) (individuals : List (ι × Params V)) :
    (placesOf groups individuals).length =
      offset groups groups.length + individuals.length := by
  simp only [placesOf, List.length_append, length_groups, List.length_replicate]

theorem length_assignmentsOf (groups : List (List ι × Params V))
    (individuals : List (ι × Params V)) :
    (assignmentsOf groups individuals).length =
      offset groups groups.length + individuals.length := by
  rw [assignmentsOf, List.length_append, List.length_flatMap, offset, List.take_length]
  simp

/-- Values in a part of a range. -/
theorem filterMap_range (f : ℕ → Option R) (first length : ℕ) {n : ℕ} (hle : first + length ≤ n)
    (hout : ∀ i, ¬(first ≤ i ∧ i < first + length) → f i = none) :
    (List.range n).filterMap f = (List.range length).filterMap fun k => f (first + k) := by
  obtain ⟨rest, rfl⟩ := Nat.exists_eq_add_of_le hle
  have hbefore : (List.range first).filterMap f = [] := by
    rw [List.filterMap_eq_nil_iff]
    intro i hi
    have := List.mem_range.mp hi
    exact hout i (by omega)
  have hafter : (List.range rest).filterMap (f ∘ fun k => first + length + k) = [] := by
    rw [List.filterMap_eq_nil_iff]
    intro i _
    have hi : ¬(first ≤ first + length + i ∧ first + length + i < first + length) := by omega
    exact hout _ hi
  rw [List.range_add, List.range_add, List.filterMap_append, List.filterMap_append,
    List.filterMap_map, List.filterMap_map, hbefore, hafter, List.append_nil, List.nil_append]
  rfl

/-- The states of a group command: those of its devices, in their order. -/
theorem filterMap_stateAt_group {groups : List (List ι × Params V)}
    (individuals : List (ι × Params V)) (states : Dict ℕ R) {command : ℕ}
    {group : List ι × Params V} (h : groups[command]? = some group) :
    (List.range (placesOf groups individuals).length).filterMap
        (stateAt (placesOf groups individuals) states (some command)) =
      (List.range group.1.length).filterMap fun k => states.lookup (offset groups command + k) := by
  have hle := offset_add_le h
  have hplace : ∀ i, (placesOf groups individuals)[i]? = some (some command) ↔
      offset groups command ≤ i ∧ i < offset groups command + group.1.length := by
    intro i
    rw [placesOf]
    by_cases hlt : i < offset groups groups.length
    · rw [List.getElem?_append_left (by rwa [length_groups]), getElem?_placesOf_aux]
      constructor
      · rintro ⟨j, group', rfl, hget, hrange⟩
        rw [Nat.zero_add, hget] at h
        obtain rfl := Option.some.inj h
        rwa [Nat.zero_add]
      · intro hrange
        exact ⟨command, group, by omega, h, hrange⟩
    · rw [List.getElem?_append_right (by rw [length_groups]; omega), List.getElem?_replicate]
      constructor
      · intro hsome
        split at hsome <;> simp at hsome
      · intro hrange
        omega
  rw [filterMap_range _ (offset groups command) group.1.length]
  · refine List.filterMap_congr fun k hk => ?_
    have hk := List.mem_range.mp hk
    rw [stateAt, if_pos ((hplace _).mpr ⟨by omega, by omega⟩)]
  · rw [length_placesOf]
    omega
  · intro i hi
    rw [stateAt, if_neg fun hsome => hi ((hplace i).mp hsome)]

/-- The states of the individual commands, in their order. -/
theorem filterMap_stateAt_individual (groups : List (List ι × Params V))
    (individuals : List (ι × Params V)) (states : Dict ℕ R) :
    (List.range (placesOf groups individuals).length).filterMap
        (stateAt (placesOf groups individuals) states none) =
      (List.range individuals.length).filterMap fun k =>
        states.lookup (offset groups groups.length + k) := by
  have hplace : ∀ i, (placesOf groups individuals)[i]? = some none ↔
      offset groups groups.length ≤ i ∧ i < offset groups groups.length + individuals.length := by
    intro i
    rw [placesOf]
    by_cases hlt : i < offset groups groups.length
    · rw [List.getElem?_append_left (by rwa [length_groups])]
      constructor
      · intro hnone
        have hmem := List.mem_of_getElem? hnone
        simp at hmem
      · intro hrange
        omega
    · rw [List.getElem?_append_right (by rw [length_groups]; omega), List.getElem?_replicate,
        length_groups]
      constructor
      · intro hsome
        split at hsome
        · omega
        · cases hsome
      · intro hrange
        rw [if_pos (by omega)]
  rw [filterMap_range _ (offset groups groups.length) individuals.length]
  · refine List.filterMap_congr fun k hk => ?_
    have hk := List.mem_range.mp hk
    rw [stateAt, if_pos ((hplace _).mpr ⟨by omega, by omega⟩)]
  · rw [length_placesOf]
  · intro i hi
    rw [stateAt, if_neg fun hsome => hi ((hplace i).mp hsome)]

/-- The assignments of a group command are its devices in their order. -/
theorem deviceAt_group {groups : List (List ι × Params V)} (individuals : List (ι × Params V))
    {command : ℕ} {group : List ι × Params V} (h : groups[command]? = some group) {k : ℕ}
    (hk : k < group.1.length) :
    deviceAt (assignmentsOf groups individuals) (offset groups command + k) = group.1[k]? := by
  have hget : (groups.flatMap fun group => group.1.map (·, group.2))[offset groups command + k]? =
      (group.1[k]?).map (·, group.2) := by
    induction groups generalizing command with
    | nil => simp at h
    | cons first groups ih =>
      rw [List.flatMap_cons]
      cases command with
      | zero =>
        obtain rfl := Option.some.inj h
        rw [offset_zero, Nat.zero_add, List.getElem?_append_left (by simpa using hk)]
        simp
      | succ command =>
        have hle : (first.1.map (·, first.2)).length ≤ offset (first :: groups) (command + 1) + k := by
          rw [offset_cons_succ, List.length_map]
          omega
        rw [List.getElem?_append_right hle, offset_cons_succ, List.length_map,
          Nat.add_assoc, Nat.add_sub_cancel_left]
        exact ih (by simpa using h)
  rw [deviceAt, assignmentsOf, List.getElem?_append_left, hget, Option.map_map]
  · simp [Function.comp_def]
  · by_contra hge
    rw [List.getElem?_eq_none (by omega)] at hget
    simp [List.getElem?_eq_getElem hk] at hget

theorem deviceAt_individual (groups : List (List ι × Params V)) (individuals : List (ι × Params V))
    (k : ℕ) : deviceAt (assignmentsOf groups individuals) (offset groups groups.length + k) =
      (individuals[k]?).map (·.1) := by
  have hlength : (groups.flatMap fun group => group.1.map (·, group.2)).length =
      offset groups groups.length := by
    rw [List.length_flatMap, offset, List.take_length]
    simp
  rw [deviceAt, assignmentsOf, List.getElem?_append_right (by rw [hlength]; omega), hlength]
  simp

end

namespace Server

variable {σ ι υ V S E R : Type} [DecidableEq ι] [DecidableEq υ] {srv : Server σ ι υ V S E R}

/-- What refuses a request: in any command an unknown device, params refused by the schema or an
alias refused by the check of the aliases. -/
def Refused (srv : Server σ ι υ V S E R) (request : BulkRequest V) (w : σ) : Prop :=
  (∃ command ∈ request.groupAssignments.getD [],
    (∃ e, byType (srv.registry w) command.deviceType = .error e) ∨
      ∃ e, srv.checkParams command.deviceType command.assignedValues = .error e) ∨
  (∃ command ∈ request.individualAssignments.getD [],
    (∃ e, (srv.registry w).byName srv.dev command.deviceType command.deviceCircuit = .error e) ∨
      ∃ e, srv.checkParams command.deviceType command.assignedValues = .error e) ∨
  ∃ groups individuals e,
    (request.groupAssignments.getD []).mapM (srv.findGroup (srv.registry w)) = .ok groups ∧
    (request.individualAssignments.getD []).mapM (srv.findIndividual (srv.registry w)) =
      .ok individuals ∧
    Registry.checkAliases srv.dev (srv.registry w)
      (System.givenAliases (srv.units (assignmentsOf groups individuals))) = .error e

omit [DecidableEq ι] [DecidableEq υ] in
theorem findGroup_ok {r : Registry ι} {command : GroupCommand V} {found : List ι × Params V}
    (h : srv.findGroup r command = .ok found) :
    (∃ devices, byType r command.deviceType = .ok devices) ∧
      srv.checkParams command.deviceType command.assignedValues = .ok () := by
  unfold findGroup at h
  cases hfound : byType r command.deviceType with
  | error e =>
    rw [hfound] at h
    cases h
  | ok devices =>
    rw [hfound] at h
    cases hcheck : srv.checkParams command.deviceType command.assignedValues with
    | error e =>
      rw [hcheck] at h
      cases h
    | ok u => exact ⟨⟨devices, rfl⟩, rfl⟩

omit [DecidableEq ι] [DecidableEq υ] in
theorem findIndividual_ok {r : Registry ι} {command : Command V} {found : ι × Params V}
    (h : srv.findIndividual r command = .ok found) :
    (∃ device, r.byName srv.dev command.deviceType command.deviceCircuit = .ok device) ∧
      srv.checkParams command.deviceType command.assignedValues = .ok () := by
  unfold findIndividual at h
  cases hfound : r.byName srv.dev command.deviceType command.deviceCircuit with
  | error e =>
    rw [hfound] at h
    cases h
  | ok device =>
    rw [hfound] at h
    cases hcheck : srv.checkParams command.deviceType command.assignedValues with
    | error e =>
      rw [hcheck] at h
      cases h
    | ok u => exact ⟨⟨device, rfl⟩, rfl⟩

/-- A refused request sets no device. -/
theorem post_refused {request : BulkRequest V} {w : σ} (h : srv.Refused request w) (write : Bool) :
    (srv.post write (.ok request) w).calls = [] := by
  unfold post
  dsimp only
  split
  · rfl
  · split
    · rfl
    · next groups hgroups =>
      split
      · rfl
      · next individuals hindividuals =>
        split
        · rfl
        · rcases h with ⟨command, hmem, hbad⟩ | ⟨command, hmem, hbad⟩ |
            ⟨groups', individuals', e, hgroups', hindividuals', halias⟩
          · obtain ⟨found, hfound⟩ := Fold.of_mapM_ok hgroups hmem
            obtain ⟨⟨devices, hdevices⟩, hcheck⟩ := findGroup_ok hfound
            simp [hdevices, hcheck] at hbad
          · obtain ⟨found, hfound⟩ := Fold.of_mapM_ok hindividuals hmem
            obtain ⟨⟨device, hdevice⟩, hcheck⟩ := findIndividual_ok hfound
            simp [hdevice, hcheck] at hbad
          · obtain rfl := Except.ok.inj (hgroups.symm.trans hgroups')
            obtain rfl := Except.ok.inj (hindividuals.symm.trans hindividuals')
            simp only [System.setDevices, halias]
            rfl

/-- A request whose devices are found and whose queries are answered: the change of its
assignments, the states of each command in its result. -/
theorem post_found {request : BulkRequest V} {w : σ} {groups : List (List ι × Params V)}
    {individuals : List (ι × Params V)} {write : Bool}
    (hwrite : (request.groupAssignments.isSome || request.individualAssignments.isSome) = true →
      write = true)
    (hgroups : (request.groupAssignments.getD []).mapM (srv.findGroup (srv.registry w)) = .ok groups)
    (hindividuals : (request.individualAssignments.getD []).mapM
      (srv.findIndividual (srv.registry w)) = .ok individuals)
    (hqueries : (srv.queries (srv.registry w) w (request.groupQueries.getD [])).2 = .ok ()) :
    let changed := srv.setDevices (fun _ => none) (assignmentsOf groups individuals) w
    let response := srv.post write (.ok request) w
    response.calls = changed.calls ∧
      (∀ e, response.error = some e ↔ changed.result = .error e) ∧
      response.groupAssignments = (request.groupAssignments.map fun _ =>
        groups.mapIdx fun command group => (List.range group.1.length).filterMap fun k =>
          changed.states.lookup (offset groups command + k)) ∧
      response.individualAssignments = (request.individualAssignments.map fun _ =>
        (List.range individuals.length).filterMap fun k =>
          changed.states.lookup (offset groups groups.length + k)) := by
  intro changed response
  have hparts : changed.Partial srv.toSystem (assignmentsOf groups individuals) :=
    System.setDevices_isPartial w
  have hkeys : ∀ index ∈ changed.states.keys, index < (placesOf groups individuals).length := by
    intro index hmem
    obtain ⟨state, hstate⟩ := Option.isSome_iff_exists.mp (AList.lookup_isSome.mpr hmem)
    obtain ⟨-, device, w', result, hdevice, -⟩ := (hparts.states index state).mp hstate
    obtain ⟨item, hitem, -⟩ := Option.map_eq_some_iff.mp hdevice
    rw [length_placesOf, ← length_assignmentsOf]
    exact (List.getElem?_eq_some_iff.mp hitem).1
  obtain ⟨hreport, hlength, hindividual⟩ :=
    report_eq (placesOf groups individuals) groups.length hkeys
  have hresults : (report (placesOf groups individuals) groups.length changed.states).groups =
      groups.mapIdx fun command group => (List.range group.1.length).filterMap fun k =>
        changed.states.lookup (offset groups command + k) := by
    refine List.ext_getElem? fun command => ?_
    rw [List.getElem?_mapIdx]
    cases hgroup : groups[command]? with
    | none =>
      rw [List.getElem?_eq_none_iff] at hgroup
      rw [Option.map_none, List.getElem?_eq_none_iff, hlength]
      exact hgroup
    | some group =>
      rw [hreport command (List.getElem?_eq_some_iff.mp hgroup).1,
        filterMap_stateAt_group individuals changed.states hgroup]
      rfl
  rw [filterMap_stateAt_individual] at hindividual
  have hallowed : ((request.groupAssignments.isSome || request.individualAssignments.isSome) &&
      !write) = false := by
    cases write with
    | true => simp
    | false =>
      rw [Bool.not_false, Bool.and_true, Bool.eq_false_iff]
      intro hsome
      cases hwrite hsome
  let results := report (placesOf groups individuals) groups.length changed.states
  let done : BulkResponse σ E R :=
    { world := changed.world
      groupQueries := request.groupQueries.map fun _ =>
        (srv.queries (srv.registry w) w (request.groupQueries.getD [])).1
      groupAssignments := request.groupAssignments.map fun _ => results.groups
      individualAssignments := request.individualAssignments.map fun _ => results.individual
      calls := changed.calls }
  have hresponse : response = match changed.result with
      | .error e => srv.failed done e
      | .ok _ => done := by
    simp only [response, post, hallowed, hgroups, hindividuals, hqueries]
    rfl
  rw [hresponse, ← hresults, ← hindividual]
  cases hresult : changed.result with
  | error e => simp [failed, done, results]
  | ok states => simp [done, results]

/-- The results of the commands: the states of their assignments, in the order of the devices. -/
def OwnResults (srv : Server σ ι υ V S E R) (request : BulkRequest V)
    (groups : List (List ι × Params V)) (individuals : List (ι × Params V)) (w : σ)
    (response : BulkResponse σ E R) : Prop :=
  let assignments := assignmentsOf groups individuals
  let changed := srv.setDevices (fun _ => none) assignments w
  response.calls = changed.calls ∧
    (∀ e, response.error = some e ↔ changed.result = .error e) ∧
    response.groupAssignments = (request.groupAssignments.map fun _ =>
      groups.mapIdx fun command group => (List.range group.1.length).filterMap fun k =>
        changed.states.lookup (offset groups command + k)) ∧
    (∀ command group k, groups[command]? = some group → k < group.1.length →
      deviceAt assignments (offset groups command + k) = group.1[k]?) ∧
    response.individualAssignments = (request.individualAssignments.map fun _ =>
      (List.range individuals.length).filterMap fun k =>
        changed.states.lookup (offset groups groups.length + k)) ∧
    ∀ k, deviceAt assignments (offset groups groups.length + k) = (individuals[k]?).map (·.1)

/-- The states of a change are those of the assignments whose `set()` returned, at the end of the
changes of their units, also when a unit raises and the later ones are not changed. A refused bulk
request sets no device, the states of another one are in the results of their commands. -/
theorem partial_results (srv : Server σ ι υ V S E R) :
    (∀ (sequences : ι → Option S) (assignments : List (ι × Params V)) (w : σ),
      let r := srv.setDevices sequences assignments w
      r.Partial srv.toSystem assignments ∧
        ((∃ e, r.result = .error e ∧ ((r.calls = [] ∧ r.ended = []) ∨
          ∃ before unit w', r.ended = before ++ [(unit, w', .error e)] ∧
            ∀ x ∈ before, x.2.2 = .ok ())) ∨
        ∃ states, r.result = .ok states ∧ states.length = assignments.length ∧
          (∀ x ∈ r.ended, x.2.2 = .ok ()) ∧
          ∀ index device, deviceAt assignments index = some device →
            ∃ state, states[index]? = some state ∧ r.Has srv.toSystem assignments index state)) ∧
    ∀ (write : Bool) (request : BulkRequest V) (w : σ),
      (srv.Refused request w → (srv.post write (.ok request) w).calls = []) ∧
      ∀ groups individuals,
        ((request.groupAssignments.isSome || request.individualAssignments.isSome) = true →
          write = true) →
        (request.groupAssignments.getD []).mapM (srv.findGroup (srv.registry w)) = .ok groups →
        (request.individualAssignments.getD []).mapM (srv.findIndividual (srv.registry w)) =
          .ok individuals →
        (srv.queries (srv.registry w) w (request.groupQueries.getD [])).2 = .ok () →
        srv.OwnResults request groups individuals w (srv.post write (.ok request) w) := by
  constructor
  · intro sequences assignments w r
    exact ⟨System.setDevices_isPartial w, System.setDevices_result w⟩
  · intro write request w
    refine ⟨fun hrefused => post_refused hrefused write, ?_⟩
    intro groups individuals hwrite hgroups hindividuals hqueries
    obtain ⟨hcalls, herror, hgroup, hindividual⟩ :=
      post_found hwrite hgroups hindividuals hqueries
    exact ⟨hcalls, herror, hgroup, fun _ _ _ hget hk => deviceAt_group individuals hget hk,
      hindividual, deviceAt_individual groups individuals⟩

/-- Two relays of one unit with their values. -/
def relaysServer : Server (Registry (Fin 3) × (Fin 3 → ℕ)) (Fin 3) ℕ ℕ Unit String ℕ where
  dev := Registry.relays
  registry := Prod.fst
  unit d := if d = Registry.relaysBus then 2 else 0
  isClient unit := unit = 0
  set d kw w :=
    match kw.others.lookup "value" with
    | some value =>
      if value ≤ 1 then ((w.1, Function.update w.2 d value), .ok ())
      else (w, .error "ValueError")
    | none => (w, .ok ())
  full d w := w.2 d
  isRunning _ _ := false
  start _ _ w := w
  lock _ w := w
  scanError _ _ := none
  periodicScan _ _ := true
  doScan _ w := (w, true)
  readChanged _ _ w := (w, none)
  checkDevices _ w := (w, none)
  aliasError _ := "ValueError"
  keyError _ := "KeyError"
  sequenceRunning _ := "SequenceRunning"
  unitUnavailable _ _ := "UnitUnavailable"
  communicationError _ _ := none
  majorGroup _ := "1"
  checkParams _ _ := .ok ()
  readOnlyAccess := "ReadOnlyAccess"
  clientError _ := some 400

/-- The first relay is set, the second one refuses its value. -/
def relaysRequest : BulkRequest ℕ where
  individualAssignments := some
    [⟨"ro", "1_01", { others := Dict.set ∅ "value" 1 }⟩,
      ⟨"ro", "1_02", { others := Dict.set ∅ "value" 7 }⟩]

def relaysWorld : Registry (Fin 3) × (Fin 3 → ℕ) :=
  ((Registry.exec Registry.relays
    (Registry.exec Registry.relays {} (.register Registry.firstRelay)).1
    (.register Registry.secondRelay)).1, fun _ => 0)

theorem partial_results_relays :
    (relaysServer.post true (.ok relaysRequest) relaysWorld).individualAssignments = some [1] ∧
      (relaysServer.post true (.ok { relaysRequest with
        groupAssignments := some [⟨"relays", {}, {}⟩] }) relaysWorld).calls = [] := by
  obtain ⟨-, hpost⟩ := partial_results relaysServer
  constructor
  · obtain ⟨-, hown⟩ := hpost true relaysRequest relaysWorld
    obtain ⟨-, -, -, -, hindividual, -⟩ := hown [] _ (fun _ => rfl) rfl rfl rfl
    rw [hindividual]
    decide
  · refine (hpost true _ relaysWorld).1 (.inl ⟨_, List.mem_singleton_self _, .inl ⟨_, rfl⟩⟩)

end Server

end Changes

end Evok
