import Evok.Api.Service

/-!
# Requests without the write access

What the handlers execute for a request whose token does not allow changes: without the access for
changes every path of every method only reads.

## Main results

* `Backend.readOnly_bulkSections`, `Backend.readOnly_call`: the queries of bulk, the methods of
  JSON-RPC allowed with the token for reading.
* `Service.readOnly_handle`: the task of a request without the write access only reads.
* `Service.readOnly_onMessage`: so does a message of its connection.
-/

namespace Evok

namespace Api

open Changes (Params)

/-! ## The methods -/

namespace Backend

variable {σ ι υ S E : Type} (api : Backend σ ι υ S E) {access : Access}

theorem requireWrite_error (h : access ≠ .write) :
    api.requireWrite access = .error api.readOnlyAccess := by
  simp [requireWrite, h]

theorem readOnly_getDevice (path : Path) : (api.getDevice path).ReadOnly := by
  refine Coroutine.ReadOnly.bind (.get _) fun result => ?_
  cases result with
  | ok body => exact .pure _
  | error e =>
    dsimp only
    split <;> exact .pure _

theorem readOnly_getAll : api.getAll.ReadOnly := by
  refine Coroutine.ReadOnly.bind (.get _) fun result => ?_
  cases result with
  | ok body => exact .bind .pause fun _ => .pure _
  | error e => exact .pure _

theorem readOnly_getLog (lines : Option String) : (api.getLog lines).ReadOnly := by
  unfold getLog
  split
  · exact .pure _
  · split
    · exact .pure _
    · exact .bind .pause fun _ => .bind (.get _) fun _ => .pure _

theorem readOnly_named (devtype : String) (circuit : Json) :
    (api.named devtype circuit).ReadOnly :=
  .ask _

theorem readOnly_reads (devtype : String) (circuit : Json) (value : ι → σ → Except E Json) :
    (api.reads devtype circuit value).ReadOnly :=
  .bind (api.readOnly_named devtype circuit) fun _ => .bind (.ofExcept _) fun _ => .ask _

variable [DecidableEq ι] [DecidableEq υ]

/-- Without assignments nothing is set. -/
theorem readOnly_setDevices_nil (sequences : ι → Option S) :
    (api.setDevices [] sequences).ReadOnly := by
  refine Coroutine.ReadOnly.bind (.get _) fun checked => ?_
  cases checked with
  | error e => exact .pure _
  | ok _ => exact .bind (.pure _) fun _ => .pure _

theorem readOnly_postDevice (h : access ≠ .write) (path : Path)
    (getKw : Except E (List (String × Json))) : (api.postDevice access path getKw).ReadOnly := by
  unfold postDevice
  rw [api.requireWrite_error h]
  refine Coroutine.ReadOnly.bind trivial fun result => .bind .pause fun _ => ?_
  cases result <;> exact .pure _

omit [DecidableEq ι] [DecidableEq υ] in
/-- A request of queries has no assignments. -/
theorem findCommands_nil {request : Changes.BulkRequest Json} {w : σ}
    {groups : List (List ι × Params Json)} {individuals : List (ι × Params Json)}
    (hgroups : request.groupAssignments = none) (hindividuals : request.individualAssignments = none)
    (h : api.findCommands request w = .ok (groups, individuals)) :
    groups = [] ∧ individuals = [] := by
  unfold findCommands at h
  rw [hgroups, hindividuals] at h
  obtain ⟨rfl, rfl⟩ := Prod.mk.inj (Except.ok.inj h)
  exact ⟨rfl, rfl⟩

theorem readOnly_bulkChanges_nil (request : Changes.BulkRequest Json) :
    (api.bulkChanges request [] []).ReadOnly :=
  .bind (api.readOnly_setDevices_nil _) fun _ => .pure _

theorem readOnly_bulkSections (h : access ≠ .write) (body : Except String Json) :
    (api.bulkSections access body).ReadOnly := by
  unfold bulkSections
  split
  · exact .pure _
  · next request _ =>
    by_cases hchanges : request.groupAssignments.isSome || request.individualAssignments.isSome
    · -- a change is refused before the devices are found
      simp only [hchanges, if_true, api.requireWrite_error h]
      exact .pure _
    · simp only [hchanges]
      rw [Bool.or_eq_true, not_or] at hchanges
      obtain ⟨hgroups, hindividuals⟩ := hchanges
      rw [Option.not_isSome_iff_eq_none] at hgroups hindividuals
      refine .get_bind fun w => ?_
      split
      · exact .pure _
      · next groups individuals hfound =>
        obtain ⟨rfl, rfl⟩ := api.findCommands_nil hgroups hindividuals hfound
        refine .bind (.get _) fun queried => ?_
        obtain ⟨queries, queried⟩ := queried
        cases queried with
        | error e => exact .pure _
        | ok _ => exact .bind (api.readOnly_bulkChanges_nil request) fun _ => .pure _

theorem readOnly_postBulk (h : access ≠ .write) (body : Except String Json) :
    (api.postBulk access body).ReadOnly := by
  refine .bind (api.readOnly_bulkSections h body) fun result => .bind .pause fun _ => ?_
  obtain ⟨sections, result⟩ := result
  cases result <;> exact .pure _

/-! ## JSON-RPC -/

/-- The bodies of the methods allowed with the token for reading. -/
theorem readOnly_call {method : RpcMethod} {name : String}
    (hname : RpcMethod.names.lookup name = some method) (h : name ∈ rpcReadMethods)
    (args : List (String × Json)) : (api.call method args).ReadOnly := by
  simp only [rpcReadMethods, List.mem_cons, List.not_mem_nil, or_false] at h
  rcases h with rfl | rfl | rfl | rfl | rfl | rfl | rfl | rfl | rfl <;>
    obtain rfl := Option.some.inj hname <;> exact api.readOnly_reads _ _ _

theorem readOnly_createResponse (h : access ≠ .write) (request : RpcRequest) :
    (api.createResponse access request).ReadOnly := by
  unfold createResponse
  split
  · exact .pure _
  · next method hname =>
    split
    · exact .pure _
    · next hread =>
      split
      · exact .pure _
      · have hmem : request.method ∈ rpcReadMethods := by
          by_contra hmem
          exact hread ⟨h, hmem⟩
        exact .bind (api.readOnly_call hname hmem _).attempt fun _ => .pure _

theorem readOnly_createResponses (h : access ≠ .write) (requests : List RpcRequest) :
    (api.createResponses access requests).ReadOnly := by
  induction requests with
  | nil => exact .pure _
  | cons request requests ih =>
    exact .bind (api.readOnly_createResponse h request) fun _ => .bind ih fun _ => .pure _

end Backend

/-! ## Requests and messages -/

namespace Service

variable {σ ι υ S E : Type} [DecidableEq ι] [DecidableEq υ] (svc : Service σ ι υ S E)
  {tokens : Tokens} {access : Access}

/-- The methods read with an access for reading. -/
theorem readOnly_method (h : access ≠ .write) (req : Request) :
    (svc.method access req).ReadOnly := by
  unfold method
  split
  · exact svc.readOnly_getAll
  · exact svc.readOnly_getDevice _
  · exact svc.readOnly_getDevice _
  · exact svc.readOnly_postDevice h _ _
  · exact svc.readOnly_postDevice h _ _
  · exact svc.readOnly_postBulk h _
  · exact .pure _
  · exact svc.readOnly_getLog _
  · exact .bind (svc.readOnly_createResponses h _) fun _ => .bind .pause fun _ => .pure _
  all_goals exact .pure _

/-- The methods reached without a check of the token read with every access. -/
theorem readOnly_method_unchecked {req : Request}
    (h : req.handler.authExempt = true ∨ req.method = .options) :
    (svc.method access req).ReadOnly := by
  obtain ⟨handler, requestMethod⟩ := req
  unfold method
  rcases h with hversion | hoptions
  · cases handler <;> simp only [Handler.authExempt, Bool.false_eq_true] at hversion
    cases requestMethod <;> exact .pure _
  · obtain rfl : requestMethod = .options := hoptions
    cases handler <;> exact .pure _

/-- A request is checked, or its method is `OPTIONS` or the version. -/
theorem reached_cases {req : Request} (h : req.reached tokens = some access) :
    (req.handler.authExempt = true ∨ req.method = .options) ∨
      req.access tokens = .ok (some access) := by
  unfold Request.reached Request.prepare at h
  split at h
  · next hsupports =>
    split at h
    · next hprepare =>
      split at hprepare
      · next hunchecked =>
        left
        simpa using hunchecked
      · right
        split at hprepare
        · cases hprepare
        · cases hprepare
        · next haccess =>
          cases hprepare
          cases h
          exact haccess
    · cases h
  · cases h

/-- The task of a request whose token does not allow changes only reads. -/
theorem readOnly_handle {req : Request} (h : req.access tokens ≠ .ok (some .write)) :
    (svc.handle tokens req).ReadOnly := by
  unfold handle
  split
  · next access hreached =>
    rcases reached_cases hreached with hunchecked | haccess
    · exact svc.readOnly_method_unchecked hunchecked
    · refine svc.readOnly_method ?_ req
      rintro rfl
      exact h haccess
  · exact .pure _

omit [DecidableEq ι] [DecidableEq υ] in
/-- The access of a connection is the access of its request. -/
theorem connect_access {req : Request} {connection : Connection}
    (h : connect tokens req = some connection) :
    req.access tokens = .ok (some connection.access) := by
  unfold connect at h
  split at h
  · next hhandler hmethod =>
    split at h
    · obtain ⟨access, hreached, rfl⟩ := Option.map_eq_some_iff.mp h
      rcases reached_cases hreached with (hexempt | hoptions) | haccess
      · simp [hhandler, Handler.authExempt] at hexempt
      · simp [hmethod] at hoptions
      · exact haccess
    · cases h
  · cases h

omit [DecidableEq ι] [DecidableEq υ] in
theorem readOnly_replying {command : Coroutine σ (Action ι) E (Option Json)}
    (h : command.ReadOnly) : (svc.replying command).ReadOnly := by
  refine .bind h.attempt fun result => ?_
  cases result with
  | ok reply => exact .pure _
  | error e => exact .bind .pause fun _ => .pure _

omit [DecidableEq ι] [DecidableEq υ] in
theorem readOnly_byName (dev circuit : Json) : (svc.byName dev circuit).ReadOnly := by
  unfold byName
  split
  · exact svc.readOnly_named _ _
  all_goals exact .throw _

/-- The commands of a connection for reading. -/
theorem readOnly_onCommand {connection : Connection} (h : connection.access ≠ .write)
    (fields : List (String × Json)) : (svc.onCommand connection fields).ReadOnly := by
  unfold onCommand
  split
  · exact .bind (.ask _) fun _ => .bind .pause fun _ => .pure _
  · refine .bind (.ofExcept _) fun target => .bind (svc.readOnly_byName _ _) fun device => ?_
    exact .bind (.ofExcept _) fun _ => .bind (.get _) fun _ => .bind .pause fun _ => .pure _
  · rw [svc.requireWrite_error h]
    trivial
  · exact .throw _

theorem readOnly_onMessage {connection : Connection} (h : connection.access ≠ .write)
    (message : Except String Json) : (svc.onMessage connection message).2.ReadOnly := by
  unfold onMessage
  split
  · exact svc.readOnly_replying (.throw _)
  · split
    · split
      · exact .pure _
      · exact svc.readOnly_replying (.throw _)
    · exact svc.readOnly_replying (svc.readOnly_onCommand h _)
  · exact svc.readOnly_replying (.throw _)

/-- A message keeps the access of its connection. -/
theorem onMessage_access (connection : Connection) (message : Except String Json) :
    (svc.onMessage connection message).1.access = connection.access := by
  unfold onMessage
  split
  · rfl
  · split
    · split <;> rfl
    · rfl
  · rfl

end Service

end Api

end Evok
