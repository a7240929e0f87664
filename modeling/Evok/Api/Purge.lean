import Evok.Api.ReadOnly
import Evok.Library.Run

/-!
# The runs without the read requests

A run without the requests whose token does not allow changes, their messages and their segments is
a run too, to the same state of the devices, the aliases and the sequences: these requests have no
influence on the others.

## Main definitions

* `purge`: the events of a run but those of the requests without the write access.
* `Service.Purged`: a state of a run and the state of the purged run.

## Main results

* `Service.Purged.step`, `Service.Purged.run`: the purged run follows the run.
* `Service.read_token_changes_nothing`: what the requests without the write access do.
-/

namespace Evok

namespace Api

/-- The token of the request allows changes. -/
def Request.Writes (tokens : Tokens) (req : Request) : Prop :=
  req.access tokens = .ok (some .write)

instance (tokens : Tokens) (req : Request) : Decidable (req.Writes tokens) :=
  inferInstanceAs (Decidable (_ = _))

/-- The events of a run but those of the requests without the write access; `writers` are the
earlier requests with it and their messages. -/
def purge {σ : Type} (tokens : Tokens) :
    List ℕ → List (Service.Event σ) → List (Service.Event σ)
  | _, [] => []
  | writers, .request id req :: events =>
    if req.Writes tokens then .request id req :: purge tokens (id :: writers) events
    else purge tokens writers events
  | writers, .message id c message :: events =>
    if c ∈ writers then .message id c message :: purge tokens (id :: writers) events
    else purge tokens writers events
  | writers, .resume id :: events =>
    if id ∈ writers then .resume id :: purge tokens writers events
    else purge tokens writers events
  | writers, .other change :: events => .other change :: purge tokens writers events

namespace Service

section

variable {σ ι E : Type}

/-- The state `t` of the purged run: it has the tasks and the connections of the writers only, the
other ones only read. -/
structure Purged (writers : List ℕ) (s t : State σ ι E) : Prop where
  world : t.world = s.world
  executed : t.executed = s.executed
  used : ∀ id ∈ writers, s.tasks id ≠ none
  tasks : ∀ id ∈ writers, t.tasks id = s.tasks id
  noTask : ∀ id ∉ writers, t.tasks id = none
  reads : ∀ id ∉ writers, ∀ task, s.tasks id = some task → task.ReadOnly
  connections : ∀ id ∈ writers, t.connections id = s.connections id
  noConnection : ∀ id ∉ writers, t.connections id = none
  readers : ∀ id ∉ writers, ∀ connection, s.connections id = some connection →
    connection.access ≠ .write

theorem Purged.init (w : σ) : Purged [] ({ world := w } : State σ ι E) { world := w } := by
  constructor <;> simp

variable {writers : List ℕ} {s t : State σ ι E}

theorem Purged.notMem (h : Purged writers s t) {id : ℕ} (new : s.tasks id = none) :
    id ∉ writers :=
  fun hmem => h.used id hmem new

/-- A request without the write access, or its message, is a new task which reads. -/
theorem Purged.newReader (h : Purged writers s t) {id : ℕ} (new : s.tasks id = none)
    {task : Coroutine σ (Action ι) E (Response ⊕ Option Json)} (hreads : task.ReadOnly)
    {connections : ℕ → Option Connection}
    (hsame : ∀ c ∈ writers, connections c = s.connections c)
    (hreaders : ∀ c ∉ writers, ∀ connection, connections c = some connection →
      connection.access ≠ .write) :
    Purged writers
      { s with
        connections := connections
        tasks := Function.update s.tasks id (some task) } t := by
  have hnot := h.notMem new
  refine ⟨h.world, h.executed, ?_, ?_, h.noTask, ?_, ?_, h.noConnection, hreaders⟩
  · intro c hc
    dsimp only
    rw [Function.update_of_ne (ne_of_mem_of_not_mem hc hnot)]
    exact h.used c hc
  · intro c hc
    dsimp only
    rw [Function.update_of_ne (ne_of_mem_of_not_mem hc hnot)]
    exact h.tasks c hc
  · intro c hc task' htask
    dsimp only at htask
    by_cases heq : c = id
    · subst heq
      rw [Function.update_self] at htask
      exact Option.some.inj htask ▸ hreads
    · rw [Function.update_of_ne heq] at htask
      exact h.reads c hc task' htask
  · intro c hc
    rw [h.connections c hc]
    exact (hsame c hc).symm

/-- A request with the write access, or its message, is a new task of both runs. -/
theorem Purged.newWriter (h : Purged writers s t) {id : ℕ}
    {task : Coroutine σ (Action ι) E (Response ⊕ Option Json)}
    {connections connections' : ℕ → Option Connection}
    (hsame : ∀ c ∈ id :: writers, connections' c = connections c)
    (hnone : ∀ c ∉ id :: writers, connections' c = none)
    (hreaders : ∀ c ∉ id :: writers, ∀ connection, connections c = some connection →
      connection.access ≠ .write) :
    Purged (id :: writers)
      { s with
        connections := connections
        tasks := Function.update s.tasks id (some task) }
      { t with
        connections := connections'
        tasks := Function.update t.tasks id (some task) } := by
  refine ⟨h.world, h.executed, ?_, ?_, ?_, ?_, hsame, hnone, hreaders⟩
  · intro c hc
    dsimp only
    by_cases heq : c = id
    · simp [heq]
    · rw [Function.update_of_ne heq]
      exact h.used c ((List.mem_cons.mp hc).resolve_left heq)
  · intro c hc
    dsimp only
    by_cases heq : c = id
    · simp [heq]
    · rw [Function.update_of_ne heq, Function.update_of_ne heq]
      exact h.tasks c ((List.mem_cons.mp hc).resolve_left heq)
  · intro c hc
    obtain ⟨hne, hc⟩ := not_or.mp (mt List.mem_cons.mpr hc)
    dsimp only
    rw [Function.update_of_ne hne]
    exact h.noTask c hc
  · intro c hc task' htask
    obtain ⟨hne, hc⟩ := not_or.mp (mt List.mem_cons.mpr hc)
    dsimp only at htask
    rw [Function.update_of_ne hne] at htask
    exact h.reads c hc task' htask

/-- A segment of a task which reads is no step of the purged run. -/
theorem Purged.resumeReader (h : Purged writers s t) {id : ℕ} (hid : id ∉ writers)
    {task : Coroutine σ (Action ι) E (Response ⊕ Option Json)} (running : s.tasks id = some task) :
    Purged writers
      { s with
        world := (task.segment s.world).world
        executed := s.executed ++ (task.segment s.world).actions
        tasks := Function.update s.tasks id (some (task.segment s.world).rest) } t := by
  obtain ⟨hworld, hactions, hrest⟩ := (h.reads id hid task running).segment s.world
  refine ⟨?_, ?_, ?_, ?_, h.noTask, ?_, h.connections, h.noConnection, h.readers⟩
  · rw [h.world, hworld]
  · rw [h.executed, hactions, List.append_nil]
  · intro c hc
    dsimp only
    rw [Function.update_of_ne (ne_of_mem_of_not_mem hc hid)]
    exact h.used c hc
  · intro c hc
    dsimp only
    rw [Function.update_of_ne (ne_of_mem_of_not_mem hc hid)]
    exact h.tasks c hc
  · intro c hc task' htask
    dsimp only at htask
    by_cases heq : c = id
    · subst heq
      rw [Function.update_self] at htask
      exact Option.some.inj htask ▸ hrest
    · rw [Function.update_of_ne heq] at htask
      exact h.reads c hc task' htask

/-- A segment of a writer is a step of both runs. -/
theorem Purged.resumeWriter (h : Purged writers s t) {id : ℕ} (hid : id ∈ writers)
    (task : Coroutine σ (Action ι) E (Response ⊕ Option Json)) :
    Purged writers
      { s with
        world := (task.segment s.world).world
        executed := s.executed ++ (task.segment s.world).actions
        tasks := Function.update s.tasks id (some (task.segment s.world).rest) }
      { t with
        world := (task.segment t.world).world
        executed := t.executed ++ (task.segment t.world).actions
        tasks := Function.update t.tasks id (some (task.segment t.world).rest) } := by
  rw [h.world, h.executed]
  refine ⟨rfl, rfl, ?_, ?_, ?_, ?_, h.connections, h.noConnection, h.readers⟩
  · intro c hc
    dsimp only
    by_cases heq : c = id
    · simp [heq]
    · rw [Function.update_of_ne heq]
      exact h.used c hc
  · intro c hc
    dsimp only
    by_cases heq : c = id
    · simp [heq]
    · rw [Function.update_of_ne heq, Function.update_of_ne heq]
      exact h.tasks c hc
  · intro c hc
    dsimp only
    rw [Function.update_of_ne (ne_of_mem_of_not_mem hid hc).symm]
    exact h.noTask c hc
  · intro c hc task' htask
    dsimp only at htask
    rw [Function.update_of_ne (ne_of_mem_of_not_mem hid hc).symm] at htask
    exact h.reads c hc task' htask

end

variable {σ ι υ S E : Type} [DecidableEq ι] [DecidableEq υ] {svc : Service σ ι υ S E}
  {tokens : Tokens} {writers : List ℕ} {s s' t : State σ ι E}

/-- The writers after an event. -/
def writersAfter (tokens : Tokens) (writers : List ℕ) : Event σ → List ℕ
  | .request id req => if req.Writes tokens then id :: writers else writers
  | .message id c _ => if c ∈ writers then id :: writers else writers
  | .resume _ | .other _ => writers

/-- The connections of the writers stay the same if the same one is set. -/
theorem update_eq {α : Type} {f g : ℕ → Option α} {writers' : List ℕ} {k : ℕ} {v : Option α}
    (h : ∀ c ∈ writers, f c = g c) (hsub : ∀ c ∈ writers', c ∈ writers ∨ c = k) :
    ∀ c ∈ writers', Function.update f k v c = Function.update g k v c := by
  intro c hc
  by_cases heq : c = k
  · simp [heq]
  · rw [Function.update_of_ne heq, Function.update_of_ne heq]
    exact h c ((hsub c hc).resolve_right heq)

theorem update_none {α : Type} {f : ℕ → Option α} {writers' : List ℕ} {k : ℕ} {v : Option α}
    (h : ∀ c ∉ writers, f c = none) (hk : k ∈ writers') (hsub : ∀ c ∈ writers, c ∈ writers') :
    ∀ c ∉ writers', Function.update f k v c = none := by
  intro c hc
  rw [Function.update_of_ne (ne_of_mem_of_not_mem hk hc).symm]
  exact h c fun hmem => hc (hsub c hmem)

/-- The other connections are for reading if the new one is a writer's or for reading. -/
theorem update_readers {f : ℕ → Option Connection} {writers' : List ℕ} {k : ℕ}
    {v : Option Connection}
    (h : ∀ c ∉ writers, ∀ connection, f c = some connection → connection.access ≠ .write)
    (hk : k ∈ writers' ∨ ∀ connection, v = some connection → connection.access ≠ .write)
    (hsub : ∀ c ∈ writers, c ∈ writers') :
    ∀ c ∉ writers', ∀ connection, Function.update f k v c = some connection →
      connection.access ≠ .write := by
  intro c hc connection hconnection
  by_cases heq : c = k
  · subst heq
    rw [Function.update_self] at hconnection
    exact hk.resolve_left hc connection hconnection
  · rw [Function.update_of_ne heq] at hconnection
    exact h c (fun hmem => hc (hsub c hmem)) connection hconnection

/-- The purged run has the step of a writer, and it stays where it is otherwise. -/
theorem Purged.step (h : Purged writers s t) {event : Event σ} (hstep : svc.Step tokens s event s') :
    ∃ t', Transition.Run (svc.Step tokens) t (purge tokens writers [event]) t' ∧
      Purged (writersAfter tokens writers event) s' t' := by
  cases hstep with
  | @request id req new unopened =>
    have hnot := h.notMem new
    simp only [purge, writersAfter]
    split
    · refine ⟨_, .single (.request (h.noTask id hnot) (h.noConnection id hnot)),
        h.newWriter ?_ ?_ ?_⟩
      · exact update_eq h.connections fun c hc => (List.mem_cons.mp hc).symm
      · exact update_none h.noConnection List.mem_cons_self fun c hc => List.mem_cons_of_mem _ hc
      · exact update_readers h.readers (.inl List.mem_cons_self)
          fun c hc => List.mem_cons_of_mem _ hc
    · next hreads =>
      refine ⟨t, .nil t, h.newReader new ((svc.readOnly_handle hreads).map _) ?_ ?_⟩
      · intro c hc
        exact Function.update_of_ne (ne_of_mem_of_not_mem hc hnot) _ _
      · refine update_readers h.readers (.inr fun connection hconnect => ?_) fun c hc => hc
        intro hwrite
        have haccess := connect_access hconnect
        rw [hwrite] at haccess
        exact hreads haccess
  | @message id c connection message new unopened opened =>
    have hnot := h.notMem new
    simp only [purge, writersAfter]
    split
    · next hc =>
      have hsame : ∀ c' ∈ id :: writers, t.connections c' = s.connections c' := by
        intro c' hc'
        rcases List.mem_cons.mp hc' with rfl | hc'
        · rw [h.noConnection _ hnot, unopened]
        · exact h.connections c' hc'
      refine ⟨_, .single (.message (h.noTask id hnot) (h.noConnection id hnot)
        ((h.connections c hc).trans opened)), h.newWriter ?_ ?_ ?_⟩
      · exact update_eq hsame fun c' hc' => .inl hc'
      · exact update_none h.noConnection (List.mem_cons_of_mem _ hc)
          fun c hc => List.mem_cons_of_mem _ hc
      · exact update_readers h.readers (.inl (List.mem_cons_of_mem _ hc))
          fun c hc => List.mem_cons_of_mem _ hc
    · next hc =>
      have hread := h.readers c hc connection opened
      refine ⟨t, .nil t, h.newReader new ((svc.readOnly_onMessage hread message).map _) ?_ ?_⟩
      · intro c' hc'
        exact Function.update_of_ne (ne_of_mem_of_not_mem hc' hc) _ _
      · refine update_readers h.readers (.inr ?_) fun c hc => hc
        rintro connection' heq
        rw [← Option.some.inj heq, svc.onMessage_access]
        exact hread
  | @resume id task running =>
    simp only [purge, writersAfter]
    split
    · next hid =>
      exact ⟨_, .single (.resume ((h.tasks id hid).trans running)), h.resumeWriter hid task⟩
    · next hid => exact ⟨t, .nil t, h.resumeReader hid running⟩
  | other =>
    refine ⟨_, .single .other, ⟨?_, h.executed, h.used, h.tasks, h.noTask, h.reads,
      h.connections, h.noConnection, h.readers⟩⟩
    rw [h.world]

/-- The purge of a run goes on with the writers so far. -/
theorem purge_cons (tokens : Tokens) (writers : List ℕ) (event : Event σ)
    (events : List (Event σ)) :
    purge tokens writers (event :: events) =
      purge tokens writers [event] ++ purge tokens (writersAfter tokens writers event) events := by
  cases event <;> simp only [purge, writersAfter]
  · split <;> rfl
  · split <;> rfl
  · split <;> rfl
  · rfl

/-- The purged run ends in the same state of the devices. -/
theorem Purged.run {events : List (Event σ)} (hrun : Transition.Run (svc.Step tokens) s events s')
    (h : Purged writers s t) :
    ∃ t' writers', Transition.Run (svc.Step tokens) t (purge tokens writers events) t' ∧
      Purged writers' s' t' := by
  induction hrun generalizing writers t with
  | nil s => exact ⟨t, writers, .nil t, h⟩
  | cons head tail ih =>
    obtain ⟨t₁, hfirst, h₁⟩ := h.step head
    obtain ⟨t', writers', hrest, h'⟩ := ih h₁
    rw [purge_cons]
    exact ⟨t', writers', hfirst.append hrest, h'⟩

theorem Step.unique {event : Event σ} {u u' : State σ ι E} (h : svc.Step tokens s event u)
    (h' : svc.Step tokens s event u') : u = u' := by
  cases h with
  | request =>
    cases h'
    rfl
  | message new unopened opened =>
    cases h' with
    | message new' unopened' opened' =>
      obtain rfl := Option.some.inj (opened.symm.trans opened')
      rfl
  | resume running =>
    cases h' with
    | resume running' =>
      obtain rfl := Option.some.inj (running.symm.trans running')
      rfl
  | other =>
    cases h'
    rfl

/-- The requests whose token does not allow changes execute nothing, with any method, path and
body and with any message of their connections; without a valid token they reach no method but
`OPTIONS` and the one of the version. The runs which differ only in such requests have the same
executed changes and the same state of the devices, the aliases, the sequences and the buses. -/
theorem read_token_changes_nothing (svc : Service σ ι υ S E) (tokens : Tokens) :
    (∀ req : Request, req.access tokens ≠ .ok (some .write) → (svc.handle tokens req).ReadOnly) ∧
    (∀ connection : Connection, connection.access ≠ .write → ∀ message,
      (svc.onMessage connection message).2.ReadOnly ∧
        (svc.onMessage connection message).1.access ≠ .write) ∧
    (∀ (req : Request) (connection : Connection), connect tokens req = some connection →
      req.access tokens = .ok (some connection.access)) ∧
    (∀ req : Request, req.access tokens = .ok none → req.reached tokens ≠ none →
      req.method = .options ∨ req.handler = .version) ∧
    ∀ (w : σ) (events₁ events₂ : List (Event σ)) (s₁ s₂ : State σ ι E),
      Transition.Run (svc.Step tokens) { world := w } events₁ s₁ →
      Transition.Run (svc.Step tokens) { world := w } events₂ s₂ →
      purge tokens [] events₁ = purge tokens [] events₂ →
      s₁.world = s₂.world ∧ s₁.executed = s₂.executed := by
  refine ⟨fun req h => svc.readOnly_handle h, fun connection h message =>
    ⟨svc.readOnly_onMessage h message, by rwa [svc.onMessage_access]⟩,
    fun req connection h => connect_access h, ?_, ?_⟩
  · intro req hnone hreached
    obtain ⟨access, haccess⟩ := Option.ne_none_iff_exists'.mp hreached
    rcases reached_cases haccess with (hexempt | hoptions) | hsome
    · right
      cases hhandler : req.handler <;> simp [hhandler, Handler.authExempt] at hexempt ⊢
    · exact .inl hoptions
    · rw [hnone] at hsome
      cases hsome
  · intro w events₁ events₂ s₁ s₂ h₁ h₂ heq
    obtain ⟨t₁, _, hrun₁, hpurged₁⟩ := (Purged.init w).run h₁
    obtain ⟨t₂, _, hrun₂, hpurged₂⟩ := (Purged.init w).run h₂
    rw [heq] at hrun₁
    have hunique : ∀ (s : State σ ι E) event t t', svc.Step tokens s event t →
        svc.Step tokens s event t' → t = t' := fun _ _ _ _ h h' => Step.unique h h'
    obtain rfl := Transition.Run.deterministic hunique hrun₁ hrun₂
    exact ⟨hpurged₁.world.symm.trans hpurged₂.world, hpurged₁.executed.symm.trans hpurged₂.executed⟩

/-- The value of a relay. -/
def relayValue (kw : Changes.Params Json) : ℕ :=
  match kw.others.lookup "value" with
  | some (.bool true) => 1
  | _ => 0

/-- Two relays of one unit, each write waits for its response. -/
def relaysService :
    Service (Devices.Registry (Fin 3) × (Fin 3 → ℕ)) (Fin 3) ℕ Unit String where
  dev := Devices.Registry.relays
  registry := Prod.fst
  unit _ := 0
  isClient _ := true
  set d kw w := ((w.1, Function.update w.2 d (relayValue kw)), .ok ())
  full d w := Dict.set ∅ "value" (.bool (w.2 d = 1))
  isRunning _ _ := false
  start _ _ w := w
  lock _ w := w
  scanError _ _ := none
  periodicScan _ _ := true
  doScan _ w := (w, true)
  readChanged _ _ w := (w, none)
  checkDevices _ w := (w, none)
  aliasError _ := "DeviceNotFound"
  keyError _ := "KeyError"
  sequenceRunning _ := "SequenceRunning"
  unitUnavailable _ _ := "UnitUnavailable"
  communicationError _ _ := none
  majorGroup _ := "1"
  checkParams _ _ := .ok ()
  readOnlyAccess := "ReadOnlyAccess"
  clientError _ := some 400
  setting d kw := do
    .pause
    .modify .step fun w => (w.1, Function.update w.2 d (relayValue kw))
  settingValue _ value := return value
  busSetting _ _ := return
  locking _ := return
  unlocking _ := return
  scanning _ := return true
  rereading _ _ := .pause
  checking _ := return
  pulseParams _ _ _ := .error "ValueError"
  get d w := .ok (.bool (w.2 d = 1))
  getValue d w := .ok (.bool (w.2 d = 1))
  sequenceName _ _ := none
  scanInterval _ _ := .ok .null
  listSensors _ _ := .ok .null
  strOf _ := ""
  bulkRequest _ := .error "ValueError"
  version := "1"
  logFile := false
  readLogTail _ _ := ""
  intOf _ := none
  valueError message := message
  typeError message := message
  attributeError message := message
  errorText message := ("ValueError", message)
  rpcRequests _ := []
  rpcResponse _ _ := { body := .null }

def relaysTokens : Tokens where
  token := some "turn"
  readToken := some "look"

/-- A request to switch the first relay on. -/
def switchOn (token : String) : Request where
  handler := .json { dev := "ro", circuit := "1_01" }
  method := .post
  authorization := "Bearer ".toList ++ token.toList
  body := { isBlank := false, startsWithBrace := true, json := .ok (.obj [("value", .bool true)]) }

/-- A request of each token with the segments of their tasks. -/
def bothRequests : List (Event (Devices.Registry (Fin 3) × (Fin 3 → ℕ))) :=
  [.request 0 (switchOn "look"), .request 1 (switchOn "turn"), .resume 0, .resume 1, .resume 1]

/-- The request of the write token alone. -/
def writeRequests : List (Event (Devices.Registry (Fin 3) × (Fin 3 → ℕ))) :=
  [.request 1 (switchOn "turn"), .resume 1, .resume 1]

open Changes.Server (relaysWorld) in
/-- The relay is switched on by the write token, with a refused request at the same time and
without it. -/
theorem read_token_changes_nothing_relays :
    ∃ s₁ s₂,
      Transition.Run (relaysService.Step relaysTokens) { world := relaysWorld } bothRequests s₁ ∧
      Transition.Run (relaysService.Step relaysTokens) { world := relaysWorld } writeRequests s₂ ∧
      s₂.world.2 Devices.Registry.firstRelay = 1 ∧ s₁.world = s₂.world ∧
      s₁.executed = s₂.executed := by
  have hwrites : (switchOn "turn").Writes relaysTokens := by decide +kernel
  have hreads : ¬(switchOn "look").Writes relaysTokens := by decide +kernel
  obtain ⟨s₁, h₁⟩ : ∃ s, Transition.Run (relaysService.Step relaysTokens) { world := relaysWorld }
      bothRequests s :=
    ⟨_, .cons (.request rfl rfl) (.cons (.request rfl rfl) (.cons (.resume rfl)
      (.cons (.resume rfl) (.single (.resume rfl)))))⟩
  obtain ⟨s₂, h₂, hvalue⟩ : ∃ s, Transition.Run (relaysService.Step relaysTokens)
      { world := relaysWorld } writeRequests s ∧ s.world.2 Devices.Registry.firstRelay = 1 :=
    ⟨_, .cons (.request rfl rfl) (.cons (.resume rfl) (.single (.resume rfl))), by decide +kernel⟩
  obtain ⟨-, -, -, -, hsame⟩ := read_token_changes_nothing relaysService relaysTokens
  exact ⟨s₁, s₂, h₁, h₂, hvalue,
    hsame _ _ _ _ _ h₁ h₂ (by simp [purge, bothRequests, writeRequests, hwrites, hreads])⟩

end Service

end Api

end Evok
