import Evok.Bus.SerialBuses
import Evok.Library.Run
import Evok.Library.WaitFor
import Mathlib.Data.String.Basic

/-!
# The locks of the units and of the buses

The tasks of the process with the locks they take: a change holds the lock of its unit, its requests
take the lock of the bus of the unit, a restart of the unit (`write_coil_without_response`) holds
the serial buses of the unit before; a scan takes only the bus. A task changes one unit after
another, it holds no lock between them.

## Main definitions

* `Phase`: where a task is, with what it holds and what it waits for.
* `Step`: a step of a task, at any time; a lock is taken when no task holds it.

## Main results

* `exclusive`: a lock has one holder.
* `no_deadlock`: no cycle of tasks in which each one waits for a lock held by the next one.
* `exists_running`: a chain of waiting tasks ends in a task which waits for none.
-/

namespace Evok

namespace Bus

/-! ## The tasks -/

/-- The locks. -/
inductive Resource (P : Type)
  | unit (client : Client P)
  | bus (transport : Transport P)

/-- A request to a unit: of its scan, of a change, or the coil after which it restarts. -/
inductive Request (P : Type)
  | scan (u : Client P)
  | change (u : Client P)
  | coil (u : Client P)

namespace Request

variable {P : Type}

/-- The unit of the request. -/
def unit : Request P → Client P
  | scan u | change u | coil u => u

end Request

/-- Where a task is. -/
inductive Phase (P : Type)
  /-- It holds nothing: before a change, between the units of `set_devices`, between scans. -/
  | idle
  /-- It waits for the lock of the unit. -/
  | locking (u : Client P)
  /-- In a change of the unit, between its requests. -/
  | changing (u : Client P)
  /-- In a restart of the unit: it holds some of its serial buses and waits for the next one. -/
  | holding (u : Client P) (held : List (Transport P)) (next : Transport P)
      (todo : List (Transport P))
  /-- In a restart of the unit: it holds all its serial buses. -/
  | restarting (u : Client P)
  /-- It waits for the bus of the request. -/
  | waiting (r : Request P)
  /-- The request is sent, with its retries. -/
  | sending (r : Request P)

section

variable {P : Type} (buses : Client P → List (Transport P))

/-- The locks held by the sender of a request before it has the bus. -/
def Request.held : Request P → List (Resource P)
  | scan _ => []
  | change u => [.unit u]
  | coil u => .unit u :: (buses u).map .bus

/-- The locks held by a task. -/
def Phase.held : Phase P → List (Resource P)
  | idle | locking _ => []
  | changing u => [.unit u]
  | holding u held _ _ => .unit u :: held.map .bus
  | restarting u => .unit u :: (buses u).map .bus
  | waiting r => r.held buses
  | sending r => .bus r.unit.transport :: r.held buses

/-- The lock a task waits for. -/
def Phase.awaited : Phase P → Option (Resource P)
  | locking u => some (.unit u)
  | holding _ _ next _ => some (.bus next)
  | waiting r => some (.bus r.unit.transport)
  | _ => none

/-- The phase of a restart which holds some buses, `todo` are the next ones. -/
def Phase.hold (u : Client P) (held : List (Transport P)) : List (Transport P) → Phase P
  | [] => restarting u
  | next :: todo => holding u held next todo

/-- The phase after a request, or after its failure in the context it was sent in. -/
def Request.after : Request P → Phase P
  | scan _ => .idle
  | change u => .changing u
  | coil u => .restarting u

/-! ## The steps -/

variable {T : Type} [DecidableEq T] (clients : List (Client P))

/-- No task holds the lock. -/
def Free (tasks : T → Phase P) (r : Resource P) : Prop :=
  ∀ t, r ∉ (tasks t).held buses

/-- The steps of a task. -/
inductive Step : (T → Phase P) → T → (T → Phase P) → Prop
  /-- The next unit of `set_devices`, a step of a sequence, or another caller of `change`. -/
  | change {tasks : T → Phase P} {t : T} {u : Client P} (created : u ∈ clients)
      (idle : tasks t = .idle) : Step tasks t (Function.update tasks t (.locking u))
  | lock {tasks : T → Phase P} {t : T} {u : Client P} (waits : tasks t = .locking u)
      (free : Free buses tasks (.unit u)) : Step tasks t (Function.update tasks t (.changing u))
  /-- The waiting caller is cancelled. -/
  | giveUp {tasks : T → Phase P} {t : T} {u : Client P} (waits : tasks t = .locking u) :
      Step tasks t (Function.update tasks t .idle)
  /-- A write or a read of the change. -/
  | request {tasks : T → Phase P} {t : T} {u : Client P} (changing : tasks t = .changing u) :
      Step tasks t (Function.update tasks t (.waiting (.change u)))
  /-- A restart of the unit by `nv_save` or a watchdog. -/
  | restart {tasks : T → Phase P} {t : T} {u : Client P} (changing : tasks t = .changing u) :
      Step tasks t (Function.update tasks t (.hold u [] (buses u)))
  | holdNext {tasks : T → Phase P} {t : T} {u : Client P} {held todo : List (Transport P)}
      {next : Transport P} (waits : tasks t = .holding u held next todo)
      (free : Free buses tasks (.bus next)) :
      Step tasks t (Function.update tasks t (.hold u (held ++ [next]) todo))
  /-- The restart is cancelled while it waits, it releases the held buses. -/
  | release {tasks : T → Phase P} {t : T} {u : Client P} {held todo : List (Transport P)}
      {next : Transport P} (waits : tasks t = .holding u held next todo) :
      Step tasks t (Function.update tasks t (.changing u))
  | coil {tasks : T → Phase P} {t : T} {u : Client P} (restarting : tasks t = .restarting u) :
      Step tasks t (Function.update tasks t (.waiting (.coil u)))
  /-- The unit has restarted, or the write of its coil failed: the buses are released. -/
  | restarted {tasks : T → Phase P} {t : T} {u : Client P} (restarting : tasks t = .restarting u) :
      Step tasks t (Function.update tasks t (.changing u))
  /-- A request of the periodic scan. -/
  | scan {tasks : T → Phase P} {t : T} {u : Client P} (created : u ∈ clients)
      (idle : tasks t = .idle) : Step tasks t (Function.update tasks t (.waiting (.scan u)))
  | send {tasks : T → Phase P} {t : T} {r : Request P} (waits : tasks t = .waiting r)
      (free : Free buses tasks (.bus r.unit.transport)) :
      Step tasks t (Function.update tasks t (.sending r))
  /-- The response or the failure of the request, or the cancellation of its wait. -/
  | respond {tasks : T → Phase P} {t : T} {r : Request P}
      (requested : tasks t = .sending r ∨ tasks t = .waiting r) :
      Step tasks t (Function.update tasks t r.after)
  /-- The end of the change, also after an error. -/
  | endChange {tasks : T → Phase P} {t : T} {u : Client P} (changing : tasks t = .changing u) :
      Step tasks t (Function.update tasks t .idle)

end

/-! ## The order of the locks -/

variable {P : Type} [LinearOrder P]

/-- The locks of the units come first, then the buses. -/
def Resource.rank : Resource P → WithBot (WithTop P)
  | unit _ => ⊥
  | bus transport => transport.rank

section

variable {buses : Client P → List (Transport P)}

/-- A restart takes the serial buses of its unit in their order. -/
def Phase.Ordered (buses : Client P → List (Transport P)) : Phase P → Prop
  | holding u held next todo => held ++ next :: todo = buses u
  | _ => True

omit [LinearOrder P] in
theorem Phase.ordered_hold {u : Client P} {held todo : List (Transport P)}
    (h : held ++ todo = buses u) : (Phase.hold u held todo).Ordered buses := by
  cases todo with
  | nil => trivial
  | cons next todo => exact h

omit [LinearOrder P] in
theorem Phase.ordered_after (r : Request P) : r.after.Ordered buses := by
  cases r <;> trivial

theorem Resource.rank_unit_lt (u : Client P) (transport : Transport P) :
    (Resource.unit u).rank < (Resource.bus transport).rank :=
  WithBot.bot_lt_coe _

theorem Resource.rank_bus_lt {a b : Transport P} (h : a.rank < b.rank) :
    (Resource.bus a).rank < (Resource.bus b).rank :=
  WithBot.coe_lt_coe.mpr h

/-- A task waits for a lock above those it holds. -/
theorem Phase.Ordered.rank_lt (hsorted : ∀ u, (buses u).Pairwise fun a b => a.rank < b.rank)
    (hserial : ∀ u, ∀ bus ∈ buses u, bus.rank < ⊤)
    (htcp : ∀ u, buses u ≠ [] → u.transport.rank = ⊤) {phase : Phase P}
    (h : phase.Ordered buses) {r held : Resource P} (hwaits : phase.awaited = some r)
    (hheld : held ∈ phase.held buses) : held.rank < r.rank := by
  cases phase with
  | idle | changing | restarting | sending => simp [Phase.awaited] at hwaits
  | locking u => simp [Phase.held] at hheld
  | holding u taken next todo =>
    obtain rfl := Option.some.inj hwaits
    rcases List.mem_cons.mp hheld with rfl | hrest
    · exact Resource.rank_unit_lt u next
    · -- the held buses are before the next one in the sorted list
      obtain ⟨bus, hbus, rfl⟩ := List.mem_map.mp hrest
      have hpairs := hsorted u
      rw [← show taken ++ next :: todo = buses u from h] at hpairs
      exact Resource.rank_bus_lt
        ((List.pairwise_append.mp hpairs).2.2 bus hbus next List.mem_cons_self)
  | waiting request =>
    obtain rfl := Option.some.inj hwaits
    cases request with
    | scan u => simp [Phase.held, Request.held] at hheld
    | change u =>
      obtain rfl := List.mem_singleton.mp hheld
      exact Resource.rank_unit_lt u _
    | coil u =>
      rcases List.mem_cons.mp hheld with rfl | hrest
      · exact Resource.rank_unit_lt u _
      · -- the serial buses are below the bus of a unit which serves them
        obtain ⟨bus, hbus, rfl⟩ := List.mem_map.mp hrest
        apply Resource.rank_bus_lt
        rw [show (Request.coil u).unit.transport.rank = ⊤ from htcp u (List.ne_nil_of_mem hbus)]
        exact hserial u bus hbus

/-! ## Runs -/

variable {T : Type} [DecidableEq T] {clients : List (Client P)}

omit [LinearOrder P] in
theorem Phase.held_hold {u : Client P} {held todo : List (Transport P)}
    (h : held ++ todo = buses u) :
    (Phase.hold u held todo).held buses = .unit u :: held.map .bus := by
  cases todo with
  | nil =>
    rw [List.append_nil] at h
    rw [Phase.hold, Phase.held, h]
  | cons next todo => rfl

omit [LinearOrder P] in
theorem Request.held_after (r : Request P) : r.after.held buses = r.held buses := by
  cases r <;> rfl

omit [LinearOrder P] in
/-- A step gives its task a phase which keeps the order of the restart and holds a new lock only if
no task held it. -/
theorem Step.update {tasks tasks' : T → Phase P} {t : T} (h : Step buses clients tasks t tasks')
    (ordered : (tasks t).Ordered buses) :
    ∃ phase : Phase P, tasks' = Function.update tasks t phase ∧ phase.Ordered buses ∧
      ∀ r ∈ phase.held buses, r ∈ (tasks t).held buses ∨ Free buses tasks r := by
  cases h with
  | change _ _ => exact ⟨_, rfl, trivial, by simp [Phase.held]⟩
  | lock waits free =>
    refine ⟨_, rfl, trivial, fun r hr => .inr ?_⟩
    obtain rfl := List.mem_singleton.mp hr
    exact free
  | giveUp waits => exact ⟨_, rfl, trivial, by simp [Phase.held]⟩
  | request changing =>
    refine ⟨_, rfl, trivial, fun r hr => .inl ?_⟩
    rwa [changing]
  | @restart u changing =>
    refine ⟨_, rfl, Phase.ordered_hold (List.nil_append _), fun r hr => .inl ?_⟩
    rw [Phase.held_hold (List.nil_append _)] at hr
    rwa [changing]
  | @holdNext u held todo next waits free =>
    have horder : (held ++ [next]) ++ todo = buses u := by
      rw [waits] at ordered
      rw [List.append_assoc]
      exact ordered
    refine ⟨_, rfl, Phase.ordered_hold horder, fun r hr => ?_⟩
    rw [Phase.held_hold horder, List.map_append, ← List.cons_append] at hr
    rcases List.mem_append.mp hr with hold | hnew
    · left
      rwa [waits]
    · right
      obtain rfl := List.mem_singleton.mp hnew
      exact free
  | release waits =>
    refine ⟨_, rfl, trivial, fun r hr => .inl ?_⟩
    obtain rfl := List.mem_singleton.mp hr
    rw [waits]
    exact List.mem_cons_self
  | coil restarting =>
    refine ⟨_, rfl, trivial, fun r hr => .inl ?_⟩
    rwa [restarting]
  | restarted restarting =>
    refine ⟨_, rfl, trivial, fun r hr => .inl ?_⟩
    obtain rfl := List.mem_singleton.mp hr
    rw [restarting]
    exact List.mem_cons_self
  | scan _ _ => exact ⟨_, rfl, trivial, by simp [Phase.held, Request.held]⟩
  | send waits free =>
    refine ⟨_, rfl, trivial, fun r hr => ?_⟩
    rcases List.mem_cons.mp hr with rfl | hrest
    · exact .inr free
    · left
      rwa [waits]
  | @respond r requested =>
    refine ⟨_, rfl, Phase.ordered_after r, fun lock hlock => .inl ?_⟩
    rw [Request.held_after] at hlock
    rcases requested with hsent | hwaits
    · rw [hsent]
      exact List.mem_cons_of_mem _ hlock
    · rwa [hwaits]
  | endChange changing => exact ⟨_, rfl, trivial, by simp [Phase.held]⟩

omit [LinearOrder P] [DecidableEq T] in
theorem free_idle (r : Resource P) : Free buses (fun _ : T => .idle) r := by
  simp [Free, Phase.held]

omit [LinearOrder P] in
theorem Free.update {tasks : T → Phase P} {r : Resource P} (h : Free buses tasks r) (t : T)
    {phase : Phase P} (hr : r ∉ phase.held buses) :
    Free buses (Function.update tasks t phase) r := by
  intro u
  by_cases heq : u = t
  · rwa [heq, Function.update_self]
  · rw [Function.update_of_ne heq]
    exact h u

/-- The tasks restart the units in the order of their buses, a lock has one holder. -/
structure Inv (buses : Client P → List (Transport P)) (tasks : T → Phase P) : Prop where
  ordered : ∀ t, (tasks t).Ordered buses
  holder : ∀ t u r, r ∈ (tasks t).held buses → r ∈ (tasks u).held buses → t = u

omit [LinearOrder P] in
theorem Inv.step {tasks tasks' : T → Phase P} (h : Inv buses tasks) {t : T}
    (hstep : Step buses clients tasks t tasks') : Inv buses tasks' := by
  obtain ⟨phase, rfl, hordered, hheld⟩ := hstep.update (h.ordered t)
  -- a lock of the new phase is not held by another task
  have hother : ∀ u r, u ≠ t → r ∈ phase.held buses → r ∉ (tasks u).held buses := by
    intro u r hne hr hu
    rcases hheld r hr with hold | hfree
    · exact hne (h.holder u t r hu hold)
    · exact hfree u hu
  constructor
  · intro u
    by_cases heq : u = t
    · rw [heq, Function.update_self]
      exact hordered
    · rw [Function.update_of_ne heq]
      exact h.ordered u
  · intro u v r hu hv
    by_cases hut : u = t <;> by_cases hvt : v = t
    · rw [hut, hvt]
    · rw [hut, Function.update_self] at hu
      rw [Function.update_of_ne hvt] at hv
      exact absurd hv (hother v r hvt hu)
    · rw [hvt, Function.update_self] at hv
      rw [Function.update_of_ne hut] at hu
      exact absurd hu (hother u r hut hv)
    · rw [Function.update_of_ne hut] at hu
      rw [Function.update_of_ne hvt] at hv
      exact h.holder u v r hu hv

omit [LinearOrder P] in
theorem Inv.of_reachable {tasks : T → Phase P}
    (h : Transition.Reachable (Step buses clients) (· = fun _ => .idle) tasks) :
    Inv buses tasks := by
  obtain ⟨_, labels, rfl, hrun⟩ := h
  refine hrun.invariant (I := Inv buses) (fun _ _ _ hinv hstep => hinv.step hstep) ?_
  constructor
  · exact fun _ => trivial
  · simp [Phase.held]

end

section

variable {P T : Type} [LinearOrder P] [DecidableEq T] (realpath : String → P)
  (config : List (String × BusData))

/-- The states of the tasks of the process with the units of a configuration. -/
def ReachableTasks (tasks : T → Phase P) : Prop :=
  let claims := createDevices realpath config
  Transition.Reachable (Step (claims.serialBuses realpath) claims.clients) (· = fun _ => .idle) tasks

/-- The lock is held by the task. -/
def Holds (tasks : T → Phase P) (t : T) (r : Resource P) : Prop :=
  r ∈ (tasks t).held ((createDevices realpath config).serialBuses realpath)

/-- The task waits for the lock. -/
def Waits (tasks : T → Phase P) (t : T) (r : Resource P) : Prop :=
  (tasks t).awaited = some r

variable {realpath config} {tasks : T → Phase P}

/-- A lock has one holder. -/
theorem exclusive (h : ReachableTasks realpath config tasks) {t u : T} {r : Resource P}
    (ht : Holds realpath config tasks t r) (hu : Holds realpath config tasks u r) : t = u :=
  (Inv.of_reachable h).holder t u r ht hu

/-- No cycle of tasks in which each one waits for a lock held by the next one. -/
theorem no_deadlock (h : ReachableTasks realpath config tasks) :
    ¬ WaitFor.Deadlocked (Holds realpath config tasks) (Waits tasks) := by
  have horder : ∀ t r held, Waits tasks t r → Holds realpath config tasks t held →
      held.rank < r.rank := by
    intro t r held hwaits hheld
    exact ((Inv.of_reachable h).ordered t).rank_lt
      (fun u => (sorted_serialBuses realpath config u).1)
      (fun u => (sorted_serialBuses realpath config u).2)
      (tcp_of_serialBuses realpath config) hwaits hheld
  exact WaitFor.not_deadlocked horder

/-- A unit of a TCP bus which serves the ports of two serial buses. -/
def gateway : List (String × BusData) :=
  [("RS485_1", { type := .modbusRtu "/dev/ttyNS1", devices := [("xS11", {})] }),
   ("RS485_0", { type := .modbusRtu "/dev/ttyNS0" }),
   ("LOCAL", { type := .modbusTcp "127.0.0.1" 502, devices :=
      [("1", { serialPorts := .ok ["/dev/extcomm/0/1", "/dev/ttyNS0", "/dev/ttyNS1"] })] })]

/-- The link to a port of the unit. -/
def gatewayPath (port : String) : String :=
  if port = "/dev/extcomm/0/1" then "/dev/ttyNS1" else port

/-- The restart of the unit holds the first bus and waits for the second one, which a scan has. -/
theorem no_deadlock_gateway :
    let first : Transport String := { bus := "RS485_0", port := some "/dev/ttyNS0" }
    let second : Transport String := { bus := "RS485_1", port := some "/dev/ttyNS1" }
    let unit : Client String := { circuit := "1", transport := { bus := "LOCAL", port := none } }
    let tasks : ℕ → Phase String := Function.update
      (Function.update (fun _ => .idle) 0 (.holding unit [first] second []))
      1 (.sending (.scan { circuit := "xS11", transport := second }))
    Holds gatewayPath gateway tasks 0 (.bus first) ∧ Waits tasks 0 (.bus second) ∧
      Holds gatewayPath gateway tasks 1 (.bus second) ∧
      ¬ WaitFor.Deadlocked (Holds gatewayPath gateway tasks) (Waits tasks) := by
  intro first second unit tasks
  have hkeys : (["/dev/extcomm/0/1", "/dev/ttyNS0", "/dev/ttyNS1"].foldl (addPort gatewayPath
      (createDevices gatewayPath gateway).serialPorts) ∅).keys = ["/dev/ttyNS1", "/dev/ttyNS0"] := by
    decide
  have hsort : ["/dev/ttyNS1", "/dev/ttyNS0"].mergeSort (· ≤ ·) =
      ["/dev/ttyNS0", "/dev/ttyNS1"] := by
    simp [List.mergeSort, List.MergeSort.Internal.splitInTwo]
  have hbuses : (createDevices gatewayPath gateway).serialBuses gatewayPath unit =
      [first, second] := by
    change sortedBuses _ = _
    rw [sortedBuses, hkeys, hsort]
    decide
  have hclients : (createDevices gatewayPath gateway).clients =
      [{ circuit := "xS11", transport := second }, unit] := by
    decide
  have hreach : ReachableTasks gatewayPath gateway tasks := by
    refine ⟨_, [0, 0, 0, 0, 1, 1], rfl, ?_⟩
    refine .cons (.change (u := unit) (by simp [hclients]) rfl) ?_
    refine .cons (.lock (Function.update_self ..)
      ((free_idle _).update 0 (by simp [Phase.held]))) ?_
    rw [Function.update_idem]
    refine .cons (.restart (Function.update_self ..)) ?_
    rw [Function.update_idem, hbuses]
    refine .cons (.holdNext (Function.update_self ..)
      ((free_idle _).update 0 (by simp [Phase.hold, Phase.held]))) ?_
    rw [Function.update_idem]
    refine .cons (.scan (u := { circuit := "xS11", transport := second }) (by simp [hclients])
      (by simp)) ?_
    refine .cons (.send (Function.update_self ..) ?_) ?_
    · refine ((free_idle _).update 0 ?_).update 1 ?_
      · simp [Phase.hold, Phase.held, first, second, Request.unit]
      · simp [Phase.held, Request.held]
    · rw [Function.update_idem]
      exact .nil _
  exact ⟨by simp [Holds, Phase.held, tasks], by simp [Waits, Phase.awaited, tasks],
    by simp [Holds, Phase.held, Request.unit, tasks], no_deadlock hreach⟩

/-- A chain of waiting tasks ends in a task which waits for none. -/
theorem exists_running [Finite T] (h : ReachableTasks realpath config tasks) (t : T) :
    ∃ u, Relation.ReflTransGen
        (WaitFor.WaitsFor (Holds realpath config tasks) (Waits tasks)) t u ∧
      ∀ v, ¬ WaitFor.WaitsFor (Holds realpath config tasks) (Waits tasks) u v :=
  WaitFor.exists_not_waiting (no_deadlock h) t

end

end Bus

end Evok
