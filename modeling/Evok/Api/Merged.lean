import Evok.Api.Receivers

/-!
# The messages to the receivers

A receiver has one task while it has pending states, the task sends one message at a time, and each
message has the last states of the devices since the message before it.

## Main definitions

* `Merged`: what is sent to a receiver.

## Main results

* `merged_delivery`: the messages of every run of a WebSocket client and of the webhook.
-/

namespace Evok

namespace Api

open Devices (FullState devtypeOf)

variable {β : Type}

/-- The states sent to a receiver, in the order of the messages. -/
def Receiver.sentStates (receiver : Receiver β) : List (FullState β) :=
  receiver.messages.flatMap Message.states

/-- One task and one message at a time, a task while states are pending, and the last states in their
order. -/
structure Merged (receiver : Receiver β) : Prop where
  oneTask : receiver.tasks.length ≤ 1
  oneMessage : (receiver.messages.filter (·.success.isNone)).length ≤ 1
  running : receiver.pending.items ≠ [] → receiver.tasks ≠ []
  order : ∀ device, (valuesOf deviceOf device receiver.sentStates).Sublist
    (valuesOf deviceOf device receiver.passed)
  last : receiver.tasks = [] → (∀ m ∈ receiver.messages, m.success.isSome) ∧
    ∀ device, (valuesOf deviceOf device receiver.sentStates).getLast? =
      (valuesOf deviceOf device receiver.passed).getLast?

/-! ## The invariant -/

/-- All messages have ended. -/
def Ended (messages : List (Message β)) : Prop :=
  ∀ m ∈ messages, m.success.isSome

/-- A task at the start of its loop. -/
structure Looping (receiver : Receiver β) : Prop where
  merges : Merges deviceOf receiver.pending receiver.passed receiver.sentStates
  task : ∃ place, receiver.tasks = [place]
  sendTask : receiver.sendTask = true
  ended : Ended receiver.messages

/-- The messages by the place of the task, the last one has not ended while it is sent. -/
def AtPlace (receiver : Receiver β) : SendTask → Prop
  | .created | .sleeping _ => Ended receiver.messages
  | .sending message => ∃ ended last, receiver.messages = ended ++ [last] ∧
    message = ended.length ∧ Ended ended ∧ last.success = none

/-- No task and nothing pending, or one task. -/
structure Inv (receiver : Receiver β) : Prop where
  merges : Merges deviceOf receiver.pending receiver.passed receiver.sentStates
  task : (receiver.tasks = [] ∧ receiver.sendTask = false ∧ receiver.pending.items = [] ∧
      Ended receiver.messages) ∨
    ∃ place, receiver.tasks = [place] ∧ receiver.sendTask = true ∧ AtPlace receiver place

variable {receiver : Receiver β}

theorem inv_init (filter : List String) : Inv ({ filter := filter } : Receiver β) :=
  ⟨Merges.empty _, .inl ⟨rfl, rfl, rfl, by simp [Ended]⟩⟩

/-- The only task. -/
theorem Inv.place (h : Inv receiver) {i : ℕ} {place : SendTask}
    (hplace : receiver.tasks[i]? = some place) :
    i = 0 ∧ receiver.tasks = [place] ∧ receiver.sendTask = true ∧ AtPlace receiver place := by
  rcases h.task with ⟨hnone, -⟩ | ⟨place', htasks, hsend, hat⟩
  · simp [hnone] at hplace
  · rw [htasks, List.getElem?_singleton] at hplace
    split at hplace
    · obtain rfl := Option.some.inj hplace
      exact ⟨by assumption, htasks, hsend, hat⟩
    · simp at hplace

theorem Merges.states {key : FullState β → String × Option String}
    {pending : Dict (String × Option String) (FullState β)} {passed taken : List (FullState β)}
    (h : Merges key pending passed taken) (states : List (FullState β)) :
    Merges key (states.foldl (fun pending state => pending.set (key state) state) pending)
      (passed ++ states) taken := by
  induction states generalizing pending passed with
  | nil => simpa using h
  | cons state states ih => simpa using ih (h.set state)

/-- An event starts a task unless one runs. -/
theorem Inv.onEvent (h : Inv receiver) (passes : FullState β → Bool)
    (states : List (FullState β)) : Inv (receiver.onEvent passes states) := by
  have hmerges := Merges.states h.merges (states.filter passes)
  unfold Receiver.onEvent
  dsimp only
  rcases h.task with ⟨htasks, hsend, -, hended⟩ | ⟨place, htasks, hsend, hat⟩
  · split
    · exact ⟨hmerges, .inr ⟨.created, by simp [htasks], rfl, hended⟩⟩
    · next hempty => exact ⟨hmerges, .inl ⟨htasks, hsend, by simpa [hsend] using hempty, hended⟩⟩
  · rw [if_neg (by simp [hsend])]
    refine ⟨hmerges, .inr ⟨place, htasks, hsend, ?_⟩⟩
    cases place <;> exact hat

/-- A message without the end of an earlier one. -/
theorem Looping.send (h : Looping receiver) : Inv (receiver.send 0) := by
  obtain ⟨place, htasks⟩ := h.task
  refine ⟨?_, .inr ⟨.sending receiver.messages.length, ?_, h.sendTask,
    receiver.messages, _, rfl, rfl, h.ended, rfl⟩⟩
  · have htake := h.merges.take
    simpa [Receiver.send, Receiver.goTo, Receiver.sentStates] using htake
  · simp [Receiver.send, Receiver.goTo, htasks]

theorem Looping.endTask (h : Looping receiver) (empty : receiver.pending.items = []) :
    Inv (receiver.endTask 0) := by
  obtain ⟨place, htasks⟩ := h.task
  exact ⟨h.merges, .inl ⟨by simp [Receiver.endTask, htasks], rfl, empty, h.ended⟩⟩

theorem Looping.sleep (h : Looping receiver) (wakeup : ℚ) :
    Inv (receiver.goTo 0 (.sleeping wakeup)) := by
  obtain ⟨place, htasks⟩ := h.task
  exact ⟨h.merges, .inr ⟨.sleeping wakeup, by simp [Receiver.goTo, htasks], h.sendTask, h.ended⟩⟩

/-- A task which starts or wakes up. -/
theorem Inv.looping (h : Inv receiver) {i : ℕ} {place : SendTask}
    (hplace : receiver.tasks[i]? = some place) (waits : ∀ message, place ≠ .sending message) :
    i = 0 ∧ Looping receiver := by
  obtain ⟨hi, htasks, hsend, hat⟩ := h.place hplace
  refine ⟨hi, h.merges, ⟨place, htasks⟩, hsend, ?_⟩
  cases place with
  | created | sleeping => exact hat
  | sending message => exact absurd rfl (waits message)

theorem modify_last (ended : List (Message β)) (last : Message β) (f : Message β → Message β) :
    (ended ++ [last]).modify ended.length f = ended ++ [f last] := by
  induction ended with
  | nil => rfl
  | cons m ended ih => simpa using ih

/-- The message of the task has ended, the starts of the messages stay. -/
theorem Inv.finish (h : Inv receiver) {i message : ℕ}
    (sending : receiver.tasks[i]? = some (.sending message)) (success : Bool) :
    i = 0 ∧ Looping (receiver.finish message success) ∧
      (receiver.finish message success).messages.map Message.start =
        receiver.messages.map Message.start := by
  obtain ⟨hi, htasks, hsend, ended, last, hmessages, rfl, hended, -⟩ := h.place sending
  have hfinish : (receiver.finish ended.length success).messages =
      ended ++ [{ last with success := some success }] := by
    rw [Receiver.finish, hmessages]
    exact modify_last ended last _
  refine ⟨hi, ⟨?_, ⟨_, htasks⟩, hsend, ?_⟩, ?_⟩
  · have hstates : (receiver.finish ended.length success).sentStates = receiver.sentStates := by
      simp [Receiver.sentStates, hfinish, hmessages]
    rw [hstates]
    exact h.merges
  · rw [hfinish]
    intro m hm
    rcases List.mem_append.mp hm with hm | hm
    · exact hended m hm
    · obtain rfl := List.mem_singleton.mp hm
      rfl
  · rw [hfinish, hmessages]
    simp

/-- What the invariant says of the messages. -/
theorem Inv.merged (h : Inv receiver) : Merged receiver := by
  have hnone : ∀ {messages : List (Message β)}, Ended messages →
      messages.filter (·.success.isNone) = [] := by
    intro messages hended
    refine List.filter_eq_nil_iff.mpr fun m hm => ?_
    simpa using Option.isSome_iff_ne_none.mp (hended m hm)
  refine ⟨?_, ?_, ?_, h.merges.order, ?_⟩
  · rcases h.task with ⟨htasks, -⟩ | ⟨place, htasks, -⟩ <;> simp [htasks]
  · rcases h.task with ⟨-, -, -, hended⟩ | ⟨place, -, -, hat⟩
    · simp [hnone hended]
    · cases place with
      | created | sleeping => simp [hnone hat]
      | sending message =>
        obtain ⟨ended, last, hmessages, -, hended, hlast⟩ := hat
        simp [hmessages, hnone hended, hlast]
  · intro hpending hidle
    rcases h.task with ⟨-, -, hempty, -⟩ | ⟨place, htasks, -⟩
    · exact hpending hempty
    · simp [hidle] at htasks
  · intro hidle
    rcases h.task with ⟨-, -, hempty, hended⟩ | ⟨place, htasks, -⟩
    · refine ⟨hended, fun device => (h.merges.settled device ?_).2⟩
      refine Option.eq_none_iff_forall_not_mem.mpr fun state hstate => ?_
      have hmem := Dict.mem_items.mpr hstate
      simp [hempty] at hmem
    · simp [hidle] at htasks

/-! ## A WebSocket client -/

namespace WsHandler

theorem loop_keeps (h : Looping receiver) : Inv (loop receiver 0) := by
  unfold loop
  split
  · next hempty => exact h.endTask (by simpa using hempty)
  · exact h.send

/-- The writes of an opened connection succeed. -/
def Written (receiver : Receiver β) : Prop :=
  ∀ m ∈ receiver.messages, m.success ≠ some false

theorem Written.loop (h : Written receiver) (i : ℕ) : Written (loop receiver i) := by
  unfold WsHandler.loop
  split
  · exact h
  · intro m hm
    rcases List.mem_append.mp hm with hold | hnew
    · exact h m hold
    · obtain rfl := List.mem_singleton.mp hnew
      simp

theorem Written.finish (h : Written receiver) (message : ℕ) :
    Written (receiver.finish message true) := by
  intro m hm
  obtain ⟨i, hi⟩ := List.mem_iff_getElem?.mp hm
  simp only [Receiver.finish, List.getElem?_modify] at hi
  obtain ⟨old, hold, rfl⟩ := Option.map_eq_some_iff.mp hi
  split
  · simp
  · exact h old (List.mem_of_getElem? hold)

theorem Step.keeps {receiver' : Receiver β} (hstep : Step receiver receiver')
    (h : Inv receiver ∧ Written receiver) : Inv receiver' ∧ Written receiver' := by
  obtain ⟨hinv, hwritten⟩ := h
  cases hstep with
  | event states =>
    refine ⟨hinv.onEvent _ states, ?_⟩
    unfold Receiver.onEvent
    dsimp only
    split <;> exact hwritten
  | filter filter =>
    refine ⟨⟨hinv.merges, ?_⟩, hwritten⟩
    rcases hinv.task with hidle | ⟨place, htasks, hsend, hat⟩
    · exact .inl hidle
    · exact .inr ⟨place, htasks, hsend, by cases place <;> exact hat⟩
  | start created =>
    obtain ⟨rfl, hlooping⟩ := hinv.looping created (by simp)
    exact ⟨loop_keeps hlooping, hwritten.loop 0⟩
  | sent sending =>
    obtain ⟨rfl, hlooping, -⟩ := hinv.finish sending true
    exact ⟨loop_keeps hlooping, (hwritten.finish _).loop 0⟩

/-- The messages to a client: all of them are written when it becomes idle. -/
theorem merged (h : Reachable receiver) :
    Merged receiver ∧ (receiver.tasks = [] → ∀ m ∈ receiver.messages, m.success = some true) := by
  have hkeeps : Inv receiver ∧ Written receiver := by
    induction h with
    | refl => exact ⟨inv_init _, by simp [Written]⟩
    | tail _ hstep ih => exact hstep.keeps ih
  have hmerged := hkeeps.1.merged
  refine ⟨hmerged, fun hidle m hm => ?_⟩
  have hsome := (hmerged.last hidle).1 m hm
  have hfalse := hkeeps.2 m hm
  revert hsome hfalse
  rcases m.success with _ | _ | _ <;> simp

end WsHandler

/-! ## The webhook -/

namespace WhHandler

variable {minInterval : ℚ} {allowedTypes : List String}

/-- The starts of the requests. -/
def starts (receiver : Receiver β) : List ℚ :=
  receiver.messages.map Message.start

/-- The requests are apart, and the wait of the task ends after the interval. -/
structure Timed (minInterval : ℚ) (receiver : Receiver β) : Prop where
  last : receiver.lastSent = (starts receiver).getLast?
  apart : (starts receiver).Pairwise fun a b => a + minInterval ≤ b
  past : ∀ start, (starts receiver).getLast? = some start → start ≤ receiver.now
  wakeup : ∀ wakeup ∈ receiver.tasks.filterMap fun
      | .sleeping wakeup => some wakeup
      | _ => none,
    ∀ start, receiver.lastSent = some start → start + minInterval ≤ wakeup

/-- A request after the interval. -/
theorem Timed.fetch (h : Timed minInterval receiver) (hlooping : Looping receiver)
    (waited : ∀ start, receiver.lastSent = some start → start + minInterval ≤ receiver.now) :
    Timed minInterval (fetch receiver 0) := by
  obtain ⟨place, htasks⟩ := hlooping.task
  have hstarts : starts (WhHandler.fetch receiver 0) = starts receiver ++ [receiver.now] := by
    simp [starts, WhHandler.fetch, Receiver.send, Receiver.goTo]
  refine ⟨?_, ?_, ?_, ?_⟩
  · rw [hstarts, List.getLast?_concat]
    rfl
  · rw [hstarts]
    refine List.pairwise_append.mpr ⟨h.apart, List.pairwise_singleton _ _, ?_⟩
    intro start hstart now hnow
    obtain rfl := List.mem_singleton.mp hnow
    -- the last request is the latest one
    rcases List.eq_nil_or_concat (starts receiver) with hnil | ⟨earlier, last, hconcat⟩
    · simp [hnil] at hstart
    · rw [List.concat_eq_append] at hconcat
      have hlast : receiver.lastSent = some last := by rw [h.last, hconcat, List.getLast?_concat]
      rw [hconcat] at hstart
      rcases List.mem_append.mp hstart with hearlier | hlast'
      · have hapart := h.apart
        rw [hconcat] at hapart
        have hbefore := (List.pairwise_append.mp hapart).2.2 start hearlier last (by simp)
        have hpast := h.past last (by rw [hconcat, List.getLast?_concat])
        exact hbefore.trans hpast
      · obtain rfl := List.mem_singleton.mp hlast'
        exact waited start hlast
  · rw [hstarts, List.getLast?_concat]
    rintro start hstart
    obtain rfl := Option.some.inj hstart
    exact le_refl _
  · simp [WhHandler.fetch, Receiver.send, Receiver.goTo, htasks]

theorem loop_keeps (hlooping : Looping receiver) (h : Timed minInterval receiver) :
    Inv (loop minInterval receiver 0) ∧ Timed minInterval (loop minInterval receiver 0) := by
  obtain ⟨place, htasks⟩ := hlooping.task
  unfold loop
  split
  · next hempty =>
    refine ⟨hlooping.endTask (by simpa using hempty), h.last, h.apart, h.past, ?_⟩
    simp [Receiver.endTask, htasks]
  · cases hlast : receiver.lastSent with
    | some lastSent =>
      refine ⟨hlooping.sleep _, h.last, h.apart, h.past, ?_⟩
      intro wakeup hwakeup start hstart
      obtain rfl : lastSent = start := Option.some.inj (hlast.symm.trans hstart)
      obtain rfl : receiver.now + max 0 (lastSent + minInterval - receiver.now) = wakeup := by
        simpa [Receiver.goTo, htasks, eq_comm] using hwakeup
      have hmax := le_max_right 0 (lastSent + minInterval - receiver.now)
      exact sub_le_iff_le_add'.mp hmax
    | none =>
      have hlooping' : Looping { receiver with lastSent := some receiver.now } :=
        ⟨hlooping.merges, hlooping.task, hlooping.sendTask, hlooping.ended⟩
      exact ⟨hlooping'.send, h.fetch hlooping fun start hstart => by simp [hlast] at hstart⟩

theorem Step.keeps {receiver' : Receiver β} (hstep : Step minInterval receiver receiver')
    (h : Inv receiver ∧ Timed minInterval receiver) :
    Inv receiver' ∧ Timed minInterval receiver' := by
  obtain ⟨hinv, htimed⟩ := h
  cases hstep with
  | event states =>
    refine ⟨hinv.onEvent _ states, ?_⟩
    unfold Receiver.onEvent
    dsimp only
    split
    · refine ⟨htimed.last, htimed.apart, htimed.past, fun wakeup hwakeup => ?_⟩
      refine htimed.wakeup wakeup ?_
      simpa using hwakeup
    · exact ⟨htimed.last, htimed.apart, htimed.past, htimed.wakeup⟩
  | tick later =>
    refine ⟨⟨hinv.merges, ?_⟩, htimed.last, htimed.apart, fun start hstart => ?_, htimed.wakeup⟩
    · rcases hinv.task with hidle | ⟨place, htasks, hsend, hat⟩
      · exact .inl hidle
      · exact .inr ⟨place, htasks, hsend, by cases place <;> exact hat⟩
    · exact (htimed.past start hstart).trans later
  | start created =>
    obtain ⟨rfl, hlooping⟩ := hinv.looping created (by simp)
    exact loop_keeps hlooping htimed
  | @awake i wakeup sleeping passed =>
    obtain ⟨rfl, hlooping⟩ := hinv.looping sleeping (by simp)
    have hlooping' : Looping { receiver with lastSent := some receiver.now } :=
      ⟨hlooping.merges, hlooping.task, hlooping.sendTask, hlooping.ended⟩
    refine ⟨hlooping'.send, htimed.fetch hlooping fun start hstart => ?_⟩
    refine (htimed.wakeup wakeup ?_ start hstart).trans passed
    exact List.mem_filterMap.mpr ⟨_, List.mem_of_getElem? sleeping, rfl⟩
  | @done i message success sending =>
    obtain ⟨rfl, hlooping, hstarts⟩ := hinv.finish sending success
    have hstarts : starts (receiver.finish message success) = starts receiver := hstarts
    refine loop_keeps hlooping ⟨?_, ?_, ?_, htimed.wakeup⟩
    · rw [hstarts]
      exact htimed.last
    · rw [hstarts]
      exact htimed.apart
    · rw [hstarts]
      exact htimed.past

/-- The requests to the webhook: their starts are apart by the interval. -/
theorem merged (h : Reachable minInterval allowedTypes receiver) :
    Merged receiver ∧ (starts receiver).Pairwise fun a b => a + minInterval ≤ b := by
  have hkeeps : Inv receiver ∧ Timed minInterval receiver := by
    induction h with
    | refl => exact ⟨inv_init _, rfl, .nil, by simp [starts], by simp⟩
    | tail _ hstep ih => exact hstep.keeps ih
  exact ⟨hkeeps.1.merged, hkeeps.2.apart⟩

end WhHandler

/-- Every run of a client and of the webhook sends merged messages; the messages to an idle client
are written, the requests to the webhook start apart. -/
theorem merged_delivery (minInterval : ℚ) (allowedTypes : List String) :
    (∀ client : Receiver β, WsHandler.Reachable client → Merged client ∧
      (client.tasks = [] → ∀ m ∈ client.messages, m.success = some true)) ∧
    ∀ webhook : Receiver β, WhHandler.Reachable minInterval allowedTypes webhook →
      Merged webhook ∧
        (webhook.messages.map Message.start).Pairwise fun a b => a + minInterval ≤ b :=
  ⟨fun _ h => WsHandler.merged h, fun _ h => WhHandler.merged h⟩

/-- An input is switched on and off, the second change comes during the message of the first. -/
theorem merged_delivery_input :
    let on : FullState Bool := { dev := "di", circuit := some "1_01", body := true }
    let off : FullState Bool := { dev := "di", circuit := some "1_01", body := false }
    (∃ client : Receiver Bool, (client.sentStates = [on, off] ∧ client.tasks = []) ∧
      Merged client ∧ (client.tasks = [] → ∀ m ∈ client.messages, m.success = some true)) ∧
    ∃ webhook : Receiver Bool, (webhook.messages.map Message.start = [0, 1] ∧ webhook.tasks = []) ∧
      Merged webhook ∧
        (webhook.messages.map Message.start).Pairwise fun a b => a + 1 ≤ b := by
  intro on off
  constructor
  · let client : Receiver Bool := { filter := ["default"] }
    let switched := client.onEvent (WsHandler.passes ["default"]) [on]
    let sending := (WsHandler.loop switched 0).onEvent (WsHandler.passes ["default"]) [off]
    let again := WsHandler.loop (sending.finish 0 true) 0
    have hcreated : switched.tasks[0]? = some .created := by decide +kernel
    have hsending : sending.tasks[0]? = some (.sending 0) := by decide +kernel
    have hagain : again.tasks[0]? = some (.sending 1) := by decide +kernel
    have hreach : WsHandler.Reachable (WsHandler.loop (again.finish 1 true) 0) :=
      .head (.event [on]) <| .head (.start hcreated) <| .head (.event [off]) <|
      .head (.sent hsending) <| .single (.sent hagain)
    exact ⟨_, ⟨by decide +kernel, by decide +kernel⟩, (merged_delivery 1 ["di"]).1 _ hreach⟩
  · let webhook : Receiver Bool := { filter := ["di"] }
    let switched := webhook.onEvent (WhHandler.passes ["di"]) [on]
    let sending := (WhHandler.loop 1 switched 0).onEvent (WhHandler.passes ["di"]) [off]
    let sleeping := { WhHandler.loop 1 (sending.finish 0 false) 0 with now := 1 }
    let again := WhHandler.fetch sleeping 0
    have hcreated : switched.tasks[0]? = some .created := by decide +kernel
    have hsending : sending.tasks[0]? = some (.sending 0) := by decide +kernel
    have hsleeping : sleeping.tasks[0]? = some (.sleeping 1) := by decide +kernel
    have hagain : again.tasks[0]? = some (.sending 1) := by decide +kernel
    have hlater : (WhHandler.loop 1 (sending.finish 0 false) 0).now ≤ 1 := by decide +kernel
    have hreach : WhHandler.Reachable 1 ["di"] (WhHandler.loop 1 (again.finish 1 true) 0) :=
      .head (.event [on]) <| .head (.start hcreated) <| .head (.event [off]) <|
      .head (.done false hsending) <| .head (.tick hlater) <|
      .head (.awake hsleeping (le_refl _)) <| .single (.done true hagain)
    exact ⟨_, ⟨by decide +kernel, by decide +kernel⟩, (merged_delivery 1 ["di"]).2 _ hreach⟩

end Api

end Evok
