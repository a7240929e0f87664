import Evok.Modbus.Client
import Evok.Library.Run

/-!
# Pins of written registers

The changes, the scans and the clock of one unit with the periodic scan, as a step relation. A
block is read by one request, a read of the cache is a sequence of such steps. While a change
writes, the session of the unit on its bus keeps the reads of the scan out after the first
request of the change. The unit may return anything.

## Main definitions

* `Change.Step`: one step of the unit.
* `Change.Event.writes`: the step has written a pinned register.
* `Change.Event.touches`: the step writes a register again or clears its pin.

## Main results

* `Change.written_value_kept_iff`: a written value is kept until `rereadDelay` after the writes
  of its change if and only if the change records its writes.
-/

namespace Evok

namespace Modbus

namespace Change

/-- A running `PwmFrequency._write`. -/
structure PwmWrite where
  registers : List (Nat × Word)
  done : List (Nat × List Word)
  todo : List (Nat × List Word)

inductive Phase
  | idle
  /-- The operation of a change; a request of it was sent, it writes a PWM frequency. -/
  | writing (requested : Bool) (pwm : Option PwmWrite)
  /-- The reads after the writes. -/
  | reading

structure State where
  client : Client
  now : Time
  phase : Phase := .idle

inductive Event
  | tick (now : Time)
  | begin (devices : Bool)
  /-- A write of a coil, or a failed request. -/
  | request
  /-- `write_registers` with `pin` or without it. -/
  | write (index : Nat) (values : List Word) (pin : Bool)
  /-- The read of a read-modify-write. -/
  | modify (index : Nat) (response : List Word)
  | beginPwm (registers : List (Nat × Word))
  | writePwm
  | failPwm
  | endPwm (registers : List (Nat × Word))
  /-- `write_coil_without_response`. -/
  | restart
  | endWrites (now : Time)
  | endChange
  | readBlock (isInput : Bool) (address : Nat) (response : List Word)
  | getRegisterAsync (isInput : Bool) (index : Nat) (response : List Word)

/-- The step has written a register with a pin. -/
def Event.writes (a : Nat) (value : Word) : Event → Prop
  | write index values true => block (index, values) a = some value
  | endPwm registers => lastValue registers a = some value
  | _ => False

/-- The step writes the register, reads it for a write, drops its pin or clears the pins. -/
def Event.touches (a : Nat) : Event → Prop
  | write index values _ => (block (index, values) a).isSome
  | modify index response => (block (index, response) a).isSome
  | beginPwm registers | endPwm registers => (lastValue registers a).isSome
  | restart => True
  | _ => False

/-- The step processes a read of the register. -/
def Event.reads (a : Nat) (value : Word) : Event → Prop
  | readBlock false address response => block (address, response) a = some value
  | getRegisterAsync false index response => block (index, response) a = some value
  | modify index response => block (index, response) a = some value
  | _ => False

/-- The operation of a change sends requests, the session keeps the scan out. -/
def Phase.exclusive : Phase → Bool
  | .writing requested _ => requested
  | _ => false

/-- Read one block from the unit. -/
def readBlock (c : ModbusCacheMap) (now : Time) (isInput : Bool) (address : Nat)
    (response : List Word) : ModbusCacheMap :=
  c.mapGroups isInput fun g =>
    if g.address = address then g.update now address response true else g

namespace State

def withCache (s : State) (cache : ModbusCacheMap) : State :=
  { s with client := { s.client with cache } }

end State

inductive Step : State → Event → State → Prop
  | tick {s : State} {now : Time} (later : s.now ≤ now) : Step s (.tick now) { s with now }
  | begin {s : State} {devices : Bool} (idle : s.phase = .idle) :
      Step s (.begin devices)
        { s with
          client := { s.client with written := if devices then some [] else none }
          phase := .writing false none }
  | request {s : State} {requested : Bool} (writing : s.phase = .writing requested none) :
      Step s .request { s with phase := .writing true none }
  | write {s : State} {requested : Bool} {index : Nat} {values : List Word} {pin : Bool}
      (writing : s.phase = .writing requested none) :
      Step s (.write index values pin)
        { s with
          client := s.client.writeRegisters s.now index values true pin
          phase := .writing true none }
  | modify {s : State} {requested : Bool} {index : Nat} {response : List Word}
      (writing : s.phase = .writing requested none) :
      Step s (.modify index response)
        { s.withCache (s.client.cache.setRegister s.now index response false true) with
          phase := .writing true none }
  | beginPwm {s : State} {requested : Bool} {registers : List (Nat × Word)}
      (writing : s.phase = .writing requested none) :
      Step s (.beginPwm registers)
        { s with phase := .writing requested (some ⟨registers, [], runs registers⟩) }
  | writePwm {s : State} {requested : Bool} {registers : List (Nat × Word)}
      {done todo : List (Nat × List Word)} {run : Nat × List Word}
      (writing : s.phase = .writing requested (some ⟨registers, done, run :: todo⟩)) :
      Step s .writePwm
        { s with
          client := s.client.writeRegisters s.now run.1 run.2 false true
          phase := .writing true (some ⟨registers, done ++ [run], todo⟩) }
  | failPwm {s : State} {requested : Bool} {pwm : PwmWrite}
      (writing : s.phase = .writing requested (some pwm)) :
      Step s .failPwm { s with phase := .writing true none }
  | endPwm {s : State} {requested : Bool} {registers : List (Nat × Word)}
      {done : List (Nat × List Word)}
      (writing : s.phase = .writing requested (some ⟨registers, done, []⟩)) :
      Step s (.endPwm registers)
        { s.withCache (registers.foldl
            (fun c register => c.setRegister s.now register.1 [register.2]) s.client.cache) with
          phase := .writing requested none }
  | restart {s : State} {requested : Bool} (writing : s.phase = .writing requested none) :
      Step s .restart { s with client := s.client.restarted, phase := .writing true none }
  | endWrites {s : State} {requested : Bool} {pwm : Option PwmWrite}
      (writing : s.phase = .writing requested pwm) :
      Step s (.endWrites s.now) { s with client := s.client.endWrites s.now, phase := .reading }
  | endChange {s : State} (reading : s.phase = .reading) :
      Step s .endChange { s with phase := .idle }
  | readBlock {s : State} {isInput : Bool} {g : RegisterGroup} {response : List Word}
      (free : s.phase.exclusive = false) (group : g ∈ s.client.cache.groupsOf isInput)
      (complete : response.length = g.count) :
      Step s (.readBlock isInput g.address response)
        (s.withCache (readBlock s.client.cache s.now isInput g.address response))
  | getRegisterAsync {s : State} {isInput : Bool} {index : Nat} {response : List Word}
      (free : s.phase.exclusive = false) :
      Step s (.getRegisterAsync isInput index response)
        (s.withCache (s.client.cache.setRegister s.now index response isInput true))

/-- A unit with the periodic scan before its first change. -/
def Init (s : State) : Prop :=
  (∃ blocks, ModbusCacheMap.ofBlocks blocks = .ok s.client.cache) ∧
    s.client.periodicScan = true ∧ s.phase = .idle

abbrev Run := Transition.Run Step

abbrev Reachable := Transition.Reachable Step Init

def Event.endTime : Event → Option Time
  | .endWrites now => some now
  | _ => none

/-- The end of the writes of the change that runs at the start of the steps. -/
def endTime (es : List Event) : Option Time :=
  es.findSome? (·.endTime)

/-- The cache returns the value until `rereadDelay` after the writes of the running change, unless
the register is written again or the pins are cleared. -/
def KeptUntilReread (a : Nat) (value : Word) (s : State) : Prop :=
  ∀ es s', Run s es s' → (∀ e ∈ es, ¬e.touches a) →
    (∀ t, endTime es = some t → s'.now < t + rereadDelay) →
    s'.client.cache.getRegister a = .ok [value]

/-- The pin of the register has expired. -/
def Expired (a : Nat) (s : State) : Prop :=
  ∃ g ∈ s.client.cache.groups, g.isMember a ∧ ∃ pin, g.pins a = some pin ∧ pin.keptUntil ≤ s.now

/-- A read of the register after its pin has expired replaces the value and drops the pin. -/
def ReplacedByReads (a : Nat) (s : State) : Prop :=
  Expired a s → ∀ e s' value, Step s e s' → e.reads a value →
    s'.client.cache.getRegister a = .ok [value] ∧
      ∀ g ∈ s'.client.cache.groups, g.isMember a → g.pins a = none

/-- The register is inside a block. -/
def InBlock (a : Nat) (s : State) : Prop :=
  ∃ g ∈ s.client.cache.groups, g.isMember a

/-! ## Invariants of the unit -/

@[simp] theorem withCache_cache (s : State) (cache : ModbusCacheMap) :
    (s.withCache cache).client.cache = cache :=
  rfl

@[simp] theorem withCache_periodicScan (s : State) (cache : ModbusCacheMap) :
    (s.withCache cache).client.periodicScan = s.client.periodicScan :=
  rfl

@[simp] theorem withCache_written (s : State) (cache : ModbusCacheMap) :
    (s.withCache cache).client.written = s.client.written :=
  rfl

@[simp] theorem withCache_phase (s : State) (cache : ModbusCacheMap) :
    (s.withCache cache).phase = s.phase :=
  rfl

@[simp] theorem withCache_now (s : State) (cache : ModbusCacheMap) :
    (s.withCache cache).now = s.now :=
  rfl

theorem readBlock_same (c : ModbusCacheMap) (now : Time) (isInput : Bool) (address : Nat)
    (response : List Word) : c.Same (readBlock c now isInput address response) := by
  refine ModbusCacheMap.mapGroups_same (fun g => ?_) c isInput
  split
  · exact g.update_same _ _ _ _
  · rfl

/-- No step changes the registers of the blocks. -/
theorem Step.same {s s' : State} {e : Event} (hs : Step s e s') :
    s.client.cache.Same s'.client.cache := by
  cases hs with
  | tick | begin | request | beginPwm | failPwm | endChange => rfl
  | write => exact Client.writeRegisters_same _ _ _ _ _ _
  | writePwm => exact Client.writeRegisters_same _ _ _ _ _ _
  | modify => exact ModbusCacheMap.setRegister_same _ _ _ _ _ _
  | getRegisterAsync => exact ModbusCacheMap.setRegister_same _ _ _ _ _ _
  | endPwm =>
    rw [withCache_cache, ModbusCacheMap.setRegisters_eq]
    exact ModbusCacheMap.mapGroups_same (RegisterGroup.storeAll_same · _) _ _
  | restart => exact ModbusCacheMap.clearPins_same _
  | endWrites =>
    simp only [Client.endWrites]
    split
    · exact ModbusCacheMap.renewPins_same _ _ _
    · rfl
  | readBlock => exact readBlock_same _ _ _ _ _

theorem Step.periodic {s s' : State} {e : Event} (hs : Step s e s') :
    s'.client.periodicScan = s.client.periodicScan := by
  cases hs with
  | endWrites =>
    simp only [Client.endWrites]
    split <;> rfl
  | _ => rfl

theorem Step.now_le {s s' : State} {e : Event} (hs : Step s e s') : s.now ≤ s'.now := by
  cases hs with
  | tick later => exact later
  | _ => exact le_refl _

/-- The blocks of the register have a pin with the value, a running change recorded it. -/
structure Pinned (s : State) (a : Nat) (value : Word) : Prop where
  pin : ∀ g ∈ s.client.cache.groups, g.isMember a → ∃ pin, g.pins a = some pin ∧ pin.value = value
  recorded : ∀ ws, s.client.written = some ws → (a, false) ∈ ws

/-- The pins of the holding registers expire in `rereadDelay`. -/
def Bounded (c : ModbusCacheMap) (now : Time) : Prop :=
  ∀ g ∈ c.groups, ∀ a, g.isMember a → ∀ pin, g.pins a = some pin → pin.keptUntil ≤ now + rereadDelay

/-- What holds of the unit, and of the requests of a running `PwmFrequency._write`. -/
structure Inv (s : State) : Prop where
  wf : s.client.cache.WF
  periodic : s.client.periodicScan = true
  bounded : Bounded s.client.cache s.now
  requests : ∀ {requested pwm}, s.phase = .writing requested (some pwm) →
    pwm.done ++ pwm.todo = runs pwm.registers
  exclusive : ∀ {requested pwm}, s.phase = .writing requested (some pwm) → requested = false →
    pwm.done = []
  pinned : ∀ {requested pwm a value}, s.phase = .writing requested (some pwm) →
    Overlay.overlay (pwm.done.map block) a = some value → Pinned s a value

theorem inv_init {s : State} (h : Init s) : Inv s := by
  obtain ⟨⟨blocks, made⟩, periodic, idle⟩ := h
  refine ⟨ModbusCacheMap.ofBlocks_wf made, periodic, ?_, ?_, ?_, ?_⟩
  · intro g hg a _ pin hpin
    simp [ModbusCacheMap.ofBlocks_pins made false g hg] at hpin
  all_goals simp [idle]

/-- A write of a pinned register pins its blocks to the value. -/
theorem pins_writeRegisters {c : Client} (periodic : c.periodicScan = true) (now : Time)
    (index : Nat) (values : List Word) (cache : Bool) {g' : RegisterGroup} {a : Nat}
    (hg' : g' ∈ (c.writeRegisters now index values cache true).cache.groups)
    (member : g'.isMember a) :
    ∃ g ∈ c.cache.groups, g.isMember a ∧ g'.pins a =
      ((block (index, values) a).map fun value => ⟨value, now + rereadDelay⟩).or (g.pins a) := by
  rw [Client.writeRegisters_pinned periodic, ModbusCacheMap.mapGroups_false_groups] at hg'
  obtain ⟨g, hg, rfl⟩ := List.mem_map.mp hg'
  have same : g.Same (if cache then g.store index values else g) := by
    split
    · exact g.store_same _ _
    · rfl
  rw [(RegisterGroup.pinAll_same _ _ _ _).isMember] at member
  refine ⟨g, hg, by rwa [← same.isMember], ?_⟩
  rw [RegisterGroup.pins_pinAll_block _ _ _ member]
  split <;> simp

theorem Pinned.writeRegisters {s : State} {a : Nat} {value : Word} {phase : Phase}
    (periodic : s.client.periodicScan = true) (index : Nat) (values : List Word) (cache : Bool)
    (h : block (index, values) a = some value ∨
      block (index, values) a = none ∧ Pinned s a value) :
    Pinned { s with client := s.client.writeRegisters s.now index values cache true, phase }
      a value where
  pin g' hg' member := by
    obtain ⟨g, hg, ha, pins⟩ := pins_writeRegisters periodic s.now index values cache hg' member
    rcases h with new | ⟨old, pinned⟩
    · exact ⟨_, by rw [pins, new]; rfl, rfl⟩
    · obtain ⟨pin, hpin, eq⟩ := pinned.pin g hg ha
      exact ⟨pin, by rw [pins, old]; exact hpin, eq⟩
  recorded ws hws := by
    cases written : s.client.written with
    | none => simp [Client.writeRegisters, written] at hws
    | some ws₀ =>
      obtain ⟨ws', eq, kept, new⟩ :=
        Client.mem_written_writeRegisters written s.now index values cache true
      obtain rfl : ws' = ws := Option.some.inj (eq.symm.trans hws)
      rcases h with h | ⟨-, pinned⟩
      · exact new a (by simp [h])
      · exact kept (pinned.recorded ws₀ written)

/-- The pins are bounded when the change of each block bounds its pins. -/
theorem Bounded.mapGroups {c : ModbusCacheMap} {now : Time} (h : Bounded c now)
    {f : RegisterGroup → RegisterGroup} (same : ∀ g : RegisterGroup, g.Same (f g))
    (step : ∀ g : RegisterGroup, ∀ a, g.isMember a → ∀ pin, (f g).pins a = some pin →
      pin.keptUntil ≤ now + rereadDelay ∨ g.pins a = some pin) :
    Bounded (c.mapGroups false f) now := by
  intro g' hg' a member pin hpin
  rw [ModbusCacheMap.mapGroups_false_groups] at hg'
  obtain ⟨g, hg, rfl⟩ := List.mem_map.mp hg'
  rw [(same g).isMember] at member
  exact (step g a member pin hpin).elim id (h g hg a member pin)

/-- A read pins nothing. -/
theorem pins_of_update {g : RegisterGroup} {now : Time} {start : Nat} {values : List Word}
    {a : Nat} {pin : Pin} (h : (g.update now start values true).pins a = some pin) :
    g.pins a = some pin := by
  rw [g.pins_update] at h
  exact Option.mem_filter_iff.mp h |>.1

theorem Bounded.update {c : ModbusCacheMap} {now : Time} (h : Bounded c now) (isInput : Bool)
    (start : RegisterGroup → Nat) (values : List Word) (p : RegisterGroup → Prop)
    [DecidablePred p] :
    Bounded (c.mapGroups isInput fun g =>
      if p g then g.update now (start g) values true else g) now := by
  cases isInput with
  | true => exact h
  | false =>
    refine h.mapGroups (fun g => ?_) fun g a _ pin hpin => .inr ?_
    · split
      · exact g.update_same _ _ _ _
      · rfl
    · split at hpin
      · exact pins_of_update hpin
      · exact hpin

theorem Bounded.writeRegisters {c : Client} {now : Time} (h : Bounded c.cache now)
    (periodic : c.periodicScan = true) (index : Nat) (values : List Word) (cache : Bool) :
    Bounded (c.writeRegisters now index values cache true).cache now := by
  intro g' hg' a member pin hpin
  obtain ⟨g, hg, ha, pins⟩ := pins_writeRegisters periodic now index values cache hg' member
  rw [pins] at hpin
  cases covered : block (index, values) a with
  | some value =>
    obtain rfl : (⟨value, now + rereadDelay⟩ : Pin) = pin := by simpa [covered] using hpin
    exact le_refl _
  | none => exact h g hg a ha pin (by simpa [covered] using hpin)

theorem Bounded.mono {c : ModbusCacheMap} {now now' : Time} (h : Bounded c now)
    (later : now ≤ now') : Bounded c now' := by
  intro g hg a member pin hpin
  have := h g hg a member pin hpin
  linarith

theorem Bounded.step {s s' : State} {e : Event} (inv : Inv s) (hs : Step s e s') :
    Bounded s'.client.cache s'.now := by
  have h := inv.bounded
  cases hs with
  | tick later => exact h.mono later
  | begin | request | beginPwm | failPwm | endChange => exact h
  | @write requested index values pin =>
    cases pin with
    | true => exact h.writeRegisters inv.periodic _ _ _
    | false =>
      rw [Client.writeRegisters_unpinned]
      refine h.mapGroups (fun g => (g.store_same _ _).trans (RegisterGroup.unpin_same _ _ _))
        fun g a _ pin hpin => .inr ?_
      simp only [RegisterGroup.unpin, RegisterGroup.store_pins] at hpin
      split at hpin
      · cases hpin
      · exact hpin
  | writePwm => exact h.writeRegisters inv.periodic _ _ _
  | @modify _ index response =>
    simpa [ModbusCacheMap.setRegister] using
      h.update false (fun _ => index) response fun _ => True
  | @getRegisterAsync isInput index response =>
    simpa [ModbusCacheMap.setRegister] using
      h.update isInput (fun _ => index) response fun _ => True
  | @readBlock isInput g response =>
    exact h.update isInput (fun _ => g.address) response (·.address = g.address)
  | endPwm =>
    rw [withCache_cache, ModbusCacheMap.setRegisters_eq]
    exact h.mapGroups (RegisterGroup.storeAll_same · _) fun g a _ pin hpin => .inr (by simpa using hpin)
  | restart =>
    simp only [Client.restarted, ModbusCacheMap.clearPins]
    refine Bounded.mapGroups h RegisterGroup.clearPins_same fun g a _ pin hpin => ?_
    simp [RegisterGroup.clearPins] at hpin
  | endWrites =>
    simp only [Client.endWrites]
    split
    · refine Bounded.mapGroups h (RegisterGroup.renewPins_same · _ _ _) fun g a _ pin hpin => ?_
      simp only [RegisterGroup.renewPins, Option.map_eq_some_iff] at hpin
      obtain ⟨old, hold, rfl⟩ := hpin
      split
      · exact .inl (le_refl _)
      · exact .inr hold
    · exact h

theorem Inv.step {s s' : State} {e : Event} (inv : Inv s) (hs : Step s e s') : Inv s' := by
  have wf := hs.same.wf inv.wf
  have periodic := hs.periodic.trans inv.periodic
  have bounded := Bounded.step inv hs
  cases hs with
  | tick =>
    refine ⟨wf, periodic, bounded, inv.requests, inv.exclusive, fun writing found => ?_⟩
    obtain ⟨pin, recorded⟩ := inv.pinned writing found
    exact ⟨pin, recorded⟩
  | beginPwm writing =>
    refine ⟨wf, periodic, bounded, by simp, by simp, ?_⟩
    rintro requested pwm a value ⟨⟩ found
    simp at found
  | @writePwm _ registers done todo run writing =>
    refine ⟨wf, periodic, bounded, ?_, ?_, ?_⟩
    · rintro requested pwm ⟨⟩
      simpa using inv.requests writing
    · simp
    · rintro requested pwm a value ⟨⟩ found
      apply Pinned.writeRegisters inv.periodic
      rw [List.map_append, Overlay.overlay_append] at found
      cases h : block run a with
      | some new => simpa [h] using found
      | none => exact .inr ⟨rfl, inv.pinned writing (by simpa [h] using found)⟩
  | readBlock free | getRegisterAsync free =>
    refine ⟨wf, periodic, bounded, inv.requests, inv.exclusive, fun {requested pwm a value} writing found => ?_⟩
    rw [withCache_phase] at writing
    have idle : requested = false := by simpa [Phase.exclusive, writing] using free
    simp [inv.exclusive writing idle] at found
  | _ => refine ⟨wf, periodic, bounded, ?_, ?_, ?_⟩ <;> simp

theorem Reachable.inv {s : State} (h : Reachable s) : Inv s :=
  h.invariant (I := Inv) (fun _ => inv_init) fun _ _ _ => Inv.step

/-! ## A kept value -/

/-- The block has the value pinned; the pin is kept for `rereadDelay` after the end of the writes
of its change. -/
structure Keeps (a : Nat) (value : Word) (ended : Option Time) (g : RegisterGroup) : Prop where
  cached : g.value a = some value
  pin : ∃ pin, g.pins a = some pin ∧ pin.value = value ∧
    ∀ t, ended = some t → t + rereadDelay ≤ pin.keptUntil

section Keeps

variable {a : Nat} {value : Word} {ended : Option Time} {g : RegisterGroup}

theorem Keeps.store (wf : g.WF) (member : g.isMember a) (h : Keeps a value ended g) {index : Nat}
    {values : List Word} (apart : block (index, values) a = none) :
    Keeps a value ended (g.store index values) where
  cached := by
    rw [g.value_store_block wf index values member, apart]
    exact h.cached
  pin := by simpa using h.pin

theorem Keeps.pinAll (member : g.isMember a) (h : Keeps a value ended g) {index : Nat}
    {values : List Word} (apart : block (index, values) a = none) (keptUntil : Time) :
    Keeps a value ended (g.pinAll keptUntil index values) where
  cached := by simpa using h.cached
  pin := by simpa [RegisterGroup.pins_pinAll_block _ _ _ member, apart] using h.pin

theorem Keeps.unpin (h : Keeps a value ended g) {index : Nat} {values : List Word}
    (apart : block (index, values) a = none) :
    Keeps a value ended (g.unpin index values.length) where
  cached := h.cached
  pin := by
    have : ¬(index ≤ a ∧ a < index + values.length) := by
      rw [← block_isSome, apart]
      simp
    simpa [RegisterGroup.unpin, this] using h.pin

theorem Keeps.storeAll (wf : g.WF) (member : g.isMember a) (h : Keeps a value ended g)
    {registers : List (Nat × Word)} (apart : lastValue registers a = none) :
    Keeps a value ended (g.storeAll registers) where
  cached := by
    rw [g.value_storeAll wf registers member, apart]
    exact h.cached
  pin := by simpa using h.pin

theorem Keeps.renewPins (h : Keeps a value ended g) {now : Time}
    (later : ∀ t, ended = some t → t ≤ now) (registers : List (Nat × Bool)) :
    Keeps a value ended (g.renewPins false registers (now + rereadDelay)) where
  cached := h.cached
  pin := by
    obtain ⟨pin, hpin, eq, kept⟩ := h.pin
    refine ⟨if (a, false) ∈ registers then { pin with keptUntil := now + rereadDelay } else pin,
      by simp [RegisterGroup.renewPins, hpin], ?_, fun t ht => ?_⟩
    · split <;> exact eq
    · split
      · have := later t ht
        simp only
        linarith
      · exact kept t ht

/-- The pins of the written registers are kept from the end of the writes. -/
theorem Keeps.endWrites (h : Keeps a value ended g) {registers : List (Nat × Bool)}
    (recorded : (a, false) ∈ registers) (now : Time) :
    Keeps a value (some now) (g.renewPins false registers (now + rereadDelay)) where
  cached := h.cached
  pin := by
    obtain ⟨pin, hpin, eq, -⟩ := h.pin
    refine ⟨{ pin with keptUntil := now + rereadDelay }, ?_, eq, ?_⟩
    · simp [RegisterGroup.renewPins, hpin, recorded]
    · simp

/-- A read does not change a kept value. -/
theorem Keeps.update (wf : g.WF) (member : g.isMember a) (h : Keeps a value ended g) {now : Time}
    {start : Nat} {values : List Word}
    (kept : block (start, values) a = none ∨ ∃ t, ended = some t ∧ now < t + rereadDelay) :
    Keeps a value ended (g.update now start values true) := by
  obtain ⟨pin, hpin, eq, bound⟩ := h.pin
  have unread : ¬ now < pin.keptUntil → block (start, values) a = none := by
    intro expired
    rcases kept with apart | ⟨t, ht, before⟩
    · exact apart
    · exact absurd (before.trans_le (bound t ht)) expired
  refine ⟨?_, pin, ?_, eq, bound⟩
  · rw [g.value_update wf now start values member, hpin]
    by_cases h' : now < pin.keptUntil
    · simp [h', eq]
    · simpa [h'] using (h.store wf member (unread h')).cached
  · rw [g.pins_update now start values a, hpin, Option.filter_some, if_pos]
    by_cases h' : now < pin.keptUntil
    · simp [h']
    · have := block_isSome.not.mp (by simp [unread h'] : ¬(block (start, values) a).isSome)
      simp [this]

end Keeps

/-- The value of the register is kept by the cache. -/
structure Kept (a : Nat) (value : Word) (ended : Option Time) (s : State) : Prop where
  keeps : ∀ g ∈ s.client.cache.groups, g.isMember a → Keeps a value ended g
  pwm : ∀ {requested pwm}, s.phase = .writing requested (some pwm) →
    lastValue pwm.registers a = none
  running : ended = none → s.phase.exclusive = true ∧
    ∃ ws, s.client.written = some ws ∧ (a, false) ∈ ws
  later : ∀ t, ended = some t → t ≤ s.now

section Kept

variable {a : Nat} {value : Word} {ended : Option Time}

/-- The blocks keep the value when the change of each block does. -/
theorem keeps_mapGroups {c : ModbusCacheMap} (wf : c.WF) {f : RegisterGroup → RegisterGroup}
    (same : ∀ g : RegisterGroup, g.Same (f g)) {ended' : Option Time}
    (keeps : ∀ g ∈ c.groups, g.isMember a → Keeps a value ended g)
    (step : ∀ g : RegisterGroup, g.WF → g.isMember a → Keeps a value ended g →
      Keeps a value ended' (f g)) :
    ∀ g ∈ (c.mapGroups false f).groups, g.isMember a → Keeps a value ended' g := by
  intro g' hg' member
  rw [ModbusCacheMap.mapGroups_false_groups] at hg'
  obtain ⟨g, hg, rfl⟩ := List.mem_map.mp hg'
  rw [(same g).isMember] at member
  exact step g (wf.holding hg) member (keeps g hg member)

/-- The change still has the register recorded after another write. -/
theorem Kept.recorded {s : State} (kept : Kept a value ended s) (open_ : ended = none) (now : Time)
    (index : Nat) (values : List Word) (cache pin : Bool) :
    ∃ ws, (s.client.writeRegisters now index values cache pin).written = some ws ∧
      (a, false) ∈ ws := by
  obtain ⟨-, ws, written, recorded⟩ := kept.running open_
  obtain ⟨ws', eq, sub, -⟩ := Client.mem_written_writeRegisters written now index values cache pin
  exact ⟨ws', eq, sub recorded⟩

/-- A write of other registers keeps the value. -/
theorem Kept.keeps_writeRegisters {s : State} (inv : Inv s) (kept : Kept a value ended s)
    {index : Nat} {values : List Word} (apart : block (index, values) a = none)
    (cache pin : Bool) (full : cache = true ∨ pin = true) :
    ∀ g ∈ (s.client.writeRegisters s.now index values cache pin).cache.groups, g.isMember a →
      Keeps a value ended g := by
  cases pin with
  | true =>
    rw [Client.writeRegisters_pinned inv.periodic]
    have stored : ∀ g : RegisterGroup, g.Same (if cache then g.store index values else g) := by
      intro g
      split
      · exact g.store_same _ _
      · rfl
    refine keeps_mapGroups inv.wf (fun g => (stored g).trans (RegisterGroup.pinAll_same _ _ _ _))
      kept.keeps fun g wf member keeps => ?_
    refine Keeps.pinAll (by rwa [(stored g).isMember]) ?_ apart _
    split
    · exact keeps.store wf member apart
    · exact keeps
  | false =>
    obtain rfl : cache = true := by simpa using full
    rw [Client.writeRegisters_unpinned]
    refine keeps_mapGroups inv.wf
      (fun g => (g.store_same _ _).trans (RegisterGroup.unpin_same _ _ _)) kept.keeps
      fun g wf member keeps => ?_
    exact (keeps.store wf member apart).unpin apart

/-- A read of a part of the blocks keeps the value, if it does not cover the register or the
pins are not expired. -/
theorem Kept.keeps_mapUpdate {s : State} (inv : Inv s) (kept : Kept a value ended s)
    (isInput : Bool) (start : RegisterGroup → Nat) (values : List Word)
    (p : RegisterGroup → Prop) [DecidablePred p]
    (held : ∀ g, block (start g, values) a = none ∨ ∃ t, ended = some t ∧ s.now < t + rereadDelay) :
    ∀ g ∈ (s.client.cache.mapGroups isInput fun g =>
      if p g then g.update s.now (start g) values true else g).groups, g.isMember a →
      Keeps a value ended g := by
  cases isInput with
  | true => exact kept.keeps
  | false =>
    refine keeps_mapGroups inv.wf (fun g => ?_) kept.keeps fun g wf member keeps => ?_
    · split
      · exact g.update_same _ _ _ _
      · rfl
    · split
      · exact keeps.update wf member (held g)
      · exact keeps

theorem Kept.step {s s' : State} {e : Event} (inv : Inv s) (kept : Kept a value ended s)
    (hs : Step s e s') (untouched : ¬e.touches a)
    (window : ∀ t, ended = some t → s'.now < t + rereadDelay) :
    Kept a value (ended.or e.endTime) s' := by
  have later : ∀ t, ended = some t → t ≤ s'.now := fun t ht => (kept.later t ht).trans hs.now_le
  have exclusive : ended = none → s.phase.exclusive = true := fun h => (kept.running h).1
  have other : e.endTime = none → Kept a value ended s' → Kept a value (ended.or e.endTime) s' := by
    intro h kept'
    simpa [h] using kept'
  cases hs with
  | tick => exact other rfl ⟨kept.keeps, kept.pwm, kept.running, later⟩
  | begin idle =>
    refine other rfl ⟨kept.keeps, by simp, fun h => ?_, later⟩
    simp [idle, Phase.exclusive] at exclusive
    exact absurd h exclusive
  | request => exact other rfl ⟨kept.keeps, by simp, fun h => ⟨rfl, (kept.running h).2⟩, later⟩
  | @write requested index values pin =>
    have apart : block (index, values) a = none := by simpa [Event.touches] using untouched
    exact other rfl ⟨kept.keeps_writeRegisters inv apart true pin (.inl rfl), by simp,
      fun h => ⟨rfl, kept.recorded h _ _ _ _ _⟩, later⟩
  | @modify requested index response =>
    have apart : block (index, response) a = none := by simpa [Event.touches] using untouched
    refine other rfl ⟨?_, by simp, fun h => ⟨rfl, (kept.running h).2⟩, later⟩
    exact keeps_mapGroups inv.wf (RegisterGroup.update_same · _ _ _ _) kept.keeps
      fun g wf member keeps => keeps.update wf member (.inl apart)
  | @beginPwm requested registers writing =>
    have apart : lastValue registers a = none := by simpa [Event.touches] using untouched
    refine other rfl ⟨kept.keeps, ?_, fun h => ⟨?_, (kept.running h).2⟩, later⟩
    · rintro _ _ ⟨⟩
      exact apart
    · simpa [writing, Phase.exclusive] using exclusive h
  | @writePwm requested registers done todo run writing =>
    have apart : lastValue registers a = none := kept.pwm writing
    have free : block run a = none := by
      rw [← overlay_runs, ← inv.requests writing] at apart
      simp only [List.map_append, List.map_cons, Overlay.overlay_append, Overlay.overlay,
        Option.or_eq_none_iff] at apart
      exact apart.1.2
    refine other rfl ⟨kept.keeps_writeRegisters inv free false true (.inr rfl), ?_,
      fun h => ⟨rfl, kept.recorded h _ _ _ _ _⟩, later⟩
    rintro _ _ ⟨⟩
    exact apart
  | failPwm => exact other rfl ⟨kept.keeps, by simp, fun h => ⟨rfl, (kept.running h).2⟩, later⟩
  | @endPwm requested registers done writing =>
    have apart : lastValue registers a = none := by simpa [Event.touches] using untouched
    refine other rfl ⟨?_, by simp, fun h => ⟨?_, (kept.running h).2⟩, later⟩
    · rw [withCache_cache, ModbusCacheMap.setRegisters_eq]
      exact keeps_mapGroups inv.wf (RegisterGroup.storeAll_same · _) kept.keeps
        fun g wf member keeps => keeps.storeAll wf member apart
    · simpa [writing, Phase.exclusive] using exclusive h
  | restart => exact absurd trivial untouched
  | endWrites writing =>
    cases open_ : ended with
    | none =>
      obtain ⟨-, ws, written, recorded⟩ := kept.running open_
      subst open_
      refine ⟨?_, by simp, by simp [Event.endTime], by simp [Event.endTime]⟩
      simp only [Client.endWrites, written, ModbusCacheMap.renewPins,
        ModbusCacheMap.mapGroups_true_groups]
      exact keeps_mapGroups inv.wf (RegisterGroup.renewPins_same · _ _ _) kept.keeps
        fun g _ _ keeps => keeps.endWrites recorded s.now
    | some t =>
      subst open_
      refine ⟨?_, by simp, by simp, by simpa using later⟩
      simp only [Client.endWrites]
      split
      · exact keeps_mapGroups inv.wf (RegisterGroup.renewPins_same · _ _ _) kept.keeps
          fun g _ _ keeps => keeps.renewPins kept.later _
      · exact kept.keeps
  | endChange reading =>
    refine other rfl ⟨kept.keeps, by simp, fun h => ?_, later⟩
    simp [reading, Phase.exclusive] at exclusive
    exact absurd h exclusive
  | @readBlock isInput g response free =>
    have ended_some : ∃ t, ended = some t := by
      refine Option.ne_none_iff_exists'.mp fun h => ?_
      simp [exclusive h] at free
    obtain ⟨t, ht⟩ := ended_some
    refine other rfl ⟨?_, kept.pwm, fun h => by simp [ht] at h, later⟩
    exact kept.keeps_mapUpdate inv isInput (fun _ => g.address) response
      (·.address = g.address)
      fun _ => .inr ⟨t, ht, window t ht⟩
  | @getRegisterAsync isInput index response free =>
    have ended_some : ∃ t, ended = some t := by
      refine Option.ne_none_iff_exists'.mp fun h => ?_
      simp [exclusive h] at free
    obtain ⟨t, ht⟩ := ended_some
    refine other rfl ⟨?_, kept.pwm, fun h => by simp [ht] at h, later⟩
    have := kept.keeps_mapUpdate inv isInput (fun _ => index) response (fun _ => True)
      fun _ => .inr ⟨t, ht, window t ht⟩
    simpa [ModbusCacheMap.setRegister] using this

/-- A value is kept by the steps until `rereadDelay` after the end of the writes. -/
theorem Kept.run {s s' : State} {es : List Event} (inv : Inv s) (kept : Kept a value ended s)
    (hr : Run s es s') (untouched : ∀ e ∈ es, ¬e.touches a)
    (window : ∀ t, ended.or (endTime es) = some t → s'.now < t + rereadDelay) :
    Kept a value (ended.or (endTime es)) s' := by
  induction hr generalizing ended with
  | nil s => simpa [endTime] using kept
  | @cons s s₁ s₂ e es head tail ih =>
    have later : s₁.now ≤ s₂.now := tail.invariant (I := fun s => s₁.now ≤ s.now)
      (fun _ _ _ le hs => le.trans hs.now_le) (le_refl _)
    have eq : ended.or (endTime (e :: es)) = (ended.or e.endTime).or (endTime es) := by
      simp only [endTime, List.findSome?_cons]
      cases e.endTime <;> simp
    rw [eq] at window ⊢
    refine ih (inv.step head) ?_ (fun e he => untouched e (List.mem_cons_of_mem _ he)) window
    refine kept.step inv head (untouched e List.mem_cons_self) fun t ht => later.trans_lt ?_
    exact window t (by simp [ht])

/-- The cache returns a kept value. -/
theorem Kept.getRegister {s : State} (inv : Inv s) (kept : Kept a value ended s)
    (member : InBlock a s) : s.client.cache.getRegister a = .ok [value] := by
  obtain ⟨g, hg, ha⟩ := member
  exact ModbusCacheMap.getRegister_of_mem inv.wf hg ha (kept.keeps g hg ha).cached

end Kept

/-! ## The step of a write -/

section

variable {a : Nat} {value : Word} {s s' : State} {e : Event}

theorem InBlock.step (member : InBlock a s) (hs : Step s e s') : InBlock a s' := by
  obtain ⟨g, hg, ha⟩ := member
  have shape : g.shape ∈ s'.client.cache.shapes false := by
    rw [hs.same false]
    exact List.mem_map_of_mem hg
  obtain ⟨g', hg', same⟩ := List.mem_map.mp shape
  exact ⟨g', hg', by rwa [RegisterGroup.Same.isMember same]⟩

/-- The setting that ends was written by requests. -/
theorem Inv.written {requested : Bool} {registers : List (Nat × Word)}
    {done : List (Nat × List Word)} (inv : Inv s)
    (writing : s.phase = .writing requested (some ⟨registers, done, []⟩))
    (covered : lastValue registers a = some value) : requested = true ∧ Pinned s a value := by
  have all : done = runs registers := by simpa using inv.requests writing
  have found : Overlay.overlay (done.map block) a = some value := by rw [all, overlay_runs, covered]
  refine ⟨?_, inv.pinned writing found⟩
  by_contra h
  have none : done = [] := inv.exclusive writing (by simpa using h)
  simp [none] at found

/-- A written register has its value pinned. -/
theorem keeps_of_writes (inv : Inv s) (hs : Step s e s') (writes : e.writes a value) :
    ∀ g ∈ s'.client.cache.groups, g.isMember a → Keeps a value none g := by
  intro g' hg' member
  cases hs with
  | @write requested index values pin writing =>
    cases pin with
    | false => exact writes.elim
    | true =>
      have covered : block (index, values) a = some value := writes
      rw [Client.writeRegisters_pinned inv.periodic, ModbusCacheMap.mapGroups_false_groups] at hg'
      obtain ⟨g, hg, rfl⟩ := List.mem_map.mp hg'
      rw [(RegisterGroup.pinAll_same _ _ _ _).isMember, if_pos rfl] at member
      have old : g.isMember a := by rwa [← (g.store_same _ _).isMember]
      refine ⟨?_, ⟨value, s.now + rereadDelay⟩, ?_, rfl, by simp⟩
      · simp [g.value_store_block (inv.wf.holding hg) index values old, covered]
      · simp [RegisterGroup.pins_pinAll_block _ _ _ member, covered]
  | @endPwm requested registers done writing =>
    have covered : lastValue registers a = some value := writes
    rw [withCache_cache, ModbusCacheMap.setRegisters_eq,
      ModbusCacheMap.mapGroups_false_groups] at hg'
    obtain ⟨g, hg, rfl⟩ := List.mem_map.mp hg'
    rw [(g.storeAll_same _).isMember] at member
    obtain ⟨pin, hpin, eq⟩ := (inv.written writing covered).2.pin g hg member
    refine ⟨?_, pin, by simpa using hpin, eq, by simp⟩
    simp [g.value_storeAll (inv.wf.holding hg) registers member, covered]
  | _ => exact writes.elim

/-- A register written by a change which records its writes is kept. -/
theorem kept_of_writes (inv : Inv s) (hs : Step s e s') (writes : e.writes a value)
    (recorded : s.client.written.isSome) : Kept a value none s' := by
  have keeps := keeps_of_writes inv hs writes
  obtain ⟨ws, written⟩ := Option.isSome_iff_exists.mp recorded
  cases hs with
  | @write requested index values pin writing =>
    cases pin with
    | false => exact writes.elim
    | true =>
      have covered : block (index, values) a = some value := writes
      obtain ⟨ws', eq, -, new⟩ :=
        Client.mem_written_writeRegisters written s.now index values true true
      exact ⟨keeps, by simp, fun _ => ⟨rfl, ws', eq, new a (by simp [covered])⟩, by simp⟩
  | @endPwm requested registers done writing =>
    obtain ⟨sent, pinned⟩ := inv.written writing writes
    exact ⟨keeps, by simp, fun _ => ⟨by simp [Phase.exclusive, sent], ws, written,
      pinned.recorded ws written⟩, by simp⟩
  | _ => exact writes.elim

/-- A read of an expired register replaces its value and drops its pin. -/
theorem value_of_expired {g : RegisterGroup} (wf : g.WF) (ha : g.isMember a) {now : Time} {pin : Pin}
    (hpin : g.pins a = some pin) (expired : pin.keptUntil ≤ now) {start : Nat} {values : List Word}
    (covered : block (start, values) a = some value) :
    (g.update now start values true).value a = some value ∧
      (g.update now start values true).pins a = none := by
  have range : start ≤ a ∧ a < start + values.length := block_isSome.mp (by simp [covered])
  constructor
  · rw [g.value_update wf now start values ha, hpin, g.value_store_block wf start values ha]
    simp [expired.not_gt, covered]
  · rw [g.pins_update, hpin]
    simpa [Option.filter_some, expired.not_gt] using range

/-- The block of the register after a change of the blocks is its changed block. -/
theorem getRegister_mapGroups {c : ModbusCacheMap} (wf : c.WF) {f : RegisterGroup → RegisterGroup}
    (same : ∀ g : RegisterGroup, g.Same (f g)) {g : RegisterGroup} (hg : g ∈ c.groups)
    (ha : g.isMember a) (cached : (f g).value a = some value) (dropped : (f g).pins a = none) :
    (c.mapGroups false f).getRegister a = .ok [value] ∧
      ∀ g' ∈ (c.mapGroups false f).groups, g'.isMember a → g'.pins a = none := by
  have wf' := (ModbusCacheMap.mapGroups_same same c false).wf wf
  have hg' : f g ∈ (c.mapGroups false f).groups := List.mem_map_of_mem hg
  have ha' : (f g).isMember a := by rwa [(same g).isMember]
  refine ⟨ModbusCacheMap.getRegister_of_mem wf' hg' ha' cached, fun g' member' ga' => ?_⟩
  rw [ModbusCacheMap.WF.unique wf' (show g' ∈ ModbusCacheMap.groupsOf _ false from member') hg'
    ga' ha', dropped]

theorem replacedByReads (inv : Inv s) : ReplacedByReads a s := by
  rintro ⟨g, hg, ha, pin, hpin, expired⟩ e s' value hs reads
  have wf := inv.wf.holding hg
  cases hs with
  | @modify requested index response =>
    obtain ⟨cached, dropped⟩ := value_of_expired wf ha hpin expired reads
    exact getRegister_mapGroups inv.wf (RegisterGroup.update_same · _ _ _ _) hg ha cached dropped
  | @getRegisterAsync isInput index response =>
    cases isInput with
    | true => exact reads.elim
    | false =>
      obtain ⟨cached, dropped⟩ := value_of_expired wf ha hpin expired reads
      exact getRegister_mapGroups inv.wf (RegisterGroup.update_same · _ _ _ _) hg ha cached dropped
  | @readBlock isInput h response free hh complete =>
    cases isInput with
    | true => exact reads.elim
    | false =>
      have covered : block (h.address, response) a = some value := reads
      have range := block_isSome.mp (by simp [covered] : (block (h.address, response) a).isSome)
      have member : h.isMember a := by
        rw [RegisterGroup.isMember_iff]
        omega
      obtain rfl : g = h :=
        ModbusCacheMap.WF.unique inv.wf (show g ∈ s.client.cache.groupsOf false from hg) hh ha member
      obtain ⟨cached, dropped⟩ := value_of_expired wf ha hpin expired covered
      refine getRegister_mapGroups inv.wf (fun g' => ?_) hg ha ?_ ?_
      · split
        · exact g'.update_same _ _ _ _
        · rfl
      · simpa using cached
      · simpa using dropped
  | _ => exact reads.elim

/-- While a change writes without a record, a pin can expire before its read. -/
theorem not_kept_of_unrecorded {requested : Bool} (inv : Inv s)
    (writing : s.phase = .writing requested none) (unrecorded : s.client.written = none)
    {g : RegisterGroup} (hg : g ∈ s.client.cache.groups) (ha : g.isMember a)
    (keeps : Keeps a value none g) : ¬KeptUntilReread a value s := by
  intro kept
  obtain ⟨pin, hpin, -⟩ := keeps.pin
  have range := RegisterGroup.isMember_iff.mp ha
  let now := s.now + rereadDelay
  let response := List.replicate g.count (value + 1)
  have expired : Step s (.tick now) { s with now } :=
    .tick (by simp only [now, rereadDelay]; linarith)
  have ended : Step { s with now } (.endWrites now)
      { s with client := s.client.endWrites now, now, phase := .reading } := .endWrites writing
  rw [show s.client.endWrites now = s.client by simp [Client.endWrites, unrecorded]] at ended
  have read : Step { s with now, phase := .reading } (.readBlock false g.address response) _ :=
    .readBlock rfl hg (by simp [response])
  have reads : Event.reads a (value + 1) (.readBlock false g.address response) := by
    simp only [Event.reads, block, response]
    rw [if_pos (by simp; omega), List.getElem?_replicate_of_lt (by omega)]
  have replaced := (replacedByReads ((inv.step expired).step ended)
    ⟨g, hg, ha, pin, hpin, inv.bounded g hg a ha pin hpin⟩ _ _ _ read reads).1
  have run : Run s [.tick now, .endWrites now, .readBlock false g.address response] _ :=
    .cons expired (.cons ended (.single read))
  have same := kept _ _ run (by simp [Event.touches])
    (by simp [endTime, Event.endTime, rereadDelay, now])
  rw [replaced] at same
  simp at same

/-- A value written without a record can be replaced before `rereadDelay` after the writes. -/
theorem not_kept_of_writes (inv : Inv s) (hs : Step s e s') (writes : e.writes a value)
    (unrecorded : s.client.written = none) (member : InBlock a s) :
    ¬KeptUntilReread a value s' := by
  have inv' := inv.step hs
  have keeps := keeps_of_writes inv hs writes
  obtain ⟨g, hg, ha⟩ := member.step hs
  cases hs with
  | @write requested index values pin =>
    have unrecorded' : (s.client.writeRegisters s.now index values true pin).written = none := by
      simp [Client.writeRegisters, unrecorded]
    exact not_kept_of_unrecorded inv' rfl unrecorded' hg ha (keeps g hg ha)
  | endPwm => exact not_kept_of_unrecorded inv' rfl unrecorded hg ha (keeps g hg ha)
  | _ => exact writes.elim

/-! ## The writes of a change -/

/-- The operation of a change goes on, a restart of the unit ends its record. -/
theorem Step.recorded {requested : Bool} {pwm : Option PwmWrite}
    (writing : s.phase = .writing requested pwm) (hs : Step s e s') (open_ : e.endTime = none) :
    (∃ requested pwm, s'.phase = .writing requested pwm) ∧
      (s'.client.written.isSome ↔ s.client.written.isSome ∧ e ≠ .restart) := by
  cases hs with
  | begin idle => simp [writing] at idle
  | endChange reading => simp [writing] at reading
  | endWrites => simp [Event.endTime] at open_
  | restart => simp [Client.restarted]
  | write | writePwm => simp [Client.writeRegisters]
  | _ => simp [writing]

/-- A change with devices records its writes until a restart of the unit. -/
theorem recorded_iff {es : List Event} {requested : Bool} {pwm : Option PwmWrite}
    (writing : s.phase = .writing requested pwm) (hr : Run s es s')
    (open_ : ∀ e ∈ es, e.endTime = none) :
    s'.client.written.isSome ↔ s.client.written.isSome ∧ Event.restart ∉ es := by
  induction hr generalizing requested pwm with
  | nil => simp
  | cons head tail ih =>
    obtain ⟨still, rest⟩ := List.forall_mem_cons.mp open_
    obtain ⟨⟨requested, pwm, writing'⟩, recorded⟩ := head.recorded writing still
    rw [ih writing' rest, recorded, List.mem_cons, not_or, and_assoc, ne_comm]

/-- A register written in a change is kept until `rereadDelay` after the end of its writes, then
replaced by the first read of it, if and only if the change has devices and the unit was not
restarted before the write. -/
theorem written_value_kept_iff {s₀ s₁ s₂ s₃ : State} {devices : Bool} {before : List Event}
    (reach : Reachable s₀) (begin_ : Step s₀ (.begin devices) s₁) (hr : Run s₁ before s₂)
    (open_ : ∀ e ∈ before, e.endTime = none) (hs : Step s₂ e s₃) (writes : e.writes a value)
    (member : InBlock a s₂) :
    (KeptUntilReread a value s₃ ∧ ∀ es s', Run s₃ es s' → ReplacedByReads a s') ↔
      devices = true ∧ Event.restart ∉ before := by
  have inv₁ := reach.inv.step begin_
  have inv₂ := hr.invariant (I := Inv) (fun _ _ _ => Inv.step) inv₁
  have inv₃ := inv₂.step hs
  have recorded : s₂.client.written.isSome ↔ devices = true ∧ Event.restart ∉ before := by
    cases begin_ with
    | begin idle =>
      rw [recorded_iff rfl hr open_]
      cases devices <;> simp
  rw [← recorded]
  constructor
  · rintro ⟨kept, -⟩
    rw [Option.isSome_iff_ne_none]
    intro unrecorded
    exact not_kept_of_writes inv₂ hs writes unrecorded member kept
  · intro recorded
    refine ⟨fun es s' run untouched window => ?_, fun es s' run => ?_⟩
    · have kept := kept_of_writes inv₂ hs writes recorded
      have member' : InBlock a s' := run.invariant (I := InBlock a) (fun _ _ _ => InBlock.step) (member.step hs)
      exact (kept.run inv₃ run untouched (by simpa using window)).getRegister
        (run.invariant (I := Inv) (fun _ _ _ => Inv.step) inv₃) member'
    · exact replacedByReads (run.invariant (I := Inv) (fun _ _ _ => Inv.step) inv₃)

/-- The unit of one block of one register, before its first change. -/
def oneRegister : State where
  client := { cache := { groups := [.new 0 1 1] } }
  now := 0

theorem oneRegister_init : Init oneRegister :=
  ⟨⟨[{ startReg := some 0, count := some 1, scanDivider := some (some 1) }], rfl⟩, rfl, rfl⟩

/-- The unit in a change with devices. -/
def oneRegisterChanged : State :=
  { oneRegister with
    client := { oneRegister.client with written := some [] }
    phase := .writing false none }

/-- The first write of a change is kept. -/
theorem written_value_kept_oneRegister : ∃ s, Run oneRegister [.begin true, .write 0 [1] true] s ∧
    KeptUntilReread 0 1 s := by
  have begin_ : Step oneRegister (.begin true) oneRegisterChanged := .begin rfl
  have write : Step oneRegisterChanged (.write 0 [1] true) _ := .write rfl
  have writes : Event.writes 0 1 (.write 0 [1] true) := rfl
  have kept := written_value_kept_iff (.of_init oneRegister_init) begin_ (.nil _) (by simp) write
    writes ⟨_, List.mem_singleton_self _, rfl⟩
  exact ⟨_, .cons begin_ (.single write), (kept.mpr ⟨rfl, List.not_mem_nil⟩).1⟩

/-- Every register written in a change with devices is kept. -/
def KeepsWrites : Prop :=
  ∀ (s₀ s₁ s₂ s₃ : State) (before : List Event) (e : Event) (a : Nat) (value : Word),
    Reachable s₀ → Step s₀ (.begin true) s₁ → Run s₁ before s₂ →
    (∀ e ∈ before, e.endTime = none) → Step s₂ e s₃ → e.writes a value → InBlock a s₂ →
    KeptUntilReread a value s₃ ∧ ∀ es s', Run s₃ es s' → ReplacedByReads a s'

/-- A register written after a restart of the unit in the same change is not kept. -/
theorem not_keepsWrites : ¬KeepsWrites := by
  intro keeps
  have begin_ : Step oneRegister (.begin true) oneRegisterChanged := .begin rfl
  let restarted : State :=
    { oneRegisterChanged with
      client := oneRegisterChanged.client.restarted
      phase := .writing true none }
  have restart : Step oneRegisterChanged .restart restarted := .restart rfl
  have write : Step restarted (.write 0 [1] true) _ := .write rfl
  have writes : Event.writes 0 1 (.write 0 [1] true) := rfl
  have reach : Reachable oneRegister := .of_init oneRegister_init
  have inv := (reach.inv.step begin_).step restart
  have member : InBlock 0 restarted := ⟨_, List.mem_singleton_self _, rfl⟩
  refine not_kept_of_writes inv write writes rfl member ?_
  exact (keeps _ _ _ _ [.restart] _ 0 1 reach begin_ (.single restart) (by simp [Event.endTime])
    write writes member).1

end

end Change

end Modbus

end Evok
