import Evok.Modbus.CachedRegister
import Evok.Modbus.Requests

/-!
# A unit and its cache

The changes and the scans of a unit with its registers. A change reads only some blocks after its
writes: the ones of the registers it has written and of the states of its devices. The scans and the
changes are interleaved in any way, requests fail at any point and a failed write may be applied by
the unit, or not.

## Main definitions

* `Slave.Step`: a step of the unit or of its client.
* `Slave.Event.Fine`: no failure of the step concerns a register.
* `Slave.ShowsCoils`: the coils of a device are read with its state.
-/

namespace Evok

namespace Modbus

namespace Slave

/-- What `Client.change` does: it sets the devices, with the actions left of the running `set()`;
its operation has raised, or it reads the registers, all blocks without them. -/
inductive Phase (ι : Type)
  | idle
  | writing (devices : Option (List ι)) (todo : List (Action ι))
  | failed (devices : Option (List ι))
  | reading (registers : Option (List (ℕ × Bool)))

structure State (ι : Type) extends ClientState where
  memory : Memory
  phase : Phase ι

/-- `own` is a change of the unit itself. -/
inductive Event (ι : Type)
  | tick (now : Time)
  | own
  /-- A step of the periodic scan. -/
  | read (e : ClientEvent)
  | begin (devices : Option (List ι))
  | set (i : ι)
  | act (a : Action ι)
  /-- A coil after which the unit restarts or saves its settings. -/
  | restart
  | fail (a : Action ι) (applied : Bool)
  | endWrites
  /-- The read after the writes. -/
  | changed (registers : Option (List (ℕ × Bool))) (ok : Bool)

variable {ι : Type}

/-- The client and the unit after an action without an error. -/
def State.exec (wiring : Wiring) (s : State ι) : Action ι → State ι
  | .writeRegisters index values cache pin =>
    { s with
      client := s.client.writeRegisters s.now index values cache pin
      memory := { s.memory with
        registers := Overlay.apply (block (index, values)) s.memory.registers } }
  | .writeBit index mask value pin =>
    let (cache, curr) := s.client.cache.getRegisterAsync s.now index [s.memory.registers index]
    let word := setBits mask value (curr.getD 0 0)
    { s with
      client := { s.client with cache }.writeRegisters s.now index [word] true pin
      memory := { s.memory with
        registers := Overlay.apply (block (index, [word])) s.memory.registers } }
  | .setRegister index values =>
    { s with client := { s.client with cache := s.client.cache.setRegister s.now index values } }
  | .writeCoil coil value => { s with memory := s.memory.writeCoil wiring coil value }
  | _ => s

/-- The response of a block has the registers which the unit does not change itself. -/
def Answered (own : ℕ → Prop) (m : Memory) : ClientEvent → Prop
  | .readBlock false address response =>
    ∀ r, ¬own r → ∀ v, block (address, response) r = some v → v = m.registers r
  | _ => True

/-- The responses of the blocks, up to an error. -/
def Answers (own : ℕ → Prop) (m : Memory)
    (reply : Bool → RegisterGroup → Except CommError (List Word)) : Prop :=
  ∀ g response, reply false g = .ok response → ∀ r, ¬own r → g.isMember r →
    block (g.address, response) r = some (m.registers r)

/-- The responses of a unit without an error. -/
def responses (m : Memory) (inputs : ℕ → Word) (isInput : Bool) (g : RegisterGroup) :
    Except CommError (List Word) :=
  .ok ((List.range g.count).map fun k =>
    if isInput then inputs (g.address + k) else m.registers (g.address + k))

theorem answers_responses (own : ℕ → Prop) (m : Memory) (inputs : ℕ → Word) :
    Answers own m (responses m inputs) := by
  intro g response hresponse r _ ha
  obtain rfl := Except.ok.inj hresponse
  rw [RegisterGroup.isMember_iff] at ha
  simp only [block, List.length_map, List.length_range]
  rw [if_pos ha, List.getElem?_map, List.getElem?_range (by omega)]
  simp [show g.address + (r - g.address) = r by omega]

/-- The registers read after the writes of a change: the written ones and the ones of the states
of its devices, all blocks after a restart or without the devices. -/
def readAfter (written devices : Option (List (ℕ × Bool))) : Option (List (ℕ × Bool)) :=
  match written, devices with
  | some written, some devices => some (written ++ devices)
  | _, _ => none

/-- The read after a change. -/
def readChange (c : ModbusCacheMap) (now : Time)
    (reply : Bool → RegisterGroup → Except CommError (List Word)) :
    Option (List (ℕ × Bool)) → ModbusCacheMap × Bool
  | none => c.doScan now reply false true
  | some registers => c.readChanged now reply registers

/-- The memory after a failed request which was applied. -/
def Applied (wiring : Wiring) (s : State ι) (m : Memory) : Action ι → Prop
  | .coilWithoutResponse _ _ => True
  | a => m = (s.exec wiring a).memory

/-- The client after a failed request: a read of a register which is written may succeed. -/
def Requested (s : State ι) (client : Client) : Action ι → Prop
  | .writeBit index _ _ _ => client = s.client ∨ client = { s.client with
      cache := (s.client.cache.getRegisterAsync s.now index [s.memory.registers index]).1 }
  | _ => client = s.client

section Step

variable [DecidableEq ι] (wiring : Wiring) (device : ι → Device) (own : ℕ → Prop)

/-- A step of the unit or of its client. `set()` decides by any attributes; another device of the
change may be set after a `set()` which raises a `ValueError`. -/
inductive Step : State ι → Event ι → State ι → Prop
  | tick {s : State ι} {now : Time} (later : s.now ≤ now) : Step s (.tick now) { s with now }
  | own {s : State ι} {memory : Memory}
      (same : ∀ r, ¬own r → memory.registers r = s.memory.registers r) :
      Step s .own { s with memory }
  | read {s : State ι} {e : ClientEvent} {t : ClientState} (isRead : e.IsRead)
      (answered : Answered own s.memory e) (step : ClientStep s.toClientState e t) :
      Step s (.read e) { s with toClientState := t }
  | begin {s : State ι} {devices : Option (List ι)} (idle : s.phase = .idle) :
      Step s (.begin devices)
        { s with
          client := { s.client with written := devices.map fun _ => [] }
          phase := .writing devices [] }
  | set {s : State ι} {devices : Option (List ι)} {i : ι} {p : PwmState}
      {outputs : List (DigitalOutput.Entry ι)} {state : (device i).State}
      {params : (device i).Params} (writing : s.phase = .writing devices [])
      (member : ∀ ds ∈ devices, i ∈ ds) :
      Step s (.set i)
        { s with phase := .writing devices ((device i).set i p outputs state params).actions }
  | act {s : State ι} {devices : Option (List ι)} {a : Action ι} {todo : List (Action ι)}
      (writing : s.phase = .writing devices (a :: todo))
      (responds : ∀ coil holder, a ≠ .coilWithoutResponse coil holder) :
      Step s (.act a) { s.exec wiring a with phase := .writing devices todo }
  | restart {s : State ι} {devices : Option (List ι)} {coil : ℕ} {holder : Option ι}
      {todo : List (Action ι)} {memory : Memory}
      (writing : s.phase = .writing devices (.coilWithoutResponse coil holder :: todo)) :
      Step s .restart
        { s with client := s.client.restarted, memory, phase := .writing devices todo }
  | fail {s : State ι} {devices : Option (List ι)} {a : Action ι} {todo : List (Action ι)}
      {applied : Bool} {client : Client} {memory : Memory}
      (writing : s.phase = .writing devices (a :: todo)) (requested : Requested s client a)
      (kept : applied = false → memory = s.memory)
      (changed : applied = true → Applied wiring s memory a) :
      Step s (.fail a applied) { s with client, memory, phase := .failed devices }
  | endWrites {s : State ι} {devices : Option (List ι)} {states : ∀ i, (device i).State}
      (ended : s.phase = .writing devices [] ∨ s.phase = .failed devices) :
      Step s .endWrites
        { s with
          client := s.client.endWrites s.now
          phase := .reading (readAfter s.client.written
            (devices.map (·.flatMap fun i => (device i).registers (states i)))) }
  | changed {s : State ι} {registers : Option (List (ℕ × Bool))}
      {reply : Bool → RegisterGroup → Except CommError (List Word)}
      (reading : s.phase = .reading registers) (answers : Answers own s.memory reply) :
      Step s (.changed registers (readChange s.client.cache s.now reply registers).2)
        { s with
          client := { s.client with
            cache := (readChange s.client.cache s.now reply registers).1 }
          phase := .idle }

abbrev Run := Transition.Run (Step wiring device own)

end Step

/-- A unit after its first scan, a failed one is repeated before it. Nothing is pinned yet. -/
structure Connected (own : ℕ → Prop) (s : State ι) : Prop where
  scanned : ∃ (c : ModbusCacheMap) (reply : Bool → RegisterGroup → Except CommError (List Word)),
    c.WF ∧ (∀ g ∈ c.groups, g.pins = fun _ => none) ∧ Answers own s.memory reply ∧
      c.doScan s.now reply true false = (s.client.cache, true)
  idle : s.phase = .idle

/-! ## Failures which concern a register -/

/-- A coil is a bit of the register. -/
def Wired (wiring : Wiring) (r : ℕ) : Prop :=
  ∃ coil mask, wiring coil = some (r, mask)

/-- The action writes the register by its number. -/
def Writes (r : ℕ) : Action ι → Prop
  | .writeRegisters index values _ _ => (block (index, values) r).isSome
  | .writeBit index _ _ _ => index = r
  | _ => False

/-- The request may change the register. -/
def Touches (wiring : Wiring) (r : ℕ) : Action ι → Prop
  | .writeCoil coil _ => ∃ mask, wiring coil = some (r, mask)
  | .coilWithoutResponse _ _ => True
  | a => Writes r a

/-- The register is not written by its number and by a coil too; no failed request may have changed
it, and the read after its change succeeds. -/
def Event.Fine (wiring : Wiring) (r : ℕ) : Event ι → Prop
  | .act a => Writes r a → ¬Wired wiring r
  | .fail a applied => applied = true → ¬Touches wiring r a
  | .changed registers ok => ok = true ∨ ∃ rs ∈ registers, (r, false) ∉ rs
  | _ => True

/-- A register with a coil of the device is one of the registers of its state. -/
def ShowsCoils (wiring : Wiring) (r : ℕ) (d : Device) : Prop :=
  ∀ c mask, d.coils c → wiring c = some (r, mask) → ∀ s, (r, false) ∈ d.registers s

end Slave

end Modbus

end Evok
