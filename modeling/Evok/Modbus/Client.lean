import Evok.Modbus.Cache
import Evok.Library.Overlay

/-!
# The written registers of a unit

`Client.write_registers()` updates the cache and pins the written registers. A change records
its written registers, at the end of its writes their pins are renewed.

## Main definitions

* `Client`: the cache of a unit and the registers written by the running change.
* `Client.writeRegisters`, `Client.restarted`, `Client.endWrites`: what they do with the cache.
* `runs`: the requests of a setting of several registers.

## Main results

* `overlay_runs`: the requests of a setting write its values.
-/

namespace Evok

namespace Modbus

/-- `REREAD_DELAY`: a written register is kept in the cache for this time. -/
def rereadDelay : Time := 1

structure Client where
  cache : ModbusCacheMap
  periodicScan : Bool := true
  /-- The registers (address, is_input) written by the running change. -/
  written : Option (List (Nat × Bool)) := none

namespace Client

/-- `write_registers` after the response of the unit. -/
def writeRegisters (c : Client) (now : Time) (index : Nat) (values : List Word)
    (cache : Bool := true) (pin : Bool := true) : Client :=
  let stored := if cache then c.cache.setRegister now index values else c.cache
  let pinned := if pin && c.periodicScan then stored.pin index values (now + rereadDelay)
    else stored.unpin index values.length
  { c with
    cache := pinned
    written := c.written.map (· ++ (List.range values.length).map fun i => (index + i, false)) }

/-- The end of `write_coil_without_response`: the unit restarted or saved its settings. -/
def restarted (c : Client) : Client :=
  { c with written := none, cache := c.cache.clearPins }

/-- The end of the writes of a change, before its read. -/
def endWrites (c : Client) (now : Time) : Client :=
  match c.written with
  | some registers =>
    { c with cache := c.cache.renewPins registers (now + rereadDelay), written := none }
  | none => c

end Client

/-! ## Settings of several registers -/

/-- Add a register to the last request if it is adjacent. -/
def addRegister (runs : List (Nat × List Word)) (register : Nat × Word) :
    List (Nat × List Word) :=
  match runs.getLast? with
  | some (start, values) =>
    if start + values.length = register.1 then
      runs.dropLast ++ [(start, values ++ [register.2])]
    else runs ++ [(register.1, [register.2])]
  | none => [(register.1, [register.2])]

/-- The requests of `PwmFrequency._write`: the adjacent registers are written by one. -/
def runs (registers : List (Nat × Word)) : List (Nat × List Word) :=
  registers.foldl addRegister []

/-- The registers of one request. -/
def block (run : Nat × List Word) (a : Nat) : Option Word :=
  if run.1 ≤ a ∧ a < run.1 + run.2.length then run.2[a - run.1]? else none

/-- The last values of the registers. -/
def lastValue (registers : List (Nat × Word)) : Nat → Option Word :=
  Overlay.overlay (registers.map fun register => block (register.1, [register.2]))

theorem block_append (start : Nat) (values : List Word) (value : Word) (a : Nat) :
    block (start, values ++ [value]) a =
      (block (start + values.length, [value]) a).or (block (start, values) a) := by
  simp only [block, List.length_append, List.length_singleton]
  by_cases h : a = start + values.length
  · subst h
    simp
  · by_cases before : start ≤ a ∧ a < start + values.length
    · rw [if_pos (by omega), if_neg (by omega), if_pos before,
        List.getElem?_append_left (by omega)]
      rfl
    · rw [if_neg (by omega), if_neg (by omega), if_neg before]
      rfl

theorem overlay_addRegister (runs : List (Nat × List Word)) (register : Nat × Word) (a : Nat) :
    Overlay.overlay ((addRegister runs register).map block) a =
      (block (register.1, [register.2]) a).or (Overlay.overlay (runs.map block) a) := by
  unfold addRegister
  split
  · next start values last =>
    obtain ⟨init, rfl⟩ := List.getLast?_eq_some_iff.mp last
    split
    · next adjacent =>
      simp [Overlay.overlay_append, block_append, adjacent, Option.or_assoc]
    · simp [Overlay.overlay_append, Overlay.overlay, Option.or_assoc]
  · next none =>
    rw [List.getLast?_eq_none_iff.mp none]
    simp

/-- The requests of a setting write its values. -/
theorem overlay_runs (registers : List (Nat × Word)) :
    Overlay.overlay ((runs registers).map block) = lastValue registers := by
  funext a
  unfold runs lastValue
  suffices ∀ acc, Overlay.overlay ((registers.foldl addRegister acc).map block) a =
      (Overlay.overlay (registers.map fun register => block (register.1, [register.2])) a).or
        (Overlay.overlay (acc.map block) a) by
    simpa using this []
  intro acc
  induction registers generalizing acc with
  | nil => simp
  | cons register registers ih =>
    rw [List.foldl_cons, ih, overlay_addRegister]
    simp [Overlay.overlay, Option.or_assoc]

/-! ## The blocks after a write -/

theorem block_isSome {index : Nat} {values : List Word} {a : Nat} :
    (block (index, values) a).isSome ↔ index ≤ a ∧ a < index + values.length := by
  simp only [block]
  split
  · next covered =>
    rw [List.getElem?_eq_getElem (by omega)]
    simpa using covered
  · next apart => simpa using apart

namespace RegisterGroup

/-- A write sets the registers of its request. -/
theorem value_store_block {g : RegisterGroup} (wf : g.WF) (index : Nat) (values : List Word)
    {a : Nat} (ha : g.isMember a) :
    (g.store index values).value a = (block (index, values) a).or (g.value a) := by
  rw [g.value_store wf index values ha, block]
  split
  · next covered =>
    rw [List.getElem?_eq_getElem (by omega)]
    rfl
  · rfl

theorem pins_pinAll_block (keptUntil : Time) (index : Nat) (values : List Word) {g : RegisterGroup}
    {a : Nat} (ha : g.isMember a) :
    (g.pinAll keptUntil index values).pins a =
      ((block (index, values) a).map fun value => ⟨value, keptUntil⟩).or (g.pins a) := by
  rw [pins_pinAll keptUntil index values ha, block]
  split
  · next covered =>
    rw [List.getElem?_eq_getElem (by omega)]
    rfl
  · rfl

/-- The values of a setting are stored after its requests. -/
def storeAll (g : RegisterGroup) (registers : List (Nat × Word)) : RegisterGroup :=
  registers.foldl (fun g register => g.store register.1 [register.2]) g

theorem storeAll_same (g : RegisterGroup) (registers : List (Nat × Word)) :
    g.Same (g.storeAll registers) := by
  induction registers generalizing g with
  | nil => rfl
  | cons register registers ih => exact (g.store_same _ _).trans (ih _)

@[simp] theorem pins_storeAll (g : RegisterGroup) (registers : List (Nat × Word)) :
    (g.storeAll registers).pins = g.pins := by
  induction registers generalizing g with
  | nil => rfl
  | cons register registers ih => exact (ih _).trans (g.store_pins _ _)

theorem value_storeAll {g : RegisterGroup} (wf : g.WF) (registers : List (Nat × Word)) {a : Nat}
    (ha : g.isMember a) :
    (g.storeAll registers).value a = (lastValue registers a).or (g.value a) := by
  induction registers generalizing g with
  | nil => rfl
  | cons register registers ih =>
    have same := g.store_same register.1 [register.2]
    rw [storeAll, List.foldl_cons, ← storeAll, ih (same.wf wf) (by rwa [same.isMember]),
      value_store_block wf _ _ ha]
    simp only [lastValue, List.map_cons, Overlay.overlay, Option.or_assoc]

end RegisterGroup

namespace ModbusCacheMap

theorem setRegisters_eq (c : ModbusCacheMap) (now : Time) (registers : List (Nat × Word)) :
    registers.foldl (fun c register => c.setRegister now register.1 [register.2]) c =
      c.mapGroups false (·.storeAll registers) := by
  induction registers generalizing c with
  | nil => simp [mapGroups, RegisterGroup.storeAll]
  | cons register registers ih =>
    rw [List.foldl_cons, ih]
    simp [mapGroups, setRegister, RegisterGroup.storeAll, Function.comp_def]

end ModbusCacheMap

namespace Client

/-- The blocks after a write which is pinned. -/
theorem writeRegisters_pinned {c : Client} (periodic : c.periodicScan = true) (now : Time)
    (index : Nat) (values : List Word) (cache : Bool) :
    (c.writeRegisters now index values cache true).cache =
      c.cache.mapGroups false fun g =>
        (if cache then g.store index values else g).pinAll (now + rereadDelay) index values := by
  cases cache <;>
    simp [writeRegisters, periodic, ModbusCacheMap.pin_eq, ModbusCacheMap.setRegister,
      ModbusCacheMap.mapGroups, Function.comp_def]

/-- The blocks after a write without a pin. -/
theorem writeRegisters_unpinned (c : Client) (now : Time) (index : Nat) (values : List Word) :
    (c.writeRegisters now index values true false).cache =
      c.cache.mapGroups false fun g => (g.store index values).unpin index values.length := by
  simp [writeRegisters, ModbusCacheMap.unpin, ModbusCacheMap.setRegister,
    ModbusCacheMap.mapGroups, Function.comp_def]

theorem writeRegisters_same (c : Client) (now : Time) (index : Nat) (values : List Word)
    (cache pin : Bool) : c.cache.Same (c.writeRegisters now index values cache pin).cache := by
  simp only [writeRegisters]
  have stored : c.cache.Same
      (if cache then c.cache.setRegister now index values else c.cache) := by
    split
    · exact ModbusCacheMap.setRegister_same _ _ _ _ _ _
    · rfl
  split
  · exact stored.trans (ModbusCacheMap.pin_same _ _ _ _ _)
  · exact stored.trans (ModbusCacheMap.unpin_same _ _ _ _)

theorem mem_written_writeRegisters {c : Client} {ws : List (Nat × Bool)}
    (written : c.written = some ws) (now : Time) (index : Nat) (values : List Word)
    (cache pin : Bool) : ∃ ws', (c.writeRegisters now index values cache pin).written = some ws' ∧
      ws ⊆ ws' ∧ ∀ a, (block (index, values) a).isSome → (a, false) ∈ ws' := by
  refine ⟨_, by simp only [writeRegisters, written, Option.map_some]; rfl,
    List.subset_append_left .., fun a covered => List.mem_append_right _ ?_⟩
  rw [block_isSome] at covered
  simp only [List.mem_map, List.mem_range, Prod.mk.injEq, and_true]
  exact ⟨a - index, by omega, by omega⟩

end Client

end Modbus

end Evok
