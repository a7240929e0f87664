import Mathlib.Data.Finset.Basic
import Mathlib.Data.Rat.Defs
import Mathlib.Algebra.Order.Field.Rat
import Mathlib.Tactic.Linarith
import Mathlib.Tactic.NormNum
import Evok.Library.Run

/-!
# The scan of a unit

`ModbusScanner` of `modbus/scanner.py` with the marks of its `BusTransport`. A step of the model is
what `_scan_loop` does between two awaits, or a method called by another task. A cancelled loop
gets the cancellation at its await and does nothing more.

The first scan and the periodic ones are their results here: `do_scan` of the cache, `_scan_unit`.
The other scanners of the bus have other unit ids.

## Main definitions

* `BusTransport.probes`: whether a request of a unit is a single probe.
* `Loop`: the place where `_scan_loop` waits, with its local variables.
* `ModbusScanner.next`: the state after an action.

## Main results

* `ModbusScanner.interval_le`: how slow the scan of a failing unit gets.
-/

namespace Evok

namespace Scanner

/-- The units of `failing_units` and of `_single_units`. -/
structure BusTransport where
  failingUnits : Finset Nat
  singleUnits : Finset Nat

namespace BusTransport

def setFailing (t : BusTransport) (unitId : Nat) (failing : Bool) : BusTransport :=
  if failing then { t with failingUnits := insert unitId t.failingUnits }
  else { t with failingUnits := t.failingUnits.erase unitId }

/-- The branch of `send_and_receive`: one request with `probe_timeout` and no retries. -/
def probes (t : BusTransport) (unitId : Nat) : Bool :=
  !(unitId ∉ t.failingUnits && unitId ∉ t.singleUnits)

@[simp] theorem mem_setFailing (t : BusTransport) (unitId other : Nat) (failing : Bool) :
    unitId ∈ (t.setFailing other failing).failingUnits ↔
      if unitId = other then failing = true else unitId ∈ t.failingUnits := by
  cases failing <;> by_cases h : unitId = other <;> simp [setFailing, h]

@[simp] theorem singleUnits_setFailing (t : BusTransport) (unitId : Nat) (failing : Bool) :
    (t.setFailing unitId failing).singleUnits = t.singleUnits := by
  cases failing <;> rfl

theorem probes_iff (t : BusTransport) (unitId : Nat) :
    t.probes unitId = true ↔ unitId ∈ t.failingUnits ∨ unitId ∈ t.singleUnits := by
  simp [probes, or_iff_not_imp_left]

end BusTransport

/-- Where `_scan_loop` waits: before its first step, for the first scan or its retry, for
`check_devices()` after it, for a periodic scan or its time. -/
inductive Loop where
  | created
  | initial (interval : ℚ)
  | checking
  | periodic (err : Bool) (interval : ℚ)
  deriving DecidableEq

/-- `scanTask` is the loop of a task which is not done; a done task is started again as a missing
one. -/
structure ModbusScanner where
  modbusAddress : Nat
  scanInterval : ℚ
  scanTask : Option Loop
  scanEnabled : Bool
  populated : Bool
  transport : BusTransport

/-- `firstScan` has the result of the first scan and whether `populate()` returned after it, `scan`
the result of a periodic one. `crashed` is an unexpected error of the loop, `neighbour` the mark of
another unit, `single` a change of `single_request()`. -/
inductive Action where
  | startScanning
  | stopScanning
  | set (scanEnabled : Bool)
  | begin
  | firstScan (res populated : Bool)
  | checked
  | scan (res : Bool)
  | crashed
  | neighbour (unitId : Nat) (failing : Bool)
  | single (units : Finset Nat)

/-- The result of the scan processed by the loop. -/
def Action.result : Action → Option Bool
  | .firstScan res _ => some res
  | .scan res => some res
  | _ => none

namespace ModbusScanner

def INITIAL_SCAN_INTERVAL : ℚ := 2
def MAX_SCAN_INTERVAL : ℚ := 16

def startScanning (s : ModbusScanner) : ModbusScanner :=
  if s.scanTask = none then { s with scanTask := some .created } else s

def stopScanning (s : ModbusScanner) : ModbusScanner := { s with scanTask := none }

/-- `set(scan_enabled=...)`. The alias changes nothing here. -/
def set (s : ModbusScanner) (scanEnabled : Bool) : ModbusScanner :=
  let s := { s with scanEnabled := scanEnabled }
  if scanEnabled then s.startScanning
  else if s.populated then s.stopScanning
  else s

def setFailing (s : ModbusScanner) (failing : Bool) : ModbusScanner :=
  { s with transport := s.transport.setFailing s.modbusAddress failing }

/-- The loop after the devices are created: it ends, or scans periodically. -/
def enterPeriodic (s : ModbusScanner) : ModbusScanner :=
  if s.scanEnabled then { s with scanTask := some (.periodic false s.scanInterval) }
  else { s with scanTask := none }

/-- The loop after its first scan. -/
def afterFirstScan (s : ModbusScanner) (interval : ℚ) (res populated : Bool) : ModbusScanner :=
  if res then
    let s := s.setFailing false
    -- an error of `populate()` ends the task
    if populated then { s with populated := true, scanTask := some .checking }
    else { s with scanTask := none }
  else
    { s.setFailing true with scanTask := some (.initial (min (interval * 2) MAX_SCAN_INTERVAL)) }

/-- The loop after a periodic scan. -/
def afterScan (s : ModbusScanner) (err : Bool) (interval : ℚ) (res : Bool) : ModbusScanner :=
  if res then
    let s := if err then s.setFailing false else s
    { s with scanTask := some (.periodic false s.scanInterval) }
  else
    let s := if err then s else s.setFailing true
    let slower := min (interval * 2) (max MAX_SCAN_INTERVAL s.scanInterval)
    { s with scanTask := some (.periodic true slower) }

/-- The state after an action, of the actions possible in the state. -/
def next (s : ModbusScanner) : Action → Option ModbusScanner
  | .startScanning => some s.startScanning
  | .stopScanning => some s.stopScanning
  | .set scanEnabled => some (s.set scanEnabled)
  | .begin =>
    if s.scanTask = some .created then
      if s.populated then some s.enterPeriodic
      else some { s with scanTask := some (.initial INITIAL_SCAN_INTERVAL) }
    else none
  | .firstScan res populated =>
    match s.scanTask with
    | some (.initial interval) => some (s.afterFirstScan interval res populated)
    | _ => none
  | .checked => if s.scanTask = some .checking then some s.enterPeriodic else none
  | .scan res =>
    match s.scanTask with
    | some (.periodic err interval) => some (s.afterScan err interval res)
    | _ => none
  | .crashed => if s.scanTask = none then none else some { s with scanTask := none }
  | .neighbour unitId failing =>
    if unitId = s.modbusAddress then none
    else some { s with transport := s.transport.setFailing unitId failing }
  | .single units => some { s with transport := { s.transport with singleUnits := units } }

/-- A scanner after its `__init__`, on a bus where nothing was sent to its unit. -/
structure Initial (s : ModbusScanner) : Prop where
  scanTask : s.scanTask = none
  populated : s.populated = false
  failing : s.modbusAddress ∉ s.transport.failingUnits
  scanInterval : 0 < s.scanInterval

def Step (s : ModbusScanner) (a : Action) (t : ModbusScanner) : Prop := s.next a = some t

theorem Step.unique (s : ModbusScanner) (a : Action) (t t' : ModbusScanner) (h : Step s a t)
    (h' : Step s a t') : t = t' := Option.some.inj (h.symm.trans h')

section Step

variable {s t : ModbusScanner} {a : Action}

theorem startScanning_spec (s : ModbusScanner) :
    ∃ task, s.startScanning = { s with scanTask := task } ∧
      (task = s.scanTask ∨ task = some .created) := by
  unfold startScanning
  split
  · exact ⟨_, rfl, .inr rfl⟩
  · exact ⟨s.scanTask, rfl, .inl rfl⟩

/-- `set` keeps the loop, cancels it, or starts a missing one. -/
theorem set_spec (s : ModbusScanner) (scanEnabled : Bool) :
    ∃ task, s.set scanEnabled = { s with scanEnabled := scanEnabled, scanTask := task } ∧
      (task = s.scanTask ∨ task = none ∨ task = some .created) := by
  cases scanEnabled with
  | true =>
    obtain ⟨task, heq, htask⟩ := startScanning_spec { s with scanEnabled := true }
    exact ⟨task, heq, htask.imp_right .inr⟩
  | false =>
    cases hpopulated : s.populated with
    | true => exact ⟨none, by simp [set, hpopulated, stopScanning], .inr (.inl rfl)⟩
    | false => exact ⟨s.scanTask, by simp [set, hpopulated], .inl rfl⟩

theorem enterPeriodic_spec (s : ModbusScanner) :
    ∃ task, s.enterPeriodic = { s with scanTask := task } ∧
      (task = none ∨ task = some (.periodic false s.scanInterval)) := by
  unfold enterPeriodic
  split
  · exact ⟨_, rfl, .inr rfl⟩
  · exact ⟨none, rfl, .inl rfl⟩

/-- An action without a scan keeps the mark of the unit. It starts no periodic scans but after the
first scan and at the begin of a loop. -/
theorem Step.quiet (h : Step s a t) (hresult : a.result = none) :
    (t.modbusAddress ∈ t.transport.failingUnits ↔ s.modbusAddress ∈ s.transport.failingUnits) ∧
      (∀ err interval, t.scanTask = some (.periodic err interval) →
        (a ≠ .begin ∧ s.scanTask = some (.periodic err interval)) ∨
          (err = false ∧ (a = .begin ∨ a = .checked ∧ s.scanTask = some .checking))) ∧
      (t.scanTask = some .checking → s.scanTask = some .checking) := by
  cases a with
  | startScanning =>
    obtain rfl := Option.some.inj h
    obtain ⟨task, heq, rfl | rfl⟩ := s.startScanning_spec <;> simp [heq]
  | stopScanning =>
    obtain rfl := Option.some.inj h
    simp [stopScanning]
  | set scanEnabled =>
    obtain rfl := Option.some.inj h
    obtain ⟨task, heq, rfl | rfl | rfl⟩ := s.set_spec scanEnabled <;> simp [heq]
  | begin =>
    simp only [Step, next] at h
    split_ifs at h with hcreated hpopulated <;> obtain rfl := Option.some.inj h
    · obtain ⟨task, heq, rfl | rfl⟩ := s.enterPeriodic_spec <;> simp +contextual [heq]
    · simp
  | firstScan res populated => cases hresult
  | checked =>
    simp only [Step, next] at h
    split_ifs at h with hchecking
    obtain rfl := Option.some.inj h
    obtain ⟨task, heq, rfl | rfl⟩ := s.enterPeriodic_spec <;> simp +contextual [heq, hchecking]
  | scan res => cases hresult
  | crashed =>
    simp only [Step, next] at h
    split_ifs at h
    obtain rfl := Option.some.inj h
    simp
  | neighbour unitId failing =>
    simp only [Step, next] at h
    split_ifs at h with hunit
    obtain rfl := Option.some.inj h
    simp [Ne.symm hunit]
  | single units =>
    obtain rfl := Option.some.inj h
    simp

theorem Step.firstScan {res populated : Bool} (h : Step s (.firstScan res populated) t) :
    ∃ interval, s.scanTask = some (.initial interval) ∧
      t = s.afterFirstScan interval res populated := by
  simp only [Step, next] at h
  split at h
  · next interval hinitial => exact ⟨interval, hinitial, (Option.some.inj h).symm⟩
  · cases h

theorem Step.scan {res : Bool} (h : Step s (.scan res) t) :
    ∃ err interval, s.scanTask = some (.periodic err interval) ∧
      t = s.afterScan err interval res := by
  simp only [Step, next] at h
  split at h
  · next err interval hperiodic => exact ⟨err, interval, hperiodic, (Option.some.inj h).symm⟩
  · cases h

/-- The intervals of the loop: the retries of the first scan and the scans of a failing unit are
slowed down up to a limit. -/
def Paced (s : ModbusScanner) : Prop :=
  0 < s.scanInterval ∧
    (∀ interval, s.scanTask = some (.initial interval) →
      INITIAL_SCAN_INTERVAL ≤ interval ∧ interval ≤ MAX_SCAN_INTERVAL) ∧
    ∀ err interval, s.scanTask = some (.periodic err interval) →
      s.scanInterval ≤ interval ∧ interval ≤ max MAX_SCAN_INTERVAL s.scanInterval

theorem initial_le_max : INITIAL_SCAN_INTERVAL ≤ MAX_SCAN_INTERVAL := by
  norm_num [INITIAL_SCAN_INTERVAL, MAX_SCAN_INTERVAL]

theorem Paced.step (hs : s.Paced) (h : Step s a t) : t.Paced := by
  obtain ⟨hpos, hinitial, hperiodic⟩ := hs
  cases a with
  | startScanning =>
    obtain rfl := Option.some.inj h
    obtain ⟨task, heq, rfl | rfl⟩ := s.startScanning_spec
    · exact heq ▸ ⟨hpos, hinitial, hperiodic⟩
    · simp [Paced, heq, hpos]
  | stopScanning =>
    obtain rfl := Option.some.inj h
    simp [Paced, stopScanning, hpos]
  | set scanEnabled =>
    obtain rfl := Option.some.inj h
    obtain ⟨task, heq, rfl | rfl | rfl⟩ := s.set_spec scanEnabled
    · exact heq ▸ ⟨hpos, hinitial, hperiodic⟩
    · simp [Paced, heq, hpos]
    · simp [Paced, heq, hpos]
  | begin =>
    simp only [Step, next] at h
    split_ifs at h with hcreated hpopulated <;> obtain rfl := Option.some.inj h
    · obtain ⟨task, heq, rfl | rfl⟩ := s.enterPeriodic_spec <;> simp [Paced, heq, hpos]
    · simp [Paced, hpos, initial_le_max]
  | firstScan res populated =>
    obtain ⟨interval, htask, rfl⟩ := h.firstScan
    obtain ⟨hmin, hmax⟩ := hinitial interval htask
    have hslower : INITIAL_SCAN_INTERVAL ≤ interval * 2 := by
      simp only [INITIAL_SCAN_INTERVAL] at hmin ⊢
      linarith
    cases res with
    | false =>
      refine ⟨hpos, fun interval' heq => ?_, by simp [afterFirstScan]⟩
      obtain rfl : min (interval * 2) MAX_SCAN_INTERVAL = interval' := by
        simpa [afterFirstScan] using heq
      exact ⟨le_min hslower initial_le_max, min_le_right _ _⟩
    | true => cases populated <;> simp [Paced, afterFirstScan, setFailing, hpos]
  | checked =>
    simp only [Step, next] at h
    split_ifs at h
    obtain rfl := Option.some.inj h
    obtain ⟨task, heq, rfl | rfl⟩ := s.enterPeriodic_spec <;> simp [Paced, heq, hpos]
  | scan res =>
    obtain ⟨err, interval, htask, rfl⟩ := h.scan
    obtain ⟨hmin, hmax⟩ := hperiodic err interval htask
    have hslower : s.scanInterval ≤ interval * 2 := by linarith
    cases res with
    | false =>
      have hscan : (s.afterScan err interval false).scanInterval = s.scanInterval := by
        cases err <;> rfl
      rw [Paced, hscan]
      refine ⟨hpos, by simp [afterScan], fun err' interval' heq => ?_⟩
      obtain rfl : min (interval * 2) (max MAX_SCAN_INTERVAL s.scanInterval) = interval' := by
        cases err <;> simp_all [afterScan, setFailing]
      exact ⟨le_min hslower (le_max_right _ _), min_le_right _ _⟩
    | true => cases err <;> simp [Paced, afterScan, setFailing, hpos]
  | crashed =>
    simp only [Step, next] at h
    split_ifs at h
    obtain rfl := Option.some.inj h
    simp [Paced, hpos]
  | neighbour unitId failing =>
    simp only [Step, next] at h
    split_ifs at h
    obtain rfl := Option.some.inj h
    exact ⟨hpos, hinitial, hperiodic⟩
  | single units =>
    obtain rfl := Option.some.inj h
    exact ⟨hpos, hinitial, hperiodic⟩

end Step

/-- A failing unit is scanned again after `MAX_SCAN_INTERVAL`, or its longer own interval, at the
latest. -/
theorem interval_le {s₀ s : ModbusScanner} (hinit : s₀.Initial) {actions : List Action}
    (hrun : Transition.Run Step s₀ actions s) : s.Paced := by
  refine hrun.invariant (fun s a t hs h => hs.step h) ⟨hinit.scanInterval, ?_, ?_⟩ <;>
    simp [hinit.scanTask]

end ModbusScanner

end Scanner

end Evok
