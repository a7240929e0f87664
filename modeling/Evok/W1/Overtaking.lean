import Evok.W1.Located
import Evok.W1.Poll
import Mathlib.Data.Finset.Max
import Mathlib.Data.Finset.Range
import Mathlib.Data.Prod.Lex
import Mathlib.Tactic.IntervalCases
import Mathlib.Tactic.Linarith

/-!
# No sensor is left behind by the poll

A sensor which is due waits while other sensors are read. Their times are after it once they were
read, so that each of them is read a bounded number of times more, whatever the scans and the
requests do in the meantime, and the poll does not sleep.

## Main definitions

* `PollState.Waits`: a due sensor is located and not read.
* `PollState.Inv`: the invariant of the timed poll.
* `PollState.stake`: the reads of a sensor which may come before the waiting one.

## Main results

* `PollState.run_onBus`: the timed poll is a poll of the bus.
* `PollState.overtaken_le`: how often a sensor is read while another one waits.
-/

namespace Evok

namespace W1

/-- The sensors whose reads have started. -/
def Poll.reads : Poll → List ℕ
  | .reading sensor _ group => sensor :: group
  | _ => []

def Poll.isConverting : Poll → Bool
  | .converting _ => true
  | _ => false

theorem Poll.reads_subset (poll : Poll) : poll.reads ⊆ poll.sensors := by
  cases poll with
  | reading => exact List.Subset.refl _
  | sleeping | converting => exact List.nil_subset _

/-! ## The devices -/

namespace OwBus

/-- The addresses of the sensors with their devices. -/
def devices (bus : OwBus) : List (String × Option Slave) :=
  bus.mysensors.map fun x => (x.address, x.sens)

section
variable {bus bus' : OwBus} (h : bus'.devices = bus.devices)
include h

theorem length_of_devices : bus'.mysensors.length = bus.mysensors.length := by
  simpa [devices] using congrArg List.length h

theorem sens_of_devices (i : ℕ) :
    bus'.mysensors[i]?.bind (·.sens) = bus.mysensors[i]?.bind (·.sens) := by
  have hget := congrArg (fun l => l[i]?.bind (·.2)) h
  simpa [devices, Option.bind_map] using hget

theorem isThermometer_of_devices (i : ℕ) : bus'.isThermometer i = bus.isThermometer i := by
  rw [isThermometer, isThermometer, sens_of_devices h]

theorem first_of_devices (hfirst : First bus.mysensors) : First bus'.mysensors := by
  have hget : ∀ (j : ℕ) (y' : MySensor), bus'.mysensors[j]? = some y' → ∃ y : MySensor,
      bus.mysensors[j]? = some y ∧ y.address = y'.address ∧ y.sens = y'.sens := by
    intro j y' hy'
    have hj : bus.devices[j]? = some (y'.address, y'.sens) := by
      rw [← h, devices, List.getElem?_map, hy']
      rfl
    obtain ⟨y, hy, heq⟩ := Option.map_eq_some_iff.mp ((List.getElem?_map ..).symm.trans hj)
    exact ⟨y, hy, (Prod.mk.inj heq).1, (Prod.mk.inj heq).2⟩
  intro i x' hx' hsome j hj y' hy'
  obtain ⟨x, hx, haddress, hsens⟩ := hget i x' hx'
  obtain ⟨y, hy, haddress', -⟩ := hget j y' hy'
  rw [← haddress, ← haddress']
  exact hfirst i x hx (hsens ▸ hsome) j hj y hy

end

theorem located_eq (bus : OwBus) (i : ℕ) :
    bus.located i = (bus.mysensors[i]?.bind (·.sens)).isSome := by
  rw [located]
  cases bus.mysensors[i]? <;> rfl

theorem located_of_devices {bus bus' : OwBus} (h : bus'.devices = bus.devices) (i : ℕ) :
    bus'.located i = bus.located i := by
  rw [located_eq, located_eq, sens_of_devices h]

theorem located_of_isThermometer {bus : OwBus} {i : ℕ} (h : bus.isThermometer i) : bus.located i := by
  rw [located_eq]
  cases hsens : bus.mysensors[i]?.bind (·.sens) with
  | none => simp [isThermometer, hsens] at h
  | some sens => rfl

theorem lt_of_located {bus : OwBus} {i : ℕ} (h : bus.located i) : i < bus.mysensors.length := by
  by_contra hge
  simp [located, List.getElem?_eq_none (Nat.le_of_not_lt hge)] at h

theorem devices_modify (bus : OwBus) (i : ℕ) (lost : Bool) :
    (bus.modify i fun x => { x with lost := lost }).devices = bus.devices := by
  refine List.ext_getElem? fun j => ?_
  rw [devices, devices, List.getElem?_map, List.getElem?_map, modify, List.getElem?_modify]
  cases bus.mysensors[j]? with
  | none => rfl
  | some x => by_cases heq : i = j <;> simp [heq]

theorem lost_modify {bus : OwBus} {i j : ℕ} {lost : Bool}
    (h : (bus.modify i fun x => { x with lost := lost }).lost j) :
    (j = i ∧ lost = true) ∨ (j ≠ i ∧ bus.lost j) := by
  rw [OwBus.lost, modify, List.getElem?_modify] at h
  cases hx : bus.mysensors[j]? with
  | none => simp [hx] at h
  | some x =>
    by_cases heq : i = j
    · exact .inl ⟨heq.symm, by simpa [hx, heq] using h⟩
    · exact .inr ⟨Ne.symm heq, by simpa [OwBus.lost, hx, heq] using h⟩

/-- A sensor with a device after a scan had the same one before it, or none. -/
theorem updated_sens {bus : OwBus} (hfirst : First bus.mysensors) (taken : String → Bool)
    (names : List Slave) {i : ℕ} (h : (bus.updated taken names).located i) :
    bus.located i = false ∨ (bus.updated taken names).mysensors[i]?.bind (·.sens) =
      bus.mysensors[i]?.bind (·.sens) := by
  obtain ⟨mid, hgrows, -, hlast⟩ := updated_cases taken names hfirst
  have hloses : Loses mid.mysensors (bus.updated taken names).mysensors := by
    rcases hlast with ⟨-, -, found, -, heq⟩ | ⟨-, mysensors, hloses, heq⟩
    · rw [heq]
      exact Loses.map found _
    · rw [heq]
      exact hloses
  cases hx : bus.mysensors[i]? with
  | none => exact .inl (by simp [located, hx])
  | some x =>
    cases hsens : x.sens with
    | none => exact .inl (by simp [located, hx, hsens])
    | some sens =>
      right
      obtain ⟨x', hx', -, -, hsame⟩ := hgrows.old i x hx
      cases hx'' : (bus.updated taken names).mysensors[i]? with
      | none => simp [located, hx''] at h
      | some x'' =>
        obtain ⟨y, hy, rfl | rfl⟩ := hloses.before hx''
        · obtain rfl := Option.some.inj (hx'.symm.trans hy)
          simpa [hsens] using hsame (by simp [hsens])
        · simp [located, hx'', MySensor.lose] at h

theorem updated_first {bus : OwBus} (hfirst : First bus.mysensors) (taken : String → Bool)
    (names : List Slave) :
    First (bus.updated taken names).mysensors ∧ (bus.updated taken names).poll = bus.poll := by
  obtain ⟨mid, hgrows, hfirst', ⟨-, -, found, -, heq⟩ | ⟨-, mysensors, hloses, heq⟩⟩ :=
    updated_cases taken names hfirst
  · rw [heq]
    exact ⟨(Loses.map found _).first hfirst', hgrows.poll⟩
  · rw [heq]
    exact ⟨hloses.first hfirst', hgrows.poll⟩

end OwBus

/-! ## The next read of a sensor -/

namespace Timing

variable {t : Timing} {now : ℚ} {lost : Bool}

theorem interval_next : (t.next lost now).interval = t.interval := by
  unfold next
  split <;> rfl

theorem lostInterval_next (h : lost → 0 < t.lostInterval) :
    lost → 0 < (t.next lost now).lostInterval := by
  intro hlost
  have := h hlost
  simp only [next, hlost, if_true, maxLostInterval]
  omega

/-- The next read is later. -/
theorem lt_time_next (positive : 0 < t.interval) (h : lost → 0 < t.lostInterval) :
    now < (t.next lost now).time := by
  unfold next
  split
  · next hlost =>
    have := h hlost
    have hpos : 0 < min (2 * t.lostInterval) maxLostInterval := by
      simp only [maxLostInterval]
      omega
    exact lt_add_of_pos_right now (Nat.cast_pos.mpr hpos)
  · exact lt_add_of_pos_right now (Nat.cast_pos.mpr positive)

end Timing

namespace PollState

/-- The intervals are positive, also of a lost sensor. -/
structure Positive (s : PollState) : Prop where
  interval : 0 < s.interval
  sensor : ∀ i, 0 < (s.timing i).interval
  lost : ∀ i, s.bus.lost i → 0 < (s.timing i).lostInterval

/-- What the end of reads changes: the times of the sensors which were read. -/
structure Passes (s t : PollState) : Prop where
  now : t.now = s.now
  converter : t.converter = s.converter
  devices : t.bus.devices = s.bus.devices
  positive : t.Positive
  time : ∀ i, (t.timing i).time = (s.timing i).time ∨ s.now < (t.timing i).time

theorem Passes.trans {s t u : PollState} (h : Passes s t) (h' : Passes t u) : Passes s u := by
  refine ⟨h'.now.trans h.now, h'.converter.trans h.converter, h'.devices.trans h.devices,
    h'.positive, fun i => ?_⟩
  rcases h'.time i with heq | hlt
  · rw [heq]
    exact h.time i
  · exact .inr (h.now ▸ hlt)

/-- A sensor stays after the present. -/
theorem Passes.lt_time {s t : PollState} (h : Passes s t) {i : ℕ}
    (hlt : s.now < (s.timing i).time) : s.now < (t.timing i).time := by
  rcases h.time i with heq | hlt'
  · rwa [heq]
  · exact hlt'

theorem finish_spec {s : PollState} (h : s.Positive) (i : ℕ) (success : Bool) :
    Passes s (s.finish i success) ∧ s.now < ((s.finish i success).timing i).time := by
  -- the timing before `calc_interval`
  let t := if !success && !s.bus.lost i then (s.timing i).lose else s.timing i
  have hinterval : 0 < t.interval := by
    have := h.sensor i
    unfold t
    split <;> exact this
  have hlost : (!success) = true → 0 < t.lostInterval := by
    intro hfails
    unfold t
    split
    · exact h.sensor i
    · next hnot => exact h.lost i (by simpa [hfails] using hnot)
  have htime : ((s.finish i success).timing i) = t.next (!success) s.now :=
    Function.update_self ..
  have hother : ∀ j, j ≠ i → (s.finish i success).timing j = s.timing j := fun j hj =>
    Function.update_of_ne hj ..
  have hlater : s.now < ((s.finish i success).timing i).time := by
    rw [htime]
    exact Timing.lt_time_next hinterval hlost
  refine ⟨⟨rfl, rfl, OwBus.devices_modify .., ⟨h.interval, fun j => ?_, fun j hj => ?_⟩,
    fun j => ?_⟩, hlater⟩
  · by_cases heq : j = i
    · rw [heq, htime, Timing.interval_next]
      exact hinterval
    · rw [hother j heq]
      exact h.sensor j
  · rcases OwBus.lost_modify hj with ⟨rfl, hfails⟩ | ⟨hne, hj⟩
    · rw [htime]
      exact Timing.lostInterval_next hlost hfails
    · rw [hother j hne]
      exact h.lost j hj
  · by_cases heq : j = i
    · exact .inr (heq ▸ hlater)
    · exact .inl (by rw [hother j heq])

/-- The sensors of a group are read or were read; without a read the poll is awake. -/
structure Starts (group : List ℕ) (s t : PollState) : Prop extends Passes s t where
  sublist : t.bus.poll.reads.Sublist group
  mem : ∀ i ∈ group, i ∈ t.bus.poll.reads ∨ s.now < (t.timing i).time
  converting : t.bus.poll.isConverting = false
  awake : t.bus.poll = .sleeping → t.wakeup ≤ t.now

theorem readNext_spec {s : PollState} (h : s.Positive) (group : List ℕ) :
    Starts group s (s.readNext group) := by
  induction group generalizing s with
  | nil =>
    exact ⟨⟨rfl, rfl, rfl, ⟨h.interval, h.sensor, h.lost⟩, fun _ => .inl rfl⟩,
      List.Sublist.refl [], by simp, rfl, fun _ => le_refl s.now⟩
  | cons i group ih =>
    unfold readNext
    cases s.bus.mysensors[i]?.bind (·.sens) with
    | some sens =>
      exact ⟨⟨rfl, rfl, rfl, ⟨h.interval, h.sensor, h.lost⟩, fun _ => .inl rfl⟩,
        List.Sublist.refl _, fun j hj => .inl hj, rfl, by simp⟩
    | none =>
      obtain ⟨hpasses, hlater⟩ := finish_spec h i false
      have hrest := ih hpasses.positive
      refine ⟨hpasses.trans hrest.toPasses, hrest.sublist.cons i, fun j hj => ?_,
        hrest.converting, hrest.awake⟩
      rcases List.mem_cons.mp hj with rfl | hj
      · exact .inr (hrest.lt_time hlater)
      · exact hrest.mem j hj

/-! ## The invariant -/

/-- The reads of a group are different, and no wake-up is missed. -/
structure Inv (s : PollState) : Prop where
  positive : s.Positive
  first : First s.bus.mysensors
  nodup : s.bus.poll.sensors.Nodup
  converter : ∀ group, s.bus.poll = .converting group → s.converter ∈ group
  awake : s.bus.poll = .sleeping →
    s.wakeup ≤ s.now ∨ ∀ j, s.bus.located j → s.wakeup ≤ (s.timing j).time

theorem Starts.inv {s t : PollState} {group : List ℕ} (h : Starts group s t)
    (hfirst : First s.bus.mysensors) (nodup : group.Nodup) : t.Inv := by
  refine ⟨h.positive, OwBus.first_of_devices h.devices hfirst, ?_, ?_, fun hpoll =>
    .inl (h.awake hpoll)⟩
  · have hsub := h.sublist
    cases hpoll : t.bus.poll with
    | sleeping => exact List.nodup_nil
    | converting group => simpa [hpoll, Poll.isConverting] using h.converting
    | reading sensor sens group =>
      rw [hpoll] at hsub
      exact hsub.nodup nodup
  · intro group hpoll
    simpa [hpoll, Poll.isConverting] using h.converting

/-- The sleep ends with the smallest time. -/
theorem deadline_le (s : PollState) {i : ℕ} (h : s.bus.located i) :
    s.deadline ≤ (s.timing i).time := by
  have hmem : (s.timing i).time ∈ s.times :=
    List.mem_map.mpr ⟨i, by simp [OwBus.lt_of_located h, h], rfl⟩
  cases hmin : s.times.min? with
  | none => simp [List.min?_eq_none_iff.mp hmin] at hmem
  | some time =>
    rw [deadline, hmin]
    exact (List.min?_eq_some_iff.mp hmin).2 _ hmem

/-- A due thermometer is converted with the others. -/
theorem mem_group {s : PollState} (h : s.Positive) {i : ℕ} (thermometer : s.bus.isThermometer i)
    (due : (s.timing i).time ≤ s.now) : i ∈ s.group := by
  refine List.mem_filter.mpr ⟨?_, ?_⟩
  · exact List.mem_range.mpr (OwBus.lt_of_located (OwBus.located_of_isThermometer thermometer))
  · have hpos : (0 : ℚ) < (s.timing i).interval := Nat.cast_pos.mpr (h.sensor i)
    have hdue : (s.timing i).time - s.now ≤ (s.timing i).interval / 2 := by linarith
    simp [thermometer, hdue]

/-- The sensors which are lost by a change get the interval of `set_lost`. -/
theorem Positive.timing {s : PollState} (bus : OwBus) {timing : ℕ → Timing}
    (sensor : ∀ i, 0 < (timing i).interval)
    (lost : ∀ i, s.bus.lost i → 0 < (timing i).lostInterval) :
    (∀ i, 0 < (s.bus.timing bus timing i).interval) ∧
      (∀ i, bus.lost i → 0 < (s.bus.timing bus timing i).lostInterval) ∧
      ∀ i, (s.bus.timing bus timing i).time = (timing i).time := by
  refine ⟨fun i => ?_, fun i hi => ?_, fun i => ?_⟩
  · unfold OwBus.timing
    split
    · exact sensor i
    · exact sensor i
  · unfold OwBus.timing
    split
    · exact sensor i
    · next hnot => exact lost i (by simpa [hi] using hnot)
  · unfold OwBus.timing
    split <;> rfl

/-- What a scan does to the times. -/
structure Scans (bus : OwBus) (s t : PollState) : Prop where
  bus_eq : t.bus = bus
  now : t.now = s.now
  converter : t.converter = s.converter
  positive : t.Positive
  located : ∀ i, bus.located i → i ∉ s.bus.newlyLocated bus → s.bus.located i
  time : ∀ i, s.bus.located i → (t.timing i).time = (s.timing i).time
  missed : s.bus.newlyLocated bus = [] → t.wakeup = s.wakeup
  woken : s.bus.newlyLocated bus ≠ [] → t.wakeup ≤ t.now

theorem lost_lt {bus : OwBus} {i : ℕ} (h : bus.lost i) : i < bus.mysensors.length := by
  by_contra hge
  simp [OwBus.lost, List.getElem?_eq_none (Nat.le_of_not_lt hge)] at h

theorem scanned_spec {s : PollState} (h : s.Positive) (bus : OwBus) :
    Scans bus s (s.scanned bus) := by
  have hsensor : ∀ i, 0 < (s.created i).interval := by
    intro i
    unfold created
    split
    · exact h.sensor i
    · exact h.interval
  have hcreated : ∀ i, s.bus.lost i → 0 < (s.created i).lostInterval := by
    intro i hi
    rw [created, if_pos (lost_lt hi)]
    exact h.lost i hi
  obtain ⟨hinterval, hlost, htime⟩ := Positive.timing bus hsensor hcreated
  let mid : PollState := { s with
    bus, timing := fun i => if i ∈ s.bus.newlyLocated bus then
      { s.bus.timing bus s.created i with time := 0 } else s.bus.timing bus s.created i }
  have hscanned : s.scanned bus = if s.bus.newlyLocated bus = [] then mid else mid.wake := rfl
  have hpositive : mid.Positive := by
    refine ⟨h.interval, fun i => ?_, fun i hi => ?_⟩
    · dsimp only [mid]
      split <;> exact hinterval i
    · dsimp only [mid]
      split <;> exact hlost i hi
  have hlocated : ∀ i, bus.located i → i ∉ s.bus.newlyLocated bus → s.bus.located i := by
    intro i hi hnew
    simpa [OwBus.newlyLocated, OwBus.lt_of_located hi, hi] using hnew
  have hold : ∀ i, s.bus.located i → (mid.timing i).time = (s.timing i).time := by
    intro i hi
    have hnot : i ∉ s.bus.newlyLocated bus := by simp [OwBus.newlyLocated, hi]
    simp only [mid, if_neg hnot, htime, created, if_pos (OwBus.lt_of_located hi)]
  rw [hscanned]
  by_cases hfound : s.bus.newlyLocated bus = []
  · rw [if_pos hfound]
    exact ⟨rfl, rfl, rfl, hpositive, hlocated, hold, fun _ => rfl, fun hne => absurd hfound hne⟩
  · rw [if_neg hfound]
    exact ⟨rfl, rfl, rfl, ⟨hpositive.interval, hpositive.sensor, hpositive.lost⟩, hlocated, hold,
      fun heq => absurd heq hfound, fun _ => min_le_right ..⟩

theorem setSensorInterval_spec {s : PollState} (h : s.Positive) (i : ℕ) {interval : ℕ}
    (positive : 0 < interval) :
    Passes s (s.setSensorInterval i interval) ∧
      s.now < ((s.setSensorInterval i interval).timing i).time := by
  let t : Timing := { s.timing i with interval }
  have htime : (s.setSensorInterval i interval).timing i = t.next (s.bus.lost i) s.now :=
    Function.update_self ..
  have hother : ∀ j, j ≠ i → (s.setSensorInterval i interval).timing j = s.timing j := fun j hj =>
    Function.update_of_ne hj ..
  have hlater : s.now < ((s.setSensorInterval i interval).timing i).time := by
    rw [htime]
    exact Timing.lt_time_next positive (h.lost i)
  refine ⟨⟨rfl, rfl, rfl, ⟨h.interval, fun j => ?_, fun j hj => ?_⟩, fun j => ?_⟩, hlater⟩
  · by_cases heq : j = i
    · rw [heq, htime, Timing.interval_next]
      exact positive
    · rw [hother j heq]
      exact h.sensor j
  · by_cases heq : j = i
    · rw [heq, htime]
      exact Timing.lostInterval_next (h.lost i) (heq ▸ hj)
    · rw [hother j heq]
      exact h.lost j hj
  · by_cases heq : j = i
    · exact .inr (heq ▸ hlater)
    · exact .inl (by rw [hother j heq])

theorem Inv.of_init {s : PollState} (init : s.Init) : s.Inv := by
  have hsens : ∀ (i : ℕ) (x : MySensor), s.bus.mysensors[i]? = some x → x.sens = none ∧
      x.lost = false := fun i x hx => init.sensors x (List.mem_of_getElem? hx)
  refine ⟨⟨init.interval, init.sensorInterval, fun i hi => ?_⟩, fun i x hx hsome => ?_, ?_, ?_,
    fun _ => .inr fun j hj => ?_⟩
  · cases hx : s.bus.mysensors[i]? with
    | none => simp [OwBus.lost, hx] at hi
    | some x => simp [OwBus.lost, hx, (hsens i x hx).2] at hi
  · simp [(hsens i x hx).1] at hsome
  · rw [init.poll]
    exact List.nodup_nil
  · simp [init.poll]
  · cases hx : s.bus.mysensors[j]? with
    | none => simp [OwBus.located, hx] at hj
    | some x => simp [OwBus.located, hx, (hsens j x hx).1] at hj

theorem not_located_restarted (s : PollState) (i : ℕ) : s.restarted.bus.located i = false := by
  change (s.bus.mysensors.map MySensor.lose)[i]?.any (·.sens.isSome) = false
  rw [List.getElem?_map]
  cases s.bus.mysensors[i]? <;> rfl

theorem Inv.step {s t : PollState} {event : Event} (h : s.Inv) (hstep : s.Step event t) :
    t.Inv := by
  cases hstep with
  | tick later =>
    refine ⟨⟨h.positive.interval, h.positive.sensor, h.positive.lost⟩, h.first, h.nodup,
      h.converter, fun hpoll => ?_⟩
    exact (h.awake hpoll).imp (le_trans · later) id
  | sleep =>
    exact ⟨⟨h.positive.interval, h.positive.sensor, h.positive.lost⟩, h.first, h.nodup,
      h.converter, fun _ => .inr fun j hj => s.deadline_le hj⟩
  | @read i => exact (readNext_spec h.positive [i]).inv h.first (List.nodup_singleton i)
  | convert sleeping awake next thermometer =>
    refine ⟨⟨h.positive.interval, h.positive.sensor, h.positive.lost⟩, h.first,
      List.nodup_range.filter _, fun group hpoll => ?_, by simp⟩
    obtain rfl := Poll.converting.inj hpoll
    exact mem_group h.positive thermometer next.due
  | @converted group converting =>
    have hnodup := h.nodup
    rw [converting] at hnodup
    exact (readNext_spec h.positive group).inv h.first hnodup
  | notConverted => exact (readNext_spec h.positive _).inv h.first (List.nodup_singleton _)
  | @readDone sensor sens group success reading =>
    have hnodup := h.nodup
    rw [reading] at hnodup
    have hpasses := (finish_spec h.positive sensor success).1
    exact (readNext_spec hpasses.positive group).inv
      (OwBus.first_of_devices hpasses.devices h.first) (List.nodup_cons.mp hnodup).2
  | scan taken names =>
    obtain ⟨hfirst, hpoll⟩ := OwBus.updated_first h.first taken names
    have hscans := scanned_spec h.positive (s.bus.updated taken names)
    rw [← hscans.bus_eq] at hfirst hpoll
    refine ⟨hscans.positive, hfirst, hpoll ▸ h.nodup, fun group hgroup => ?_, fun hsleeps => ?_⟩
    · rw [hscans.converter]
      exact h.converter group (hpoll ▸ hgroup)
    · by_cases hfound : s.bus.newlyLocated (s.bus.updated taken names) = []
      · rw [hscans.missed hfound, hscans.now]
        refine (h.awake (hpoll ▸ hsleeps)).imp id fun hearly j hj => ?_
        have hold := hscans.located j (hscans.bus_eq ▸ hj) (by simp [hfound])
        rw [hscans.time j hold]
        exact hearly j hold
      · exact .inl (hscans.woken hfound)
  | setInterval positive =>
    refine ⟨⟨positive, fun _ => positive, h.positive.lost⟩, h.first, h.nodup, h.converter,
      fun _ => .inl (min_le_right ..)⟩
  | @setSensorInterval i interval exist positive =>
    have hpasses := (setSensorInterval_spec h.positive i positive).1
    exact ⟨hpasses.positive, h.first, h.nodup, h.converter, fun _ => .inl (min_le_right ..)⟩
  | restart =>
    obtain ⟨hinterval, hlost, -⟩ := Positive.timing s.bus.restarted h.positive.sensor
      h.positive.lost
    refine ⟨⟨h.positive.interval, hinterval, hlost⟩, fun i x hx hsome => ?_, List.nodup_nil,
      fun group hpoll => ?_, fun _ => .inl (le_refl s.now)⟩
    · obtain ⟨y, -, rfl⟩ := List.mem_map.mp (List.mem_of_getElem? hx)
      simp [MySensor.lose] at hsome
    · simp [restarted, OwBus.restarted] at hpoll

/-! ## The poll of the bus -/

theorem bus_scanned (s : PollState) (bus : OwBus) : (s.scanned bus).bus = bus := by
  unfold scanned
  dsimp only
  split <;> rfl

theorem Step.onBus {s t : PollState} {event : Event} (h : s.Inv) (hstep : s.Step event t) :
    Transition.Run OwBus.Step s.bus event.onBus.toList t.bus := by
  cases hstep with
  | tick | sleep | setInterval | setSensorInterval => exact .nil s.bus
  | @read i sleeping awake next =>
    rw [bus_readNext]
    exact .single (.read sleeping next.located)
  | convert sleeping =>
    refine .single (.convert sleeping (List.nodup_range.filter _) fun i hi => ?_)
    have hmem := (List.mem_filter.mp hi).2
    rw [Bool.and_eq_true] at hmem
    exact OwBus.located_of_isThermometer hmem.1
  | converted converting =>
    rw [bus_readNext]
    exact .single (.converted converting)
  | notConverted converting =>
    rw [bus_readNext]
    exact .single (.notConverted converting (h.converter _ converting))
  | readDone success reading =>
    rw [bus_readNext]
    exact .single (.readDone success reading)
  | scan taken names =>
    rw [bus_scanned]
    exact .single (.update taken names)
  | restart => exact .single .restart

/-- The timed poll is a poll of the bus, with a part of its orders of reads. -/
theorem run_onBus {s t : PollState} {events : List Event} (init : s.Init)
    (run : Transition.Run Step s events t) :
    Transition.Run OwBus.Step s.bus (events.filterMap Event.onBus) t.bus :=
  run.map_filterMap (fun _ _ _ h hstep => h.step hstep) (fun _ _ _ h hstep => hstep.onBus h)
    (.of_init init)

/-! ## The reads before a waiting sensor -/

/-- The sensor is due, has its device and is not read. -/
structure Waits (s : PollState) (i : ℕ) : Prop where
  located : s.bus.located i
  due : (s.timing i).time ≤ s.now
  unread : i ∉ s.bus.poll.reads

/-- A sensor is read or may be read alone before the waiting one. -/
def mayRead (s : PollState) (i j : ℕ) : Bool :=
  j ∈ s.bus.poll.reads || s.bus.located j && (s.timing j).time ≤ (s.timing i).time ||
    s.bus.poll.isConverting && s.converter = j

/-- A conversion may start before the read of the waiting sensor. -/
def mayConvert (s : PollState) (i : ℕ) : Bool :=
  (List.range s.bus.mysensors.length).any fun m =>
    s.bus.isThermometer m && (s.timing m).time ≤ (s.timing i).time && m ∉ s.bus.poll.sensors

/-- The reads of a sensor which may come before the waiting one: alone, and after a conversion
which has started or may start. -/
def stake (s : PollState) (i j : ℕ) : ℕ :=
  (s.mayRead i j).toNat + s.bus.poll.isConverting.toNat + (s.mayConvert i).toNat

theorem stake_le (s : PollState) (i j : ℕ) : s.stake i j ≤ 3 := by
  have hread := (s.mayRead i j).toNat_le
  have hconverting := s.bus.poll.isConverting.toNat_le
  have hconvert := (s.mayConvert i).toNat_le
  unfold stake
  omega

theorem mayRead_iff {s : PollState} {i j : ℕ} : s.mayRead i j ↔
    j ∈ s.bus.poll.reads ∨ (s.bus.located j ∧ (s.timing j).time ≤ (s.timing i).time) ∨
      (s.bus.poll.isConverting ∧ s.converter = j) := by
  simp [mayRead, or_assoc]

theorem mayConvert_iff {s : PollState} {i : ℕ} : s.mayConvert i ↔
    ∃ m, s.bus.isThermometer m ∧ (s.timing m).time ≤ (s.timing i).time ∧
      m ∉ s.bus.poll.sensors := by
  rw [mayConvert, List.any_eq_true]
  constructor
  · rintro ⟨m, -, hm⟩
    exact ⟨m, by simpa [and_assoc] using hm⟩
  · rintro ⟨m, hthermometer, hm⟩
    have hlt := OwBus.lt_of_located (OwBus.located_of_isThermometer hthermometer)
    exact ⟨m, List.mem_range.mpr hlt, by simpa [hthermometer] using hm⟩

theorem toNat_mono {b c : Bool} (h : b → c) : b.toNat ≤ c.toNat :=
  Bool.toNat_le_toNat (Bool.le_iff_imp.mpr h)

/-- A sensor before the waiting one was before it already, without a read. -/
theorem Passes.time_le {s t : PollState} (h : Passes s t) {i j : ℕ} (waits : t.Waits i)
    (hle : (t.timing j).time ≤ (t.timing i).time) :
    (s.timing j).time ≤ (s.timing i).time ∧ (t.timing j).time ≤ s.now := by
  have hdue : (t.timing i).time ≤ s.now := h.now ▸ waits.due
  have hj := hle.trans hdue
  have hsame : ∀ m, (t.timing m).time ≤ s.now → (t.timing m).time = (s.timing m).time :=
    fun m hm => (h.time m).resolve_right (not_lt.mpr hm)
  rw [← hsame i hdue, ← hsame j hj]
  exact ⟨hle, hj⟩

theorem Starts.mayRead {s t : PollState} {group : List ℕ} (h : Starts group s t) {i j : ℕ}
    (waits : t.Waits i) (hread : t.mayRead i j) :
    j ∈ t.bus.poll.reads ∨
      (s.bus.located j ∧ (s.timing j).time ≤ (s.timing i).time ∧ (t.timing j).time ≤ s.now) := by
  rcases mayRead_iff.mp hread with hmem | ⟨hlocated, hle⟩ | ⟨hconverting, -⟩
  · exact .inl hmem
  · rw [OwBus.located_of_devices h.devices] at hlocated
    exact .inr ⟨hlocated, h.time_le waits hle⟩
  · simp [h.converting] at hconverting

theorem Starts.mayConvert {s t : PollState} {group : List ℕ} (h : Starts group s t) {i : ℕ}
    (waits : t.Waits i) (sub : s.bus.poll.sensors ⊆ group) (hconvert : t.mayConvert i) :
    s.mayConvert i := by
  obtain ⟨m, hthermometer, hle, hmem⟩ := mayConvert_iff.mp hconvert
  obtain ⟨hle', hdue⟩ := h.time_le waits hle
  rw [OwBus.isThermometer_of_devices h.devices] at hthermometer
  refine mayConvert_iff.mpr ⟨m, hthermometer, hle', fun hs => ?_⟩
  rcases h.mem m (sub hs) with hreads | hlt
  · exact hmem (Poll.reads_subset _ hreads)
  · exact absurd hdue (not_le.mpr hlt)

theorem readDone_spec {s : PollState} (h : s.Positive) (sensor : ℕ) (success : Bool)
    (group : List ℕ) :
    Starts (sensor :: group) s ((s.finish sensor success).readNext group) ∧
      ((s.finish sensor success).readNext group).bus.poll.reads.Sublist group := by
  obtain ⟨hpasses, hlater⟩ := finish_spec h sensor success
  have hrest := readNext_spec hpasses.positive group
  refine ⟨⟨hpasses.trans hrest.toPasses, hrest.sublist.cons sensor, fun j hj => ?_,
    hrest.converting, hrest.awake⟩, hrest.sublist⟩
  rcases List.mem_cons.mp hj with rfl | hj
  · exact .inr (hrest.lt_time hlater)
  · exact hrest.mem j hj

/-- A conversion is used up by its start. -/
theorem stake_convert {s : PollState} {i k : ℕ} (h : s.Inv) (waits : s.Waits i)
    (sleeping : s.bus.poll = .sleeping) (next : s.Next k) (thermometer : s.bus.isThermometer k)
    (j : ℕ) :
    let t := { s with bus := { s.bus with poll := .converting s.group }, converter := k }
    t.stake i j ≤ s.stake i j := by
  intro t
  have hle := next.le i waits.located
  have hread : t.mayRead i j → s.mayRead i j := by
    intro hread
    rcases mayRead_iff.mp hread with hmem | hfirst | ⟨-, rfl⟩
    · exact absurd hmem List.not_mem_nil
    · exact mayRead_iff.mpr (.inr (.inl hfirst))
    · exact mayRead_iff.mpr (.inr (.inl ⟨next.located, hle⟩))
  have hnone : t.mayConvert i = false := by
    rw [← Bool.not_eq_true]
    intro hconvert
    obtain ⟨m, hm, hmle, hmem⟩ := mayConvert_iff.mp hconvert
    exact hmem (mem_group h.positive hm (hmle.trans waits.due))
  have hsome : s.mayConvert i := by
    refine mayConvert_iff.mpr ⟨k, thermometer, hle, ?_⟩
    simp [sleeping, Poll.sensors]
  have hmono := toNat_mono hread
  have hsleeping : s.bus.poll.isConverting = false := by rw [sleeping]; rfl
  have hconverting : t.bus.poll.isConverting = true := rfl
  simp only [stake, hnone, hsome, hsleeping, hconverting, Bool.toNat_true, Bool.toNat_false]
  omega

/-- The group is read after its conversion. -/
theorem stake_converted {s : PollState} {i : ℕ} {group : List ℕ} (h : s.Inv)
    (converting : s.bus.poll = .converting group) (waits : (s.readNext group).Waits i) (j : ℕ) :
    (s.readNext group).stake i j ≤ s.stake i j := by
  have hstarts := readNext_spec h.positive group
  have hconvert := toNat_mono (hstarts.mayConvert waits (by simp [converting, Poll.sensors]))
  have hread := ((s.readNext group).mayRead i j).toNat_le
  have hconverting : s.bus.poll.isConverting = true := by rw [converting]; rfl
  simp only [stake, hstarts.converting, hconverting, Bool.toNat_true, Bool.toNat_false]
  omega

/-- A failed conversion may come again for another thermometer. -/
theorem stake_notConverted {s : PollState} {i : ℕ} {group : List ℕ} (h : s.Inv)
    (converting : s.bus.poll = .converting group) (waits : (s.readNext [s.converter]).Waits i)
    (j : ℕ) : (s.readNext [s.converter]).stake i j ≤ s.stake i j := by
  have hstarts := readNext_spec h.positive [s.converter]
  have hconverting : s.bus.poll.isConverting = true := by rw [converting]; rfl
  have hread : (s.readNext [s.converter]).mayRead i j → s.mayRead i j := by
    intro hread
    rcases hstarts.mayRead waits hread with hmem | ⟨hlocated, hle, -⟩
    · have heq := List.mem_singleton.mp (hstarts.sublist.subset hmem)
      exact mayRead_iff.mpr (.inr (.inr ⟨hconverting, heq.symm⟩))
    · exact mayRead_iff.mpr (.inr (.inl ⟨hlocated, hle⟩))
  have hmono := toNat_mono hread
  have hconvert := ((s.readNext [s.converter]).mayConvert i).toNat_le
  simp only [stake, hstarts.converting, hconverting, Bool.toNat_true, Bool.toNat_false]
  omega

/-- A sensor which was read is after the waiting one. -/
theorem stake_readDone {s : PollState} {i sensor : ℕ} {sens : Slave} {group : List ℕ} (h : s.Inv)
    (success : Bool) (reading : s.bus.poll = .reading sensor sens group)
    (waits : ((s.finish sensor success).readNext group).Waits i) (j : ℕ) :
    ((s.finish sensor success).readNext group).stake i j + (if sensor = j then 1 else 0) ≤
      s.stake i j := by
  obtain ⟨hstarts, hsub⟩ := readDone_spec h.positive sensor success group
  have hsensors : s.bus.poll.reads = sensor :: group := by rw [reading]; rfl
  have hconvert := toNat_mono (hstarts.mayConvert waits (by simp [reading, Poll.sensors]))
  have hnodup := h.nodup
  rw [reading] at hnodup
  have hread : (((s.finish sensor success).readNext group).mayRead i j).toNat +
      (if sensor = j then 1 else 0) ≤ (s.mayRead i j).toNat := by
    split
    · next heq =>
      subst heq
      have hs : s.mayRead i sensor := mayRead_iff.mpr (.inl (by simp [hsensors]))
      have hnot : ((s.finish sensor success).readNext group).mayRead i sensor = false := by
        rw [← Bool.not_eq_true]
        intro hread
        have hmem : sensor ∉ ((s.finish sensor success).readNext group).bus.poll.reads :=
          fun hmem => (List.nodup_cons.mp hnodup).1 (hsub.subset hmem)
        obtain ⟨-, -, hle⟩ := (hstarts.mayRead waits hread).resolve_left hmem
        exact absurd hle (not_le.mpr ((hstarts.mem sensor List.mem_cons_self).resolve_left hmem))
      rw [hs, hnot]
      exact le_refl 1
    · refine toNat_mono fun hread => ?_
      rcases hstarts.mayRead waits hread with hmem | ⟨hlocated, hle, -⟩
      · rw [mayRead_iff, hsensors]
        exact .inl (List.mem_cons_of_mem _ (hsub.subset hmem))
      · exact mayRead_iff.mpr (.inr (.inl ⟨hlocated, hle⟩))
  have hreading : s.bus.poll.isConverting = false := by rw [reading]; rfl
  simp only [stake, hstarts.converting, hreading, Bool.toNat_false]
  omega

/-- A scan which finds no device. -/
theorem stake_scanned {s : PollState} {i : ℕ} (h : s.Inv) (taken : String → Bool)
    (names : List Slave) (none : s.bus.newlyLocated (s.bus.updated taken names) = [])
    (waits : s.Waits i) (j : ℕ) :
    (s.scanned (s.bus.updated taken names)).stake i j ≤ s.stake i j := by
  have hscans := scanned_spec h.positive (s.bus.updated taken names)
  have hpoll := (OwBus.updated_first h.first taken names).2
  have hold : ∀ m, (s.bus.updated taken names).located m → s.bus.located m :=
    fun m hm => hscans.located m hm (by simp [none])
  have hi := hscans.time i waits.located
  have hread : (s.scanned (s.bus.updated taken names)).mayRead i j → s.mayRead i j := by
    simp only [mayRead_iff, hscans.bus_eq, hpoll, hscans.converter, hi]
    rintro (hmem | ⟨hlocated, hle⟩ | hconverting)
    · exact .inl hmem
    · rw [hscans.time j (hold j hlocated)] at hle
      exact .inr (.inl ⟨hold j hlocated, hle⟩)
    · exact .inr (.inr hconverting)
  have hconvert : (s.scanned (s.bus.updated taken names)).mayConvert i → s.mayConvert i := by
    simp only [mayConvert_iff, hscans.bus_eq, hpoll, hi]
    rintro ⟨m, hthermometer, hle, hmem⟩
    have hlocated := OwBus.located_of_isThermometer hthermometer
    rw [hscans.time m (hold m hlocated)] at hle
    refine ⟨m, ?_, hle, hmem⟩
    have hsens := (OwBus.updated_sens h.first taken names hlocated).resolve_left
      (by simp [hold m hlocated])
    rwa [OwBus.isThermometer, ← hsens]
  have := toNat_mono hread
  have := toNat_mono hconvert
  simp only [stake, hscans.bus_eq, hpoll]
  omega

theorem stake_setSensorInterval {s : PollState} {i : ℕ} (h : s.Inv) (k : ℕ) {interval : ℕ}
    (positive : 0 < interval) (waits : (s.setSensorInterval k interval).Waits i) (j : ℕ) :
    (s.setSensorInterval k interval).stake i j ≤ s.stake i j := by
  have hpasses := (setSensorInterval_spec h.positive k positive).1
  have hread : (s.setSensorInterval k interval).mayRead i j → s.mayRead i j := by
    intro hread
    rcases mayRead_iff.mp hread with hmem | ⟨hlocated, hle⟩ | hconverting
    · exact mayRead_iff.mpr (.inl hmem)
    · exact mayRead_iff.mpr (.inr (.inl ⟨hlocated, (hpasses.time_le waits hle).1⟩))
    · exact mayRead_iff.mpr (.inr (.inr hconverting))
  have hconvert : (s.setSensorInterval k interval).mayConvert i → s.mayConvert i := by
    intro hconvert
    obtain ⟨m, hthermometer, hle, hmem⟩ := mayConvert_iff.mp hconvert
    exact mayConvert_iff.mpr ⟨m, hthermometer, (hpasses.time_le waits hle).1, hmem⟩
  have := toNat_mono hread
  have := toNat_mono hconvert
  have hpoll : (s.setSensorInterval k interval).bus.poll = s.bus.poll := rfl
  simp only [stake, hpoll]
  omega

/-- A reset gives at most two reads before the waiting one. -/
theorem stake_reset {s t : PollState} (h : t.bus.poll = s.bus.poll) (i j : ℕ) :
    t.stake i j ≤ s.stake i j + 2 := by
  have hread := (t.mayRead i j).toNat_le
  have hconvert := (t.mayConvert i).toNat_le
  simp only [stake, h]
  omega

/-- A step without a reset gives no sensor a read before the waiting one, and a read uses one. -/
theorem Step.stake_le {s t : PollState} {event : Event} {i : ℕ} (h : s.Inv) (waits : s.Waits i)
    (hstep : s.Step event t) (waits' : t.Waits i) (j : ℕ) :
    t.stake i j + (if event.isReadOf j then 1 else 0) ≤
      s.stake i j + if event.resets then 2 else 0 := by
  cases hstep with
  | tick | sleep => exact le_refl _
  | @read k sleeping awake next =>
    have hstarts := readNext_spec h.positive [k]
    have hread : (s.readNext [k]).mayRead i j → s.mayRead i j := by
      intro hread
      rcases hstarts.mayRead waits' hread with hmem | ⟨hlocated, hle, -⟩
      · obtain rfl := List.mem_singleton.mp (hstarts.sublist.subset hmem)
        exact mayRead_iff.mpr (.inr (.inl ⟨next.located, next.le i waits.located⟩))
      · exact mayRead_iff.mpr (.inr (.inl ⟨hlocated, hle⟩))
    have := toNat_mono hread
    have := toNat_mono (hstarts.mayConvert waits' (by simp [sleeping, Poll.sensors]))
    simp only [stake, hstarts.converting, Event.isReadOf, Event.resets, Bool.toNat_false,
      Bool.false_eq_true, if_false]
    omega
  | convert sleeping awake next thermometer =>
    simpa [Event.isReadOf, Event.resets] using stake_convert h waits sleeping next thermometer j
  | converted converting =>
    simpa [Event.isReadOf, Event.resets] using stake_converted h converting waits' j
  | notConverted converting =>
    simpa [Event.isReadOf, Event.resets] using stake_notConverted h converting waits' j
  | readDone success reading =>
    simpa [Event.isReadOf, Event.resets] using stake_readDone h success reading waits' j
  | scan taken names =>
    have hpoll : (s.scanned (s.bus.updated taken names)).bus.poll = s.bus.poll := by
      rw [bus_scanned]
      exact (OwBus.updated_first h.first taken names).2
    by_cases hfound : s.bus.newlyLocated (s.bus.updated taken names) = []
    · simpa [Event.isReadOf, Event.resets, hfound] using
        stake_scanned h taken names hfound waits j
    · simpa [Event.isReadOf, Event.resets, hfound] using stake_reset hpoll i j
  | @setInterval interval positive =>
    have hpoll : (s.setInterval interval).bus.poll = s.bus.poll := rfl
    simpa [Event.isReadOf, Event.resets] using stake_reset hpoll i j
  | @setSensorInterval k interval exist positive =>
    simpa [Event.isReadOf, Event.resets] using stake_setSensorInterval h k positive waits' j
  | restart =>
    have hlocated := waits'.located
    simp [not_located_restarted] at hlocated

/-- The poll has a sensor to read, the first one with the smallest time. -/
theorem Waits.exists_next {s : PollState} {i : ℕ} (waits : s.Waits i) : ∃ j, s.Next j := by
  let located := (Finset.range s.bus.mysensors.length).filter (s.bus.located ·)
  have hmem : ∀ {j : ℕ}, j ∈ located ↔ s.bus.located j := by
    intro j
    simp only [located, Finset.mem_filter, Finset.mem_range, and_iff_right_iff_imp]
    exact OwBus.lt_of_located
  let key (j : ℕ) : ℚ ×ₗ ℕ := toLex ((s.timing j).time, j)
  obtain ⟨j, hj, hmin⟩ := Finset.exists_min_image located key ⟨i, hmem.mpr waits.located⟩
  have hle : ∀ k, s.bus.located k → (s.timing j).time < (s.timing k).time ∨
      (s.timing j).time = (s.timing k).time ∧ j ≤ k := fun k hk =>
    (Prod.Lex.toLex_le_toLex ..).mp (hmin k (hmem.mpr hk))
  refine ⟨j, hmem.mp hj, fun k hk => ?_, fun k hlt hk => ?_, ?_⟩
  · exact (hle k hk).elim le_of_lt fun heq => heq.1.le
  · exact (hle k hk).resolve_right fun heq => absurd heq.2 (not_le.mpr hlt)
  · exact ((hle i waits.located).elim le_of_lt fun heq => heq.1.le).trans waits.due

/-- A step in which a sensor goes on to wait. -/
def StillWaits (i : ℕ) (s : PollState) (event : Event) (t : PollState) : Prop :=
  s.Step event t ∧ t.Waits i

/-- While a due sensor waits, every sensor is read at most three times, and twice more for each
scan which finds a device and each new interval of the bus; the poll does not sleep. -/
theorem overtaken_le {s₀ s t : PollState} {before events : List Event} {i : ℕ} (init : s₀.Init)
    (first : Transition.Run Step s₀ before s) (waits : s.Waits i)
    (run : Transition.Run (StillWaits i) s events t) :
    (∀ j, events.countP (·.isReadOf j) ≤ 3 + 2 * events.countP Event.resets) ∧
      (t.bus.poll = .sleeping → t.wakeup ≤ t.now ∧ ∃ j, t.Next j) := by
  have hinv : s.Inv := first.invariant (fun _ _ _ h hstep => h.step hstep) (.of_init init)
  have hkept : ∀ (s : PollState) (event : Event) (t : PollState), s.Inv ∧ s.Waits i →
      StillWaits i s event t → t.Inv ∧ t.Waits i := fun _ _ _ h hstep =>
    ⟨h.1.step hstep.1, hstep.2⟩
  constructor
  · intro j
    have hcount := run.count_le_credit (p := (·.isReadOf j)) (V := fun s => s.stake i j) hkept
      (fun _ _ _ h hstep => hstep.1.stake_le h.1 h.2 hstep.2 j) ⟨hinv, waits⟩
    have hstake := s.stake_le i j
    omega
  · obtain ⟨hinv', waits'⟩ := run.invariant hkept ⟨hinv, waits⟩
    intro hsleeps
    refine ⟨?_, waits'.exists_next⟩
    rcases hinv'.awake hsleeps with hawake | hearly
    · exact hawake
    · exact (hearly i waits'.located).trans waits'.due

/-- A bus without a configured sensor. -/
def empty : PollState :=
  { bus := { mysensors := [] }, timing := fun _ => { interval := 60 }, interval := 60 }

/-- A thermometer and a switch. -/
def twoSlaves : List Slave :=
  [OwBus.thermometer, ⟨0x29, [0x00, 0x00, 0x00, 0x12, 0x34, 0x56], rfl⟩]

/-- The switch waits while the thermometer is read. -/
theorem overtaken_le_twoSlaves :
    ∃ t : PollState, (∀ j, [Event.read 0, .readDone 0 true].countP (·.isReadOf j) ≤
        3 + 2 * [Event.read 0, .readDone 0 true].countP Event.resets) ∧
      (t.bus.poll = .sleeping → t.wakeup ≤ t.now ∧ ∃ j, t.Next j) := by
  let found := empty.scanned (empty.bus.updated (fun _ => false) twoSlaves)
  let reading := found.readNext [0]
  let done := (reading.finish 0 true).readNext []
  have init : empty.Init := ⟨by simp [empty], rfl, by decide, fun _ => by simp [empty]⟩
  have scan : Transition.Run Step empty _ found := .single (.scan (fun _ => false) twoSlaves)
  have next : found.Next 0 := by
    refine ⟨by decide +kernel, fun j hj => ?_, by simp, by decide +kernel⟩
    have htwo : found.bus.mysensors.length = 2 := by decide +kernel
    have hlt := OwBus.lt_of_located hj
    rw [htwo] at hlt
    interval_cases j <;> decide +kernel
  have waits : ∀ s ∈ [found, reading, done], s.Waits 1 := by
    simp only [List.forall_mem_cons]
    refine ⟨?_, ?_, ?_, by simp⟩ <;> exact ⟨by decide +kernel, by decide +kernel, by decide +kernel⟩
  have first : StillWaits 1 found (.read 0) reading :=
    ⟨.read (by decide +kernel) (by decide +kernel) next, waits reading (by simp)⟩
  have second : StillWaits 1 reading (.readDone 0 true) done := by
    have hreading : reading.bus.poll = .reading 0 OwBus.thermometer [] := by decide +kernel
    exact ⟨.readDone true hreading, waits done (by simp)⟩
  exact ⟨done, overtaken_le init scan (waits found (by simp)) (.cons first (.single second))⟩

end PollState

end W1

end Evok
