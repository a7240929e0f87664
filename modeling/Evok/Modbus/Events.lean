import Evok.Library.Run
import Evok.Modbus.Remembers

/-!
# Events of the devices of a unit

`Client._check_devices` sends the devices whose check or alias has changed, a changed communication
with the unit sends all of them. `last_comm` of the states is left out.

## Main definitions

* `State.checkDevices`, `State.sendCommChange`: the events of a check and of a failed read.
* `State.next`: the calls of `set()`, the aliases, the reads and the checks of a unit.
* `staleAfter`: the devices of which an event has sent more than their checks remember.

## Main results

* `shown_eq_full`: after a check the state sent last is the current one, when no device was stale
  or all of them were sent.
-/

namespace Evok

namespace Modbus

namespace Events

variable {ι : Type} [DecidableEq ι] {device : ι → Device}

/-! ## Checks and events -/

/-- What `_check_devices` collects. -/
structure Checked (device : ι → Device) where
  attrs : Attrs device
  sentAliases : ι → String
  changeset : List ι := []
  /-- The devices whose check has raised. -/
  raised : List ι := []

/-- The check of a device and of its alias. -/
def checkDevice (read : Reader) (c : Checked device) (i : ι) : Checked device :=
  let (attrs, result) := c.attrs.checkNewData read i
  let (changed, raised) := match result with
    | .ok changed => (changed, c.raised)
    | .error _ => (false, c.raised ++ [i])
  if c.sentAliases i ≠ attrs.aliasName i then
    { attrs, raised
      sentAliases := Function.update c.sentAliases i (attrs.aliasName i)
      changeset := c.changeset ++ [i] }
  else
    { attrs, raised
      sentAliases := c.sentAliases
      changeset := if changed then c.changeset ++ [i] else c.changeset }

/-- The devices of a unit with what was sent of them. -/
structure State (device : ι → Device) where
  attrs : Attrs device
  comm : String := "ok"
  sentComm : String := "ok"
  sentAliases : ι → String := fun _ => ""
  sent : ι → Option Full := fun _ => none

namespace State

/-- `full()` of a device, without `last_comm`. -/
def full (s : State device) (i : ι) : Full :=
  (device i).full (s.attrs.dev i) ⟨s.comm, none, s.attrs.aliasName i⟩

/-- `devents.status(Proxy(changeset))`. -/
def send (s : State device) (changeset : List ι) : State device :=
  { s with sent := fun i => if i ∈ changeset then some (s.full i) else s.sent i }

/-- Send all devices if `comm` has changed since the last event. -/
def sendCommChange (ids : List ι) (s : State device) : State device :=
  if s.comm ≠ s.sentComm then { s with sentComm := s.comm }.send ids else s

/-- The checks of all devices, in their order. -/
def collect (ids : List ι) (read : Reader) (s : State device) : Checked device :=
  ids.foldl (checkDevice read) { attrs := s.attrs, sentAliases := s.sentAliases }

/-- The devices sent by a check. -/
def changeset (ids : List ι) (read : Reader) (s : State device) : List ι :=
  if s.comm ≠ s.sentComm then ids else (s.collect ids read).changeset

/-- `_check_devices`. -/
def checkDevices (ids : List ι) (read : Reader) (s : State device) : State device :=
  let c := s.collect ids read
  { s with
    attrs := c.attrs
    sentAliases := c.sentAliases
    sentComm := s.comm }.send (s.changeset ids read)

/-- The first `count` actions of a `set()`; the next one, if any, raises. -/
def set (ids : List ι) (read : Reader) (s : State device) (i : ι) (params : (device i).Params)
    (count : ℕ) : State device :=
  let actions := (s.attrs.set ids i params).actions
  let attrs := (actions.take count).foldl (fun attrs action => attrs.exec read action) s.attrs
  { s with attrs := match actions[count]? with
      | some action => attrs.fails action
      | none => attrs }

/-- The unit after its devices were created. -/
def init (device : ι → Device) : State device where
  attrs := { dev := fun i => (device i).init, pwm := fun _ => {}, aliasName := fun _ => "" }

/-- The state sent last, before the first one the state before the first check. -/
def shown (s : State device) (i : ι) : Full :=
  (s.sent i).getD ((init device).full i)

end State

/-! ## Runs -/

inductive Event (device : ι → Device)
  | set (i : ι) (params : (device i).Params) (count : ℕ) (read : Reader)
  /-- `Devices.set_alias` by another task. -/
  | setAlias (i : ι) (name : String)
  /-- A read without an event: a successful one, or one of a scan during a change. -/
  | comm (comm : String)
  /-- A failed read with `send_comm_change`. -/
  | failedRead (comm : String)
  /-- `_check_devices`, after a read or after a change without a read. -/
  | check (read : Reader)

def State.next (ids : List ι) (s : State device) : Event device → State device
  | .set i params count read => s.set ids read i params count
  | .setAlias i name =>
    { s with attrs := { s.attrs with aliasName := Function.update s.attrs.aliasName i name } }
  | .comm comm => { s with comm }
  | .failedRead comm => { s with comm }.sendCommChange ids
  | .check read => s.checkDevices ids read

/-- The registers of the blocks can be read. -/
def Event.Readable (known : Known) : Event device → Prop
  | .set _ _ _ read | .check read => ReaderOf known read
  | _ => True

/-- The devices of which an event has sent more than their checks remember, or whose `pwm_duty` was
set without a check, until a check sends them and does not raise. -/
def staleAfter (ids : List ι) (s : State device) (stale : ι → Prop) :
    Event device → ι → Prop
  | .set j params count _, i =>
    stale i ∨ ∃ duty, .assign i (.pwmDuty duty) ∈ (s.attrs.set ids j params).actions.take count
  | .failedRead comm, i =>
    stale i ∨ comm ≠ s.sentComm ∧
      (¬(device i).InSync (s.attrs.dev i) ∨ s.attrs.aliasName i ≠ s.sentAliases i)
  | .check read, i =>
    if i ∈ s.changeset ids read then
      i ∈ (s.collect ids read).raised ∧
        (stale i ∨ ¬(device i).InSync ((s.collect ids read).attrs.dev i))
    else stale i
  | _, i => stale i

/-- A unit with its stale devices. -/
structure Tracked (device : ι → Device) where
  state : State device
  stale : ι → Prop

namespace Tracked

def init (device : ι → Device) : Tracked device :=
  ⟨State.init device, fun _ => False⟩

def next (ids : List ι) (t : Tracked device) (e : Event device) : Tracked device :=
  ⟨t.state.next ids e, staleAfter ids t.state t.stale e⟩

end Tracked

def Step (known : Known) (ids : List ι) (t : Tracked device) (e : Event device)
    (t' : Tracked device) : Prop :=
  e.Readable known ∧ t' = t.next ids e

/-- A check without a change of `comm` finds no stale device. -/
def Fresh (t : Tracked device) : Event device → Prop
  | .check _ => ∀ i, t.stale i → t.state.comm ≠ t.state.sentComm
  | _ => True

/-! ## The check of one device -/

section Check

variable {known : Known} {read : Reader}

/-- The attributes, the aliases and the result of the check of a device among the checks. -/
structure CheckOf (read : Reader) (c c' : Checked device) (i : ι) : Prop where
  result : ∃ p p' result,
    (device i).checkNewData read p (c.attrs.dev i) = ((p', c'.attrs.dev i), result) ∧
      (∀ e, result = .error e → i ∈ c'.raised) ∧ (result = .ok true → i ∈ c'.changeset)
  aliasSent : c'.sentAliases i = c'.attrs.aliasName i
  renamed : i ∉ c'.changeset → c'.sentAliases i = c.sentAliases i

/-- The other devices keep a device as it is. -/
structure Apart (c c' : Checked device) (i : ι) : Prop where
  dev : c'.attrs.dev i = c.attrs.dev i
  aliasName : c'.attrs.aliasName = c.attrs.aliasName
  sentAliases : c'.sentAliases i = c.sentAliases i
  changeset : i ∈ c'.changeset ↔ i ∈ c.changeset
  raised : i ∈ c'.raised ↔ i ∈ c.raised

theorem checkNewData_dev (attrs : Attrs device) (i j : ι) (h : j ≠ i) :
    (attrs.checkNewData read i).1.dev j = attrs.dev j := by
  unfold Attrs.checkNewData
  dsimp only
  split <;> simp [Attrs.setDev, Attrs.setPwm, h]

theorem checkNewData_self (attrs : Attrs device) (i : ι) :
    ∃ p, (device i).checkNewData read (attrs.pwmOf i) (attrs.dev i) =
      ((p, (attrs.checkNewData read i).1.dev i), (attrs.checkNewData read i).2) := by
  unfold Attrs.checkNewData
  dsimp only
  refine ⟨((device i).checkNewData read (attrs.pwmOf i) (attrs.dev i)).1.1, ?_⟩
  split <;> simp [Attrs.setDev, Attrs.setPwm]

theorem checkNewData_aliasName (attrs : Attrs device) (i : ι) :
    (attrs.checkNewData read i).1.aliasName = attrs.aliasName := by
  unfold Attrs.checkNewData
  dsimp only
  split <;> rfl

theorem checkDevice_self (c : Checked device) (i : ι) : CheckOf read c (checkDevice read c i) i := by
  obtain ⟨p, hcheck⟩ := @checkNewData_self _ _ device read c.attrs i
  unfold checkDevice
  dsimp only
  cases hresult : (c.attrs.checkNewData read i).2 with
  | ok changed =>
    rw [hresult] at hcheck
    split
    · refine ⟨⟨_, _, _, hcheck, by simp, by simp⟩, by simp, by simp⟩
    · next same =>
      refine ⟨⟨_, _, _, hcheck, by simp, ?_⟩, not_not.mp same, fun _ => rfl⟩
      intro h
      obtain rfl := Except.ok.inj h
      simp
  | error e =>
    rw [hresult] at hcheck
    split
    · exact ⟨⟨_, _, _, hcheck, by simp, by simp⟩, by simp, by simp⟩
    · next same =>
      exact ⟨⟨_, _, _, hcheck, by simp, by simp⟩, not_not.mp same, fun _ => rfl⟩

theorem checkDevice_apart (c : Checked device) {i j : ι} (h : j ≠ i) :
    Apart c (checkDevice read c i) j := by
  unfold checkDevice
  dsimp only
  cases (c.attrs.checkNewData read i).2 with
  | ok changed =>
    split
    · exact ⟨checkNewData_dev _ _ _ h, checkNewData_aliasName _ _, by simp [h], by simp [h], by simp⟩
    · refine ⟨checkNewData_dev _ _ _ h, checkNewData_aliasName _ _, rfl, ?_, Iff.rfl⟩
      dsimp only
      split <;> simp [h]
  | error e =>
    split
    · exact ⟨checkNewData_dev _ _ _ h, checkNewData_aliasName _ _, by simp [h], by simp [h],
        by simp [h]⟩
    · exact ⟨checkNewData_dev _ _ _ h, checkNewData_aliasName _ _, rfl, by simp, by simp [h]⟩

omit [DecidableEq ι] in
theorem Apart.trans {c c' c'' : Checked device} {i : ι} (h : Apart c c' i) (h' : Apart c' c'' i) :
    Apart c c'' i where
  dev := h'.dev.trans h.dev
  aliasName := h'.aliasName.trans h.aliasName
  sentAliases := h'.sentAliases.trans h.sentAliases
  changeset := h'.changeset.trans h.changeset
  raised := h'.raised.trans h.raised

omit [DecidableEq ι] in
theorem CheckOf.append {c c' c'' : Checked device} {i : ι} (h : CheckOf read c c' i)
    (h' : Apart c' c'' i) : CheckOf read c c'' i where
  result := by
    rw [h'.dev, h'.raised, h'.changeset]
    exact h.result
  aliasSent := by
    rw [h'.sentAliases, h'.aliasName]
    exact h.aliasSent
  renamed := by
    rw [h'.sentAliases, h'.changeset]
    exact h.renamed

omit [DecidableEq ι] in
theorem CheckOf.prepend {c c' c'' : Checked device} {i : ι} (h : Apart c c' i)
    (h' : CheckOf read c' c'' i) : CheckOf read c c'' i where
  result := by
    rw [← h.dev]
    exact h'.result
  aliasSent := h'.aliasSent
  renamed := by
    rw [← h.sentAliases]
    exact h'.renamed

theorem collect_apart (ids : List ι) {i : ι} (h : i ∉ ids) (c : Checked device) :
    Apart c (ids.foldl (checkDevice read) c) i := by
  induction ids generalizing c with
  | nil => exact ⟨rfl, rfl, rfl, Iff.rfl, Iff.rfl⟩
  | cons j ids ih =>
    obtain ⟨hne, hrest⟩ := List.ne_and_not_mem_of_not_mem_cons h
    exact (checkDevice_apart c hne).trans (ih hrest _)

theorem collect_checkOf {ids : List ι} (nodup : ids.Nodup) {i : ι} (h : i ∈ ids)
    (c : Checked device) : CheckOf read c (ids.foldl (checkDevice read) c) i := by
  induction ids generalizing c with
  | nil => cases h
  | cons j ids ih =>
    obtain ⟨hnotMem, hrest⟩ := List.nodup_cons.mp nodup
    rw [List.foldl_cons]
    by_cases heq : i = j
    · rw [heq]
      exact (checkDevice_self c j).append (collect_apart ids hnotMem _)
    · have hmem := (List.mem_cons.mp h).resolve_left heq
      exact .prepend (checkDevice_apart c heq) (ih hrest hmem _)

end Check

/-! ## What the checks remember -/

section Invariant

variable {known : Known} {read : Reader} {ids : List ι} {i : ι}

/-- A state of the device is remembered. -/
structure Kept (known : Known) (i : ι) (v : (device i).State) (attrs : Attrs device) : Prop where
  settled : (device i).Settled (attrs.dev i) ∨ (device i).Unreadable known
  remembers : (device i).Remembers known (attrs.dev i) v

theorem Kept.setDev {v : (device i).State} {attrs : Attrs device} (h : Kept known i v attrs)
    {j : ι} {state : (device j).State}
    (self : ∀ heq : i = j, Kept known j (heq ▸ v) (attrs.setDev j state)) :
    Kept known i v (attrs.setDev j state) := by
  by_cases heq : i = j
  · subst heq
    exact self rfl
  · have same : (attrs.setDev j state).dev i = attrs.dev i := by simp [Attrs.setDev, heq]
    constructor
    · rw [same]
      exact h.settled
    · rw [same]
      exact h.remembers

theorem Kept.assign {v : (device i).State} {attrs : Attrs device} (h : Kept known i v attrs)
    (checks : (device i).checks = true) {j : ι} {a : Assign}
    (seen : i = j → ¬Device.Hides a) :
    Kept known i v (attrs.setDev j ((device j).assign a (attrs.dev j))) := by
  refine h.setDev fun heq => ?_
  subst heq
  constructor
  · simpa [Attrs.setDev] using Device.settled_assign h.settled (seen rfl)
  · simpa [Attrs.setDev] using h.remembers.assign checks (seen rfl)

/-- An action of `set()` besides the assignment of `pwm_duty` of the device. -/
theorem Kept.exec {v : (device i).State} {attrs : Attrs device} (h : Kept known i v attrs)
    (checks : (device i).checks = true) {action : Action ι}
    (seen : ∀ duty, action ≠ .assign i (.pwmDuty duty)) :
    Kept known i v (attrs.exec read action) := by
  cases action with
  | assign j a =>
    refine h.assign checks fun heq hides => ?_
    subst heq
    cases a with
    | pwmDuty duty => exact seen duty rfl
    | _ => exact hides
  | readCounter j =>
    refine h.setDev fun heq => ?_
    subst heq
    constructor
    · simpa [Attrs.setDev] using Device.settled_readCounter h.settled
    · simpa [Attrs.setDev] using h.remembers.readCounter
  | _ => exact ⟨h.settled, h.remembers⟩

theorem Kept.fails {v : (device i).State} {attrs : Attrs device} (h : Kept known i v attrs)
    (checks : (device i).checks = true) (action : Action ι) : Kept known i v (attrs.fails action) := by
  unfold Attrs.fails
  split
  · exact h.assign checks fun _ hides => hides
  · exact h

theorem Kept.execAll {v : (device i).State} {attrs : Attrs device} (h : Kept known i v attrs)
    (checks : (device i).checks = true) {actions : List (Action ι)}
    (seen : ∀ duty, .assign i (.pwmDuty duty) ∉ actions) :
    Kept known i v (actions.foldl (fun attrs action => attrs.exec read action) attrs) := by
  induction actions generalizing attrs with
  | nil => exact h
  | cons action actions ih =>
    refine ih (h.exec checks ?_) fun duty hmem => seen duty (List.mem_cons_of_mem _ hmem)
    rintro duty rfl
    exact seen duty List.mem_cons_self

/-! ### The accessors of analog devices -/

/-- The accessor of the device is one which can be made. -/
def Sound (i : ι) (attrs : Attrs device) : Prop :=
  (device i).Sound (attrs.dev i)

theorem Sound.setDev {attrs : Attrs device} (h : Sound i attrs) {j : ι} {state : (device j).State}
    (hj : (device j).Sound (attrs.dev j) → (device j).Sound state) :
    Sound i (attrs.setDev j state) := by
  unfold Sound at h ⊢
  by_cases heq : i = j
  · subst heq
    simpa [Attrs.setDev] using hj h
  · simpa [Attrs.setDev, heq] using h

theorem Sound.exec {attrs : Attrs device} (h : Sound i attrs) (action : Action ι) :
    Sound i (attrs.exec read action) := by
  cases action with
  | assign j a => exact h.setDev fun hj => hj.assign a
  | readCounter j => exact h.setDev fun hj => hj.readCounter read
  | _ => exact h

theorem Sound.set {s : State device} (h : Sound i s.attrs) (j : ι) (params : (device j).Params)
    (count : ℕ) : Sound i (s.set ids read j params count).attrs := by
  have hall : ∀ (actions : List (Action ι)) (attrs : Attrs device), Sound i attrs →
      Sound i (actions.foldl (fun attrs action => attrs.exec read action) attrs) := by
    intro actions
    induction actions with
    | nil => exact fun _ h => h
    | cons action actions ih => exact fun _ h => ih _ (h.exec action)
  unfold State.set
  dsimp only
  split
  · unfold Attrs.fails
    split
    · exact (hall _ _ h).setDev fun hj => hj.assign _
    · exact hall _ _ h
  · exact hall _ _ h

/-- The state shown of a device is one which its check remembers. -/
def Inv (known : Known) (s : State device) (i : ι) : Prop :=
  ∃ v, s.shown i = (device i).full v ⟨s.sentComm, none, s.sentAliases i⟩ ∧ Kept known i v s.attrs

omit [DecidableEq ι] in
theorem inv_init (checks : (device i).checks = true) : Inv known (State.init device) i := by
  refine ⟨(device i).init, rfl, .inl (Device.init_settled _), ?_⟩
  exact Device.Settled.remembers (.inl (Device.init_settled _)) (Device.init_inSync _) checks

theorem Inv.set {s : State device} (h : Inv known s i) (checks : (device i).checks = true) {j : ι}
    {params : (device j).Params} {count : ℕ}
    (seen : ∀ duty, .assign i (.pwmDuty duty) ∉ (s.attrs.set ids j params).actions.take count) :
    Inv known (s.set ids read j params count) i := by
  obtain ⟨v, hshown, hkept⟩ := h
  refine ⟨v, hshown, ?_⟩
  have hall := @Kept.execAll _ _ device known read i _ _ hkept checks _ seen
  unfold State.set
  dsimp only
  split
  · exact hall.fails checks _
  · exact hall

theorem Inv.sendCommChange {s : State device} (h : Inv known s i) (hi : i ∈ ids)
    (checks : (device i).checks = true) {comm : String}
    (sync : comm ≠ s.sentComm →
      (device i).InSync (s.attrs.dev i) ∧ s.attrs.aliasName i = s.sentAliases i) :
    Inv known ({ s with comm }.sendCommChange ids) i := by
  unfold State.sendCommChange
  split
  · next changed =>
    obtain ⟨v, -, hkept⟩ := h
    obtain ⟨hsync, halias⟩ := sync changed
    refine ⟨s.attrs.dev i, ?_, hkept.settled, Device.Settled.remembers hkept.settled hsync checks⟩
    simp [State.shown, State.send, State.full, hi, halias]
  · exact h

/-- The check of a device in a check of the unit. -/
theorem checkOf_collect (nodup : ids.Nodup) (hi : i ∈ ids) (s : State device) :
    CheckOf read { attrs := s.attrs, sentAliases := s.sentAliases } (s.collect ids read) i :=
  collect_checkOf nodup hi _

theorem shown_of_mem {s : State device} (h : i ∈ s.changeset ids read) :
    (s.checkDevices ids read).shown i = (s.checkDevices ids read).full i := by
  simp [State.shown, State.checkDevices, State.send, h, State.full]

theorem shown_of_notMem {s : State device} (h : i ∉ s.changeset ids read) :
    (s.checkDevices ids read).shown i = s.shown i := by
  simp [State.shown, State.checkDevices, State.send, h]

theorem comm_of_notMem {s : State device} (hi : i ∈ ids) (h : i ∉ s.changeset ids read) :
    s.comm = s.sentComm ∧ i ∉ (s.collect ids read).changeset := by
  unfold State.changeset at h
  split at h
  · exact absurd hi h
  · next same => exact ⟨not_not.mp same, h⟩

/-- A device which a check does not send is shown as it was. -/
theorem Inv.quiet {s : State device} (h : Inv known s i) (sound : Sound i s.attrs)
    (nodup : ids.Nodup) (hi : i ∈ ids) (checks : (device i).checks = true) (hr : ReaderOf known read)
    (hmem : i ∉ s.changeset ids read) :
    Inv known (s.checkDevices ids read) i ∧ (i ∉ (s.collect ids read).raised →
      (s.checkDevices ids read).shown i = (s.checkDevices ids read).full i) := by
  obtain ⟨v, hshown, hkept⟩ := h
  obtain ⟨hcomm, hchangeset⟩ := comm_of_notMem hi hmem
  have hcheck := @checkOf_collect _ _ device read _ _ nodup hi s
  obtain ⟨p, p', result, hresult, hraised, hchanged⟩ := hcheck.result
  have halias : (s.collect ids read).sentAliases i = s.sentAliases i := hcheck.renamed hchangeset
  have hshown' : (s.checkDevices ids read).shown i = (device i).full v
      ⟨(s.checkDevices ids read).sentComm, none, (s.checkDevices ids read).sentAliases i⟩ := by
    rw [shown_of_notMem hmem, hshown, ← hcomm, ← halias]
    rfl
  cases result with
  | error e =>
    refine ⟨⟨v, hshown', ?_, ?_⟩, fun hnone => absurd (hraised e rfl) hnone⟩
    · exact Device.settled_raised hr hkept.settled hresult
    · exact hkept.remembers.raised hr sound hresult
  | ok changed =>
    obtain rfl : changed = false := by
      by_contra h
      exact hchangeset (hchanged (by simpa using h))
    have hfull := hkept.remembers.quiet hr checks hresult
    obtain ⟨hsettled, hsync⟩ := Device.check_ok hresult
    refine ⟨⟨v, hshown', .inl hsettled, ?_⟩, fun _ => ?_⟩
    · exact (Device.Settled.remembers (.inl hsettled) hsync checks).congr hfull.symm
    · rw [hshown', ← hfull, show (s.checkDevices ids read).sentAliases i = _ from hcheck.aliasSent]
      rfl

theorem Sound.checkDevices {s : State device} (h : Sound i s.attrs) (nodup : ids.Nodup)
    (hi : i ∈ ids) : Sound i (s.checkDevices ids read).attrs := by
  obtain ⟨p, p', result, hresult, -⟩ := (@checkOf_collect _ _ device read _ _ nodup hi s).result
  have hsound := Device.Sound.check h read p
  rw [hresult] at hsound
  exact hsound

theorem Inv.checkDevices {s : State device} {stale : ι → Prop} (sound : Sound i s.attrs)
    (nodup : ids.Nodup) (hi : i ∈ ids) (checks : (device i).checks = true)
    (hr : ReaderOf known read) (h : ¬stale i → Inv known s i)
    (fresh : ¬staleAfter ids s stale (.check read) i) : Inv known (s.checkDevices ids read) i := by
  by_cases hmem : i ∈ s.changeset ids read
  · have hcheck := @checkOf_collect _ _ device read _ _ nodup hi s
    obtain ⟨p, p', result, hresult, hraised, -⟩ := hcheck.result
    refine ⟨(s.collect ids read).attrs.dev i, ?_, ?_⟩
    · rw [shown_of_mem hmem, show (s.checkDevices ids read).sentAliases i = _ from hcheck.aliasSent]
      rfl
    · simp only [staleAfter, if_pos hmem, not_and, not_or, not_not] at fresh
      cases result with
      | error e =>
        obtain ⟨hstale, hsync⟩ := fresh (hraised e rfl)
        obtain ⟨v, -, hkept⟩ := h hstale
        have hsettled := Device.settled_raised hr hkept.settled hresult
        exact ⟨hsettled, Device.Settled.remembers hsettled hsync checks⟩
      | ok changed =>
        obtain ⟨hsettled, hsync⟩ := Device.check_ok hresult
        exact ⟨.inl hsettled, Device.Settled.remembers (.inl hsettled) hsync checks⟩
  · simp only [staleAfter, if_neg hmem] at fresh
    exact ((h fresh).quiet sound nodup hi checks hr hmem).1

/-- A device which is not stale is shown as it was at its last check. -/
theorem Inv.step {t t' : Tracked device} {e : Event device} (nodup : ids.Nodup) (hi : i ∈ ids)
    (checks : (device i).checks = true) (sound : Sound i t.state.attrs)
    (h : ¬t.stale i → Inv known t.state i) (hs : Step known ids t e t') : ¬t'.stale i → Inv known t'.state i := by
  obtain ⟨hr, rfl⟩ := hs
  intro fresh
  simp only [Tracked.next] at fresh ⊢
  cases e with
  | set j params count read =>
    simp only [staleAfter, not_or, not_exists] at fresh
    exact (h fresh.1).set checks fresh.2
  | setAlias j name =>
    obtain ⟨v, hshown, hkept⟩ := h fresh
    exact ⟨v, hshown, hkept.settled, hkept.remembers⟩
  | comm comm =>
    obtain ⟨v, hshown, hkept⟩ := h fresh
    exact ⟨v, hshown, hkept⟩
  | failedRead comm =>
    simp only [staleAfter, not_or, not_and, not_not] at fresh
    exact (h fresh.1).sendCommChange hi checks fresh.2
  | check read => exact Inv.checkDevices sound nodup hi checks hr h fresh

theorem Sound.step {t t' : Tracked device} {e : Event device} (h : Sound i t.state.attrs)
    (nodup : ids.Nodup) (hi : i ∈ ids) (hs : Step known ids t e t') : Sound i t'.state.attrs := by
  obtain ⟨-, rfl⟩ := hs
  cases e with
  | set j params count read => exact h.set j params count
  | setAlias j name => exact h
  | comm comm => exact h
  | failedRead comm =>
    simp only [Tracked.next, State.next, State.sendCommChange]
    split <;> exact h
  | check read => exact h.checkDevices nodup hi

end Invariant

/-! ## After a check -/

section

variable (known : Known) (ids : List ι) (device : ι → Device)

/-- The states of a unit after its devices were created. -/
abbrev Reachable (t : Tracked device) : Prop :=
  Transition.Reachable (fun t e t' => Step known ids t e t' ∧ Fresh t e)
    (· = Tracked.init device) t

end

/-- After a check in which no check has raised the state sent last of each device is its current
one, when the checks find no stale device or send all of them. -/
theorem shown_eq_full {known : Known} {ids : List ι} {device : ι → Device} (nodup : ids.Nodup)
    {t t' : Tracked device} (reach : Reachable known ids device t) {read : Reader}
    (hs : Step known ids t (.check read) t') (fresh : Fresh t (.check read))
    (ok : (t.state.collect ids read).raised = []) {i : ι} (hi : i ∈ ids)
    (checks : (device i).checks = true) : t'.state.shown i = t'.state.full i := by
  obtain ⟨t₀, es, rfl, hrun⟩ := reach
  have hinit : Sound i (Tracked.init device).state.attrs := (device i).init_sound
  obtain ⟨hsound, hinv⟩ : Sound i t.state.attrs ∧ (¬t.stale i → Inv known t.state i) := by
    refine hrun.invariant (I := fun t =>
      Sound i t.state.attrs ∧ (¬t.stale i → Inv known t.state i)) ?_ ⟨hinit, fun _ => inv_init checks⟩
    exact fun _ _ _ h hstep => ⟨h.1.step nodup hi hstep.1, Inv.step nodup hi checks h.1 h.2 hstep.1⟩
  obtain ⟨hr, rfl⟩ := hs
  by_cases hmem : i ∈ t.state.changeset ids read
  · exact shown_of_mem hmem
  · have hstale : ¬t.stale i := fun hstale =>
      fresh i hstale (comm_of_notMem hi hmem).1
    exact ((hinv hstale).quiet hsound nodup hi checks hr hmem).2 (by simp [ok])

/-! ## A missed event -/

/-- An output with a firmware PWM. -/
def pwmOutput : Unit → Device
  | () => .digitalOutput
    { devtype := "do", circuit := "1_01", coil := some 0, reg := 0, mask := 1
      pwm := some (0, .soft 1 2), pwmDutyReg := 3 }

/-- The registers of the output, off, with the duty of its PWM. -/
def pwmRegisters (duty : Word) : Reader :=
  fun index count _ => .ok (List.replicate count (if index = 3 then duty else 0))

theorem pwmRegisters_reader (duty : Word) : ReaderOf (fun _ _ _ => true) (pwmRegisters duty) := by
  intro index count isInput
  exact ⟨_, rfl⟩

/-- A new duty is sent. -/
theorem shown_eq_full_pwmOutput :
    let on := (Tracked.init pwmOutput).next [()] (.check (pwmRegisters 50))
    let slower := on.next [()] (.set () { pwmDuty := some (.int 30) } 1 (pwmRegisters 50))
    let sent := slower.next [()] (.check (pwmRegisters 30))
    sent.state.shown () = sent.state.full () := by
  intro on slower sent
  have hon : ∀ i, ¬on.stale i := by
    intro i hstale
    have hraised : ((Tracked.init pwmOutput).state.collect [()] (pwmRegisters 50)).raised = [] := by
      decide +kernel
    simp only [on, Tracked.next, staleAfter, hraised] at hstale
    split at hstale
    · simp at hstale
    · exact hstale
  have hslower : ∀ i, ¬slower.stale i := by
    rintro i (hstale | ⟨duty, hduty⟩)
    · exact hon i hstale
    · have hactions : ((on.state.attrs.set [()] () { pwmDuty := some (.int 30) }).actions.take 1) =
          [.writeRegisters 3 [30] true true] := by
        decide +kernel
      rw [hactions] at hduty
      simp at hduty
  have hstep : Step (fun _ _ _ => true) [()] (Tracked.init pwmOutput)
      (.check (pwmRegisters 50)) on := ⟨pwmRegisters_reader 50, rfl⟩
  have hstep' : Step (fun _ _ _ => true) [()] on
      (.set () { pwmDuty := some (.int 30) } 1 (pwmRegisters 50)) slower :=
    ⟨pwmRegisters_reader 50, rfl⟩
  have hreach : Reachable (fun _ _ _ => true) [()] pwmOutput slower :=
    ⟨_, _, rfl, .cons ⟨hstep, fun i h => h.elim⟩ (.single ⟨hstep', trivial⟩)⟩
  have hsent : Step (fun _ _ _ => true) [()] slower (.check (pwmRegisters 30)) sent :=
    ⟨pwmRegisters_reader 30, rfl⟩
  have hraised : (slower.state.collect [()] (pwmRegisters 30)).raised = [] := by
    decide +kernel
  exact shown_eq_full (List.nodup_singleton ()) hreach hsent (fun i h => absurd h (hslower i))
    hraised List.mem_cons_self rfl

/-- A check after each event of a unit sends what has changed. -/
def EventsComplete : Prop :=
  ∀ (ι : Type) [DecidableEq ι] (device : ι → Device) (known : Known) (ids : List ι)
    (t t' : Tracked device) (read : Reader) (i : ι), ids.Nodup →
    Transition.Reachable (Step known ids) (· = Tracked.init device) t →
    Step known ids t (.check read) t' → (t.state.collect ids read).raised = [] →
    i ∈ ids → (device i).checks = true → t'.state.shown i = t'.state.full i

/-- The state has the mode of a running PWM. -/
def isPwm (state : Full) : Bool :=
  match state.lookup "mode" with
  | some (.str mode) => mode = "PWM"
  | _ => false

/-- The end of a PWM by `value` is not sent. -/
theorem not_eventsComplete : ¬EventsComplete := by
  intro complete
  let on := (Tracked.init pwmOutput).next [()] (.check (pwmRegisters 50))
  let off := on.next [()] (.set () { value := some (.int 0) } 3 (pwmRegisters 50))
  have hon : Step (fun _ _ _ => true) [()] (Tracked.init pwmOutput)
      (.check (pwmRegisters 50)) on := ⟨pwmRegisters_reader 50, rfl⟩
  have hoff : Step (fun _ _ _ => true) [()] on
      (.set () { value := some (.int 0) } 3 (pwmRegisters 50)) off := ⟨pwmRegisters_reader 50, rfl⟩
  have hshown := complete Unit pwmOutput (fun _ _ _ => true) [()] off _ (pwmRegisters 0) ()
    (List.nodup_singleton ()) ⟨_, _, rfl, .cons hon (.single hoff)⟩
    ⟨pwmRegisters_reader 0, rfl⟩ (by decide +kernel) List.mem_cons_self rfl
  have hsent : isPwm ((off.next [()] (.check (pwmRegisters 0))).state.shown ()) = true := by
    decide +kernel
  have hfull : isPwm ((off.next [()] (.check (pwmRegisters 0))).state.full ()) = false := by
    decide +kernel
  rw [hshown, hfull] at hsent
  cases hsent

end Events

end Modbus

end Evok
