import Evok.Library.Delayed
import Evok.Modbus.PinMove

/-!
# Bits of shared registers

`AccessorBit.write_raw` is a read-modify-write: the outputs and the modes of the inputs of a unit
share registers. The unit applies an accepted write up to `rereadDelay` later, its answers before
that are outdated, the pin of the written register corrects them.

## Main definitions

* `BitWrite`: a write of an `AccessorBit`, `lastBit` the last value written to a bit.
* `Bits.Step`: the changes, the scans and the clock with the read-modify-writes of the running
  change and the registers of the unit.
* `Bits.Timely`: an outdated answer is handled before the pin of the register expires.

## Main results

* `Bits.bits_of_timely`: the written bits have their last values, the other ones are kept.
* `Bits.bits_of_prompt`: in particular when the answers are handled at once.
-/

namespace Evok

namespace Modbus

/-! ## The writes of bits -/

/-- `AccessorBit.write_raw`. -/
structure BitWrite where
  index : ℕ
  mask : Word
  value : Bool

namespace BitWrite

/-- The register after the write: the masked bits are set or cleared. -/
def modify (w : BitWrite) (curr : Word) : Word :=
  if w.value then curr ||| w.mask else curr &&& ~~~w.mask

/-- The written bits (register, bit). -/
def bits (w : BitWrite) (bit : ℕ × ℕ) : Option Bool :=
  if bit.1 = w.index ∧ w.mask.getLsbD bit.2 then some w.value else none

end BitWrite

/-- The last value written to a bit. -/
def lastBit (writes : List BitWrite) : ℕ × ℕ → Option Bool :=
  Overlay.overlay (writes.map BitWrite.bits)

/-- The registers after the writes. -/
def modified (registers : ℕ → Word) (writes : List BitWrite) : ℕ → Word :=
  writes.foldl (fun r w => Function.update r w.index (w.modify (r w.index))) registers

theorem modified_append (registers : ℕ → Word) (writes : List BitWrite) (w : BitWrite) :
    modified registers (writes ++ [w]) = Function.update (modified registers writes) w.index
      (w.modify (modified registers writes w.index)) := by
  rw [modified, List.foldl_append]
  rfl

theorem BitWrite.getLsbD_modify (w : BitWrite) (curr : Word) (i : ℕ) :
    (w.modify curr).getLsbD i = (w.bits (w.index, i)).getD (curr.getLsbD i) := by
  unfold modify bits
  cases hvalue : w.value <;> cases hmask : w.mask.getLsbD i <;> simp [hmask]
  exact BitVec.lt_of_getLsbD

/-- The written bits have their last values, the other ones are kept. -/
theorem getLsbD_modified (registers : ℕ → Word) (writes : List BitWrite) (a i : ℕ) :
    (modified registers writes a).getLsbD i =
      (lastBit writes (a, i)).getD ((registers a).getLsbD i) := by
  induction writes using List.reverseRecOn with
  | nil => rfl
  | append_singleton writes w ih =>
    rw [modified_append, lastBit, List.map_append, Overlay.overlay_append, List.map_singleton,
      Overlay.overlay_singleton, ← lastBit]
    by_cases h : a = w.index
    · subst h
      rw [Function.update_self, w.getLsbD_modify, ih]
      cases w.bits (w.index, i) <;> rfl
    · rw [Function.update_of_ne h, ih, BitWrite.bits, if_neg (by simp [h])]
      rfl

namespace Bits

/-! ## The unit and the read-modify-writes -/

/-- The running read-modify-write of a change. -/
inductive Rmw
  | none
  /-- The unit answered the read, `behind` a write of the register which it has not applied. -/
  | answered (w : BitWrite) (response : Word) (behind : Bool)
  /-- The current register was read. -/
  | read (w : BitWrite) (curr : Word)
  /-- The unit accepted the write, its response is not handled yet. -/
  | accepted (w : BitWrite) (value : Word)

/-- The process and the holding registers of the unit. -/
structure State where
  client : Change.State
  unit : Delayed ℕ Word Time
  rmw : Rmw := .none

inductive Event
  /-- A step of the clock, of a scan or of a change besides its writes of bits. -/
  | client (e : Change.Event)
  /-- The unit changes other registers. -/
  | change (registers : ℕ → Word)
  | apply
  | answer (w : BitWrite)
  | handle
  | accept
  /-- The response of a write: the write is successful. -/
  | written (w : BitWrite)
  /-- The read or the write fails, the unit does not accept the write. -/
  | fail

/-- The successful write of the step. -/
def Event.write : Event → Option BitWrite
  | written w => some w
  | _ => .none

/-- The task of the change waits for a request, only the clock and the scans go on. -/
def concurrent : Change.Event → Prop
  | .tick _ | .readBlock .. | .getRegisterAsync .. => True
  | _ => False

/-- The clock goes on until a deadline of the unit. -/
def inTime (unit : Delayed ℕ Word Time) : Change.Event → Prop
  | .tick now => ∀ write ∈ unit.pending, now < write.deadline
  | _ => True

/-- The steps of a unit whose bits of the `shared` registers are written by read-modify-writes
only; the other reads may return anything. -/
inductive Step (shared : ℕ → Prop) : State → Event → State → Prop
  | client {s : State} {e : Change.Event} {c : Change.State} (step : Change.Step s.client e c)
      (free : s.rmw = .none ∨ concurrent e) (other : ∀ a, shared a → ¬e.touches a)
      (deadlines : inTime s.unit e) : Step shared s (.client e) { s with client := c }
  | change {s : State} {registers : ℕ → Word}
      (other : ∀ a, shared a → registers a = s.unit.memory a) :
      Step shared s (.change registers) { s with unit := { s.unit with memory := registers } }
  | apply {s : State} : Step shared s .apply { s with unit := s.unit.applied }
  /-- The read of `get_register_async` at the unit, also its retry. -/
  | answer {s : State} {w : BitWrite} {requested : Bool}
      (writing : s.client.phase = .writing requested .none) (register : shared w.index)
      (next : s.rmw = .none ∨ ∃ response behind, s.rmw = .answered w response behind) :
      Step shared s (.answer w)
        { s with rmw := .answered w (s.unit.memory w.index) (s.unit.isPending w.index) }
  /-- The answer is handled by `get_register_async`. -/
  | handle {s : State} {w : BitWrite} {response : Word} {behind : Bool} {c : Change.State}
      (answered : s.rmw = .answered w response behind)
      (step : Change.Step s.client (.modify w.index [response]) c) :
      Step shared s .handle
        { s with
          client := c
          rmw := .read w ((s.client.client.cache.getRegisterAsync s.client.now w.index
            [response]).2.headD response) }
  /-- The unit accepts the write of the modified register, also its retry. -/
  | accept {s : State} {w : BitWrite} {value : Word}
      (sent : (∃ curr, s.rmw = .read w curr ∧ value = w.modify curr) ∨ s.rmw = .accepted w value) :
      Step shared s .accept
        { s with
          unit := s.unit.accept ⟨w.index, value, s.client.now + rereadDelay⟩
          rmw := .accepted w value }
  /-- The response of the write is handled by `write_registers`. -/
  | written {s : State} {w : BitWrite} {value : Word} {c : Change.State}
      (accepted : s.rmw = .accepted w value)
      (step : Change.Step s.client (.write w.index [value] true) c) :
      Step shared s (.written w) { s with client := c, rmw := .none }
  | fail {s : State}
      (running : (∃ w response behind, s.rmw = .answered w response behind) ∨
        ∃ w curr, s.rmw = .read w curr) :
      Step shared s .fail { s with rmw := .none }

/-- The registers before the writes: the unit has applied the earlier ones, a pin has the value of
its register. -/
structure Start (shared : ℕ → Prop) (s : State) : Prop where
  reachable : Change.Reachable s.client
  blocks : ∀ a, shared a → s.client.client.cache.inBlock a
  settled : s.unit.pending = []
  pins : ∀ a, shared a → ∀ pin ∈ s.client.client.cache.pinOf a, pin.value = s.unit.memory a
  idle : s.client.phase = .idle
  rmw : s.rmw = .none

/-- An answer given before the unit has applied the writes of the register is handled before its
pin expires. -/
def Timely (s : State) : Event → Prop
  | .handle => ∀ w response, s.rmw = .answered w response true →
      ∃ pin ∈ s.client.client.cache.pinOf w.index, s.client.now < pin.keptUntil
  | _ => True

/-! ## The invariant -/

/-- The writes which the unit has accepted before their responses. -/
def Rmw.sent : Rmw → List BitWrite
  | accepted w _ => [w]
  | _ => []

@[simp] theorem Rmw.sent_none : Rmw.none.sent = [] :=
  rfl

@[simp] theorem Rmw.sent_accepted (w : BitWrite) (value : Word) :
    (Rmw.accepted w value).sent = [w] :=
  rfl

/-- What a read-modify-write knows of the settled registers. -/
def Rmw.Consistent (shared : ℕ → Prop) (settled : ℕ → Word) : Rmw → Prop
  | none => True
  | answered w response behind =>
    shared w.index ∧ (behind = false → response = settled w.index)
  | read w curr => shared w.index ∧ curr = settled w.index
  | accepted w value => shared w.index ∧ value = settled w.index

/-- The pin of a register corrects the reads until the unit has applied the writes of it. -/
structure Corrects (pin : Option Pin) (unit : Delayed ℕ Word Time) (a : ℕ) : Prop where
  value : ∀ p ∈ pin, p.value = unit.settled a
  kept : ∀ write ∈ unit.pending, write.key = a → ∃ p ∈ pin, write.deadline ≤ p.keptUntil

structure Inv (shared : ℕ → Prop) (original : ℕ → Word) (writes : List BitWrite) (s : State) :
    Prop where
  client : Change.Inv s.client
  blocks : ∀ a, shared a → s.client.client.cache.inBlock a
  pwm : ∀ a, shared a → Change.PwmApart a s.client
  deadlines : ∀ write ∈ s.unit.pending,
    s.client.now < write.deadline ∧ write.deadline ≤ s.client.now + rereadDelay
  /-- A write which is sent pins its register by its response. -/
  pins : ∀ a, shared a → (∀ w ∈ s.rmw.sent, a ≠ w.index) →
    Corrects (s.client.client.cache.pinOf a) s.unit a
  rmw : s.rmw.Consistent shared s.unit.settled
  values : ∀ a, shared a → s.unit.settled a = modified original (writes ++ s.rmw.sent) a

theorem Start.inv {shared : ℕ → Prop} {s : State} (h : Start shared s) :
    Inv shared s.unit.memory [] s where
  client := h.reachable.inv
  blocks := h.blocks
  pwm a _ := by simp [Change.PwmApart, h.idle]
  deadlines := by simp [h.settled]
  pins a ha _ := by
    constructor
    · rw [Delayed.settled_of_pending_nil h.settled]
      exact h.pins a ha
    · simp [h.settled]
  rmw := by
    rw [h.rmw]
    trivial
  values a _ := by
    rw [Delayed.settled_of_pending_nil h.settled, h.rmw]
    rfl

section Steps

variable {shared : ℕ → Prop} {original : ℕ → Word} {writes : List BitWrite} {s : State}

theorem Corrects.move {old new : Option Pin} {unit : Delayed ℕ Word Time} {a : ℕ} {now : Time}
    (h : Corrects old unit a) (move : PinMove now old new)
    (deadlines : ∀ write ∈ unit.pending,
      now < write.deadline ∧ write.deadline ≤ now + rereadDelay) : Corrects new unit a where
  value := move.value h.value
  kept write hwrite hkey :=
    move.kept (deadlines write hwrite).1 (deadlines write hwrite).2 (h.kept write hwrite hkey)

theorem now_lt_deadline {unit : Delayed ℕ Word Time} {e : Change.Event} {c c' : Change.State}
    (hs : Change.Step c e c') (deadlines : inTime unit e) {write : Delayed.Write ℕ Word Time}
    (hwrite : write ∈ unit.pending) (before : c.now < write.deadline) :
    c'.now < write.deadline := by
  cases hs with
  | tick later => exact deadlines write hwrite
  | _ => exact before

theorem Inv.client_step (inv : Inv shared original writes s) {e : Change.Event} {c : Change.State}
    (hs : Change.Step s.client e c) (other : ∀ a, shared a → ¬e.touches a)
    (deadlines : inTime s.unit e) : Inv shared original writes { s with client := c } where
  client := inv.client.step hs
  blocks a ha := hs.same.inBlock (inv.blocks a ha)
  pwm a ha := (inv.pwm a ha).step hs (other a ha)
  deadlines write hwrite := by
    obtain ⟨hbefore, hbound⟩ := inv.deadlines write hwrite
    have hlater := hs.now_le
    refine ⟨now_lt_deadline hs deadlines hwrite hbefore, ?_⟩
    dsimp only
    linarith
  pins a ha hsent :=
    (inv.pins a ha hsent).move (hs.pinMove inv.client (inv.blocks a ha) (other a ha) (inv.pwm a ha))
      inv.deadlines
  rmw := inv.rmw
  values := inv.values

theorem Rmw.Consistent.congr {rmw : Rmw} {settled settled' : ℕ → Word}
    (h : rmw.Consistent shared settled) (same : ∀ a, shared a → settled' a = settled a) :
    rmw.Consistent shared settled' := by
  cases rmw with
  | none => trivial
  | answered w response behind => exact ⟨h.1, fun hb => (h.2 hb).trans (same _ h.1).symm⟩
  | read w curr => exact ⟨h.1, h.2.trans (same _ h.1).symm⟩
  | accepted w value => exact ⟨h.1, h.2.trans (same _ h.1).symm⟩

/-- The unit changes other registers or applies a write. -/
theorem Inv.unit_step (inv : Inv shared original writes s) {unit : Delayed ℕ Word Time}
    (settled : ∀ a, shared a → unit.settled a = s.unit.settled a)
    (pending : unit.pending ⊆ s.unit.pending) : Inv shared original writes { s with unit } where
  client := inv.client
  blocks := inv.blocks
  pwm := inv.pwm
  deadlines write hwrite := inv.deadlines write (pending hwrite)
  pins a ha hsent := by
    have h := inv.pins a ha hsent
    constructor
    · rw [settled a ha]
      exact h.value
    · exact fun write hwrite => h.kept write (pending hwrite)
  rmw := inv.rmw.congr settled
  values a ha := (settled a ha).trans (inv.values a ha)

/-- A read-modify-write which has not sent its write. -/
theorem Inv.rmw_step (inv : Inv shared original writes s) {rmw : Rmw} (old : s.rmw.sent = [])
    (new : rmw.sent = []) (consistent : rmw.Consistent shared s.unit.settled) :
    Inv shared original writes { s with rmw } where
  client := inv.client
  blocks := inv.blocks
  pwm := inv.pwm
  deadlines := inv.deadlines
  pins a ha _ := inv.pins a ha (by simp [old])
  rmw := consistent
  values a ha := by
    dsimp only
    rw [inv.values a ha, old, new]

/-- The read register has the accepted writes. -/
theorem Inv.read_eq (inv : Inv shared original writes s) {w : BitWrite} {response : Word}
    {behind : Bool} (answered : s.rmw = .answered w response behind)
    (timely : Timely s .handle) :
    (s.client.client.cache.getRegisterAsync s.client.now w.index [response]).2.headD response =
      s.unit.settled w.index := by
  have hrmw := inv.rmw
  rw [answered] at hrmw
  obtain ⟨hshared, hcurrent⟩ := hrmw
  have hpins := inv.pins w.index hshared (by simp [answered, Rmw.sent])
  rw [ModbusCacheMap.getRegisterAsync_one inv.client.wf (inv.blocks _ hshared), List.headD_cons]
  cases hpin : (s.client.client.cache.pinOf w.index).filter fun pin => s.client.now < pin.keptUntil with
  | some pin => exact hpins.value pin (Option.mem_filter_iff.mp hpin).1
  | none =>
    refine hcurrent ?_
    by_contra hbehind
    obtain rfl : behind = true := by simpa using hbehind
    obtain ⟨pin, hmem, hlt⟩ := timely w response answered
    rw [Option.mem_def.mp hmem, Option.filter_some, if_pos (by simpa using hlt)] at hpin
    cases hpin

theorem Inv.handle (inv : Inv shared original writes s) {w : BitWrite} {response : Word}
    {behind : Bool} (answered : s.rmw = .answered w response behind) (timely : Timely s .handle)
    {c : Change.State} (hs : Change.Step s.client (.modify w.index [response]) c) :
    Inv shared original writes { s with
      client := c
      rmw := .read w ((s.client.client.cache.getRegisterAsync s.client.now w.index
        [response]).2.headD response) } where
  client := inv.client.step hs
  blocks a ha := hs.same.inBlock (inv.blocks a ha)
  pwm a ha := by
    cases hs
    simp [Change.PwmApart]
  deadlines := by
    cases hs
    exact inv.deadlines
  pins a ha _ := by
    have hpins := inv.pins a ha (by simp [answered, Rmw.sent])
    cases hs
    exact hpins.move (ModbusCacheMap.pinMove_setRegister _ _ _ _ _ _) inv.deadlines
  rmw := by
    have hrmw := inv.rmw
    rw [answered] at hrmw
    exact ⟨hrmw.1, inv.read_eq answered timely⟩
  values a ha := by
    rw [inv.values a ha, answered]
    rfl

/-- The unit accepts the register with all writes. -/
theorem Inv.accept (inv : Inv shared original writes s) {w : BitWrite} {value : Word}
    (sent : (∃ curr, s.rmw = .read w curr ∧ value = w.modify curr) ∨ s.rmw = .accepted w value) :
    Inv shared original writes { s with
      unit := s.unit.accept ⟨w.index, value, s.client.now + rereadDelay⟩
      rmw := .accepted w value } := by
  have hrmw := inv.rmw
  have hshared : shared w.index := by
    rcases sent with ⟨curr, hread, -⟩ | haccepted
    · rw [hread] at hrmw
      exact hrmw.1
    · rw [haccepted] at hrmw
      exact hrmw.1
  have hother : ∀ v ∈ s.rmw.sent, v = w := by
    rcases sent with ⟨curr, hread, -⟩ | haccepted
    · simp [hread, Rmw.sent]
    · simp [haccepted, Rmw.sent]
  refine ⟨inv.client, inv.blocks, inv.pwm, ?_, ?_, ?_, ?_⟩
  · intro write hwrite
    rcases List.mem_append.mp hwrite with hold | hnew
    · exact inv.deadlines write hold
    · obtain rfl := List.mem_singleton.mp hnew
      dsimp only
      exact ⟨by simp [rereadDelay], le_rfl⟩
  · intro a ha hsent
    have hne : a ≠ w.index := hsent w List.mem_cons_self
    have hpins := inv.pins a ha fun v hv => by rwa [hother v hv]
    constructor
    · rw [Delayed.settled_accept, Function.update_of_ne hne]
      exact hpins.value
    · intro write hwrite hkey
      rcases List.mem_append.mp hwrite with hold | hnew
      · exact hpins.kept write hold hkey
      · obtain rfl := List.mem_singleton.mp hnew
        exact absurd hkey.symm hne
  · refine ⟨hshared, ?_⟩
    rw [Delayed.settled_accept, Function.update_self]
  · intro a ha
    rw [Delayed.settled_accept]
    rcases sent with ⟨curr, hread, rfl⟩ | haccepted
    · rw [hread] at hrmw
      have hvalues : ∀ b, shared b → s.unit.settled b = modified original writes b := by
        simpa [hread, Rmw.sent] using inv.values
      rw [Rmw.sent, modified_append, hrmw.2, hvalues _ hshared]
      by_cases h : a = w.index
      · rw [h, Function.update_self, Function.update_self]
      · rw [Function.update_of_ne h, Function.update_of_ne h, hvalues a ha]
    · -- the unit accepts the same value again
      rw [haccepted] at hrmw
      rw [hrmw.2, Function.update_eq_self, inv.values a ha, haccepted, Rmw.sent_accepted,
        Rmw.sent_accepted]

theorem Inv.written (inv : Inv shared original writes s) {w : BitWrite} {value : Word}
    (accepted : s.rmw = .accepted w value) {c : Change.State}
    (hs : Change.Step s.client (.write w.index [value] true) c) :
    Inv shared original (writes ++ [w]) { s with client := c, rmw := .none } := by
  have hrmw := inv.rmw
  rw [accepted] at hrmw
  have hclient := inv.client.step hs
  have hblocks : ∀ a, shared a → c.client.cache.inBlock a :=
    fun a ha => hs.same.inBlock (inv.blocks a ha)
  cases hs with
  | write writing =>
    refine ⟨hclient, hblocks, ?_, inv.deadlines, ?_, trivial, ?_⟩
    · simp [Change.PwmApart]
    · intro a ha _
      dsimp only
      rw [Client.pinOf_writeRegisters inv.client.periodic _ _ _ _ (inv.blocks a ha)]
      by_cases h : a = w.index
      · subst h
        constructor
        · simp [block, hrmw.2]
        · intro write hwrite _
          exact ⟨_, by simp [block]; rfl, (inv.deadlines write hwrite).2⟩
      · have hpins := inv.pins a ha (by simp [accepted, Rmw.sent, h])
        have apart : block (w.index, [value]) a = none := by
          rw [← Option.not_isSome_iff_eq_none, block_isSome, List.length_singleton]
          omega
        rw [apart]
        exact hpins
    · intro a ha
      rw [inv.values a ha, accepted, Rmw.sent_accepted, Rmw.sent_none, List.append_nil]

theorem Inv.step (inv : Inv shared original writes s) {e : Event} {s' : State}
    (hs : Step shared s e s') (timely : Timely s e) :
    Inv shared original (writes ++ e.write.toList) s' := by
  have other : e.write = none → Inv shared original writes s' →
      Inv shared original (writes ++ e.write.toList) s' := by
    intro hwrite h
    rwa [hwrite, Option.toList_none, List.append_nil]
  cases hs with
  | client step free untouched deadlines => exact other rfl (inv.client_step step untouched deadlines)
  | change same =>
    exact other rfl
      (inv.unit_step (fun a ha => Delayed.settled_congr (same a ha)) (List.Subset.refl _))
  | apply =>
    refine other rfl (inv.unit_step (fun a _ => ?_) s.unit.pending_applied)
    rw [Delayed.settled_applied]
  | answer writing register next =>
    have hsent : s.rmw.sent = [] := by
      rcases next with h | ⟨response, behind, h⟩ <;> rw [h] <;> rfl
    exact other rfl
      (inv.rmw_step hsent rfl ⟨register, fun h => (Delayed.settled_of_notPending h).symm⟩)
  | handle answered step => exact other rfl (inv.handle answered timely step)
  | accept sent => exact other rfl (inv.accept sent)
  | written accepted step => exact inv.written accepted step
  | fail running =>
    refine other rfl (inv.rmw_step ?_ rfl trivial)
    rcases running with ⟨w, response, behind, h⟩ | ⟨w, curr, h⟩ <;> rw [h] <;> rfl

/-- The runs in which the outdated answers are handled in time. -/
abbrev TimelyRun (shared : ℕ → Prop) :=
  Transition.Run fun s e s' => Step shared s e s' ∧ Timely s e

theorem Inv.run (inv : Inv shared original writes s) {es : List Event} {s' : State}
    (hr : TimelyRun shared s es s') :
    Inv shared original (writes ++ es.filterMap Event.write) s' := by
  induction hr generalizing writes with
  | nil => rwa [List.filterMap_nil, List.append_nil]
  | @cons s s₁ s₂ e es head _ ih =>
    have h := ih (inv.step head.1 head.2)
    rw [List.append_assoc] at h
    cases hwrite : e.write with
    | none =>
      rw [hwrite] at h
      rwa [List.filterMap_cons_none hwrite]
    | some w =>
      rw [hwrite] at h
      rwa [List.filterMap_cons_some hwrite]

/-- When the unit has applied the writes, each written bit of the shared registers has its last
value and the other bits are as they were. -/
theorem bits_of_timely {s' : State} {es : List Event} (start : Start shared s)
    (hr : TimelyRun shared s es s') (ended : s'.rmw = .none) (applied : s'.unit.pending = [])
    {a : ℕ} (ha : shared a) (i : ℕ) :
    (s'.unit.memory a).getLsbD i =
      (lastBit (es.filterMap Event.write) (a, i)).getD ((s.unit.memory a).getLsbD i) := by
  have hvalues := (start.inv.run hr).values a ha
  rw [Delayed.settled_of_pending_nil applied, ended, Rmw.sent_none, List.append_nil,
    List.nil_append] at hvalues
  rw [hvalues, getLsbD_modified]

/-! ## Answers which are handled at once -/

/-- The clock does not go on between an answer and its handling. -/
def Prompt (s : State) : Event → Prop
  | .client (.tick _) => ∀ w response behind, s.rmw ≠ .answered w response behind
  | _ => True

theorem Timely.client_step (inv : Inv shared original writes s) (h : Timely s .handle)
    {e : Change.Event} {c : Change.State} (hs : Change.Step s.client e c)
    (other : ∀ a, shared a → ¬e.touches a) (prompt : Prompt s (.client e)) :
    Timely { s with client := c } .handle := by
  intro w response answered
  have hshared : shared w.index := by
    have hrmw := inv.rmw
    rw [show s.rmw = _ from answered] at hrmw
    exact hrmw.1
  have hnow : c.now = s.client.now := by
    cases hs with
    | tick => exact absurd answered (prompt w response true)
    | _ => rfl
  have hmove := hs.pinMove inv.client (inv.blocks _ hshared) (other _ hshared) (inv.pwm _ hshared)
  dsimp only
  rw [hnow]
  exact hmove.unexpired (h w response answered)

/-- An outdated answer finds the pin of the write which the unit has not applied. -/
theorem Timely.step (inv : Inv shared original writes s) (h : Timely s .handle) {e : Event}
    {s' : State} (hs : Step shared s e s') (prompt : Prompt s e) : Timely s' .handle := by
  cases hs with
  | client step _ other _ => exact h.client_step inv step other prompt
  | change | apply => exact h
  | @answer w _ _ register next =>
    intro w' response answered
    obtain ⟨rfl, -, hbehind⟩ := Rmw.answered.inj answered
    obtain ⟨write, hwrite, hkey⟩ := List.any_eq_true.mp hbehind
    have hsent : s.rmw.sent = [] := by
      rcases next with h | ⟨response, behind, h⟩ <;> rw [h] <;> rfl
    have hpins := inv.pins w.index register (by simp [hsent])
    obtain ⟨pin, hpin, hle⟩ := hpins.kept write hwrite (by simpa using hkey)
    exact ⟨pin, hpin, (inv.deadlines write hwrite).1.trans_le hle⟩
  | handle | accept | written | fail =>
    intro w response answered
    simp at answered

/-- The bits have these values when the answers are handled at once. -/
theorem bits_of_prompt {s' : State} {es : List Event} (start : Start shared s)
    (hr : Transition.Run (fun s e s' => Step shared s e s' ∧ Prompt s e) s es s')
    (ended : s'.rmw = .none) (applied : s'.unit.pending = []) {a : ℕ} (ha : shared a) (i : ℕ) :
    (s'.unit.memory a).getLsbD i =
      (lastBit (es.filterMap Event.write) (a, i)).getD ((s.unit.memory a).getLsbD i) := by
  refine bits_of_timely start ?_ ended applied ha i
  have htimely : Timely s .handle := by
    intro w response answered
    rw [start.rmw] at answered
    cases answered
  have hinv := start.inv
  clear start ended applied
  generalize s.unit.memory = original, ([] : List BitWrite) = writes at hinv
  induction hr generalizing writes with
  | nil s => exact .nil s
  | @cons s s₁ s₂ e es head _ ih =>
    have hhandle : Timely s e := by
      cases e with
      | handle => exact htimely
      | _ => trivial
    have hnext := htimely.step hinv head.1 head.2
    exact .cons ⟨head.1, hhandle⟩ (ih hnext _ (hinv.step head.1 hhandle))

end Steps

/-! ## A lost bit -/

/-- Two outputs of one register. -/
def twoOutputs : State where
  client := Change.oneRegister
  unit := { memory := fun _ => 0, pending := [] }

theorem twoOutputs_start : Start (· = 0) twoOutputs where
  reachable := .of_init Change.oneRegister_init
  blocks a ha := ⟨_, List.mem_singleton_self _, by rw [ha]; rfl⟩
  settled := rfl
  pins a ha := by
    rw [ha]
    intro pin hpin
    cases hpin
  idle := rfl
  rmw := rfl

def firstOutput : BitWrite := { index := 0, mask := 1, value := true }

def secondOutput : BitWrite := { index := 0, mask := 2, value := true }

/-- A step of the process which does not write the register. -/
theorem untouched {e : Change.Event} (h : e.touches 0 = False) : ∀ a, a = 0 → ¬e.touches a := by
  rintro a rfl
  rw [h]
  exact id

/-- The answer before the unit has applied the first output is corrected by its pin. -/
theorem bits_of_timely_twoOutputs : ∃ es s', TimelyRun (· = 0) twoOutputs es s' ∧
    es.filterMap Event.write = [firstOutput, secondOutput] ∧
    (s'.unit.memory 0).getLsbD 0 = true ∧ (s'.unit.memory 0).getLsbD 1 = true := by
  have hr : ∃ es s', TimelyRun (· = 0) twoOutputs es s' ∧
      es.filterMap Event.write = [firstOutput, secondOutput] ∧ s'.rmw = .none ∧
      s'.unit.pending = [] := by
    refine ⟨_, _,
      .cons ⟨.client (@Change.Step.begin _ true rfl) (.inl rfl) (untouched rfl) trivial, trivial⟩ <|
      .cons ⟨.answer (w := firstOutput) rfl rfl (.inl rfl), trivial⟩ <|
      .cons ⟨.handle rfl (.modify rfl), ?_⟩ <|
      .cons ⟨.accept (.inl ⟨_, rfl, rfl⟩), trivial⟩ <|
      .cons ⟨.written rfl (.write rfl), trivial⟩ <|
      .cons ⟨.answer (w := secondOutput) rfl rfl (.inl rfl), trivial⟩ <|
      .cons ⟨.handle rfl (.modify rfl), ?_⟩ <|
      .cons ⟨.accept (.inl ⟨_, rfl, rfl⟩), trivial⟩ <|
      .cons ⟨.written rfl (.write rfl), trivial⟩ <|
      .cons ⟨.apply, trivial⟩ <|
      .single ⟨.apply, trivial⟩, rfl, rfl, rfl⟩
    · intro w response answered
      simp [twoOutputs, Delayed.isPending] at answered
    · intro w response answered
      obtain ⟨rfl, -, -⟩ := Rmw.answered.inj answered
      refine ⟨⟨1, 1⟩, ?_, ?_⟩
      · decide +kernel
      · decide +kernel
  obtain ⟨es, s', hr, hwrites, ended, applied⟩ := hr
  refine ⟨es, s', hr, hwrites, ?_, ?_⟩
  · rw [bits_of_timely twoOutputs_start hr ended applied rfl 0, hwrites]
    rfl
  · rw [bits_of_timely twoOutputs_start hr ended applied rfl 1, hwrites]
    rfl

/-- Every bit of the shared registers keeps its last written value. -/
def KeepsBits : Prop :=
  ∀ (shared : ℕ → Prop) (s s' : State) (es : List Event), Start shared s →
    Transition.Run (Step shared) s es s' → s'.rmw = .none → s'.unit.pending = [] →
    ∀ a, shared a → ∀ i, (s'.unit.memory a).getLsbD i =
      (lastBit (es.filterMap Event.write) (a, i)).getD ((s.unit.memory a).getLsbD i)

/-- The answer of the register without the first output is handled after its pin has expired, the
second write clears the first output. -/
theorem not_keepsBits : ¬KeepsBits := by
  intro keeps
  have hr : ∃ es s', Transition.Run (Step (· = 0)) twoOutputs es s' ∧
      es.filterMap Event.write = [firstOutput, secondOutput] ∧ s'.rmw = .none ∧
      s'.unit.pending = [] ∧ (s'.unit.memory 0).getLsbD 0 = false := by
    refine ⟨_, _,
      .cons (.client (@Change.Step.begin _ true rfl) (.inl rfl) (untouched rfl) trivial) <|
      .cons (.answer (w := firstOutput) rfl rfl (.inl rfl)) <|
      .cons (.handle rfl (.modify rfl)) <|
      .cons (.accept (.inl ⟨_, rfl, rfl⟩)) <|
      .cons (.client (@Change.Step.tick _ (1 / 100) ?_) (.inr trivial) (untouched rfl) ?_) <|
      .cons (.written rfl (.write rfl)) <|
      .cons (.client (.endWrites rfl) (.inl rfl) (untouched rfl) trivial) <|
      .cons (.client (.endChange rfl) (.inl rfl) (untouched rfl) trivial) <|
      -- the pin expires at 101/100, the unit applies the first output after the answer
      .cons (.client (@Change.Step.tick _ (99 / 100) ?_) (.inl rfl) (untouched rfl) ?_) <|
      .cons (.client (@Change.Step.begin _ true rfl) (.inl rfl) (untouched rfl) trivial) <|
      .cons (.answer (w := secondOutput) rfl rfl (.inl rfl)) <|
      .cons .apply <|
      .cons (.client (@Change.Step.tick _ (102 / 100) ?_) (.inr trivial) (untouched rfl) ?_) <|
      .cons (.handle rfl (.modify rfl)) <|
      .cons (.accept (.inl ⟨_, rfl, rfl⟩)) <|
      .cons (.written rfl (.write rfl)) <|
      .single .apply, rfl, rfl, rfl, ?_⟩
    · norm_num [twoOutputs, Change.oneRegister]
    · intro write hwrite
      obtain rfl := List.mem_singleton.mp hwrite
      norm_num [twoOutputs, Change.oneRegister, rereadDelay]
    · norm_num
    · intro write hwrite
      obtain rfl := List.mem_singleton.mp hwrite
      norm_num [twoOutputs, Change.oneRegister, rereadDelay]
    · norm_num
    · intro write hwrite
      cases hwrite
    · decide +kernel
  obtain ⟨es, s', hr, hwrites, ended, applied, hbit⟩ := hr
  have hkept := keeps _ _ _ _ twoOutputs_start hr ended applied 0 rfl 0
  rw [hbit, hwrites] at hkept
  cases hkept

end Bits

end Modbus

end Evok
