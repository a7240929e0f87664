import Evok.Modbus.Pins

/-!
# The pin of a register over the steps

A step which does not write a register keeps its pin, drops an expired one by a read or renews it
at the end of a change.

## Main definitions

* `ModbusCacheMap.pinOf`: the pin of a register.
* `PinMove`: what a step does with a pin.

## Main results

* `Change.Step.pinMove`: the pin of a register which a step does not write.
* `ModbusCacheMap.getRegisterAsync_one`: a read returns the unexpired pin or the answer of the unit.
-/

namespace Evok

namespace Modbus

/-! ## The pin of a register -/

namespace ModbusCacheMap

/-- The pin of a holding register. -/
def pinOf (c : ModbusCacheMap) (a : ℕ) : Option Pin :=
  (c.groups.find? (·.isMember a)).bind (·.pins a)

/-- The register is in a block of the holding registers. -/
def inBlock (c : ModbusCacheMap) (a : ℕ) : Prop :=
  ∃ g ∈ c.groups, g.isMember a

theorem Same.inBlock {c c' : ModbusCacheMap} (same : c.Same c') {a : ℕ} (h : c.inBlock a) :
    c'.inBlock a := by
  obtain ⟨g, hg, ha⟩ := h
  have hshape : g.shape ∈ c'.shapes false := by
    rw [same false]
    exact List.mem_map_of_mem hg
  obtain ⟨g', hg', hsame⟩ := List.mem_map.mp hshape
  exact ⟨g', hg', by rwa [RegisterGroup.Same.isMember hsame]⟩

theorem find_of_inBlock {c : ModbusCacheMap} {a : ℕ} (h : c.inBlock a) :
    ∃ g ∈ c.groups, g.isMember a ∧ c.groups.find? (·.isMember a) = some g := by
  obtain ⟨g, hg, ha⟩ := h
  cases hfind : c.groups.find? (·.isMember a) with
  | none => exact absurd ha (by simpa using List.find?_eq_none.mp hfind g hg)
  | some h =>
    exact ⟨h, List.mem_of_find?_eq_some hfind, by simpa using List.find?_some hfind, rfl⟩

theorem pinOf_mapGroups (c : ModbusCacheMap) {f : RegisterGroup → RegisterGroup}
    (same : ∀ g : RegisterGroup, g.Same (f g)) (a : ℕ) :
    (c.mapGroups false f).pinOf a =
      (c.groups.find? (·.isMember a)).bind fun g => (f g).pins a := by
  have hmember : (fun g : RegisterGroup => g.isMember a) ∘ f = fun g => g.isMember a := by
    funext g
    exact (same g).isMember a 1
  rw [pinOf, mapGroups_false_groups, List.find?_map, hmember, Option.bind_map]
  rfl

/-- A change of the blocks which keeps the pin of the register. -/
theorem pinOf_mapGroups_of_pins (c : ModbusCacheMap) {f : RegisterGroup → RegisterGroup}
    (same : ∀ g : RegisterGroup, g.Same (f g)) {a : ℕ}
    (pins : ∀ g : RegisterGroup, g.isMember a → (f g).pins a = g.pins a) :
    (c.mapGroups false f).pinOf a = c.pinOf a := by
  rw [pinOf_mapGroups c same, pinOf]
  cases hfind : c.groups.find? (·.isMember a) with
  | none => rfl
  | some g => exact pins g (by simpa using List.find?_some hfind)

end ModbusCacheMap

/-- What a step at a time does with a pin: it keeps it, drops an expired one or renews it. -/
inductive PinMove (now : Time) : Option Pin → Option Pin → Prop
  | keep (pin : Option Pin) : PinMove now pin pin
  | drop {pin : Pin} (expired : pin.keptUntil ≤ now) : PinMove now (some pin) none
  | renew (pin : Pin) : PinMove now (some pin) (some { pin with keptUntil := now + rereadDelay })

namespace PinMove

variable {now : Time} {old new : Option Pin}

theorem value (h : PinMove now old new) {value : Word} (hvalue : ∀ pin ∈ old, pin.value = value) :
    ∀ pin ∈ new, pin.value = value := by
  cases h with
  | keep => exact hvalue
  | drop => simp
  | renew pin =>
    intro pin' hpin
    obtain rfl := Option.some.inj hpin
    exact hvalue pin rfl

/-- A pin kept until a time is not dropped before. -/
theorem kept (h : PinMove now old new) {deadline : Time} (before : now < deadline)
    (bound : deadline ≤ now + rereadDelay) (hkept : ∃ pin ∈ old, deadline ≤ pin.keptUntil) :
    ∃ pin ∈ new, deadline ≤ pin.keptUntil := by
  obtain ⟨pin, hpin, hle⟩ := hkept
  cases h with
  | keep => exact ⟨pin, hpin, hle⟩
  | drop expired =>
    obtain rfl := Option.some.inj hpin
    exact absurd (before.trans_le hle) (not_lt_of_ge expired)
  | renew => exact ⟨_, rfl, bound⟩

theorem unexpired (h : PinMove now old new) (hold : ∃ pin ∈ old, now < pin.keptUntil) :
    ∃ pin ∈ new, now < pin.keptUntil := by
  obtain ⟨pin, hpin, hlt⟩ := hold
  cases h with
  | keep => exact ⟨pin, hpin, hlt⟩
  | drop expired =>
    obtain rfl := Option.some.inj hpin
    exact absurd hlt (not_lt_of_ge expired)
  | renew => exact ⟨_, rfl, by simp [rereadDelay]⟩

end PinMove

/-- A read keeps the pin of a register or drops it. -/
theorem RegisterGroup.pinMove_update (g : RegisterGroup) (now : Time) (start : ℕ)
    (values : List Word) (a : ℕ) :
    PinMove now (g.pins a) ((g.update now start values true).pins a) := by
  rw [g.pins_update]
  cases hpin : g.pins a with
  | none => exact .keep none
  | some pin =>
    rw [Option.filter_some]
    split
    · exact .keep _
    · next h =>
      refine .drop (le_of_not_gt fun hlt => h ?_)
      simp [hlt]

namespace ModbusCacheMap

/-- The pin moves when it does in each block. -/
theorem pinMove_mapGroups (c : ModbusCacheMap) {f : RegisterGroup → RegisterGroup}
    (same : ∀ g : RegisterGroup, g.Same (f g)) {now : Time} {a : ℕ}
    (moves : ∀ g : RegisterGroup, PinMove now (g.pins a) ((f g).pins a)) :
    PinMove now (c.pinOf a) ((c.mapGroups false f).pinOf a) := by
  rw [pinOf_mapGroups c same, pinOf]
  cases c.groups.find? (·.isMember a) with
  | none => exact .keep _
  | some g => exact moves g

/-- A read of a part of the blocks. -/
theorem pinMove_read (c : ModbusCacheMap) (now : Time) (isInput : Bool)
    (start : RegisterGroup → ℕ) (values : List Word) (p : RegisterGroup → Prop) [DecidablePred p]
    (a : ℕ) :
    PinMove now (c.pinOf a)
      ((c.mapGroups isInput fun g =>
        if p g then g.update now (start g) values true else g).pinOf a) := by
  cases isInput with
  | true => exact .keep _
  | false =>
    refine c.pinMove_mapGroups (fun g => ?_) fun g => ?_
    · split
      · exact g.update_same _ _ _ _
      · rfl
    · split
      · exact g.pinMove_update _ _ _ _
      · exact .keep _

theorem pinMove_setRegister (c : ModbusCacheMap) (now : Time) (index : ℕ) (values : List Word)
    (isInput : Bool) (a : ℕ) :
    PinMove now (c.pinOf a) ((c.setRegister now index values isInput true).pinOf a) := by
  have h := c.pinMove_read now isInput (fun _ => index) values (fun _ => True) a
  simpa [setRegister] using h

theorem pinMove_renewPins (c : ModbusCacheMap) (registers : List (ℕ × Bool)) (now : Time) (a : ℕ) :
    PinMove now (c.pinOf a) ((c.renewPins registers (now + rereadDelay)).pinOf a) := by
  refine c.pinMove_mapGroups (RegisterGroup.renewPins_same · _ _ _) fun g => ?_
  simp only [RegisterGroup.renewPins]
  cases g.pins a with
  | none => exact .keep none
  | some pin =>
    rw [Option.map_some]
    split
    · exact .renew pin
    · exact .keep _

end ModbusCacheMap

namespace Client

/-- The pin of a register after a write with pins. -/
theorem pinOf_writeRegisters {c : Client} (periodic : c.periodicScan = true) (now : Time)
    (index : ℕ) (values : List Word) (cache : Bool) {a : ℕ} (ha : c.cache.inBlock a) :
    (c.writeRegisters now index values cache true).cache.pinOf a =
      ((block (index, values) a).map fun value => ⟨value, now + rereadDelay⟩).or
        (c.cache.pinOf a) := by
  obtain ⟨g, hg, hmember, hfind⟩ := ModbusCacheMap.find_of_inBlock ha
  have hstored : ∀ g : RegisterGroup, g.Same (if cache then g.store index values else g) := by
    intro g
    split
    · exact g.store_same _ _
    · rfl
  rw [writeRegisters_pinned periodic, ModbusCacheMap.pinOf_mapGroups, ModbusCacheMap.pinOf, hfind]
  · simp only [Option.bind_some]
    rw [RegisterGroup.pins_pinAll_block]
    · split <;> simp
    · rwa [(hstored g).isMember]
  · exact fun g => (hstored g).trans (RegisterGroup.pinAll_same _ _ _ _)

end Client

namespace Change

variable {s s' : State} {e : Event} {a : ℕ}

/-- A running `PwmFrequency._write` does not write the register. -/
def PwmApart (a : ℕ) (s : State) : Prop :=
  ∀ requested pwm, s.phase = .writing requested (some pwm) → lastValue pwm.registers a = none

theorem PwmApart.step (h : PwmApart a s) (hs : Step s e s') (untouched : ¬e.touches a) :
    PwmApart a s' := by
  cases hs with
  | tick | readBlock | getRegisterAsync => exact h
  | beginPwm writing =>
    rintro requested pwm ⟨⟩
    simpa [Event.touches] using untouched
  | writePwm writing =>
    rintro requested pwm ⟨⟩
    have apart := h _ _ writing
    exact apart
  | _ =>
    intro requested pwm hphase
    simp at hphase

theorem Inv.block_writePwm {requested : Bool} {registers : List (ℕ × Word)}
    {done todo : List (ℕ × List Word)} {run : ℕ × List Word} (inv : Inv s)
    (writing : s.phase = .writing requested (some ⟨registers, done, run :: todo⟩))
    (apart : lastValue registers a = none) : block run a = none := by
  rw [← overlay_runs, ← inv.requests writing] at apart
  simp only [List.map_append, List.map_cons, Overlay.overlay_append, Overlay.overlay,
    Option.or_eq_none_iff] at apart
  exact apart.1.2

/-- The pin of a register which a step does not write. -/
theorem Step.pinMove (inv : Inv s) (hs : Step s e s') (ha : s.client.cache.inBlock a)
    (untouched : ¬e.touches a) (pwm : PwmApart a s) :
    PinMove s.now (s.client.cache.pinOf a) (s'.client.cache.pinOf a) := by
  cases hs with
  | tick | begin | request | beginPwm | failPwm | endChange => exact .keep _
  | @write requested index values pin =>
    have apart : block (index, values) a = none := by simpa [Event.touches] using untouched
    dsimp only
    cases pin with
    | true =>
      rw [Client.pinOf_writeRegisters inv.periodic _ _ _ _ ha, apart]
      exact .keep _
    | false =>
      rw [Client.writeRegisters_unpinned, ModbusCacheMap.pinOf_mapGroups_of_pins]
      · exact .keep _
      · exact fun g => (g.store_same _ _).trans (RegisterGroup.unpin_same _ _ _)
      · intro g _
        have hrange : ¬(index ≤ a ∧ a < index + values.length) := by
          rw [← block_isSome, apart]
          simp
        simp [RegisterGroup.unpin, hrange]
  | modify => exact ModbusCacheMap.pinMove_setRegister _ _ _ _ _ _
  | @writePwm requested registers done todo run writing =>
    dsimp only
    rw [Client.pinOf_writeRegisters inv.periodic _ _ _ _ ha,
      inv.block_writePwm writing (pwm _ _ writing)]
    exact .keep _
  | endPwm =>
    rw [withCache_cache, ModbusCacheMap.setRegisters_eq, ModbusCacheMap.pinOf_mapGroups_of_pins]
    · exact .keep _
    · exact (RegisterGroup.storeAll_same · _)
    · exact fun g _ => by rw [g.pins_storeAll]
  | restart => exact absurd trivial untouched
  | endWrites =>
    simp only [Client.endWrites]
    split
    · exact ModbusCacheMap.pinMove_renewPins _ _ _ _
    · exact .keep _
  | @readBlock isInput g response =>
    exact ModbusCacheMap.pinMove_read _ _ isInput (fun _ => g.address) response
      (·.address = g.address) a
  | getRegisterAsync => exact ModbusCacheMap.pinMove_setRegister _ _ _ _ _ _

end Change

/-! ## The cached value of a read-modify-write -/

/-- The value of a read of one register: the unexpired pin, or the answer of the unit. -/
theorem ModbusCacheMap.getRegisterAsync_one {c : ModbusCacheMap} (wf : c.WF) {a : ℕ}
    (ha : c.inBlock a) (now : Time) (response : Word) :
    (c.getRegisterAsync now a [response]).2 =
      [((c.pinOf a).filter fun pin => now < pin.keptUntil).elim response (·.value)] := by
  obtain ⟨g, hg, hmember, hfind⟩ := find_of_inBlock ha
  have hsame := c.setRegister_same now a [response] false true
  have hg' : g.update now a [response] true ∈ (c.setRegister now a [response] false true).groups :=
    List.mem_map_of_mem hg
  have hmember' : (g.update now a [response] true).isMember a := by
    rwa [(g.update_same now a [response] true).isMember]
  have hvalue : (g.update now a [response] true).value a =
      some (((c.pinOf a).filter fun pin => now < pin.keptUntil).elim response (·.value)) := by
    rw [g.value_update (wf.holding hg) now a [response] hmember,
      g.value_store_block (wf.holding hg) a [response] hmember, pinOf, hfind, Option.bind_some]
    cases g.pins a with
    | none => simp [block]
    | some pin =>
      by_cases h : now < pin.keptUntil
      · simp [h, Option.filter_some]
      · simp [h, Option.filter_some, block]
  have hread := getRegister_of_mem (hsame.wf wf)
    (show _ ∈ (c.setRegister now a [response] false true).groupsOf false from hg') hmember' hvalue
  simp only [getRegisterAsync, List.length_singleton, hread]

end Modbus

end Evok
