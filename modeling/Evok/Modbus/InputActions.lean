import Evok.Library.Fold
import Evok.Modbus.Device
import Evok.Modbus.RoundTrip

/-!
# The actions of a change of an input

`DigitalInput.set` checks its params, writes the bits of the DirectSwitch mode, then the registers
of the debounce and of the counter. No check fails after the first write.

## Main definitions

* `DIMode.dsActions`, `DIMode.modeActions`: the writes of `ds_mode` and of the mode.
* `DigitalInput.ModeRegisters`: the registers of the bits of an input.

## Main results

* `DIMode.set_ok`: the actions of the mode.
* `DigitalInput.set_error`: a failed check has written nothing.
* `DigitalInput.set_ok`: the actions of a change with valid params.
-/

namespace Evok

namespace Modbus

variable {ι : Type}

/-- A set bit is one request. -/
theorem Accessor.write_one (index : ℕ) (mask : Word) :
    ((Accessor.ofRegister (.bit mask) (some index)).write 1 : SetScript ι Unit) =
      Script.emit (.writeBit index mask true true) := by
  have hraw : roundHalfEven 1 = 1 := by exact_mod_cast roundHalfEven_intCast 1
  simp [Accessor.write, Accessor.ofRegister, DataType.rawRange, Accessor.writeRaw, hraw]

/-- A cleared bit is one request. -/
theorem Accessor.write_zero (index : ℕ) (mask : Word) :
    ((Accessor.ofRegister (.bit mask) (some index)).write 0 : SetScript ι Unit) =
      Script.emit (.writeBit index mask false true) := by
  have hraw : roundHalfEven 0 = 0 := by exact_mod_cast roundHalfEven_intCast 0
  simp [Accessor.write, Accessor.ofRegister, DataType.rawRange, Accessor.writeRaw, hraw]

namespace DIMode

/-- The writes of a `ds_mode`, the cleared bit first. -/
def dsActions (mask : Word) (polarity toggle : ℕ) (device : ι) : Option String → List (Action ι)
  | some dsMode =>
    (if dsMode = "Inverted" then
      [.writeBit toggle mask false true, .writeBit polarity mask true true]
    else
      [.writeBit polarity mask false true, .writeBit toggle mask (dsMode = "Toggle") true]) ++
    [.assign device (.dsMode dsMode)]
  | none => []

/-- The write of a mode. -/
def modeActions (mask : Word) (register : ℕ) (device : ι) : Option String → List (Action ι)
  | some mode =>
    [.writeBit register mask (mode = "DirectSwitch") true, .assign device (.mode mode)]
  | none => []

theorem set_ok {m : DIMode} {register polarity toggle : ℕ} (hmode : m.regmode = some register)
    (hpolarity : m.regpolarity = some polarity) (htoggle : m.regtoggle = some toggle)
    (device : ι) {s : State} {mode dsMode : Option String} (h : m.check s mode dsMode = .ok ()) :
    m.set device s mode dsMode = ⟨dsActions m.bitmask polarity toggle device dsMode ++
      modeActions m.bitmask register device mode, .ok ()⟩ := by
  have hmodes : ∀ mode : String, (m.accessorMode.write (if mode = "DirectSwitch" then 1 else 0) :
      SetScript ι Unit) =
        Script.emit (.writeBit register m.bitmask (mode = "DirectSwitch") true) := by
    intro mode
    rw [accessorMode, hmode]
    by_cases direct : mode = "DirectSwitch"
    · simp only [direct, if_true, Accessor.write_one, decide_true]
    · simp only [direct, if_false, Accessor.write_zero, decide_false]
  have hbits : accessorPolarity m = .ofRegister (.bit m.bitmask) (some polarity) ∧
      accessorToggle m = .ofRegister (.bit m.bitmask) (some toggle) := by
    rw [accessorPolarity, accessorToggle, hpolarity, htoggle]
    exact ⟨rfl, rfl⟩
  unfold set
  rw [h]
  simp only [hmodes, hbits.1, hbits.2, hmode, SetScript.ofExcept, dsActions, modeActions]
  cases dsMode with
  | none => cases mode <;> rfl
  | some dsMode =>
    by_cases inverted : dsMode = "Inverted"
    · subst inverted
      have hzero : ¬(1 : ℚ) ≤ 0 := by norm_num
      cases mode <;>
        simp [hzero, Accessor.write_one, Accessor.write_zero, Script.emit]
    · by_cases flips : dsMode = "Toggle"
      · subst flips
        cases mode <;> simp [Accessor.write_one, Accessor.write_zero, Script.emit]
      · cases mode <;> simp [inverted, flips, Accessor.write_zero, Script.emit]

/-- A mode which can be set is one of the input. -/
theorem check_ok {m : DIMode} {s : State} {mode dsMode : Option String}
    (h : m.check s mode dsMode = .ok ()) :
    (∀ x, mode = some x → x ∈ m.modes) ∧ ∀ x, dsMode = some x → x ∈ m.dsModes := by
  constructor
  · rintro x rfl
    by_contra unknown
    simp only [check, if_pos unknown] at h
    cases h
  · rintro x rfl
    by_contra unknown
    cases mode with
    | none =>
      simp only [check, if_pos unknown] at h
      cases h
    | some mode =>
      by_cases known : mode ∉ m.modes
      · simp only [check, if_pos known] at h
        cases h
      · simp only [check, if_neg known, if_pos unknown] at h
        cases h

end DIMode

/-! ## The rest of a change -/

/-- An action which does not write the registers, nor assign a mode. -/
def Action.Keeps (registers : List ℕ) : Action ι → Prop
  | .writeRegisters index values _ _ => ∀ r ∈ registers, ¬(index ≤ r ∧ r < index + values.length)
  | .assign _ (.counterMode _) | .readCounter _ | .setAlias _ _ => True
  | _ => False

/-- An integer of the range is written to the registers of the accessor. -/
theorem Accessor.write_int (a : Accessor) {index : ℕ} {low high v : ℤ}
    (hindex : a.index = some index) (integer : a.type.IsInteger) (codec : a.type.Codec low high)
    (writable : a.isInput = false) (plain : a.ratio = 1 ∧ a.offset = 0)
    (range : low ≤ v ∧ v ≤ high) :
    ∃ registers, registers.length = a.type.count ∧ (a.write (v : ℚ) : SetScript ι Unit) =
      ⟨[.writeRegisters index registers true a.pin], .ok ()⟩ := by
  have hraw : a.raw v = v := by
    rw [Accessor.raw, plain.1, plain.2, sub_zero, div_one, roundHalfEven_intCast]
  obtain ⟨registers, hencode, hlength, -⟩ := codec.decode_encode v range.1 range.2
  refine ⟨registers, hlength, ?_⟩
  rw [a.write_eq _ codec writable, hraw, if_pos range]
  exact a.writeRaw_encode hindex integer hencode

namespace DigitalInput

variable (d : DigitalInput)

/-- A checked value is an integer of the range of its register. -/
theorem registerValue_ok {name : String} {value : PyValue} {a : Accessor} {v : ℤ}
    (h : d.registerValue name value a = .ok v) :
    a.index.isSome ∧ ∀ low high, a.type.rawRange = some (low, high) → low ≤ v ∧ v ≤ high := by
  unfold registerValue at h
  by_cases missing : a.index.isNone
  · rw [if_pos missing] at h
    cases h
  rw [if_neg missing] at h
  refine ⟨by simpa [Option.isSome_iff_ne_none] using missing, fun low high hrange => ?_⟩
  obtain ⟨number, -, h⟩ := Fold.bind_eq_ok.mp h
  rw [hrange] at h
  by_cases whole : (⌊number⌋ : ℚ) = number
  · rw [if_neg (not_not.mpr whole)] at h
    by_cases range : (low : ℚ) ≤ number ∧ number ≤ high
    · dsimp only [Option.getD_some] at h
      rw [if_neg (not_not.mpr range)] at h
      obtain rfl := Except.ok.inj h
      rw [← whole] at range
      exact_mod_cast range
    · dsimp only [Option.getD_some] at h
      rw [if_pos range] at h
      cases h
  · rw [if_pos whole] at h
    cases h

/-- The checks of two optional values. -/
theorem values_ok {f g : PyValue → Except SetError ℤ} {x y : Option PyValue}
    {r : Option ℤ × Option ℤ}
    (h : (do
      let a ← x.mapM f
      let b ← y.mapM g
      return (a, b)) = .ok r) :
    (∀ v, r.1 = some v → ∃ value, f value = .ok v) ∧
      ∀ v, r.2 = some v → ∃ value, g value = .ok v := by
  have hvalue : ∀ {k : PyValue → Except SetError ℤ} {z : Option PyValue} {c : Option ℤ},
      z.mapM k = .ok c → ∀ v, c = some v → ∃ value, k value = .ok v := by
    intro k z c hk v hv
    subst hv
    cases z with
    | none => cases hk
    | some value =>
      obtain ⟨v', hvalue, hv'⟩ := Fold.bind_eq_ok.mp hk
      obtain rfl := Option.some.inj (Except.ok.inj hv')
      exact ⟨value, hvalue⟩
  obtain ⟨a, ha, h⟩ := Fold.bind_eq_ok.mp h
  obtain ⟨b, hb, h⟩ := Fold.bind_eq_ok.mp h
  obtain rfl := Except.ok.inj h
  exact ⟨hvalue ha, hvalue hb⟩

/-- The checks of a change: the modes, and the values of the debounce and of the counter. -/
theorem parse_ok {s : Attrs} {p : Params} {debounce counter : Option ℤ}
    (h : d.parse s p = .ok (debounce, counter)) :
    d.dimode.check s.dimode p.mode p.dsMode = .ok () ∧
      (∀ v, debounce = some v →
        ∃ value, d.registerValue "debounce" value d.accessorDebounce = .ok v) ∧
      ∀ v, counter = some v → ∃ value, d.registerValue "counter" value d.accessorCounter = .ok v := by
  obtain ⟨_, hcheck, h⟩ := Fold.bind_eq_ok.mp h
  refine ⟨hcheck, ?_⟩
  have hcounter : ∀ {mode text : String} {value : PyValue} {v : ℤ},
      (if mode ≠ "Enabled" then do
        let _ ← (throw (.value text) : Except SetError PUnit)
        d.registerValue "counter" value d.accessorCounter
      else d.registerValue "counter" value d.accessorCounter) = .ok v →
      ∃ value, d.registerValue "counter" value d.accessorCounter = .ok v := by
    intro mode text value v hv
    split at hv
    · cases hv
    · exact ⟨value, hv⟩
  split at h
  · split at h
    · cases h
    · obtain ⟨hdebounce, hvalue⟩ := values_ok h
      refine ⟨hdebounce, fun v hv => ?_⟩
      obtain ⟨value, hvalue⟩ := hvalue v hv
      exact hcounter hvalue
  · obtain ⟨hdebounce, hvalue⟩ := values_ok h
    refine ⟨hdebounce, fun v hv => ?_⟩
    obtain ⟨value, hvalue⟩ := hvalue v hv
    exact hcounter hvalue

/-- A failed check has written nothing. -/
theorem set_error {s : Attrs} {p : Params} {e : SetError} (device : ι) (h : d.parse s p = .error e) :
    d.set device s p = ⟨[], .error e⟩ := by
  unfold set
  rw [h]
  rfl

/-- The three registers of the bits of an input, as the hardware definitions have them. -/
structure ModeRegisters where
  mode : ℕ
  polarity : ℕ
  toggle : ℕ
  regmode : d.regmode = some mode
  regpolarity : d.regpolarity = some polarity
  regtoggle : d.regtoggle = some toggle
  distinct : mode ≠ polarity ∧ mode ≠ toggle ∧ polarity ≠ toggle
  masked : d.mask ≠ 0
  apart : ∀ r ∈ [mode, polarity, toggle],
    (r, false) ∉ d.accessorDebounce.registers ++ d.accessorCounter.registers
  modes : ∀ mode ∈ d.modes, mode = "Simple" ∨ mode = "DirectSwitch"
  dsModes : ∀ dsMode ∈ d.dsModes, dsMode = "Simple" ∨ dsMode = "Inverted" ∨ dsMode = "Toggle"

/-- A script which succeeds and does not touch the registers. -/
def Quiet (registers : List ℕ) (m : SetScript ι Unit) : Prop :=
  m.result = .ok () ∧ m.Emits (Action.Keeps registers)

theorem Quiet.bind {registers : List ℕ} {m : SetScript ι Unit} {f : Unit → SetScript ι Unit}
    (hm : Quiet registers m) (hf : Quiet registers (f ())) : Quiet registers (m >>= f) := by
  obtain ⟨actions, result⟩ := m
  obtain rfl : result = .ok () := hm.1
  exact ⟨hf.1, hm.2.bind fun _ _ => hf.2⟩

/-- The actions before a quiet part. -/
theorem Quiet.exists_rest {registers : List ℕ} {actions : List (Action ι)}
    {f : Unit → SetScript ι Unit} (h : Quiet registers (f ())) :
    ∃ rest, ((⟨actions, .ok ()⟩ : SetScript ι Unit) >>= f) = ⟨actions ++ rest, .ok ()⟩ ∧
      ∀ a ∈ rest, a.Keeps registers :=
  ⟨(f ()).actions, by rw [Script.bind_ok, h.1], h.2⟩

theorem Quiet.emit {registers : List ℕ} {a : Action ι} (h : a.Keeps registers) :
    Quiet registers (Script.emit a) :=
  ⟨rfl, Script.emits_emit h⟩

/-- An accessor of a setting which an input may not have. -/
structure Plain (a : Accessor) : Prop where
  integer : a.index.isSome → a.type.IsInteger
  writable : a.isInput = false
  ratio : a.ratio = 1
  offset : a.offset = 0

theorem plain_debounce : Plain d.accessorDebounce := by
  unfold accessorDebounce
  cases d.regdebounce with
  | none => exact ⟨fun h => (nomatch h), rfl, rfl, rfl⟩
  | some index => exact ⟨fun _ => trivial, rfl, rfl, rfl⟩

theorem plain_counter : Plain d.accessorCounter := by
  unfold accessorCounter
  cases d.regcounter with
  | none => exact ⟨fun h => (nomatch h), rfl, rfl, rfl⟩
  | some index => exact ⟨fun _ => trivial, rfl, rfl, rfl⟩

variable {d}

/-- The write of a checked value to other registers. -/
theorem quiet_write {a : Accessor} {registers : List ℕ} {name : String} {value : PyValue} {v : ℤ}
    (plain : Plain a) (apart : ∀ r ∈ registers, (r, false) ∉ a.registers)
    (h : d.registerValue name value a = .ok v) :
    Quiet registers (a.write (v : ℚ) : SetScript ι Unit) := by
  obtain ⟨hindex, hrange⟩ := d.registerValue_ok h
  have integer := plain.integer hindex
  obtain ⟨index, hindex⟩ := Option.isSome_iff_exists.mp hindex
  obtain ⟨low, high, codec⟩ := integer.codec
  obtain ⟨words, hlength, hwrite⟩ := a.write_int (ι := ι) hindex integer codec plain.writable
    ⟨plain.ratio, plain.offset⟩ (hrange low high codec.range)
  rw [hwrite]
  refine Quiet.emit fun r hr covered => apart r hr ?_
  simp only [Accessor.registers, hindex, plain.writable, List.mem_map, List.mem_range]
  exact ⟨r - index, by omega, by rw [Nat.add_sub_cancel' covered.1]⟩

theorem quiet_setAlias (registers : List ℕ) (device : ι) (name : Option String) :
    Quiet registers (SetScript.setAlias device name) := by
  cases name with
  | none => exact ⟨rfl, fun a ha => (nomatch ha)⟩
  | some name => exact Quiet.emit trivial

/-- An optional value is written before other actions. -/
theorem quiet_optional {registers : List ℕ} {x : Option ℤ} {a : Accessor} {m : SetScript ι Unit}
    (hx : ∀ v, x = some v → Quiet registers (a.write (v : ℚ) : SetScript ι Unit))
    (hm : Quiet registers m) :
    Quiet registers (do
      if let some v := x then a.write (v : ℚ)
      m) := by
  cases x with
  | none => exact hm
  | some v => exact (hx v rfl).bind hm

/-- A change with valid params: the bits first, then other registers. -/
theorem set_ok (regs : d.ModeRegisters) {s : Attrs} {p : Params} {debounce counter : Option ℤ}
    (device : ι) (h : d.parse s p = .ok (debounce, counter)) :
    ∃ rest, d.set device s p =
        ⟨DIMode.dsActions d.mask regs.polarity regs.toggle device p.dsMode ++
          DIMode.modeActions d.mask regs.mode device p.mode ++ rest, .ok ()⟩ ∧
      ∀ a ∈ rest, a.Keeps [regs.mode, regs.polarity, regs.toggle] := by
  obtain ⟨hcheck, hdebounce, hcounter⟩ := d.parse_ok h
  have hset := d.dimode.set_ok regs.regmode regs.regpolarity regs.regtoggle device hcheck
  have hbind : ∀ f : Option ℤ × Option ℤ → SetScript ι Unit,
      (SetScript.ofExcept (.ok (debounce, counter)) >>= f) = f (debounce, counter) := fun _ => rfl
  have hwrites := quiet_optional
    (fun v hv => by
      obtain ⟨value, hvalue⟩ := hdebounce v hv
      exact quiet_write d.plain_debounce
        (fun r hr hmem => regs.apart r hr (List.mem_append_left _ hmem)) hvalue)
    (quiet_optional
      (fun v hv => by
        obtain ⟨value, hvalue⟩ := hcounter v hv
        exact quiet_write d.plain_counter
          (fun r hr hmem => regs.apart r hr (List.mem_append_right _ hmem)) hvalue)
      (quiet_setAlias [regs.mode, regs.polarity, regs.toggle] device p.aliasName))
  unfold set
  rw [h, hbind]
  dsimp only
  rw [hset]
  refine Quiet.exists_rest ?_
  split
  · next counterMode _ =>
    split
    · have hassign : Action.Keeps [regs.mode, regs.polarity, regs.toggle]
          (.assign device (.counterMode counterMode)) := trivial
      have hread : Action.Keeps [regs.mode, regs.polarity, regs.toggle]
          (.readCounter device) := trivial
      exact (Quiet.emit hassign).bind ((Quiet.emit hread).bind hwrites)
    · exact hwrites
  · exact hwrites

end DigitalInput

end Modbus

end Evok
