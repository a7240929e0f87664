import Evok.Library.Lockstep
import Evok.Modbus.Device

/-!
# The memory of a unit

A unit which applies every write at once and does not change its written registers itself. A coil
may be a bit of a holding register, e.g. of the status register of the outputs.

## Main definitions

* `Memory` : the holding registers of a unit and its other coils.
* `Wiring` : the bits of the coils.
* `Memory.exec` : the memory after an action of `set()`.
* `Memory.reader` : the cached values after a successful read.
-/

namespace Evok

namespace Modbus

/-- The holding registers, and the coils which are not bits of them. -/
structure Memory where
  registers : ℕ → Word
  coils : ℕ → Bool

/-- The register and the mask of a coil which is a bit of a register. -/
abbrev Wiring := ℕ → Option (ℕ × Word)

/-- A word with its masked bits set or cleared. -/
def setBits (mask : Word) (value : Bool) (word : Word) : Word :=
  if value then word ||| mask else word &&& ~~~mask

theorem setBits_of_clear {mask word : Word} (h : word &&& mask = 0) :
    setBits mask false word = word := by
  ext i hi
  have hbit : (word &&& mask)[i] = false := by simp [h]
  simp only [BitVec.getElem_and] at hbit
  simp only [setBits, Bool.false_eq_true, if_false, BitVec.getElem_and, BitVec.getElem_not]
  revert hbit
  cases word[i] <;> cases mask[i] <;> simp

namespace Memory

variable {ι : Type} (wiring : Wiring)

def setRegister (m : Memory) (index : ℕ) (value : Word) : Memory :=
  { m with registers := Function.update m.registers index value }

/-- The read-modify-write of the masked bits of a register. -/
def writeBit (m : Memory) (index : ℕ) (mask : Word) (value : Bool) : Memory :=
  m.setRegister index (setBits mask value (m.registers index))

def writeCoil (m : Memory) (coil : ℕ) (value : Bool) : Memory :=
  match wiring coil with
  | some (index, mask) => m.writeBit index mask value
  | none => { m with coils := Function.update m.coils coil value }

/-- The value of a coil. -/
def coil (m : Memory) (coil : ℕ) : Bool :=
  match wiring coil with
  | some (index, mask) => m.registers index &&& mask ≠ 0
  | none => m.coils coil

/-- The memory after an action of `set()`. -/
def exec (m : Memory) : Action ι → Memory
  | .writeCoil coil value => m.writeCoil wiring coil value
  | .writeRegisters index values _ _ =>
    { m with registers := Overlay.apply (block (index, values)) m.registers }
  | .writeBit index mask value _ => m.writeBit index mask value
  | .coilWithoutResponse coil _ => m.writeCoil wiring coil true
  | _ => m

/-- The cached values after a successful read; `inputs` are the input registers. -/
def reader (m : Memory) (inputs : ℕ → Word) : Reader := fun index count isInput =>
  .ok ((List.range count).map fun i =>
    if isInput then inputs (index + i) else m.registers (index + i))

@[simp] theorem setRegister_self (m : Memory) (index : ℕ) :
    m.setRegister index (m.registers index) = m := by
  simp [setRegister]

/-- The write of a bit keeps the other registers. -/
theorem writeBit_of_ne (m : Memory) {index r : ℕ} (h : r ≠ index) (mask : Word) (value : Bool) :
    (m.writeBit index mask value).registers r = m.registers r := by
  unfold writeBit setRegister
  exact Function.update_of_ne h _ _

/-- A cleared bit is cleared again. -/
theorem writeBit_of_clear {m : Memory} {index : ℕ} {mask : Word}
    (h : m.registers index &&& mask = 0) : m.writeBit index mask false = m := by
  rw [writeBit, setBits_of_clear h, setRegister_self]

end Memory

/-! ## Writes of accessors -/

namespace Accessor

variable {ι : Type} {wiring : Wiring} {r : ℕ}

/-- The requests of a write of the raw value. -/
theorem writeRaw_cases (a : Accessor) (raw : ℚ) :
    (∃ e, (a.writeRaw raw : SetScript ι Unit) = throw e) ∨
      ∃ index, a.index = some index ∧
        ((∃ mask value, a.type = .bit mask ∧
            (a.writeRaw raw : SetScript ι Unit) =
              Script.emit (.writeBit index mask value a.pin)) ∨
          ∃ registers, registers.length = a.type.count ∧
            (a.writeRaw raw : SetScript ι Unit) =
              Script.emit (.writeRegisters index registers true a.pin)) := by
  obtain ⟨index, type, isInput, ratio, offset, decimals, pin⟩ := a
  cases index with
  | none => cases type <;> exact .inl ⟨_, rfl⟩
  | some index =>
    have hwords : ∀ {m : SetScript ι Unit} {registers : List Word} {count : ℕ},
        m = Script.emit (.writeRegisters index registers true pin) → registers.length = count →
          ∃ registers, registers.length = count ∧
            m = Script.emit (.writeRegisters index registers true pin) :=
      fun hm hlength => ⟨_, hlength, hm⟩
    cases type with
    | unknown => exact .inl ⟨_, rfl⟩
    | bit mask => exact .inr ⟨index, rfl, .inl ⟨mask, _, rfl, rfl⟩⟩
    | uint16 | int16 => exact .inr ⟨index, rfl, .inr (hwords rfl rfl)⟩
    | uint32 order | int32 order =>
      cases order <;> exact .inr ⟨index, rfl, .inr (hwords rfl rfl)⟩
    | float32 order =>
      simp only [writeRaw, DataType.encode]
      cases (toDouble raw).bind encodeFloat32 with
      | none => exact .inl ⟨_, rfl⟩
      | some bits => cases order <;> exact .inr ⟨index, rfl, .inr (hwords rfl rfl)⟩

/-- A write keeps the registers beside the ones of the accessor. -/
theorem preserves_write (a : Accessor) (value : ℚ)
    (h : ∀ index, a.index = some index → ¬(index ≤ r ∧ r < index + a.type.count)) (v : Word) :
    (a.write value : SetScript ι Unit).Preserves (Memory.exec wiring) (·.registers r = v) := by
  have hraw : ∀ raw : ℚ, (a.writeRaw raw : SetScript ι Unit).Preserves (Memory.exec wiring)
      (·.registers r = v) := by
    intro raw
    rcases a.writeRaw_cases (ι := ι) raw with ⟨e, hwrite⟩ | ⟨index, hindex, hwrite⟩
    · rw [hwrite]
      exact .throw e
    · rcases hwrite with ⟨mask, value, htype, hwrite⟩ | ⟨registers, hlength, hwrite⟩
      · have hne : r ≠ index := by
          have := h index hindex
          rw [htype] at this
          change ¬(index ≤ r ∧ r < index + 1) at this
          omega
        rw [hwrite]
        exact .emit fun m hm => (m.writeBit_of_ne hne mask value).trans hm
      · have hblock : block (index, registers) r = Option.none := by
          rw [← Option.not_isSome_iff_eq_none, block_isSome, hlength]
          exact h index hindex
        rw [hwrite]
        refine .emit fun m hm => ?_
        simp only [Memory.exec, Overlay.apply, hblock]
        exact hm
  unfold write
  dsimp only
  generalize (if a.ratio ≠ 1 ∨ a.offset ≠ 0 then (value - a.offset) / a.ratio else value) = raw
  split
  · exact .bind (.throw _) fun _ h => by cases h
  · split
    · split
      · exact hraw _
      · exact .throw _
    · exact hraw _

end Accessor

end Modbus

end Evok
