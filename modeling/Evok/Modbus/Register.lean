import Evok.Modbus.Client

/-!
# One register of the cache

A cached register is its value and its pin. The operations of a block act on each of its registers
alone, so two registers with the same operations are never half of one value and half of another.

## Main definitions

* `Register`: the value and the pin of a cached register.
* `Whole`: two registers have the halves of one value, also in their pins.

## Main results

* `RegisterGroup.register_update`, ... : a block operation on one register.
* `Whole.read`, `Whole.write`, ... : what keeps two registers whole.
-/

namespace Evok

namespace Modbus

/-- A register of a block, without a value before its first read. -/
structure Register where
  value : Option Word
  pin : Option Pin

namespace Register

/-- A response with the register or without it; it is kept by an unexpired pin. -/
def read (now : Time) (x : Option Word) (r : Register) : Register where
  value :=
    match r.pin with
    | some pin => if now < pin.keptUntil then some pin.value else x.or r.value
    | none => x.or r.value
  pin := r.pin.filter fun pin => now < pin.keptUntil ∨ x = none

def store (x : Option Word) (r : Register) : Register :=
  { r with value := x.or r.value }

def pinned (keptUntil : Time) (x : Option Word) (r : Register) : Register :=
  { r with pin := (x.map fun value => ⟨value, keptUntil⟩).or r.pin }

def unpinned (x : Option Word) (r : Register) : Register :=
  { r with pin := if x.isSome then none else r.pin }

/-- A write of the register or of other ones. -/
def write (cache pin : Bool) (keptUntil : Time) (x : Option Word) (r : Register) : Register :=
  let stored := if cache then r.store x else r
  if pin then stored.pinned keptUntil x else stored.unpinned x

def renewed (keptUntil : Time) (written : Bool) (r : Register) : Register :=
  { r with pin := r.pin.map fun pin => if written then { pin with keptUntil } else pin }

def cleared (r : Register) : Register :=
  { r with pin := none }

@[simp] theorem store_none (r : Register) : r.store none = r :=
  rfl

@[simp] theorem write_none (cache pin : Bool) (keptUntil : Time) (r : Register) :
    r.write cache pin keptUntil none = r := by
  cases cache <;> cases pin <;> rfl

end Register

/-! ## The registers of a block -/

namespace RegisterGroup

variable {g : RegisterGroup} {a : ℕ}

def register (g : RegisterGroup) (a : ℕ) : Register :=
  ⟨g.value a, g.pins a⟩

theorem register_store (wf : g.WF) (ha : g.isMember a) (index : ℕ) (values : List Word) :
    (g.store index values).register a = (g.register a).store (block (index, values) a) := by
  simp [register, Register.store, value_store_block wf index values ha]

theorem register_update (wf : g.WF) (ha : g.isMember a) (now : Time) (index : ℕ)
    (values : List Word) :
    (g.update now index values true).register a =
      (g.register a).read now (block (index, values) a) := by
  have hcovers : ¬(index ≤ a ∧ a < index + values.length) ↔ block (index, values) a = none := by
    rw [← block_isSome, Bool.not_eq_true, Option.isSome_eq_false_iff, Option.isNone_iff_eq_none]
  have hpins : (g.update now index values true).pins a = (g.pins a).filter fun pin =>
      now < pin.keptUntil ∨ block (index, values) a = none := by
    rw [pins_update]
    congr 1
    funext pin
    rw [decide_eq_decide, hcovers]
  rw [register, value_update wf now index values ha, hpins, value_store_block wf index values ha]
  rfl

/-- `write_registers` on a block. -/
def write (g : RegisterGroup) (cache pin : Bool) (keptUntil : Time) (index : ℕ)
    (values : List Word) : RegisterGroup :=
  let stored := if cache then g.store index values else g
  if pin then stored.pinAll keptUntil index values else stored.unpin index values.length

theorem write_same (g : RegisterGroup) (cache pin : Bool) (keptUntil : Time) (index : ℕ)
    (values : List Word) : g.Same (g.write cache pin keptUntil index values) := by
  have hstored : g.Same (if cache then g.store index values else g) := by
    split
    · exact g.store_same _ _
    · rfl
  unfold write
  cases pin with
  | true => exact hstored.trans (pinAll_same _ _ _ _)
  | false => exact hstored.trans (unpin_same _ _ _)

theorem register_pinAll (ha : g.isMember a) (keptUntil : Time) (index : ℕ) (values : List Word) :
    (g.pinAll keptUntil index values).register a =
      (g.register a).pinned keptUntil (block (index, values) a) := by
  simp [register, Register.pinned, pins_pinAll_block keptUntil index values ha]

theorem register_unpin (g : RegisterGroup) (a index : ℕ) (values : List Word) :
    (g.unpin index values.length).register a =
      (g.register a).unpinned (block (index, values) a) := by
  simp only [register, Register.unpinned, unpin, block_isSome]
  rfl

theorem register_write (wf : g.WF) (ha : g.isMember a) (cache pin : Bool) (keptUntil : Time)
    (index : ℕ) (values : List Word) :
    (g.write cache pin keptUntil index values).register a =
      (g.register a).write cache pin keptUntil (block (index, values) a) := by
  have hmember : (if cache then g.store index values else g).isMember a := by
    split
    · rwa [(g.store_same _ _).isMember]
    · exact ha
  have hstored : (if cache then g.store index values else g).register a =
      if cache then (g.register a).store (block (index, values) a) else g.register a := by
    split
    · exact register_store wf ha index values
    · rfl
  cases pin with
  | true => exact (register_pinAll hmember keptUntil index values).trans (by rw [hstored]; rfl)
  | false => exact (register_unpin _ a index values).trans (by rw [hstored]; rfl)

theorem register_renewPins (g : RegisterGroup) (a : ℕ) (isInput : Bool)
    (registers : List (ℕ × Bool)) (keptUntil : Time) :
    (g.renewPins isInput registers keptUntil).register a =
      (g.register a).renewed keptUntil ((a, isInput) ∈ registers) := by
  simp only [register, Register.renewed, renewPins, decide_eq_true_eq]
  rfl

end RegisterGroup

/-! ## Two registers of one value -/

/-- Two registers have the halves of one value by `P`, they have no value only before `first`; their
pins have the halves of one value and one deadline. -/
structure Whole (P : Word → Word → Prop) (first : Prop) (r r' : Register) : Prop where
  value : (r.value = none ∧ r'.value = none ∧ ¬first) ∨
    ∃ v w, r.value = some v ∧ r'.value = some w ∧ P v w
  pin : (r.pin = none ∧ r'.pin = none) ∨
    ∃ v w keptUntil, r.pin = some ⟨v, keptUntil⟩ ∧ r'.pin = some ⟨w, keptUntil⟩ ∧ P v w

namespace Whole

variable {P Q : Word → Word → Prop} {first first' : Prop} {r r' : Register}

theorem mono (h : Whole P first r r') (sub : ∀ v w, P v w → Q v w) (earlier : first' → first) :
    Whole Q first' r r' where
  value := by
    rcases h.value with ⟨hr, hr', hfirst⟩ | ⟨v, w, hr, hr', hP⟩
    · exact .inl ⟨hr, hr', fun h => hfirst (earlier h)⟩
    · exact .inr ⟨v, w, hr, hr', sub v w hP⟩
  pin := h.pin.imp_right fun ⟨v, w, keptUntil, hr, hr', hP⟩ => ⟨v, w, keptUntil, hr, hr', sub v w hP⟩

/-- A response without the registers. -/
theorem read_none (h : Whole P first r r') (now : Time) :
    Whole P first (r.read now none) (r'.read now none) := by
  rcases h.pin with ⟨hr, hr'⟩ | ⟨v, w, keptUntil, hr, hr', hP⟩
  · refine ⟨?_, .inl ?_⟩
    · simpa [Register.read, hr, hr'] using h.value
    · simp [Register.read, hr, hr']
  · refine ⟨?_, .inr ⟨v, w, keptUntil, ?_⟩⟩
    · by_cases hkept : now < keptUntil
      · exact .inr ⟨v, w, by simp [Register.read, hr, hkept], by simp [Register.read, hr', hkept], hP⟩
      · simpa [Register.read, hr, hr', hkept] using h.value
    · simp [Register.read, hr, hr', hP]

/-- A response with both registers. -/
theorem read_some (h : Whole P first r r') (now : Time) {v w : Word} (hP : P v w) :
    Whole P first' (r.read now (some v)) (r'.read now (some w)) := by
  rcases h.pin with ⟨hr, hr'⟩ | ⟨x, y, keptUntil, hr, hr', hxy⟩
  · refine ⟨.inr ⟨v, w, ?_⟩, .inl ?_⟩ <;> simp [Register.read, hr, hr', hP]
  · by_cases hkept : now < keptUntil
    · refine ⟨.inr ⟨x, y, ?_⟩, .inr ⟨x, y, keptUntil, ?_⟩⟩ <;>
        simp [Register.read, hr, hr', hkept, hxy]
    · refine ⟨.inr ⟨v, w, ?_⟩, .inl ?_⟩ <;>
        simp [Register.read, hr, hr', hkept, hP, Option.filter_some]

/-- A write of both registers. -/
theorem write {v w : Word} (hP : P v w) (pin : Bool) (keptUntil : Time) (r r' : Register) :
    Whole P first (r.write true pin keptUntil (some v)) (r'.write true pin keptUntil (some w)) := by
  cases pin with
  | true => exact ⟨.inr ⟨v, w, rfl, rfl, hP⟩, .inr ⟨v, w, keptUntil, rfl, rfl, hP⟩⟩
  | false => exact ⟨.inr ⟨v, w, rfl, rfl, hP⟩, .inl ⟨rfl, rfl⟩⟩

/-- The pins of both registers are renewed, or none of them. -/
theorem renewed (h : Whole P first r r') (keptUntil : Time) (written : Bool) :
    Whole P first (r.renewed keptUntil written) (r'.renewed keptUntil written) where
  value := h.value
  pin := by
    rcases h.pin with ⟨hr, hr'⟩ | ⟨v, w, old, hr, hr', hP⟩
    · exact .inl (by simp [Register.renewed, hr, hr'])
    · cases written with
      | true => exact .inr ⟨v, w, keptUntil, by simp [Register.renewed, hr, hr', hP]⟩
      | false => exact .inr ⟨v, w, old, by simp [Register.renewed, hr, hr', hP]⟩

theorem cleared (h : Whole P first r r') : Whole P first r.cleared r'.cleared :=
  ⟨h.value, .inl ⟨rfl, rfl⟩⟩

end Whole

end Modbus

end Evok
