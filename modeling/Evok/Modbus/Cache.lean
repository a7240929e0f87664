import Mathlib.Data.Rat.Defs
import Mathlib.Algebra.Order.Ring.Rat
import Mathlib.Tactic.Linarith
import Mathlib.Tactic.NormNum

/-!
# The register cache of a unit

The cache keeps the registers of the blocks of the hardware definition. A written register is
pinned: the reads keep its written value until the pin expires. The clock is an argument of the
operations which read it. `pins` is a dictionary, as a partial function.

## Main definitions

* `RegisterGroup`: one block of registers with its values and pins.
* `ModbusCacheMap`: the blocks of a unit and the result of its last read.
* `ModbusCacheMap.cached`: the value of one register in the cache.

## Main results

* `RegisterGroup.value_update`: the registers after a write or a read.
* `ModbusCacheMap.getRegister_one`: a cached register is read from its block.
-/

namespace Evok

namespace Modbus

/-- The value of a register. -/
abbrev Word := BitVec 16

/-- The seconds of `time.monotonic()`. -/
abbrev Time := ℚ

/-- `MAX_READ_COUNT`: the registers read by one request. -/
def maxReadCount : Nat := 125

/-- A communication error of a read, by its root cause. -/
inductive CommError
  | timeout
  | error
  deriving DecidableEq, Repr

/-- An error of a cached read, or a `ValueError` of the accessor for it. -/
inductive CacheError
  | noCacheRegister (index : Nat)
  | unknownRegister (isInput : Bool) (address count : Nat)
  | value (message : String)
  deriving DecidableEq, Repr

/-- The text of the exception. -/
def CacheError.message : CacheError → String
  | .noCacheRegister index => s!"No cached value of register {index}"
  | .unknownRegister isInput address count =>
    let kind := if isInput then "input" else "holding"
    s!"The {kind} registers {address}..{address + count - 1} are not in one register block"
  | .value message => message

/-- A written value kept by the reads until a time. -/
structure Pin where
  value : Word
  keptUntil : Time
  deriving DecidableEq

structure RegisterGroup where
  address : Nat
  count : Nat
  fDivider : Nat := 1
  fCounter : Nat := 0
  values : List (Option Word)
  pins : Nat → Option Pin := fun _ => none

namespace RegisterGroup

/-- A block before its first read. -/
def new (address count fDivider : Nat) : RegisterGroup :=
  { address, count, fDivider, values := List.replicate count none }

def isMember (g : RegisterGroup) (address : Nat) (count : Nat := 1) : Bool :=
  g.address ≤ address && address + count ≤ g.address + g.count

/-- Set the registers of the block to the values of the registers from `start`. -/
def store (g : RegisterGroup) (start : Nat) : List Word → RegisterGroup
  | [] => g
  | value :: values =>
    if g.isMember start then
      { g with values := g.values.set (start - g.address) (some value) }.store (start + 1) values
    else g.store (start + 1) values

/-- Set the values of the pinned registers, and drop the expired pins of the registers read. -/
def keepPins (g : RegisterGroup) (now : Time) (start length : Nat) : RegisterGroup :=
  { g with
    values := g.values.mapIdx fun i value =>
      match g.pins (g.address + i) with
      | some pin => if now < pin.keptUntil then some pin.value else value
      | none => value
    pins := fun pinned => (g.pins pinned).filter fun pin =>
      now < pin.keptUntil ∨ ¬(start ≤ pinned ∧ pinned < start + length) }

/-- Set the values of the registers from `start`; a read keeps the pinned values. -/
def update (g : RegisterGroup) (now : Time) (start : Nat) (values : List Word) (read : Bool) :
    RegisterGroup :=
  if read then (g.store start values).keepPins now start values.length else g.store start values

def pin (g : RegisterGroup) (address : Nat) (value : Word) (keptUntil : Time) : RegisterGroup :=
  if g.isMember address then
    { g with pins := Function.update g.pins address (some ⟨value, keptUntil⟩) }
  else g

/-- `group.pins.pop(address, None)` for the addresses of the registers. -/
def unpin (g : RegisterGroup) (index count : Nat) : RegisterGroup :=
  { g with pins := fun a => if index ≤ a ∧ a < index + count then none else g.pins a }

def renewPins (g : RegisterGroup) (isInput : Bool) (registers : List (Nat × Bool))
    (keptUntil : Time) : RegisterGroup :=
  { g with pins := fun a => (g.pins a).map fun pin =>
      if (a, isInput) ∈ registers then { pin with keptUntil } else pin }

def clearPins (g : RegisterGroup) : RegisterGroup :=
  { g with pins := fun _ => none }

def pinExpired (g : RegisterGroup) (now : Time) : Bool :=
  (List.range g.count).any fun i => (g.pins (g.address + i)).any fun pin => pin.keptUntil ≤ now

def clearCounter (g : RegisterGroup) : RegisterGroup :=
  { g with fCounter := 0 }

def tickCounter (g : RegisterGroup) : RegisterGroup :=
  { g with fCounter := if g.fCounter = 0 then g.fDivider - 1 else g.fCounter - 1 }

/-- The value of a register of the block, `none` before the first read. -/
def value (g : RegisterGroup) (address : Nat) : Option Word :=
  (g.values[address - g.address]?).join

/-- The block has a value for each of its registers. -/
def WF (g : RegisterGroup) : Prop :=
  g.values.length = g.count

/-! ## Blocks of the same registers -/

/-- The registers of a block, without their values. -/
structure Shape where
  address : Nat
  count : Nat
  fDivider : Nat
  length : Nat
  deriving DecidableEq

def shape (g : RegisterGroup) : Shape :=
  ⟨g.address, g.count, g.fDivider, g.values.length⟩

/-- Two states of one block of the hardware definition. -/
def Same (g g' : RegisterGroup) : Prop :=
  g'.shape = g.shape

@[refl] theorem Same.refl (g : RegisterGroup) : g.Same g :=
  rfl

theorem Same.trans {g g' g'' : RegisterGroup} (h : g.Same g') (h' : g'.Same g'') : g.Same g'' :=
  Eq.trans h' h

theorem Same.isMember {g g' : RegisterGroup} (h : g.Same g') (address count : Nat) :
    g'.isMember address count = g.isMember address count := by
  have address_eq : g'.address = g.address := congrArg Shape.address h
  have count_eq : g'.count = g.count := congrArg Shape.count h
  simp [RegisterGroup.isMember, address_eq, count_eq]

theorem Same.wf {g g' : RegisterGroup} (h : g.Same g') (wf : g.WF) : g'.WF := by
  have count_eq : g'.count = g.count := congrArg Shape.count h
  have length_eq : g'.values.length = g.values.length := congrArg Shape.length h
  rw [WF, length_eq, count_eq, wf]

theorem store_same (g : RegisterGroup) (start : Nat) (values : List Word) :
    g.Same (g.store start values) := by
  induction values generalizing g start with
  | nil => rfl
  | cons value values ih =>
    simp only [store]
    split
    · refine Same.trans ?_ (ih { g with values := _ } (start + 1))
      simp [Same, shape]
    · exact ih g (start + 1)

theorem keepPins_same (g : RegisterGroup) (now : Time) (start length : Nat) :
    g.Same (g.keepPins now start length) :=
  by simp [Same, shape, keepPins]

theorem update_same (g : RegisterGroup) (now : Time) (start : Nat) (values : List Word)
    (read : Bool) : g.Same (g.update now start values read) := by
  unfold update
  split
  · exact (g.store_same start values).trans (keepPins_same ..)
  · exact g.store_same start values

theorem pin_same (g : RegisterGroup) (address : Nat) (value : Word) (keptUntil : Time) :
    g.Same (g.pin address value keptUntil) := by
  unfold pin
  split <;> rfl

theorem unpin_same (g : RegisterGroup) (index count : Nat) : g.Same (g.unpin index count) :=
  rfl

theorem renewPins_same (g : RegisterGroup) (isInput : Bool) (registers : List (Nat × Bool))
    (keptUntil : Time) : g.Same (g.renewPins isInput registers keptUntil) :=
  rfl

theorem clearPins_same (g : RegisterGroup) : g.Same g.clearPins :=
  rfl

/-! ## The registers after an operation -/

theorem isMember_iff {g : RegisterGroup} {address : Nat} :
    g.isMember address ↔ g.address ≤ address ∧ address < g.address + g.count := by
  simp only [isMember, Bool.and_eq_true, decide_eq_true_eq]
  omega

theorem value_set {g : RegisterGroup} (wf : g.WF) {address : Nat} (member : g.isMember address)
    (value : Word) (a : Nat) (ha : g.isMember a) :
    { g with values := g.values.set (address - g.address) (some value) }.value a =
      if a = address then some value else g.value a := by
  rw [isMember_iff] at member ha
  have length := wf
  unfold WF at length
  simp only [RegisterGroup.value, List.getElem?_set]
  by_cases h : a = address
  · subst h
    simp [show a - g.address < g.values.length by omega]
  · simp [h, show ¬ address - g.address = a - g.address by omega]

@[simp] theorem store_pins (g : RegisterGroup) (start : Nat) (values : List Word) :
    (g.store start values).pins = g.pins := by
  induction values generalizing g start with
  | nil => rfl
  | cons value values ih =>
    simp only [store]
    split <;> simp [ih]

/-- The registers from `start` have the values, the other ones are kept. -/
theorem value_store {g : RegisterGroup} (wf : g.WF) (start : Nat) (values : List Word) {a : Nat}
    (ha : g.isMember a) :
    (g.store start values).value a =
      if start ≤ a ∧ a < start + values.length then values[a - start]? else g.value a := by
  induction values generalizing g start with
  | nil => simp [store]
  | cons value values ih =>
    have later : start + 1 ≤ a → (value :: values)[a - start]? = values[a - (start + 1)]? := by
      intro h
      rw [show a - start = a - (start + 1) + 1 by omega, List.getElem?_cons_succ]
    simp only [store, List.length_cons]
    split
    · next member =>
      rw [ih (g := { g with values := _ }) (by simpa [WF] using wf) (start + 1) (by exact ha),
        value_set wf member value a ha]
      by_cases h : a = start
      · subst h
        simp
      · split
        · rw [if_pos (by omega), later (by omega)]
        · rw [if_neg (by omega)]
    · next notMember =>
      rw [ih wf (start + 1) ha]
      have : a ≠ start := fun h => notMember (h ▸ ha)
      split
      · rw [if_pos (by omega), later (by omega)]
      · rw [if_neg (by omega)]

theorem value_keepPins {g : RegisterGroup} (wf : g.WF) (now : Time) (start length : Nat) {a : Nat}
    (ha : g.isMember a) :
    (g.keepPins now start length).value a =
      match g.pins a with
      | some pin => if now < pin.keptUntil then some pin.value else g.value a
      | none => g.value a := by
  have member := isMember_iff.mp ha
  unfold WF at wf
  have exists_value : g.values[a - g.address]? = some g.values[a - g.address] :=
    List.getElem?_eq_getElem (by omega)
  simp only [RegisterGroup.value, keepPins, List.getElem?_mapIdx, exists_value,
    show g.address + (a - g.address) = a by omega]
  cases g.pins a with
  | none => rfl
  | some pin => by_cases h : now < pin.keptUntil <;> simp [h]

/-- A read sets the registers which are not kept by a pin. -/
theorem value_update {g : RegisterGroup} (wf : g.WF) (now : Time) (start : Nat)
    (values : List Word) {a : Nat} (ha : g.isMember a) :
    (g.update now start values true).value a =
      match g.pins a with
      | some pin => if now < pin.keptUntil then some pin.value else (g.store start values).value a
      | none => (g.store start values).value a := by
  have same := g.store_same start values
  rw [update, if_pos rfl, value_keepPins (same.wf wf) _ _ _ (by rwa [same.isMember])]
  simp

theorem pins_update (g : RegisterGroup) (now : Time) (start : Nat) (values : List Word) (a : Nat) :
    (g.update now start values true).pins a = (g.pins a).filter fun pin =>
      now < pin.keptUntil ∨ ¬(start ≤ a ∧ a < start + values.length) := by
  simp [update, keepPins]

@[simp] theorem update_false (g : RegisterGroup) (now : Time) (start : Nat) (values : List Word) :
    g.update now start values false = g.store start values :=
  rfl

@[simp] theorem value_pin (g : RegisterGroup) (address : Nat) (value : Word) (keptUntil : Time) :
    (g.pin address value keptUntil).value = g.value := by
  unfold pin
  split <;> rfl

theorem pins_pin {g : RegisterGroup} (address : Nat) (value : Word) (keptUntil : Time) {a : Nat}
    (ha : g.isMember a) :
    (g.pin address value keptUntil).pins a =
      if a = address then some ⟨value, keptUntil⟩ else g.pins a := by
  unfold pin
  split
  · simp [Function.update_apply]
  · next notMember =>
    rw [if_neg]
    rintro rfl
    exact notMember ha

/-- Pin the registers from `index` to the values. -/
def pinAll (keptUntil : Time) (index : Nat) : List Word → RegisterGroup → RegisterGroup
  | [], g => g
  | value :: values, g => (g.pin index value keptUntil).pinAll keptUntil (index + 1) values

theorem pinAll_same (keptUntil : Time) (index : Nat) (values : List Word) (g : RegisterGroup) :
    g.Same (g.pinAll keptUntil index values) := by
  induction values generalizing g index with
  | nil => rfl
  | cons value values ih => exact (g.pin_same index value keptUntil).trans (ih _ _)

@[simp] theorem value_pinAll (keptUntil : Time) (index : Nat) (values : List Word)
    (g : RegisterGroup) : (g.pinAll keptUntil index values).value = g.value := by
  induction values generalizing g index with
  | nil => rfl
  | cons value values ih => rw [pinAll, ih, value_pin]

theorem pins_pinAll (keptUntil : Time) (index : Nat) (values : List Word) {g : RegisterGroup}
    {a : Nat} (ha : g.isMember a) :
    (g.pinAll keptUntil index values).pins a =
      if index ≤ a ∧ a < index + values.length then
        values[a - index]?.map fun value => ⟨value, keptUntil⟩
      else g.pins a := by
  induction values generalizing g index with
  | nil => simp [pinAll]
  | cons value values ih =>
    have member : (g.pin index value keptUntil).isMember a := by
      rwa [(g.pin_same index value keptUntil).isMember]
    rw [pinAll, ih (index + 1) member, pins_pin index value keptUntil ha, List.length_cons]
    by_cases h : a = index
    · subst h
      simp
    · by_cases after : index < a
      · rw [show a - index = a - (index + 1) + 1 by omega, List.getElem?_cons_succ, if_neg h]
        split
        · rw [if_pos (by omega)]
        · rw [if_neg (by omega)]
      · rw [if_neg (by omega), if_neg h, if_neg (by omega)]

/-- The cached values of registers of the block. -/
theorem slice {g : RegisterGroup} (wf : g.WF) {index count : Nat}
    (member : g.isMember index count) :
    (g.values.drop (index - g.address)).take count =
      (List.range count).map fun i => g.value (index + i) := by
  simp only [isMember, Bool.and_eq_true, decide_eq_true_eq] at member
  unfold WF at wf
  apply List.ext_getElem
  · simp only [List.length_take, List.length_drop, List.length_map, List.length_range]
    omega
  · intro i hi hi'
    simp only [List.length_map, List.length_range] at hi'
    have : g.values[index + i - g.address]? = some g.values[index + i - g.address] :=
      List.getElem?_eq_getElem (by omega)
    simp [RegisterGroup.value, this, show index - g.address + i = index + i - g.address by omega]

end RegisterGroup

/-! ## The blocks of a hardware definition -/

/-- A register block of a hardware definition; a number is `none` when it is not an integer. -/
structure Block where
  startReg : Option Int := none
  count : Option Int := none
  scanDivider : Option (Option Int) := none
  frequency : Option (Option Int) := none
  type : Option String := none

inductive BlockError
  | positiveInt (name : String) (minimum : Int)
  | frequencyAlias
  | unknownType (type : String)
  | tooLarge
  | outOfRange
  | overlaps (address count : Nat)
  deriving DecidableEq, Repr

/-- `positive_int` of `_make_group`. -/
def positiveInt (name : String) (minimum : Int) : Option Int → Except BlockError Nat
  | some value =>
    if value < minimum then .error (.positiveInt name minimum) else .ok value.toNat
  | none => .error (.positiveInt name minimum)

/-- A register block of a hardware definition, or why it is invalid. -/
def makeGroup (block : Block) : Except BlockError RegisterGroup := do
  if block.frequency.isSome ∧ block.scanDivider.isSome then throw .frequencyAlias
  let scanDivider := (block.frequency.orElse fun _ => block.scanDivider).join
  let type := block.type.getD "holding"
  if type ≠ "holding" ∧ type ≠ "input" then throw (.unknownType type)
  let address ← positiveInt "start_reg" 0 block.startReg
  let count ← positiveInt "count" 1 block.count
  let fDivider ← positiveInt "scan_divider" 1 scanDivider
  if maxReadCount < count then throw .tooLarge
  if 0x10000 < address + count then throw .outOfRange
  return .new address count fDivider

/-- The blocks of a unit, and the time and the error of its last read. -/
structure ModbusCacheMap where
  lastCommTime : Option Time := none
  scanError : Option CommError := none
  groups : List RegisterGroup := []
  igroups : List RegisterGroup := []

namespace ModbusCacheMap

/-- The blocks of the holding or of the input registers. -/
def groupsOf (c : ModbusCacheMap) (isInput : Bool) : List RegisterGroup :=
  if isInput then c.igroups else c.groups

/-- Change the blocks of the holding or of the input registers. -/
def mapGroups (c : ModbusCacheMap) (isInput : Bool) (f : RegisterGroup → RegisterGroup) :
    ModbusCacheMap :=
  if isInput then { c with igroups := c.igroups.map f } else { c with groups := c.groups.map f }

/-- Two blocks share a register. -/
def overlap (g other : RegisterGroup) : Bool :=
  g.address < other.address + other.count && other.address < g.address + g.count

def addBlock (c : ModbusCacheMap) (block : Block) : Except BlockError ModbusCacheMap := do
  let g ← makeGroup block
  let isInput := block.type == some "input"
  match (c.groupsOf isInput).find? (overlap g) with
  | some other => throw (.overlaps other.address other.count)
  | none => return if isInput then { c with igroups := c.igroups ++ [g] }
      else { c with groups := c.groups ++ [g] }

/-- `ModbusCacheMap.__init__`. -/
def ofBlocks (blocks : List Block) : Except BlockError ModbusCacheMap :=
  blocks.foldlM addBlock {}

/-! ## Pins -/

def pin (c : ModbusCacheMap) (index : Nat) (values : List Word) (keptUntil : Time)
    (isInput : Bool := false) : ModbusCacheMap :=
  (values.zipIdx index).foldl (fun c (value, a) => c.mapGroups isInput (·.pin a value keptUntil)) c

def unpin (c : ModbusCacheMap) (index count : Nat) (isInput : Bool := false) : ModbusCacheMap :=
  c.mapGroups isInput (·.unpin index count)

def renewPins (c : ModbusCacheMap) (registers : List (Nat × Bool)) (keptUntil : Time) :
    ModbusCacheMap :=
  (c.mapGroups false (·.renewPins false registers keptUntil)).mapGroups true
    (·.renewPins true registers keptUntil)

def clearPins (c : ModbusCacheMap) : ModbusCacheMap :=
  (c.mapGroups false (·.clearPins)).mapGroups true (·.clearPins)

/-! ## Cached registers -/

/-- The block of all `count` registers. -/
def findGroup (c : ModbusCacheMap) (address count : Nat) (isInput : Bool) :
    Except CacheError RegisterGroup :=
  match (c.groupsOf isInput).find? (·.isMember address count) with
  | some g => .ok g
  | none => .error (.unknownRegister isInput address count)

/-- The values of the registers, an error of the first one which was not read yet. -/
def readValues (index : Nat) : List (Option Word) → Except CacheError (List Word)
  | [] => .ok []
  | none :: _ => .error (.noCacheRegister index)
  | some value :: values => (value :: ·) <$> readValues (index + 1) values

def getRegister (c : ModbusCacheMap) (index : Nat) (count : Nat := 1) (isInput : Bool := false) :
    Except CacheError (List Word) := do
  let g ← c.findGroup index count isInput
  readValues index ((g.values.drop (index - g.address)).take count)

def setRegister (c : ModbusCacheMap) (now : Time) (index : Nat) (values : List Word)
    (isInput : Bool := false) (read : Bool := false) : ModbusCacheMap :=
  c.mapGroups isInput (·.update now index values read)

/-- `get_register_async` with the response of the unit; the registers out of the blocks are not
pinned. -/
def getRegisterAsync (c : ModbusCacheMap) (now : Time) (index : Nat) (response : List Word)
    (isInput : Bool := false) : ModbusCacheMap × List Word :=
  let c := c.setRegister now index response isInput true
  match c.getRegister index response.length isInput with
  | .ok values => (c, values)
  | .error _ => (c, response)

/-- The value of one register in the first block of it. -/
def cached (c : ModbusCacheMap) (address : Nat) (isInput : Bool := false) : Option Word :=
  ((c.groupsOf isInput).find? (·.isMember address)).bind (·.value address)

/-! ## The cache after an operation -/

/-- The registers of the blocks of one kind. -/
def shapes (c : ModbusCacheMap) (isInput : Bool) : List RegisterGroup.Shape :=
  (c.groupsOf isInput).map (·.shape)

/-- The blocks have their values and share no register. -/
def WF (c : ModbusCacheMap) : Prop :=
  ∀ isInput, (∀ s ∈ c.shapes isInput, s.length = s.count) ∧ (c.shapes isInput).Pairwise
    fun s s' => s.address + s.count ≤ s'.address ∨ s'.address + s'.count ≤ s.address

/-- Two states of the cache of one unit. -/
def Same (c c' : ModbusCacheMap) : Prop :=
  ∀ isInput, c'.shapes isInput = c.shapes isInput

@[refl] theorem Same.refl (c : ModbusCacheMap) : c.Same c :=
  fun _ => rfl

theorem Same.trans {c c' c'' : ModbusCacheMap} (h : c.Same c') (h' : c'.Same c'') : c.Same c'' :=
  fun isInput => (h' isInput).trans (h isInput)

theorem Same.wf {c c' : ModbusCacheMap} (same : c.Same c') (wf : c.WF) : c'.WF := by
  intro isInput
  rw [same isInput]
  exact wf isInput

theorem WF.group {c : ModbusCacheMap} (wf : c.WF) {isInput : Bool} {g : RegisterGroup}
    (member : g ∈ c.groupsOf isInput) : g.WF :=
  (wf isInput).1 g.shape (List.mem_map_of_mem member)

theorem WF.holding {c : ModbusCacheMap} (wf : c.WF) {g : RegisterGroup} (member : g ∈ c.groups) :
    g.WF :=
  wf.group (show g ∈ c.groupsOf false from member)

/-- Only one block has a register. -/
theorem WF.find {c : ModbusCacheMap} (wf : c.WF) {isInput : Bool} {g : RegisterGroup} {a : Nat}
    (hg : g ∈ c.groupsOf isInput) (member : g.isMember a) :
    (c.groupsOf isInput).find? (·.isMember a) = some g := by
  obtain ⟨before, after, eq⟩ := List.append_of_mem hg
  have disjoint := (wf isInput).2
  rw [shapes, eq, List.map_append, List.pairwise_append] at disjoint
  refine List.find?_eq_some_iff_append.mpr ⟨by simpa using member, before, after, eq, ?_⟩
  intro other hother
  have apart := disjoint.2.2 other.shape (List.mem_map_of_mem hother) g.shape (by simp)
  rw [RegisterGroup.isMember_iff] at member
  simp only [RegisterGroup.shape] at apart
  simp only [Bool.not_eq_true', ← Bool.not_eq_true, RegisterGroup.isMember_iff]
  omega

theorem WF.unique {c : ModbusCacheMap} (wf : c.WF) {isInput : Bool} {g h : RegisterGroup} {a : Nat}
    (hg : g ∈ c.groupsOf isInput) (hh : h ∈ c.groupsOf isInput) (ga : g.isMember a)
    (ha : h.isMember a) : g = h :=
  Option.some.inj ((wf.find hg ga).symm.trans (wf.find hh ha))

@[simp] theorem groupsOf_false (c : ModbusCacheMap) : c.groupsOf false = c.groups :=
  rfl

@[simp] theorem mapGroups_false_groups (c : ModbusCacheMap) (f : RegisterGroup → RegisterGroup) :
    (c.mapGroups false f).groups = c.groups.map f :=
  rfl

@[simp] theorem mapGroups_true_groups (c : ModbusCacheMap) (f : RegisterGroup → RegisterGroup) :
    (c.mapGroups true f).groups = c.groups :=
  rfl

theorem groupsOf_mapGroups (c : ModbusCacheMap) (isInput : Bool)
    (f : RegisterGroup → RegisterGroup) (input : Bool) :
    (c.mapGroups isInput f).groupsOf input =
      if isInput = input then (c.groupsOf input).map f else c.groupsOf input := by
  cases isInput <;> cases input <;> rfl

theorem mapGroups_same {f : RegisterGroup → RegisterGroup} (hf : ∀ g : RegisterGroup, g.Same (f g))
    (c : ModbusCacheMap) (isInput : Bool) : c.Same (c.mapGroups isInput f) := by
  intro input
  simp only [shapes, groupsOf_mapGroups]
  split
  · rw [List.map_map]
    exact List.map_congr_left fun g _ => hf g
  · rfl

theorem pin_eq (c : ModbusCacheMap) (index : Nat) (values : List Word) (keptUntil : Time)
    (isInput : Bool) :
    c.pin index values keptUntil isInput =
      c.mapGroups isInput (RegisterGroup.pinAll keptUntil index values) := by
  unfold pin
  induction values generalizing c index with
  | nil => cases isInput <;> simp [mapGroups, RegisterGroup.pinAll]
  | cons value values ih =>
    rw [List.zipIdx_cons, List.foldl_cons, ih]
    cases isInput <;> simp [mapGroups, RegisterGroup.pinAll, Function.comp_def]

/-- The cached registers are read from the block of all of them. -/
theorem getRegister_eq {c : ModbusCacheMap} (wf : c.WF) (index count : Nat) (isInput : Bool) :
    c.getRegister index count isInput =
      match (c.groupsOf isInput).find? (·.isMember index count) with
      | some g => readValues index ((List.range count).map fun i => g.value (index + i))
      | none => .error (.unknownRegister isInput index count) := by
  simp only [getRegister, findGroup]
  cases h : (c.groupsOf isInput).find? (·.isMember index count) with
  | none => rfl
  | some g =>
    have member : g.isMember index count := by simpa using List.find?_some h
    have values := RegisterGroup.slice (wf.group (List.mem_of_find?_eq_some h)) member
    simp only [bind, Except.bind, values]

theorem getRegister_one {c : ModbusCacheMap} (wf : c.WF) {g : RegisterGroup} {a : Nat}
    {isInput : Bool} (first : (c.groupsOf isInput).find? (·.isMember a) = some g) {value : Word}
    (h : g.value a = some value) : c.getRegister a 1 isInput = .ok [value] := by
  rw [getRegister_eq wf, first]
  simp [h, readValues]

theorem pin_same (c : ModbusCacheMap) (index : Nat) (values : List Word) (keptUntil : Time)
    (isInput : Bool) : c.Same (c.pin index values keptUntil isInput) := by
  rw [pin_eq]
  exact mapGroups_same (RegisterGroup.pinAll_same _ _ _) _ _

theorem unpin_same (c : ModbusCacheMap) (index count : Nat) (isInput : Bool) :
    c.Same (c.unpin index count isInput) :=
  mapGroups_same (RegisterGroup.unpin_same · _ _) _ _

theorem renewPins_same (c : ModbusCacheMap) (registers : List (Nat × Bool)) (keptUntil : Time) :
    c.Same (c.renewPins registers keptUntil) :=
  (mapGroups_same (RegisterGroup.renewPins_same · _ _ _) _ _).trans
    (mapGroups_same (RegisterGroup.renewPins_same · _ _ _) _ _)

theorem clearPins_same (c : ModbusCacheMap) : c.Same c.clearPins :=
  (mapGroups_same RegisterGroup.clearPins_same _ _).trans
    (mapGroups_same RegisterGroup.clearPins_same _ _)

theorem setRegister_same (c : ModbusCacheMap) (now : Time) (index : Nat) (values : List Word)
    (isInput read : Bool) : c.Same (c.setRegister now index values isInput read) :=
  mapGroups_same (RegisterGroup.update_same · _ _ _ _) _ _

/-- The value of a register is read from its block. -/
theorem getRegister_of_mem {c : ModbusCacheMap} (wf : c.WF) {isInput : Bool} {g : RegisterGroup}
    (hg : g ∈ c.groupsOf isInput) {a : Nat} (member : g.isMember a) {value : Word}
    (h : g.value a = some value) : c.getRegister a 1 isInput = .ok [value] :=
  getRegister_one wf (wf.find hg member) h

/-! ## A cache after its first reads -/

/-- All registers of the blocks were read. -/
def Filled (c : ModbusCacheMap) : Prop :=
  ∀ isInput, ∀ g ∈ c.groupsOf isInput, ∀ value ∈ g.values, value.isSome

/-- The registers are in one block. -/
def known (c : ModbusCacheMap) (index count : Nat) (isInput : Bool) : Bool :=
  (c.shapes isInput).any fun s => s.address ≤ index && index + count ≤ s.address + s.count

theorem known_eq (c : ModbusCacheMap) (index count : Nat) (isInput : Bool) :
    c.known index count isInput = (c.groupsOf isInput).any (·.isMember index count) := by
  rw [known, shapes, List.any_map]
  rfl

theorem Same.known {c c' : ModbusCacheMap} (same : c.Same c') : c'.known = c.known := by
  funext index count isInput
  rw [ModbusCacheMap.known, same isInput]
  rfl

theorem readValues_some {index : Nat} {values : List (Option Word)}
    (filled : ∀ value ∈ values, value.isSome) : ∃ ws, readValues index values = .ok ws := by
  induction values generalizing index with
  | nil => exact ⟨[], rfl⟩
  | cons value values ih =>
    obtain ⟨first, rest⟩ := List.forall_mem_cons.mp filled
    obtain ⟨ws, eq⟩ := @ih (index + 1) rest
    obtain ⟨w, rfl⟩ := Option.isSome_iff_exists.mp first
    exact ⟨w :: ws, by simp [readValues, eq, Functor.map, Except.map]⟩

/-- The registers of one block can be read, other ones raise. -/
theorem Filled.getRegister {c : ModbusCacheMap} (filled : c.Filled) (index count : Nat)
    (isInput : Bool) :
    if c.known index count isInput then ∃ ws, c.getRegister index count isInput = .ok ws
    else c.getRegister index count isInput = .error (.unknownRegister isInput index count) := by
  rw [known_eq]
  simp only [ModbusCacheMap.getRegister, findGroup]
  cases h : (c.groupsOf isInput).find? (·.isMember index count) with
  | none =>
    have unknown : (c.groupsOf isInput).any (·.isMember index count) = false := by
      simpa using List.find?_eq_none.mp h
    simp [unknown, bind, Except.bind]
  | some g =>
    have member := List.mem_of_find?_eq_some h
    have known : (c.groupsOf isInput).any (·.isMember index count) = true :=
      List.any_eq_true.mpr ⟨g, member, by simpa using List.find?_some h⟩
    rw [if_pos known]
    exact readValues_some fun value hv =>
      filled isInput g member value (List.mem_of_mem_drop (List.mem_of_mem_take hv))

/-! ## The blocks of a new cache -/

theorem makeGroup_eq {block : Block} {g : RegisterGroup} (h : makeGroup block = .ok g) :
    g = .new g.address g.count g.fDivider := by
  simp only [makeGroup, bind, Except.bind, throw, throwThe, MonadExceptOf.throw, pure,
    Except.pure] at h
  repeat' split at h
  all_goals simp_all
  all_goals
    subst h
    rfl

theorem positiveInt_ok {name : String} {minimum : Int} {value : Option Int} {n : Nat}
    (h : positiveInt name minimum value = .ok n) : minimum ≤ n := by
  unfold positiveInt at h
  split at h
  · split at h
    · cases h
    · cases h
      omega
  · cases h

/-- A block has registers and a scan divider. -/
theorem makeGroup_positive {block : Block} {g : RegisterGroup} (h : makeGroup block = .ok g) :
    0 < g.count ∧ 0 < g.fDivider := by
  simp only [makeGroup, bind, Except.bind, throw, throwThe, MonadExceptOf.throw, pure,
    Except.pure] at h
  repeat' split at h
  all_goals cases h
  next count hcount _ fDivider hfDivider _ _ =>
    have hcount := positiveInt_ok hcount
    have hfDivider := positiveInt_ok hfDivider
    simp only [RegisterGroup.new]
    omega

/-- A block added to a cache shares no register with the other ones. -/
theorem addBlock_cases {c c' : ModbusCacheMap} {block : Block} (h : addBlock c block = .ok c') :
    ∃ g isInput, makeGroup block = .ok g ∧
      (∀ other ∈ c.groupsOf isInput, overlap g other = false) ∧
      c'.groupsOf isInput = c.groupsOf isInput ++ [g] ∧
      c'.groupsOf (!isInput) = c.groupsOf (!isInput) := by
  simp only [addBlock, bind, Except.bind] at h
  cases made : makeGroup block with
  | error e => simp [made] at h
  | ok g =>
    rw [made] at h
    simp only [throw, throwThe, MonadExceptOf.throw, pure, Except.pure] at h
    split at h
    · cases h
    · next free =>
      refine ⟨g, block.type == some "input", rfl, ?_, ?_⟩
      · intro other hother
        simpa using List.find?_eq_none.mp free other hother
      · cases kind : block.type == some "input" <;> simp [kind] at h <;> subst h <;>
          exact ⟨rfl, rfl⟩

theorem addBlock_wf {c c' : ModbusCacheMap} {block : Block} (h : addBlock c block = .ok c')
    (wf : c.WF) : c'.WF := by
  obtain ⟨g, isInput, made, free, added, same⟩ := addBlock_cases h
  have length : g.values.length = g.count := by
    rw [makeGroup_eq made]
    exact List.length_replicate
  intro input
  by_cases kind : input = isInput
  · subst kind
    simp only [shapes, added, List.map_append, List.map_cons, List.map_nil]
    refine ⟨?_, List.pairwise_append.mpr ⟨(wf input).2, List.pairwise_singleton .., ?_⟩⟩
    · intro s hs
      rcases List.mem_append.mp hs with old | new
      · exact (wf input).1 s old
      · rw [List.mem_singleton.mp new]
        exact length
    · intro s hs s' hs'
      obtain ⟨other, hother, rfl⟩ := List.mem_map.mp hs
      rw [List.mem_singleton.mp hs']
      have apart := free other hother
      simp only [overlap, Bool.and_eq_false_iff, decide_eq_false_iff_not] at apart
      simp only [RegisterGroup.shape]
      omega
  · rw [Bool.eq_not.mpr kind, shapes, same]
    exact wf (!isInput)

/-- What holds of an empty cache and is kept by each block holds of a new cache. -/
theorem ofBlocks_invariant {P : ModbusCacheMap → Prop} (base : P {})
    (step : ∀ {c c' : ModbusCacheMap} {block : Block}, addBlock c block = .ok c' → P c → P c')
    {blocks : List Block} {c : ModbusCacheMap} (h : ofBlocks blocks = .ok c) : P c := by
  suffices ∀ c₀, P c₀ → blocks.foldlM addBlock c₀ = .ok c → P c from this {} base h
  clear h base
  induction blocks with
  | nil =>
    intro c₀ start h
    cases h
    exact start
  | cons block blocks ih =>
    intro c₀ start h
    rw [List.foldlM_cons] at h
    cases added : addBlock c₀ block with
    | error e => simp [added, bind, Except.bind] at h
    | ok c₁ =>
      rw [added] at h
      exact ih c₁ (step added start) h

/-- The blocks of an accepted hardware definition share no register. -/
theorem ofBlocks_wf {blocks : List Block} {c : ModbusCacheMap} (h : ofBlocks blocks = .ok c) :
    c.WF := by
  apply ofBlocks_invariant _ addBlock_wf h
  rintro (_ | _) <;> simp [shapes, groupsOf]

/-- What holds of each block when it is made holds of the blocks of a new cache. -/
theorem ofBlocks_groups {P : RegisterGroup → Prop}
    (made : ∀ {block : Block} {g : RegisterGroup}, makeGroup block = .ok g → P g)
    {blocks : List Block} {c : ModbusCacheMap} (h : ofBlocks blocks = .ok c) (isInput : Bool) :
    ∀ g ∈ c.groupsOf isInput, P g := by
  revert isInput
  apply ofBlocks_invariant _ _ h
  · rintro (_ | _) <;> simp [groupsOf]
  · intro c c' block added hold input g hg
    obtain ⟨g₀, kind, new, -, here, there⟩ := addBlock_cases added
    by_cases same : input = kind
    · subst same
      rw [here] at hg
      rcases List.mem_append.mp hg with old | last
      · exact hold input g old
      · exact List.mem_singleton.mp last ▸ made new
    · rw [Bool.eq_not.mpr same, there] at hg
      exact hold _ g hg

/-- A new cache has no pins. -/
theorem ofBlocks_pins {blocks : List Block} {c : ModbusCacheMap} (h : ofBlocks blocks = .ok c)
    (isInput : Bool) : ∀ g ∈ c.groupsOf isInput, g.pins = fun _ => none :=
  ofBlocks_groups (fun made => by rw [makeGroup_eq made]; rfl) h isInput

/-! ## Reads of the blocks -/

/-- Read the wanted blocks up to the first error, with the number of the read ones. -/
def readList (now : Time) (wanted : RegisterGroup → Bool)
    (reply : RegisterGroup → Except CommError (List Word)) :
    List RegisterGroup → List RegisterGroup × Nat × Option CommError
  | [] => ([], 0, none)
  | g :: gs =>
    if wanted g then
      match reply g with
      | .error e => (g :: gs, 0, some e)
      | .ok values =>
        let (gs, read, error) := readList now wanted reply gs
        (g.update now g.address values true :: gs, read + 1, error)
    else
      let (gs, read, error) := readList now wanted reply gs
      (g :: gs, read, error)

/-- Read the wanted blocks, `false` after a communication error. -/
def readGroups (c : ModbusCacheMap) (now : Time) (wanted : RegisterGroup → Bool → Bool)
    (reply : Bool → RegisterGroup → Except CommError (List Word)) : ModbusCacheMap × Bool :=
  let (groups, read, error) := readList now (wanted · false) (reply false) c.groups
  match error with
  | some e => ({ c with groups, scanError := some e }, false)
  | none =>
    let (igroups, iread, error) := readList now (wanted · true) (reply true) c.igroups
    match error with
    | some e => ({ c with groups, igroups, scanError := some e }, false)
    | none =>
      let lastCommTime := if 0 < read + iread then some now else c.lastCommTime
      ({ lastCommTime, scanError := none, groups, igroups }, true)

def doScan (c : ModbusCacheMap) (now : Time)
    (reply : Bool → RegisterGroup → Except CommError (List Word))
    (initial : Bool := false) (allGroups : Bool := false) : ModbusCacheMap × Bool :=
  let c := if initial then (c.mapGroups false (·.clearCounter)).mapGroups true (·.clearCounter)
    else c
  let wanted (g : RegisterGroup) (_ : Bool) := allGroups || g.fCounter == 0 || g.pinExpired now
  match c.readGroups now wanted reply with
  | (c, false) => (c, false)
  | (c, true) =>
    if allGroups then (c, true)
    else ((c.mapGroups false (·.tickCounter)).mapGroups true (·.tickCounter), true)

/-- The blocks read after a change of the registers. -/
def wantedChanged (registers : List (Nat × Bool)) (g : RegisterGroup) (isInput : Bool) : Bool :=
  g.fDivider == 1 || registers.any fun (address, input) => input == isInput && g.isMember address

/-- The kind and the address of the first block. -/
def first (c : ModbusCacheMap) : Option (Nat × Bool) :=
  match c.groups, c.igroups with
  | g :: _, _ => some (g.address, false)
  | [], g :: _ => some (g.address, true)
  | [], [] => none

/-- The read after a change, at least of one block. -/
def readChanged (c : ModbusCacheMap) (now : Time)
    (reply : Bool → RegisterGroup → Except CommError (List Word))
    (registers : List (Nat × Bool)) : ModbusCacheMap × Bool :=
  if !c.groups.any (wantedChanged registers · false) &&
      !c.igroups.any (wantedChanged registers · true) then
    c.readGroups now (fun g isInput => c.first == some (g.address, isInput)) reply
  else
    c.readGroups now (wantedChanged registers) reply

end ModbusCacheMap

end Modbus

end Evok
