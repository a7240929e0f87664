import Mathlib.Data.List.Forall2
import Evok.Modbus.TwoRegisters

/-!
# Reads of the blocks in progress

The periodic scan and the read after a change take the blocks one after another, each by its own
request. Between the responses the cache is used by the other read and by the writes, a read fails
at any block, and a stopped scan ends at any of them. The blocks are chosen one by one, each at its
turn.

## Main definitions

* `Wanted.test`: whether a read takes a block.
* `CacheStep`: one operation of the cache or one step of a read.
* `CacheEvent.Changes`: what an operation does to one block.

## Main results

* `CacheStep.blocks`: an operation acts on each block alone.
* `doScan_steps`, `readChanged_steps`: a scan and a read after a change, run to their end.
-/

namespace Evok

namespace Modbus

/-- The tasks which read the blocks. -/
inductive ReadTask
  | scan
  | change
  deriving DecidableEq, Repr

/-- The blocks taken by `do_scan`, by `do_scan(all_groups=True)` and by `read_changed`. -/
inductive Wanted
  | periodic
  | allGroups
  | changed (registers : List (ℕ × Bool))
  deriving DecidableEq, Repr

namespace Wanted

/-- `wanted(group, is_input)`, at the turn of the block. -/
def test (wanted : Wanted) (c : ModbusCacheMap) (now : Time) (g : RegisterGroup)
    (isInput : Bool) : Bool :=
  match wanted with
  | periodic => g.fCounter == 0 || g.pinExpired now
  | allGroups => true
  | changed registers =>
    if !c.groups.any (ModbusCacheMap.wantedChanged registers · false) &&
        !c.igroups.any (ModbusCacheMap.wantedChanged registers · true) then
      c.first == some (g.address, isInput)
    else ModbusCacheMap.wantedChanged registers g isInput

end Wanted

/-- A read of the blocks: the kind and the number of the passed ones, whether a request waits for
its response, and the blocks read before. -/
structure BlockRead where
  wanted : Wanted
  isInput : Bool := false
  passed : ℕ := 0
  awaiting : Bool := false
  read : ℕ := 0
  deriving DecidableEq

structure CacheState where
  cache : ModbusCacheMap
  now : Time
  reads : ReadTask → Option BlockRead := fun _ => none

namespace CacheState

def withCache (s : CacheState) (cache : ModbusCacheMap) : CacheState :=
  { s with cache }

def withRead (s : CacheState) (task : ReadTask) (reading : Option BlockRead) : CacheState :=
  { s with reads := Function.update s.reads task reading }

/-- The cache of a new unit. -/
def Init (s : CacheState) : Prop :=
  (∃ blocks, ModbusCacheMap.ofBlocks blocks = .ok s.cache) ∧ s.reads = fun _ => none

end CacheState

inductive CacheEvent
  | tick (now : Time)
  | beginScan (initial : Bool)
  | beginChange (wanted : Wanted)
  /-- The turn of a block which is not read. -/
  | skip (task : ReadTask) (isInput : Bool) (address : ℕ)
  /-- The request of a block. -/
  | request (task : ReadTask) (isInput : Bool) (address : ℕ)
  | respond (task : ReadTask) (isInput : Bool) (address : ℕ) (response : List Word)
  /-- The holding registers are read. -/
  | inputs (task : ReadTask)
  | succeed (task : ReadTask)
  | fail (task : ReadTask) (cause : CommError)
  /-- The task of the read is cancelled, e.g. by `stop_scanning`. -/
  | cancel (task : ReadTask)
  | setRegister (index : ℕ) (values : List Word) (isInput read : Bool)
  | pin (index : ℕ) (values : List Word) (keptUntil : Time) (isInput : Bool)
  | unpin (index count : ℕ) (isInput : Bool)
  | renewPins (registers : List (ℕ × Bool)) (keptUntil : Time)
  | clearPins
  | getRegisterAsync (isInput : Bool) (index : ℕ) (response : List Word)

/-- The cache after a successful read of its blocks. -/
def ReadTask.finish (task : ReadTask) (c : ModbusCacheMap) (now : Time) (read : ℕ) :
    ModbusCacheMap :=
  match task with
  | .scan => (c.endRead now read none).setCounters false
  | .change => c.endRead now read none

inductive CacheStep : CacheState → CacheEvent → CacheState → Prop
  | tick {s : CacheState} {now : Time} (later : s.now ≤ now) :
      CacheStep s (.tick now) { s with now }
  | beginScan {s : CacheState} (initial : Bool) (idle : s.reads .scan = none) :
      CacheStep s (.beginScan initial)
        ((s.withCache (if initial then s.cache.setCounters true else s.cache)).withRead .scan
          (some { wanted := .periodic }))
  | beginChange {s : CacheState} {wanted : Wanted} (other : wanted ≠ .periodic)
      (idle : s.reads .change = none) :
      CacheStep s (.beginChange wanted) (s.withRead .change (some { wanted }))
  | skip {s : CacheState} {task : ReadTask} {r : BlockRead} {before after : List RegisterGroup}
      {g : RegisterGroup} (reading : s.reads task = some r) (sending : r.awaiting = false)
      (split : s.cache.groupsOf r.isInput = before ++ g :: after)
      (position : before.length = r.passed)
      (unwanted : r.wanted.test s.cache s.now g r.isInput = false) :
      CacheStep s (.skip task r.isInput g.address)
        (s.withRead task (some { r with passed := r.passed + 1 }))
  | request {s : CacheState} {task : ReadTask} {r : BlockRead} {before after : List RegisterGroup}
      {g : RegisterGroup} (reading : s.reads task = some r) (sending : r.awaiting = false)
      (split : s.cache.groupsOf r.isInput = before ++ g :: after)
      (position : before.length = r.passed)
      (wanted : r.wanted.test s.cache s.now g r.isInput = true) :
      CacheStep s (.request task r.isInput g.address)
        (s.withRead task (some { r with awaiting := true }))
  | respond {s : CacheState} {task : ReadTask} {r : BlockRead} {before after : List RegisterGroup}
      {g : RegisterGroup} {response : List Word} (reading : s.reads task = some r)
      (awaiting : r.awaiting = true) (split : s.cache.groupsOf r.isInput = before ++ g :: after)
      (position : before.length = r.passed) (complete : response.length = g.count) :
      CacheStep s (.respond task r.isInput g.address response)
        ((s.withCache (s.cache.withGroups r.isInput
          (before ++ g.update s.now g.address response true :: after))).withRead task
            (some { r with awaiting := false, passed := r.passed + 1, read := r.read + 1 }))
  | inputs {s : CacheState} {task : ReadTask} {r : BlockRead}
      (reading : s.reads task = some r) (sending : r.awaiting = false)
      (holding : r.isInput = false) (all : r.passed = s.cache.groups.length) :
      CacheStep s (.inputs task)
        (s.withRead task (some { r with isInput := true, passed := 0 }))
  | succeed {s : CacheState} {task : ReadTask} {r : BlockRead}
      (reading : s.reads task = some r) (sending : r.awaiting = false)
      (input : r.isInput = true) (all : r.passed = s.cache.igroups.length) :
      CacheStep s (.succeed task)
        ((s.withCache (task.finish s.cache s.now r.read)).withRead task none)
  | fail {s : CacheState} {task : ReadTask} {r : BlockRead} (reading : s.reads task = some r)
      (awaiting : r.awaiting = true) (cause : CommError) :
      CacheStep s (.fail task cause)
        ((s.withCache (s.cache.endRead s.now r.read (some cause))).withRead task none)
  | cancel {s : CacheState} {task : ReadTask} {r : BlockRead}
      (reading : s.reads task = some r) :
      CacheStep s (.cancel task) (s.withRead task none)
  | setRegister {s : CacheState} {index : ℕ} {values : List Word} {isInput read : Bool} :
      CacheStep s (.setRegister index values isInput read)
        (s.withCache (s.cache.setRegister s.now index values isInput read))
  | pin {s : CacheState} {index : ℕ} {values : List Word} {keptUntil : Time} {isInput : Bool} :
      CacheStep s (.pin index values keptUntil isInput)
        (s.withCache (s.cache.pin index values keptUntil isInput))
  | unpin {s : CacheState} {index count : ℕ} {isInput : Bool} :
      CacheStep s (.unpin index count isInput) (s.withCache (s.cache.unpin index count isInput))
  | renewPins {s : CacheState} {registers : List (ℕ × Bool)} {keptUntil : Time} :
      CacheStep s (.renewPins registers keptUntil)
        (s.withCache (s.cache.renewPins registers keptUntil))
  | clearPins {s : CacheState} : CacheStep s .clearPins (s.withCache s.cache.clearPins)
  | getRegisterAsync {s : CacheState} {isInput : Bool} {index : ℕ} {response : List Word} :
      CacheStep s (.getRegisterAsync isInput index response)
        (s.withCache (s.cache.getRegisterAsync s.now index response isInput).1)

abbrev CacheRun := Transition.Run CacheStep

namespace CacheState

@[simp] theorem cache_withCache (s : CacheState) (c : ModbusCacheMap) :
    (s.withCache c).cache = c :=
  rfl

@[simp] theorem now_withCache (s : CacheState) (c : ModbusCacheMap) :
    (s.withCache c).now = s.now :=
  rfl

@[simp] theorem reads_withCache (s : CacheState) (c : ModbusCacheMap) :
    (s.withCache c).reads = s.reads :=
  rfl

@[simp] theorem cache_withRead (s : CacheState) (task : ReadTask) (reading : Option BlockRead) :
    (s.withRead task reading).cache = s.cache :=
  rfl

@[simp] theorem now_withRead (s : CacheState) (task : ReadTask) (reading : Option BlockRead) :
    (s.withRead task reading).now = s.now :=
  rfl

@[simp] theorem reads_withRead (s : CacheState) (task : ReadTask)
    (reading : Option BlockRead) : (s.withRead task reading).reads task = reading :=
  Function.update_self ..

theorem reads_withRead_ne (s : CacheState) {task other : ReadTask} (h : other ≠ task)
    (reading : Option BlockRead) :
    (s.withRead task reading).reads other = s.reads other :=
  Function.update_of_ne h ..

end CacheState

/-! ## Operations on a block -/

/-- What an operation does to a block of one kind. -/
def CacheEvent.Changes (now : Time) (isInput : Bool) (e : CacheEvent) (g g' : RegisterGroup) :
    Prop :=
  match e with
  | beginScan initial => g' = if initial then g.clearCounter else g
  | succeed task => g' = if task = .scan then g.tickCounter else g
  | respond _ input address response => g' = g ∨ input = isInput ∧ address = g.address ∧
      response.length = g.count ∧ g' = g.update now g.address response true
  | setRegister index values input read =>
    g' = if input = isInput then g.update now index values read else g
  | pin index values keptUntil input =>
    g' = if input = isInput then g.pinAll keptUntil index values else g
  | unpin index count input => g' = if input = isInput then g.unpin index count else g
  | renewPins registers keptUntil => g' = g.renewPins isInput registers keptUntil
  | clearPins => g' = g.clearPins
  | getRegisterAsync input index response =>
    g' = if input = isInput then g.update now index response true else g
  | _ => g' = g

section

variable {s s' : CacheState} {e : CacheEvent} {now : Time} {isInput : Bool} {g g' : RegisterGroup}

/-- What the operations of a block keep. -/
theorem CacheEvent.Changes.keeps {P : RegisterGroup → Prop} (h : e.Changes now isInput g g')
    (hg : P g) (clear : P g.clearCounter) (tick : P g.tickCounter)
    (update : ∀ start values read, P (g.update now start values read))
    (pin : ∀ keptUntil index values, P (g.pinAll keptUntil index values))
    (unpin : ∀ index count, P (g.unpin index count))
    (renew : ∀ registers keptUntil, P (g.renewPins isInput registers keptUntil))
    (clearPins : P g.clearPins) : P g' := by
  cases e with
  | beginScan initial =>
    cases initial with
    | false => exact h ▸ hg
    | true => exact h ▸ clear
  | succeed task =>
    cases task with
    | scan => exact h ▸ tick
    | change => exact h ▸ hg
  | respond task input address response =>
    rcases h with rfl | ⟨-, -, -, rfl⟩
    · exact hg
    · apply update
  | setRegister | getRegisterAsync =>
    obtain rfl := h
    split
    · apply update
    · exact hg
  | pin =>
    obtain rfl := h
    split
    · apply pin
    · exact hg
  | unpin =>
    obtain rfl := h
    split
    · apply unpin
    · exact hg
  | renewPins => exact h ▸ renew _ _
  | clearPins => exact h ▸ clearPins
  | _ => exact h ▸ hg

theorem CacheEvent.Changes.same (h : e.Changes now isInput g g') : g.Same g' :=
  h.keeps (.refl g) rfl rfl (g.update_same now) (g.pinAll_same · · ·) g.unpin_same
    (g.renewPins_same isInput) g.clearPins_same

namespace ModbusCacheMap

variable {c : ModbusCacheMap} {R : RegisterGroup → RegisterGroup → Prop}

theorem forall₂_map {f : RegisterGroup → RegisterGroup} {gs : List RegisterGroup}
    (h : ∀ g ∈ gs, R g (f g)) : List.Forall₂ R gs (gs.map f) := by
  rw [List.forall₂_map_right_iff]
  exact List.forall₂_same.mpr h

theorem forall₂_mapGroups (kind isInput : Bool) {f : RegisterGroup → RegisterGroup}
    (h : ∀ g, R g (if kind = isInput then f g else g)) :
    List.Forall₂ R (c.groupsOf isInput) ((c.mapGroups kind f).groupsOf isInput) := by
  rw [groupsOf_mapGroups]
  split
  · next same =>
    apply forall₂_map
    intro g _
    simpa [same] using h g
  · next other =>
    apply List.forall₂_same.mpr
    intro g _
    simpa [other] using h g

theorem forall₂_mapAll (isInput : Bool) {f : Bool → RegisterGroup → RegisterGroup}
    (h : ∀ g, R g (f isInput g)) :
    List.Forall₂ R (c.groupsOf isInput)
      (((c.mapGroups false (f false)).mapGroups true (f true)).groupsOf isInput) := by
  cases isInput with
  | false => exact forall₂_map fun g _ => h g
  | true => exact forall₂_map fun g _ => h g

@[simp] theorem groupsOf_endRead (c : ModbusCacheMap) (now : Time) (read : ℕ)
    (error : Option CommError) (isInput : Bool) :
    (c.endRead now read error).groupsOf isInput = c.groupsOf isInput := by
  cases error <;> cases isInput <;> rfl

end ModbusCacheMap

/-- An operation acts on each block alone. -/
theorem CacheStep.blocks (h : CacheStep s e s') (isInput : Bool) :
    List.Forall₂ (e.Changes s.now isInput) (s.cache.groupsOf isInput)
      (s'.cache.groupsOf isInput) := by
  cases h with
  | beginScan initial =>
    cases initial with
    | false => exact List.forall₂_same.mpr fun g _ => rfl
    | true =>
      exact ModbusCacheMap.forall₂_mapAll isInput
        (f := fun _ => RegisterGroup.clearCounter) fun g => rfl
  | @respond task r before after g response reading awaiting split position complete =>
    have hkept : ∀ gs : List RegisterGroup, List.Forall₂
        ((CacheEvent.respond task r.isInput g.address response).Changes s.now isInput) gs gs :=
      fun gs => List.forall₂_same.mpr fun g _ => .inl rfl
    by_cases hkind : isInput = r.isInput
    · subst hkind
      simp only [CacheState.cache_withRead, CacheState.cache_withCache,
        ModbusCacheMap.groupsOf_withGroups, split]
      apply List.rel_append (hkept before)
      exact .cons (.inr ⟨rfl, rfl, complete, rfl⟩) (hkept after)
    · simp only [CacheState.cache_withRead, CacheState.cache_withCache,
        ModbusCacheMap.groupsOf_withGroups_ne _ hkind]
      exact hkept _
  | @succeed task =>
    cases task with
    | scan =>
      rw [← ModbusCacheMap.groupsOf_endRead s.cache s.now _ none isInput]
      exact ModbusCacheMap.forall₂_mapAll isInput
        (f := fun _ => RegisterGroup.tickCounter) fun g => rfl
    | change =>
      simp only [ReadTask.finish, CacheState.cache_withRead, CacheState.cache_withCache,
        ModbusCacheMap.groupsOf_endRead]
      exact List.forall₂_same.mpr fun g _ => rfl
  | fail reading awaiting cause =>
    simp only [CacheState.cache_withRead, CacheState.cache_withCache,
      ModbusCacheMap.groupsOf_endRead]
    exact List.forall₂_same.mpr fun g _ => rfl
  | setRegister => exact ModbusCacheMap.forall₂_mapGroups _ isInput fun g => rfl
  | pin =>
    simp only [CacheState.cache_withCache, ModbusCacheMap.pin_eq]
    exact ModbusCacheMap.forall₂_mapGroups _ isInput fun g => rfl
  | unpin => exact ModbusCacheMap.forall₂_mapGroups _ isInput fun g => rfl
  | @renewPins registers keptUntil =>
    exact ModbusCacheMap.forall₂_mapAll isInput
      (f := fun input g => g.renewPins input registers keptUntil) fun g => rfl
  | clearPins =>
    exact ModbusCacheMap.forall₂_mapAll isInput
      (f := fun _ => RegisterGroup.clearPins) fun g => rfl
  | getRegisterAsync =>
    simp only [CacheState.cache_withCache, ModbusCacheMap.getRegisterAsync_fst]
    exact ModbusCacheMap.forall₂_mapGroups _ isInput fun g => rfl
  | _ => exact List.forall₂_same.mpr fun g _ => rfl

/-- A block after an operation was the one in its place before it. -/
theorem CacheStep.at (h : CacheStep s e s') {i : ℕ}
    (hg' : (s'.cache.groupsOf isInput)[i]? = some g') :
    ∃ g, (s.cache.groupsOf isInput)[i]? = some g ∧ e.Changes s.now isInput g g' := by
  have hblocks := h.blocks isInput
  obtain ⟨hlt', rfl⟩ := List.getElem?_eq_some_iff.mp hg'
  have hlt : i < (s.cache.groupsOf isInput).length := hblocks.length_eq ▸ hlt'
  exact ⟨_, List.getElem?_eq_getElem hlt, hblocks.get hlt hlt'⟩

theorem CacheStep.origin (h : CacheStep s e s') (member : g' ∈ s'.cache.groupsOf isInput) :
    ∃ g ∈ s.cache.groupsOf isInput, e.Changes s.now isInput g g' := by
  obtain ⟨i, hg'⟩ := List.mem_iff_getElem?.mp member
  obtain ⟨g, hg, hchanges⟩ := h.at hg'
  exact ⟨g, List.mem_of_getElem? hg, hchanges⟩

theorem CacheStep.same (h : CacheStep s e s') : s.cache.Same s'.cache := by
  intro isInput
  have hshapes : List.Forall₂ (· = ·) (s.cache.shapes isInput) (s'.cache.shapes isInput) := by
    simp only [ModbusCacheMap.shapes, List.forall₂_map_left_iff, List.forall₂_map_right_iff]
    exact (h.blocks isInput).imp fun g g' hchanges => hchanges.same.symm
  rw [List.forall₂_eq_eq_eq] at hshapes
  exact hshapes.symm

theorem CacheRun.same {es : List CacheEvent} (h : CacheRun s es s') : s.cache.Same s'.cache :=
  h.invariant (I := fun t => s.cache.Same t.cache) (fun _ _ _ same step => same.trans step.same)
    (.refl _)

end

/-! ## Reads without other operations -/

section

variable {reply : Bool → RegisterGroup → Except CommError (List Word)} {c c' : ModbusCacheMap}

theorem ModbusCacheMap.any_wantedChanged (c : ModbusCacheMap) (registers : List (ℕ × Bool))
    (isInput : Bool) : (c.groupsOf isInput).any (wantedChanged registers · isInput) =
      (c.shapes isInput).any fun s => s.fDivider == 1 || registers.any fun (address, input) =>
        input == isInput && (s.address ≤ address && address + 1 ≤ s.address + s.count) := by
  rw [shapes, List.any_map]
  rfl

theorem ModbusCacheMap.first_eq (c : ModbusCacheMap) :
    c.first = ((c.shapes false).head?.map fun s => (s.address, false)).or
      ((c.shapes true).head?.map fun s => (s.address, true)) := by
  obtain ⟨_, _, groups, igroups⟩ := c
  cases groups <;> cases igroups <;> rfl

/-- The blocks of a read do not depend on the values of the cache. -/
theorem Wanted.test_same (h : c.Same c') (wanted : Wanted) (now : Time) (g : RegisterGroup)
    (isInput : Bool) : wanted.test c' now g isInput = wanted.test c now g isInput := by
  cases wanted with
  | periodic | allGroups => rfl
  | changed registers =>
    have hany : ∀ input, (c'.groupsOf input).any (ModbusCacheMap.wantedChanged registers · input) =
        (c.groupsOf input).any (ModbusCacheMap.wantedChanged registers · input) := by
      intro input
      rw [ModbusCacheMap.any_wantedChanged, ModbusCacheMap.any_wantedChanged, h input]
    have hfirst : c'.first = c.first := by
      rw [ModbusCacheMap.first_eq, ModbusCacheMap.first_eq, h false, h true]
    have hholding := hany false
    have hinput := hany true
    simp only [ModbusCacheMap.groupsOf, Bool.false_eq_true, if_false, if_true] at hholding hinput
    simp only [Wanted.test, hholding, hinput, hfirst]

namespace CacheState

theorem withRead_self {s : CacheState} {task : ReadTask} {reading : Option BlockRead}
    (h : s.reads task = reading) : s.withRead task reading = s := by
  subst h
  simp [withRead]

@[simp] theorem withRead_withRead (s : CacheState) (task : ReadTask)
    (reading reading' : Option BlockRead) :
    (s.withRead task reading).withRead task reading' = s.withRead task reading' := by
  simp [withRead]

@[simp] theorem withCache_withRead (s : CacheState) (task : ReadTask)
    (reading : Option BlockRead) (c : ModbusCacheMap) :
    (s.withRead task reading).withCache c = (s.withCache c).withRead task reading :=
  rfl

@[simp] theorem withCache_withCache (s : CacheState) (c c' : ModbusCacheMap) :
    (s.withCache c).withCache c' = s.withCache c' :=
  rfl

end CacheState

/-- A read after some turns: it waits for the failed response, or it has passed the blocks. -/
def BlockRead.Ends (r r' : BlockRead) (passed read : ℕ) (error : Option CommError) : Prop :=
  r'.wanted = r.wanted ∧ r'.isInput = r.isInput ∧
    if error.isSome then r'.awaiting = true
    else r'.awaiting = false ∧ r'.passed = r.passed + passed ∧ r'.read = r.read + read

/-- The turns after the first one. -/
theorem BlockRead.Ends.cons {r r' r'' : BlockRead} {passed read n : ℕ} {error : Option CommError}
    (h : r'.Ends r'' passed read error) (wanted : r'.wanted = r.wanted)
    (isInput : r'.isInput = r.isInput) (next : r'.passed = r.passed + 1)
    (count : r'.read = r.read + n) : r.Ends r'' (passed + 1) (read + n) error := by
  obtain ⟨hwanted, hinput, hend⟩ := h
  refine ⟨hwanted.trans wanted, hinput.trans isInput, ?_⟩
  split at hend
  · next hfailed => rwa [if_pos hfailed]
  · next hread =>
    obtain ⟨hsending, hpassed, hcount⟩ := hend
    rw [if_neg hread]
    exact ⟨hsending, by omega, by omega⟩

/-- The turns of the blocks of one kind, up to the first error. -/
theorem readList_steps (complete : Complete reply) {task : ReadTask} (s : CacheState)
    {r : BlockRead} (reading : s.reads task = some r) (sending : r.awaiting = false)
    {before gs : List RegisterGroup} (split : s.cache.groupsOf r.isInput = before ++ gs)
    (position : before.length = r.passed) {test : RegisterGroup → Bool}
    (htest : ∀ g, r.wanted.test s.cache s.now g r.isInput = test g) {gs' : List RegisterGroup}
    {read : ℕ} {error : Option CommError}
    (h : ModbusCacheMap.readList s.now test (reply r.isInput) gs = (gs', read, error)) :
    ∃ es r', CacheRun s es ((s.withCache (s.cache.withGroups r.isInput (before ++ gs'))).withRead
      task (some r')) ∧ r.Ends r' gs.length read error := by
  induction gs generalizing s r before gs' read with
  | nil =>
    obtain ⟨rfl, rfl, rfl⟩ : [] = gs' ∧ 0 = read ∧ none = error := by
      simpa [ModbusCacheMap.readList] using h
    refine ⟨[], r, ?_, rfl, rfl, sending, rfl, rfl⟩
    rw [← split, ModbusCacheMap.withGroups_groupsOf]
    have hself : (s.withCache s.cache).withRead task (some r) = s :=
      CacheState.withRead_self (s := s) reading
    rw [hself]
    exact .nil s
  | cons g gs ih =>
    rcases hrest : ModbusCacheMap.readList s.now test (reply r.isInput) gs with ⟨rest, n, failed⟩
    simp only [ModbusCacheMap.readList, hrest] at h
    by_cases hwanted : test g = true
    · have requested := CacheStep.request reading sending split position ((htest g).trans hwanted)
      rw [if_pos hwanted] at h
      cases hreply : reply r.isInput g with
      | error e =>
        simp only [hreply, Prod.mk.injEq] at h
        obtain ⟨rfl, rfl, rfl⟩ := h
        refine ⟨[.request task r.isInput g.address], { r with awaiting := true }, ?_, rfl, rfl, rfl⟩
        rw [← split, ModbusCacheMap.withGroups_groupsOf]
        exact .single requested
      | ok response =>
        simp only [hreply, Prod.mk.injEq] at h
        obtain ⟨rfl, rfl, rfl⟩ := h
        let updated := before ++ [g.update s.now g.address response true]
        let r₁ : BlockRead :=
          { r with awaiting := false, passed := r.passed + 1, read := r.read + 1 }
        let s₁ := (s.withCache (s.cache.withGroups r.isInput (updated ++ gs))).withRead task
          (some r₁)
        have responded : CacheStep (s.withRead task (some { r with awaiting := true }))
            (.respond task r.isInput g.address response) s₁ := by
          have := CacheStep.respond (s := s.withRead task (some { r with awaiting := true }))
            (CacheState.reads_withRead ..) rfl split position
              (complete r.isInput g response hreply)
          simpa [s₁, updated] using this
        have hsame : s.cache.Same s₁.cache := requested.same.trans responded.same
        obtain ⟨es, r', run, hends⟩ := ih s₁ (r := r₁) (CacheState.reads_withRead ..) rfl
          (ModbusCacheMap.groupsOf_withGroups ..) (by simp [updated, position, r₁])
            (fun g' => (Wanted.test_same hsame _ _ _ _).trans (htest g')) hrest
        refine ⟨.request task r.isInput g.address ::
          .respond task r.isInput g.address response :: es,
            r', .cons requested (.cons responded ?_), hends.cons rfl rfl rfl rfl⟩
        simpa [s₁, updated, r₁] using run
    · have skipped := CacheStep.skip reading sending split position
        ((htest g).trans (Bool.eq_false_of_not_eq_true hwanted))
      rw [if_neg hwanted] at h
      simp only [Prod.mk.injEq] at h
      obtain ⟨rfl, rfl, rfl⟩ := h
      obtain ⟨es, r', run, hends⟩ := ih (s.withRead task (some { r with passed := r.passed + 1 }))
        (CacheState.reads_withRead ..) sending
          (split.trans (List.append_cons ..)) (by simp [position]) htest hrest
      refine ⟨.skip task r.isInput g.address :: es, r', .cons skipped ?_,
        hends.cons (n := 0) rfl rfl rfl rfl⟩
      simpa using run

theorem ModbusCacheMap.Same.length (h : c.Same c') (isInput : Bool) :
    (c'.groupsOf isInput).length = (c.groupsOf isInput).length := by
  have hshapes := congrArg List.length (h isInput)
  rwa [shapes, shapes, List.length_map, List.length_map] at hshapes

/-- A whole read of the blocks. -/
theorem readGroups_steps (complete : Complete reply) {task : ReadTask} (s : CacheState)
    {wanted : Wanted} (reading : s.reads task = some { wanted }) {ok : Bool}
    (h : s.cache.readGroups s.now (wanted.test s.cache s.now) reply = (c, ok)) :
    ∃ es, CacheRun s es ((s.withCache
        (if ok = true ∧ task = .scan then c.setCounters false else c)).withRead task none) ∧
      (ok = true → .succeed task ∈ es) := by
  have hall : s.cache.groupsOf false = [] ++ s.cache.groups := rfl
  rcases hfirst : ModbusCacheMap.readList s.now (wanted.test s.cache s.now · false) (reply false)
    s.cache.groups with ⟨groups, read, failed⟩
  obtain ⟨es, r, run, hwanted, hinput, hend⟩ := readList_steps complete s reading rfl hall rfl
    (fun _ => rfl) hfirst
  simp only [ModbusCacheMap.readGroups, hfirst] at h
  -- a failed read drops its request and keeps the responses before it
  have hfail : ∀ {es : List CacheEvent} {r : BlockRead} {c' : ModbusCacheMap} {e : CommError},
      CacheRun s es ((s.withCache c').withRead task (some r)) → r.awaiting = true →
        (c'.endRead s.now r.read (some e), false) = (c, ok) →
          ∃ es, CacheRun s es ((s.withCache (if ok = true ∧ task = .scan then c.setCounters false
            else c)).withRead task none) ∧ (ok = true → .succeed task ∈ es) := by
    intro es r c' e run awaiting heq
    obtain ⟨rfl, rfl⟩ := Prod.mk.inj heq
    have failed := CacheStep.fail (s := (s.withCache c').withRead task (some r))
      (CacheState.reads_withRead ..) awaiting e
    refine ⟨es ++ [.fail task e], run.append (.single ?_), nofun⟩
    simpa using failed
  cases failed with
  | some e => exact hfail run hend h
  | none =>
    obtain ⟨hsending, hpassed, hread⟩ := hend
    let holding := s.cache.withGroups false groups
    let r₁ : BlockRead := { r with isInput := true, passed := 0 }
    have hsame : s.cache.Same holding := CacheRun.same run
    have inputs : CacheStep ((s.withCache holding).withRead task (some r)) (.inputs task)
        ((s.withCache holding).withRead task (some r₁)) := by
      have := CacheStep.inputs (s := (s.withCache holding).withRead task (some r))
        (CacheState.reads_withRead ..) hsending hinput
          (hpassed.trans ((Nat.zero_add _).trans (hsame.length false).symm))
      simpa [r₁] using this
    rcases hsecond : ModbusCacheMap.readList s.now (wanted.test s.cache s.now · true) (reply true)
      s.cache.igroups with ⟨igroups, iread, failed⟩
    have htest : ∀ g, r₁.wanted.test holding s.now g true = wanted.test s.cache s.now g true :=
      fun g => hwanted ▸ Wanted.test_same hsame _ _ _ _
    obtain ⟨es', r', run', hwanted', hinput', hend'⟩ := readList_steps complete
      ((s.withCache holding).withRead task (some r₁)) (CacheState.reads_withRead ..) hsending
        (show holding.groupsOf true = [] ++ s.cache.igroups from rfl) rfl htest hsecond
    have hboth := (run.append (.single inputs)).append run'
    simp only [CacheState.withCache_withRead, CacheState.withRead_withRead,
      CacheState.withCache_withCache] at hboth
    simp only [hsecond] at h
    cases failed with
    | some e => exact hfail hboth hend' h
    | none =>
      obtain ⟨hsending', hpassed', hread'⟩ := hend'
      obtain ⟨rfl, rfl⟩ := Prod.mk.inj h
      have hall : s.cache.Same (holding.withGroups true igroups) := CacheRun.same hboth
      have hcount : r'.read = read + iread := by
        rw [hread', show r₁.read = r.read from rfl, hread]
        exact congrArg (· + iread) (Nat.zero_add read)
      have succeeded := CacheStep.succeed
        (s := (s.withCache (holding.withGroups true igroups)).withRead task (some r'))
        (CacheState.reads_withRead ..) hsending' hinput'
          (hpassed'.trans ((Nat.zero_add _).trans (hall.length true).symm))
      simp only [CacheState.withCache_withRead, CacheState.withRead_withRead, hcount,
        CacheState.withCache_withCache] at succeeded
      refine ⟨es ++ [.inputs task] ++ es' ++ [.succeed task], hboth.append (.single ?_), by simp⟩
      cases task <;> exact succeeded

/-- The periodic scan is a run of these steps. -/
theorem doScan_steps (complete : Complete reply) (s : CacheState) (idle : s.reads .scan = none)
    (initial : Bool) {ok : Bool} (h : s.cache.doScan s.now reply initial = (c, ok)) :
    ∃ es, CacheRun s (.beginScan initial :: es) (s.withCache c) ∧
      (ok = true → .succeed .scan ∈ es) := by
  have begun := CacheStep.beginScan initial idle
  let start := if initial then s.cache.setCounters true else s.cache
  rcases hread : start.readGroups s.now (Wanted.periodic.test start s.now) reply with ⟨c', ok'⟩
  obtain ⟨es, run, hok⟩ := readGroups_steps complete
    ((s.withCache start).withRead .scan (some { wanted := .periodic }))
      (CacheState.reads_withRead ..) hread
  have hscan : s.cache.doScan s.now reply initial =
      (if ok' = true ∧ ReadTask.scan = .scan then c'.setCounters false else c', ok') := by
    have hread' : start.readGroups s.now
        (fun g _ => false || g.fCounter == 0 || g.pinExpired s.now) reply = (c', ok') := hread
    unfold ModbusCacheMap.doScan
    rw [show (if initial then (s.cache.mapGroups false (·.clearCounter)).mapGroups true
      (·.clearCounter) else s.cache) = start from rfl]
    dsimp only
    rw [hread']
    cases ok' <;> rfl
  obtain ⟨hcache, rfl⟩ := Prod.mk.inj (hscan.symm.trans h)
  have hself : (s.withCache c).withRead .scan none = s.withCache c :=
    CacheState.withRead_self (s := s.withCache c) idle
  rw [hcache] at run
  simp only [CacheState.withCache_withRead, CacheState.withRead_withRead,
    CacheState.withCache_withCache, hself] at run
  exact ⟨es, .cons begun run, hok⟩

/-- The read of all blocks, e.g. after a restart of the unit. -/
theorem doScan_allGroups_steps (complete : Complete reply) (s : CacheState)
    (idle : s.reads .change = none) :
    ∃ es, CacheRun s es (s.withCache (s.cache.doScan s.now reply false true).1) := by
  have begun := @CacheStep.beginChange s .allGroups nofun idle
  rcases hread : s.cache.readGroups s.now (Wanted.allGroups.test s.cache s.now) reply with ⟨c, ok⟩
  obtain ⟨es, run, -⟩ := readGroups_steps complete
    (s.withRead .change (some { wanted := .allGroups })) (CacheState.reads_withRead ..) hread
  have hself : (s.withCache c).withRead .change none = s.withCache c :=
    CacheState.withRead_self (s := s.withCache c) idle
  have hscan : s.cache.doScan s.now reply false true = (c, ok) := by
    have hread' : s.cache.readGroups s.now
        (fun g _ => true || g.fCounter == 0 || g.pinExpired s.now) reply = (c, ok) := hread
    simp only [ModbusCacheMap.doScan, Bool.false_eq_true, if_false, hread']
    cases ok <;> rfl
  refine ⟨.beginChange .allGroups :: es, .cons begun ?_⟩
  rw [hscan]
  simpa [hself] using run

/-- A read after a change is a run of these steps. -/
theorem readChanged_steps (complete : Complete reply) (s : CacheState)
    (idle : s.reads .change = none) (registers : List (ℕ × Bool)) :
    ∃ es, CacheRun s es (s.withCache (s.cache.readChanged s.now reply registers).1) := by
  have begun := @CacheStep.beginChange s (.changed registers) nofun idle
  rcases hread : s.cache.readGroups s.now ((Wanted.changed registers).test s.cache s.now) reply
    with ⟨c, ok⟩
  obtain ⟨es, run, -⟩ := readGroups_steps complete
    (s.withRead .change (some { wanted := .changed registers })) (CacheState.reads_withRead ..)
      hread
  have hself : (s.withCache c).withRead .change none = s.withCache c :=
    CacheState.withRead_self (s := s.withCache c) idle
  have hchanged : s.cache.readChanged s.now reply registers = (c, ok) := by
    have htest : (Wanted.changed registers).test s.cache s.now =
        if !s.cache.groups.any (ModbusCacheMap.wantedChanged registers · false) &&
          !s.cache.igroups.any (ModbusCacheMap.wantedChanged registers · true) then
            fun g isInput => s.cache.first == some (g.address, isInput)
        else ModbusCacheMap.wantedChanged registers := by
      funext g isInput
      simp only [Wanted.test]
      split <;> rfl
    rw [← hread, ModbusCacheMap.readChanged, htest]
    split <;> rfl
  refine ⟨.beginChange (.changed registers) :: es, .cons begun ?_⟩
  rw [hchanged]
  simpa [hself] using run

end

end Modbus

end Evok
