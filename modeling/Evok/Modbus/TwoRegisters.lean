import Evok.Modbus.Register
import Evok.Modbus.Accessor
import Evok.Library.Run

/-!
# Values of two registers

The operations of a client on its cache in any order: the responses of the scans and of the reads
after a change, one block at a time, the writes, their pins and the clock. A value of two registers
in one block stays whole, although the cache keeps each register alone.

## Main definitions

* `ClientStep`: one operation of a client.
* `ClientEvent.Through`: the registers are written as one value, and read together.
* `FromOne`: a value is the one of a response, or of the last write.

## Main results

* `doScan_run`, `readChanged_run`: the reads of the cache are runs of these operations.
* `through_write`: the writes of an accessor.
* `value_never_torn`: the cached value of two registers comes from one response or one write.
-/

namespace Evok

namespace Modbus

/-- A client and the clock. -/
structure ClientState where
  client : Client
  now : Time

namespace ClientState

def withCache (s : ClientState) (cache : ModbusCacheMap) : ClientState :=
  { s with client := { s.client with cache } }

end ClientState

namespace ModbusCacheMap

def withGroups (c : ModbusCacheMap) (isInput : Bool) (groups : List RegisterGroup) :
    ModbusCacheMap :=
  if isInput then { c with igroups := groups } else { c with groups }

/-- The counters before the first scan, or after a scan. -/
def setCounters (c : ModbusCacheMap) (initial : Bool) : ModbusCacheMap :=
  let f := if initial then RegisterGroup.clearCounter else RegisterGroup.tickCounter
  (c.mapGroups false f).mapGroups true f

/-- The result of a read of some blocks. -/
def endRead (c : ModbusCacheMap) (now : Time) (read : ℕ) : Option CommError → ModbusCacheMap
  | some e => { c with scanError := some e }
  | none => { c with
      lastCommTime := if 0 < read then some now else c.lastCommTime
      scanError := none }

end ModbusCacheMap

inductive ClientEvent
  | tick (now : Time)
  | begin (devices : Bool)
  | write (index : ℕ) (values : List Word) (cache pin : Bool)
  /-- `cache.set_register` after the writes of a setting. -/
  | setRegister (index : ℕ) (values : List Word)
  | restarted
  | endWrites
  /-- The response of a block, in a scan or in a read after a change. -/
  | readBlock (isInput : Bool) (address : ℕ) (response : List Word)
  | endRead (read : ℕ) (error : Option CommError)
  | setCounters (initial : Bool)
  | getRegisterAsync (isInput : Bool) (index : ℕ) (response : List Word)

inductive ClientStep : ClientState → ClientEvent → ClientState → Prop
  | tick {s : ClientState} {now : Time} (later : s.now ≤ now) :
      ClientStep s (.tick now) { s with now }
  | begin {s : ClientState} {devices : Bool} :
      ClientStep s (.begin devices)
        { s with client := { s.client with written := if devices then some [] else none } }
  | write {s : ClientState} {index : ℕ} {values : List Word} {cache pin : Bool} :
      ClientStep s (.write index values cache pin)
        { s with client := s.client.writeRegisters s.now index values cache pin }
  | setRegister {s : ClientState} {index : ℕ} {values : List Word} :
      ClientStep s (.setRegister index values)
        (s.withCache (s.client.cache.setRegister s.now index values))
  | restarted {s : ClientState} : ClientStep s .restarted { s with client := s.client.restarted }
  | endWrites {s : ClientState} :
      ClientStep s .endWrites { s with client := s.client.endWrites s.now }
  | readBlock {s : ClientState} {isInput : Bool} {before after : List RegisterGroup}
      {g : RegisterGroup} {response : List Word}
      (split : s.client.cache.groupsOf isInput = before ++ g :: after)
      (complete : response.length = g.count) :
      ClientStep s (.readBlock isInput g.address response)
        (s.withCache (s.client.cache.withGroups isInput
          (before ++ g.update s.now g.address response true :: after)))
  | endRead {s : ClientState} (read : ℕ) (error : Option CommError) :
      ClientStep s (.endRead read error) (s.withCache (s.client.cache.endRead s.now read error))
  | setCounters {s : ClientState} (initial : Bool) :
      ClientStep s (.setCounters initial) (s.withCache (s.client.cache.setCounters initial))
  | getRegisterAsync {s : ClientState} {isInput : Bool} {index : ℕ} {response : List Word} :
      ClientStep s (.getRegisterAsync isInput index response)
        (s.withCache (s.client.cache.getRegisterAsync s.now index response isInput).1)

abbrev ClientRun := Transition.Run ClientStep

/-- A new client. -/
def ClientState.Init (s : ClientState) : Prop :=
  (∃ blocks, ModbusCacheMap.ofBlocks blocks = .ok s.client.cache) ∧ s.client.written = none

/-! ## The reads of the cache -/

namespace ModbusCacheMap

@[simp] theorem groupsOf_withGroups (c : ModbusCacheMap) (isInput : Bool)
    (groups : List RegisterGroup) : (c.withGroups isInput groups).groupsOf isInput = groups := by
  cases isInput <;> rfl

theorem groupsOf_withGroups_ne (c : ModbusCacheMap) {isInput input : Bool} (h : input ≠ isInput)
    (groups : List RegisterGroup) :
    (c.withGroups isInput groups).groupsOf input = c.groupsOf input := by
  cases isInput <;> cases input <;> first | rfl | exact absurd rfl h

@[simp] theorem withGroups_withGroups (c : ModbusCacheMap) (isInput : Bool)
    (groups groups' : List RegisterGroup) :
    (c.withGroups isInput groups).withGroups isInput groups' = c.withGroups isInput groups' := by
  cases isInput <;> rfl

@[simp] theorem withGroups_groupsOf (c : ModbusCacheMap) (isInput : Bool) :
    c.withGroups isInput (c.groupsOf isInput) = c := by
  cases isInput <;> rfl

end ModbusCacheMap

namespace ClientEvent

/-- An event of a read of the blocks. -/
def IsRead : ClientEvent → Prop
  | readBlock .. | endRead .. | setCounters _ => True
  | _ => False

end ClientEvent

/-- A run of reads leads to a cache. -/
def ReadsTo (s : ClientState) (cache : ModbusCacheMap) : Prop :=
  ∃ es, (∀ e ∈ es, e.IsRead) ∧ ClientRun s es (s.withCache cache)

namespace ReadsTo

variable {s : ClientState} {c c' : ModbusCacheMap}

theorem refl (s : ClientState) : ReadsTo s s.client.cache :=
  ⟨[], by simp, .nil s⟩

theorem trans (h : ReadsTo s c) (h' : ReadsTo (s.withCache c) c') : ReadsTo s c' := by
  obtain ⟨es, hes, hrun⟩ := h
  obtain ⟨es', hes', hrun'⟩ := h'
  refine ⟨es ++ es', fun e he => ?_, hrun.append hrun'⟩
  exact (List.mem_append.mp he).elim (hes e) (hes' e)

theorem single {e : ClientEvent} (h : ClientStep s e (s.withCache c)) (isRead : e.IsRead) :
    ReadsTo s c :=
  ⟨[e], by simpa using isRead, .single h⟩

end ReadsTo

/-- The responses have the requested registers. -/
def Complete (reply : Bool → RegisterGroup → Except CommError (List Word)) : Prop :=
  ∀ isInput g response, reply isInput g = .ok response → response.length = g.count

section

variable {reply : Bool → RegisterGroup → Except CommError (List Word)}

theorem readList_run (complete : Complete reply) (isInput : Bool) (wanted : RegisterGroup → Bool)
    (s : ClientState) {before gs : List RegisterGroup}
    (split : s.client.cache.groupsOf isInput = before ++ gs) :
    ReadsTo s (s.client.cache.withGroups isInput
      (before ++ (ModbusCacheMap.readList s.now wanted (reply isInput) gs).1)) := by
  induction gs generalizing s before with
  | nil =>
    rw [ModbusCacheMap.readList, ← split, ModbusCacheMap.withGroups_groupsOf]
    exact .refl s
  | cons g gs ih =>
    have hnext : s.client.cache.groupsOf isInput = (before ++ [g]) ++ gs := by
      rw [split, List.append_assoc, List.singleton_append]
    simp only [ModbusCacheMap.readList]
    split
    · split
      · rw [← split, ModbusCacheMap.withGroups_groupsOf]
        exact .refl s
      · next response hreply =>
        have hread := ClientStep.readBlock split (complete isInput g response hreply)
        have hrest := @ih (s.withCache (s.client.cache.withGroups isInput
          (before ++ g.update s.now g.address response true :: gs)))
          (before ++ [g.update s.now g.address response true]) (by simp [ClientState.withCache])
        refine .trans (.single hread trivial) ?_
        simpa [ClientState.withCache] using hrest
    · simpa using ih s hnext

theorem readGroups_run (complete : Complete reply) (wanted : RegisterGroup → Bool → Bool)
    (s : ClientState) : ReadsTo s (s.client.cache.readGroups s.now wanted reply).1 := by
  have hall : s.client.cache.groupsOf false = [] ++ s.client.cache.groups := rfl
  have hgroups := readList_run complete false (wanted · false) s hall
  unfold ModbusCacheMap.readGroups
  rcases hfirst : ModbusCacheMap.readList s.now (wanted · false) (reply false)
    s.client.cache.groups with ⟨groups, read, error⟩
  rw [hfirst] at hgroups
  cases error with
  | some e => exact hgroups.trans (.single (.endRead read (some e)) trivial)
  | none =>
    let s₁ := s.withCache (s.client.cache.withGroups false groups)
    have hall₁ : s₁.client.cache.groupsOf true = [] ++ s.client.cache.igroups := rfl
    have higroups : ReadsTo s₁ (s₁.client.cache.withGroups true
        (ModbusCacheMap.readList s.now (wanted · true) (reply true) s.client.cache.igroups).1) :=
      readList_run complete true (wanted · true) s₁ hall₁
    rcases hsecond : ModbusCacheMap.readList s.now (wanted · true) (reply true)
      s.client.cache.igroups with ⟨igroups, iread, error⟩
    rw [hsecond] at higroups
    have hend := hgroups.trans (higroups.trans
      (.single (.endRead (read + iread) error) trivial))
    cases error <;> exact hend

/-- The responses of a scan, one after another, with its counters and its result. -/
theorem doScan_run (complete : Complete reply) (initial allGroups : Bool) (s : ClientState) :
    ReadsTo s (s.client.cache.doScan s.now reply initial allGroups).1 := by
  have hinitial : ReadsTo s
      (if initial then s.client.cache.setCounters true else s.client.cache) := by
    split
    · exact .single (.setCounters true) trivial
    · exact .refl s
  have hstart : (if initial then (s.client.cache.mapGroups false (·.clearCounter)).mapGroups true
      (·.clearCounter) else s.client.cache) =
      if initial then s.client.cache.setCounters true else s.client.cache :=
    rfl
  unfold ModbusCacheMap.doScan
  rw [hstart]
  let s₁ := s.withCache (if initial then s.client.cache.setCounters true else s.client.cache)
  have hread := hinitial.trans (readGroups_run complete
    (fun g _ => allGroups || g.fCounter == 0 || g.pinExpired s.now) s₁)
  dsimp only
  split
  · next c h => exact (congrArg (ReadsTo s ·.1) h).mp hread
  · next c h =>
    have hc : ReadsTo s c := (congrArg (ReadsTo s ·.1) h).mp hread
    split
    · exact hc
    · exact hc.trans (.single (.setCounters false) trivial)

theorem readChanged_run (complete : Complete reply) (registers : List (ℕ × Bool))
    (s : ClientState) : ReadsTo s (s.client.cache.readChanged s.now reply registers).1 := by
  unfold ModbusCacheMap.readChanged
  split
  · exact readGroups_run complete _ s
  · exact readGroups_run complete _ s

end

/-! ## Events of two registers -/

/-- The values of two registers in one request. -/
def halves (run : ℕ × List Word) (a : ℕ) : Option (Word × Word) :=
  match block run a, block run (a + 1) with
  | some v, some w => some (v, w)
  | _, _ => none

namespace ClientEvent

variable (isInput : Bool) (a : ℕ)

/-- The value of both registers in a response or in a write. -/
def halves : ClientEvent → Option (Word × Word)
  | readBlock input index response | getRegisterAsync input index response =>
    if input = isInput then Modbus.halves (index, response) a else none
  | write index values true _ => if isInput then none else Modbus.halves (index, values) a
  | _ => none

/-- A write of both registers. -/
def Writes : ClientEvent → Prop
  | write index values _ _ => isInput = false ∧ (Modbus.halves (index, values) a).isSome
  | _ => False

/-- The registers are written as one value; a read outside the blocks, or of a part of a block, has
both of them or none. -/
def Through : ClientEvent → Prop
  | write index values cache _ => isInput = false →
    (block (index, values) a).isSome ∨ (block (index, values) (a + 1)).isSome →
      index = a ∧ values.length = 2 ∧ cache = true
  | setRegister index values => isInput = false →
    block (index, values) a = none ∧ block (index, values) (a + 1) = none
  | getRegisterAsync input index response => input = isInput →
    ((block (index, response) a).isSome ↔ (block (index, response) (a + 1)).isSome)
  | _ => True

theorem through_of_isRead {e : ClientEvent} (h : e.IsRead) : e.Through isInput a := by
  cases e <;> trivial

end ClientEvent

section

variable {isInput : Bool} {a : ℕ} {past : List ClientEvent} {e : ClientEvent} {v w : Word}

/-- The value is the one of a response or of a write, and no write is later. -/
def FromOne (isInput : Bool) (a : ℕ) (past : List ClientEvent) (v w : Word) : Prop :=
  ∃ before e after, past = before ++ e :: after ∧ e.halves isInput a = some (v, w) ∧
    ∀ later ∈ after, ¬later.Writes isInput a

/-- An event has had the value of both registers. -/
def HadBoth (isInput : Bool) (a : ℕ) (past : List ClientEvent) : Prop :=
  ∃ e ∈ past, (e.halves isInput a).isSome

theorem FromOne.concat (h : FromOne isInput a past v w) (hwrites : ¬e.Writes isInput a) :
    FromOne isInput a (past ++ [e]) v w := by
  obtain ⟨before, e', after, rfl, hhalves, hafter⟩ := h
  refine ⟨before, e', after ++ [e], by simp, hhalves, fun later hlater => ?_⟩
  rcases List.mem_append.mp hlater with hlater | hlater
  · exact hafter later hlater
  · exact List.mem_singleton.mp hlater ▸ hwrites

theorem fromOne_last (past : List ClientEvent) (h : e.halves isInput a = some (v, w)) :
    FromOne isInput a (past ++ [e]) v w :=
  ⟨past, e, [], rfl, h, by simp⟩

theorem hadBoth_concat (h : e.halves isInput a = none) :
    HadBoth isInput a (past ++ [e]) → HadBoth isInput a past := by
  rintro ⟨e', he', hsome⟩
  rcases List.mem_append.mp he' with he' | he'
  · exact ⟨e', he', hsome⟩
  · rw [List.mem_singleton.mp he', h] at hsome
    cases hsome

/-- The block has a whole value of the registers. -/
def WholeIn (isInput : Bool) (a : ℕ) (past : List ClientEvent) (g : RegisterGroup) : Prop :=
  Whole (FromOne isInput a past) (HadBoth isInput a past) (g.register a) (g.register (a + 1))

variable {g : RegisterGroup}

/-- An event without the registers. -/
theorem WholeIn.quiet (h : WholeIn isInput a past g) (hhalves : e.halves isInput a = none)
    (hwrites : ¬e.Writes isInput a) : WholeIn isInput a (past ++ [e]) g :=
  h.mono (fun _ _ hone => hone.concat hwrites) (hadBoth_concat hhalves)

theorem halves_eq_some {run : ℕ × List Word} :
    halves run a = some (v, w) ↔ block run a = some v ∧ block run (a + 1) = some w := by
  unfold halves
  split
  · next hv hw => simp [hv, hw]
  · next hnone =>
    simp only [reduceCtorEq, false_iff]
    rintro ⟨hv, hw⟩
    exact hnone v w hv hw

theorem halves_eq_none {run : ℕ × List Word} (h : block run a = none) : halves run a = none := by
  unfold halves
  rw [h]

/-- A response with both registers or none of them. -/
theorem WholeIn.read (h : WholeIn isInput a past g) (wf : g.WF) (ha : g.isMember a)
    (ha' : g.isMember (a + 1)) (now : Time) {index : ℕ} {response : List Word}
    (hboth : (block (index, response) a).isSome ↔ (block (index, response) (a + 1)).isSome)
    (hhalves : e.halves isInput a = halves (index, response) a)
    (hwrites : ¬e.Writes isInput a) :
    WholeIn isInput a (past ++ [e]) (g.update now index response true) := by
  unfold WholeIn
  rw [RegisterGroup.register_update wf ha, RegisterGroup.register_update wf ha']
  cases hv : block (index, response) a with
  | none =>
    have hw : block (index, response) (a + 1) = none := by
      rw [hv] at hboth
      simpa using hboth
    rw [hw]
    exact (h.quiet (hhalves.trans (halves_eq_none hv)) hwrites).read_none now
  | some v =>
    obtain ⟨w, hw⟩ : ∃ w, block (index, response) (a + 1) = some w := by
      rw [hv] at hboth
      exact Option.isSome_iff_exists.mp (hboth.mp rfl)
    rw [hw]
    have hone := fromOne_last past (hhalves.trans (halves_eq_some.mpr ⟨hv, hw⟩))
    have hpast : Whole (FromOne isInput a (past ++ [e])) (HadBoth isInput a past) _ _ :=
      h.mono (fun _ _ hone => hone.concat hwrites) id
    exact hpast.read_some now hone

/-- The blocks after a write. -/
theorem Client.writeRegisters_cache (c : Client) (now : Time) (index : ℕ) (values : List Word)
    (cache pin : Bool) :
    (c.writeRegisters now index values cache pin).cache = c.cache.mapGroups false
      (·.write cache (pin && c.periodicScan) (now + rereadDelay) index values) := by
  cases cache <;> cases hpin : pin && c.periodicScan <;>
    simp [Client.writeRegisters, RegisterGroup.write, hpin, ModbusCacheMap.pin_eq,
      ModbusCacheMap.unpin, ModbusCacheMap.setRegister, ModbusCacheMap.mapGroups,
      Function.comp_def]

/-- A write of both registers as one value, or of none of them. -/
theorem WholeIn.write (h : WholeIn false a past g) (wf : g.WF) (ha : g.isMember a)
    (ha' : g.isMember (a + 1)) {index : ℕ} {values : List Word} {cache pin : Bool}
    (through : (ClientEvent.write index values cache pin).Through false a) (pinned : Bool)
    (keptUntil : Time) :
    WholeIn false a (past ++ [.write index values cache pin])
      (g.write cache pinned keptUntil index values) := by
  unfold WholeIn
  rw [RegisterGroup.register_write wf ha, RegisterGroup.register_write wf ha']
  by_cases htouched : (block (index, values) a).isSome ∨ (block (index, values) (a + 1)).isSome
  · obtain ⟨rfl, htwo, rfl⟩ := through rfl htouched
    obtain ⟨v, w, rfl⟩ := List.length_eq_two.mp htwo
    have hv : block (index, [v, w]) index = some v := by simp [block]
    have hw : block (index, [v, w]) (index + 1) = some w := by simp [block]
    have hone : FromOne false index (past ++ [.write index [v, w] true pin]) v w :=
      fromOne_last past (halves_eq_some.mpr ⟨hv, hw⟩)
    rw [hv, hw]
    exact .write hone _ _ _ _
  · simp only [not_or, Bool.not_eq_true, Option.isSome_eq_false_iff,
      Option.isNone_iff_eq_none] at htouched
    obtain ⟨hv, hw⟩ := htouched
    have hnone : (ClientEvent.write index values cache pin).halves false a = none := by
      cases cache <;> simp [ClientEvent.halves, halves_eq_none hv]
    have hpast := h.quiet hnone (by simp [ClientEvent.Writes, halves_eq_none hv])
    rw [hv, hw, Register.write_none, Register.write_none]
    exact hpast

/-! ## The blocks of the cache -/

/-- Each block of the registers has a whole value. -/
def WholeCache (isInput : Bool) (a : ℕ) (past : List ClientEvent) (c : ModbusCacheMap) : Prop :=
  ∀ g ∈ c.groupsOf isInput, g.isMember a 2 → WholeIn isInput a past g

variable {c : ModbusCacheMap}

theorem isMember_two (h : g.isMember a 2) : g.isMember a ∧ g.isMember (a + 1) := by
  simp only [RegisterGroup.isMember, Bool.and_eq_true, decide_eq_true_eq] at h ⊢
  omega

theorem WholeCache.quiet (h : WholeCache isInput a past c) (hhalves : e.halves isInput a = none)
    (hwrites : ¬e.Writes isInput a) : WholeCache isInput a (past ++ [e]) c :=
  fun g hg hmember => (h g hg hmember).quiet hhalves hwrites

/-- An operation on the blocks of one kind. -/
theorem WholeCache.mapGroups {past' : List ClientEvent} (h : WholeCache isInput a past c)
    {f : RegisterGroup → RegisterGroup} (same : ∀ g : RegisterGroup, g.Same (f g)) (input : Bool)
    (step : input = isInput → ∀ g ∈ c.groupsOf isInput, g.isMember a → g.isMember (a + 1) →
      WholeIn isInput a past g → WholeIn isInput a past' (f g))
    (other : input ≠ isInput → ∀ g, WholeIn isInput a past g → WholeIn isInput a past' g) :
    WholeCache isInput a past' (c.mapGroups input f) := by
  intro g hg hmember
  rw [ModbusCacheMap.groupsOf_mapGroups] at hg
  split at hg
  · next hinput =>
    obtain ⟨g₀, hg₀, rfl⟩ := List.mem_map.mp hg
    rw [(same g₀).isMember] at hmember
    obtain ⟨ha, ha'⟩ := isMember_two hmember
    exact step hinput g₀ hg₀ ha ha' (h g₀ hg₀ hmember)
  · next hinput => exact other hinput g (h g hg hmember)

/-- An operation which keeps the registers. -/
theorem WholeCache.keep (h : WholeCache isInput a past c) {f : RegisterGroup → RegisterGroup}
    (same : ∀ g : RegisterGroup, g.Same (f g)) (input : Bool)
    (step : ∀ g, WholeIn isInput a past g → WholeIn isInput a past (f g)) :
    WholeCache isInput a past (c.mapGroups input f) :=
  h.mapGroups same input (fun _ g _ _ _ => step g) fun _ _ => id

/-- The block of a response is the only one of its registers. -/
theorem notMember_of_split (wf : c.WF) {before after : List RegisterGroup}
    (split : c.groupsOf isInput = before ++ g :: after) (ha : g.isMember a) :
    ∀ other ∈ before ++ after, ¬other.isMember a := by
  intro other hother hmember
  have hdisjoint := (wf isInput).2
  rw [ModbusCacheMap.shapes, split, List.pairwise_map, List.pairwise_append] at hdisjoint
  obtain ⟨-, hafter, hbefore⟩ := hdisjoint
  rw [RegisterGroup.isMember_iff] at ha hmember
  have hapart : other.address + other.count ≤ g.address ∨ g.address + g.count ≤ other.address := by
    rcases List.mem_append.mp hother with hother | hother
    · exact hbefore other hother g List.mem_cons_self
    · exact ((List.pairwise_cons.mp hafter).1 other hother).symm
  omega

/-- The response of a block. -/
theorem WholeCache.readBlock (h : WholeCache isInput a past c) (wf : c.WF) (now : Time)
    {input : Bool} {before after : List RegisterGroup} {response : List Word}
    (split : c.groupsOf input = before ++ g :: after) (complete : response.length = g.count) :
    WholeCache isInput a (past ++ [.readBlock input g.address response])
      (c.withGroups input (before ++ g.update now g.address response true :: after)) := by
  by_cases hinput : input = isInput
  · subst hinput
    have hwrites : ¬(ClientEvent.readBlock input g.address response).Writes input a := id
    have hhalves : (ClientEvent.readBlock input g.address response).halves input a =
        halves (g.address, response) a := if_pos rfl
    have hcovers : ∀ b, (block (g.address, response) b).isSome ↔ g.isMember b := by
      intro b
      rw [block_isSome, RegisterGroup.isMember_iff, complete]
    intro g' hg' hmember
    rw [ModbusCacheMap.groupsOf_withGroups] at hg'
    have hcases : g' = g.update now g.address response true ∨ g' ∈ before ++ after := by
      simp only [List.mem_append, List.mem_cons] at hg' ⊢
      tauto
    rcases hcases with rfl | hother
    · have hg : g ∈ c.groupsOf input := by simp [split]
      rw [(g.update_same _ _ _ _).isMember] at hmember
      obtain ⟨ha, ha'⟩ := isMember_two hmember
      refine (h g hg hmember).read (wf.group hg) ha ha' now ?_ hhalves hwrites
      rw [hcovers, hcovers]
      exact iff_of_true ha ha'
    · have hold : g' ∈ c.groupsOf input := by
        rw [split]
        simp only [List.mem_append, List.mem_cons] at hother ⊢
        tauto
      refine (h g' hold hmember).quiet (hhalves.trans (halves_eq_none ?_)) hwrites
      -- the response has no register of another block
      by_contra hsome
      have ha : g.isMember a := (hcovers a).mp (Option.isSome_iff_ne_none.mpr hsome)
      exact notMember_of_split wf split ha g' hother (isMember_two hmember).1
  · intro g' hg' hmember
    rw [ModbusCacheMap.groupsOf_withGroups_ne c (Ne.symm hinput)] at hg'
    exact (h g' hg' hmember).quiet (if_neg hinput) id

/-! ## The invariant -/

/-- The change has written both registers or none of them. -/
def RecordsBoth (isInput : Bool) (a : ℕ) (c : Client) : Prop :=
  ∀ ws, c.written = some ws → ((a, isInput) ∈ ws ↔ (a + 1, isInput) ∈ ws)

structure TwoRegisters (isInput : Bool) (a : ℕ) (past : List ClientEvent) (s : ClientState) :
    Prop where
  wf : s.client.cache.WF
  recorded : RecordsBoth isInput a s.client
  whole : WholeCache isInput a past s.client.cache

variable {s s' : ClientState}

theorem ModbusCacheMap.getRegisterAsync_fst (c : ModbusCacheMap) (now : Time) (index : ℕ)
    (response : List Word) (isInput : Bool) :
    (c.getRegisterAsync now index response isInput).1 =
      c.setRegister now index response isInput true := by
  unfold ModbusCacheMap.getRegisterAsync
  dsimp only
  split <;> rfl

theorem RegisterGroup.counter_same (initial : Bool) (g : RegisterGroup) :
    g.Same ((if initial then clearCounter else tickCounter) g) := by
  cases initial <;> rfl

/-- No operation changes the registers of the blocks. -/
theorem ClientStep.same (hs : ClientStep s e s') : s.client.cache.Same s'.client.cache := by
  cases hs with
  | tick | begin => rfl
  | write => exact Client.writeRegisters_same _ _ _ _ _ _
  | setRegister => exact ModbusCacheMap.setRegister_same _ _ _ _ _ _
  | restarted => exact ModbusCacheMap.clearPins_same _
  | endWrites =>
    simp only [Client.endWrites]
    split
    · exact ModbusCacheMap.renewPins_same _ _ _
    · rfl
  | @readBlock isInput before after g response split =>
    intro input
    by_cases hinput : input = isInput
    · subst hinput
      have hsame : (g.update s.now g.address response true).shape = g.shape := g.update_same _ _ _ _
      simp [ClientState.withCache, ModbusCacheMap.shapes, split, hsame]
    · simp [ClientState.withCache, ModbusCacheMap.shapes,
        ModbusCacheMap.groupsOf_withGroups_ne _ hinput]
  | endRead read error => cases error <;> exact fun _ => rfl
  | setCounters initial =>
    exact (ModbusCacheMap.mapGroups_same (RegisterGroup.counter_same initial) _ _).trans
      (ModbusCacheMap.mapGroups_same (RegisterGroup.counter_same initial) _ _)
  | getRegisterAsync =>
    simp only [ClientState.withCache, ModbusCacheMap.getRegisterAsync_fst]
    exact ModbusCacheMap.setRegister_same _ _ _ _ _ _

/-- A write of one of the registers is a write of both. -/
theorem ClientEvent.Through.both {index : ℕ} {values : List Word} {cache pin : Bool}
    (through : (ClientEvent.write index values cache pin).Through isInput a)
    (hinput : isInput = false) :
    (block (index, values) a).isSome ↔ (block (index, values) (a + 1)).isSome := by
  constructor
  · intro h
    obtain ⟨rfl, htwo, -⟩ := through hinput (.inl h)
    rw [block_isSome]
    omega
  · intro h
    obtain ⟨rfl, htwo, -⟩ := through hinput (.inr h)
    rw [block_isSome]
    omega

theorem RecordsBoth.step (h : RecordsBoth isInput a s.client) (hs : ClientStep s e s')
    (through : e.Through isInput a) : RecordsBoth isInput a s'.client := by
  cases hs with
  | @begin devices =>
    intro ws hws
    cases devices with
    | true =>
      obtain rfl := Option.some.inj hws
      simp
    | false => cases hws
  | @write index values cache pin =>
    intro ws hws
    obtain ⟨ws₀, hws₀, rfl⟩ := Option.map_eq_some_iff.mp hws
    have hmem : ∀ b,
        (b, isInput) ∈ ws₀ ++ (List.range values.length).map (fun i => (index + i, false)) ↔
          (b, isInput) ∈ ws₀ ∨ isInput = false ∧ (block (index, values) b).isSome := by
      intro b
      rw [block_isSome]
      simp only [List.mem_append, List.mem_map, List.mem_range, Prod.mk.injEq]
      refine or_congr_right ⟨?_, ?_⟩
      · rintro ⟨i, hi, rfl, rfl⟩
        exact ⟨rfl, by omega, by omega⟩
      · rintro ⟨rfl, hle, hlt⟩
        exact ⟨b - index, by omega, by omega, rfl⟩
    rw [hmem, hmem, h ws₀ hws₀]
    exact or_congr_right (and_congr_right fun hinput => through.both hinput)
  | endWrites =>
    intro ws hws
    simp only [Client.endWrites] at hws
    split at hws
    · cases hws
    · exact h ws hws
  | restarted =>
    intro ws hws
    cases hws
  | _ => exact h

/-- The pins of both registers are renewed together. -/
theorem WholeCache.renewPins (h : WholeCache isInput a past c) {registers : List (ℕ × Bool)}
    (hboth : (a, isInput) ∈ registers ↔ (a + 1, isInput) ∈ registers) (keptUntil : Time) :
    WholeCache isInput a past (c.renewPins registers keptUntil) := by
  have hrenewed : ∀ input : Bool, input = isInput → ∀ g, WholeIn isInput a past g →
      WholeIn isInput a past (g.renewPins input registers keptUntil) := by
    rintro _ rfl g hg
    unfold WholeIn
    rw [RegisterGroup.register_renewPins, RegisterGroup.register_renewPins,
      decide_eq_decide.mpr hboth]
    exact hg.renewed keptUntil _
  have hholding := h.mapGroups (RegisterGroup.renewPins_same · false registers keptUntil) false
    (fun hinput g _ _ _ => hrenewed false hinput g) fun _ _ => id
  exact hholding.mapGroups (RegisterGroup.renewPins_same · true registers keptUntil) true
    (fun hinput g _ _ _ => hrenewed true hinput g) fun _ _ => id

/-- What an operation keeps. -/
theorem TwoRegisters.step (inv : TwoRegisters isInput a past s) (hs : ClientStep s e s')
    (through : e.Through isInput a) : TwoRegisters isInput a (past ++ [e]) s' := by
  refine ⟨hs.same.wf inv.wf, inv.recorded.step hs through, ?_⟩
  have hwhole := inv.whole
  cases hs with
  | tick | begin => exact hwhole.quiet rfl id
  | @write index values cache pin =>
    dsimp only
    rw [Client.writeRegisters_cache]
    refine hwhole.mapGroups (RegisterGroup.write_same · _ _ _ _ _) false ?_ ?_
    · rintro rfl g hg ha ha' h
      exact h.write (inv.wf.group hg) ha ha' through _ _
    · intro hinput g h
      have hinput : isInput = true := by simpa using Ne.symm hinput
      subst hinput
      exact h.quiet (by cases cache <;> rfl) (by simp [ClientEvent.Writes])
  | @setRegister index values =>
    refine (hwhole.quiet rfl id).mapGroups (RegisterGroup.update_same · _ _ _ _) false ?_
      fun _ _ => id
    rintro rfl g hg ha ha' h
    obtain ⟨hv, hw⟩ := through rfl
    unfold WholeIn
    rw [RegisterGroup.update_false, RegisterGroup.register_store (inv.wf.group hg) ha,
      RegisterGroup.register_store (inv.wf.group hg) ha', hv, hw]
    exact h
  | restarted =>
    have hcleared : ∀ g, WholeIn isInput a (past ++ [.restarted]) g →
        WholeIn isInput a (past ++ [.restarted]) g.clearPins := fun _ => Whole.cleared
    exact ((hwhole.quiet rfl id).keep RegisterGroup.clearPins_same false hcleared).keep
      RegisterGroup.clearPins_same true hcleared
  | endWrites =>
    have hpast := hwhole.quiet (e := .endWrites) rfl id
    simp only [Client.endWrites]
    split
    · next registers hregisters =>
      exact hpast.renewPins (inv.recorded registers hregisters) _
    · exact hpast
  | readBlock split complete => exact hwhole.readBlock inv.wf _ split complete
  | endRead read error =>
    have hpast := hwhole.quiet (e := .endRead read error) rfl id
    cases error <;> exact hpast
  | setCounters initial =>
    have hcounter : ∀ g, WholeIn isInput a (past ++ [.setCounters initial]) g →
        WholeIn isInput a (past ++ [.setCounters initial])
          ((if initial then RegisterGroup.clearCounter else RegisterGroup.tickCounter) g) := by
      intro g h
      cases initial <;> exact h
    exact ((hwhole.quiet rfl id).keep (RegisterGroup.counter_same initial) false hcounter).keep
      (RegisterGroup.counter_same initial) true hcounter
  | @getRegisterAsync input index response =>
    simp only [ClientState.withCache, ModbusCacheMap.getRegisterAsync_fst]
    refine hwhole.mapGroups (RegisterGroup.update_same · _ _ _ _) input ?_ ?_
    · rintro hinput g hg ha ha' h
      exact h.read (inv.wf.group hg) ha ha' _ (through hinput) (if_pos hinput) id
    · exact fun hinput g h => h.quiet (if_neg hinput) id

/-- What a run keeps. -/
theorem TwoRegisters.run {es : List ClientEvent} (inv : TwoRegisters isInput a past s)
    (run : ClientRun s es s') (through : ∀ e ∈ es, e.Through isInput a) :
    TwoRegisters isInput a (past ++ es) s' := by
  induction run generalizing past with
  | nil => simpa using inv
  | @cons s t u e es head tail ih =>
    obtain ⟨hfirst, hrest⟩ := List.forall_mem_cons.mp through
    simpa using ih (inv.step head hfirst) hrest

/-- What a scan or a read after a change keeps. -/
theorem TwoRegisters.reads (inv : TwoRegisters isInput a past s) (h : ReadsTo s c) :
    ∃ es, TwoRegisters isInput a (past ++ es) (s.withCache c) := by
  obtain ⟨es, hread, hrun⟩ := h
  exact ⟨es, inv.run hrun fun e he => ClientEvent.through_of_isRead isInput a (hread e he)⟩

/-- The registers of a new cache have no value and no pin. -/
theorem ModbusCacheMap.register_ofBlocks {blocks : List Block}
    (made : ModbusCacheMap.ofBlocks blocks = .ok c) (hg : g ∈ c.groupsOf isInput) (b : ℕ) :
    g.register b = ⟨none, none⟩ := by
  have hnew := ModbusCacheMap.ofBlocks_groups ModbusCacheMap.makeGroup_eq made isInput g hg
  rw [hnew]
  simp only [RegisterGroup.register, RegisterGroup.value, RegisterGroup.new,
    List.getElem?_replicate]
  split <;> rfl

theorem twoRegisters_init (init : s.Init) (isInput : Bool) (a : ℕ) :
    TwoRegisters isInput a [] s := by
  obtain ⟨⟨blocks, made⟩, hwritten⟩ := init
  refine ⟨ModbusCacheMap.ofBlocks_wf made, ?_, fun g hg _ => ?_⟩
  · intro ws hws
    rw [hwritten] at hws
    cases hws
  · unfold WholeIn
    rw [ModbusCacheMap.register_ofBlocks made hg, ModbusCacheMap.register_ofBlocks made hg]
    exact ⟨.inl ⟨rfl, rfl, by simp [HadBoth]⟩, .inl ⟨rfl, rfl⟩⟩

/-! ## The value of an accessor -/

/-- `Client.read_registers`. -/
def Client.readRegisters (c : Client) : Reader :=
  fun index count isInput => c.cache.getRegister index count isInput

theorem DataType.length_encode {type : DataType} (two : type.count = 2) {raw : ℚ}
    {registers : List Word} (h : type.encode raw = some registers) : registers.length = 2 := by
  have hsplit : ∀ (order : WordOrder) (bits : BitVec 32), (split order bits).length = 2 := by
    rintro (_ | _) bits <;> simp [split]
  cases type with
  | unknown | bit _ | uint16 | int16 => cases two
  | uint32 order | int32 order =>
    rw [← Option.some.inj h]
    exact hsplit order _
  | float32 order =>
    obtain ⟨bits, -, rfl⟩ := Option.map_eq_some_iff.mp h
    exact hsplit order bits

theorem Accessor.writeRaw_eq {ι : Type} {acc : Accessor} (register : acc.index = some a)
    (two : acc.type.count = 2) (raw : ℚ) :
    (acc.writeRaw raw : SetScript ι Unit) =
      match acc.type.encode raw with
      | some registers => Script.emit (.writeRegisters a registers true acc.pin)
      | .none => throw (acc.outOfRange raw) := by
  obtain ⟨index, type, isInput, ratio, offset, decimals, pin⟩ := acc
  obtain rfl : index = some a := register
  cases type with
  | unknown | bit _ | uint16 | int16 => cases two
  | uint32 _ | int32 _ | float32 _ => rfl

theorem Accessor.emits_writeRaw {ι : Type} {acc : Accessor} (register : acc.index = some a)
    (two : acc.type.count = 2) (raw : ℚ) :
    (acc.writeRaw raw : SetScript ι Unit).Emits fun action =>
      ∃ values, action = .writeRegisters a values true acc.pin ∧ values.length = 2 := by
  rw [Accessor.writeRaw_eq register two]
  split
  · next registers hencode =>
    exact Script.emits_emit ⟨registers, rfl, DataType.length_encode two hencode⟩
  · exact Script.emits_throw _

/-- An accessor of two registers writes both of them by one request. -/
theorem Accessor.emits_write {ι : Type} {acc : Accessor} (register : acc.index = some a)
    (two : acc.type.count = 2) (value : ℚ) :
    (acc.write value : SetScript ι Unit).Emits fun action =>
      ∃ values, action = .writeRegisters a values true acc.pin ∧ values.length = 2 := by
  unfold Accessor.write
  dsimp only
  generalize (if acc.ratio ≠ 1 ∨ acc.offset ≠ 0 then (value - acc.offset) / acc.ratio
    else value) = raw
  split
  · exact .bind (Script.emits_throw _) nofun
  · split
    · split
      · exact Accessor.emits_writeRaw register two _
      · exact Script.emits_throw _
    · exact Accessor.emits_writeRaw register two _

/-- The writes of an accessor go through both registers. -/
theorem through_write {ι : Type} {acc : Accessor} (register : acc.index = some a)
    (two : acc.type.count = 2) {value : ℚ} {index : ℕ} {values : List Word} {cache pin : Bool}
    (h : .writeRegisters index values cache pin ∈ (acc.write value : SetScript ι Unit).actions) :
    (ClientEvent.write index values cache pin).Through isInput a := by
  obtain ⟨values', heq, htwo⟩ := acc.emits_write register two value _ h
  obtain ⟨rfl, rfl, rfl, rfl⟩ := Action.writeRegisters.inj heq
  exact fun _ _ => ⟨rfl, htwo, rfl⟩

theorem Accessor.readRaw_eq {acc : Accessor} (register : acc.index = some a)
    (two : acc.type.count = 2) (read : Reader) :
    acc.readRaw read = acc.type.decode <$> read a acc.type.count acc.isInput := by
  obtain ⟨index, type, isInput, ratio, offset, decimals, pin⟩ := acc
  obtain rfl : index = some a := register
  cases type with
  | unknown | bit _ | uint16 | int16 => cases two
  | uint32 _ | int32 _ | float32 _ => rfl

/-- The registers are in one block in every state. -/
theorem ClientStep.known {es : List ClientEvent} (run : ClientRun s es s') :
    s'.client.cache.known = s.client.cache.known := by
  have hsame : s.client.cache.Same s'.client.cache :=
    run.invariant (I := fun t => s.client.cache.Same t.client.cache)
      (fun _ _ _ h hs => h.trans hs.same) (.refl _)
  exact hsame.known

/-- The cached value of an accessor of two registers in a block is the one of a response or of the
last write; from the first response or write on it has a value. -/
theorem value_never_torn {acc : Accessor} (register : acc.index = some a)
    (two : acc.type.count = 2) (init : s.Init) (inside : s.client.cache.known a 2 acc.isInput)
    {es : List ClientEvent} (run : ClientRun s es s')
    (through : ∀ e ∈ es, e.Through acc.isInput a) :
    (∀ values, s'.client.readRegisters a acc.type.count acc.isInput = .ok values →
      ∃ v w, values = [v, w] ∧ FromOne acc.isInput a es v w ∧
        acc.readRaw s'.client.readRegisters = .ok (acc.type.decode [v, w])) ∧
    (HadBoth acc.isInput a es →
      ∃ values, s'.client.readRegisters a acc.type.count acc.isInput = .ok values) := by
  have inv := (twoRegisters_init init acc.isInput a).run run through
  rw [← ClientStep.known run, ModbusCacheMap.known_eq, List.any_eq_true,
    ← List.find?_isSome] at inside
  obtain ⟨g, hfind⟩ := Option.isSome_iff_exists.mp inside
  have hread : s'.client.readRegisters a acc.type.count acc.isInput =
      ModbusCacheMap.readValues a [g.value a, g.value (a + 1)] := by
    rw [Client.readRegisters, two, ModbusCacheMap.getRegister_eq inv.wf, hfind]
    rfl
  have hwhole := inv.whole g (List.mem_of_find?_eq_some hfind)
    (by simpa using List.find?_some hfind)
  rw [Accessor.readRaw_eq register two, hread]
  rcases hwhole.value with ⟨hv, hw, hfirst⟩ | ⟨v, w, hv, hw, hone⟩
  · have hnone : g.value a = none := hv
    rw [hnone]
    refine ⟨fun values hvalues => ?_, fun hboth => absurd hboth hfirst⟩
    cases hvalues
  · have hvalue : g.value a = some v := hv
    have hvalue' : g.value (a + 1) = some w := hw
    rw [hvalue, hvalue']
    refine ⟨fun values hvalues => ⟨v, w, (Except.ok.inj hvalues).symm, hone, rfl⟩, fun _ => ?_⟩
    exact ⟨[v, w], rfl⟩

/-- A unit with a counter of two registers. -/
def counterUnit : ClientState where
  client := { cache := { groups := [.new 0 2 1] } }
  now := 0

/-- A written counter is read together with an older response. -/
def counterEvents : List ClientEvent :=
  [.readBlock false 0 [0xFFFF, 0], .write 0 [0, 0] true true, .readBlock false 0 [0, 1]]

theorem value_never_torn_counter : ∃ s, ClientRun counterUnit counterEvents s ∧
    ∃ v w, s.client.readRegisters 0 2 false = .ok [v, w] ∧ FromOne false 0 counterEvents v w := by
  have init : counterUnit.Init :=
    ⟨⟨[{ startReg := some 0, count := some 2, scanDivider := some (some 1) }], rfl⟩, rfl⟩
  let s₁ := counterUnit.withCache (counterUnit.client.cache.withGroups false
    [(RegisterGroup.new 0 2 1).update 0 0 [0xFFFF, 0] true])
  let s₂ : ClientState := { s₁ with client := s₁.client.writeRegisters 0 0 [0, 0] true true }
  have first : ClientStep counterUnit (.readBlock false 0 [0xFFFF, 0]) s₁ :=
    @ClientStep.readBlock counterUnit false [] [] (.new 0 2 1) [0xFFFF, 0] rfl rfl
  have second : ClientStep s₁ (.write 0 [0, 0] true true) s₂ := .write
  obtain ⟨g, split, haddress, hcount⟩ : ∃ g, s₂.client.cache.groupsOf false = [] ++ g :: [] ∧
      g.address = 0 ∧ g.count = 2 := ⟨_, rfl, rfl, rfl⟩
  have third : ClientStep s₂ (.readBlock false 0 [0, 1]) _ :=
    haddress ▸ ClientStep.readBlock split (show [0, 1].length = g.count from hcount.symm)
  have run : ClientRun counterUnit counterEvents _ := .cons first (.cons second (.single third))
  let counter : Accessor := { index := some 0, type := .uint32 .little }
  have through : ∀ e ∈ counterEvents, e.Through false 0 := by
    intro e he
    simp only [counterEvents, List.mem_cons, List.not_mem_nil, or_false] at he
    rcases he with rfl | rfl | rfl
    · trivial
    · exact fun _ _ => ⟨rfl, rfl, rfl⟩
    · trivial
  obtain ⟨whole, read⟩ := @value_never_torn _ _ _ counter rfl rfl init rfl _ run through
  obtain ⟨values, hvalues⟩ := read ⟨_, List.mem_cons_self, rfl⟩
  obtain ⟨v, w, rfl, hone, -⟩ := whole values hvalues
  exact ⟨_, run, v, w, hvalues, hone⟩

end

end Modbus

end Evok
