import Evok.Mqtt.Delivery

/-!
# The attempts of a refused state

The publisher counts the refusals of a device, not those of a state: a newer state which replaces a
refused one takes over its count. What happens in a connection is its log.

## Main definitions

* `counted`: the refused states which the counter of a device counts.
* `DroppedAfterAttempts`: a dropped state was refused `PUBLISH_ATTEMPTS` times.
* `SameState`: the refusals counted at the last attempt are those of its state.
* `Attempts`: the invariant of the counters.

## Main results

* `counted_refusals`: the counted refusals of a state are all its refusals.
* `dropped_after_attempts_iff`: when a state is dropped after its own refusals only.
-/

namespace Evok

namespace Mqtt

open Devices (devtypeOf FullState Registered)

variable {β γ δ : Type}

/-! ## The refusals in the log -/

/-- The refused state of a key. -/
def Entry.refusedFor (key : Key) : Entry β γ → Option (Item β)
  | .refused key' item => if key' = key then some item else none
  | _ => none

/-- The state of a key whose publishing is over, it is published or dropped. -/
def Entry.endedFor (key : Key) : Entry β γ → Option (Item β)
  | .published key' item | .dropped key' item => if key' = key then some item else none
  | _ => none

/-- The refused states of a key. -/
def refusedItems (key : Key) (log : List (Entry β γ)) : List (Item β) :=
  log.filterMap (Entry.refusedFor key)

/-- The states counted by `publish_failures` of a key: those refused since its last state was
published or dropped. -/
def countEntry (key : Key) (items : List (Item β)) (entry : Entry β γ) : List (Item β) :=
  if (entry.endedFor key).isSome then [] else items ++ (entry.refusedFor key).toList

def counted (key : Key) (log : List (Entry β γ)) : List (Item β) :=
  log.foldl (countEntry key) []

/-- A dropped state was refused `PUBLISH_ATTEMPTS` times. -/
def DroppedAfterAttempts [DecidableEq β] (log : List (Entry β γ)) : Prop :=
  ∀ before key item after, log = before ++ .dropped key item :: after →
    publishAttempts ≤ (refusedItems key before).count item

/-- When a state is refused and all other attempts of its device are counted, they were attempts of
this state. -/
def SameState (log : List (Entry β γ)) : Prop :=
  ∀ before key item after, log = before ++ .refused key item :: after →
    (counted key before).length + 1 = publishAttempts → ∀ other ∈ counted key before, other = item

theorem counted_concat (key : Key) (log : List (Entry β γ)) (entry : Entry β γ) :
    counted key (log ++ [entry]) = countEntry key (counted key log) entry := by
  rw [counted, List.foldl_append, List.foldl_cons, List.foldl_nil]
  rfl

theorem refusedItems_concat (key : Key) (log : List (Entry β γ)) (entry : Entry β γ) :
    refusedItems key (log ++ [entry]) = refusedItems key log ++ (entry.refusedFor key).toList := by
  rw [refusedItems, List.filterMap_append]
  cases h : entry.refusedFor key <;> simp [h, refusedItems]

/-- The least serial number of a later state of the key. -/
def Entry.least (key : Key) (entry : Entry β γ) : Option ℕ :=
  ((entry.refusedFor key).map Item.serial).or ((entry.endedFor key).map fun item => item.serial + 1)

/-- A state of this number is not older than the ones refused, and newer than those which are
over. -/
def Fresh (key : Key) (serial : ℕ) (log : List (Entry β γ)) : Prop :=
  ∀ entry ∈ log, ∀ n, entry.least key = some n → n ≤ serial

theorem Fresh.mono {key : Key} {n m : ℕ} {log : List (Entry β γ)} (h : Fresh key n log)
    (le : n ≤ m) : Fresh key m log :=
  fun entry hentry k hk => (h entry hentry k hk).trans le

theorem fresh_concat {key : Key} {n : ℕ} {log : List (Entry β γ)} {entry : Entry β γ} :
    Fresh key n (log ++ [entry]) ↔ Fresh key n log ∧ ∀ m, entry.least key = some m → m ≤ n := by
  simp [Fresh, or_imp, forall_and]

/-- The states of a key are refused, published and dropped in the order in which they were
queued. -/
def Ordered (log : List (Entry β γ)) : Prop :=
  Trace.Before (fun before entry => ∀ key item,
    entry.refusedFor key = some item ∨ entry.endedFor key = some item →
    Fresh key item.serial before) log

/-- All refusals of a state which is not over are counted. -/
theorem counted_refusals [DecidableEq β] {key : Key} {item : Item β} {log : List (Entry β γ)}
    (ordered : Ordered log) (fresh : Fresh key item.serial log) :
    (counted key log).count item = (refusedItems key log).count item := by
  induction log using List.reverseRecOn with
  | nil => rfl
  | append_singleton log entry ih =>
    obtain ⟨hordered, hentry⟩ := Trace.before_concat.mp ordered
    obtain ⟨hfresh, hleast⟩ := fresh_concat.mp fresh
    have hcount := ih hordered hfresh
    rw [counted_concat, refusedItems_concat, countEntry]
    cases hended : entry.endedFor key with
    | none => simp [List.count_append, hcount]
    | some other =>
      -- an older state is over, this one was not refused before
      have hother : entry.refusedFor key = none := by
        cases entry <;> simp [Entry.endedFor, Entry.refusedFor] at hended ⊢
      have hlt : other.serial + 1 ≤ item.serial := hleast _ (by simp [Entry.least, hother, hended])
      have hnone : item ∉ refusedItems key log := by
        intro hmem
        obtain ⟨refusal, hrefusal, hitem⟩ := List.mem_filterMap.mp hmem
        have := hentry key other (.inr hended) refusal hrefusal item.serial
          (by simp [Entry.least, hitem])
        omega
      simp [hother, List.count_eq_zero_of_not_mem hnone]

/-! ## The invariant -/

/-- The state which the publisher has popped. -/
def MqttHandler.current (handler : MqttHandler β γ) : Option (Key × Item β) :=
  match handler.connection with
  | .connected publisher => publisher.current
  | .lost | .connecting => none

/-- The last attempt of a key is followed by a drop. -/
def Last (log : List (Entry β γ)) : Prop :=
  ∀ before key item after, log = before ++ .refused key item :: after →
    (counted key before).length + 1 = publishAttempts → after.head? = some (.dropped key item)

/-- A state is dropped at the last attempt of its key. -/
def Dropped (log : List (Entry β γ)) : Prop :=
  Trace.Before (fun before entry => ∀ key item, entry = .dropped key item →
    ∃ earlier, before = earlier ++ [.refused key item] ∧
      (counted key earlier).length + 1 = publishAttempts) log

/-- The counters count the refusals in the log, the pending states and the current one are newer
than those which are over. -/
structure Attempts (handler : MqttHandler β γ) : Prop where
  counter : ∀ key, (handler.publishFailures.lookup key).getD 0 = (counted key handler.log).length
  below : ∀ key, (counted key handler.log).length < publishAttempts
  ordered : Ordered handler.log
  dropped : Dropped handler.log
  last : Last handler.log
  created : ∀ key, Fresh key handler.created handler.log
  pending : ∀ key item, handler.pending.lookup key = some item →
    Fresh key item.serial handler.log ∧ item.serial < handler.created
  current : ∀ key item, handler.current = some (key, item) →
    Fresh key item.serial handler.log ∧ item.serial < handler.created ∧
      ∀ newer, handler.pending.lookup key = some newer → item.serial < newer.serial

/-- An entry which is neither a refusal nor the end of a state. -/
def Entry.IsOther (entry : Entry β γ) : Prop :=
  ∀ key, entry.refusedFor key = none ∧ entry.endedFor key = none

theorem Entry.IsOther.fresh {entry : Entry β γ} (h : entry.IsOther) {key : Key} {n : ℕ}
    {log : List (Entry β γ)} (fresh : Fresh key n log) : Fresh key n (log ++ [entry]) := by
  refine fresh_concat.mpr ⟨fresh, fun m hm => ?_⟩
  simp [Entry.least, (h key).1, (h key).2] at hm

theorem Entry.IsOther.counted {entry : Entry β γ} (h : entry.IsOther) (key : Key)
    (log : List (Entry β γ)) : counted key (log ++ [entry]) = counted key log := by
  rw [counted_concat, countEntry, (h key).1, (h key).2]
  simp

theorem Last.concat {log : List (Entry β γ)} (h : Last log) {entry : Entry β γ}
    (other : ∀ key item, entry = .refused key item →
      (counted key log).length + 1 ≠ publishAttempts) : Last (log ++ [entry]) := by
  intro before key item after hsplit hlast
  rcases Trace.concat_eq_append_cons.mp hsplit with ⟨rfl, heq, rfl⟩ | ⟨rest, hrest, rfl⟩
  · exact absurd hlast (other key item heq.symm)
  · have hhead := h before key item rest hrest hlast
    rw [List.head?_append, hhead]
    rfl

/-- Another entry keeps the invariant. -/
theorem Attempts.record {handler : MqttHandler β γ} (h : Attempts handler) {entry : Entry β γ}
    (other : entry.IsOther) : Attempts (handler.record entry) where
  counter key := by
    rw [MqttHandler.record, other.counted]
    exact h.counter key
  below key := by
    rw [MqttHandler.record, other.counted]
    exact h.below key
  ordered := by
    refine Trace.before_concat.mpr ⟨h.ordered, fun key item hitem => ?_⟩
    simp [(other key).1, (other key).2] at hitem
  dropped := by
    refine Trace.before_concat.mpr ⟨h.dropped, ?_⟩
    rintro key item rfl
    have := (other key).2
    simp [Entry.endedFor] at this
  last := by
    refine h.last.concat ?_
    rintro key item rfl
    have := (other key).1
    simp [Entry.refusedFor] at this
  created key := other.fresh (h.created key)
  pending key item hlookup := by
    obtain ⟨hfresh, hcreated⟩ := h.pending key item hlookup
    exact ⟨other.fresh hfresh, hcreated⟩
  current key item hcurrent := by
    obtain ⟨hfresh, hcreated, hnewer⟩ := h.current key item hcurrent
    exact ⟨other.fresh hfresh, hcreated, hnewer⟩

/-- The publisher goes on with the same state, or without one. -/
theorem Attempts.move {handler : MqttHandler β γ} (h : Attempts handler)
    {connection : Connection β γ}
    (sub : ∀ key item, ({ handler with connection := connection }).current = some (key, item) →
      handler.current = some (key, item)) :
    Attempts { handler with connection := connection } :=
  ⟨h.counter, h.below, h.ordered, h.dropped, h.last, h.created, h.pending,
    fun key item hcurrent => h.current key item (sub key item hcurrent)⟩

/-! ## The steps -/

variable {settings : MqttSettings}
  {discovery : δ → Key → FullState β → Except Unit (List (String × γ))}
  {handler handler' : MqttHandler β γ}

/-- A queued state is newer than all others. -/
theorem Attempts.queueState (h : Attempts handler) (state : FullState β) :
    Attempts (handler.queueState settings state) := by
  unfold MqttHandler.queueState
  dsimp only
  cases state.circuit with
  | none => exact h
  | some circuit =>
    dsimp only
    split
    case isFalse => exact h
    case isTrue =>
      generalize (devtypeOf state.dev, circuit) = key
      generalize hitem : Item.mk handler.created state = item
      have hserial : handler.created = item.serial := by rw [← hitem]
      have hother : (Entry.queued key item : Entry β γ).IsOther := fun _ => ⟨rfl, rfl⟩
      have hrecord := h.record hother
      refine ⟨hrecord.counter, hrecord.below, hrecord.ordered, hrecord.dropped, hrecord.last,
        fun key' => (hrecord.created key').mono (Nat.le_succ _), fun key' other hlookup => ?_,
        fun key' other hcurrent => ?_⟩
      · dsimp only at hlookup
        rw [Dict.lookup_set] at hlookup
        split at hlookup
        · obtain rfl := Option.some.inj hlookup
          exact ⟨hserial ▸ hrecord.created key', hserial ▸ Nat.lt_succ_self _⟩
        · obtain ⟨hfresh, hlt⟩ := hrecord.pending key' other hlookup
          exact ⟨hfresh, hlt.trans (Nat.lt_succ_self _)⟩
      · obtain ⟨hfresh, hlt, hnewer⟩ := hrecord.current key' other hcurrent
        refine ⟨hfresh, hlt.trans (Nat.lt_succ_self _), fun newer hlookup => ?_⟩
        dsimp only at hlookup
        rw [Dict.lookup_set] at hlookup
        split at hlookup
        · obtain rfl := Option.some.inj hlookup
          exact hserial ▸ hlt
        · exact hnewer newer hlookup

theorem Attempts.queue (h : Attempts handler) (states : List (FullState β)) :
    Attempts (handler.queue settings states) := by
  have hstates : Attempts (states.foldl (MqttHandler.queueState settings) handler) := by
    induction states generalizing handler with
    | nil => exact h
    | cons state states ih => exact ih (h.queueState state)
  exact ⟨hstates.counter, hstates.below, hstates.ordered, hstates.dropped, hstates.last,
    hstates.created, hstates.pending, hstates.current⟩

/-- Without entries and pending states nothing is counted. -/
theorem Attempts.empty (handler : MqttHandler β γ) (log : handler.log = [])
    (pending : handler.pending = ∅) (publishFailures : handler.publishFailures = ∅)
    (current : handler.current = none) : Attempts handler where
  counter key := by
    rw [log, publishFailures]
    rfl
  below key := by
    rw [log]
    exact Nat.zero_lt_succ 2
  ordered := log ▸ Trace.before_nil _
  dropped := log ▸ Trace.before_nil _
  last before key item after hsplit := by simp [log] at hsplit
  created key entry hentry := by simp [log] at hentry
  pending key item hlookup := by
    rw [pending] at hlookup
    cases hlookup
  current key item hcurrent := by
    rw [current] at hcurrent
    cases hcurrent

theorem Attempts.start (connecting : handler.connection = .connecting)
    (devices : List (Registered β)) : Attempts (handler.start settings devices) := by
  have hcleared : Attempts { handler with
      pending := ∅
      announced := ∅
      publishFailures := ∅
      devices := devices
      log := [] } := by
    refine Attempts.empty _ rfl rfl rfl ?_
    simp [MqttHandler.current, connecting]
  exact (hcleared.queue _).move fun key item hcurrent => by
    simp [MqttHandler.current, Publisher.current] at hcurrent

/-- The popped state is the current one. -/
theorem Attempts.take (h : Attempts handler) {key : Key} {item : Item β}
    (hlookup : handler.pending.lookup key = some item)
    (configs : Key → FullState β → Except Unit (List (String × γ))) :
    Attempts (handler.take settings configs key item) := by
  have herased : ∀ publisher : Publisher β γ,
      (∀ key' other, publisher.current = some (key', other) → key' = key ∧ other = item) →
      Attempts ({ handler with pending := handler.pending.erase key }.goTo publisher) := by
    intro publisher hpublisher
    refine ⟨h.counter, h.below, h.ordered, h.dropped, h.last, h.created, ?_, ?_⟩
    · intro key' other hother
      change (handler.pending.erase key).lookup key' = some other at hother
      rw [Dict.lookup_erase] at hother
      split at hother
      · cases hother
      · exact h.pending key' other hother
    · intro key' other hcurrent
      obtain ⟨rfl, rfl⟩ := hpublisher key' other hcurrent
      obtain ⟨hfresh, hlt⟩ := h.pending key' other hlookup
      refine ⟨hfresh, hlt, fun newer hnewer => ?_⟩
      change (handler.pending.erase key').lookup key' = some newer at hnewer
      simp at hnewer
  have hcurrent : ∀ configs, Attempts ({ handler with
      pending := handler.pending.erase key }.goTo (.announcing key item configs)) := by
    intro configs
    refine herased _ fun key' other hcurrent => ?_
    obtain ⟨rfl, rfl⟩ : key = key' ∧ item = other := by simpa [Publisher.current] using hcurrent
    exact ⟨rfl, rfl⟩
  unfold MqttHandler.take
  dsimp only
  split
  · split
    · exact hcurrent _
    · have hlooping := herased .looping fun key' other hnone => by simp [Publisher.current] at hnone
      exact hlooping.record fun _ => ⟨rfl, rfl⟩
  · exact hcurrent []

section Entries

variable (key key' : Key) (item : Item β) (log : List (Entry β γ))

theorem counted_refused : counted key' (log ++ [.refused key item]) =
    if key = key' then counted key' log ++ [item] else counted key' log := by
  rw [counted_concat]
  split <;> simp_all [countEntry, Entry.refusedFor, Entry.endedFor]

variable {key key' item log}

/-- The end of a state ends the count of its key. -/
theorem counted_ended {entry : Entry β γ}
    (hentry : entry = .published key item ∨ entry = .dropped key item) :
    counted key' (log ++ [entry]) = if key = key' then [] else counted key' log := by
  rw [counted_concat]
  rcases hentry with rfl | rfl <;> split <;> simp_all [countEntry, Entry.refusedFor, Entry.endedFor]

/-- The later states of the key are not older than the entry. -/
theorem fresh_entry {entry : Entry β γ} {n bound : ℕ} (fresh : Fresh key' n log)
    (hleast : entry.least key' = if key = key' then some bound else none)
    (le : key = key' → bound ≤ n) : Fresh key' n (log ++ [entry]) := by
  refine fresh_concat.mpr ⟨fresh, fun m hm => ?_⟩
  rw [hleast] at hm
  split at hm
  · next heq => exact Option.some.inj hm ▸ le heq
  · cases hm

theorem fresh_refused {n : ℕ} (fresh : Fresh key' n log) (le : key = key' → item.serial ≤ n) :
    Fresh key' n (log ++ [.refused key item]) := by
  refine fresh_entry fresh ?_ le
  by_cases heq : key = key' <;> simp [Entry.least, Entry.refusedFor, Entry.endedFor, heq]

theorem fresh_ended {entry : Entry β γ} {n : ℕ}
    (hentry : entry = .published key item ∨ entry = .dropped key item)
    (fresh : Fresh key' n log) (lt : key = key' → item.serial < n) :
    Fresh key' n (log ++ [entry]) := by
  refine fresh_entry fresh ?_ lt
  rcases hentry with rfl | rfl <;> by_cases heq : key = key' <;>
    simp [Entry.least, Entry.refusedFor, Entry.endedFor, heq]

/-- An attempt of a state which is not older than the earlier ones. -/
theorem Ordered.concat (h : Ordered log) (fresh : Fresh key item.serial log) {entry : Entry β γ}
    (hentry : entry = .refused key item ∨ entry = .published key item ∨ entry = .dropped key item) :
    Ordered (log ++ [entry]) := by
  refine Trace.before_concat.mpr ⟨h, fun key' other hother => ?_⟩
  have hsame : key = key' ∧ item = other := by
    rcases hentry with rfl | rfl | rfl <;>
      simpa [Entry.refusedFor, Entry.endedFor] using hother
  obtain ⟨rfl, rfl⟩ := hsame
  exact fresh

end Entries

/-- A published state ends the count of its key. -/
theorem Attempts.published (h : Attempts handler) {key : Key} {item : Item β}
    (hcurrent : handler.current = some (key, item)) :
    Attempts (({ handler with
      publishFailures := handler.publishFailures.erase key }.record (.published key item)).goTo
      .looping) := by
  obtain ⟨hfresh, hcreated, hnewer⟩ := h.current key item hcurrent
  constructor
  · intro key'
    change ((handler.publishFailures.erase key).lookup key').getD 0 =
      (counted key' (handler.log ++ [.published key item])).length
    rw [counted_ended (.inl rfl), Dict.lookup_erase]
    by_cases heq : key' = key
    · rw [if_pos heq, if_pos heq.symm]
      rfl
    · rw [if_neg heq, if_neg (Ne.symm heq)]
      exact h.counter key'
  · intro key'
    change (counted key' (handler.log ++ [.published key item])).length < publishAttempts
    rw [counted_ended (.inl rfl)]
    split
    · exact Nat.zero_lt_succ 2
    · exact h.below key'
  · exact h.ordered.concat hfresh (.inr (.inl rfl))
  · exact Trace.before_concat.mpr ⟨h.dropped, fun _ _ heq => by cases heq⟩
  · exact h.last.concat fun _ _ heq => by cases heq
  · exact fun key' => fresh_ended (.inl rfl) (h.created key') fun _ => hcreated
  · intro key' other hlookup
    obtain ⟨hfresh', hlt⟩ := h.pending key' other hlookup
    refine ⟨fresh_ended (.inl rfl) hfresh' ?_, hlt⟩
    rintro rfl
    exact hnewer other hlookup
  · intro key' other hnone
    simp [MqttHandler.current, MqttHandler.goTo, Publisher.current] at hnone

/-- A refused state is counted and published again, unless a newer one is pending. -/
theorem Attempts.delayed (h : Attempts handler) {key : Key} {item : Item β}
    (hcurrent : handler.current = some (key, item))
    (again : (handler.publishFailures.lookup key).getD 0 + 1 < publishAttempts) :
    Attempts ({ handler.record (.refused key item) with
      publishFailures :=
        handler.publishFailures.set key ((handler.publishFailures.lookup key).getD 0 + 1)
      pending :=
        if key ∈ handler.pending then handler.pending else handler.pending.set key item }.goTo
      .delaying) := by
  obtain ⟨hfresh, hcreated, hnewer⟩ := h.current key item hcurrent
  rw [h.counter key] at again ⊢
  constructor
  · intro key'
    change ((handler.publishFailures.set key _).lookup key').getD 0 =
      (counted key' (handler.log ++ [.refused key item])).length
    rw [counted_refused, Dict.lookup_set]
    by_cases heq : key' = key
    · subst heq
      simp
    · rw [if_neg heq, if_neg (Ne.symm heq)]
      exact h.counter key'
  · intro key'
    change (counted key' (handler.log ++ [.refused key item])).length < publishAttempts
    rw [counted_refused]
    split
    · next heq =>
      subst heq
      rw [List.length_append]
      exact again
    · exact h.below key'
  · exact h.ordered.concat hfresh (.inl rfl)
  · exact Trace.before_concat.mpr ⟨h.dropped, fun _ _ heq => by cases heq⟩
  · refine h.last.concat fun key' other heq => ?_
    cases heq
    exact again.ne
  · exact fun key' => fresh_refused (h.created key') fun _ => hcreated.le
  · intro key' other hlookup
    change (if key ∈ handler.pending then handler.pending else
      handler.pending.set key item).lookup key' = some other at hlookup
    split at hlookup
    · obtain ⟨hfresh', hlt⟩ := h.pending key' other hlookup
      refine ⟨fresh_refused hfresh' ?_, hlt⟩
      rintro rfl
      exact (hnewer other hlookup).le
    · rw [Dict.lookup_set] at hlookup
      split at hlookup
      · next heq =>
        subst heq
        obtain rfl := Option.some.inj hlookup
        exact ⟨fresh_refused hfresh fun _ => le_rfl, hcreated⟩
      · next hne =>
        obtain ⟨hfresh', hlt⟩ := h.pending key' other hlookup
        exact ⟨fresh_refused hfresh' fun heq => absurd heq.symm hne, hlt⟩
  · intro key' other hnone
    simp [MqttHandler.current, MqttHandler.goTo, Publisher.current] at hnone

/-- The last attempt of a key is followed by its drop. -/
theorem Last.concat_dropped {log : List (Entry β γ)} (h : Last log) (key : Key) (item : Item β) :
    Last (log ++ [.refused key item] ++ [.dropped key item]) := by
  intro before key' other after hsplit hlast
  rcases Trace.concat_eq_append_cons.mp hsplit with ⟨-, heq, -⟩ | ⟨rest, hrest, rfl⟩
  · cases heq
  · rcases Trace.concat_eq_append_cons.mp hrest with ⟨-, heq, rfl⟩ | ⟨rest', hrest', rfl⟩
    · cases heq
      rfl
    · have hhead := h before key' other rest' hrest' hlast
      rw [List.append_assoc, List.head?_append, hhead]
      rfl

/-- A state refused at the last attempt of its key is dropped. -/
theorem Attempts.dropped_last (h : Attempts handler) {key : Key} {item : Item β}
    (hcurrent : handler.current = some (key, item))
    (exhausted : ¬(handler.publishFailures.lookup key).getD 0 + 1 < publishAttempts) :
    Attempts (({ handler.record (.refused key item) with
      publishFailures := handler.publishFailures.erase key }.record (.dropped key item)).goTo
      .looping) := by
  obtain ⟨hfresh, hcreated, hnewer⟩ := h.current key item hcurrent
  rw [h.counter key] at exhausted
  have hattempt : (counted key handler.log).length + 1 = publishAttempts := by
    have := h.below key
    omega
  have hcounted : ∀ key', counted key' (handler.log ++ [.refused key item] ++ [.dropped key item]) =
      if key = key' then [] else counted key' handler.log := by
    intro key'
    rw [counted_ended (.inr rfl), counted_refused]
    split <;> rfl
  have hrefused : ∀ {n : ℕ} {key' : Key}, Fresh key' n handler.log →
      (key = key' → item.serial < n) →
        Fresh key' n (handler.log ++ [.refused key item] ++ [.dropped key item]) :=
    fun fresh lt => fresh_ended (.inr rfl) (fresh_refused fresh fun heq => (lt heq).le) lt
  constructor
  · intro key'
    change ((handler.publishFailures.erase key).lookup key').getD 0 =
      (counted key' (handler.log ++ [.refused key item] ++ [.dropped key item])).length
    rw [hcounted, Dict.lookup_erase]
    by_cases heq : key' = key
    · rw [if_pos heq, if_pos heq.symm]
      rfl
    · rw [if_neg heq, if_neg (Ne.symm heq)]
      exact h.counter key'
  · intro key'
    change (counted key' (handler.log ++ [.refused key item] ++ [.dropped key item])).length <
      publishAttempts
    rw [hcounted]
    split
    · exact Nat.zero_lt_succ 2
    · exact h.below key'
  · exact (h.ordered.concat hfresh (.inl rfl)).concat (fresh_refused hfresh fun _ => le_rfl)
      (.inr (.inr rfl))
  · refine Trace.before_concat.mpr
      ⟨Trace.before_concat.mpr ⟨h.dropped, fun _ _ heq => by cases heq⟩, fun key' other heq => ?_⟩
    cases heq
    exact ⟨handler.log, rfl, hattempt⟩
  · exact h.last.concat_dropped key item
  · exact fun key' => hrefused (h.created key') fun _ => hcreated
  · intro key' other hlookup
    obtain ⟨hfresh', hlt⟩ := h.pending key' other hlookup
    refine ⟨hrefused hfresh' ?_, hlt⟩
    rintro rfl
    exact hnewer other hlookup
  · intro key' other hnone
    simp [MqttHandler.current, MqttHandler.goTo, Publisher.current] at hnone

theorem Attempts.refused (h : Attempts handler) {key : Key} {item : Item β}
    (hcurrent : handler.current = some (key, item)) : Attempts (handler.refused key item) := by
  unfold MqttHandler.refused
  dsimp only
  split
  · next again => exact h.delayed hcurrent again
  · next exhausted => exact h.dropped_last hcurrent exhausted

theorem Step.attempts (hstep : Step settings discovery handler handler') (h : Attempts handler) :
    Attempts handler' := by
  have hmove : ∀ {publisher publisher' : Publisher β γ},
      handler.connection = .connected publisher →
      (publisher'.current = none ∨ publisher'.current = publisher.current) →
      Attempts (handler.goTo publisher') := by
    intro publisher publisher' hconnected hsame
    refine h.move fun key item hcurrent => ?_
    have hnext : publisher'.current = some (key, item) := hcurrent
    rcases hsame with hnone | hsame
    · rw [hnone] at hnext
      cases hnext
    · simp only [MqttHandler.current, hconnected]
      exact hsame ▸ hnext
  cases hstep with
  | event states => exact h.queue states
  | connect lost => exact h.move fun key item hcurrent => by simp [MqttHandler.current] at hcurrent
  | start connecting devices => exact Attempts.start connecting devices
  | lose => exact h.move fun key item hcurrent => by simp [MqttHandler.current] at hcurrent
  | wake waiting wakeup =>
    have hwoken : Attempts (handler.goTo .looping) := hmove waiting (.inl rfl)
    exact ⟨hwoken.counter, hwoken.below, hwoken.ordered, hwoken.dropped, hwoken.last,
      hwoken.created, hwoken.pending, hwoken.current⟩
  | wait looping empty => exact hmove looping (.inl rfl)
  | @take key item rest looping first registry =>
    exact h.take (Dict.mem_items.mp (first ▸ List.mem_cons_self)) _
  | known announcing same => exact hmove announcing (.inr rfl)
  | config announcing changed => exact hmove announcing (.inr rfl)
  | @announced key item topic config configs configuring =>
    have hannounced : Attempts { handler with
        announced := handler.announced.set topic config } :=
      ⟨h.counter, h.below, h.ordered, h.dropped, h.last, h.created, h.pending, h.current⟩
    refine (hannounced.record fun _ => ⟨rfl, rfl⟩).move fun key' item' hcurrent => ?_
    simp only [MqttHandler.current, MqttHandler.record, configuring]
    exact hcurrent
  | @publish key item announcing =>
    have hother : (Entry.publish key item : Entry β γ).IsOther := fun _ => ⟨rfl, rfl⟩
    refine (h.record hother).move fun key' item' hcurrent => ?_
    simp only [MqttHandler.current, MqttHandler.record, announcing]
    exact hcurrent
  | published publishing =>
    exact h.published (by simp [MqttHandler.current, publishing, Publisher.current])
  | @refused key item publisher connected awaited =>
    refine h.refused ?_
    cases publisher <;>
      simp_all [MqttHandler.current, Publisher.awaited, Publisher.current]
  | @failed key item publisher connected awaited =>
    have hother : (Entry.failed key item : Entry β γ).IsOther := fun _ => ⟨rfl, rfl⟩
    exact (h.record hother).move fun key' item' hcurrent => by
      simp [MqttHandler.current, Publisher.current] at hcurrent
  | retry delaying => exact hmove delaying (.inl rfl)

theorem Reachable.attempts (hreach : Reachable settings discovery handler) : Attempts handler := by
  induction hreach with
  | refl => exact Attempts.empty _ rfl rfl rfl rfl
  | tail _ hstep ih => exact hstep.attempts ih

/-! ## The dropped states -/

/-- The refusals of a state before its last attempt are counted. -/
theorem Attempts.refusals [DecidableEq β] (h : Attempts handler) {before after : List (Entry β γ)}
    {key : Key} {item : Item β} (hsplit : handler.log = before ++ .refused key item :: after) :
    (refusedItems key (before ++ [.refused key item])).count item =
      (counted key before).count item + 1 := by
  have hordered : Ordered before := fun before' entry after' hsplit' =>
    h.ordered before' entry (after' ++ .refused key item :: after)
      (by rw [hsplit, hsplit', List.append_assoc, List.cons_append])
  have hfresh : Fresh key item.serial before :=
    h.ordered before _ after hsplit key item (.inl (by simp [Entry.refusedFor]))
  rw [refusedItems_concat, List.count_append, counted_refusals hordered hfresh]
  simp [Entry.refusedFor]

/-- In every connection of a run the dropped states were refused `PUBLISH_ATTEMPTS` times if and
only if at each last attempt of a device the counted refusals are those of the same state. -/
theorem dropped_after_attempts_iff [DecidableEq β] (hreach : Reachable settings discovery handler) :
    DroppedAfterAttempts handler.log ↔ SameState handler.log := by
  have h := hreach.attempts
  constructor
  · intro hdropped before key item after hsplit hlast other hother
    -- the state was dropped right after its refusal
    obtain ⟨after', rfl⟩ : ∃ after', after = .dropped key item :: after' := by
      have hhead := h.last before key item after hsplit hlast
      cases after with
      | nil => cases hhead
      | cons entry after' => exact ⟨after', by rw [Option.some.inj hhead]⟩
    have hcount := hdropped (before ++ [.refused key item]) key item after'
      (by rw [hsplit, List.append_assoc, List.singleton_append])
    rw [h.refusals hsplit, ← hlast] at hcount
    have hall : (counted key before).count item = (counted key before).length :=
      le_antisymm List.count_le_length (by omega)
    exact (List.count_eq_length.mp hall other hother).symm
  · intro hsame before key item after hsplit
    obtain ⟨earlier, rfl, hlast⟩ := h.dropped before _ after hsplit key item rfl
    have hsplit' : handler.log = earlier ++ .refused key item :: .dropped key item :: after := by
      rw [hsplit, List.append_assoc, List.singleton_append]
    have hall : (counted key earlier).count item = (counted key earlier).length :=
      List.count_eq_length.mpr fun other hother =>
        (hsame earlier key item _ hsplit' hlast other hother).symm
    rw [h.refusals hsplit', hall, hlast]

/-! ### A replaced state -/

def relayOn : FullState Bool := { relay.state with body := true }

/-- Without the configs of Home Assistant. -/
def noConfigs : Unit → Key → FullState Bool → Except Unit (List (String × String)) :=
  fun () _ _ => .ok []

/-- The relay is switched on while its first state is refused for the second time. -/
def replaced : List (Entry Bool String) :=
  [.queued ("ro", "1_01") ⟨0, relay.state⟩, .publish ("ro", "1_01") ⟨0, relay.state⟩,
    .refused ("ro", "1_01") ⟨0, relay.state⟩, .publish ("ro", "1_01") ⟨0, relay.state⟩,
    .queued ("ro", "1_01") ⟨1, relayOn⟩, .refused ("ro", "1_01") ⟨0, relay.state⟩,
    .publish ("ro", "1_01") ⟨1, relayOn⟩, .refused ("ro", "1_01") ⟨1, relayOn⟩]

theorem reachable_replaced : ∃ handler : MqttHandler Bool String,
    Reachable { deviceMask := ["ro"] } noConfigs handler ∧
      handler.log = replaced ++ [.dropped ("ro", "1_01") ⟨1, relayOn⟩] := by
  have hreach : Relation.ReflTransGen (Step { deviceMask := ["ro"] } noConfigs) {} _ :=
    .head (.connect rfl) <| .head (.start rfl [relay]) <| .head (.wake rfl rfl) <|
    .head (.take rfl (show _ = [(("ro", "1_01"), ⟨0, relay.state⟩)] from rfl) ()) <|
    .head (.publish rfl) <| .head (.refused rfl rfl) <| .head (.retry rfl) <|
    .head (.take rfl (show _ = [(("ro", "1_01"), ⟨0, relay.state⟩)] from rfl) ()) <|
    .head (.publish rfl) <| .head (.event [relayOn]) <| .head (.refused rfl rfl) <|
    .head (.retry rfl) <|
    .head (.take rfl (show _ = [(("ro", "1_01"), ⟨1, relayOn⟩)] from rfl) ()) <|
    .head (.publish rfl) <| .single (.refused rfl rfl)
  exact ⟨_, hreach, rfl⟩

/-- The newest state is dropped after one refusal. -/
theorem not_dropped_after_attempts :
    ¬ ∀ handler : MqttHandler Bool String,
      Reachable { deviceMask := ["ro"] } noConfigs handler → DroppedAfterAttempts handler.log := by
  intro h
  obtain ⟨handler, hreach, hlog⟩ := reachable_replaced
  have hcount := h handler hreach replaced ("ro", "1_01") ⟨1, relayOn⟩ [] hlog
  revert hcount
  decide +kernel

theorem dropped_after_attempts_replaced : ∃ handler : MqttHandler Bool String,
    Reachable { deviceMask := ["ro"] } noConfigs handler ∧
      (DroppedAfterAttempts handler.log ↔ SameState handler.log) := by
  obtain ⟨handler, hreach, -⟩ := reachable_replaced
  exact ⟨handler, hreach, dropped_after_attempts_iff hreach⟩

end Mqtt

end Evok
