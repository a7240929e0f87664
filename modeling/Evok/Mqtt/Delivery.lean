import Evok.Library.Trace
import Evok.Mqtt.Handler

/-!
# The published states converge

The publisher pops a state, announces and publishes it, and puts a refused one back unless a newer
one is queued. What happens in a connection is its log.

## Main definitions

* `Entry.Allowed`: what has to happen before a state is queued or published.
* `Inv`: the pending states and the place of the publisher, by the log.
* `Delivers`: the states published in a connection.

## Main results

* `delivers`: every connection of a run delivers the states.
-/

namespace Evok

namespace Mqtt

open Devices (devtypeOf FullState Registered)

variable {β γ δ : Type}

/-! ## The log of a connection -/

/-- The state queued for a key. -/
def Entry.queuedFor (key : Key) : Entry β γ → Option (Item β)
  | .queued key' item => if key' = key then some item else none
  | _ => none

/-- The state of a key with which the client was called. -/
def Entry.publishFor (key : Key) : Entry β γ → Option (Item β)
  | .publish key' item => if key' = key then some item else none
  | _ => none

/-- The state of a key which the client published. -/
def Entry.publishedFor (key : Key) : Entry β γ → Option (Item β)
  | .published key' item => if key' = key then some item else none
  | _ => none

/-- The states queued for a key, in their order. -/
def queuedItems (key : Key) (log : List (Entry β γ)) : List (Item β) :=
  log.filterMap (Entry.queuedFor key)

theorem queuedItems_concat (key : Key) (log : List (Entry β γ)) (entry : Entry β γ) :
    queuedItems key (log ++ [entry]) = queuedItems key log ++ (entry.queuedFor key).toList := by
  rw [queuedItems, List.filterMap_append]
  cases h : entry.queuedFor key <;> simp [h, queuedItems]

theorem queued_mem {key : Key} {log : List (Entry β γ)} {item : Item β} :
    item ∈ queuedItems key log ↔ .queued key item ∈ log := by
  rw [queuedItems, List.mem_filterMap]
  constructor
  · rintro ⟨entry, hentry, hitem⟩
    cases entry with
    | queued key' item' =>
      obtain ⟨rfl, rfl⟩ : key' = key ∧ item' = item := by simpa [Entry.queuedFor] using hitem
      exact hentry
    | _ => simp [Entry.queuedFor] at hitem
  · exact fun hmem => ⟨_, hmem, by simp [Entry.queuedFor]⟩

/-- Every call of the client with a state of the key was with an earlier state, or with this one,
which was refused since. -/
def Ready (key : Key) (item : Item β) (log : List (Entry β γ)) : Prop :=
  Trace.After (fun entry after => ∀ other, entry = .publish key other →
    other.serial < item.serial ∨ (other = item ∧ .refused key item ∈ after)) log

theorem Ready.concat {key : Key} {item : Item β} {log : List (Entry β γ)} (h : Ready key item log)
    {entry : Entry β γ} (last : ∀ other, entry = .publish key other → other.serial < item.serial) :
    Ready key item (log ++ [entry]) := by
  refine Trace.After.concat h (fun e after hcall other heq => ?_) fun other heq => .inl (last other heq)
  exact (hcall other heq).imp_right fun ⟨hsame, hmem⟩ => ⟨hsame, List.mem_append_left _ hmem⟩

/-- A state refused by its call is ready again. -/
theorem ready_refused {key : Key} {item : Item β} {log : List (Entry β γ)}
    (called : ∀ other, .publish key other ∈ log → other.serial < item.serial ∨ other = item) :
    Ready key item (log ++ [.refused key item]) := by
  have hcalls : Trace.After (fun entry _ => ∀ other, entry = .publish key other →
      other.serial < item.serial ∨ other = item) log := by
    rintro before entry after rfl other rfl
    exact called other (by simp)
  refine hcalls.concat (fun e after hcall other heq => ?_) fun other heq => by simp at heq
  exact (hcall other heq).imp_right fun hsame => ⟨hsame, by simp⟩

/-- The states of all devices of the mask are queued. -/
def Complete (settings : MqttSettings) (devices : List (Registered β)) (log : List (Entry β γ)) :
    Prop :=
  ∀ device ∈ devices, device.devtype ∈ settings.deviceMask →
    ∀ circuit, device.state.circuit = some circuit →
    ∃ item : Item β, item.state = device.state ∧ .queued (device.devtype, circuit) item ∈ log

theorem Complete.append {settings : MqttSettings} {devices : List (Registered β)}
    {log : List (Entry β γ)} (h : Complete settings devices log) (entries : List (Entry β γ)) :
    Complete settings devices (log ++ entries) := by
  intro device hdevice hmask circuit hcircuit
  obtain ⟨item, hstate, hmem⟩ := h device hdevice hmask circuit hcircuit
  exact ⟨item, hstate, List.mem_append_left _ hmem⟩

section

variable (settings : MqttSettings)
  (discovery : δ → Key → FullState β → Except Unit (List (String × γ)))

/-- The configs of the entities of a state are published. -/
def Announced (key : Key) (item : Item β) (log : List (Entry β γ)) : Prop :=
  ∃ registry configs, discovery registry key item.state = .ok configs ∧
    ∀ c ∈ configs, .config c.1 c.2 ∈ log

/-- A queued state is newer than the earlier ones; before a state is published, it is queued with
those of all devices, its entities are announced and its earlier call was refused. -/
def Entry.Allowed (devices : List (Registered β)) (before : List (Entry β γ)) : Entry β γ → Prop
  | .queued key item => ∀ other ∈ queuedItems key before, other.serial < item.serial
  | .publish key item => .queued key item ∈ before ∧ Complete settings devices before ∧
    (settings.haDiscovery = true → Announced discovery key item before) ∧ Ready key item before
  | _ => True

/-- A state which is published last, or not at all. -/
def Settled (key : Key) (item : Item β) (log : List (Entry β γ)) : Prop :=
  (log.filterMap (Entry.publishedFor key)).getLast? = some item ∨ .dropped key item ∈ log ∨
    .failed key item ∈ log

theorem Settled.concat {key : Key} {item : Item β} {log : List (Entry β γ)}
    (h : Settled key item log) {entry : Entry β γ} (other : entry.publishedFor key = none) :
    Settled key item (log ++ [entry]) := by
  rcases h with hlast | hdropped | hfailed
  · exact .inl (by simpa [other] using hlast)
  · exact .inr (.inl (List.mem_append_left _ hdropped))
  · exact .inr (.inr (List.mem_append_left _ hfailed))

/-! ## The invariant -/

/-- What a place of the publisher tells about the state which it publishes. -/
def Progress (log : List (Entry β γ)) : Publisher β γ → Prop
  | .announcing key item configs => Ready key item log ∧ (settings.haDiscovery = true →
    ∃ registry all, discovery registry key item.state = .ok all ∧ ∀ c ∈ all, .config c.1 c.2 ∈ log ∨ c ∈ configs)
  | .configuring key item topic config configs => Ready key item log ∧
    (settings.haDiscovery = true → ∃ registry all, discovery registry key item.state = .ok all ∧
      ∀ c ∈ all, .config c.1 c.2 ∈ log ∨ c ∈ (topic, config) :: configs)
  | .publishing key item =>
    ∀ other, .publish key other ∈ log → other.serial < item.serial ∨ other = item
  | .waiting | .looping | .delaying => True

/-- The invariant of a connection. -/
structure Inv (handler : MqttHandler β γ) (publisher : Publisher β γ) : Prop where
  allowed : Trace.Before (Entry.Allowed settings discovery handler.devices) handler.log
  created : ∀ key item, .queued key item ∈ handler.log → item.serial < handler.created
  complete : Complete settings handler.devices handler.log
  announced : ∀ topic config, handler.announced.lookup topic = some config →
    .config topic config ∈ handler.log
  pending : ∀ key item, handler.pending.lookup key = some item →
    (queuedItems key handler.log).getLast? = some item ∧ Ready key item handler.log
  current : ∀ key item, publisher.current = some (key, item) → .queued key item ∈ handler.log ∧
    (handler.pending.lookup key = none → (queuedItems key handler.log).getLast? = some item) ∧
    ∀ newer, handler.pending.lookup key = some newer → item.serial < newer.serial
  progress : Progress settings discovery handler.log publisher
  settled : ∀ key item, (queuedItems key handler.log).getLast? = some item →
    handler.pending.lookup key = some item ∨ publisher.current = some (key, item) ∨
      Settled key item handler.log

end

variable {settings : MqttSettings}
  {discovery : δ → Key → FullState β → Except Unit (List (String × γ))}
  {handler : MqttHandler β γ} {publisher : Publisher β γ}

/-- The calls are with queued states. -/
theorem Inv.publish_queued (h : Inv settings discovery handler publisher) {key : Key}
    {item : Item β} (hmem : .publish key item ∈ handler.log) : .queued key item ∈ handler.log := by
  obtain ⟨before, after, hsplit⟩ := List.append_of_mem hmem
  rw [hsplit]
  exact List.mem_append_left _ (h.allowed before _ after hsplit).1

/-- A state which becomes queued is newer than all others and ready. -/
theorem Inv.queueState (h : Inv settings discovery handler publisher) (state : FullState β) :
    Inv settings discovery (handler.queueState settings state) publisher := by
  unfold MqttHandler.queueState
  dsimp only
  cases state.circuit with
  | none => exact h
  | some circuit =>
    dsimp only
    split
    case isFalse => exact h
    case isTrue =>
      generalize (devtypeOf state.dev, circuit) = key
      generalize hitem : Item.mk handler.created state = item
      have hserial : handler.created = item.serial := by rw [← hitem]
      have hnew : ∀ key' other, .queued key' other ∈ handler.log → other.serial < item.serial :=
        fun key' other hmem => hserial ▸ h.created key' other hmem
      have hready : ∀ key' other, Ready key' other handler.log →
          Ready key' other (handler.log ++ [.queued key item]) :=
        fun key' other hready => hready.concat fun _ heq => by simp at heq
      have hlast : ∀ key', key' ≠ key →
          queuedItems key' (handler.log ++ [.queued key item]) = queuedItems key' handler.log := by
        intro key' hne
        rw [queuedItems_concat]
        simp [Entry.queuedFor, Ne.symm hne]
      have hown : (queuedItems key (handler.log ++ [.queued key item])).getLast? = some item := by
        rw [queuedItems_concat]
        simp [Entry.queuedFor]
      refine ⟨?_, ?_, h.complete.append _, ?_, ?_, ?_, ?_, ?_⟩
      · exact Trace.before_concat.mpr
          ⟨h.allowed, fun other hother => hnew key other (queued_mem.mp hother)⟩
      · intro key' other hmem
        rcases List.mem_append.mp hmem with hold | hnew'
        · exact (h.created key' other hold).trans (Nat.lt_succ_self _)
        · obtain ⟨rfl, rfl⟩ : key' = key ∧ other = item := by simpa using hnew'
          exact hserial ▸ Nat.lt_succ_self _
      · exact fun topic config hlookup =>
          List.mem_append_left _ (h.announced topic config hlookup)
      · intro key' other hlookup
        dsimp only at hlookup
        rw [Dict.lookup_set] at hlookup
        split at hlookup
        · next heq =>
          obtain rfl := Option.some.inj hlookup
          subst heq
          refine ⟨hown, Trace.After.concat (Q := fun entry _ => entry ∈ handler.log) ?_ ?_ ?_⟩
          · rintro before entry after hsplit
            simp [hsplit]
          · rintro entry after hmem other rfl
            exact .inl (hnew key' other (h.publish_queued hmem))
          · exact fun _ heq => by simp at heq
        · next hne =>
          obtain ⟨hlast', hready'⟩ := h.pending key' other hlookup
          exact ⟨(hlast key' hne).symm ▸ hlast', hready key' other hready'⟩
      · intro key' other hcurrent
        obtain ⟨hmem, hnone, hnewer⟩ := h.current key' other hcurrent
        refine ⟨List.mem_append_left _ hmem, fun hlookup => ?_, fun newer hlookup => ?_⟩
        · dsimp only at hlookup
          rw [Dict.lookup_set] at hlookup
          split at hlookup
          · simp at hlookup
          · next hne => exact (hlast key' hne).symm ▸ hnone hlookup
        · dsimp only at hlookup
          rw [Dict.lookup_set] at hlookup
          split at hlookup
          · obtain rfl := Option.some.inj hlookup
            exact hnew key' other hmem
          · exact hnewer newer hlookup
      · have hprogress := h.progress
        unfold Progress at hprogress ⊢
        cases publisher with
        | waiting | looping | delaying => trivial
        | announcing key' other configs =>
          refine ⟨hready key' other hprogress.1, fun hdiscovery => ?_⟩
          obtain ⟨registry, all, hall, hconfigs⟩ := hprogress.2 hdiscovery
          exact ⟨registry, all, hall, fun c hc => (hconfigs c hc).imp_left (List.mem_append_left _)⟩
        | configuring key' other topic config configs =>
          refine ⟨hready key' other hprogress.1, fun hdiscovery => ?_⟩
          obtain ⟨registry, all, hall, hconfigs⟩ := hprogress.2 hdiscovery
          exact ⟨registry, all, hall, fun c hc => (hconfigs c hc).imp_left (List.mem_append_left _)⟩
        | publishing key' other =>
          intro earlier hmem
          refine hprogress earlier ?_
          simpa using hmem
      · intro key' other hlast'
        dsimp only at hlast' ⊢
        rw [Dict.lookup_set]
        split
        · next heq =>
          subst heq
          rw [hown] at hlast'
          exact .inl hlast'
        · next hne =>
          rw [hlast key' hne] at hlast'
          rcases h.settled key' other hlast' with hpending | hcurrent | hsettled
          · exact .inl hpending
          · exact .inr (.inl hcurrent)
          · exact .inr (.inr (hsettled.concat rfl))

/-! ## What the steps keep -/

/-- The events of configs, refusals and errors. -/
def Entry.IsPlain : Entry β γ → Prop
  | .queued .. | .publish .. | .published .. => False
  | .config .. | .refused .. | .dropped .. | .failed .. => True

theorem Entry.IsPlain.facts {entry : Entry β γ} (h : entry.IsPlain) (key : Key) :
    entry.queuedFor key = none ∧ entry.publishedFor key = none ∧
      ∀ item, entry ≠ .publish key item ∧ entry ≠ .queued key item := by
  cases entry <;> simp_all [Entry.IsPlain, Entry.queuedFor, Entry.publishedFor]

/-- The place of the publisher with a longer log. -/
theorem Progress.append {log : List (Entry β γ)} (h : Progress settings discovery log publisher)
    {entry : Entry β γ} (other : ∀ key item, entry ≠ .publish key item) :
    Progress settings discovery (log ++ [entry]) publisher := by
  have hready : ∀ key item, Ready key item log → Ready key item (log ++ [entry]) :=
    fun key item hready => hready.concat fun _ heq => absurd heq (other key _)
  have hconfigs : ∀ {key : Key} {item : Item β} {configs : List (String × γ)},
      (∃ registry all, discovery registry key item.state = .ok all ∧
        ∀ c ∈ all, .config c.1 c.2 ∈ log ∨ c ∈ configs) →
      ∃ registry all, discovery registry key item.state = .ok all ∧
        ∀ c ∈ all, .config c.1 c.2 ∈ log ++ [entry] ∨ c ∈ configs :=
    fun ⟨registry, all, hall, hc⟩ =>
      ⟨registry, all, hall, fun c hmem => (hc c hmem).imp_left (List.mem_append_left _)⟩
  unfold Progress at h ⊢
  cases publisher with
  | waiting | looping | delaying => trivial
  | announcing key item configs =>
    exact ⟨hready key item h.1, fun hdiscovery => hconfigs (h.2 hdiscovery)⟩
  | configuring key item topic config configs =>
    exact ⟨hready key item h.1, fun hdiscovery => hconfigs (h.2 hdiscovery)⟩
  | publishing key item =>
    intro earlier hmem
    rcases List.mem_append.mp hmem with hold | hnew
    · exact h earlier hold
    · exact absurd (List.mem_singleton.mp hnew).symm (other key earlier)

theorem Inv.record (h : Inv settings discovery handler publisher) (entry : Entry β γ)
    (plain : entry.IsPlain) : Inv settings discovery (handler.record entry) publisher := by
  have hitems : ∀ key, queuedItems key (handler.log ++ [entry]) = queuedItems key handler.log := by
    intro key
    rw [queuedItems_concat, (plain.facts key).1, Option.toList_none, List.append_nil]
  refine ⟨?_, ?_, h.complete.append _, ?_, ?_, ?_, ?_, ?_⟩
  · refine Trace.before_concat.mpr ⟨h.allowed, ?_⟩
    cases entry <;> simp_all [Entry.IsPlain, Entry.Allowed]
  · intro key item hmem
    exact h.created key item (queued_mem.mp (hitems key ▸ queued_mem.mpr hmem))
  · exact fun topic config hlookup => List.mem_append_left _ (h.announced topic config hlookup)
  · intro key item hlookup
    obtain ⟨hlast, hready⟩ := h.pending key item hlookup
    exact ⟨(hitems key).symm ▸ hlast,
      hready.concat fun other heq => absurd heq ((plain.facts key).2.2 other).1⟩
  · intro key item hcurrent
    obtain ⟨hmem, hnone, hnewer⟩ := h.current key item hcurrent
    exact ⟨List.mem_append_left _ hmem, fun hlookup => (hitems key).symm ▸ hnone hlookup, hnewer⟩
  · exact h.progress.append fun key item => ((plain.facts key).2.2 item).1
  · intro key item hlast
    change (queuedItems key (handler.log ++ [entry])).getLast? = some item at hlast
    rw [hitems] at hlast
    rcases h.settled key item hlast with hpending | hcurrent | hsettled
    · exact .inl hpending
    · exact .inr (.inl hcurrent)
    · exact .inr (.inr (hsettled.concat (plain.facts key).2.1))

/-- The publisher goes on with its state. -/
theorem Inv.goOn (h : Inv settings discovery handler publisher) {next : Publisher β γ}
    (current : next.current = publisher.current)
    (progress : Progress settings discovery handler.log next) :
    Inv settings discovery (handler.goTo next) next :=
  ⟨h.allowed, h.created, h.complete, h.announced, h.pending,
    fun key item hcurrent => h.current key item (current ▸ hcurrent), progress,
    fun key item hlast => current.symm ▸ h.settled key item hlast⟩

/-- The publisher has done with its state. -/
theorem Inv.finish (h : Inv settings discovery handler publisher) {next : Publisher β γ}
    (idle : next.current = none)
    (settled : ∀ key item, publisher.current = some (key, item) →
      (queuedItems key handler.log).getLast? = some item →
      handler.pending.lookup key = some item ∨ Settled key item handler.log) :
    Inv settings discovery (handler.goTo next) next := by
  refine ⟨h.allowed, h.created, h.complete, h.announced, h.pending, ?_, ?_, ?_⟩
  · simp [idle]
  · cases next <;> simp_all [Publisher.current, Progress]
  · intro key item hlast
    rcases h.settled key item hlast with hpending | hcurrent | hsettled
    · exact .inl hpending
    · exact (settled key item hcurrent hlast).imp_right .inr
    · exact .inr (.inr hsettled)

/-- A popped state is the last one of its key and ready. -/
theorem Inv.take (h : Inv settings discovery handler publisher) (idle : publisher.current = none)
    {key : Key} {item : Item β} (hlookup : handler.pending.lookup key = some item) (registry : δ) :
    ∃ next, (handler.take settings (discovery registry) key item).connection = .connected next ∧
      next ≠ .waiting ∧
      Inv settings discovery (handler.take settings (discovery registry) key item) next := by
  obtain ⟨hlast, hready⟩ := h.pending key item hlookup
  have hqueued : .queued key item ∈ handler.log := queued_mem.mp (List.mem_of_getLast? hlast)
  have htake : ∀ next : Publisher β γ, next.current = some (key, item) →
      Progress settings discovery handler.log next →
      Inv settings discovery { handler with pending := handler.pending.erase key } next := by
    intro next hnext hprogress
    refine ⟨h.allowed, h.created, h.complete, h.announced, ?_, ?_, hprogress, ?_⟩
    · intro key' other hother
      rw [Dict.lookup_erase] at hother
      split at hother
      · simp at hother
      · exact h.pending key' other hother
    · intro key' other hcurrent
      obtain ⟨rfl, rfl⟩ : key = key' ∧ item = other := by simpa [hnext] using hcurrent
      exact ⟨hqueued, fun _ => hlast, fun newer hnewer => by simp at hnewer⟩
    · intro key' other hlast'
      dsimp only
      rw [Dict.lookup_erase]
      by_cases heq : key' = key
      · subst heq
        obtain rfl := Option.some.inj (hlast.symm.trans hlast')
        exact .inr (.inl hnext)
      · rw [if_neg heq]
        rcases h.settled key' other hlast' with hpending | hcurrent | hsettled
        · exact .inl hpending
        · simp [idle] at hcurrent
        · exact .inr (.inr hsettled)
  unfold MqttHandler.take
  dsimp only
  split
  · split
    · next configs hok =>
      have hannounce := htake (.announcing key item configs) rfl
        ⟨hready, fun _ => ⟨registry, configs, hok, fun _ hc => .inr hc⟩⟩
      exact ⟨_, rfl, by simp, hannounce.goOn rfl hannounce.progress⟩
    · -- without the configs of its entities the state is not published
      have hpublish := htake (.publishing key item) rfl fun other hmem => by
        obtain ⟨before, after, hsplit⟩ := List.append_of_mem hmem
        exact (hready before _ after hsplit other rfl).imp_right And.left
      refine ⟨_, rfl, by simp, (hpublish.record (.failed key item) trivial).finish rfl ?_⟩
      intro key' other hcurrent _
      obtain ⟨rfl, rfl⟩ : key = key' ∧ item = other := by simpa [Publisher.current] using hcurrent
      exact .inr (.inr (.inr (by simp [MqttHandler.record])))
  · next hdiscovery =>
    have hannounce := htake (.announcing key item []) rfl
      ⟨hready, fun hd => absurd hd hdiscovery⟩
    exact ⟨_, rfl, by simp, hannounce.goOn rfl hannounce.progress⟩

/-- The state of the publisher is settled by an entry or pending again. -/
theorem Inv.refused (h : Inv settings discovery handler publisher) {key : Key} {item : Item β}
    (current : publisher.current = some (key, item)) :
    ∃ next, (handler.refused key item).connection = .connected next ∧ next ≠ .waiting ∧
      Inv settings discovery (handler.refused key item) next := by
  obtain ⟨-, hnone, -⟩ := h.current key item current
  -- every call before the refusal was with an earlier state, or with this one
  have hcalled : ∀ other, .publish key other ∈ handler.log →
      other.serial < item.serial ∨ other = item := by
    intro other hmem
    have hprogress := h.progress
    have hof : Ready key item handler.log → other.serial < item.serial ∨ other = item := by
      intro hready
      obtain ⟨before, after, hsplit⟩ := List.append_of_mem hmem
      exact (hready before _ after hsplit other rfl).imp_right And.left
    cases publisher with
    | waiting | looping | delaying => simp [Publisher.current] at current
    | announcing key' item' configs =>
      obtain ⟨rfl, rfl⟩ : key' = key ∧ item' = item := by simpa [Publisher.current] using current
      exact hof hprogress.1
    | configuring key' item' topic config configs =>
      obtain ⟨rfl, rfl⟩ : key' = key ∧ item' = item := by simpa [Publisher.current] using current
      exact hof hprogress.1
    | publishing key' item' =>
      obtain ⟨rfl, rfl⟩ : key' = key ∧ item' = item := by simpa [Publisher.current] using current
      exact hprogress other hmem
  have hrecord := h.record (.refused key item) trivial
  have hitems : ∀ key', queuedItems key' (handler.log ++ [.refused key item]) =
      queuedItems key' handler.log := by
    intro key'
    rw [queuedItems_concat]
    simp [Entry.queuedFor]
  unfold MqttHandler.refused
  dsimp only
  split
  · refine ⟨_, rfl, by simp, ?_⟩
    -- the state is pending again unless a newer one is
    have hpending : ∀ key' : Key, (if key ∈ handler.pending then handler.pending
        else handler.pending.set key item).lookup key' =
        if key' = key ∧ handler.pending.lookup key = none then some item
        else handler.pending.lookup key' := by
      intro key'
      by_cases hmem : key ∈ handler.pending
      · have hsome := AList.lookup_isSome.mpr hmem
        rw [if_pos hmem, if_neg fun hand => by simp [hand.2] at hsome]
      · have hnone' := AList.lookup_eq_none.mpr hmem
        rw [if_neg hmem, Dict.lookup_set]
        simp [hnone']
    refine ⟨hrecord.allowed, hrecord.created, hrecord.complete, hrecord.announced, ?_, by
      simp [Publisher.current], trivial, ?_⟩
    · intro key' other hlookup
      change (if key ∈ handler.pending then handler.pending
        else handler.pending.set key item).lookup key' = some other at hlookup
      rw [hpending] at hlookup
      split at hlookup
      · next hback =>
        obtain rfl := Option.some.inj hlookup
        obtain ⟨rfl, hmissing⟩ := hback
        exact ⟨(hitems key').symm ▸ hnone hmissing, ready_refused hcalled⟩
      · exact hrecord.pending key' other hlookup
    · intro key' other hlast
      change (if key ∈ handler.pending then handler.pending
        else handler.pending.set key item).lookup key' = some other ∨ _
      rw [hpending]
      rcases hrecord.settled key' other hlast with hlookup | hcurrent | hsettled
      · have hlookup : handler.pending.lookup key' = some other := hlookup
        have hnot : ¬ (key' = key ∧ handler.pending.lookup key = none) := by
          rintro ⟨rfl, hmissing⟩
          exact absurd (hlookup.symm.trans hmissing) (by simp)
        rw [if_neg hnot]
        exact .inl hlookup
      · obtain ⟨rfl, rfl⟩ : key = key' ∧ item = other := by simpa [current] using hcurrent
        left
        cases hnewer : handler.pending.lookup key with
        | none => simp
        | some newer =>
          change (queuedItems key (handler.log ++ [.refused key item])).getLast? = some item at hlast
          rw [hitems] at hlast
          simpa using (h.pending key newer hnewer).1.symm.trans hlast
      · exact .inr (.inr hsettled)
  · refine ⟨_, rfl, by simp, ?_⟩
    have hrecord' : Inv settings discovery { handler.record (.refused key item) with
        publishFailures := handler.publishFailures.erase key } publisher :=
      ⟨hrecord.allowed, hrecord.created, hrecord.complete, hrecord.announced, hrecord.pending,
        hrecord.current, hrecord.progress, hrecord.settled⟩
    refine (hrecord'.record (.dropped key item) trivial).finish rfl ?_
    intro key' other hcurrent _
    obtain ⟨rfl, rfl⟩ : key = key' ∧ item = other := by simpa [current] using hcurrent
    exact .inr (.inr (.inl (by simp [MqttHandler.record])))

/-- The call of the client with a ready state. -/
theorem Inv.publish {key : Key} {item : Item β}
    (h : Inv settings discovery handler (.announcing key item [])) :
    Inv settings discovery ((handler.record (.publish key item)).goTo (.publishing key item))
      (.publishing key item) := by
  obtain ⟨hqueued, hnone, hnewer⟩ := h.current key item rfl
  obtain ⟨hready, hconfigs⟩ := h.progress
  have hannounced : settings.haDiscovery = true → Announced discovery key item handler.log := by
    intro hdiscovery
    obtain ⟨registry, all, hall, hmem⟩ := hconfigs hdiscovery
    exact ⟨registry, all, hall, fun c hc => by simpa using hmem c hc⟩
  have hitems : ∀ key', queuedItems key' (handler.log ++ [.publish key item]) =
      queuedItems key' handler.log := by
    intro key'
    rw [queuedItems_concat]
    simp [Entry.queuedFor]
  refine ⟨?_, ?_, h.complete.append _, ?_, ?_, ?_, ?_, ?_⟩
  · exact Trace.before_concat.mpr ⟨h.allowed, hqueued, h.complete, hannounced, hready⟩
  · intro key' other hmem
    exact h.created key' other (queued_mem.mp (hitems key' ▸ queued_mem.mpr hmem))
  · exact fun topic config hlookup => List.mem_append_left _ (h.announced topic config hlookup)
  · intro key' other hlookup
    obtain ⟨hlast, hready'⟩ := h.pending key' other hlookup
    refine ⟨(hitems key').symm ▸ hlast, hready'.concat fun called heq => ?_⟩
    obtain ⟨rfl, rfl⟩ : key = key' ∧ item = called := by simpa using heq
    exact hnewer other hlookup
  · intro key' other hcurrent
    obtain ⟨rfl, rfl⟩ : key = key' ∧ item = other := by simpa [Publisher.current] using hcurrent
    exact ⟨List.mem_append_left _ hqueued, fun hlookup => (hitems key).symm ▸ hnone hlookup, hnewer⟩
  · intro other hmem
    rcases List.mem_append.mp hmem with hold | hnew
    · obtain ⟨before, after, hsplit⟩ := List.append_of_mem hold
      exact (hready before _ after hsplit other rfl).imp_right And.left
    · exact .inr (by simpa using hnew)
  · intro key' other hlast
    change (queuedItems key' (handler.log ++ [.publish key item])).getLast? = some other at hlast
    rw [hitems] at hlast
    rcases h.settled key' other hlast with hpending | hcurrent | hsettled
    · exact .inl hpending
    · exact .inr (.inl hcurrent)
    · exact .inr (.inr (hsettled.concat rfl))

/-- The last state of the key is published, or a newer one is pending. -/
theorem Inv.published {key : Key} {item : Item β}
    (h : Inv settings discovery handler (.publishing key item)) :
    Inv settings discovery (({ handler with
      publishFailures := handler.publishFailures.erase key }.record (.published key item)).goTo
      .looping) .looping := by
  obtain ⟨-, hnone, -⟩ := h.current key item rfl
  have hitems : ∀ key', queuedItems key' (handler.log ++ [.published key item]) =
      queuedItems key' handler.log := by
    intro key'
    rw [queuedItems_concat]
    simp [Entry.queuedFor]
  refine ⟨Trace.before_concat.mpr ⟨h.allowed, trivial⟩, ?_, h.complete.append _, ?_, ?_, ?_,
    trivial, ?_⟩
  · intro key' other hmem
    exact h.created key' other (queued_mem.mp (hitems key' ▸ queued_mem.mpr hmem))
  · exact fun topic config hlookup => List.mem_append_left _ (h.announced topic config hlookup)
  · intro key' other hlookup
    obtain ⟨hlast, hready⟩ := h.pending key' other hlookup
    exact ⟨(hitems key').symm ▸ hlast, hready.concat fun _ heq => by simp at heq⟩
  · simp [Publisher.current]
  · intro key' other hlast
    change (queuedItems key' (handler.log ++ [.published key item])).getLast? = some other at hlast
    rw [hitems] at hlast
    change handler.pending.lookup key' = some other ∨ _ ∨ _
    by_cases heq : key' = key
    · subst heq
      cases hnewer : handler.pending.lookup key' with
      | some newer =>
        have hsame := (h.pending key' newer hnewer).1.symm.trans hlast
        exact .inl hsame
      | none =>
        obtain rfl := Option.some.inj ((hnone hnewer).symm.trans hlast)
        refine .inr (.inr (.inl ?_))
        simp [MqttHandler.record, MqttHandler.goTo, Entry.publishedFor]
    · rcases h.settled key' other hlast with hpending | hcurrent | hsettled
      · exact .inl hpending
      · obtain ⟨rfl, -⟩ : key = key' ∧ item = other := by simpa [Publisher.current] using hcurrent
        exact absurd rfl heq
      · exact .inr (.inr (hsettled.concat (by simp [Entry.publishedFor, Ne.symm heq])))

/-- The wake-up of a waiting publisher is not missed. -/
def Awake (handler : MqttHandler β γ) (publisher : Publisher β γ) : Prop :=
  publisher = .waiting → handler.pending.items ≠ [] → handler.wakeup = true

theorem queueStates_keeps (settings : MqttSettings)
    (discovery : δ → Key → FullState β → Except Unit (List (String × γ)))
    (states : List (FullState β)) (handler : MqttHandler β γ) :
    (states.foldl (MqttHandler.queueState settings) handler).connection = handler.connection ∧
      ∀ publisher, Inv settings discovery handler publisher →
        Inv settings discovery (states.foldl (MqttHandler.queueState settings) handler)
          publisher := by
  induction states generalizing handler with
  | nil => exact ⟨rfl, fun _ h => h⟩
  | cons state states ih =>
    obtain ⟨hconnection, hinv⟩ := ih (handler.queueState settings state)
    have hsame : (handler.queueState settings state).connection = handler.connection := by
      unfold MqttHandler.queueState
      dsimp only
      split
      · split <;> rfl
      · rfl
    exact ⟨hconnection.trans hsame, fun publisher h => hinv publisher (h.queueState state)⟩

/-- Queued states keep the invariant, and wake the publisher up. -/
theorem queue_keeps (settings : MqttSettings)
    (discovery : δ → Key → FullState β → Except Unit (List (String × γ)))
    (states : List (FullState β)) (handler : MqttHandler β γ) :
    (handler.queue settings states).connection = handler.connection ∧
      (∀ publisher, Inv settings discovery handler publisher →
        Inv settings discovery (handler.queue settings states) publisher) ∧
      ∀ publisher, Awake (handler.queue settings states) publisher := by
  obtain ⟨hconnection, hinv⟩ :=
    queueStates_keeps settings discovery states handler
  refine ⟨hconnection, fun publisher h => ?_, fun publisher _ hpending => ?_⟩
  · have h := hinv publisher h
    exact ⟨h.allowed, h.created, h.complete, h.announced, h.pending, h.current, h.progress,
      h.settled⟩
  · have hpending : (states.foldl (MqttHandler.queueState settings) handler).pending.items ≠ [] :=
      hpending
    simp [MqttHandler.queue, hpending]

/-- What the queued states add to the log. -/
theorem queueStates_log (settings : MqttSettings) (states : List (FullState β))
    (handler : MqttHandler β γ) :
    ∃ entries, (states.foldl (MqttHandler.queueState settings) handler).log =
        handler.log ++ entries ∧
      (∀ entry ∈ entries, ∃ key item, entry = .queued key item) ∧
      ∀ state ∈ states, devtypeOf state.dev ∈ settings.deviceMask →
        ∀ circuit, state.circuit = some circuit →
        ∃ item : Item β, item.state = state ∧
          .queued (devtypeOf state.dev, circuit) item ∈ entries := by
  induction states generalizing handler with
  | nil => exact ⟨[], by simp⟩
  | cons state states ih =>
    obtain ⟨entries, hlog, hqueued, hall⟩ := ih (handler.queueState settings state)
    by_cases hmask : devtypeOf state.dev ∈ settings.deviceMask
    · cases hcircuit : state.circuit with
      | none =>
        refine ⟨entries, ?_, hqueued, ?_⟩
        · rw [List.foldl_cons, hlog]
          simp [MqttHandler.queueState, hcircuit]
        · intro other hmem hmask' circuit hother
          rcases List.mem_cons.mp hmem with rfl | hmem
          · simp [hcircuit] at hother
          · exact hall other hmem hmask' circuit hother
      | some circuit =>
        let item : Item β := { serial := handler.created, state := state }
        refine ⟨.queued (devtypeOf state.dev, circuit) item :: entries, ?_, ?_, ?_⟩
        · rw [List.foldl_cons, hlog]
          simp [MqttHandler.queueState, hcircuit, hmask, item]
        · intro entry hentry
          rcases List.mem_cons.mp hentry with rfl | hentry
          · exact ⟨_, _, rfl⟩
          · exact hqueued entry hentry
        · intro other hmem hmask' circuit' hother
          rcases List.mem_cons.mp hmem with rfl | hmem
          · obtain rfl := Option.some.inj (hcircuit.symm.trans hother)
            exact ⟨item, rfl, List.mem_cons_self⟩
          · obtain ⟨item', hstate, hitem⟩ := hall other hmem hmask' circuit' hother
            exact ⟨item', hstate, List.mem_cons_of_mem _ hitem⟩
    · refine ⟨entries, ?_, hqueued, ?_⟩
      · rw [List.foldl_cons, hlog]
        unfold MqttHandler.queueState
        dsimp only
        cases state.circuit <;> simp [hmask]
      · intro other hmem hmask'
        rcases List.mem_cons.mp hmem with rfl | hmem
        · exact absurd hmask' hmask
        · exact hall other hmem hmask'

/-- The queue does not use the devices of the start. -/
theorem queueStates_devices (states : List (FullState β)) (handler : MqttHandler β γ)
    (devices : List (Registered β)) :
    states.foldl (MqttHandler.queueState settings) { handler with devices := devices } =
      { states.foldl (MqttHandler.queueState settings) handler with devices := devices } := by
  induction states generalizing handler with
  | nil => rfl
  | cons state states ih =>
    have hstate : ({ handler with devices := devices } : MqttHandler β γ).queueState settings state =
        { handler.queueState settings state with devices := devices } := by
      unfold MqttHandler.queueState
      dsimp only
      split
      · split <;> rfl
      · rfl
    rw [List.foldl_cons, hstate, ih, List.foldl_cons]

/-- The start of the publisher. -/
theorem inv_start (handler : MqttHandler β γ) (devices : List (Registered β)) :
    Inv settings discovery (handler.start settings devices) .waiting ∧
      Awake (handler.start settings devices) .waiting := by
  let cleared : MqttHandler β γ := { handler with
    pending := ∅
    announced := ∅
    publishFailures := ∅
    devices := devices
    log := [] }
  let states := (devices.filter (·.devtype ∈ settings.deviceMask)).map Registered.state
  let queued := states.foldl (MqttHandler.queueState settings) cleared
  -- nothing has happened before the states are queued
  have hempty : Inv settings discovery { cleared with devices := [] } .waiting :=
    ⟨Trace.before_nil _, by simp [cleared], by simp [Complete], by simp [cleared],
      by simp [cleared], by simp [Publisher.current], trivial,
      by simp [cleared, queuedItems]⟩
  have hinv := (queueStates_keeps settings discovery states _).2 _ hempty
  rw [queueStates_devices] at hinv
  have hdevices : queued = { queued with devices := devices } :=
    queueStates_devices states cleared devices
  obtain ⟨entries, hlog, honly, hall⟩ := queueStates_log settings states cleared
  have hcomplete : Complete settings devices queued.log := by
    intro device hdevice hmask circuit hcircuit
    have hstate : device.state ∈ states := by
      refine List.mem_map_of_mem (List.mem_filter.mpr ⟨hdevice, ?_⟩)
      simpa using hmask
    obtain ⟨item, hitem, hmem⟩ :=
      hall device.state hstate (device.dev.symm ▸ hmask) circuit hcircuit
    refine ⟨item, hitem, ?_⟩
    change _ ∈ (states.foldl (MqttHandler.queueState settings) cleared).log
    rw [hlog, ← device.dev]
    exact List.mem_append_right _ hmem
  have hallowed : Trace.Before (Entry.Allowed settings discovery devices) queued.log := by
    intro before entry after hsplit
    have hentry : entry ∈ entries := by
      have hmem : entry ∈ queued.log := by simp [hsplit]
      change entry ∈ (states.foldl (MqttHandler.queueState settings) cleared).log at hmem
      rw [hlog] at hmem
      simpa [cleared] using hmem
    obtain ⟨key, item, rfl⟩ := honly entry hentry
    exact hinv.allowed before _ after hsplit
  constructor
  · have hqueued : queued.devices = devices := by rw [hdevices]
    refine ⟨?_, hinv.created, ?_, hinv.announced, hinv.pending, hinv.current, trivial, hinv.settled⟩
    · exact hqueued.symm ▸ hallowed
    · exact hqueued.symm ▸ hcomplete
  · intro _ hpending
    exact (queue_keeps settings discovery states cleared).2.2
      .waiting rfl hpending

/-- The steps keep the invariant of a connection. -/
theorem Step.keeps {handler handler' : MqttHandler β γ}
    (h : ∀ publisher, handler.connection = .connected publisher →
      Inv settings discovery handler publisher ∧ Awake handler publisher)
    (hstep : Step settings discovery handler handler') :
    ∀ publisher, handler'.connection = .connected publisher →
      Inv settings discovery handler' publisher ∧ Awake handler' publisher := by
  -- a place other than the wait is not asked for the wake-up
  have hawake : ∀ {handler : MqttHandler β γ} {publisher : Publisher β γ}, publisher ≠ .waiting →
      Awake handler publisher := fun hne heq => absurd heq hne
  intro publisher' hconnected
  cases hstep with
  | event states =>
    obtain ⟨hsame, hinv, hawake⟩ :=
      queue_keeps settings discovery states handler
    exact ⟨hinv _ (h _ (hsame ▸ hconnected)).1, hawake _⟩
  | connect => simp at hconnected
  | lose => simp at hconnected
  | start connecting devices =>
    obtain rfl : .waiting = publisher' := by simpa [MqttHandler.start] using hconnected
    exact inv_start handler devices
  | wake waiting wakeup =>
    obtain rfl : .looping = publisher' := by simpa [MqttHandler.goTo] using hconnected
    have hinv := (h _ waiting).1
    have hwoken : Inv settings discovery { handler with wakeup := false } .waiting :=
      ⟨hinv.allowed, hinv.created, hinv.complete, hinv.announced, hinv.pending, hinv.current,
        hinv.progress, hinv.settled⟩
    exact ⟨hwoken.goOn rfl trivial, hawake (by simp)⟩
  | wait looping empty =>
    obtain rfl : .waiting = publisher' := by simpa [MqttHandler.goTo] using hconnected
    exact ⟨(h _ looping).1.goOn rfl trivial, fun _ hpending => absurd empty hpending⟩
  | @take key item rest looping first registry =>
    have hlookup : handler.pending.lookup key = some item :=
      Dict.mem_items.mp (first ▸ List.mem_cons_self)
    obtain ⟨next, hnext, hne, hinv⟩ := (h _ looping).1.take rfl hlookup registry
    obtain rfl : next = publisher' := by simpa [hnext] using hconnected
    exact ⟨hinv, hawake hne⟩
  | @known key item topic config configs announcing same =>
    obtain rfl : .announcing key item configs = publisher' := by
      simpa [MqttHandler.goTo] using hconnected
    have hinv := (h _ announcing).1
    refine ⟨hinv.goOn rfl ⟨hinv.progress.1, fun hdiscovery => ?_⟩, hawake (by simp)⟩
    obtain ⟨registry, all, hall, hmem⟩ := hinv.progress.2 hdiscovery
    refine ⟨registry, all, hall, fun c hc => ?_⟩
    rcases hmem c hc with hold | hconfig
    · exact .inl hold
    · rcases List.mem_cons.mp hconfig with rfl | hrest
      · exact .inl (hinv.announced _ _ same)
      · exact .inr hrest
  | @config key item topic config configs announcing _ =>
    obtain rfl : .configuring key item topic config configs = publisher' := by
      simpa [MqttHandler.goTo] using hconnected
    have hinv := (h _ announcing).1
    exact ⟨hinv.goOn rfl hinv.progress, hawake (by simp)⟩
  | @announced key item topic config configs configuring =>
    obtain rfl : .announcing key item configs = publisher' := by
      simpa [MqttHandler.goTo] using hconnected
    have hinv := (h _ configuring).1.record (.config topic config) trivial
    have hset : Inv settings discovery ({ handler with
        announced := handler.announced.set topic config }.record (.config topic config))
        (.configuring key item topic config configs) := by
      refine ⟨hinv.allowed, hinv.created, hinv.complete, fun topic' config' hlookup => ?_,
        hinv.pending, hinv.current, hinv.progress, hinv.settled⟩
      change (handler.announced.set topic config).lookup topic' = some config' at hlookup
      rw [Dict.lookup_set] at hlookup
      split at hlookup
      · next heq =>
        obtain rfl := Option.some.inj hlookup
        simp [MqttHandler.record, heq]
      · exact hinv.announced topic' config' hlookup
    refine ⟨hset.goOn rfl ⟨hset.progress.1, fun hdiscovery => ?_⟩, hawake (by simp)⟩
    obtain ⟨registry, all, hall, hmem⟩ := hset.progress.2 hdiscovery
    refine ⟨registry, all, hall, fun c hc => ?_⟩
    rcases hmem c hc with hold | hconfig
    · exact .inl hold
    · rcases List.mem_cons.mp hconfig with rfl | hrest
      · exact .inl (by simp [MqttHandler.record])
      · exact .inr hrest
  | @publish key item announcing =>
    obtain rfl : .publishing key item = publisher' := by
      simpa [MqttHandler.goTo] using hconnected
    exact ⟨(h _ announcing).1.publish, hawake (by simp)⟩
  | published publishing =>
    obtain rfl : .looping = publisher' := by simpa [MqttHandler.goTo] using hconnected
    exact ⟨(h _ publishing).1.published, hawake (by simp)⟩
  | @refused key item publisher connected awaited =>
    have hcurrent : publisher.current = some (key, item) := by
      cases publisher <;> simp_all [Publisher.awaited, Publisher.current]
    obtain ⟨next, hnext, hne, hinv⟩ := (h _ connected).1.refused hcurrent
    obtain rfl : next = publisher' := by simpa [hnext] using hconnected
    exact ⟨hinv, hawake hne⟩
  | @failed key item publisher connected awaited =>
    have hcurrent : publisher.current = some (key, item) := by
      cases publisher <;> simp_all [Publisher.awaited, Publisher.current]
    obtain rfl : .looping = publisher' := by simpa [MqttHandler.goTo] using hconnected
    refine ⟨((h _ connected).1.record (.failed key item) trivial).finish rfl ?_,
      hawake (by simp)⟩
    intro key' other hother _
    obtain ⟨rfl, rfl⟩ : key = key' ∧ item = other := by simpa [hcurrent] using hother
    exact .inr (.inr (.inr (by simp [MqttHandler.record])))
  | retry delaying =>
    obtain rfl : .looping = publisher' := by simpa [MqttHandler.goTo] using hconnected
    exact ⟨(h _ delaying).1.goOn rfl trivial, hawake (by simp)⟩

/-! ## The delivery -/

/-- The states published in a connection. -/
structure Delivers [DecidableEq β] (settings : MqttSettings)
    (discovery : δ → Key → FullState β → Except Unit (List (String × γ)))
    (handler : MqttHandler β γ) (publisher : Publisher β γ) : Prop where
  /-- The published states of a key, without the repeated ones, are a subsequence of the queued. -/
  order : ∀ key, (handler.log.filterMap (Entry.publishFor key)).dedup.Sublist
    (queuedItems key handler.log)
  /-- A state is published again only after its refusal. -/
  again : ∀ key item before between after,
    handler.log = before ++ .publish key item :: (between ++ .publish key item :: after) →
    .refused key item ∈ between
  /-- The states of all devices of the mask are queued before the first publish. -/
  complete : ∀ key item before after, handler.log = before ++ .publish key item :: after →
    Complete settings handler.devices before
  /-- The configs of the entities are published before the state. -/
  announced : settings.haDiscovery = true → ∀ key item before after,
    handler.log = before ++ .publish key item :: after → Announced discovery key item before
  /-- Without a pending state and a publish, the last queued state of each key is the last published
  one, or it was dropped or failed. -/
  last : handler.pending.items = [] → publisher.current = none → ∀ key item,
    (queuedItems key handler.log).getLast? = some item → Settled key item handler.log
  /-- A pending state wakes the publisher up. -/
  awake : Awake handler publisher

/-- Every connection of a run delivers the states. -/
theorem delivers [DecidableEq β] (hreach : Reachable settings discovery handler)
    (connected : handler.connection = .connected publisher) :
    Delivers settings discovery handler publisher := by
  have hkeeps : ∀ publisher, handler.connection = .connected publisher →
      Inv settings discovery handler publisher ∧ Awake handler publisher := by
    clear connected
    induction hreach with
    | refl => simp
    | tail _ hstep ih => exact hstep.keeps ih
  obtain ⟨hinv, hawake⟩ := hkeeps publisher connected
  have hpublished : ∀ {key : Key} {item : Item β} {log : List (Entry β γ)},
      item ∈ log.filterMap (Entry.publishFor key) → .publish key item ∈ log := by
    intro key item log hmem
    obtain ⟨entry, hentry, hitem⟩ := List.mem_filterMap.mp hmem
    cases entry with
    | publish key' item' =>
      obtain ⟨rfl, rfl⟩ : key' = key ∧ item' = item := by simpa [Entry.publishFor] using hitem
      exact hentry
    | _ => simp [Entry.publishFor] at hitem
  refine ⟨fun key => ?_, ?_, ?_, ?_, fun empty idle key item hlast => ?_, hawake⟩
  · refine Trace.dedup_sublist Item.serial ?_ ?_ ?_
    · have hallowed := hinv.allowed
      generalize handler.log = log at hallowed
      induction log using List.reverseRecOn with
      | nil => exact .nil
      | append_singleton log entry ih =>
        obtain ⟨hlog, hentry⟩ := Trace.before_concat.mp hallowed
        rw [List.filterMap_append]
        refine List.pairwise_append.mpr ⟨ih hlog, ?_, ?_⟩
        · cases h : entry.publishFor key <;> simp [h]
        · intro earlier hearlier item hitem
          obtain rfl : .publish key item = entry := List.mem_singleton.mp (hpublished hitem)
          obtain ⟨before, after, hsplit⟩ := List.append_of_mem (hpublished hearlier)
          exact (hentry.2.2.2 before _ after hsplit earlier rfl).imp_right And.left
    · have hallowed := hinv.allowed
      generalize handler.log = log at hallowed
      induction log using List.reverseRecOn with
      | nil => exact .nil
      | append_singleton log entry ih =>
        obtain ⟨hlog, hentry⟩ := Trace.before_concat.mp hallowed
        rw [queuedItems_concat]
        refine List.pairwise_append.mpr ⟨ih hlog, ?_, ?_⟩
        · cases h : entry.queuedFor key <;> simp
        · intro earlier hearlier item hitem
          obtain rfl : entry = .queued key item := by
            cases entry with
            | queued key' item' =>
              obtain ⟨rfl, rfl⟩ : key' = key ∧ item' = item := by
                simpa [Entry.queuedFor] using hitem
              rfl
            | _ => simp [Entry.queuedFor] at hitem
          exact hentry earlier hearlier
    · exact fun item hitem => queued_mem.mpr (hinv.publish_queued (hpublished hitem))
  · intro key item before between after hsplit
    have hready := (hinv.allowed (before ++ .publish key item :: between) (.publish key item) after
      (by rw [hsplit, List.append_assoc, List.cons_append])).2.2.2
    rcases hready before _ between rfl item rfl with hlt | ⟨-, hmem⟩
    · exact absurd hlt (Nat.lt_irrefl _)
    · exact hmem
  · exact fun key item before after hsplit => (hinv.allowed before _ after hsplit).2.1
  · exact fun hdiscovery key item before after hsplit =>
      (hinv.allowed before _ after hsplit).2.2.1 hdiscovery
  · rcases hinv.settled key item hlast with hpending | hcurrent | hsettled
    · have hmem := Dict.mem_items.mpr hpending
      simp [empty] at hmem
    · simp [idle] at hcurrent
    · exact hsettled

/-- A relay with its config. -/
def relay : Registered Bool where
  devtype := "ro"
  state := { dev := "ro", circuit := some "1_01", body := false }
  dev := by decide

/-- The first publish of the relay is refused, it is switched on meanwhile. -/
theorem delivers_relay :
    ∃ handler : MqttHandler Bool String,
      (handler.connection = .connected .waiting ∧ handler.pending.items = [] ∧
        handler.log.filterMap (Entry.publishedFor ("ro", "1_01")) =
          [⟨1, { relay.state with body := true }⟩]) ∧
      Delivers { deviceMask := ["ro"], haDiscovery := true }
        (fun () _ _ => .ok [("homeassistant/switch/evok/ro_1_01/config", "switch")]) handler
        .waiting := by
  let settings : MqttSettings := { deviceMask := ["ro"], haDiscovery := true }
  let discovery : Unit → Key → FullState Bool → Except Unit (List (String × String)) :=
    fun () _ _ => .ok [("homeassistant/switch/evok/ro_1_01/config", "switch")]
  let on : FullState Bool := { relay.state with body := true }
  have hreach : Relation.ReflTransGen (Step settings discovery) {} _ :=
    .head (.connect rfl) <| .head (.start rfl [relay]) <| .head (.wake rfl rfl) <|
    .head (.take rfl (show _ = [(("ro", "1_01"), ⟨0, relay.state⟩)] from rfl) ()) <|
    .head (.config rfl (by decide +kernel)) <| .head (.announced rfl) <|
    .head (.publish rfl) <| .head (.event [on]) <| .head (.refused rfl rfl) <|
    .head (.retry rfl) <|
    .head (.take rfl (show _ = [(("ro", "1_01"), ⟨1, on⟩)] from rfl) ()) <|
    .head (.known rfl rfl) <| .head (.publish rfl) <| .head (.published rfl) <|
    .single (.wait rfl rfl)
  exact ⟨_, ⟨rfl, by decide +kernel, by decide +kernel⟩, delivers hreach rfl⟩

end Mqtt

end Evok
