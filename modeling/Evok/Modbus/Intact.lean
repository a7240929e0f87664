import Evok.Modbus.Schedule

/-!
# The registers of the cache

`update` checks the written registers against the block, but the loop over the pins indexes the
values without a check, and an index below zero counts from the end of the list. The pins are always
pins of the registers of their block, so every index is in the list.

## Main definitions

* `setItem`: an assignment to an element of a list.
* `RegisterGroup.updateItems`: `update` with its indices.
* `RegisterGroup.Pinned`: the pins of a block.
* `CacheEvent.Sets`: the registers written by an operation.

## Main results

* `RegisterGroup.updateItems_eq`: no index is out of the list.
* `CacheRun.pinned`: the pins after any run.
* `CacheRun.filled`: the values after the first successful scan.
* `cache_intact`: the blocks after any run.
-/

namespace Evok

namespace Modbus

/-- `values[index] = value`: an index below zero counts from the end, `none` is an `IndexError`. -/
def setItem {α : Type} (values : List α) (index : ℤ) (value : α) : Option (List α) :=
  if 0 ≤ index ∧ index < values.length then some (values.set index.toNat value)
  else if index < 0 ∧ 0 ≤ index + values.length then
    some (values.set (index + values.length).toNat value)
  else none

theorem setItem_sub {α : Type} {values : List α} {a start : ℕ} (le : start ≤ a)
    (lt : a < start + values.length) (value : α) :
    setItem values ((a : ℤ) - start) value = some (values.set (a - start) value) := by
  have hindex : ((a : ℤ) - start).toNat = a - start := by omega
  rw [setItem, if_pos (by omega), hindex]

namespace RegisterGroup

variable {g : RegisterGroup}

/-- The loop of `update` over the values. -/
def storeItems (g : RegisterGroup) (start : ℕ) :
    List Word → List (Option Word) → Option (List (Option Word))
  | [], cached => some cached
  | value :: values, cached =>
    if g.isMember start then
      (setItem cached ((start : ℤ) - g.address) (some value)).bind
        (g.storeItems (start + 1) values)
    else g.storeItems (start + 1) values cached

/-- The loop of `update` over the pins, in the order of their dictionary. -/
def keepItems (g : RegisterGroup) (now : Time) (start length : ℕ) :
    List (ℕ × Pin) → List (Option Word) → (ℕ → Option Pin) →
      Option (List (Option Word) × (ℕ → Option Pin))
  | [], cached, pins => some (cached, pins)
  | (pinned, pin) :: items, cached, pins =>
    if now < pin.keptUntil then
      (setItem cached ((pinned : ℤ) - g.address) (some pin.value)).bind
        (g.keepItems now start length items · pins)
    else if start ≤ pinned ∧ pinned < start + length then
      g.keepItems now start length items cached (Function.update pins pinned none)
    else g.keepItems now start length items cached pins

/-- `update` with the indices of the values; `none` is an `IndexError`. -/
def updateItems (g : RegisterGroup) (now : Time) (start : ℕ) (values : List Word) (read : Bool)
    (items : List (ℕ × Pin)) : Option (List (Option Word) × (ℕ → Option Pin)) :=
  (g.storeItems start values g.values).bind fun cached =>
    if read then g.keepItems now start values.length items cached g.pins
    else some (cached, g.pins)

/-- The pins of a block are pins of its registers. -/
def Pinned (g : RegisterGroup) : Prop :=
  ∀ a, (g.pins a).isSome → g.isMember a

/-- All registers of the block were read. -/
def Filled (g : RegisterGroup) : Prop :=
  ∀ value ∈ g.values, value.isSome

/-- The items of the dictionary of the pins. -/
def Items (g : RegisterGroup) (items : List (ℕ × Pin)) : Prop :=
  ∀ a pin, (a, pin) ∈ items ↔ g.pins a = some pin

/-! ## The indices of an update -/

theorem storeItems_eq (start : ℕ) (values : List Word) {cached : List (Option Word)}
    (length : cached.length = g.count) :
    g.storeItems start values cached =
      some ({ g with values := cached }.store start values).values := by
  induction values generalizing start cached with
  | nil => rfl
  | cons value values ih =>
    simp only [storeItems, store]
    have hmember : { g with values := cached }.isMember start = g.isMember start := rfl
    rw [hmember]
    split
    · next member =>
      rw [isMember_iff] at member
      rw [setItem_sub member.1 (by omega), Option.bind_some]
      exact ih (start + 1) (by simpa using length)
    · exact ih (start + 1) length

/-- One turn of the loop over the pins. -/
theorem keepItems_cons (now : Time) (start length : ℕ) {b : ℕ} (member : g.isMember b) (pin : Pin)
    (items : List (ℕ × Pin)) {cached : List (Option Word)} (hlength : cached.length = g.count)
    (pins : ℕ → Option Pin) :
    ∃ cached' pins', g.keepItems now start length ((b, pin) :: items) cached pins =
        g.keepItems now start length items cached' pins' ∧
      cached'.length = g.count ∧
      (∀ a, g.isMember a → cached'[a - g.address]? =
        if a = b ∧ now < pin.keptUntil then some (some pin.value) else cached[a - g.address]?) ∧
      ∀ a, pins' a = if a = b ∧ ¬now < pin.keptUntil ∧ start ≤ a ∧ a < start + length then none
        else pins a := by
  rw [isMember_iff] at member
  simp only [keepItems]
  by_cases hkept : now < pin.keptUntil
  · rw [if_pos hkept, setItem_sub member.1 (by omega), Option.bind_some]
    refine ⟨_, pins, rfl, by simpa using hlength, fun a ha => ?_, by simp [hkept]⟩
    rw [isMember_iff] at ha
    by_cases hab : a = b
    · subst hab
      rw [List.getElem?_set_self (by omega), if_pos ⟨rfl, hkept⟩]
    · rw [List.getElem?_set_ne (by omega), if_neg (fun h => hab h.1)]
  · rw [if_neg hkept]
    split
    · next hread =>
      refine ⟨cached, _, rfl, hlength, by simp [hkept], fun a => ?_⟩
      by_cases hab : a = b
      · subst hab
        simp only [Function.update_self, hkept, hread, not_false_iff, and_self, if_true]
      · simp [hab]
    · next hread =>
      refine ⟨cached, pins, rfl, hlength, by simp [hkept], fun a => ?_⟩
      rw [if_neg]
      rintro ⟨rfl, -, hread'⟩
      exact hread hread'

/-- The values and the pins after the loop over some of the pins. -/
theorem keepItems_spec (now : Time) (start length : ℕ) {items : List (ℕ × Pin)}
    {pins : ℕ → Option Pin} {cached : List (Option Word)} (hlength : cached.length = g.count)
    (pinned : g.Pinned) (listed : ∀ a pin, (a, pin) ∈ items → g.pins a = some pin) :
    ∃ cached' pins', g.keepItems now start length items cached pins = some (cached', pins') ∧
      cached'.length = g.count ∧
      (∀ a, g.isMember a → cached'[a - g.address]? =
        ((g.pins a).filter fun pin => (a, pin) ∈ items ∧ now < pin.keptUntil).elim
          cached[a - g.address]? fun pin => some (some pin.value)) ∧
      ∀ a, pins' a = if (g.pins a).any fun pin => (a, pin) ∈ items ∧ ¬now < pin.keptUntil ∧
        start ≤ a ∧ a < start + length then none else pins a := by
  induction items generalizing cached pins with
  | nil => exact ⟨cached, pins, rfl, hlength, by simp, by simp⟩
  | cons item items ih =>
    obtain ⟨b, pin⟩ := item
    have hb : g.pins b = some pin := listed b pin List.mem_cons_self
    have member : g.isMember b := pinned b (by simp [hb])
    obtain ⟨cached₁, pins₁, hcons, hlength₁, hvalues₁, hpins₁⟩ :=
      keepItems_cons now start length member pin items hlength pins
    obtain ⟨cached', pins', hrest, hlength', hvalues, hpins⟩ := @ih pins₁ cached₁ hlength₁
      fun a pin h => listed a pin (List.mem_cons_of_mem _ h)
    refine ⟨cached', pins', hcons.trans hrest, hlength', fun a ha => ?_, fun a => ?_⟩
    · rw [hvalues a ha, hvalues₁ a ha]
      by_cases hab : a = b
      · subst hab
        by_cases hkept : now < pin.keptUntil
        · by_cases hmem : (a, pin) ∈ items <;> simp [hb, hkept, hmem, Option.filter_some]
        · simp [hb, hkept, Option.filter_some]
      · simp [hab]
    · rw [hpins a, hpins₁ a]
      by_cases hab : a = b
      · subst hab
        by_cases hdropped : ¬now < pin.keptUntil ∧ start ≤ a ∧ a < start + length
        · simp [hb, hdropped]
        · simp only [hb, hdropped, Option.any_some, and_false, decide_false, Bool.false_eq_true,
            if_false]
      · simp [hab]

/-- No index of an update is out of the list of the values. -/
theorem updateItems_eq (wf : g.WF) (pinned : g.Pinned) {items : List (ℕ × Pin)}
    (listed : g.Items items) (now : Time) (start : ℕ) (values : List Word) (read : Bool) :
    g.updateItems now start values read items =
      some ((g.update now start values read).values, (g.update now start values read).pins) := by
  have hstored : g.storeItems start values g.values = some (g.store start values).values :=
    storeItems_eq start values wf
  rw [updateItems, hstored, Option.bind_some]
  cases read with
  | false => simp
  | true =>
    have same := g.store_same start values
    have hlength : (g.store start values).values.length = g.count :=
      (same.wf wf).trans (congrArg Shape.count same)
    obtain ⟨cached, pins, heq, hlength', hvalues, hpins⟩ := keepItems_spec now start values.length
      hlength pinned fun a pin h => (listed a pin).mp h
    rw [if_pos rfl, heq]
    congr 2
    · apply List.ext_getElem?
      intro i
      by_cases hi : i < g.count
      · have ha : g.isMember (g.address + i) := isMember_iff.mpr (by omega)
        have hvalue := hvalues (g.address + i) ha
        rw [Nat.add_sub_cancel_left] at hvalue
        rw [hvalue]
        have hcached : (g.store start values).values[i]? = some (g.store start values).values[i] :=
          List.getElem?_eq_getElem (by omega)
        have haddress : (g.store start values).address = g.address := congrArg Shape.address same
        simp only [update, keepPins, if_true, List.getElem?_mapIdx, hcached, haddress, store_pins]
        cases hpin : g.pins (g.address + i) with
        | none => simp
        | some pin =>
          have hmem := (listed (g.address + i) pin).mpr hpin
          by_cases hkept : now < pin.keptUntil <;> simp [hmem, hkept, Option.filter_some]
      · rw [List.getElem?_eq_none (by omega), List.getElem?_eq_none]
        have hupdated := (g.update_same now start values true).wf wf
        have hcount := congrArg Shape.count (g.update_same now start values true)
        unfold WF at hupdated
        simp only [shape] at hcount
        omega
    · funext a
      rw [hpins a, pins_update]
      cases hpin : g.pins a with
      | none => simp
      | some pin =>
        have hmem := (listed a pin).mpr hpin
        have hkeeps : (now < pin.keptUntil ∨ ¬(start ≤ a ∧ a < start + values.length)) ↔
            ¬(¬now < pin.keptUntil ∧ start ≤ a ∧ a < start + values.length) := by tauto
        simp only [Option.any_some, Option.filter_some, hmem, true_and, hkeeps]
        split <;> simp_all

theorem Pinned.exists_items (pinned : g.Pinned) : ∃ items, g.Items items := by
  refine ⟨(List.range g.count).filterMap fun i =>
    (g.pins (g.address + i)).map (g.address + i, ·), fun a pin => ?_⟩
  simp only [List.mem_filterMap, List.mem_range, Option.map_eq_some_iff, Prod.mk.injEq]
  constructor
  · rintro ⟨i, -, pin', hpin, rfl, rfl⟩
    exact hpin
  · intro hpin
    have member := isMember_iff.mp (pinned a (by simp [hpin]))
    have haddress : g.address + (a - g.address) = a := by omega
    exact ⟨a - g.address, by omega, pin, by rw [haddress, hpin], haddress, rfl⟩

/-- The block is read again when any of its pins has expired. -/
theorem Pinned.pinExpired (pinned : g.Pinned) (now : Time) :
    g.pinExpired now = true ↔ ∃ a pin, g.pins a = some pin ∧ pin.keptUntil ≤ now := by
  simp only [RegisterGroup.pinExpired, List.any_eq_true, List.mem_range, Option.any_eq_true,
    decide_eq_true_eq]
  constructor
  · rintro ⟨i, -, pin, hpin, hexpired⟩
    exact ⟨g.address + i, pin, hpin, hexpired⟩
  · rintro ⟨a, pin, hpin, hexpired⟩
    have member := isMember_iff.mp (pinned a (by simp [hpin]))
    have haddress : g.address + (a - g.address) = a := by omega
    exact ⟨a - g.address, by omega, pin, by rw [haddress, hpin], hexpired⟩

/-! ## What the operations of a block keep -/

variable {g' : RegisterGroup}

theorem Pinned.of_pins (h : g.Pinned) (same : g.Same g')
    (hpins : ∀ a, (g'.pins a).isSome → (g.pins a).isSome) : g'.Pinned := by
  intro a ha
  rw [same.isMember]
  exact h a (hpins a ha)

theorem Pinned.update (h : g.Pinned) (now : Time) (start : ℕ) (values : List Word) (read : Bool) :
    (g.update now start values read).Pinned := by
  refine h.of_pins (g.update_same now start values read) fun a ha => ?_
  cases read with
  | false => simpa using ha
  | true =>
    rw [pins_update] at ha
    cases hpin : g.pins a with
    | none => simp [hpin] at ha
    | some pin => rfl

theorem Pinned.pin (h : g.Pinned) (address : ℕ) (value : Word) (keptUntil : Time) :
    (g.pin address value keptUntil).Pinned := by
  unfold RegisterGroup.pin
  split
  · next member =>
    intro a ha
    by_cases haddress : a = address
    · exact haddress ▸ member
    · simp only [Function.update_of_ne haddress] at ha
      exact h a ha
  · exact h

theorem Pinned.pinAll (h : g.Pinned) (keptUntil : Time) (index : ℕ) (values : List Word) :
    (g.pinAll keptUntil index values).Pinned := by
  induction values generalizing g index with
  | nil => exact h
  | cons value values ih => exact ih (h.pin index value keptUntil) (index + 1)

@[simp] theorem values_pinAll (keptUntil : Time) (index : ℕ) (values : List Word)
    (g : RegisterGroup) : (g.pinAll keptUntil index values).values = g.values := by
  induction values generalizing g index with
  | nil => rfl
  | cons value values ih =>
    rw [RegisterGroup.pinAll, ih]
    unfold RegisterGroup.pin
    split <;> rfl

theorem Filled.store (h : g.Filled) (start : ℕ) (values : List Word) :
    (g.store start values).Filled := by
  induction values generalizing g start with
  | nil => exact h
  | cons value values ih =>
    simp only [RegisterGroup.store]
    split
    · refine ih (fun v hv => ?_) (start + 1)
      rcases List.mem_or_eq_of_mem_set hv with hold | rfl
      · exact h v hold
      · rfl
    · exact ih h (start + 1)

theorem Filled.update (h : g.Filled) (now : Time) (start : ℕ) (values : List Word) (read : Bool) :
    (g.update now start values read).Filled := by
  have hstored := h.store start values
  cases read with
  | false => exact hstored
  | true =>
    intro v hv
    obtain ⟨i, hi, rfl⟩ := List.mem_mapIdx.mp hv
    split
    · split
      · rfl
      · exact hstored _ (List.getElem_mem hi)
    · exact hstored _ (List.getElem_mem hi)

theorem filled_iff (wf : g.WF) : g.Filled ↔ ∀ a, g.isMember a → (g.value a).isSome := by
  unfold WF at wf
  constructor
  · intro h a ha
    rw [isMember_iff] at ha
    have hvalue : g.values[a - g.address]? = some g.values[a - g.address] :=
      List.getElem?_eq_getElem (by omega)
    simpa [RegisterGroup.value, hvalue] using h _ (List.getElem_mem (by omega))
  · intro h value hvalue
    obtain ⟨i, hi⟩ := List.mem_iff_getElem?.mp hvalue
    obtain ⟨hlt, -⟩ := List.getElem?_eq_some_iff.mp hi
    have ha := h (g.address + i) (isMember_iff.mpr (by omega))
    rwa [RegisterGroup.value, Nat.add_sub_cancel_left, hi, Option.join_some] at ha

/-- A response of all registers fills the block. -/
theorem filled_update (wf : g.WF) (now : Time) {response : List Word}
    (complete : response.length = g.count) : (g.update now g.address response true).Filled := by
  have same := g.update_same now g.address response true
  rw [filled_iff (same.wf wf)]
  intro a ha
  rw [same.isMember] at ha
  have hread : (block (g.address, response) a).isSome := by
    rw [isMember_iff] at ha
    rw [block_isSome, complete]
    exact ha
  obtain ⟨w, hw⟩ := Option.isSome_iff_exists.mp hread
  have hregister := congrArg Register.value (register_update wf ha now g.address response)
  rw [show (g.update now g.address response true).value a = _ from hregister, hw]
  simp only [Register.read, Option.some_or]
  split
  · split <;> rfl
  · rfl

end RegisterGroup

section

variable {s s' : CacheState} {e : CacheEvent} {es : List CacheEvent} {now : Time} {isInput : Bool}
  {g g' : RegisterGroup}

theorem CacheEvent.Changes.pinned (h : e.Changes now isInput g g') (hg : g.Pinned) :
    g'.Pinned := by
  refine h.keeps hg hg hg (RegisterGroup.Pinned.update hg now)
    (RegisterGroup.Pinned.pinAll hg) (fun index count => ?_) (fun registers keptUntil => ?_) nofun
  · refine hg.of_pins (g.unpin_same index count) fun a ha => ?_
    simp only [RegisterGroup.unpin] at ha
    split at ha
    · cases ha
    · exact ha
  · refine hg.of_pins (g.renewPins_same isInput registers keptUntil) fun a ha => ?_
    rwa [RegisterGroup.renewPins, Option.isSome_map] at ha

theorem CacheEvent.Changes.filled (h : e.Changes now isInput g g') (hg : g.Filled) :
    g'.Filled := by
  refine h.keeps hg hg hg (RegisterGroup.Filled.update hg now) (fun keptUntil index values => ?_)
    (fun _ _ => hg) (fun _ _ => hg) hg
  unfold RegisterGroup.Filled
  rwa [RegisterGroup.values_pinAll]

theorem CacheRun.pinned (init : s.Init) (run : CacheRun s es s') :
    ∀ isInput, ∀ g ∈ s'.cache.groupsOf isInput, g.Pinned := by
  refine run.invariant (I := fun t => ∀ isInput, ∀ g ∈ t.cache.groupsOf isInput, g.Pinned) ?_ ?_
  · intro t e u ht step isInput g' hg'
    obtain ⟨g, hg, hchanges⟩ := step.origin hg'
    exact hchanges.pinned (ht isInput g hg)
  · intro isInput g hg a ha
    obtain ⟨⟨blocks, made⟩, -⟩ := init
    rw [ModbusCacheMap.ofBlocks_pins made isInput g hg] at ha
    cases ha

theorem CacheRun.wf (init : s.Init) (run : CacheRun s es s') : s'.cache.WF := by
  obtain ⟨⟨blocks, made⟩, -⟩ := init
  exact (CacheRun.same run).wf (ModbusCacheMap.ofBlocks_wf made)

/-! ## The registers out of a write -/

/-- The operation writes the register. -/
def CacheEvent.Sets (e : CacheEvent) (isInput : Bool) (a : ℕ) : Prop :=
  match e with
  | respond _ input index values | setRegister index values input _
  | getRegisterAsync input index values =>
    input = isInput ∧ index ≤ a ∧ a < index + values.length
  | _ => False

/-- The register has its value, or the one of its pin. -/
def RegisterGroup.Keeps (now : Time) (a : ℕ) (g g' : RegisterGroup) : Prop :=
  g'.value a = g.value a ∨
    ∃ pin, g.pins a = some pin ∧ now < pin.keptUntil ∧ g'.value a = some pin.value

theorem RegisterGroup.keeps_update (wf : g.WF) {a : ℕ} (ha : g.isMember a) (now : Time)
    {start : ℕ} {values : List Word} (out : ¬(start ≤ a ∧ a < start + values.length))
    (read : Bool) : Keeps now a g (g.update now start values read) := by
  have hstored : (g.store start values).value a = g.value a := by
    rw [value_store wf start values ha, if_neg out]
  cases read with
  | false => exact .inl hstored
  | true =>
    have hvalue := value_update wf now start values ha
    cases hpin : g.pins a with
    | none =>
      rw [hpin] at hvalue
      exact .inl (hvalue.trans hstored)
    | some pin =>
      simp only [hpin] at hvalue
      split at hvalue
      · next hkept => exact .inr ⟨pin, hpin, hkept, hvalue⟩
      · exact .inl (hvalue.trans hstored)

theorem CacheEvent.Changes.keepsValue (h : e.Changes now isInput g g') (wf : g.WF) {a : ℕ}
    (ha : g.isMember a) (out : ¬e.Sets isInput a) : g.Keeps now a g' := by
  cases e with
  | beginScan initial => cases initial <;> exact .inl (h ▸ rfl)
  | succeed task => cases task <;> exact .inl (h ▸ rfl)
  | respond task input address response =>
    rcases h with rfl | ⟨rfl, rfl, -, rfl⟩
    · exact .inl rfl
    · exact RegisterGroup.keeps_update wf ha now (fun hin => out ⟨rfl, hin⟩) true
  | setRegister | getRegisterAsync =>
    obtain rfl := h
    split
    · next hinput => exact RegisterGroup.keeps_update wf ha now (fun hin => out ⟨hinput, hin⟩) _
    · exact .inl rfl
  | pin =>
    obtain rfl := h
    split
    · exact .inl (by rw [RegisterGroup.value_pinAll])
    · exact .inl rfl
  | unpin =>
    obtain rfl := h
    split <;> exact .inl rfl
  | _ => exact .inl (h ▸ rfl)

/-! ## The values after the first scan -/

/-- A running scan was begun by this step, or runs on. -/
theorem CacheStep.running (h : CacheStep s e s') (running : (s'.reads .scan).isSome) :
    (∃ initial, e = .beginScan initial) ∨ (s.reads .scan).isSome ∧ ¬e.EndsScan := by
  have hread : ∀ {task : ReadTask} {r : BlockRead} {reading : Option BlockRead},
      s.reads task = some r → s'.reads = Function.update s.reads task reading →
        (s.reads .scan).isSome ∧ (task = .scan → reading.isSome) := by
    intro task r reading hr hreads
    rw [hreads] at running
    by_cases htask : task = .scan
    · subst htask
      rw [Function.update_self] at running
      exact ⟨by simp [hr], fun _ => running⟩
    · rw [Function.update_of_ne (Ne.symm htask)] at running
      exact ⟨running, fun h => absurd h htask⟩
  cases h with
  | beginScan initial => exact .inl ⟨initial, rfl⟩
  | beginChange other idle =>
    rw [CacheState.reads_withRead_ne _ (by decide)] at running
    exact .inr ⟨running, id⟩
  | skip reading | request reading | respond reading | inputs reading =>
    exact .inr ⟨(hread reading rfl).1, id⟩
  | succeed reading | fail reading | cancel reading =>
    obtain ⟨hrunning, hends⟩ := hread reading rfl
    exact .inr ⟨hrunning, fun h => by simpa using hends h⟩
  | _ => exact .inr ⟨running, id⟩

theorem CacheEvent.scans_eq_zero (none : .succeed .scan ∉ es) : scans es = 0 := by
  induction es using List.reverseRecOn with
  | nil => rfl
  | append_singleton es e ih =>
    rw [List.mem_append, not_or, List.mem_singleton] at none
    rw [scans_concat, ih none.1]
    cases e with
    | beginScan initial => cases initial <;> rfl
    | succeed task =>
      cases task with
      | scan => exact absurd rfl none.2
      | change => rfl
    | _ => rfl

/-- The blocks passed by the first successful scan are filled. -/
theorem CacheRun.filling (init : s.Init) (run : CacheRun s es s') (none : .succeed .scan ∉ es)
    (running : (s'.reads .scan).isSome) : PassedBlocks (fun _ => RegisterGroup.Filled) s' := by
  induction es using List.reverseRecOn generalizing s' with
  | nil =>
    cases run
    simp [init.2] at running
  | append_singleton es e ih =>
    obtain ⟨t, first, last⟩ := run.split
    cases last with
    | cons head tail =>
      cases tail
      rw [List.mem_append, not_or] at none
      rcases head.running running with ⟨initial, rfl⟩ | ⟨hrunning, hgoing⟩
      · exact .begin head
      · refine (ih first none.1 hrunning).step head (CacheRun.byCounter init first) hgoing ?_ ?_
        · exact fun _ _ _ hchanges hfilled => hchanges.filled hfilled
        · intro isInput g hg response _ hcomplete
          exact RegisterGroup.filled_update ((CacheRun.wf init first).group hg) _ hcomplete

/-- After the first successful scan all registers have a value. -/
theorem CacheRun.filled (init : s.Init) (run : CacheRun s es s') (scanned : .succeed .scan ∈ es) :
    s'.cache.Filled := by
  obtain ⟨before, after, rfl, hfirst⟩ := List.eq_append_cons_of_mem scanned
  obtain ⟨t, hbefore, hafter⟩ := run.split
  cases hafter with
  | @cons _ u _ _ _ success rest =>
    have hrunning : (t.reads .scan).isSome := by
      cases success with
      | succeed reading => simp [reading]
    have hall := (CacheRun.filling init hbefore hfirst hrunning).all success
    have hu : ∀ isInput, ∀ g ∈ u.cache.groupsOf isInput, g.Filled := by
      intro isInput g' hg'
      obtain ⟨g, hg, hchanges⟩ := success.origin hg'
      -- before the first successful scan every block is due
      have hscheduled := CacheRun.scheduled init hbefore isInput g hg
      rw [CacheEvent.scans_eq_zero hfirst] at hscheduled
      exact hchanges.filled (hall isInput g hg (hscheduled.due.mpr (dvd_zero _)))
    refine rest.invariant (I := fun v => ∀ isInput, ∀ g ∈ v.cache.groupsOf isInput, g.Filled) ?_ hu
    intro v e w hv step isInput g' hg'
    obtain ⟨g, hg, hchanges⟩ := step.origin hg'
    exact hchanges.filled (hv isInput g hg)

/-- The cache after any run. Its blocks share no register, each has as many values as registers, and
all pins are pins of its registers, so an update never uses an index out of the values. An operation
keeps the registers it does not write, or sets the values of their pins. After the first successful
scan every register of a block has a value. -/
theorem cache_intact (init : s.Init) (run : CacheRun s es s') :
    (∀ isInput, (s'.cache.groupsOf isInput).Pairwise
      fun g h => ∀ a, g.isMember a → ¬h.isMember a) ∧
    (∀ isInput, ∀ g ∈ s'.cache.groupsOf isInput, g.values.length = g.count ∧
      (∀ a, (g.pins a).isSome → g.isMember a) ∧
      ∀ items, g.Items items → ∀ now start values read,
        g.updateItems now start values read items = some
          ((g.update now start values read).values, (g.update now start values read).pins)) ∧
    (∀ e t, CacheStep s' e t → ∀ isInput, List.Forall₂
      (fun g g' => ∀ a, g.isMember a → ¬e.Sets isInput a → g.Keeps s'.now a g')
        (s'.cache.groupsOf isInput) (t.cache.groupsOf isInput)) ∧
    (.succeed .scan ∈ es → ∀ index count isInput,
      (∃ g ∈ s'.cache.groupsOf isInput, g.isMember index count) →
        ∃ values, s'.cache.getRegister index count isInput = .ok values) := by
  have wf := CacheRun.wf init run
  have pinned := CacheRun.pinned init run
  refine ⟨fun isInput => ?_, fun isInput g hg => ⟨wf.group hg, pinned isInput g hg, ?_⟩,
    fun e t step isInput => ?_, fun scanned index count isInput inside => ?_⟩
  · have hapart := (wf isInput).2
    rw [ModbusCacheMap.shapes, List.pairwise_map] at hapart
    refine hapart.imp fun {g h} apart a ha ha' => ?_
    rw [RegisterGroup.isMember_iff] at ha ha'
    simp only [RegisterGroup.shape] at apart
    omega
  · exact fun items listed now start values read =>
      RegisterGroup.updateItems_eq (wf.group hg) (pinned isInput g hg) listed now start values read
  · have hblocks := (List.forall₂_and_left _ _).mpr ⟨fun g hg => wf.group hg, step.blocks isInput⟩
    refine hblocks.imp ?_
    rintro g g' ⟨hg, hchanges⟩ a ha out
    exact hchanges.keepsValue hg ha out
  · have hread := ModbusCacheMap.Filled.getRegister (CacheRun.filled init run scanned) index count
      isInput
    rwa [ModbusCacheMap.known_eq, if_pos] at hread
    simpa using inside

/-- The register of the unit can be read after the first scan. -/
theorem cache_intact_first : ∃ s, CacheRun slowUnit firstScan s ∧
    ∃ values, s.cache.getRegister 0 1 false = .ok values := by
  obtain ⟨s, run⟩ := firstScan_run
  have inside : s.cache.known 0 1 false = true := by
    rw [(CacheRun.same run).known]
    rfl
  rw [ModbusCacheMap.known_eq, List.any_eq_true] at inside
  have scanned : .succeed .scan ∈ firstScan := by simp [firstScan]
  exact ⟨s, run, (cache_intact slowUnit_init run).2.2.2 scanned 0 1 false inside⟩

end

end Modbus

end Evok
