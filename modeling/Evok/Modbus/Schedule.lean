import Evok.Library.Countdown
import Evok.Modbus.BlockReads

/-!
# The schedule of the slow blocks

A block with `scan_divider` k is due in every k-th successful periodic scan. Its counter is tested
at its turn, while the scan runs, and ticked after the whole scan, so the reads after changes, the
expired pins and the failed scans do not shift its phase.

## Main definitions

* `CacheEvent.scans`: the successful periodic scans since the initial one.
* `RegisterGroup.Scheduled`: the counter of a block after a number of scans.
* `PassedBlocks`: what a running scan has done with the blocks it has passed.

## Main results

* `CacheRun.scheduled`: the counters after any run.
* `PassedBlocks.step`: a step of a running scan.
* `schedule_of_slow_blocks`: when a block is due, and that a due block is read.
-/

namespace Evok

namespace Modbus

open CacheEvent

namespace CacheEvent

/-- The counter of a block after an operation. -/
def counter (e : CacheEvent) (g : RegisterGroup) : ℕ :=
  match e with
  | beginScan initial => if initial then 0 else g.fCounter
  | succeed task => if task = .scan then Countdown.tick g.fDivider g.fCounter else g.fCounter
  | _ => g.fCounter

/-- The number of the successful periodic scans, counted from the initial one. -/
def countScan (n : ℕ) : CacheEvent → ℕ
  | beginScan initial => if initial then 0 else n
  | succeed task => if task = .scan then n + 1 else n
  | _ => n

def scans (es : List CacheEvent) : ℕ :=
  es.foldl countScan 0

/-- The end of a periodic scan. -/
def EndsScan : CacheEvent → Prop
  | succeed task | fail task _ | cancel task => task = .scan
  | _ => False

/-- The operations which keep the counters. -/
def Quiet (e : CacheEvent) : Prop :=
  e ≠ succeed .scan ∧ e ≠ beginScan true

/-- The turn of a block in the periodic scan, and whether it is read. -/
def turn : CacheEvent → Option (Bool × ℕ × Bool)
  | skip task isInput address => if task = .scan then some (isInput, address, false) else none
  | request task isInput address => if task = .scan then some (isInput, address, true) else none
  | _ => none

@[simp] theorem scans_concat (es : List CacheEvent) (e : CacheEvent) :
    scans (es ++ [e]) = countScan (scans es) e := by
  simp [scans]

theorem Quiet.countScan {e : CacheEvent} (h : e.Quiet) (n : ℕ) : countScan n e = n := by
  cases e with
  | beginScan initial =>
    cases initial with
    | false => rfl
    | true => exact absurd rfl h.2
  | succeed task =>
    cases task with
    | scan => exact absurd rfl h.1
    | change => rfl
  | _ => rfl

theorem Quiet.counter {e : CacheEvent} (h : e.Quiet) (g : RegisterGroup) :
    e.counter g = g.fCounter := by
  cases e with
  | beginScan initial =>
    cases initial with
    | false => rfl
    | true => exact absurd rfl h.2
  | succeed task =>
    cases task with
    | scan => exact absurd rfl h.1
    | change => rfl
  | _ => rfl

theorem scans_append_quiet (es : List CacheEvent) {mid : List CacheEvent}
    (quiet : ∀ e ∈ mid, e.Quiet) : scans (es ++ mid) = scans es := by
  induction mid using List.reverseRecOn with
  | nil => rw [List.append_nil]
  | append_singleton mid e ih =>
    obtain ⟨hmid, he⟩ := List.forall_mem_append.mp quiet
    rw [← List.append_assoc, scans_concat, ih hmid]
    exact (he e List.mem_cons_self).countScan _

end CacheEvent

/-! ## Counters -/

namespace RegisterGroup

@[simp] theorem store_fCounter (g : RegisterGroup) (start : ℕ) (values : List Word) :
    (g.store start values).fCounter = g.fCounter := by
  induction values generalizing g start with
  | nil => rfl
  | cons value values ih =>
    simp only [store]
    split <;> simp [ih]

@[simp] theorem update_fCounter (g : RegisterGroup) (now : Time) (start : ℕ) (values : List Word)
    (read : Bool) : (g.update now start values read).fCounter = g.fCounter := by
  cases read <;> simp [update, keepPins]

@[simp] theorem pinAll_fCounter (keptUntil : Time) (index : ℕ) (values : List Word)
    (g : RegisterGroup) : (g.pinAll keptUntil index values).fCounter = g.fCounter := by
  induction values generalizing g index with
  | nil => rfl
  | cons value values ih =>
    rw [pinAll, ih]
    unfold pin
    split <;> rfl

/-- The counter after successful scans. -/
def Scheduled (n : ℕ) (g : RegisterGroup) : Prop :=
  0 < g.fDivider ∧ g.fCounter = Countdown.value g.fDivider n

theorem Scheduled.due {n : ℕ} {g : RegisterGroup} (h : g.Scheduled n) :
    g.fCounter = 0 ↔ g.fDivider ∣ n := by
  rw [h.2, Countdown.value_eq_zero_iff h.1]

end RegisterGroup

section

variable {s s' : CacheState} {e : CacheEvent} {es : List CacheEvent} {now : Time} {isInput : Bool}
  {g g' : RegisterGroup} {n : ℕ}

theorem CacheEvent.Changes.fDivider (h : e.Changes now isInput g g') :
    g'.fDivider = g.fDivider :=
  congrArg RegisterGroup.Shape.fDivider h.same

theorem CacheEvent.Changes.address (h : e.Changes now isInput g g') : g'.address = g.address :=
  congrArg RegisterGroup.Shape.address h.same

/-- Only the begin of the initial scan and a successful scan change the counters. -/
theorem CacheEvent.Changes.fCounter (h : e.Changes now isInput g g') :
    g'.fCounter = e.counter g := by
  cases e with
  | beginScan initial =>
    cases initial <;> exact h ▸ rfl
  | succeed task =>
    cases task <;> exact h ▸ rfl
  | respond task input address response =>
    rcases h with rfl | ⟨-, -, -, rfl⟩ <;> simp [counter]
  | setRegister | getRegisterAsync | pin =>
    obtain rfl := h
    split <;> simp [counter]
  | unpin =>
    obtain rfl := h
    split <;> rfl
  | _ => exact h ▸ rfl

theorem CacheEvent.Changes.scheduled (h : e.Changes now isInput g g') (hg : g.Scheduled n) :
    g'.Scheduled (countScan n e) := by
  obtain ⟨hpositive, hcounter⟩ := hg
  refine ⟨h.fDivider ▸ hpositive, ?_⟩
  rw [h.fCounter, h.fDivider]
  cases e with
  | beginScan initial => cases initial <;> simp [counter, countScan, hcounter]
  | succeed task =>
    cases task <;> simp [counter, countScan, hcounter, Countdown.tick_value hpositive]
  | _ => exact hcounter

theorem CacheStep.scheduled (h : CacheStep s e s')
    (hs : ∀ isInput, ∀ g ∈ s.cache.groupsOf isInput, g.Scheduled n) :
    ∀ isInput, ∀ g ∈ s'.cache.groupsOf isInput, g.Scheduled (countScan n e) := by
  intro isInput g' hg'
  obtain ⟨g, hg, hchanges⟩ := h.origin hg'
  exact hchanges.scheduled (hs isInput g hg)

/-- The other operations keep the counters of all blocks. -/
theorem CacheStep.fCounters (h : CacheStep s e s') (quiet : e.Quiet) (isInput : Bool) :
    (s'.cache.groupsOf isInput).map (·.fCounter) = (s.cache.groupsOf isInput).map (·.fCounter) := by
  have hcounters : List.Forall₂ (· = ·) ((s'.cache.groupsOf isInput).map (·.fCounter))
      ((s.cache.groupsOf isInput).map (·.fCounter)) := by
    rw [List.forall₂_map_left_iff, List.forall₂_map_right_iff]
    apply List.Forall₂.flip
    exact (h.blocks isInput).imp fun g g' hchanges => hchanges.fCounter.trans (quiet.counter g)
  rwa [List.forall₂_eq_eq_eq] at hcounters

/-- The counters of a new cache. -/
theorem CacheState.Init.scheduled (init : s.Init) :
    ∀ isInput, ∀ g ∈ s.cache.groupsOf isInput, g.Scheduled 0 := by
  intro isInput
  obtain ⟨⟨blocks, made⟩, -⟩ := init
  refine ModbusCacheMap.ofBlocks_groups (fun {block g} hg => ?_) made isInput
  refine ⟨(ModbusCacheMap.makeGroup_positive hg).2, ?_⟩
  rw [Countdown.value_zero, ModbusCacheMap.makeGroup_eq hg]
  rfl

/-- The counters after a run. -/
theorem CacheRun.scheduled (init : s.Init) (run : CacheRun s es s') :
    ∀ isInput, ∀ g ∈ s'.cache.groupsOf isInput, g.Scheduled (scans es) := by
  induction es using List.reverseRecOn generalizing s' with
  | nil =>
    cases run
    exact init.scheduled
  | append_singleton es e ih =>
    obtain ⟨t, first, last⟩ := run.split
    cases last with
    | cons head tail =>
      cases tail
      rw [scans_concat]
      exact head.scheduled (ih first)

/-! ## A running scan -/

/-- The periodic scan takes the blocks by their counters. -/
def ByCounter (s : CacheState) : Prop :=
  ∀ r, s.reads .scan = some r → r.wanted = .periodic

theorem CacheStep.byCounter (h : CacheStep s e s') (hs : ByCounter s) : ByCounter s' := by
  have hread : ∀ {task : ReadTask} {r : BlockRead} {reading : Option BlockRead} {t : CacheState},
      t.reads = s.reads → s.reads task = some r →
        (∀ r', reading = some r' → r'.wanted = r.wanted) → ByCounter (t.withRead task reading) := by
    intro task r reading t hsame hr hwanted r' hr'
    by_cases htask : task = .scan
    · subst htask
      rw [CacheState.reads_withRead] at hr'
      exact (hwanted r' hr').trans (hs r hr)
    · rw [CacheState.reads_withRead_ne _ (Ne.symm htask), hsame] at hr'
      exact hs r' hr'
  cases h with
  | beginScan initial idle =>
    intro r hr
    rw [CacheState.reads_withRead] at hr
    exact Option.some.inj hr ▸ rfl
  | beginChange other idle =>
    intro r hr
    exact hs r (by rwa [CacheState.reads_withRead_ne _ (by decide)] at hr)
  | skip reading | request reading | respond reading | inputs reading =>
    exact hread rfl reading fun r' hr' => Option.some.inj hr' ▸ rfl
  | succeed reading | fail reading | cancel reading => exact hread rfl reading nofun
  | _ => exact hs

/-- The block was passed by the read. -/
def BlockRead.Passed (r : BlockRead) (isInput : Bool) (i : ℕ) : Prop :=
  isInput = r.isInput ∧ i < r.passed ∨ isInput = false ∧ r.isInput = true

/-- The turn of the block in a place: it is skipped, or its response is in the cache. -/
def TakesTurn (s s' : CacheState) (e : CacheEvent) (wanted : Wanted) (isInput : Bool) (i : ℕ)
    (g : RegisterGroup) : Prop :=
  wanted.test s.cache s.now g isInput = false ∨
    ∃ response, e = .respond .scan isInput g.address response ∧ response.length = g.count ∧
      (s'.cache.groupsOf isInput)[i]? = some (g.update s.now g.address response true)

/-- A running scan passes a block only by its turn. -/
theorem CacheStep.passed (h : CacheStep s e s') {r : BlockRead} (running : s.reads .scan = some r)
    (going : ¬e.EndsScan) : ∃ r', s'.reads .scan = some r' ∧
      ∀ isInput i g, (s.cache.groupsOf isInput)[i]? = some g → r'.Passed isInput i →
        r.Passed isInput i ∨ TakesTurn s s' e r.wanted isInput i g := by
  -- the steps of the other task and the operations of the cache
  have hother : s'.reads .scan = s.reads .scan → ∃ r', s'.reads .scan = some r' ∧
      ∀ isInput i g, (s.cache.groupsOf isInput)[i]? = some g → r'.Passed isInput i →
        r.Passed isInput i ∨ TakesTurn s s' e r.wanted isInput i g :=
    fun hsame => ⟨r, hsame.trans running, fun _ _ _ _ hpassed => .inl hpassed⟩
  -- a block passed by one more turn
  have hturn : ∀ {isInput : Bool} {i : ℕ},
      { r with passed := r.passed + 1 }.Passed isInput i →
        r.Passed isInput i ∨ isInput = r.isInput ∧ i = r.passed := by
    rintro isInput i (⟨rfl, hi⟩ | hholding)
    · rcases Nat.lt_succ_iff_lt_or_eq.mp hi with hlt | rfl
      · exact .inl (.inl ⟨rfl, hlt⟩)
      · exact .inr ⟨rfl, rfl⟩
    · exact .inl (.inr hholding)
  cases h with
  | beginScan initial idle => simp [idle] at running
  | beginChange other idle => exact hother (CacheState.reads_withRead_ne _ (by decide) _)
  | @skip task r' before after g' reading sending split position unwanted =>
    cases task with
    | change => exact hother (CacheState.reads_withRead_ne _ (by decide) _)
    | scan =>
      obtain rfl := Option.some.inj (running.symm.trans reading)
      refine ⟨_, CacheState.reads_withRead .., fun isInput i g hg hpassed => ?_⟩
      rcases hturn hpassed with hbefore | ⟨rfl, rfl⟩
      · exact .inl hbefore
      · obtain rfl : g' = g := by simpa [split, ← position] using hg
        exact .inr (.inl unwanted)
  | @request task r' before after g' reading sending split position wanted =>
    cases task with
    | change => exact hother (CacheState.reads_withRead_ne _ (by decide) _)
    | scan =>
      obtain rfl := Option.some.inj (running.symm.trans reading)
      exact ⟨_, CacheState.reads_withRead .., fun _ _ _ _ hpassed => .inl hpassed⟩
  | @respond task r' before after g' response reading awaiting split position complete =>
    cases task with
    | change => exact hother (CacheState.reads_withRead_ne _ (by decide) _)
    | scan =>
      obtain rfl := Option.some.inj (running.symm.trans reading)
      refine ⟨_, CacheState.reads_withRead .., fun isInput i g hg hpassed => ?_⟩
      rcases hturn hpassed with hbefore | ⟨rfl, rfl⟩
      · exact .inl hbefore
      · obtain rfl : g' = g := by simpa [split, ← position] using hg
        refine .inr (.inr ⟨response, rfl, complete, ?_⟩)
        simp [← position]
  | @inputs task r' reading sending holding all =>
    cases task with
    | change => exact hother (CacheState.reads_withRead_ne _ (by decide) _)
    | scan =>
      obtain rfl := Option.some.inj (running.symm.trans reading)
      refine ⟨_, CacheState.reads_withRead .., fun isInput i g hg hpassed => .inl ?_⟩
      rcases hpassed with ⟨-, hi⟩ | ⟨rfl, -⟩
      · exact absurd hi (Nat.not_lt_zero i)
      · obtain ⟨hlt, -⟩ := List.getElem?_eq_some_iff.mp hg
        exact .inl ⟨holding.symm, all ▸ hlt⟩
  | @succeed task | @fail task | @cancel task =>
    exact hother (CacheState.reads_withRead_ne _ (fun h => going h.symm) _)
  | _ => exact hother rfl

/-- Only the end of a running scan changes the counters. -/
theorem CacheStep.quiet (h : CacheStep s e s') {r : BlockRead} (running : s.reads .scan = some r)
    (going : ¬e.EndsScan) : e.Quiet := by
  constructor <;> rintro rfl
  · exact going rfl
  · cases h with
    | beginScan _ idle => simp [idle] at running

theorem CacheRun.quiet (run : CacheRun s es s') {r : BlockRead} (running : s.reads .scan = some r)
    (going : ∀ e ∈ es, ¬e.EndsScan) : ∀ e ∈ es, e.Quiet := by
  induction run generalizing r with
  | nil => simp
  | cons head tail ih =>
    obtain ⟨hfirst, hrest⟩ := List.forall_mem_cons.mp going
    obtain ⟨r', running', -⟩ := head.passed running hfirst
    exact List.forall_mem_cons.mpr ⟨head.quiet running hfirst, ih running' hrest⟩

/-- A scan is running, and the due blocks it has passed have the property. -/
def PassedBlocks (Q : Bool → RegisterGroup → Prop) (s : CacheState) : Prop :=
  ∃ r, s.reads .scan = some r ∧ ∀ isInput i g, (s.cache.groupsOf isInput)[i]? = some g →
    r.Passed isInput i → g.fCounter = 0 → Q isInput g

namespace PassedBlocks

variable {Q Q' : Bool → RegisterGroup → Prop}

/-- A new scan has passed no block. -/
theorem begin {initial : Bool} (h : CacheStep s (.beginScan initial) s') :
    PassedBlocks Q s' := by
  cases h with
  | beginScan initial idle =>
    refine ⟨_, CacheState.reads_withRead .., fun isInput i g _ hpassed => ?_⟩
    rcases hpassed with ⟨-, hi⟩ | ⟨-, hinput⟩
    · exact absurd hi (Nat.not_lt_zero i)
    · cases hinput

/-- A step of a running scan. The due blocks have the property after their response, and the other
operations keep it. -/
theorem step (h : PassedBlocks Q s) (hs : CacheStep s e s') (byCounter : ByCounter s)
    (going : ¬e.EndsScan)
    (kept : ∀ isInput g g', e.Changes s.now isInput g g' → Q isInput g → Q' isInput g')
    (read : ∀ isInput, ∀ g ∈ s.cache.groupsOf isInput, ∀ response,
      e = .respond .scan isInput g.address response → response.length = g.count →
        Q' isInput (g.update s.now g.address response true)) :
    PassedBlocks Q' s' := by
  obtain ⟨r, running, hpassed⟩ := h
  obtain ⟨r', running', hturns⟩ := hs.passed running going
  refine ⟨r', running', fun isInput i g' hg' hpassed' hdue' => ?_⟩
  obtain ⟨g, hg, hchanges⟩ := hs.at hg'
  have hdue : g.fCounter = 0 := by
    rw [← hdue', hchanges.fCounter, (hs.quiet running going).counter]
  rcases hturns isInput i g hg hpassed' with hbefore | hskipped | ⟨response, he, hlength, hread⟩
  · exact kept isInput g g' hchanges (hpassed isInput i g hg hbefore hdue)
  · rw [byCounter r running] at hskipped
    simp [Wanted.test, hdue] at hskipped
  · obtain rfl := Option.some.inj (hg'.symm.trans hread)
    exact read isInput g (List.mem_of_getElem? hg) response he hlength

/-- A successful scan has passed all blocks. -/
theorem all (h : PassedBlocks Q s) (hs : CacheStep s (.succeed .scan) s') :
    ∀ isInput, ∀ g ∈ s.cache.groupsOf isInput, g.fCounter = 0 → Q isInput g := by
  intro isInput g hg hdue
  obtain ⟨r, running, hpassed⟩ := h
  obtain ⟨i, hi⟩ := List.mem_iff_getElem?.mp hg
  refine hpassed isInput i g hi ?_ hdue
  cases hs with
  | succeed reading sending input all =>
    obtain rfl := Option.some.inj (running.symm.trans reading)
    cases isInput with
    | false => exact .inr ⟨rfl, input⟩
    | true =>
      obtain ⟨hlt, -⟩ := List.getElem?_eq_some_iff.mp hi
      exact .inl ⟨input.symm, all ▸ hlt⟩

end PassedBlocks

/-- The block was read by the periodic scan. -/
def ReadIn (es : List CacheEvent) (isInput : Bool) (g : RegisterGroup) : Prop :=
  ∃ response, .respond .scan isInput g.address response ∈ es

theorem PassedBlocks.run {past : List CacheEvent} (h : PassedBlocks (ReadIn past) s)
    (byCounter : ByCounter s) (run : CacheRun s es s') (going : ∀ e ∈ es, ¬e.EndsScan) :
    PassedBlocks (ReadIn (past ++ es)) s' := by
  induction run generalizing past with
  | nil => simpa using h
  | @cons s t u e es head tail ih =>
    obtain ⟨hfirst, hrest⟩ := List.forall_mem_cons.mp going
    have hnext : PassedBlocks (ReadIn (past ++ [e])) t := by
      refine h.step head byCounter hfirst ?_ ?_
      · rintro isInput g g' hchanges ⟨response, hmem⟩
        exact ⟨response, hchanges.address ▸ List.mem_append_left _ hmem⟩
      · rintro isInput g - response rfl -
        refine ⟨response, ?_⟩
        have haddress := congrArg RegisterGroup.Shape.address
          (g.update_same s.now g.address response true)
        simp only [RegisterGroup.shape] at haddress
        simp [haddress]
    simpa using ih hnext (head.byCounter byCounter) hrest

theorem CacheRun.byCounter (init : s.Init) (run : CacheRun s es s') : ByCounter s' := by
  refine run.invariant (fun _ _ _ h step => step.byCounter h) fun r hr => ?_
  simp [init.2] at hr

/-! ## The schedule -/

/-- The turn of a block in a periodic scan. -/
theorem CacheStep.turn (h : CacheStep s e s') (byCounter : ByCounter s)
    (hs : ∀ isInput, ∀ g ∈ s.cache.groupsOf isInput, g.Scheduled n) {address : ℕ} {read : Bool}
    (hturn : e.turn = some (isInput, address, read)) :
    ∃ g ∈ s.cache.groupsOf isInput, g.address = address ∧
      (read = true ↔ g.fDivider ∣ n ∨ g.pinExpired s.now = true) := by
  have htest : ∀ {r : BlockRead} {before after : List RegisterGroup} {g : RegisterGroup},
      s.reads .scan = some r → s.cache.groupsOf r.isInput = before ++ g :: after →
        g ∈ s.cache.groupsOf r.isInput ∧ (r.wanted.test s.cache s.now g r.isInput = true ↔
          g.fDivider ∣ n ∨ g.pinExpired s.now = true) := by
    intro r before after g running split
    have hg : g ∈ s.cache.groupsOf r.isInput := by simp [split]
    refine ⟨hg, ?_⟩
    rw [byCounter r running, ← (hs _ g hg).due]
    simp [Wanted.test]
  cases h with
  | @skip task r before after g reading sending split position unwanted =>
    cases task with
    | change => simp [CacheEvent.turn] at hturn
    | scan =>
      obtain ⟨rfl, rfl, rfl⟩ : r.isInput = isInput ∧ g.address = address ∧ false = read := by
        simpa [CacheEvent.turn] using hturn
      obtain ⟨hg, hiff⟩ := htest reading split
      exact ⟨g, hg, rfl, by rw [← hiff, unwanted]⟩
  | @request task r before after g reading sending split position wanted =>
    cases task with
    | change => simp [CacheEvent.turn] at hturn
    | scan =>
      obtain ⟨rfl, rfl, rfl⟩ : r.isInput = isInput ∧ g.address = address ∧ true = read := by
        simpa [CacheEvent.turn] using hturn
      obtain ⟨hg, hiff⟩ := htest reading split
      exact ⟨g, hg, rfl, by rw [← hiff, wanted]⟩
  | _ => simp [CacheEvent.turn] at hturn

/-- A due block is read by a successful scan. -/
theorem readIn_of_due (init : s.Init) {t u : CacheState} {initial : Bool} {mid : List CacheEvent}
    (before : CacheRun s es t) (scan : CacheRun t (.beginScan initial :: mid) u)
    (going : ∀ e ∈ mid, ¬e.EndsScan) (success : CacheStep u (.succeed .scan) s') :
    ∀ isInput, ∀ g ∈ s'.cache.groupsOf isInput,
      g.fDivider ∣ scans (es ++ [.beginScan initial]) → ReadIn mid isInput g := by
  intro isInput g' hg' hdue
  cases scan with
  | @cons _ v _ _ _ first rest =>
    have hv : CacheRun s (es ++ [.beginScan initial]) v := before.append (.single first)
    have hpassed : PassedBlocks (ReadIn []) v := .begin first
    have hread := (hpassed.run (CacheRun.byCounter init hv) rest going).all success
    obtain ⟨g, hg, hchanges⟩ := success.origin hg'
    -- no counter has changed since the begin of the scan
    obtain ⟨r, running, -⟩ := hpassed
    have hscheduled := CacheRun.scheduled init (hv.append rest) isInput g hg
    rw [hchanges.fDivider, ← scans_append_quiet _ (CacheRun.quiet rest running going)] at hdue
    obtain ⟨response, hmem⟩ := hread isInput g hg (hscheduled.due.mpr hdue)
    exact ⟨response, hchanges.address.symm ▸ hmem⟩

/-- The schedule of the slow blocks. The counter of a block is below its divider k, and it is zero
when k divides the number of the successful scans. At its turn in a scan a block is read when it is
due or has an expired pin, and each due block is read by a successful scan. The operations between
two scans keep all counters, also a failed or cancelled scan. -/
theorem schedule_of_slow_blocks (init : s.Init) :
    (∀ es t, CacheRun s es t → ∀ isInput, ∀ g ∈ t.cache.groupsOf isInput,
      g.fCounter < g.fDivider ∧ (g.fCounter = 0 ↔ g.fDivider ∣ scans es)) ∧
    (∀ es t e t' isInput address read, CacheRun s es t → CacheStep t e t' →
      e.turn = some (isInput, address, read) → ∃ g ∈ t.cache.groupsOf isInput,
        g.address = address ∧ (read = true ↔ g.fDivider ∣ scans es ∨ g.pinExpired t.now = true)) ∧
    (∀ es t initial mid u t', CacheRun s es t → CacheRun t (.beginScan initial :: mid) u →
      (∀ e ∈ mid, ¬e.EndsScan) → CacheStep u (.succeed .scan) t' →
        ∀ isInput, ∀ g ∈ t'.cache.groupsOf isInput,
          g.fDivider ∣ scans (es ++ [.beginScan initial]) → ReadIn mid isInput g) ∧
    (∀ es t mid t', CacheRun s es t → CacheRun t mid t' →
      (∀ e ∈ mid, e.Quiet) → ∀ isInput,
        (t'.cache.groupsOf isInput).map (·.fCounter) =
          (t.cache.groupsOf isInput).map (·.fCounter)) := by
  refine ⟨fun es t run isInput g hg => ?_, fun es t e t' isInput address read run step hturn => ?_,
    fun es t initial mid u t' before scan going success => ?_,
    fun es t mid t' before run quiet isInput => ?_⟩
  · have hscheduled := CacheRun.scheduled init run isInput g hg
    exact ⟨hscheduled.2 ▸ Countdown.value_lt hscheduled.1 _, hscheduled.due⟩
  · exact step.turn (CacheRun.byCounter init run) (CacheRun.scheduled init run) hturn
  · exact readIn_of_due init before scan going success
  · refine run.invariant_of_labels (I := fun v => (v.cache.groupsOf isInput).map (·.fCounter) =
      (t.cache.groupsOf isInput).map (·.fCounter)) (fun u e v hquiet hu step => ?_) quiet rfl
    exact (step.fCounters hquiet isInput).trans hu

/-- A unit with a block read by every third scan. -/
def slowUnit : CacheState where
  cache := { groups := [.new 0 1 3] }
  now := 0

def firstScan : List CacheEvent :=
  [.beginScan true, .request .scan false 0, .respond .scan false 0 [7], .inputs .scan,
    .succeed .scan]

theorem slowUnit_init : slowUnit.Init :=
  ⟨⟨[{ startReg := some 0, count := some 1, scanDivider := some (some 3) }], rfl⟩, rfl⟩

theorem firstScan_run : ∃ s, CacheRun slowUnit firstScan s := by
  let r : BlockRead := { wanted := .periodic }
  let s₁ := (slowUnit.withCache (slowUnit.cache.setCounters true)).withRead .scan (some r)
  let s₂ := s₁.withRead .scan (some { r with awaiting := true })
  let s₃ := (s₂.withCache (s₂.cache.withGroups false
    [(RegisterGroup.new 0 1 3).update 0 0 [7] true])).withRead .scan
      (some { r with passed := 1, read := 1 })
  let s₄ := s₃.withRead .scan (some { r with isInput := true, read := 1 })
  have begun : CacheStep slowUnit (.beginScan true) s₁ := .beginScan true rfl
  have requested : CacheStep s₁ (.request .scan false 0) s₂ :=
    @CacheStep.request s₁ .scan r [] [] (.new 0 1 3) rfl rfl rfl rfl rfl
  have responded : CacheStep s₂ (.respond .scan false 0 [7]) s₃ :=
    @CacheStep.respond s₂ .scan { r with awaiting := true } [] [] (.new 0 1 3) [7] rfl rfl rfl rfl
      rfl
  have inputs : CacheStep s₃ (.inputs .scan) s₄ :=
    @CacheStep.inputs s₃ .scan { r with passed := 1, read := 1 } rfl rfl rfl rfl
  have succeeded : CacheStep s₄ (.succeed .scan) _ :=
    @CacheStep.succeed s₄ .scan { r with isInput := true, read := 1 } rfl rfl rfl rfl
  exact ⟨_, .cons begun (.cons requested (.cons responded (.cons inputs (.single succeeded))))⟩

/-- After the first scan the block waits for two scans. -/
theorem schedule_of_slow_blocks_first : ∃ s, CacheRun slowUnit firstScan s ∧
    ∀ g ∈ s.cache.groups, g.fCounter < g.fDivider ∧ (g.fCounter = 0 ↔ g.fDivider ∣ 1) := by
  obtain ⟨s, run⟩ := firstScan_run
  exact ⟨s, run, (schedule_of_slow_blocks slowUnit_init).1 _ _ run false⟩

end

end Modbus

end Evok
