import Evok.Scanner.Scanner

/-!
# The failing mark of a unit

The mark is kept by the bus, the error it was set for by the running loop. A loop begun after a
failed scan does not know the error: its first scan clears no mark.

## Main definitions

* `Follows`: the mark of the unit after a scan is the failure of the scan.
* `History`: the last scan of a run, and whether a loop has begun after it failed.

## Main results

* `failing_follows_iff`: the runs in which the mark follows every scan.
-/

namespace Evok

namespace Scanner

/-- After a scan the unit is marked if and only if the scan failed. Its next request is a single
probe for this reason only. -/
def Follows (a : Action) (t : ModbusScanner) : Prop :=
  ∀ res, a.result = some res →
    (t.modbusAddress ∈ t.transport.failingUnits ↔ res = false) ∧
      (t.modbusAddress ∉ t.transport.singleUnits →
        (t.transport.probes t.modbusAddress = true ↔ res = false))

theorem follows_iff {a : Action} {t : ModbusScanner} :
    Follows a t ↔ ∀ res, a.result = some res →
      (t.modbusAddress ∈ t.transport.failingUnits ↔ res = false) := by
  constructor
  · intro h res hres
    exact (h res hres).1
  · intro h res hres
    refine ⟨h res hres, fun hsingle => ?_⟩
    rw [BusTransport.probes_iff, or_iff_left hsingle]
    exact h res hres

/-- Whether the last scan failed, and a loop has begun since then. -/
structure History where
  failed : Bool
  restarted : Bool
  deriving DecidableEq

def History.after (h : History) (a : Action) : History :=
  match a, a.result with
  | _, some res => { failed := !res, restarted := false }
  | .begin, none => { h with restarted := h.failed }
  | _, none => h

def history (actions : List Action) : History := actions.foldl History.after ⟨false, false⟩

@[simp] theorem history_concat (actions : List Action) (a : Action) :
    history (actions ++ [a]) = (history actions).after a := by
  simp [history]

theorem History.after_result (h : History) {a : Action} {res : Bool} (hres : a.result = some res) :
    h.after a = ⟨!res, false⟩ := by
  unfold after
  split <;> simp_all

theorem History.after_begin (h : History) : h.after .begin = { h with restarted := h.failed } := rfl

theorem History.after_quiet (h : History) {a : Action} (hres : a.result = none) (hne : a ≠ .begin) :
    h.after a = h := by
  unfold after
  split <;> simp_all

namespace ModbusScanner

/-- The mark is the failure of the last scan. A loop that scans periodically knows it, but for a
loop begun after the failure. -/
structure Tracks (h : History) (s : ModbusScanner) : Prop where
  restarted : h.restarted = true → h.failed = true
  mark : s.modbusAddress ∈ s.transport.failingUnits ↔ h.failed = true
  checking : s.scanTask = some .checking → h.failed = false
  periodic : ∀ err interval, s.scanTask = some (.periodic err interval) →
    (err = true ↔ h.failed = true ∧ h.restarted = false)

variable {h : History} {s t : ModbusScanner} {a : Action}

theorem Tracks.quiet (hs : Tracks h s) (hstep : Step s a t) (hresult : a.result = none) :
    Tracks (h.after a) t := by
  obtain ⟨hmark, hperiodic, hchecking⟩ := hstep.quiet hresult
  by_cases hbegin : a = .begin
  · subst hbegin
    refine ⟨id, hmark.trans hs.mark, fun hc => hs.checking (hchecking hc), ?_⟩
    intro err interval htask
    rcases hperiodic err interval htask with ⟨hne, -⟩ | ⟨rfl, -⟩
    · exact absurd rfl hne
    · simp [History.after_begin]
  · rw [h.after_quiet hresult hbegin]
    refine ⟨hs.restarted, hmark.trans hs.mark, fun hc => hs.checking (hchecking hc), ?_⟩
    intro err interval htask
    rcases hperiodic err interval htask with ⟨-, hsame⟩ | ⟨rfl, hb | ⟨-, hc⟩⟩
    · exact hs.periodic err interval hsame
    · exact absurd hb hbegin
    · simp [hs.checking hc]

/-- The first scan sets the mark to its own failure, whatever it was. -/
theorem follows_firstScan {res populated : Bool} (hstep : Step s (.firstScan res populated) t) :
    Follows (.firstScan res populated) t ∧
      Tracks (h.after (.firstScan res populated)) t := by
  obtain ⟨interval, -, rfl⟩ := hstep.firstScan
  have hmark : ((s.afterFirstScan interval res populated).modbusAddress ∈
      (s.afterFirstScan interval res populated).transport.failingUnits) ↔ res = false := by
    cases res <;> cases populated <;> simp [afterFirstScan, setFailing]
  refine ⟨follows_iff.mpr fun res' hres => Option.some.inj hres ▸ hmark, ?_⟩
  rw [h.after_result rfl]
  refine ⟨by simp, by simpa using hmark, ?_, ?_⟩
  · cases res <;> simp [afterFirstScan]
  · cases res <;> cases populated <;> simp [afterFirstScan]

/-- A periodic scan sets the mark when its result differs from the error known to the loop. -/
theorem mark_afterScan (s : ModbusScanner) (err : Bool) (interval : ℚ) (res : Bool) :
    (s.afterScan err interval res).modbusAddress ∈
        (s.afterScan err interval res).transport.failingUnits ↔
      if err = res then res = false else s.modbusAddress ∈ s.transport.failingUnits := by
  cases res <;> cases err <;> simp [afterScan, setFailing]

/-- The mark follows a periodic scan unless the scan succeeds in a loop begun after a failure. -/
theorem follows_scan {res : Bool} (hs : Tracks h s) (hstep : Step s (.scan res) t) :
    (Follows (.scan res) t ↔ ¬(res = true ∧ h.restarted = true)) ∧
      (Follows (.scan res) t → Tracks (h.after (.scan res)) t) := by
  obtain ⟨err, interval, htask, rfl⟩ := hstep.scan
  have herr := hs.periodic err interval htask
  have hmark := s.mark_afterScan err interval res
  rw [hs.mark] at hmark
  have hfollows : Follows (.scan res) (s.afterScan err interval res) ↔
      ((s.afterScan err interval res).modbusAddress ∈
        (s.afterScan err interval res).transport.failingUnits ↔ res = false) := by
    rw [follows_iff]
    exact ⟨fun hf => hf res rfl, fun hf res' hres => Option.some.inj hres ▸ hf⟩
  have hrestarted := hs.restarted
  rw [hfollows, h.after_result rfl]
  constructor
  · rw [hmark]
    cases res <;> cases err <;> grind
  · intro hf
    refine ⟨by simp, by simpa using hf, by cases res <;> simp [afterScan], ?_⟩
    cases res <;> simp [afterScan]

/-- The scans that the mark follows, and what the run knows after them. -/
theorem Tracks.step (hs : Tracks h s) (hstep : Step s a t) :
    (Follows a t ↔ ¬(a = .scan true ∧ h.restarted = true)) ∧
      (¬(a = .scan true ∧ h.restarted = true) → Tracks (h.after a) t) := by
  cases hresult : a.result with
  | none =>
    have hne : a ≠ .scan true := by
      rintro rfl
      cases hresult
    have hfollows : Follows a t := by
      intro res hres
      rw [hresult] at hres
      cases hres
    exact ⟨⟨fun _ hbad => hne hbad.1, fun _ => hfollows⟩, fun _ => hs.quiet hstep hresult⟩
  | some res =>
    cases a with
    | firstScan res populated =>
      obtain ⟨hfollows, htracks⟩ := follows_firstScan (h := h) hstep
      simp [hfollows, htracks]
    | scan res =>
      obtain ⟨hiff, htracks⟩ := follows_scan hs hstep
      have hbad : (Action.scan res = .scan true ∧ h.restarted = true) ↔
          res = true ∧ h.restarted = true := by
        simp
      rw [hbad]
      exact ⟨hiff, fun hok => htracks (hiff.mpr hok)⟩
    | _ => cases hresult

/-- In a run of the scanner the mark of the unit follows every scan if and only if no periodic
scan succeeds as the first scan of a loop which began after a failed scan. -/
theorem failing_follows_iff {s₀ : ModbusScanner} (hinit : s₀.Initial) {actions : List Action}
    (hrun : Transition.Run Step s₀ actions s) :
    (∀ before a after t, actions = before ++ a :: after →
      Transition.Run Step s₀ (before ++ [a]) t → Follows a t) ↔
      ∀ before a after, actions = before ++ a :: after →
        ¬(a = .scan true ∧ (history before).restarted = true) := by
  refine hrun.always_iff (I := fun before s => Tracks (history before) s)
    (P := fun _ a t => Follows a t)
    (Q := fun before a => ¬(a = .scan true ∧ (history before).restarted = true)) Step.unique ?_ ?_
  · intro before s a t hs hstep
    rw [history_concat]
    exact hs.step hstep
  · have hnone := hinit.scanTask
    refine ⟨by simp [history], ?_, ?_, ?_⟩
    · simp [history, hinit.failing]
    · simp [hnone]
    · simp [hnone]

/-- A scanner of a unit 15, before its first start. -/
def unit15 : ModbusScanner where
  modbusAddress := 15
  scanInterval := 1 / 10
  scanTask := none
  scanEnabled := true
  populated := false
  transport := ⟨∅, ∅⟩

theorem unit15_initial : unit15.Initial := ⟨rfl, rfl, by simp [unit15], by norm_num [unit15]⟩

theorem failing_follows_iff_unit15 :
    ∃ s, Transition.Run Step unit15 [.startScanning, .begin, .firstScan true true, .checked,
        .scan false, .scan true] s ∧
      ∀ before a after t, [.startScanning, .begin, .firstScan true true, .checked, .scan false,
        .scan true] = before ++ a :: after →
        Transition.Run Step unit15 (before ++ [a]) t → Follows a t := by
  have hrun : ∃ s, Transition.Run Step unit15 [.startScanning, .begin, .firstScan true true,
      .checked, .scan false, .scan true] s :=
    ⟨_, .cons rfl (.cons rfl (.cons rfl (.cons rfl (.cons rfl (.cons rfl (.nil _))))))⟩
  obtain ⟨s, hrun⟩ := hrun
  refine ⟨s, hrun, (failing_follows_iff unit15_initial hrun).mpr ?_⟩
  rintro before a after hsplit ⟨rfl, hrestarted⟩
  have hlast : before = [.startScanning, .begin, .firstScan true true, .checked, .scan false] := by
    simp [List.cons_eq_append_iff] at hsplit
    grind
  rw [hlast] at hrestarted
  exact absurd hrestarted (by decide)

/-- A unit that responds again after a restart of its scan is still marked. -/
theorem not_failing_follows :
    ¬∀ (s₀ s : ModbusScanner) (actions : List Action), s₀.Initial →
      Transition.Run Step s₀ actions s →
      ∀ before a after t, actions = before ++ a :: after →
        Transition.Run Step s₀ (before ++ [a]) t → Follows a t := by
  intro hall
  let before : List Action := [.startScanning, .begin, .firstScan true true, .checked,
    .scan false, .stopScanning, .startScanning, .begin]
  have hrun : Transition.Run Step unit15 (before ++ [.scan true]) _ :=
    .cons rfl (.cons rfl (.cons rfl (.cons rfl (.cons rfl (.cons rfl (.cons rfl (.cons rfl
      (.cons rfl (.nil _)))))))))
  have hfollows := hall unit15 _ _ unit15_initial hrun before (.scan true) [] _ rfl hrun true rfl
  exact absurd hfollows.1 (by decide)

end ModbusScanner

end Scanner

end Evok
