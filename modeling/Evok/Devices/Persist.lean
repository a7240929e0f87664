import Evok.Devices.AliasTask

/-!
# The alias file after the shutdown

The save in the thread and the synchronous save at the cancellation use one temporary file. While
at most one of them is at work, the file is replaced by whole texts; at the end it has the aliases
of the registry at the cancellation, unless the last save failed.

## Main definitions

* `AliasTask.Careful`: a cancellation that loses no queued save, and a synchronous save without
  another one at work.
* `AliasTask.Inv`: what the files and the writers have in common.
* `AliasTask.Saves`: the aliases are saved, or are being saved, or the last save failed.

## Main results

* `Registry.exec_dirty`: a change of the saved aliases sets the dirty flag.
* `AliasTask.aliases_persist`: the alias file in the runs with careful cancellations.
-/

namespace Evok

namespace Devices

namespace Registry

variable {ι : Type} [DecidableEq ι] {dev : ι → Device}

variable (dev) in
/-- An operation sets the dirty flag, or it changes neither the flag nor the saved aliases. -/
theorem exec_dirty (r : Registry ι) (op : Op ι) :
    (r.exec dev op).1.dirty = true ∨
      ((r.exec dev op).1.dirty = r.dirty ∧
        (r.exec dev op).1.getDictToSave dev = r.getDictToSave dev) := by
  cases op with
  | register d =>
    cases hkey : dictOf (dev d).devtype with
    | none =>
      right
      simp [exec, registerDevice, hkey]
    | some key =>
      simp only [exec, registerDevice_eq hkey]
      rcases foldl_assignSaved_dirty dev
        (r.getAliasesByCircuit (dev d).devtype (dev d).circuit) r d with hdirty | hsame
      · exact .inl hdirty
      · right
        rw [hsame]
        exact ⟨rfl, rfl⟩
  | setAlias value d =>
    simp only [exec]
    rcases r.setAlias_cases dev value d with ⟨e, heq⟩ | ⟨-, heq⟩ | ⟨-, heq⟩ | ⟨name, -, -, -, -, heq⟩
    · exact .inr (by rw [heq]; exact ⟨rfl, rfl⟩)
    · exact .inr (by rw [heq]; exact ⟨rfl, rfl⟩)
    · rw [heq]
      refine (r.deleteOwn_dirty d).imp id fun hsame => ?_
      simp only [reset, hsame]
      exact ⟨rfl, rfl⟩
    · rw [heq]
      exact .inl rfl
  | remove name =>
    simp only [exec, remove]
    split
    · exact .inr ⟨rfl, rfl⟩
    · cases r.aliasDict.lookup name with
      | none =>
        refine (r.delete_dirty name).imp id fun hsame => ?_
        exact ⟨congrArg Registry.dirty hsame, congrArg (Registry.getDictToSave dev) hsame⟩
      | some d =>
        refine ((r.setAttr d "").delete_dirty name).imp id fun hsame => ?_
        simp only [hsame]
        exact ⟨rfl, rfl⟩

end Registry

/-! ## One operation of a save -/

section

variable {dump : Dict String Record → List Char} {files files' : Files Path Char} {w w' : Writer}
  {operation : Operation}

/-- The save goes on: until the rename the alias file keeps its content, then it has the text. -/
structure Continues (dump : Dict String Record → List Char) (files files' : Files Path Char)
    (w w' : Writer) (operation : Operation) : Prop where
  attempt : w'.attempt = w.attempt
  aliases : w'.aliases = w.aliases
  draft : ∀ fd written, w'.save = .writing fd written →
    files'.Draft .tmp fd (dump w'.aliases) written
  started : w'.save ≠ .opening
  unfinished : w.save ≠ .replaced
  opens : w.save = .opening → operation = .open
  content : files'.content .file =
    if w'.save = .replaced then some (dump w.aliases) else files.content .file

theorem saveAliases_inl (hwf : files.Wf)
    (hdraft : ∀ fd written, w.save = .writing fd written →
      files.Draft .tmp fd (dump w.aliases) written)
    (h : saveAliases dump files w operation = some (files', .inl w')) :
    files'.Wf ∧ Continues dump files files' w w' operation := by
  have hne : Path.file ≠ .tmp := by decide
  cases operation with
  | «open» =>
    simp only [saveAliases] at h
    split at h
    · next hsave =>
      simp only [Option.some.injEq, Prod.mk.injEq, Sum.inl.injEq] at h
      obtain ⟨rfl, rfl⟩ := h
      refine ⟨hwf.openTruncate _, rfl, rfl, ?_, by simp, by simp [hsave], fun _ => rfl, ?_⟩
      · rintro fd written heq
        cases heq
        exact Files.Draft.open _ _ _
      · simp [Files.content_openTruncate hwf hne]
    · cases h
  | write n =>
    simp only [saveAliases] at h
    split at h
    · next fd written hsave =>
      split at h
      · next hn =>
        simp only [Option.some.injEq, Prod.mk.injEq, Sum.inl.injEq] at h
        obtain ⟨rfl, rfl⟩ := h
        have hold := hdraft fd written hsave
        refine ⟨hwf.pwrite _ _ _, rfl, rfl, ?_, by simp, by simp [hsave], by simp [hsave], ?_⟩
        · rintro fd' written' heq
          cases heq
          exact hold.write hn.2
        · simp [hold.content_pwrite hwf hne]
      · cases h
    · cases h
  | replace =>
    simp only [saveAliases] at h
    split at h
    · next fd written hsave =>
      split at h
      · next hall =>
        obtain ⟨fs, hrename, heq⟩ := Option.map_eq_some_iff.mp h
        simp only [Prod.mk.injEq, Sum.inl.injEq] at heq
        obtain ⟨rfl, rfl⟩ := heq
        refine ⟨hwf.rename hrename, rfl, rfl, by simp, by simp, by simp [hsave], by simp [hsave], ?_⟩
        simp [(hdraft fd written hsave).rename hall.ge hrename]
      · cases h
    · cases h
  | sync =>
    simp only [saveAliases] at h
    split at h <;> cases h
  | fail => cases h

theorem saveAliases_inr {ok : Bool}
    (h : saveAliases dump files w operation = some (files', .inr ok)) :
    files' = files ∧ (ok = true → w.save = .replaced) := by
  cases operation with
  | «open» =>
    simp only [saveAliases] at h
    split at h <;> cases h
  | write n =>
    simp only [saveAliases] at h
    split at h
    · split at h <;> cases h
    · cases h
  | replace =>
    simp only [saveAliases] at h
    split at h
    · split at h
      · obtain ⟨fs, -, heq⟩ := Option.map_eq_some_iff.mp h
        cases heq
      · cases h
    · cases h
  | sync =>
    simp only [saveAliases] at h
    split at h
    · next hsave =>
      cases h
      exact ⟨rfl, fun _ => hsave⟩
    · cases h
  | fail =>
    cases h
    exact ⟨rfl, by simp⟩

end

namespace AliasTask

variable {ι : Type} {dev : ι → Device} {dump : Dict String Record → List Char}
  {files₀ : Files Path Char} {s t : AliasTask ι} {a : Action ι}

/-- The steps but the cancellations that drop a queued save of the last changes, and the
synchronous saves that open the temporary file while the thread is at work with it. -/
def Careful (s : AliasTask ι) : Action ι → Prop
  | .cancel => ∀ w, s.thread = .queued w → s.registry.dirty = true
  | .closing .open => ∀ w, s.thread = .working w → w.save = .replaced
  | _ => True

def CarefulStep [DecidableEq ι] (dev : ι → Device) (dump : Dict String Record → List Char) (s : AliasTask ι)
    (a : Action ι) (t : AliasTask ι) : Prop :=
  Step dump dev s a t ∧ s.Careful a

/-- The alias file is as it was at the start, or the whole text of one attempt. -/
def Complete (dump : Dict String Record → List Char) (files₀ : Files Path Char)
    (s : AliasTask ι) : Prop :=
  s.files.content .file = files₀.content .file ∨
    ∃ aliases ∈ s.taken, s.files.content .file = some (dump aliases)

/-- The writer saves aliases taken before, the temporary file is its draft. -/
structure Writes (dump : Dict String Record → List Char) (s : AliasTask ι) (w : Writer) :
    Prop where
  taken : w.aliases ∈ s.taken
  draft : ∀ fd written, w.save = .writing fd written →
    s.files.Draft .tmp fd (dump w.aliases) written

/-- What the writers and the files have in common. Two writers are never both in the files. -/
structure Inv (dump : Dict String Record → List Char) (files₀ : Files Path Char)
    (s : AliasTask ι) : Prop where
  wf : s.files.Wf
  complete : s.Complete dump files₀
  queued : ∀ w, s.thread = .queued w → s.work = .saving ∧ w.save = .opening ∧ w.aliases ∈ s.taken
  working : ∀ w, s.thread = .working w → s.Writes dump w
  closing : ∀ w, s.work = .closing w → s.Writes dump w
  alone : ∀ w w', s.work = .closing w → s.thread = .working w' →
    w.save = .opening ∨ w'.save = .replaced
  idle : s.work = .waitDirty ∨ s.work = .waitSave → s.thread = .idle

/-- The writer of the last attempt. -/
def AtWork (s : AliasTask ι) (w : Writer) : Prop :=
  s.work = .closing w ∨ (s.Running ∧ (s.thread = .queued w ∨ s.thread = .working w))

/-- No writer will change the files. -/
def Rests (s : AliasTask ι) : Prop :=
  s.Running ∧ (∀ w, s.thread ≠ .queued w) ∧ ∀ w, s.thread = .working w → w.save = .replaced

/-- The alias file has the aliases, or the last attempt saves them, unless it failed. -/
def Saves (Holds : Option (List Char) → Dict String Record → Prop)
    (dump : Dict String Record → List Char) (aliases : Dict String Record) (s : AliasTask ι) :
    Prop :=
  s.taken.length ∈ s.failed ∨
    (∃ w, s.AtWork w ∧ w.attempt = s.taken.length ∧ w.aliases = aliases ∧
      (w.save = .replaced → s.files.content .file = some (dump aliases))) ∨
    (s.Rests ∧ Holds (s.files.content .file) aliases)

/-! ## The files -/

theorem Complete.continues (hs : s.Complete dump files₀) {w w' : Writer} {operation : Operation}
    {files : Files Path Char} (htaken : w.aliases ∈ s.taken)
    (hcont : Continues dump s.files files w w' operation) :
    files.content .file = files₀.content .file ∨
      ∃ aliases ∈ s.taken, files.content .file = some (dump aliases) := by
  rw [hcont.content]
  split
  · exact .inr ⟨w.aliases, htaken, rfl⟩
  · exact hs

/-- The thread after an operation of its save. -/
theorem Inv.thread (hs : s.Inv dump files₀) {w : Writer} (hthread : s.thread = .working w)
    {operation : Operation} {files : Files Path Char} {progress : Progress}
    (hsaved : saveAliases dump s.files w operation = some (files, progress)) :
    (s.threadAfter w files progress).Inv dump files₀ := by
  have hw := hs.working w hthread
  have hidle : ¬(s.work = .waitDirty ∨ s.work = .waitSave) := by
    intro hwork
    have hnone := hs.idle hwork
    rw [hthread] at hnone
    cases hnone
  cases progress with
  | inr ok =>
    obtain ⟨rfl, -⟩ := saveAliases_inr hsaved
    refine ⟨hs.wf, hs.complete, by simp [threadAfter], by simp [threadAfter], ?_,
      by simp [threadAfter], fun hwork => absurd hwork hidle⟩
    intro w' hclosing
    obtain ⟨htaken, hdraft⟩ := hs.closing w' hclosing
    exact ⟨htaken, hdraft⟩
  | inl w' =>
    obtain ⟨hwf, hcont⟩ := saveAliases_inl hs.wf hw.draft hsaved
    refine ⟨hwf, hs.complete.continues hw.taken hcont, by simp [threadAfter], ?_, ?_, ?_,
      fun hwork => absurd hwork hidle⟩
    · rintro w'' heq
      obtain rfl := Thread.working.inj heq
      exact ⟨hcont.aliases ▸ hw.taken, hcont.draft⟩
    · -- the synchronous save has not opened the temporary file
      intro w'' hclosing
      have hopening := (hs.alone w'' w hclosing hthread).resolve_right hcont.unfinished
      exact ⟨(hs.closing w'' hclosing).taken, by simp [hopening]⟩
    · intro w'' w₁ hclosing _
      exact .inl ((hs.alone w'' w hclosing hthread).resolve_right hcont.unfinished)

/-- The task after an operation of its synchronous save. -/
theorem Inv.closing' (hs : s.Inv dump files₀) {w : Writer} (hwork : s.work = .closing w)
    {operation : Operation} (hcareful : s.Careful (.closing operation))
    {files : Files Path Char} {progress : Progress}
    (hsaved : saveAliases dump s.files w operation = some (files, progress)) :
    (s.closingAfter w files progress).Inv dump files₀ := by
  have hw := hs.closing w hwork
  have hqueued : ∀ w', s.thread ≠ .queued w' := by
    intro w' hthread
    have := (hs.queued w' hthread).1
    rw [hwork] at this
    cases this
  cases progress with
  | inr ok =>
    obtain ⟨rfl, -⟩ := saveAliases_inr hsaved
    refine ⟨hs.wf, hs.complete, fun w' hthread => absurd hthread (hqueued w'), ?_,
      by simp [closingAfter], by simp [closingAfter], by simp [closingAfter]⟩
    intro w' hthread
    obtain ⟨htaken, hdraft⟩ := hs.working w' hthread
    exact ⟨htaken, hdraft⟩
  | inl w' =>
    obtain ⟨hwf, hcont⟩ := saveAliases_inl hs.wf hw.draft hsaved
    have halone : ∀ w'', s.thread = .working w'' → w''.save = .replaced := by
      intro w'' hthread
      refine (hs.alone w w'' hwork hthread).elim (fun hopening => ?_) id
      have hopen := hcont.opens hopening
      subst hopen
      exact hcareful w'' hthread
    refine ⟨hwf, hs.complete.continues hw.taken hcont,
      fun w'' hthread => absurd hthread (hqueued w''), ?_, ?_, ?_, by simp [closingAfter]⟩
    · intro w'' hthread
      exact ⟨(hs.working w'' hthread).taken, by simp [halone w'' hthread]⟩
    · rintro w'' heq
      obtain rfl := Work.closing.inj heq
      exact ⟨hcont.aliases ▸ hw.taken, hcont.draft⟩
    · intro w₁ w'' _ hthread
      exact .inr (halone w'' hthread)

theorem Inv.congr (hs : s.Inv dump files₀) (hfiles : t.files = s.files)
    (htaken : t.taken = s.taken) (hthread : t.thread = s.thread) (hwork : t.work = s.work) :
    t.Inv dump files₀ := by
  have hwrites : ∀ w, s.Writes dump w → t.Writes dump w := by
    rintro w ⟨haliases, hdraft⟩
    exact ⟨htaken ▸ haliases, hfiles ▸ hdraft⟩
  refine ⟨hfiles ▸ hs.wf, ?_, ?_, ?_, ?_, ?_, ?_⟩
  · rw [Complete, hfiles, htaken]
    exact hs.complete
  · rw [hthread, hwork, htaken]
    exact hs.queued
  · rw [hthread]
    exact fun w hw => hwrites w (hs.working w hw)
  · rw [hwork]
    exact fun w hw => hwrites w (hs.closing w hw)
  · rw [hthread, hwork]
    exact hs.alone
  · rw [hthread, hwork]
    exact hs.idle

variable (dev) in
theorem Inv.getDictToSave (hs : s.Inv dump files₀) : (s.getDictToSave dev).Inv dump files₀ := by
  have hmem : ∀ aliases ∈ s.taken, aliases ∈ (s.getDictToSave dev).taken :=
    fun aliases h => List.mem_append_left _ h
  have hwrites : ∀ w, s.Writes dump w → (s.getDictToSave dev).Writes dump w := by
    rintro w ⟨haliases, hdraft⟩
    exact ⟨hmem _ haliases, hdraft⟩
  refine ⟨hs.wf, ?_, ?_, fun w hw => hwrites w (hs.working w hw),
    fun w hw => hwrites w (hs.closing w hw), hs.alone, hs.idle⟩
  · refine hs.complete.imp id ?_
    rintro ⟨aliases, haliases, hcontent⟩
    exact ⟨aliases, hmem _ haliases, hcontent⟩
  · intro w hw
    obtain ⟨hwork, hsave, haliases⟩ := hs.queued w hw
    exact ⟨hwork, hsave, hmem _ haliases⟩

theorem nextWriter_taken (s : AliasTask ι) :
    (s.nextWriter dev).aliases ∈ (s.getDictToSave dev).taken :=
  List.mem_append_right _ (List.mem_singleton_self _)

/-- The task ends, or it saves the last changes itself. -/
theorem Inv.cancelled (hs : s.Inv dump files₀) :
    (s.cancelled dev).Inv dump files₀ := by
  have hthread : ∀ w, s.thread.afterCancel = .working w → s.thread = .working w := by
    intro w hw
    cases hthread : s.thread <;> simp_all [Thread.afterCancel]
  have hqueued : ∀ w, s.thread.afterCancel ≠ .queued w := by
    intro w hw
    cases hthread : s.thread <;> simp_all [Thread.afterCancel]
  have hs' := hs.getDictToSave dev
  unfold AliasTask.cancelled
  dsimp only
  split
  · refine ⟨hs'.wf, hs'.complete, fun w hw => absurd hw (hqueued w), ?_, ?_, ?_, by simp⟩
    · intro w hw
      obtain ⟨htaken, hdraft⟩ := hs'.working w (hthread w hw)
      exact ⟨htaken, hdraft⟩
    · rintro w heq
      obtain rfl := Work.closing.inj heq
      exact ⟨nextWriter_taken s, by simp [nextWriter]⟩
    · rintro w w' heq -
      obtain rfl := Work.closing.inj heq
      exact .inl rfl
  · refine ⟨hs.wf, hs.complete, fun w hw => absurd hw (hqueued w), ?_, by simp, by simp, by simp⟩
    intro w hw
    obtain ⟨htaken, hdraft⟩ := hs.working w (hthread w hw)
    exact ⟨htaken, hdraft⟩

theorem Inv.step [DecidableEq ι] (hs : s.Inv dump files₀) (h : CarefulStep dev dump s a t) :
    t.Inv dump files₀ := by
  obtain ⟨hstep, hcareful⟩ := h
  cases hstep with
  | aliases running step => exact hs.congr rfl rfl rfl rfl
  | forceSave running => exact hs.congr rfl rfl rfl rfl
  | dirty work dirty =>
    have hidle := hs.idle (.inl work)
    refine ⟨hs.wf, hs.complete, ?_, ?_, by simp, by simp, fun _ => hidle⟩ <;> simp [hidle]
  | save work =>
    have hs' := hs.getDictToSave dev
    refine ⟨hs'.wf, hs'.complete, ?_, by simp, by simp, by simp, by simp⟩
    rintro w heq
    obtain rfl := Thread.queued.inj heq
    exact ⟨rfl, rfl, nextWriter_taken s⟩
  | take thread =>
    rename_i w
    obtain ⟨hwork, hsave, htaken⟩ := hs.queued w thread
    refine ⟨hs.wf, hs.complete, by simp, ?_, ?_, ?_, ?_⟩
    · rintro w' heq
      obtain rfl := Thread.working.inj heq
      exact ⟨htaken, by simp [hsave]⟩
    · simp [hwork]
    · simp [hwork]
    · simp [hwork]
  | thread thread saved => exact hs.thread thread saved
  | resume work thread =>
    refine ⟨hs.wf, hs.complete, ?_, ?_, ?_, ?_, ?_⟩ <;> simp
  | cancel running work => exact hs.cancelled
  | closing work saved => exact hs.closing' work hcareful saved

/-! ## The saved aliases -/

section

variable {Holds : Option (List Char) → Dict String Record → Prop} {aliases : Dict String Record}

theorem Saves.congr (h : s.Saves Holds dump aliases) (hfiles : t.files = s.files)
    (htaken : t.taken = s.taken) (hfailed : t.failed = s.failed) (hthread : t.thread = s.thread)
    (hwork : t.work = s.work) : t.Saves Holds dump aliases := by
  simpa only [Saves, AtWork, Rests, Running, hfiles, htaken, hfailed, hthread, hwork] using h

theorem mem_record {w : Writer} {ok : Bool} {n : ℕ} (h : n ∈ s.failed) : n ∈ s.record w ok := by
  unfold record
  split
  · exact h
  · exact Finset.mem_insert_of_mem h

theorem Saves.thread (hdump : ∀ aliases, Holds (some (dump aliases)) aliases)
    (hs : s.Inv dump files₀) (h : s.Saves Holds dump aliases) {w : Writer}
    (hthread : s.thread = .working w) {operation : Operation} {files : Files Path Char}
    {progress : Progress}
    (hsaved : saveAliases dump s.files w operation = some (files, progress)) :
    (s.threadAfter w files progress).Saves Holds dump aliases := by
  cases progress with
  | inr ok =>
    obtain ⟨rfl, hok⟩ := saveAliases_inr hsaved
    rcases h with hfailed | ⟨w₀, hwork | ⟨running, hw₀⟩, hattempt, haliases, hcontent⟩ | ⟨hrests, hholds⟩
    · exact .inl (mem_record hfailed)
    · exact .inr (.inl ⟨w₀, .inl hwork, hattempt, haliases, hcontent⟩)
    · obtain rfl : w = w₀ := by simpa [hthread] using hw₀
      cases ok with
      | true =>
        refine .inr (.inr ⟨⟨running, by simp [threadAfter], by simp [threadAfter]⟩, ?_⟩)
        rw [threadAfter, hcontent (hok rfl)]
        exact hdump _
      | false => exact .inl (by simp [threadAfter, record, hattempt])
    · exact .inr (.inr ⟨⟨hrests.1, by simp [threadAfter], by simp [threadAfter]⟩, hholds⟩)
  | inl w' =>
    obtain ⟨-, hcont⟩ := saveAliases_inl hs.wf (hs.working w hthread).draft hsaved
    rcases h with hfailed | ⟨w₀, hwork | ⟨running, hw₀⟩, hattempt, haliases, hcontent⟩ | ⟨hrests, hholds⟩
    · exact .inl hfailed
    · -- the synchronous save has not opened the temporary file
      have hopening := (hs.alone w₀ w hwork hthread).resolve_right hcont.unfinished
      exact .inr (.inl ⟨w₀, .inl hwork, hattempt, haliases, by simp [hopening]⟩)
    · obtain rfl : w = w₀ := by simpa [hthread] using hw₀
      refine .inr (.inl ⟨w', .inr ⟨running, .inr rfl⟩, hcont.attempt.trans hattempt,
        hcont.aliases.trans haliases, fun hreplaced => ?_⟩)
      rw [threadAfter, hcont.content, if_pos hreplaced, haliases]
    · exact absurd (hrests.2.2 w hthread) hcont.unfinished

theorem Saves.closing (hdump : ∀ aliases, Holds (some (dump aliases)) aliases)
    (hs : s.Inv dump files₀) (h : s.Saves Holds dump aliases) {w : Writer}
    (hwork : s.work = .closing w) {operation : Operation} {files : Files Path Char}
    {progress : Progress}
    (hsaved : saveAliases dump s.files w operation = some (files, progress)) :
    (s.closingAfter w files progress).Saves Holds dump aliases := by
  have hlast : s.taken.length ∈ s.failed ∨ (w.attempt = s.taken.length ∧ w.aliases = aliases ∧
      (w.save = .replaced → s.files.content .file = some (dump aliases))) := by
    rcases h with hfailed | ⟨w₀, hw₀ | ⟨running, -⟩, hattempt, haliases, hcontent⟩ | ⟨hrests, -⟩
    · exact .inl hfailed
    · obtain rfl := Work.closing.inj (hwork.symm.trans hw₀)
      exact .inr ⟨hattempt, haliases, hcontent⟩
    · exact absurd hwork (running w)
    · exact absurd hwork (hrests.1 w)
  cases progress with
  | inr ok =>
    obtain ⟨rfl, hok⟩ := saveAliases_inr hsaved
    rcases hlast with hfailed | ⟨hattempt, haliases, hcontent⟩
    · exact .inl (mem_record hfailed)
    · cases ok with
      | true =>
        refine .inr (.inr ⟨⟨by simp [closingAfter, Running], ?_, ?_⟩, ?_⟩)
        · intro w' hthread
          have hsaving := (hs.queued w' hthread).1
          rw [hwork] at hsaving
          cases hsaving
        · intro w' hthread
          refine (hs.alone w w' hwork hthread).resolve_left ?_
          simp [hok rfl]
        · rw [closingAfter, hcontent (hok rfl)]
          exact hdump _
      | false => exact .inl (by simp [closingAfter, record, hattempt])
  | inl w' =>
    obtain ⟨-, hcont⟩ := saveAliases_inl hs.wf (hs.closing w hwork).draft hsaved
    rcases hlast with hfailed | ⟨hattempt, haliases, hcontent⟩
    · exact .inl hfailed
    · refine .inr (.inl ⟨w', .inl rfl, hcont.attempt.trans hattempt,
        hcont.aliases.trans haliases, fun hreplaced => ?_⟩)
      rw [closingAfter, hcont.content, if_pos hreplaced, haliases]

/-- Before its cancellation the task saves the aliases of the registry, or it knows they are
dirty. -/
def Keeps (Holds : Option (List Char) → Dict String Record → Prop)
    (dump : Dict String Record → List Char) (dev : ι → Device) (s : AliasTask ι) : Prop :=
  s.work ≠ .ended → s.Running → s.registry.dirty = false →
    s.Saves Holds dump (s.registry.getDictToSave dev)

theorem Keeps.step [DecidableEq ι] (hdump : ∀ aliases, Holds (some (dump aliases)) aliases)
    (hs : s.Inv dump files₀) (hkeeps : s.Keeps Holds dump dev)
    (h : CarefulStep dev dump s a t) : t.Keeps Holds dump dev := by
  obtain ⟨hstep, hcareful⟩ := h
  intro hwork hrunning hdirty
  cases hstep with
  | aliases running step =>
    obtain ⟨-, rfl⟩ := step
    rename_i op
    rcases s.registry.exec_dirty dev op with hset | ⟨hsame, hdict⟩
    · rw [hset] at hdirty
      cases hdirty
    · rw [hdict]
      exact (hkeeps hwork running (hsame.symm.trans hdirty)).congr rfl rfl rfl rfl rfl
  | forceSave running => exact (hkeeps hwork running hdirty).congr rfl rfl rfl rfl rfl
  | dirty work dirty =>
    rw [dirty] at hdirty
    cases hdirty
  | save work =>
    refine .inr (.inl ⟨s.nextWriter dev, .inr ⟨by simp [Running], .inl rfl⟩, ?_, rfl, ?_⟩)
    · simp [nextWriter, AliasTask.getDictToSave]
    · simp [nextWriter]
  | take thread =>
    rename_i w
    rcases hkeeps hwork hrunning hdirty with hfailed | ⟨w₀, hwork₀ | ⟨-, hw₀⟩, hrest⟩ | ⟨hrests, -⟩
    · exact .inl hfailed
    · exact absurd hwork₀ (hrunning w₀)
    · obtain rfl : w = w₀ := by simpa [thread] using hw₀
      exact .inr (.inl ⟨w, .inr ⟨hrunning, .inr rfl⟩, hrest⟩)
    · exact absurd thread (hrests.2.1 w)
  | thread thread saved =>
    rename_i w operation files progress
    have hregistry : (s.threadAfter w files progress).registry = s.registry := by
      cases progress <;> rfl
    have hwork' : (s.threadAfter w files progress).work = s.work := by cases progress <;> rfl
    rw [hregistry] at hdirty ⊢
    have hrunning' : s.Running := by
      intro w' hw'
      exact hrunning w' (hwork'.trans hw')
    exact (hkeeps (hwork' ▸ hwork) hrunning' hdirty).thread hdump hs thread saved
  | resume work thread =>
    rename_i ok
    have hboth : s.registry.dirty = false ∧ ok = true := by simpa using hdirty
    have hrunning' : s.Running := by simp [Running, work]
    rcases hkeeps (by simp [work]) hrunning' hboth.1 with
      hfailed | ⟨w₀, hwork₀ | ⟨-, hw₀⟩, -⟩ | ⟨-, hholds⟩
    · exact .inl hfailed
    · exact absurd hwork₀ (hrunning' w₀)
    · simp [thread] at hw₀
    · exact .inr (.inr ⟨⟨hrunning, by simp, by simp⟩, hholds⟩)
  | cancel running work =>
    exfalso
    unfold AliasTask.cancelled at hwork hrunning
    dsimp only at hwork hrunning
    split at hwork
    · next hpending =>
      rw [if_pos hpending] at hrunning
      exact hrunning _ rfl
    · exact hwork rfl
  | closing work saved =>
    rename_i w operation files progress
    exfalso
    cases progress with
    | inl w' => exact hrunning w' rfl
    | inr ok => exact hwork rfl

/-- The cancellation: what is not saved is saved by the task itself. -/
theorem Keeps.cancelled (hkeeps : s.Keeps Holds dump dev)
    (running : s.Running) (hwork : s.work ≠ .ended)
    (hcareful : ∀ w, s.thread = .queued w → s.registry.dirty = true) :
    (s.cancelled dev).Saves Holds dump (s.registry.getDictToSave dev) := by
  unfold AliasTask.cancelled
  dsimp only
  split
  · refine .inr (.inl ⟨s.nextWriter dev, .inl rfl, ?_, rfl, ?_⟩)
    · simp [nextWriter, AliasTask.getDictToSave]
    · simp [nextWriter]
  · next hclean =>
    have hnot : ∀ w, s.thread ≠ .queued w := fun w hw => hclean (hcareful w hw)
    have hthread : s.thread.afterCancel = s.thread := by
      cases h : s.thread <;> simp_all [Thread.afterCancel]
    rw [hthread]
    rcases hkeeps hwork running (by simpa using hclean) with
      hfailed | ⟨w, hw | ⟨-, hw⟩, hrest⟩ | ⟨hrests, hholds⟩
    · exact .inl hfailed
    · exact absurd hw (running w)
    · exact .inr (.inl ⟨w, .inr ⟨by simp [Running], hw⟩, hrest⟩)
    · exact .inr (.inr ⟨⟨by simp [Running], hrests.2⟩, hholds⟩)

/-- After its cancellation the task is at its last save or ended. -/
def Cancelled (s : AliasTask ι) : Prop := s.work = .ended ∨ ∃ w, s.work = .closing w

theorem Saves.step [DecidableEq ι] (hdump : ∀ aliases, Holds (some (dump aliases)) aliases)
    (hs : s.Inv dump files₀) (hcancelled : s.Cancelled) (h : s.Saves Holds dump aliases)
    (hstep : CarefulStep dev dump s a t) : t.Cancelled ∧ t.Saves Holds dump aliases := by
  obtain ⟨hstep, -⟩ := hstep
  have hnot : ∀ work, s.work = work → work = .ended ∨ ∃ w, work = .closing w := by
    rintro work rfl
    exact hcancelled
  cases hstep with
  | aliases running step => exact ⟨hcancelled, h.congr rfl rfl rfl rfl rfl⟩
  | forceSave running => exact ⟨hcancelled, h.congr rfl rfl rfl rfl rfl⟩
  | dirty work dirty => simpa using hnot _ work
  | save work => simpa using hnot _ work
  | take thread =>
    have hsaving := (hs.queued _ thread).1
    simpa using hnot _ hsaving
  | thread thread saved =>
    rename_i w operation files progress
    have hwork : (s.threadAfter w files progress).work = s.work := by cases progress <;> rfl
    rw [Cancelled, hwork]
    exact ⟨hcancelled, h.thread hdump hs thread saved⟩
  | resume work thread => simpa using hnot _ work
  | cancel running work =>
    rcases hcancelled with hended | ⟨w, hw⟩
    · exact absurd hended work
    · exact absurd hw (running w)
  | closing work saved =>
    rename_i w operation files progress
    refine ⟨?_, h.closing hdump hs work saved⟩
    cases progress with
    | inl w' => exact .inr ⟨w', rfl⟩
    | inr ok => exact .inl rfl

end

theorem Inv.init {r : Registry ι} {files : Files Path Char} (hwf : files.Wf) :
    (AliasTask.init r files).Inv dump files := by
  refine ⟨hwf, .inl rfl, ?_, ?_, ?_, ?_, fun _ => rfl⟩ <;> simp [AliasTask.init]

/-- In the runs whose cancellation is careful the alias file is always a whole text, and when the
task has ended and no thread is at work it has the aliases of the registry at the cancellation,
unless the last attempt failed. -/
theorem aliases_persist [DecidableEq ι]
    {Holds : Option (List Char) → Dict String Record → Prop}
    (hdump : ∀ aliases, Holds (some (dump aliases)) aliases) {r : Registry ι}
    {files : Files Path Char} (hwf : files.Wf)
    (hstart : Holds (files.content .file) (r.getDictToSave dev)) :
    (∀ actions s, Transition.Run (CarefulStep dev dump) (init r files) actions s →
      s.Complete dump files) ∧
    ∀ before after s₁ s₂ s, Transition.Run (CarefulStep dev dump) (init r files) before s₁ →
      CarefulStep dev dump s₁ .cancel s₂ → Transition.Run (CarefulStep dev dump) s₂ after s →
      s.work = .ended → (∀ w, s.thread ≠ .working w) → s.taken.length ∉ s.failed →
      Holds (s.files.content .file) (s₁.registry.getDictToSave dev) := by
  have hinv : ∀ actions s, Transition.Run (CarefulStep dev dump) (init r files) actions s →
      s.Inv dump files := by
    intro actions s hrun
    exact hrun.invariant (fun _ _ _ hs h => hs.step h) (.init hwf)
  refine ⟨fun actions s hrun => (hinv actions s hrun).complete, ?_⟩
  intro before after s₁ s₂ s hbefore hcancel hafter hended hthread hok
  have hkeeps₀ : (init r files).Keeps Holds dump dev := by
    intro _ _ _
    exact .inr (.inr ⟨⟨by simp [Running, init], by simp [init], by simp [init]⟩, hstart⟩)
  have hkeeps : s₁.Keeps Holds dump dev := by
    refine (hbefore.invariant (I := fun s => s.Inv dump files ∧ s.Keeps Holds dump dev) ?_
      ⟨.init hwf, hkeeps₀⟩).2
    rintro u a v ⟨hu, hk⟩ hstep
    exact ⟨hu.step hstep, hk.step hdump hu hstep⟩
  have hinv₂ : s₂.Inv dump files := (hinv _ _ hbefore).step hcancel
  have hsaves₂ : s₂.Cancelled ∧
      s₂.Saves Holds dump (s₁.registry.getDictToSave dev) := by
    obtain ⟨hstep, hcareful⟩ := hcancel
    cases hstep with
    | cancel running work =>
      refine ⟨?_, hkeeps.cancelled running work hcareful⟩
      unfold cancelled
      dsimp only
      split
      · exact .inr ⟨_, rfl⟩
      · exact .inl rfl
  have hend := hafter.invariant (I := fun s => s.Inv dump files ∧ s.Cancelled ∧
      s.Saves Holds dump (s₁.registry.getDictToSave dev)) (by
    rintro u a v ⟨hu, hc, hsaves⟩ hstep
    exact ⟨hu.step hstep, hsaves.step hdump hu hc hstep⟩) ⟨hinv₂, hsaves₂⟩
  obtain ⟨hs, -, hsaves⟩ := hend
  rcases hsaves with hfailed | ⟨w, hw | ⟨-, hw | hw⟩, -⟩ | ⟨-, hholds⟩
  · exact absurd hfailed hok
  · rw [hended] at hw
    cases hw
  · have hsaving := (hs.queued w hw).1
    rw [hended] at hsaving
    cases hsaving
  · exact absurd hw (hthread w)
  · exact hholds

/-- The text of aliases of devices, in their order. -/
def relaysText (aliases : Dict String Record) : List Char :=
  if aliases.items = [] then "aliases: {}\nversion: '2.0'\n".toList
  else
    "aliases:\n".toList ++ (aliases.items.flatMap fun item =>
      match item.2.circuit, item.2.devtype with
      | .str circuit, .str devtype =>
        "  ".toList ++ item.1.toList ++ ":\n    circuit: '".toList ++ circuit.toList ++
          "'\n    devtype: ".toList ++ devtype.toList ++ ['\n']
      | _, _ => []) ++ "version: '2.0'\n".toList

/-- The alias file of a registry without aliases. -/
def emptyFile : Files Path Char where
  inode
    | .file => some 0
    | .tmp => none
  data _ := relaysText ∅
  next := 1

/-- The registry of the first relay. -/
def relayRegistry : Registry (Fin 3) := (Registry.exec Registry.relays {} (.register Registry.firstRelay)).1

/-- The registry after an alias of the relay. -/
def named (r : Registry (Fin 3)) (name : String) : Registry (Fin 3) :=
  (Registry.exec Registry.relays r (.setAlias (.str name) Registry.firstRelay)).1

theorem emptyFile_wf : emptyFile.Wf := by
  constructor <;> simp only [emptyFile] <;> grind

theorem aliases_persist_relays :
    ∃ s, Transition.Run (CarefulStep Registry.relays relaysText)
        ({ init relayRegistry emptyFile with registry := named relayRegistry "pump" }.cancelled
          Registry.relays)
        [.closing .open, .closing (.write 68), .closing .replace, .closing .sync] s ∧
      s.files.content .file =
        some (relaysText ((named relayRegistry "pump").getDictToSave Registry.relays)) := by
  have hpersist := @aliases_persist _ Registry.relays relaysText _
    (fun content aliases => content = some (relaysText aliases)) (fun _ => rfl)
    relayRegistry _ emptyFile_wf rfl
  have hbefore : Transition.Run (CarefulStep Registry.relays relaysText)
      (init relayRegistry emptyFile) [.aliases (.setAlias (.str "pump") 0)]
      { init relayRegistry emptyFile with registry := named relayRegistry "pump" } :=
    .cons ⟨.aliases (by simp [Running, init]) ⟨trivial, rfl⟩, trivial⟩ (.nil _)
  have hafter : ∃ s, Transition.Run (CarefulStep Registry.relays relaysText)
      ({ init relayRegistry emptyFile with registry := named relayRegistry "pump" }.cancelled
        Registry.relays)
      [.closing .open, .closing (.write 68), .closing .replace, .closing .sync] s ∧
      s.work = .ended ∧ (∀ w, s.thread ≠ .working w) ∧ s.taken.length ∉ s.failed :=
    ⟨_, .cons ⟨.closing rfl rfl, fun w h => (by cases h)⟩ (.cons ⟨.closing rfl rfl, trivial⟩
      (.cons ⟨.closing rfl rfl, trivial⟩ (.cons ⟨.closing rfl rfl, trivial⟩ (.nil _)))),
      rfl, fun w h => (by cases h), by decide⟩
  obtain ⟨s, hrun, hended, hthread, hok⟩ := hafter
  exact ⟨s, hrun, hpersist.2 _ _ _ _ _ hbefore
    ⟨.cancel (by simp [Running, init]) (by simp [init]), by simp [Careful, init]⟩ hrun hended
    hthread hok⟩

/-- The alias is changed while a thread has begun the save of the one before it. -/
def changedWhileSaving : AliasTask (Fin 3) where
  registry := named { named relayRegistry "pump" with dirty := false } "fan"
  saveTrigger := false
  work := .saving
  thread := .working ⟨1, (named relayRegistry "pump").getDictToSave Registry.relays, .opening⟩
  files := emptyFile
  taken := [(named relayRegistry "pump").getDictToSave Registry.relays]
  failed := ∅

/-- The thread replaces the aliases saved at the cancellation by the older ones. -/
theorem not_aliases_persist :
    ¬∀ before after s₁ s₂ s,
      Transition.Run (Step relaysText Registry.relays) (init relayRegistry emptyFile) before s₁ →
      Step relaysText Registry.relays s₁ .cancel s₂ →
      Transition.Run (Step relaysText Registry.relays) s₂ after s →
      s.work = .ended → (∀ w, s.thread ≠ .working w) → s.taken.length ∉ s.failed →
      s.files.content .file = some (relaysText (s₁.registry.getDictToSave Registry.relays)) := by
  intro hall
  have hbefore : Transition.Run (Step relaysText Registry.relays) (init relayRegistry emptyFile)
      [.aliases (.setAlias (.str "pump") 0), .dirty, .save, .take,
        .aliases (.setAlias (.str "fan") 0)] changedWhileSaving :=
    .cons (.aliases (by simp [Running, init]) ⟨trivial, rfl⟩) (.cons (.dirty rfl rfl)
      (.cons (.save rfl) (.cons (.take rfl)
        (.cons (.aliases (by simp [Running]) ⟨trivial, rfl⟩) (.nil _)))))
  have hafter : ∃ s, Transition.Run (Step relaysText Registry.relays)
      (changedWhileSaving.cancelled Registry.relays)
      [.closing .open, .closing (.write 67), .closing .replace, .closing .sync,
        .thread .open, .thread (.write 68), .thread .replace, .thread .sync] s ∧
      s.work = .ended ∧ (∀ w, s.thread ≠ .working w) ∧ s.taken.length ∉ s.failed ∧
      s.files.content .file ≠
        some (relaysText (changedWhileSaving.registry.getDictToSave Registry.relays)) :=
    ⟨_, .cons (.closing rfl rfl) (.cons (.closing rfl rfl) (.cons (.closing rfl rfl)
      (.cons (.closing rfl rfl) (.cons (.thread rfl rfl) (.cons (.thread rfl rfl)
        (.cons (.thread rfl rfl) (.cons (.thread rfl rfl) (.nil _)))))))),
      rfl, fun w h => (by cases h), by decide, by decide⟩
  obtain ⟨s, hrun, hended, hthread, hok, hlost⟩ := hafter
  have hcancel : Step relaysText Registry.relays changedWhileSaving .cancel
      (changedWhileSaving.cancelled Registry.relays) :=
    .cancel (by simp [Running, changedWhileSaving]) (by simp [changedWhileSaving])
  exact hlost (hall _ _ _ _ _ hbefore hcancel hrun hended hthread hok)

end AliasTask

end Devices

end Evok
