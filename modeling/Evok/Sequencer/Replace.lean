import Evok.Sequencer.Progress

/-!
# Cancelled and replaced sequences

A sequence which was taken out of `_running` begins no `device.set()` any more, a change of a
device is refused while its sequence runs, and a change with a sequence which fails leaves the
running one alone.

## Main results

* `Sequencer.removed_begins_nothing`, `refused_writes_nothing`, `accepted_not_overwritten`,
  `failed_pulse_keeps` : the parts.
* `Sequencer.no_stale_step` : all of them.
-/


namespace Evok

namespace Sequencer

variable {D U P : Type*} [DecidableEq D] [DecidableEq U] [DecidableEq P] {unit : D → U}
  {s s₁ s₂ s' : Sequencer D U P} {d : D} {j k i : Nat} {t : Task D P} {c : Call D U P}
  {x : Item D P} {l : Event D} {ls : List (Event D)}

/-- A step of the change `j`. -/
def Event.ofCall (l : Event D) (j : Nat) : Prop :=
  l = .call j ∨ ∃ i d, l = .begins (.call j i) d ∨ l = .begins (.pulse j i) d ∨
    ∃ o, l = .ends (.call j i) d o ∨ l = .ends (.pulse j i) d o

omit [DecidableEq D] in
theorem ofCall_call (h : (Event.call i : Event D).ofCall j) : i = j := by
  simpa [Event.ofCall] using h

omit [DecidableEq D] [DecidableEq P] in
theorem ofCall_begins {i' : Nat} (h : (Event.begins (x.writer i i') d).ofCall j) : i = j := by
  unfold Item.writer at h
  split at h <;> simp_all [Event.ofCall]

omit [DecidableEq D] [DecidableEq P] in
theorem ofCall_ends {i' : Nat} {o : Outcome} (h : (Event.ends (x.writer i i') d o).ofCall j) :
    i = j := by
  unfold Item.writer at h
  split at h <;> simp_all [Event.ofCall]

/-! ## A removed sequence -/

/-- The sequence of the device is another one after an event which removes it. -/
theorem not_running_of_removes (h : s.Registered) (hs : Step unit s l s') (hl : l.removes d)
    (running : s.running d = some k) : s'.running d ≠ some k := by
  obtain ⟨t, task, -⟩ := h.entry d k running
  have known : k < s.tasks.length := (List.getElem?_eq_some_iff.mp task).1
  rcases hl with rfl | rfl | ⟨j, i, rfl⟩ | rfl
  · cases hs
    simp [known.ne']
  · cases hs
    simp [cancel]
  · generalize hm : Event.ends (.pulse j i) d .success = m at hs
    cases hs with
    | @isSet j' c' i' x' call phase item =>
      obtain ⟨hw, hd, -⟩ := Event.ends.inj hm
      subst hd
      unfold startItem
      split
      · next none => simp [Item.writer, none] at hw
      · simp [known.ne']
    | raises => cases (Event.ends.inj hm).2.2
    | _ => cases hm
  · cases hs
    simp [finishAll]

/-- A sequence which is not in `_running` begins no `device.set()`. -/
theorem begins_nothing (h : s.Registered) (task : s.tasks[k]? = some t)
    (out : s.running t.device ≠ some k) (run : Transition.Run (Step unit) s ls s') :
    ∀ m ∈ ls, ∀ w e, m ≠ .begins (.task k w) e := by
  let I (s : Sequencer D U P) := s.Registered ∧
    ∃ a, s.tasks[k]? = some a ∧ s.running a.device ≠ some k
  refine run.labels_of_invariant (I := I) ?_ ?_ ⟨h, t, task, out⟩
  · rintro s l s' ⟨reg, a, ha, hout⟩ hs
    obtain ⟨b, hb, later⟩ := later_step reg hs ha
    exact ⟨reg.step hs, b, hb, later.device ▸ never_current reg hs ha hout⟩
  · rintro s l s' ⟨reg, a, ha, hout⟩ hs w e rfl
    obtain ⟨a', ha', hd, -, running, -⟩ := current_of_begins hs
    obtain rfl : a = a' := by simpa [ha] using ha'
    exact hout (hd ▸ running)

/-- Once the running sequence of a device was removed, its task begins nothing. -/
theorem removed_begins_nothing (reach : s.Reachable unit) (running : s.running d = some k)
    (hs : Step unit s l s₁) (hl : l.removes d) (run : Transition.Run (Step unit) s₁ ls s₂) :
    s₁.running d ≠ some k ∧ ∀ m ∈ ls, ∀ w e, m ≠ .begins (.task k w) e := by
  have reg := reach.inv.registered
  have out := not_running_of_removes reg hs hl running
  obtain ⟨t, task, rfl⟩ := reg.entry d k running
  obtain ⟨a, ha, later⟩ := later_step reg hs task
  exact ⟨out, begins_nothing (reg.step hs) ha (later.device ▸ out) run⟩

/-! ## A refused change -/

/-- The operation of the change has ended. -/
def Over (s : Sequencer D U P) (j : Nat) : Prop :=
  ∃ c, s.calls[j]? = some c ∧ (c.phase = .reading ∨ c.phase = .ended)

omit [DecidableEq D] [DecidableEq U] [DecidableEq P] in
theorem over_set {p : CallPhase} (h : s.Over j) (call : s.calls[i]? = some c)
    (hp : c.phase ≠ .reading ∧ c.phase ≠ .ended ∨ p = .ended) :
    ∃ c', (s.calls.set i { c with phase := p })[j]? = some c' ∧
      (c'.phase = .reading ∨ c'.phase = .ended) := by
  obtain ⟨c₁, call₁, settled⟩ := h
  by_cases hi : j = i
  · subst hi
    obtain rfl : c₁ = c := by simpa [call] using call₁.symm
    rcases hp with hp | rfl
    · exact absurd settled (by simp [hp])
    · exact ⟨{ c₁ with phase := .ended }, by grind, .inr rfl⟩
  · exact ⟨c₁, by grind, settled⟩

theorem Over.step (h : s.Over j) (hs : Step unit s l s') : s'.Over j := by
  cases hs with
  | locks call phase => exact over_set h call (.inl (by simp [phase]))
  | available call phase => exact over_set h call (.inl (by simp [phase]))
  | sets call phase => exact over_set h call (.inl (by simp [phase]))
  | refused call phase => exact over_set h call (.inl (by simp [phase]))
  | done call phase => exact over_set h call (.inl (by simp [phase]))
  | isSet call phase =>
    simp only [Over, startItem_calls]
    exact over_set h call (.inl (by simp [phase]))
  | raises call phase => exact over_set h call (.inl (by simp [phase]))
  | leaves call phase => exact over_set h call (.inr rfl)
  | releases call phase => exact over_set h call (.inr rfl)
  | request u items =>
    obtain ⟨c, call, settled⟩ := h
    exact ⟨c, by grind, settled⟩
  | start => simpa [Over] using h
  | cancel => simpa [Over, cancel] using h
  | ends => simpa [Over] using h
  | reads => simpa [Over] using h
  | stopped => simpa [Over] using h
  | stoppedRead => simpa [Over] using h
  | _ => exact h

omit [DecidableEq D] [DecidableEq P] in
theorem writer_eq {j' i' : Nat} {y : Writer} (hy : y = .call j i ∨ y = .pulse j i)
    (h : x.writer j' i' = y) : j' = j ∧ i' = i := by
  unfold Item.writer at h
  rcases hy with rfl | rfl <;> split at h <;> simp_all

/-- A change begins only the assignment it has reached, if it is not refused. -/
theorem reached_of_begins {y : Writer} (hs : Step unit s (.begins y d) s')
    (hy : y = .call j i ∨ y = .pulse j i) :
    ∃ c x, s.calls[j]? = some c ∧ c.phase = .reached i ∧ c.items[i]? = some x ∧ x.device = d ∧
      s.refuses x = false ∧ x.writer j i = y := by
  generalize hm : Event.begins y d = m at hs
  cases hs with
  | @sets j' c i' x call phase item accepted =>
    obtain ⟨hw, hd⟩ := Event.begins.inj hm
    obtain ⟨rfl, rfl⟩ := writer_eq hy hw.symm
    exact ⟨c, x, call, phase, item, hd.symm, accepted, hw.symm⟩
  | begins => rcases hy with rfl | rfl <;> cases hm
  | finalBegins => rcases hy with rfl | rfl <;> cases hm
  | _ => cases hm

/-- A change which has ended its operation sets nothing more. -/
theorem over_begins_nothing (h : s.Over j) (run : Transition.Run (Step unit) s ls s') :
    ∀ m ∈ ls, ∀ y i e, (y = .call j i ∨ y = .pulse j i) → m ≠ .begins y e := by
  refine run.labels_of_invariant (I := fun s => s.Over j) (fun _ _ _ h hs => h.step hs) ?_ h
  rintro s l s' ⟨c, call, settled⟩ hs y i e hy rfl
  obtain ⟨c', x, call', phase, -⟩ := reached_of_begins hs hy
  obtain rfl : c' = c := by simpa [call] using call'.symm
  simp [phase] at settled

/-- A change which reaches a device while its sequence runs ends there: the device is not set, and
nothing after it. -/
theorem refused_writes_nothing (call : s.calls[j]? = some c) (phase : c.phase = .reached i)
    (item : c.items[i]? = some x) (param : x.aliasOnly = false) (plain : x.sequence = none)
    (running : s.running x.device ≠ none) (hs : Step unit s l s₁) (hl : l.ofCall j) :
    l = .call j ∧ s₁ = s.setCall j { c with phase := .reading } ∧
      ∀ ls s₂, Transition.Run (Step unit) s₁ ls s₂ →
        ∀ m ∈ ls, ∀ y i e, (y = .call j i ∨ y = .pulse j i) → m ≠ .begins y e := by
  have refuses : s.refuses x = true := by
    simpa [refuses, param, plain, Option.isSome_iff_ne_none] using running
  have bound : j < s.calls.length := (List.getElem?_eq_some_iff.mp call).1
  suffices l = .call j ∧ s₁ = s.setCall j { c with phase := .reading } by
    obtain ⟨rfl, rfl⟩ := this
    refine ⟨rfl, rfl, fun ls s₂ run => over_begins_nothing ?_ run⟩
    exact ⟨{ c with phase := .reading }, by simp [bound], .inl rfl⟩
  have same : ∀ {i : Nat} {c' : Call D U P}, s.calls[i]? = some c' → i = j → c' = c := by
    rintro i c' h rfl
    simpa [call] using h.symm
  cases hs with
  | @refused j' c' i' x' call' phase' item' refused' =>
    obtain rfl : j' = j := ofCall_call hl
    obtain rfl := same call' rfl
    exact ⟨rfl, rfl⟩
  | locks call' phase' => simp [same call' (ofCall_call hl), phase] at phase'
  | available call' phase' => simp [same call' (ofCall_call hl), phase] at phase'
  | @sets j' c' i' x' call' phase' item' accepted =>
    obtain rfl : j' = j := ofCall_begins hl
    obtain rfl := same call' rfl
    obtain rfl : i = i' := by simpa [phase] using phase'
    obtain rfl : x' = x := by simpa [item] using item'.symm
    simp [refuses] at accepted
  | @done j' c' i' call' phase' item' =>
    obtain rfl := same call' (ofCall_call hl)
    obtain rfl : i = i' := by simpa [phase] using phase'
    simp [item] at item'
  | isSet call' phase' => simp [same call' (ofCall_ends hl), phase] at phase'
  | raises call' phase' => simp [same call' (ofCall_ends hl), phase] at phase'
  | leaves call' phase' => simp [same call' (ofCall_call hl), phase] at phase'
  | releases call' phase' => simp [same call' (ofCall_call hl), phase] at phase'
  | _ => simp [Event.ofCall] at hl

/-- Only a successful change with a sequence of the device touches the sequences. -/
theorem call_keeps_sequences (hs : Step unit s l s') (hl : l.ofCall j)
    (failed : ∀ i d, l ≠ .ends (.pulse j i) d .success) :
    s'.running = s.running ∧ s'.tasks = s.tasks := by
  cases hs with
  | @isSet j' c' i' x' call phase item =>
    have plain : x'.sequence = none := by
      cases hq : x'.sequence with
      | none => rfl
      | some q =>
        have pulse : x'.writer j' i' = .pulse j' i' := by simp [Item.writer, hq]
        obtain rfl : j' = j := ofCall_ends hl
        exact absurd (by rw [pulse]) (failed i' x'.device)
    simp [startItem, plain]
  | locks => exact ⟨rfl, rfl⟩
  | available => exact ⟨rfl, rfl⟩
  | sets => exact ⟨rfl, rfl⟩
  | refused => exact ⟨rfl, rfl⟩
  | done => exact ⟨rfl, rfl⟩
  | raises => exact ⟨rfl, rfl⟩
  | leaves => exact ⟨rfl, rfl⟩
  | releases => exact ⟨rfl, rfl⟩
  | _ => simp [Event.ofCall] at hl

/-! ## An accepted change -/

/-- No task before the number `n` writes the device or will write it. -/
structure Free (n : Nat) (d : D) (s : Sequencer D U P) : Prop where
  known : n ≤ s.tasks.length
  out : ∀ (k : Nat) (t : Task D P), k < n → s.tasks[k]? = some t → t.device = d →
    s.running d ≠ some k
  idle : ∀ (k : Nat) (t : Task D P) (w : Work), k < n → s.tasks[k]? = some t → t.device = d →
    t.phase ≠ .writing w

namespace Free

variable {n : Nat}

theorem step (h : Free n d s) (reg : s.Registered) (hs : Step unit s l s') : Free n d s' := by
  have before : ∀ (k : Nat) (a : Task D P), k < n → s'.tasks[k]? = some a → a.device = d →
      ∃ t, s.tasks[k]? = some t ∧ t.device = d ∧ Later l k t a := by
    intro k a hk ha hd
    obtain ⟨t, task⟩ : ∃ t, s.tasks[k]? = some t :=
      ⟨_, List.getElem?_eq_getElem (hk.trans_le h.known)⟩
    obtain ⟨a', ha', later⟩ := later_step reg hs task
    obtain rfl : a' = a := by simpa [ha] using ha'.symm
    exact ⟨t, task, later.device ▸ hd, later⟩
  refine ⟨?_, ?_, ?_⟩
  · by_contra short
    have bound := h.known
    obtain ⟨t, task⟩ : ∃ t, s.tasks[s'.tasks.length]? = some t :=
      ⟨_, List.getElem?_eq_getElem (by omega)⟩
    obtain ⟨a, ha, -⟩ := later_step reg hs task
    simp at ha
  · intro k a hk ha hd
    obtain ⟨t, task, rfl, -⟩ := before k a hk ha hd
    exact never_current reg hs task (h.out k t hk task rfl)
  · intro k a w hk ha hd hw
    obtain ⟨t, task, htd, later⟩ := before k a hk ha hd
    rcases later.writing w hw with writing | rfl
    · exact h.idle k t w hk task htd writing
    · obtain ⟨t₁, -, -, -, running, -⟩ := current_of_begins hs
      exact h.out k t hk task htd (htd ▸ running)

/-- From then on only newer sequences write the device. -/
theorem newer (h : Free n d s) (reg : s.Registered) (run : Transition.Run (Step unit) s ls s') :
    ∀ m ∈ ls, ∀ k w o, m = .begins (.task k w) d ∨ m = .ends (.task k w) d o → n ≤ k := by
  refine run.labels_of_invariant (I := fun s => s.Registered ∧ Free n d s)
    (fun _ _ _ h hs => ⟨h.1.step hs, h.2.step h.1 hs⟩) ?_ ⟨reg, h⟩
  rintro s l s' ⟨reg, h⟩ hs k w o hm
  by_contra old
  rcases hm with rfl | rfl
  · obtain ⟨t, task, hd, -, running, -⟩ := current_of_begins hs
    exact h.out k t (by omega) task hd running
  · obtain ⟨t, task, hd, writing⟩ := writing_of_ends hs
    exact h.idle k t w (by omega) task hd writing

end Free

omit [DecidableEq D] [DecidableEq U] in
/-- While a change sets its devices, no task writes a device of its unit. -/
theorem not_writing_of_call (inv : s.Inv unit) (call : s.calls[j]? = some c)
    (holds : c.phase.holds = true) (item : x ∈ c.items) (task : s.tasks[k]? = some t)
    (device : t.device = x.device) (w : Work) : t.phase ≠ .writing w := by
  intro writing
  have own := (inv.locked.held c.unit (.call j)).mpr ⟨c, call, rfl, holds⟩
  have other := (inv.locked.held (unit t.device) (.task k)).mpr
    ⟨t, task, rfl, by simp [writing, Phase.holds]⟩
  rw [device, inv.grouped j c call x item, own] at other
  cases other

/-- An accepted change of a device is not overwritten by a sequence started before it. -/
theorem accepted_not_overwritten (inv : s.Inv unit) (hs : Step unit s (.begins (.call j i) d) s₁)
    (param : ∀ c x, s.calls[j]? = some c → c.items[i]? = some x → x.aliasOnly = false)
    (run : Transition.Run (Step unit) s₁ ls s₂) :
    ∀ m ∈ ls, ∀ k w o, m = .begins (.task k w) d ∨ m = .ends (.task k w) d o →
      s.tasks.length ≤ k := by
  obtain ⟨c, x, call, phase, item, rfl, accepted, writer⟩ := reached_of_begins hs (.inl rfl)
  have plain : x.sequence = none := by
    by_contra hq
    simp [Item.writer, Option.isSome_iff_ne_none.mpr hq] at writer
  have free : s.running x.device = none := by
    simpa [refuses, plain, param c x call item] using accepted
  have start : Free s.tasks.length x.device s := by
    refine ⟨le_rfl, fun k t _ _ _ hk => by simp [free] at hk, fun k t w _ task hd => ?_⟩
    exact not_writing_of_call inv call (by simp [phase, CallPhase.holds])
      (List.mem_of_getElem? item) task hd w
  exact (start.step inv.registered hs).newer (inv.registered.step hs) run

/-- A change with a sequence of its device starts it after the successful `device.set()`. -/
theorem set_of_pulse (hs : Step unit s (.ends (.pulse j i) d .success) s') :
    ∃ c x, s.calls[j]? = some c ∧ c.phase = .setting i ∧ x ∈ c.items ∧ x.device = d ∧
      s'.running d = some s.tasks.length := by
  generalize hm : Event.ends (.pulse j i) d .success = m at hs
  cases hs with
  | @isSet j' c i' x call phase item =>
    obtain ⟨hw, hd, -⟩ := Event.ends.inj hm
    obtain ⟨rfl, rfl⟩ := writer_eq (.inr rfl) hw.symm
    refine ⟨c, x, call, phase, List.mem_of_getElem? item, hd.symm, ?_⟩
    cases hq : x.sequence with
    | none => simp [Item.writer, hq] at hw
    | some q => simp [startItem, hq, hd]
  | raises => cases (Event.ends.inj hm).2.2
  | _ => cases hm

/-- A set pulse of a device is not overwritten by a sequence started before it. -/
theorem pulse_not_overwritten (inv : s.Inv unit)
    (hs : Step unit s (.ends (.pulse j i) d .success) s₁)
    (run : Transition.Run (Step unit) s₁ ls s₂) :
    ∀ m ∈ ls, ∀ k w o, m = .begins (.task k w) d ∨ m = .ends (.task k w) d o →
      s.tasks.length ≤ k := by
  obtain ⟨c, x, call, phase, item, rfl, running⟩ := set_of_pulse hs
  have before : ∀ k : Nat, k < s.tasks.length → ∀ a, s₁.tasks[k]? = some a →
      ∃ t, s.tasks[k]? = some t ∧ Later (.ends (.pulse j i) x.device .success) k t a := by
    intro k hk a ha
    obtain ⟨b, hb, later⟩ := later_step inv.registered hs (List.getElem?_eq_getElem hk)
    obtain rfl : b = a := by simpa [ha] using hb.symm
    exact ⟨_, List.getElem?_eq_getElem hk, later⟩
  have start : Free s.tasks.length x.device s₁ := by
    refine ⟨?_, fun k a hk _ _ hr => ?_, fun k a w hk ha hd hw => ?_⟩
    · obtain ⟨a, ha, -⟩ := (inv.registered.step hs).entry x.device _ running
      exact (List.getElem?_eq_some_iff.mp ha).1.le
    · rw [running] at hr
      exact absurd (Option.some.inj hr) hk.ne'
    · obtain ⟨t, task, later⟩ := before k hk a ha
      rcases later.writing w hw with writing | begins
      · exact not_writing_of_call inv call (by simp [phase, CallPhase.holds]) item task
          (later.device ▸ hd) w writing
      · cases begins
  exact start.newer (inv.registered.step hs) run

/-! ## A failed change with a sequence -/

/-- Without an event which removes it, a sequence is unregistered only when its last step or its
final state was written, or when it was refused. -/
theorem running_until (reach : s.Reachable unit) (running : s.running d = some k)
    (run : Transition.Run (Step unit) s ls s') (kept : ∀ m ∈ ls, ¬ m.removes d)
    (out : s'.running d ≠ some k) :
    ∃ t, s'.tasks[k]? = some t ∧ t.device = d ∧
      (t.step = t.sequence.steps.length ∨ (∃ i, .final i ∈ successes (s'.attempts k)) ∨
        t.sequence.Refused (s'.attempts k)) := by
  let I (s : Sequencer D U P) := s.Inv unit ∧
    ∃ t, s.tasks[k]? = some t ∧ t.device = d ∧ t.removed = false
  have start : I s := by
    have inv := reach.inv
    obtain ⟨t, task, rfl⟩ := inv.registered.entry d k running
    exact ⟨inv, t, task, rfl, ((inv.registered.registered k t task).mp running).1⟩
  obtain ⟨inv, t, task, rfl, live⟩ : I s' := by
    refine run.invariant_of_labels (I := I) ?_ kept start
    rintro s l s' hl ⟨inv, t, task, rfl, live⟩ hs
    obtain ⟨a, ha, later⟩ := later_step inv.registered hs task
    refine ⟨inv.step hs, a, ha, later.device, ?_⟩
    by_contra removed
    have := (later.removes (by simpa using removed)).resolve_left (by simp [live])
    exact hl this
  exact ⟨t, task, rfl, (unregistered_cases inv task out).resolve_left (by simp [live])⟩

/-- No task begins a `device.set()` after its sequence was removed. A change of a device is refused
while a sequence of it runs, and an accepted one is not overwritten by an older sequence. A change
with a sequence of its device which is not set leaves the running one with its task as it is, and
this one still ends only by its writes. -/
theorem no_stale_step :
    (∀ {s s₁ s₂ : Sequencer D U P} {l : Event D} {ls : List (Event D)} {d : D} {k : Nat},
      s.Reachable unit → s.running d = some k → Step unit s l s₁ → l.removes d →
      Transition.Run (Step unit) s₁ ls s₂ →
      s₁.running d ≠ some k ∧ ∀ m ∈ ls, ∀ w e, m ≠ .begins (.task k w) e) ∧
    (∀ {s s₁ : Sequencer D U P} {l : Event D} {j i : Nat} {c : Call D U P} {x : Item D P},
      s.Reachable unit → s.calls[j]? = some c → c.phase = .reached i → c.items[i]? = some x →
      x.aliasOnly = false → x.sequence = none → s.running x.device ≠ none →
      Step unit s l s₁ → l.ofCall j →
      l = .call j ∧ s₁ = s.setCall j { c with phase := .reading } ∧
        ∀ ls s₂, Transition.Run (Step unit) s₁ ls s₂ →
          ∀ m ∈ ls, ∀ y i e, (y = .call j i ∨ y = .pulse j i) → m ≠ .begins y e) ∧
    (∀ {s s₁ s₂ : Sequencer D U P} {l : Event D} {ls : List (Event D)} {d : D} {j i : Nat},
      s.Reachable unit → Step unit s l s₁ →
      (l = .begins (.call j i) d ∧ (∀ c x, s.calls[j]? = some c → c.items[i]? = some x →
        x.aliasOnly = false) ∨ l = .ends (.pulse j i) d .success) →
      Transition.Run (Step unit) s₁ ls s₂ →
      ∀ m ∈ ls, ∀ k w o, m = .begins (.task k w) d ∨ m = .ends (.task k w) d o →
        s.tasks.length ≤ k) ∧
    (∀ {s s₁ : Sequencer D U P} {l : Event D} {j : Nat}, s.Reachable unit →
      Step unit s l s₁ → l.ofCall j → (∀ i d, l ≠ .ends (.pulse j i) d .success) →
      s₁.running = s.running ∧ s₁.tasks = s.tasks) ∧
    (∀ {s s' : Sequencer D U P} {ls : List (Event D)} {d : D} {k : Nat}, s.Reachable unit →
      s.running d = some k → Transition.Run (Step unit) s ls s' → (∀ m ∈ ls, ¬ m.removes d) →
      s'.running d ≠ some k →
      ∃ t, s'.tasks[k]? = some t ∧ t.device = d ∧
        (t.step = t.sequence.steps.length ∨ (∃ i, .final i ∈ successes (s'.attempts k)) ∨
          t.sequence.Refused (s'.attempts k))) := by
  refine ⟨removed_begins_nothing, fun _ => refused_writes_nothing, ?_,
    fun _ => call_keeps_sequences, running_until⟩
  rintro s s₁ s₂ l ls d j i reach hs (⟨rfl, param⟩ | rfl) run
  · exact accepted_not_overwritten reach.inv hs param run
  · exact pulse_not_overwritten reach.inv hs run

/-- A plain change of device 0 in a phase. -/
def plainCall (phase : CallPhase) : Call Nat Nat Nat := ⟨0, [⟨0, false, none⟩], phase⟩

/-- A plain change reaches device 0 while its pulse runs. -/
def pulseRunning : Sequencer Nat Nat Nat :=
  let s : Sequencer Nat Nat Nat :=
    { (init.start 0 (.pulse 0) : Sequencer Nat Nat Nat) with calls := [plainCall .waiting] }
  ((s.setLock 0 (some (.call 0))).setCall 0 (plainCall .checking)).setCall 0
    (plainCall (.reached 0))

theorem reachable_pulseRunning : pulseRunning.Reachable id := by
  let s : Sequencer Nat Nat Nat := init.start 0 (.pulse 0)
  let s₁ : Sequencer Nat Nat Nat := { s with calls := [plainCall .waiting] }
  let s₂ := (s₁.setLock 0 (some (.call 0))).setCall 0 (plainCall .checking)
  have started : Step id init (.start 0) s := .start 0 _
  have requested : Step id s (.request 0) s₁ := .request 0 [⟨0, false, none⟩] (by simp)
  have locked : Step id s₁ (.call 0) s₂ := .locks (c := plainCall .waiting) rfl rfl rfl
  have reached : Step id s₂ (.call 0) pulseRunning :=
    .available (c := plainCall .checking) rfl rfl
  exact .trans (.of_init rfl) (.cons started (.cons requested (.cons locked (.single reached))))

/-- The change is refused while the pulse runs, and is accepted after the pulse is cancelled, whose
task does not begin its end. -/
theorem no_stale_step_pulse :
    (∀ s₁, Step id pulseRunning (.call 0) s₁ →
      s₁ = pulseRunning.setCall 0 (plainCall .reading)) ∧
    ∀ m ∈ [Event.begins (.call 0 0) 0], ∀ w (e : Nat), m ≠ .begins (.task 0 w) e := by
  obtain ⟨removed, refused, -⟩ := @no_stale_step Nat Nat Nat _ _ _ id
  refine ⟨fun s₁ hs => ?_, ?_⟩
  · exact (refused (c := plainCall (.reached 0)) reachable_pulseRunning rfl rfl rfl rfl rfl
      (by decide) hs (.inl rfl)).2.1
  · have accepted : Step id (pulseRunning.cancel 0) (.begins (.call 0 0) 0)
        ((pulseRunning.cancel 0).setCall 0 (plainCall (.setting 0))) :=
      .sets (c := plainCall (.reached 0)) (x := ⟨0, false, none⟩) rfl rfl rfl rfl
    exact (removed reachable_pulseRunning rfl (.cancel 0) (.inr (.inl rfl)) (.single accepted)).2

end Sequencer

end Evok
