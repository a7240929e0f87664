import Evok.Modbus.TwoRegisters

/-!
# One holding register over the operations of a client

Every operation of a client does one thing with a cached holding register, whatever the blocks
are. A read of the blocks, up to its first error, is a read of the registers of some of them.

## Main definitions

* `ClientEvent.onRegister`: what an operation does with a register.
* `Register.Shows`: a register and its pin have a value.
* `BlocksRead`: the blocks after a read of some of them.

## Main results

* `ClientStep.register`: the registers after an operation.
* `ModbusCacheMap.doScan_blocks`, `ModbusCacheMap.readChanged_blocks`: the blocks which are read.
-/

namespace Evok

namespace Modbus

namespace Register

variable {v w : Word} {x : Register}

/-- The pin of a register has the value. -/
def PinnedTo (v : Word) (x : Register) : Prop :=
  ∀ p ∈ x.pin, p.value = v

/-- A register and its pin have the value. -/
structure Shows (v : Word) (x : Register) : Prop where
  value : x.value = some v
  pin : x.PinnedTo v

theorem PinnedTo.read (h : x.PinnedTo v) (now : Time) (o : Option Word) :
    (x.read now o).PinnedTo v :=
  fun pin hpin => h pin (Option.mem_filter_iff.mp hpin).1

theorem PinnedTo.read_value (h : x.PinnedTo v) (now : Time) {o : Option Word}
    (ho : o.or x.value = some v) : (x.read now o).value = some v := by
  unfold Register.read
  cases hpin : x.pin with
  | none => exact ho
  | some pin =>
    dsimp only
    split
    · rw [h pin hpin]
    · exact ho

/-- A response with the value of the unit. -/
theorem PinnedTo.shows (h : x.PinnedTo v) (now : Time) : (x.read now (some v)).Shows v :=
  ⟨h.read_value now rfl, h.read now _⟩

/-- An expired pin is dropped by a read. -/
theorem shows_of_expired {now : Time} (expired : ∀ p ∈ x.pin, p.keptUntil ≤ now) (v : Word) :
    (x.read now (some v)).value = some v ∧ (x.read now (some v)).pin = none := by
  cases hpin : x.pin with
  | none => simp [Register.read, hpin]
  | some pin =>
    have hle := expired pin hpin
    have hnot : ¬now < pin.keptUntil := not_lt.mpr hle
    simp [Register.read, hpin, hnot, hle]

theorem PinnedTo.renewed (h : x.PinnedTo v) (keptUntil : Time) (written : Bool) :
    (x.renewed keptUntil written).PinnedTo v := by
  intro pin hpin
  obtain ⟨old, hold, rfl⟩ := Option.map_eq_some_iff.mp hpin
  cases written <;> exact h old hold

/-- A write pins its value or drops the pin. -/
theorem pinnedTo_write (cache pin : Bool) (keptUntil : Time) (v : Word) (x : Register) :
    (x.write cache pin keptUntil (some v)).PinnedTo v := by
  cases pin with
  | true =>
    rintro p hp
    obtain rfl := Option.some.inj hp
    rfl
  | false => exact fun p hp => by cases hp

theorem value_write (pin : Bool) (keptUntil : Time) (v : Word) (x : Register) :
    (x.write true pin keptUntil (some v)).value = some v := by
  cases pin <;> rfl

end Register

/-! ## The operations of a client -/

/-- What an operation does with a holding register. -/
def ClientEvent.onRegister (s : ClientState) (r : ℕ) : ClientEvent → Register → Register
  | .write index values cache pin, x =>
    x.write cache (pin && s.client.periodicScan) (s.now + rereadDelay) (block (index, values) r)
  | .setRegister index values, x => x.store (block (index, values) r)
  | .restarted, x => x.cleared
  | .endWrites, x =>
    match s.client.written with
    | some registers => x.renewed (s.now + rereadDelay) (registers.contains (r, false))
    | none => x
  | .readBlock false address response, x =>
    match block (address, response) r with
    | some v => x.read s.now (some v)
    | none => x
  | .getRegisterAsync false index response, x => x.read s.now (block (index, response) r)
  | _, x => x

variable {c : ModbusCacheMap} {r : ℕ}

/-- The blocks after an operation on each of them. -/
theorem mapGroups_register {f : RegisterGroup → RegisterGroup}
    (same : ∀ g : RegisterGroup, g.Same (f g)) {g' : RegisterGroup}
    (hg' : g' ∈ (c.mapGroups false f).groups) (ha' : g'.isMember r) :
    ∃ g ∈ c.groups, g.isMember r ∧ g' = f g := by
  obtain ⟨g, hg, rfl⟩ := List.mem_map.mp hg'
  exact ⟨g, hg, by rwa [(same g).isMember] at ha', rfl⟩

/-- A response of another block has no register of this one. -/
theorem block_of_split {isInput : Bool} (wf : c.WF) {before after : List RegisterGroup}
    {g g' : RegisterGroup} (split : c.groupsOf isInput = before ++ g :: after)
    (hother : g' ∈ before ++ after) (ha' : g'.isMember r) {response : List Word}
    (complete : response.length = g.count) : block (g.address, response) r = none := by
  rw [← Option.not_isSome_iff_eq_none, block_isSome, complete, ← RegisterGroup.isMember_iff]
  exact fun ha => notMember_of_split wf split ha g' hother ha'

/-- The registers after an operation. -/
theorem ClientStep.register {s s' : ClientState} {e : ClientEvent} (hs : ClientStep s e s')
    (wf : s.client.cache.WF) {g' : RegisterGroup} (hg' : g' ∈ s'.client.cache.groups)
    (ha' : g'.isMember r) :
    ∃ g ∈ s.client.cache.groups, g.isMember r ∧
      g'.register r = e.onRegister s r (g.register r) := by
  cases hs with
  | tick | begin => exact ⟨g', hg', ha', rfl⟩
  | @write index values cache pin =>
    dsimp only at hg'
    rw [Client.writeRegisters_cache] at hg'
    obtain ⟨g, hg, ha, rfl⟩ :=
      mapGroups_register (RegisterGroup.write_same · _ _ _ _ _) hg' ha'
    exact ⟨g, hg, ha, RegisterGroup.register_write (wf.holding hg) ha _ _ _ _ _⟩
  | @setRegister index values =>
    obtain ⟨g, hg, ha, rfl⟩ := mapGroups_register (RegisterGroup.update_same · _ _ _ _) hg' ha'
    exact ⟨g, hg, ha, RegisterGroup.register_store (wf.holding hg) ha _ _⟩
  | restarted =>
    obtain ⟨g, hg, rfl⟩ := List.mem_map.mp hg'
    exact ⟨g, hg, ha', rfl⟩
  | endWrites =>
    cases hwritten : s.client.written with
    | some registers =>
      simp only [Client.endWrites, hwritten] at hg'
      obtain ⟨g, hg, ha, rfl⟩ :=
        mapGroups_register (RegisterGroup.renewPins_same · false registers _) hg' ha'
      refine ⟨g, hg, ha, ?_⟩
      simp only [ClientEvent.onRegister, hwritten, List.contains_eq_mem]
      exact RegisterGroup.register_renewPins g r false registers _
    | none =>
      simp only [Client.endWrites, hwritten] at hg'
      exact ⟨g', hg', ha', by simp only [ClientEvent.onRegister, hwritten]⟩
  | @readBlock isInput before after g response split complete =>
    cases isInput with
    | true => exact ⟨g', hg', ha', rfl⟩
    | false =>
      have hgroups : s.client.cache.groups = before ++ g :: after := split
      have hother : g' ∈ before ++ after → ∃ g₀ ∈ s.client.cache.groups, g₀.isMember r ∧
          g'.register r = (ClientEvent.readBlock false g.address response).onRegister s r
            (g₀.register r) := by
        intro hmem
        refine ⟨g', ?_, ha', ?_⟩
        · rw [hgroups]
          exact List.mem_append.mpr ((List.mem_append.mp hmem).imp_right (List.mem_cons_of_mem _))
        · simp only [ClientEvent.onRegister, block_of_split wf split hmem ha' complete]
      rcases List.mem_append.mp hg' with hmem | hmem
      · exact hother (List.mem_append_left _ hmem)
      rcases List.mem_cons.mp hmem with rfl | hmem
      · have ha : g.isMember r := by
          rwa [(g.update_same s.now g.address response true).isMember] at ha'
        have hg : g ∈ s.client.cache.groups := by
          rw [hgroups]
          exact List.mem_append_right _ List.mem_cons_self
        have hcovers : (block (g.address, response) r).isSome := by
          rw [block_isSome, complete, ← RegisterGroup.isMember_iff]
          exact ha
        obtain ⟨v, hv⟩ := Option.isSome_iff_exists.mp hcovers
        refine ⟨g, hg, ha, ?_⟩
        rw [RegisterGroup.register_update (wf.holding hg) ha]
        simp only [ClientEvent.onRegister, hv]
      · exact hother (List.mem_append_right _ hmem)
  | endRead read error =>
    cases error <;> exact ⟨g', hg', ha', rfl⟩
  | setCounters initial =>
    obtain ⟨g, hg, ha, rfl⟩ := mapGroups_register (RegisterGroup.counter_same initial) hg' ha'
    exact ⟨g, hg, ha, by cases initial <;> rfl⟩
  | @getRegisterAsync isInput index response =>
    simp only [ClientState.withCache, ModbusCacheMap.getRegisterAsync_fst] at hg'
    cases isInput with
    | true => exact ⟨g', hg', ha', rfl⟩
    | false =>
      obtain ⟨g, hg, ha, rfl⟩ := mapGroups_register (RegisterGroup.update_same · _ _ _ _) hg' ha'
      exact ⟨g, hg, ha, RegisterGroup.register_update (wf.holding hg) ha _ _ _⟩

/-- A read changes only the cache. -/
theorem ClientStep.of_isRead {s t : ClientState} {e : ClientEvent} (hs : ClientStep s e t)
    (isRead : e.IsRead) : ∃ c, t = s.withCache c := by
  cases hs with
  | readBlock => exact ⟨_, rfl⟩
  | endRead => exact ⟨_, rfl⟩
  | setCounters => exact ⟨_, rfl⟩
  | _ => exact isRead.elim

/-! ## Reads of the blocks -/

/-- The registers of the blocks after a read of some of them, the ones of `wanted` are read. -/
def BlocksRead (now : Time) (reply : RegisterGroup → Except CommError (List Word))
    (wanted : RegisterGroup → Prop) (gs gs' : List RegisterGroup) : Prop :=
  ∀ g' ∈ gs', ∃ g ∈ gs, g.Same g' ∧
    ((∃ g₀ response, g.Same g₀ ∧ reply g₀ = .ok response ∧ ∀ r, g.isMember r →
      g'.register r = (g.register r).read now (block (g.address, response) r)) ∨
      ¬wanted g ∧ ∀ r, g'.register r = g.register r)

namespace BlocksRead

variable {now : Time} {reply : RegisterGroup → Except CommError (List Word)}
  {wanted wanted' : RegisterGroup → Prop} {gs gs' : List RegisterGroup}

theorem mono (h : BlocksRead now reply wanted gs gs') (sub : ∀ g ∈ gs, wanted' g → wanted g) :
    BlocksRead now reply wanted' gs gs' := by
  intro g' hg'
  obtain ⟨g, hg, hsame, h⟩ := h g' hg'
  exact ⟨g, hg, hsame, h.imp_right fun h => ⟨fun hw => h.1 (sub g hg hw), h.2⟩⟩

/-- No block is read. -/
theorem refl (none : ∀ g ∈ gs, ¬wanted g) : BlocksRead now reply wanted gs gs :=
  fun g hg => ⟨g, hg, .refl g, .inr ⟨none g hg, fun _ => rfl⟩⟩

theorem cons {g g' : RegisterGroup} (first : BlocksRead now reply wanted [g] [g'])
    (rest : BlocksRead now reply wanted gs gs') :
    BlocksRead now reply wanted (g :: gs) (g' :: gs') := by
  intro h hh
  rcases List.mem_cons.mp hh with rfl | hh
  · obtain ⟨g₀, hg₀, hread⟩ := first h List.mem_cons_self
    exact ⟨g₀, List.mem_cons.mpr (.inl (List.mem_singleton.mp hg₀)), hread⟩
  · obtain ⟨g₀, hg₀, hread⟩ := rest h hh
    exact ⟨g₀, List.mem_cons_of_mem _ hg₀, hread⟩

/-- The counters are changed after the read. -/
theorem map (h : BlocksRead now reply wanted gs gs') {f : RegisterGroup → RegisterGroup}
    (same : ∀ g : RegisterGroup, g.Same (f g)) (kept : ∀ g r, (f g).register r = g.register r) :
    BlocksRead now reply wanted gs (gs'.map f) := by
  intro g'' hg''
  obtain ⟨g', hg', rfl⟩ := List.mem_map.mp hg''
  obtain ⟨g, hg, hsame, h⟩ := h g' hg'
  refine ⟨g, hg, hsame.trans (same g'), ?_⟩
  simpa only [kept] using h

/-- The counters are changed before the read. -/
theorem of_map {f : RegisterGroup → RegisterGroup}
    (h : BlocksRead now reply (fun g => ∃ g₀, g = f g₀ ∧ wanted g₀) (gs.map f) gs')
    (same : ∀ g : RegisterGroup, g.Same (f g)) (kept : ∀ g r, (f g).register r = g.register r) :
    BlocksRead now reply wanted gs gs' := by
  intro g' hg'
  obtain ⟨g₁, hg₁, hsame, h⟩ := h g' hg'
  obtain ⟨g, hg, rfl⟩ := List.mem_map.mp hg₁
  have address : (f g).address = g.address := congrArg RegisterGroup.Shape.address (same g)
  refine ⟨g, hg, (same g).trans hsame, h.imp ?_ ?_⟩
  · rintro ⟨g₀, response, hsame₀, hreply, h⟩
    refine ⟨g₀, response, (same g).trans hsame₀, hreply, fun r ha => ?_⟩
    rw [h r (by rwa [(same g).isMember]), kept, address]
  · exact fun h => ⟨fun hw => h.1 ⟨g, rfl, hw⟩, fun r => (h.2 r).trans (kept g r)⟩

end BlocksRead

theorem ModbusCacheMap.readValues_of_some (index : ℕ) {α : Type} (f : α → Word) (as : List α) :
    ModbusCacheMap.readValues index (as.map fun a => some (f a)) = .ok (as.map f) := by
  induction as generalizing index with
  | nil => rfl
  | cons a as ih => simp [ModbusCacheMap.readValues, ih, Functor.map, Except.map]

section

variable {now : Time} {reply : Bool → RegisterGroup → Except CommError (List Word)}

theorem readList_blocks (now : Time) (wanted : RegisterGroup → Bool)
    (reply : RegisterGroup → Except CommError (List Word)) {gs : List RegisterGroup}
    (wf : ∀ g ∈ gs, g.WF) : BlocksRead now reply
      (fun g => (ModbusCacheMap.readList now wanted reply gs).2.2 = none ∧ wanted g) gs
      (ModbusCacheMap.readList now wanted reply gs).1 := by
  induction gs with
  | nil => exact .refl fun g h => by cases h
  | cons g gs ih =>
    obtain ⟨hg, wf⟩ := List.forall_mem_cons.mp wf
    simp only [ModbusCacheMap.readList]
    split
    · split
      · exact .refl fun g _ h => by cases h.1
      · next response hreply =>
        refine .cons (fun g' hg' => ?_) (ih wf)
        obtain rfl := List.mem_singleton.mp hg'
        exact ⟨g, List.mem_singleton_self g, g.update_same _ _ _ _, .inl ⟨g, response, rfl, hreply,
          fun r ha => RegisterGroup.register_update hg ha _ _ _⟩⟩
    · next hwanted =>
      refine .cons (.refl fun g' hg' h => ?_) (ih wf)
      obtain rfl := List.mem_singleton.mp hg'
      exact hwanted h.2

theorem readGroups_blocks (now : Time)
    (reply : Bool → RegisterGroup → Except CommError (List Word)) (wf : c.WF)
    (wanted : RegisterGroup → Bool → Bool) :
    BlocksRead now (reply false)
      (fun g => (c.readGroups now wanted reply).2 = true ∧ wanted g false) c.groups
      (c.readGroups now wanted reply).1.groups := by
  have hread := readList_blocks now (wanted · false) (reply false) fun _ => wf.holding
  unfold ModbusCacheMap.readGroups
  rcases hfirst : ModbusCacheMap.readList now (wanted · false) (reply false) c.groups with
    ⟨groups, read, error⟩
  rw [hfirst] at hread
  cases error with
  | some e => exact hread.mono fun g _ h => by cases h.1
  | none =>
    rcases hsecond : ModbusCacheMap.readList now (wanted · true) (reply true) c.igroups with
      ⟨igroups, iread, error⟩
    cases error <;> exact hread.mono fun g _ h => ⟨rfl, h.2⟩

/-- The counters of a scan, before it or after it. -/
def resetCounter (initial : Bool) (g : RegisterGroup) : RegisterGroup :=
  if initial then g.clearCounter else g

theorem resetCounter_same (initial : Bool) (g : RegisterGroup) : g.Same (resetCounter initial g) := by
  cases initial <;> rfl

theorem register_resetCounter (initial : Bool) (g : RegisterGroup) (r : ℕ) :
    (resetCounter initial g).register r = g.register r := by
  cases initial <;> rfl

/-- The first scan and the scan of all groups read all blocks. -/
theorem doScan_blocks (wf : c.WF) (initial allGroups : Bool) :
    BlocksRead now (reply false)
      (fun _ => (c.doScan now reply initial allGroups).2 = true ∧
        (initial = true ∨ allGroups = true)) c.groups
      (c.doScan now reply initial allGroups).1.groups := by
  have hstart : ∃ c₀ : ModbusCacheMap, c₀ = (if initial then
      (c.mapGroups false (·.clearCounter)).mapGroups true (·.clearCounter) else c) ∧
        c₀.WF ∧ c₀.groups = c.groups.map (resetCounter initial) := by
    refine ⟨_, rfl, ?_⟩
    cases initial with
    | true =>
      have hsame := (ModbusCacheMap.mapGroups_same (RegisterGroup.counter_same true) c false).trans
        (ModbusCacheMap.mapGroups_same (RegisterGroup.counter_same true) _ true)
      exact ⟨hsame.wf wf, rfl⟩
    | false => exact ⟨wf, (List.map_id _).symm⟩
  obtain ⟨c₀, hc₀, wf₀, hgroups⟩ := hstart
  have hread := readGroups_blocks now reply wf₀
    fun g _ => allGroups || g.fCounter == 0 || g.pinExpired now
  rw [hgroups] at hread
  unfold ModbusCacheMap.doScan
  rw [← hc₀]
  refine .of_map (f := resetCounter initial) ?_ (resetCounter_same initial)
    (register_resetCounter initial)
  dsimp only
  rcases hresult : c₀.readGroups now
    (fun g _ => allGroups || g.fCounter == 0 || g.pinExpired now) reply with ⟨c', _ | _⟩
  · exact (hresult ▸ hread).mono fun g _ ⟨_, _, h, _⟩ => by cases h
  · rw [hresult] at hread
    have hall : BlocksRead now (reply false) (fun g => ∃ g₀, g = resetCounter initial g₀ ∧
        (initial = true ∨ allGroups = true)) (c.groups.map (resetCounter initial)) c'.groups :=
      hread.mono fun g _ hw => by
        obtain ⟨g₀, rfl, rfl | rfl⟩ := hw
        · exact ⟨rfl, by simp [resetCounter, RegisterGroup.clearCounter]⟩
        · exact ⟨rfl, rfl⟩
    have hdone : BlocksRead now (reply false) (fun g => ∃ g₀, g = resetCounter initial g₀ ∧
        (true = true ∧ (initial = true ∨ allGroups = true))) (c.groups.map (resetCounter initial))
        c'.groups :=
      hall.mono fun g _ ⟨g₀, hg₀, _, h⟩ => ⟨g₀, hg₀, h⟩
    cases allGroups with
    | true => exact hdone
    | false => exact hdone.map (fun _ => rfl) fun _ _ => rfl

theorem readList_shapes (now : Time) (wanted : RegisterGroup → Bool)
    (reply : RegisterGroup → Except CommError (List Word)) (gs : List RegisterGroup) :
    (ModbusCacheMap.readList now wanted reply gs).1.map (·.shape) = gs.map (·.shape) := by
  induction gs with
  | nil => rfl
  | cons g gs ih =>
    simp only [ModbusCacheMap.readList]
    split
    · split
      · rfl
      · rw [List.map_cons, ih, g.update_same now g.address _ true, List.map_cons]
    · rw [List.map_cons, ih, List.map_cons]

theorem readGroups_same (now : Time)
    (reply : Bool → RegisterGroup → Except CommError (List Word)) (c : ModbusCacheMap)
    (wanted : RegisterGroup → Bool → Bool) :
    c.Same (c.readGroups now wanted reply).1 := by
  have hgroups := readList_shapes now (wanted · false) (reply false) c.groups
  have higroups := readList_shapes now (wanted · true) (reply true) c.igroups
  unfold ModbusCacheMap.readGroups
  rcases hfirst : ModbusCacheMap.readList now (wanted · false) (reply false) c.groups with
    ⟨groups, read, error⟩
  rcases hsecond : ModbusCacheMap.readList now (wanted · true) (reply true) c.igroups with
    ⟨igroups, iread, error'⟩
  rw [hfirst] at hgroups
  rw [hsecond] at higroups
  rintro (_ | _)
  · cases error <;> cases error' <;> exact hgroups
  · cases error with
    | some e => rfl
    | none => cases error' <;> exact higroups

theorem doScan_same (c : ModbusCacheMap) (initial allGroups : Bool) :
    c.Same (c.doScan now reply initial allGroups).1 := by
  have hcounters : ∀ (c : ModbusCacheMap) (initial : Bool), c.Same (c.setCounters initial) :=
    fun c initial => (ModbusCacheMap.mapGroups_same (RegisterGroup.counter_same initial) c
      false).trans (ModbusCacheMap.mapGroups_same (RegisterGroup.counter_same initial) _ true)
  have hstart : c.Same (if initial then c.setCounters true else c) := by
    split
    · exact hcounters c true
    · rfl
  have hread := hstart.trans (readGroups_same now reply _
    fun g _ => allGroups || g.fCounter == 0 || g.pinExpired now)
  unfold ModbusCacheMap.doScan
  dsimp only
  split
  · next c' h => exact (congrArg (c.Same ·.1) h).mp hread
  · next c' h =>
    have hc' : c.Same c' := (congrArg (c.Same ·.1) h).mp hread
    split
    · exact hc'
    · exact hc'.trans (hcounters c' false)

theorem readChanged_same (c : ModbusCacheMap) (registers : List (ℕ × Bool)) :
    c.Same (c.readChanged now reply registers).1 := by
  unfold ModbusCacheMap.readChanged
  split <;> exact readGroups_same now reply _ _

/-- The read after a change reads the blocks of the registers. -/
theorem readChanged_blocks (wf : c.WF) (registers : List (ℕ × Bool)) :
    BlocksRead now (reply false)
      (fun g => (c.readChanged now reply registers).2 = true ∧
        ∃ r, (r, false) ∈ registers ∧ g.isMember r) c.groups
      (c.readChanged now reply registers).1.groups := by
  have hwanted : ∀ g : RegisterGroup, (∃ r, (r, false) ∈ registers ∧ g.isMember r) →
      ModbusCacheMap.wantedChanged registers g false = true := by
    rintro g ⟨r, hr, ha⟩
    simp only [ModbusCacheMap.wantedChanged, Bool.or_eq_true, List.any_eq_true]
    exact .inr ⟨(r, false), hr, by simpa using ha⟩
  unfold ModbusCacheMap.readChanged
  split
  · next hnone =>
    refine (readGroups_blocks now reply wf _).mono fun g hg hw => ?_
    simp only [Bool.and_eq_true, Bool.not_eq_true', List.any_eq_false] at hnone
    exact absurd (hwanted g hw.2) (hnone.1 g hg)
  · exact (readGroups_blocks now reply wf _).mono fun g _ hw => ⟨hw.1, hwanted g hw.2⟩

end

end Modbus

end Evok
