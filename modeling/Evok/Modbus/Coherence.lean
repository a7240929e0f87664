import Evok.Modbus.Slave

/-!
# Coherence of the cache of a unit

The selective read after a change is enough: what it does not read has not changed. The invariant is
about one register. Its pin never has another value than the unit; its value is the one of the unit,
or the read which follows the writes has its block.

## Main definitions

* `Coherent`: the invariant of a register.

## Main results

* `Coherent.run`: the invariant over the runs without a failure which concerns the register.
* `cache_shows_unit`: after every change the cache has the registers of the unit.
* `shown_again`: a register is shown again by a read after the failures.
-/

namespace Evok

namespace Modbus

namespace Slave

/-! ## One register -/

/-- A cached register with the value `v` in the unit: it has the value or is read after the writes,
and only a register without coils is pinned. -/
structure Follows (wired reads : Prop) (v : Word) (x : Register) : Prop where
  pin : x.PinnedTo v
  wired : wired → x.pin = none
  value : reads ∨ x.value = some v

namespace Follows

variable {wired reads reads' : Prop} {v w : Word} {x : Register}

theorem mono (h : Follows wired reads v x) (sub : reads → reads') : Follows wired reads' v x :=
  ⟨h.pin, h.wired, h.value.imp_left sub⟩

theorem read_none (h : Follows wired reads v x) (now : Time) :
    Follows wired reads v (x.read now none) where
  pin := h.pin.read now none
  wired := fun hw => by simp [Register.read, h.wired hw]
  value := h.value.imp_right fun hv => h.pin.read_value now hv

/-- A response with the register of the unit. -/
theorem read_some (h : Follows wired reads v x) (now : Time) :
    Follows wired reads' v (x.read now (some v)) where
  pin := h.pin.read now (some v)
  wired := fun hw => by simp [Register.read, h.wired hw]
  value := .inr (h.pin.shows now).value

theorem renewed (h : Follows wired reads v x) (keptUntil : Time) (written : Bool) :
    Follows wired reads v (x.renewed keptUntil written) :=
  ⟨h.pin.renewed keptUntil written, fun hw => by simp [Register.renewed, h.wired hw], h.value⟩

/-- A register whose block is read after the writes has any value. -/
theorem write (apart : ¬wired) (read : reads) (cache pin : Bool) (keptUntil : Time) (v : Word)
    (x : Register) : Follows wired reads v (x.write cache pin keptUntil (some v)) :=
  ⟨Register.pinnedTo_write cache pin keptUntil v x, fun hw => absurd hw apart, .inl read⟩

theorem store (h : Follows wired reads v x) {o : Option Word} (ho : o.isSome → reads) :
    Follows wired reads v (x.store o) where
  pin := h.pin
  wired := h.wired
  value := by
    cases o with
    | none => exact h.value
    | some w => exact .inl (ho rfl)

/-- A bit of the register is written by a coil. -/
theorem coil (h : Follows wired reads v x) (isWired : wired) (read : reads) :
    Follows wired reads w x where
  pin := fun p hp => by rw [h.wired isWired] at hp; cases hp
  wired := h.wired
  value := .inl read

theorem cleared (read : reads) (v : Word) (x : Register) : Follows wired reads v x.cleared :=
  ⟨fun p hp => by (cases hp), fun _ => rfl, .inl read⟩

end Follows

/-! ## The invariant -/

section

variable (wiring : Wiring) (device : ι → Device) (r : ℕ)

/-- The register is one of the state of a device of the change. -/
def OfDevices (devices : Option (List ι)) : Prop :=
  ∀ ds ∈ devices, ∃ i ∈ ds, ∀ s, (r, false) ∈ (device i).registers s

/-- The register is written, or all blocks are read. -/
def Written (s : State ι) : Prop :=
  ∀ registers ∈ s.client.written, (r, false) ∈ registers

/-- The block of the register is read after the writes. -/
def Reads (s : State ι) : Prop :=
  match s.phase with
  | .idle => False
  | .writing devices _ | .failed devices => Written r s ∨ OfDevices device r devices
  | .reading registers => ∀ rs ∈ registers, (r, false) ∈ rs

/-- The coil has no bit of the register, or the register is read with the devices. -/
def ReadCoil (devices : Option (List ι)) (coil : ℕ) : Prop :=
  ∀ mask, wiring coil = some (r, mask) → OfDevices device r devices

structure Coherent (s : State ι) : Prop where
  wf : s.client.cache.WF
  follows : ∀ g ∈ s.client.cache.groups, g.isMember r →
    Follows (Wired wiring r) (Reads device r s) (s.memory.registers r) (g.register r)
  todo : ∀ devices todo, s.phase = .writing devices todo →
    Recorded r (Written r s) todo ∧ ∀ a ∈ todo, a.Coils (ReadCoil wiring device r devices)

end

section

variable {wiring : Wiring} {device : ι → Device} {own : ℕ → Prop} {r : ℕ} {s : State ι}

theorem State.exec_registers {a : Action ι} (apart : ¬Touches wiring r a) :
    (s.exec wiring a).memory.registers r = s.memory.registers r := by
  cases a with
  | writeCoil coil value =>
    simp only [State.exec, Memory.writeCoil]
    cases h : wiring coil with
    | none => rfl
    | some bit =>
      exact s.memory.writeBit_of_ne (fun hr => apart ⟨bit.2, by rw [h, hr]⟩) bit.2 value
  | writeRegisters index values cache pin =>
    have hblock : block (index, values) r = none := by
      rw [← Option.not_isSome_iff_eq_none]
      exact apart
    simp [State.exec, Overlay.apply, hblock]
  | writeBit index mask value pin =>
    have hne : ¬(index ≤ r ∧ r < index + 1) := fun h => apart (by simp only [Touches, Writes]; omega)
    have hblock : ∀ w : Word, block (index, [w]) r = none := fun w => if_neg hne
    simp [State.exec, Overlay.apply, hblock]
  | _ => rfl

/-! ## The reads -/

/-- A response keeps the register, or reads it from the unit. -/
theorem Follows.onRead {wired reads : Prop} {x : Register} {t : ClientState} {e : ClientEvent}
    (h : Follows wired reads (s.memory.registers r) x) (isRead : e.IsRead)
    (answered : Answered own s.memory e) (hown : ¬own r) :
    Follows wired reads (s.memory.registers r) (e.onRegister t r x) := by
  cases e with
  | readBlock isInput address response =>
    cases isInput with
    | true => exact h
    | false =>
      simp only [ClientEvent.onRegister]
      cases hv : block (address, response) r with
      | none => exact h
      | some v =>
        rw [answered r hown v hv]
        exact h.read_some t.now
  | endRead => exact h
  | setCounters => exact h
  | _ => exact isRead.elim

/-- The pins are renewed at the end of the writes. -/
theorem Follows.onEndWrites {wired reads : Prop} {v : Word} {x : Register} {t : ClientState}
    (h : Follows wired reads v x) :
    Follows wired reads v (ClientEvent.endWrites.onRegister t r x) := by
  cases hwritten : t.client.written with
  | none =>
    simp only [ClientEvent.onRegister, hwritten]
    exact h
  | some registers =>
    simp only [ClientEvent.onRegister, hwritten]
    exact h.renewed _ _

/-- The read after a change has the block of the register, or it has not changed. -/
theorem Follows.onBlocksRead {wired reads : Prop} {now : Time}
    {reply : Bool → RegisterGroup → Except CommError (List Word)}
    {wanted : RegisterGroup → Prop} {gs gs' : List RegisterGroup} (hown : ¬own r)
    (answers : Answers own s.memory reply)
    (h : ∀ g ∈ gs, g.isMember r → Follows wired reads (s.memory.registers r) (g.register r))
    (read : BlocksRead now (reply false) wanted gs gs')
    (hwanted : reads → ∀ g : RegisterGroup, g.isMember r → wanted g) :
    ∀ g' ∈ gs', g'.isMember r →
      Follows wired False (s.memory.registers r) (g'.register r) := by
  intro g' hg' ha'
  obtain ⟨g, hg, hsame, hread⟩ := read g' hg'
  have ha : g.isMember r := by rwa [hsame.isMember] at ha'
  have hfollows := h g hg ha
  rcases hread with ⟨g₀, response, hsame₀, hreply, hregister⟩ | ⟨hnot, hregister⟩
  · have haddress : g₀.address = g.address := congrArg RegisterGroup.Shape.address hsame₀
    have hblock := answers g₀ response hreply r hown (by rwa [hsame₀.isMember])
    rw [hregister r ha, ← haddress, hblock]
    exact hfollows.read_some now
  · rw [hregister]
    have hquiet : ¬reads := fun hreads => hnot (hwanted hreads g ha)
    exact hfollows.mono fun hreads => hquiet hreads

/-! ## The steps -/

/-- The registers after an operation of the client. -/
theorem Coherent.client (h : Coherent wiring device r s) {e : ClientEvent} {t : ClientState}
    (step : ClientStep s.toClientState e t) {wired reads : Prop} {v : Word}
    (one : ∀ x, Follows (Wired wiring r) (Reads device r s) (s.memory.registers r) x →
      Follows wired reads v (e.onRegister s.toClientState r x)) :
    t.client.cache.WF ∧ ∀ g ∈ t.client.cache.groups, g.isMember r →
      Follows wired reads v (g.register r) := by
  refine ⟨step.same.wf h.wf, fun g' hg' ha' => ?_⟩
  obtain ⟨g, hg, ha, hregister⟩ := step.register h.wf hg' ha'
  rw [hregister]
  exact one _ (h.follows g hg ha)

/-- A write of registers by their numbers. -/
theorem Coherent.writeRegisters (h : Coherent wiring device r s) {index : ℕ} {values : List Word}
    (fine : (block (index, values) r).isSome → ¬Wired wiring r) (cache pin : Bool) {reads : Prop}
    (sub : Reads device r s → reads) (written : (block (index, values) r).isSome → reads) :
    (s.client.writeRegisters s.now index values cache pin).cache.WF ∧
      ∀ g ∈ (s.client.writeRegisters s.now index values cache pin).cache.groups, g.isMember r →
        Follows (Wired wiring r) reads
          (Overlay.apply (block (index, values)) s.memory.registers r) (g.register r) := by
  refine h.client .write fun x hx => ?_
  simp only [ClientEvent.onRegister, Overlay.apply]
  cases hv : block (index, values) r with
  | none =>
    rw [Register.write_none]
    exact hx.mono sub
  | some v =>
    rw [hv] at fine written
    exact .write (fine rfl) (written rfl) cache _ _ v x

theorem written_writeRegisters {c : Client} {now : Time} {index : ℕ} {values : List Word}
    {cache pin : Bool}
    (h : (∀ ws ∈ c.written, (r, false) ∈ ws) ∨ (block (index, values) r).isSome) :
    ∀ ws ∈ (c.writeRegisters now index values cache pin).written, (r, false) ∈ ws := by
  intro ws hws
  cases hwritten : c.written with
  | none => simp [Client.writeRegisters, hwritten] at hws
  | some ws₀ =>
    obtain ⟨ws', hws', hsub, hcovered⟩ :=
      Client.mem_written_writeRegisters hwritten now index values cache pin
    obtain rfl : ws' = ws := Option.some.inj (hws'.symm.trans hws)
    rcases h with h | h
    · exact hsub (h ws₀ hwritten)
    · exact hcovered r h

/-- The read of a register whose bit is written. -/
theorem Coherent.reread (h : Coherent wiring device r s) (index : ℕ) :
    Coherent wiring device r { s with client := { s.client with cache :=
      (s.client.cache.getRegisterAsync s.now index [s.memory.registers index]).1 } } := by
  have hstep : ClientStep s.toClientState
      (.getRegisterAsync false index [s.memory.registers index]) _ := .getRegisterAsync
  obtain ⟨hwf, hfollows⟩ := h.client hstep fun x hx => by
    simp only [ClientEvent.onRegister]
    by_cases hr : r = index
    · subst hr
      rw [show block (r, [s.memory.registers r]) r = some (s.memory.registers r) by simp [block]]
      exact hx.read_some s.now
    · rw [show block (index, [s.memory.registers index]) r = none from if_neg (by simp; omega)]
      exact hx.read_none s.now
  exact ⟨hwf, hfollows, h.todo⟩

section Act

variable {devices : Option (List ι)} {a : Action ι} {todo : List (Action ι)}

/-- The state after an action, with the actions left. -/
theorem Coherent.after {t : State ι} (wf : t.client.cache.WF)
    (follows : ∀ g ∈ t.client.cache.groups, g.isMember r →
      Follows (Wired wiring r) (Written r t ∨ OfDevices device r devices)
        (t.memory.registers r) (g.register r))
    (recorded : Recorded r (Written r t) todo)
    (coils : ∀ a ∈ todo, a.Coils (ReadCoil wiring device r devices)) :
    Coherent wiring device r { t with phase := .writing devices todo } := by
  refine ⟨wf, follows, fun _ _ heq => ?_⟩
  obtain ⟨rfl, rfl⟩ := Phase.writing.inj heq
  exact ⟨recorded, coils⟩

/-- The writes of `write_registers`, by their numbers. -/
theorem Coherent.actWrite (h : Coherent wiring device r s) {t : State ι}
    (writing : s.phase = .writing devices (a :: todo)) {index : ℕ} {values : List Word}
    {cache pin : Bool} (fine : (block (index, values) r).isSome → ¬Wired wiring r)
    (client : t.client = s.client.writeRegisters s.now index values cache pin)
    (memory : t.memory.registers = Overlay.apply (block (index, values)) s.memory.registers)
    (recorded : Recorded r (Written r s ∨ (block (index, values) r).isSome) todo)
    (coils : ∀ a ∈ todo, a.Coils (ReadCoil wiring device r devices)) :
    Coherent wiring device r { t with phase := .writing devices todo } := by
  have hwritten : Written r s ∨ (block (index, values) r).isSome → Written r t := by
    unfold Written
    rw [client]
    exact written_writeRegisters
  have hreads : Reads device r s → Written r t ∨ OfDevices device r devices := by
    simp only [Reads, writing]
    exact Or.imp_left fun hs => hwritten (.inl hs)
  obtain ⟨hwf, hfollows⟩ := h.writeRegisters fine cache pin hreads
    fun covered => .inl (hwritten (.inr covered))
  rw [← client] at hwf hfollows
  rw [← memory] at hfollows
  exact .after hwf hfollows (recorded.mono hwritten) coils

/-- An action without an error. -/
theorem Coherent.act (h : Coherent wiring device r s)
    (writing : s.phase = .writing devices (a :: todo))
    (responds : ∀ coil holder, a ≠ .coilWithoutResponse coil holder)
    (fine : Writes r a → ¬Wired wiring r) :
    Coherent wiring device r { s.exec wiring a with phase := .writing devices todo } := by
  obtain ⟨hrecorded, hall⟩ := h.todo devices (a :: todo) writing
  have hcoils : ∀ a ∈ todo, a.Coils (ReadCoil wiring device r devices) :=
    fun a ha => hall a (List.mem_cons_of_mem _ ha)
  have hfollows := h.follows
  have hreads : Reads device r s = (Written r s ∨ OfDevices device r devices) := by
    simp only [Reads, writing]
  rw [hreads] at hfollows
  cases a with
  | writeCoil coil value =>
    have hcoil : ReadCoil wiring device r devices coil := hall _ List.mem_cons_self
    by_cases htouches : Touches wiring r (.writeCoil coil value : Action ι)
    · obtain ⟨mask, hmask⟩ := htouches
      refine .after h.wf (fun g hg ha => ?_) hrecorded hcoils
      exact (hfollows g hg ha).coil ⟨coil, mask, hmask⟩ (.inr (hcoil mask hmask))
    · refine .after h.wf (fun g hg ha => ?_) hrecorded hcoils
      rw [State.exec_registers htouches]
      exact hfollows g hg ha
  | writeRegisters index values cache pin =>
    exact h.actWrite writing fine rfl rfl hrecorded hcoils
  | writeBit index mask value pin =>
    refine (h.reread index).actWrite writing (fun covered => fine ?_) rfl rfl
      (hrecorded.mono .inl) hcoils
    rw [block_isSome, List.length_singleton] at covered
    change index = r
    omega
  | setRegister index values =>
    obtain ⟨hdone, hrecorded⟩ := hrecorded
    have hstep : ClientStep s.toClientState (.setRegister index values) _ := .setRegister
    obtain ⟨hwf, hfollows⟩ := h.client hstep fun x hx =>
      hx.store fun covered => hreads ▸ .inl (hdone covered)
    rw [hreads] at hfollows
    exact .after hwf hfollows hrecorded hcoils
  | coilWithoutResponse coil holder => exact absurd rfl (responds coil holder)
  | _ => exact .after h.wf hfollows hrecorded hcoils

/-- A failed request which has not changed the register. -/
theorem Coherent.fail (h : Coherent wiring device r s)
    (writing : s.phase = .writing devices (a :: todo)) {client : Client} {memory : Memory}
    (requested : Requested s client a)
    (same : memory.registers r = s.memory.registers r) :
    Coherent wiring device r { s with client, memory, phase := .failed devices } := by
  have hfollows : ∀ t : State ι, Coherent wiring device r t →
      t.phase = .writing devices (a :: todo) → t.memory = s.memory → t.client = client →
        Coherent wiring device r { s with client, memory, phase := .failed devices } := by
    rintro t ht hphase hmemory rfl
    refine ⟨ht.wf, fun g hg ha => ?_, fun _ _ heq => by cases heq⟩
    have hx := ht.follows g hg ha
    simp only [Reads, hphase, hmemory] at hx
    dsimp only
    rw [same]
    exact hx
  cases a with
  | writeBit index mask value pin =>
    rcases requested with rfl | rfl
    · exact hfollows s h writing rfl rfl
    · exact hfollows _ (h.reread index) writing rfl rfl
  | _ => exact hfollows s h writing rfl requested.symm

end Act

/-- The requests of `set()` of a device of the change. -/
theorem Coherent.set [DecidableEq ι] (h : Coherent wiring device r s)
    {devices : Option (List ι)} {i : ι} {p : PwmState} {outputs : List (DigitalOutput.Entry ι)}
    {state : (device i).State} {params : (device i).Params} {todo : List (Action ι)}
    (writing : s.phase = .writing devices todo) (member : ∀ ds ∈ devices, i ∈ ds)
    (shown : ShowsCoils wiring r (device i)) :
    Coherent wiring device r
      { s with phase := .writing devices ((device i).set i p outputs state params).actions } := by
  have horderly := (device i).orderly_set i p outputs state params
  have hfollows := h.follows
  simp only [Reads, writing] at hfollows
  refine .after h.wf hfollows (horderly.recorded r _) fun a ha => ?_
  have hcoils := horderly.coils a ha
  cases a with
  | writeCoil c value => exact fun mask hmask ds hds => ⟨i, member ds hds, shown c mask hcoils hmask⟩
  | _ => trivial

/-- The register is read by the read after the writes, if the invariant says so. -/
theorem reads_endWrites {devices : Option (List ι)} (states : ∀ i, (device i).State)
    (h : Written r s ∨ OfDevices device r devices) :
    ∀ rs ∈ readAfter s.client.written
      (devices.map (·.flatMap fun i => (device i).registers (states i))), (r, false) ∈ rs := by
  intro rs hrs
  unfold readAfter at hrs
  cases hwritten : s.client.written with
  | none => simp [hwritten] at hrs
  | some written =>
    cases devices with
    | none => simp at hrs
    | some ds =>
      simp only [hwritten, Option.map_some, Option.mem_some_iff] at hrs
      subst hrs
      rcases h with h | h
      · exact List.mem_append_left _ (h written hwritten)
      · obtain ⟨i, hi, hregisters⟩ := h ds rfl
        exact List.mem_append_right _ (List.mem_flatMap.mpr ⟨i, hi, hregisters _⟩)

/-- The read after the writes. -/
theorem Coherent.changed (h : Coherent wiring device r s) (hown : ¬own r)
    {registers : Option (List (ℕ × Bool))}
    {reply : Bool → RegisterGroup → Except CommError (List Word)}
    (reading : s.phase = .reading registers) (answers : Answers own s.memory reply)
    (fine : (readChange s.client.cache s.now reply registers).2 = true ∨
      ∃ rs ∈ registers, (r, false) ∉ rs) :
    Coherent wiring device r
      { s with
        client := { s.client with
          cache := (readChange s.client.cache s.now reply registers).1 }
        phase := .idle } := by
  have hfollows := h.follows
  simp only [Reads, reading] at hfollows
  refine ⟨?_, ?_, fun _ _ heq => by cases heq⟩
  · cases registers with
    | none => exact (doScan_same _ _ _).wf h.wf
    | some registers => exact (readChanged_same _ _).wf h.wf
  · cases registers with
    | none =>
      refine Follows.onBlocksRead hown answers hfollows (doScan_blocks h.wf false true)
        fun _ g _ => ⟨fine.resolve_right ?_, .inr rfl⟩
      rintro ⟨rs, hrs, -⟩
      cases hrs
    | some registers =>
      refine Follows.onBlocksRead hown answers hfollows (readChanged_blocks h.wf registers)
        fun hreads g ha => ⟨fine.resolve_right ?_, r, hreads registers rfl, ha⟩
      rintro ⟨rs, hrs, hnot⟩
      exact hnot (hreads rs hrs)

/-! ## The blocks -/

theorem reread_same (s : State ι) (index : ℕ) : s.client.cache.Same
    (s.client.cache.getRegisterAsync s.now index [s.memory.registers index]).1 := by
  rw [ModbusCacheMap.getRegisterAsync_fst]
  exact ModbusCacheMap.setRegister_same _ _ _ _ _ _

theorem State.exec_same (s : State ι) (a : Action ι) :
    s.client.cache.Same (s.exec wiring a).client.cache := by
  cases a with
  | writeRegisters index values cache pin => exact Client.writeRegisters_same _ _ _ _ _ _
  | writeBit index mask value pin =>
    exact (reread_same s index).trans (Client.writeRegisters_same _ _ _ _ _ _)
  | setRegister index values => exact ModbusCacheMap.setRegister_same _ _ _ _ _ _
  | _ => rfl

/-! ## The first scan and the reads -/

theorem Connected.wf (connected : Connected own s) : s.client.cache.WF := by
  obtain ⟨c, reply, hwf, -, -, hscan⟩ := connected.scanned
  have hsame : c.Same (c.doScan s.now reply true false).1 := doScan_same c true false
  rw [hscan] at hsame
  exact hsame.wf hwf

/-- The first scan reads all registers. -/
theorem Connected.coherent (connected : Connected own s) (hown : ¬own r) :
    Coherent wiring device r s := by
  obtain ⟨c, reply, hwf, hpins, hanswers, hscan⟩ := connected.scanned
  have hread : BlocksRead s.now (reply false)
      (fun _ => (c.doScan s.now reply true false).2 = true ∧ (true = true ∨ false = true))
      c.groups (c.doScan s.now reply true false).1.groups := doScan_blocks hwf true false
  rw [hscan] at hread
  refine ⟨connected.wf, fun g' hg' ha' => ?_, fun _ _ heq => ?_⟩
  · obtain ⟨g, hg, hsame, hread⟩ := hread g' hg'
    rcases hread with ⟨g₀, response, hsame₀, hreply, hregister⟩ | ⟨hnot, -⟩
    · have ha : g.isMember r := by rwa [hsame.isMember] at ha'
      have hpin : (g.register r).pin = none := congrFun (hpins g hg) r
      have haddress : g₀.address = g.address := congrArg RegisterGroup.Shape.address hsame₀
      have hblock := hanswers g₀ response hreply r hown (by rwa [hsame₀.isMember])
      rw [hregister r ha, ← haddress, hblock]
      have hunknown : Follows (Wired wiring r) True (s.memory.registers r) (g.register r) :=
        ⟨fun p hp => by (rw [hpin] at hp; cases hp), fun _ => hpin, .inl trivial⟩
      exact hunknown.read_some s.now
    · exact absurd ⟨rfl, .inl rfl⟩ hnot
  · rw [connected.idle] at heq
    cases heq

/-- The cached values of registers which all follow the unit. -/
theorem Coherent.readRegisters {index count : ℕ} (idle : s.phase = .idle)
    (inBlock : s.client.cache.known index count false) (wf : s.client.cache.WF)
    (h : ∀ r, index ≤ r → r < index + count → Coherent wiring device r s) :
    s.client.readRegisters index count false =
      .ok ((List.range count).map fun k => s.memory.registers (index + k)) := by
  rw [ModbusCacheMap.known_eq, List.any_eq_true, ← List.find?_isSome] at inBlock
  obtain ⟨g, hfind⟩ := Option.isSome_iff_exists.mp inBlock
  have hmember : g.isMember index count := by simpa using List.find?_some hfind
  rw [Client.readRegisters, ModbusCacheMap.getRegister_eq wf, hfind]
  have hvalues : ∀ k ∈ List.range count,
      g.value (index + k) = some (s.memory.registers (index + k)) := by
    intro k hk
    have hlt := List.mem_range.mp hk
    have ha : g.isMember (index + k) := by
      simp only [RegisterGroup.isMember, Bool.and_eq_true, decide_eq_true_eq] at hmember ⊢
      omega
    have hfollows := (h (index + k) (by omega) (by omega)).follows g
      (List.mem_of_find?_eq_some hfind) ha
    simp only [Reads, idle] at hfollows
    exact hfollows.value.resolve_left id
  dsimp only
  rw [List.map_congr_left hvalues]
  exact ModbusCacheMap.readValues_of_some _ _ _

end

section Run

variable [DecidableEq ι] {wiring : Wiring} {device : ι → Device} {own : ℕ → Prop} {r : ℕ}
  {s t : State ι}

theorem Coherent.step (hown : ¬own r) (shown : ∀ i, ShowsCoils wiring r (device i))
    (h : Coherent wiring device r s) {e : Event ι} (step : Step wiring device own s e t)
    (fine : e.Fine wiring r) : Coherent wiring device r t := by
  cases step with
  | tick later => exact ⟨h.wf, h.follows, h.todo⟩
  | own same =>
    refine ⟨h.wf, fun g hg ha => ?_, h.todo⟩
    dsimp only
    rw [same r hown]
    exact h.follows g hg ha
  | @read e t isRead answered step =>
    obtain ⟨hwf, hfollows⟩ := h.client step fun x hx => hx.onRead isRead answered hown
    obtain ⟨c, rfl⟩ := step.of_isRead isRead
    exact ⟨hwf, hfollows, h.todo⟩
  | begin idle =>
    have hfollows := h.follows
    simp only [Reads, idle] at hfollows
    refine ⟨h.wf, fun g hg ha => (hfollows g hg ha).mono False.elim, fun _ _ heq => ?_⟩
    obtain ⟨rfl, rfl⟩ := Phase.writing.inj heq
    exact ⟨trivial, fun a ha => by cases ha⟩
  | set writing member => exact h.set writing member (shown _)
  | act writing responds => exact h.act writing responds fine
  | @restart devices coil holder todo memory writing =>
    obtain ⟨hrecorded, hall⟩ := h.todo _ _ writing
    have hwritten : Written r { s with client := s.client.restarted } := fun ws hws => by cases hws
    have hstep : ClientStep s.toClientState .restarted _ := .restarted
    obtain ⟨hwf, hfollows⟩ := h.client hstep fun x _ =>
      Follows.cleared (Or.inl (b := OfDevices device r devices) hwritten) (memory.registers r) x
    refine ⟨hwf, hfollows, fun _ _ heq => ?_⟩
    obtain ⟨rfl, rfl⟩ := Phase.writing.inj heq
    exact ⟨hrecorded.mono fun _ => hwritten, fun a ha => hall a (List.mem_cons_of_mem _ ha)⟩
  | @fail devices a todo applied client memory writing requested kept changed =>
    refine h.fail writing requested ?_
    cases applied with
    | false => rw [kept rfl]
    | true =>
      have hquiet : ¬Touches wiring r a := fine rfl
      have happlied := changed rfl
      cases a with
      | coilWithoutResponse coil holder => exact absurd trivial hquiet
      | _ =>
        rw [show memory = _ from happlied]
        exact State.exec_registers hquiet
  | @endWrites devices states ended =>
    have hreads : Reads device r s = (Written r s ∨ OfDevices device r devices) := by
      rcases ended with ended | ended <;> simp only [Reads, ended]
    have hafter : Written r s ∨ OfDevices device r devices → _ := reads_endWrites states
    obtain ⟨hwf, hfollows⟩ := h.client .endWrites fun x hx =>
      (hx.mono fun hr => hafter (hreads ▸ hr)).onEndWrites
    exact ⟨hwf, hfollows, fun _ _ heq => by cases heq⟩
  | changed reading answers => exact h.changed hown reading answers fine

/-- The invariant over the runs without a failure which concerns the register. -/
theorem Coherent.run (hown : ¬own r) (shown : ∀ i, ShowsCoils wiring r (device i))
    {es : List (Event ι)} (h : Coherent wiring device r s) (run : Run wiring device own s es t)
    (fine : ∀ e ∈ es, e.Fine wiring r) : Coherent wiring device r t :=
  run.invariant_of_labels (fun _ _ _ hfine h step => h.step hown shown step hfine) fine h

/-- The blocks are the same ones after every step. -/
theorem Step.same {e : Event ι} (step : Step wiring device own s e t) :
    s.client.cache.Same t.client.cache := by
  cases step with
  | read isRead answered step => exact step.same
  | act writing responds => exact s.exec_same _
  | restart writing => exact ModbusCacheMap.clearPins_same _
  | @fail devices a todo applied client memory writing requested kept changed =>
    cases a with
    | writeBit index mask value pin =>
      rcases requested with rfl | rfl
      · rfl
      · exact reread_same s index
    | _ => rw [show client = s.client from requested]
  | endWrites ended =>
    have hstep : ClientStep s.toClientState .endWrites _ := .endWrites
    exact hstep.same
  | @changed registers reply reading answers =>
    cases registers with
    | none => exact doScan_same _ _ _
    | some registers => exact readChanged_same _ _
  | _ => rfl

theorem Run.same {es : List (Event ι)} (run : Run wiring device own s es t) :
    s.client.cache.Same t.client.cache :=
  run.invariant (I := fun t => s.client.cache.Same t.client.cache)
    (fun _ _ _ h step => h.trans step.same) (.refl _)

/-! ## A relay -/

/-- A relay whose block is read by every third scan. -/
def relay : Device :=
  .binaryOutput { devtype := "RO", circuit := "1_01", coil := some 0, reg := 0, mask := 1 }

def relayWiring : Wiring := fun coil =>
  if coil = 0 then some (0, 1) else none

def relayOff : Memory where
  registers := fun _ => 0
  coils := fun _ => false

def relayBlocks : ModbusCacheMap where
  groups := [.new 0 2 3]

def relayStart : State Unit where
  client := { cache := (relayBlocks.doScan 0 (responses relayOff fun _ => 0) true false).1 }
  now := 0
  memory := relayOff
  phase := .idle

theorem relay_connected : Connected (fun _ => False) relayStart := by
  refine ⟨⟨relayBlocks, responses relayOff fun _ => 0, ?_, ?_, answers_responses _ _ _, rfl⟩, rfl⟩
  · rintro (_ | _) <;>
      simp [relayBlocks, ModbusCacheMap.shapes, ModbusCacheMap.groupsOf, RegisterGroup.shape,
        RegisterGroup.new]
  · simp [relayBlocks, RegisterGroup.new]

theorem relay_shown (r : ℕ) (i : Unit) : ShowsCoils relayWiring r ((fun _ => relay) i) := by
  rintro c mask hc hmask s
  obtain rfl : 0 = c := Option.some.inj hc
  obtain ⟨rfl, -⟩ := Prod.mk.inj (Option.some.inj hmask)
  exact List.mem_cons_self

/-! ## Runs of a unit -/

/-- After the changes and the scans of a unit, also the failed ones which do not concern the
registers, its cache has the registers of the unit. -/
theorem cache_shows_unit (connected : Connected own s) {es : List (Event ι)}
    (run : Run wiring device own s es t) (idle : t.phase = .idle) {index count : ℕ}
    (inBlock : s.client.cache.known index count false)
    (notOwn : ∀ r, index ≤ r → r < index + count → ¬own r)
    (shown : ∀ r, index ≤ r → r < index + count → ∀ i, ShowsCoils wiring r (device i))
    (fine : ∀ r, index ≤ r → r < index + count → ∀ e ∈ es, e.Fine wiring r) :
    t.client.readRegisters index count false =
      .ok ((List.range count).map fun k => t.memory.registers (index + k)) := by
  rw [← (Run.same run).known] at inBlock
  have hcoherent : ∀ r, index ≤ r → r < index + count → Coherent wiring device r t :=
    fun r hr hr' => (connected.coherent (notOwn r hr hr')).run (notOwn r hr hr')
      (shown r hr hr') run (fine r hr hr')
  exact Coherent.readRegisters idle inBlock ((Run.same run).wf connected.wf) hcoherent

theorem cache_shows_unit_relay : ∃ t : State Unit,
    Run relayWiring (fun _ => relay) (fun _ => False) relayStart
      [.begin (some [()]), .set (), .act (.writeCoil 0 true), .endWrites,
        .changed (some [(0, false)]) true] t ∧
    t.client.readRegisters 0 2 false = .ok [1, 0] := by
  let relays : Unit → Device := fun _ => relay
  let own : ℕ → Prop := fun _ => False
  let params : relay.Params := ({ value := some (.int 1) } : BinaryOutput.Params)
  have hbegin := @Step.begin Unit _ relayWiring relays own relayStart (some [()]) rfl
  have hset := fun s writing => @Step.set Unit _ relayWiring relays own s (some [()]) () {} []
    relay.init params writing (by simp)
  have hend := fun s ended => @Step.endWrites Unit _ relayWiring relays own s (some [()])
    (fun _ => relay.init) ended
  have hchanged := fun s reading => @Step.changed Unit _ relayWiring relays own s
    (some [(0, false)]) (responses s.memory fun _ => 0) reading (answers_responses _ _ _)
  have hrun := Transition.Run.cons hbegin (.cons (hset _ rfl) (.cons
    (.act rfl (by simp)) (.cons (hend _ (.inl rfl)) (.single (hchanged _ rfl)))))
  refine ⟨_, hrun, ?_⟩
  refine (cache_shows_unit relay_connected hrun rfl rfl (fun _ _ _ => id)
    (fun r _ _ => relay_shown r) fun r _ _ e he => ?_).trans (congrArg Except.ok (by decide))
  simp only [List.mem_cons, List.not_mem_nil, or_false] at he
  rcases he with rfl | rfl | rfl | rfl | rfl
  · exact trivial
  · exact trivial
  · exact fun h => h.elim
  · exact trivial
  · exact .inl rfl

/-- A block is read with a register which has no unexpired pin. -/
theorem coherent_read (wf : s.client.cache.WF) (idle : s.phase = .idle) {address : ℕ}
    {response : List Word}
    (read : Step wiring device own s (.read (.readBlock false address response)) t)
    (covers : (block (address, response) r).isSome)
    (expired : ∀ g ∈ s.client.cache.groups, ∀ p ∈ g.pins r, p.keptUntil ≤ s.now)
    (hown : ¬own r) : Coherent wiring device r t ∧ t.client.cache.known r 1 false := by
  obtain ⟨v, hv⟩ := Option.isSome_iff_exists.mp covers
  cases read with
  | read isRead answered step =>
    have hsame := step.same
    refine ⟨⟨hsame.wf wf, fun g' hg' ha' => ?_, fun _ _ heq => by rw [idle] at heq; cases heq⟩, ?_⟩
    · obtain ⟨g, hg, ha, hregister⟩ := step.register wf hg' ha'
      obtain ⟨hvalue, hpin⟩ := (g.register r).shows_of_expired (expired g hg) v
      simp only [ClientEvent.onRegister, hv] at hregister
      rw [hregister]
      dsimp only
      rw [← answered r hown v hv]
      exact ⟨fun p hp => by (rw [hpin] at hp; cases hp), fun _ => hpin, .inr hvalue⟩
    · rw [hsame.known, ModbusCacheMap.known_eq]
      cases step with
      | @readBlock _ before after g _ split complete =>
        rw [split, List.any_append, List.any_cons]
        rw [block_isSome, complete, ← RegisterGroup.isMember_iff] at covers
        simp [covers]

/-- After any failures a read of the block shows a register again, when its pin has expired. -/
theorem shown_again {u v : State ι} (connected : Connected own s) {es es' : List (Event ι)}
    (run : Run wiring device own s es t) (idle : t.phase = .idle) {address : ℕ}
    {response : List Word}
    (read : Step wiring device own t (.read (.readBlock false address response)) u)
    (covers : (block (address, response) r).isSome)
    (expired : ∀ g ∈ t.client.cache.groups, ∀ p ∈ g.pins r, p.keptUntil ≤ t.now)
    (run' : Run wiring device own u es' v) (idle' : v.phase = .idle) (notOwn : ¬own r)
    (shown : ∀ i, ShowsCoils wiring r (device i)) (fine : ∀ e ∈ es', e.Fine wiring r) :
    v.client.readRegisters r 1 false = .ok [v.memory.registers r] := by
  obtain ⟨hcoherent, hknown⟩ :=
    coherent_read ((Run.same run).wf connected.wf) idle read covers expired notOwn
  have hrun := hcoherent.run notOwn shown run' fine
  rw [← (Run.same run').known] at hknown
  have hone : ∀ a, r ≤ a → a < r + 1 → Coherent wiring device a v := fun a ha ha' => by
    obtain rfl : a = r := by omega
    exact hrun
  exact Coherent.readRegisters idle' hknown hrun.wf hone

def relayStaleBlock : RegisterGroup where
  address := 0
  count := 2
  fDivider := 3
  fCounter := 2
  values := [some 0, some 0]

/-- The relay is switched by a write whose response was lost, as the read after it. -/
def relayStale : State Unit where
  client := { cache := { lastCommTime := some 0, scanError := some .timeout, groups :=
    [relayStaleBlock] } }
  now := 0
  memory := relayOff.writeCoil relayWiring 0 true
  phase := .idle

theorem shown_again_relay : ∃ t : State Unit,
    Run relayWiring (fun _ => relay) (fun _ => False) relayStart
      [.begin (some [()]), .set (), .fail (.writeCoil 0 true) true, .endWrites,
        .changed (some [(0, false)]) false, .read (.readBlock false 0 [1, 0])] t ∧
    t.client.readRegisters 0 1 false = .ok [1] := by
  let relays : Unit → Device := fun _ => relay
  let own : ℕ → Prop := fun _ => False
  let params : relay.Params := ({ value := some (.int 1) } : BinaryOutput.Params)
  have hbegin := @Step.begin Unit _ relayWiring relays own relayStart (some [()]) rfl
  have hset := fun s writing => @Step.set Unit _ relayWiring relays own s (some [()]) () {} []
    relay.init params writing (by simp)
  have hfail := fun s writing => @Step.fail Unit _ relayWiring relays own s (some [()])
    (.writeCoil 0 true) [] true s.client relayStale.memory writing rfl
  have hend := fun s ended => @Step.endWrites Unit _ relayWiring relays own s (some [()])
    (fun _ => relay.init) ended
  have hchanged := fun s reading => @Step.changed Unit _ relayWiring relays own s
    (some [(0, false)]) (fun _ _ => .error .timeout) reading fun _ _ h => by cases h
  have hrun : Run relayWiring relays own relayStart
      [.begin (some [()]), .set (), .fail (.writeCoil 0 true) true, .endWrites,
        .changed (some [(0, false)]) false] relayStale :=
    .cons hbegin (.cons (hset _ rfl) (.cons (hfail _ rfl (by simp) fun _ => rfl)
      (.cons (hend _ (.inr rfl)) (.single (hchanged _ rfl)))))
  have hanswered : Answered own relayStale.memory (.readBlock false 0 [1, 0]) := by
    intro r _ v hv
    have hr : r < 2 := (block_isSome.mp (Option.isSome_of_eq_some hv)).2
    obtain rfl | rfl : r = 0 ∨ r = 1 := by omega
    · obtain rfl := Option.some.inj hv
      decide
    · obtain rfl := Option.some.inj hv
      decide
  have hread := @Step.read Unit _ relayWiring relays own relayStale
    (.readBlock false 0 [1, 0]) _ trivial hanswered (@ClientStep.readBlock
      relayStale.toClientState false [] [] relayStaleBlock [1, 0] rfl rfl)
  refine ⟨_, hrun.append (.single hread), ?_⟩
  refine (shown_again relay_connected hrun rfl hread rfl (fun g hg p hp => ?_) (.nil _) rfl id
    (relay_shown 0) (by simp)).trans (congrArg Except.ok (by decide))
  obtain rfl := List.mem_singleton.mp hg
  cases hp

end Run

end Slave

end Modbus

end Evok
