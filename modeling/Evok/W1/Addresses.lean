import Evok.W1.Scan

/-!
# The forms of a 1-Wire address

The name in sysfs and the spellings of owserver denote one device: with the CRC or without it, with
dots or without them, in either case. The key is the same for all of them, and for no other device.

## Main definitions

* `IsName`: a name in sysfs, in either case.
* `Denotes`: an address of the device of a name.

## Main results

* `IsName.exists_slave`: a name is the name of a slave, up to the case.
* `crc8_append_crc8`: the CRC of data with their CRC.
* `addresses_agree`: the forms of an address and the search by it.
-/

namespace Evok

namespace W1

/-- Two digits, `-` and twelve digits, in either case. -/
def IsName (name : String) : Prop :=
  ∃ family serial, name.toList = family ++ '-' :: serial ∧ family.length = 2 ∧
    serial.length = 12 ∧ ∀ c ∈ family ++ serial, IsHex c

/-- Equal up to the case of letters. -/
def SameLetters (name other : String) : Prop :=
  name.toList.map Char.toUpper = other.toList.map Char.toUpper

/-- The digits without the dots, in upper case. -/
def digits (address : String) : List Char :=
  (address.toList.filter (· ≠ '.')).map Char.toUpper

/-- A form of the address of owserver: with the CRC or the fourteen digits before it, with dots or
without them, in either case. -/
def IsForm (owfs text : String) : Prop :=
  (∀ c ∈ text.toList, IsHex c ∨ c = '.') ∧
    (digits text = digits owfs ∨ digits text = (digits owfs).take 14)

/-- An address of the device of the name. -/
def Denotes (name address : String) : Prop :=
  IsName address ∧ SameLetters address name ∨ ∃ owfs, owfsAddress name = some owfs ∧ IsForm owfs address

/-- `_find_sensor` of an address. -/
def findAddress (address : String) (sensors : List MySensor) : Option (Option ℕ) := do
  findSensor (← addressKey address) sensors

/-! ## The name of a slave -/

namespace Slave

/-- The key determines the slave. -/
theorem key_injective {slave other : Slave} (h : slave.key = other.key) : slave = other := by
  have hrom : slave.rom = other.rom := by
    have := slave.fromHex_key
    rw [h, other.fromHex_key] at this
    exact (Option.some.inj this).symm
  obtain ⟨family, serial, six⟩ := slave
  obtain ⟨family', serial', six'⟩ := other
  obtain ⟨rfl, hserial⟩ := List.cons.inj hrom
  obtain rfl := List.reverse_injective hserial
  rfl

/-- The name determines the slave, also without the case of its letters. -/
theorem eq_of_sameLetters {slave other : Slave} (h : SameLetters slave.name other.name) :
    slave = other := by
  have hname : ∀ x : Slave, x.name.toList.map Char.toUpper =
      (hex [x.family]).map Char.toUpper ++ '-' :: (hex x.serial).map Char.toUpper := by
    intro x
    rw [name, String.toList_ofList, List.map_append, List.map_cons]
    rfl
  rw [SameLetters, hname, hname] at h
  obtain ⟨hfamily, hserial⟩ := List.append_inj h (by simp)
  obtain ⟨-, hserial⟩ := List.cons.inj hserial
  have hone : [slave.family] = [other.family] := by
    rw [← Option.some_inj, ← (fromHex_hex _).2, ← (fromHex_hex _).2, hfamily]
  have hsix : slave.serial = other.serial := by
    rw [← Option.some_inj, ← (fromHex_hex _).2, ← (fromHex_hex _).2, hserial]
  refine key_injective ?_
  rw [key, key, hsix, List.head_eq_of_cons_eq hone]

variable (slave : Slave)

theorem digits_owfs : digits (String.ofList slave.owfs) = slave.key.toList ++ slave.crc := by
  rw [digits, String.toList_ofList, owfs_digits, List.map_append, map_toUpper_key, map_toUpper_crc]

/-- A form of the address has the key. -/
theorem addressKey_form {text : String} (h : IsForm (String.ofList slave.owfs) text) :
    addressKey text = some slave.key := by
  obtain ⟨chars, form⟩ := h
  have hdigits : ∃ crc, digits text = slave.key.toList ++ crc := by
    rw [digits_owfs, List.take_left' slave.length_key] at form
    rcases form with whole | short
    · exact ⟨slave.crc, whole⟩
    · exact ⟨[], by rw [short, List.append_nil]⟩
  obtain ⟨crc, hdigits⟩ := hdigits
  have hkey := addressKey_digits chars hdigits slave.length_key
  rwa [String.ofList_toList, String.ofList_toList] at hkey

end Slave

/-- A name is the name of a slave, up to the case. -/
theorem IsName.exists_slave {name : String} (h : IsName name) :
    ∃ slave : Slave, SameLetters name slave.name ∧ addressKey name = some slave.key := by
  obtain ⟨family, serial, hname, two, twelve, chars⟩ := h
  have hfamily : ∀ c ∈ family, IsHex c := fun c hc => chars c (List.mem_append_left _ hc)
  have hserial : ∀ c ∈ serial, IsHex c := fun c hc => chars c (List.mem_append_right _ hc)
  obtain ⟨first, -, one, hfirst⟩ := fromHex_of_isHex (n := 1) two hfamily
  obtain ⟨bytes, hbytes, six, hrest⟩ := fromHex_of_isHex (n := 6) twelve hserial
  obtain ⟨byte, rfl⟩ := List.length_eq_one_iff.mp one
  refine ⟨⟨byte, bytes, six⟩, ?_, ?_⟩
  · rw [SameLetters, hname, Slave.name, String.toList_ofList, List.map_append, List.map_append,
      List.map_cons, List.map_cons, hfirst, hrest]
  · rw [addressKey_sysfs hname chars hbytes, Slave.key, hex_cons, ← hfirst, ← List.map_append]
    rfl

/-- Two names have one key only if they have the same letters. -/
theorem IsName.addressKey_eq_iff {name other : String} (h : IsName name) (h' : IsName other) :
    addressKey other = addressKey name ↔ SameLetters other name := by
  obtain ⟨slave, hname, hkey⟩ := h.exists_slave
  obtain ⟨slave', hname', hkey'⟩ := h'.exists_slave
  rw [hkey, hkey', Option.some_inj]
  constructor
  · intro heq
    obtain rfl := Slave.key_injective heq
    exact hname'.trans hname.symm
  · intro same
    rw [Slave.eq_of_sameLetters ((hname'.symm.trans same).trans hname)]

/-- The address of owserver depends on the key only. -/
theorem owfsAddress_of_key {name other : String} (h : addressKey name = addressKey other) :
    owfsAddress name = owfsAddress other := by
  simp only [owfsAddress, h]

theorem IsName.addressKey_of_denotes {name address : String} (h : IsName name)
    (denotes : Denotes name address) : addressKey address = addressKey name := by
  obtain ⟨slave, -, hkey⟩ := h.exists_slave
  rcases denotes with ⟨other, same⟩ | ⟨owfs, howfs, form⟩
  · exact (h.addressKey_eq_iff other).mpr same
  · rw [owfsAddress_of_key (hkey.trans slave.addressKey_name.symm), slave.owfsAddress_eq,
      Option.some_inj] at howfs
    subst howfs
    rw [slave.addressKey_form form, hkey]

/-! ## The CRC -/

/-- A byte equal to the CRC is shifted out with it. -/
theorem crcBit_self (crc : BitVec 8) : crcBit (crc, crc) = (crc >>> 1, crc >>> 1) := by
  simp [crcBit]

theorem iterate_crcBit_self (n : ℕ) (crc : BitVec 8) :
    crcBit^[n] (crc, crc) = (crc >>> n, crc >>> n) := by
  induction n with
  | zero => simp
  | succ n ih => rw [Function.iterate_succ_apply', ih, crcBit_self, ← BitVec.shiftRight_add]

theorem crc8_append (data : List (BitVec 8)) (byte : BitVec 8) :
    crc8 (data ++ [byte]) = (crcBit^[8] (crc8 data, byte)).1 := by
  simp only [crc8, List.foldl_append, List.foldl_cons, List.foldl_nil]

/-- The data with their CRC have the CRC zero. -/
theorem crc8_append_crc8 (data : List (BitVec 8)) : crc8 (data ++ [crc8 data]) = 0 := by
  rw [crc8_append, iterate_crcBit_self]
  ext i hi
  simp only [BitVec.getElem_ushiftRight, BitVec.getLsbD_of_ge _ _ (Nat.le_add_right 8 i)]
  simp

/-- The digits of the address of owserver are the ROM with its CRC. -/
theorem Slave.fromHex_owfs (slave : Slave) :
    fromHex (digits (String.ofList slave.owfs)) = some (slave.rom ++ [crc8 slave.rom]) := by
  have hdigits : slave.key.toList ++ slave.crc =
      (hex (slave.rom ++ [crc8 slave.rom])).map Char.toUpper := by
    rw [hex, List.flatMap_append, List.map_append, key, String.toList_ofList]
    rfl
  rw [digits_owfs, hdigits]
  exact (fromHex_hex _).2

/-! ## The forms of an address -/

/-- All forms of the address of a device have one key, which no other device has, so a search by
any of them finds this device only; the address of owserver is the ROM with its valid CRC. -/
theorem addresses_agree :
    (∀ name, IsName name → ∃ key owfs rom,
      addressKey name = some key ∧ owfsAddress name = some owfs ∧ addressKey owfs = some key ∧
      (∀ text, IsForm owfs text → addressKey text = some key) ∧
      (∀ other, IsName other → (addressKey other = some key ↔ SameLetters other name)) ∧
      (∀ address sensors i sensor other, Denotes name address →
        findAddress address sensors = some (some i) → sensors[i]? = some sensor →
        IsName other → Denotes other sensor.address → SameLetters other name) ∧
      fromHex key.toList = some rom ∧ fromHex (digits owfs) = some (rom ++ [crc8 rom])) ∧
    ∀ data, crc8 (data ++ [crc8 data]) = 0 := by
  refine ⟨fun name hname => ?_, crc8_append_crc8⟩
  obtain ⟨slave, same, hkey⟩ := hname.exists_slave
  have howfs : owfsAddress name = some (String.ofList slave.owfs) := by
    rw [owfsAddress_of_key (hkey.trans slave.addressKey_name.symm), slave.owfsAddress_eq]
  have hform : IsForm (String.ofList slave.owfs) (String.ofList slave.owfs) := by
    refine ⟨?_, .inl rfl⟩
    rw [String.toList_ofList]
    exact slave.owfs_chars
  refine ⟨slave.key, String.ofList slave.owfs, slave.rom, hkey, howfs, slave.addressKey_form hform,
    fun text => slave.addressKey_form, ?_, ?_, slave.fromHex_key, slave.fromHex_owfs⟩
  · intro other hother
    rw [← hkey]
    exact hname.addressKey_eq_iff hother
  · intro address sensors i sensor other denotes hfind hsensor hother denotes'
    rw [findAddress, hname.addressKey_of_denotes denotes, hkey] at hfind
    obtain ⟨⟨found, hfound, hfoundKey⟩, -⟩ := findSensor_some hfind
    rw [hsensor] at hfound
    cases hfound
    rw [hother.addressKey_of_denotes denotes', ← hkey] at hfoundKey
    exact (hname.addressKey_eq_iff hother).mp hfoundKey

/-- A sensor whose CRC is `FF`, also without it. -/
theorem addresses_agree_sensor :
    owfsAddress "28-00000925204e" = some "28.4E2025090000.FF" ∧
      addressKey "284e2025090000" = addressKey "28-00000925204e" ∧
      crc8 [0x28, 0x4E, 0x20, 0x25, 0x09, 0x00, 0x00] = 0xFF ∧
      crc8 ([0x28, 0x4E, 0x20, 0x25, 0x09, 0x00, 0x00] ++ [0xFF]) = 0 := by
  have hname : IsName "28-00000925204e" :=
    ⟨hex [0x28], hex [0x00, 0x00, 0x09, 0x25, 0x20, 0x4E], by decide +kernel, by decide +kernel,
      by decide +kernel, fun c hc => (List.mem_append.mp hc).elim isHex_hex isHex_hex⟩
  have hcrc : crc8 [0x28, 0x4E, 0x20, 0x25, 0x09, 0x00, 0x00] = 0xFF := by decide +kernel
  obtain ⟨hforms, hvalid⟩ := addresses_agree
  obtain ⟨key, owfs, rom, hkey, howfs, -, hform, -, -, hrom, -⟩ := hforms _ hname
  have hknown : addressKey "28-00000925204e" = some "284E2025090000" := by decide +kernel
  obtain rfl := Option.some.inj (hknown.symm.trans hkey)
  have hbytes : fromHex "284E2025090000".toList =
      some [0x28, 0x4E, 0x20, 0x25, 0x09, 0x00, 0x00] := by decide +kernel
  obtain rfl := Option.some.inj (hbytes.symm.trans hrom)
  have hsensor : owfsAddress "28-00000925204e" = some "28.4E2025090000.FF" := by decide +kernel
  obtain rfl := Option.some.inj (hsensor.symm.trans howfs)
  have hdigits : "284e2025090000".toList = hex [0x28, 0x4E, 0x20, 0x25, 0x09, 0x00, 0x00] := by
    decide +kernel
  refine ⟨hsensor, ?_, hcrc, hcrc ▸ hvalid _⟩
  rw [hkey]
  exact hform _ ⟨fun c hc => .inl (isHex_hex (hdigits ▸ hc)), .inr (by decide +kernel)⟩

end W1

end Evok
