import Mathlib.Data.List.Sort
import Mathlib.Data.List.DropRight
import Mathlib.Tactic.IntervalCases

/-!
# 1-Wire in sysfs

The masters and the slaves of the kernel, `w1/sysfs.py`. A slave has two spellings of its address,
the one of sysfs and the one of owserver; `addressKey` is the same for both.

## Main definitions

* `Sysfs`, `w1Master`: the masters of the kernel, and the one which a bus uses.
* `Slave`: a slave found by the kernel.
* `addressKey`, `owfsAddress`: the addresses of the sensors.

## Main results

* `Slave.addressKey_name`: the key of a slave.
* `Slave.owfsAddress_name`: the address of a found sensor has the key of its slave.
-/

namespace Evok

namespace W1

/-! ## The masters -/

variable {M : Type}

/-- `/sys/bus/w1/devices`: its entries and the directory of a name. -/
structure Sysfs (M : Type) where
  names : List String
  device : String → Option M

/-- The name of a 1-Wire master of the kernel. -/
def isMaster (name : String) : Bool :=
  "w1_bus_master".toList.isPrefixOf name.toList

/-- The number of a master, 0 without digits. -/
def masterNumber (name : String) : Option ℕ :=
  let digits := name.toList.drop "w1_bus_master".length
  if digits.all Char.isDigit then some (Nat.ofDigitChars 10 digits 0) else none

/-- `masters`: the names of the masters by their numbers. -/
def Sysfs.masters (sysfs : Sysfs M) : Option (List String) := do
  let found ← (sysfs.names.filter isMaster).mapM fun name =>
    (masterNumber name).map fun number => (number, name)
  return (found.insertionSort fun a b => a.1 ≤ b.1).map Prod.snd

/-- `W1Master.__init__`: the master of a name, the first one found without a name. -/
def w1Master (sysfs : Sysfs M) : Option String → Option M
  | none => do
    let found ← sysfs.masters
    sysfs.device (← found.head?)
  | some name => sysfs.device name

/-! ## Hexadecimal digits -/

/-- `bytes.hex()`. -/
def hex (bytes : List (BitVec 8)) : List Char :=
  bytes.flatMap fun byte => [Nat.digitChar (byte.toNat / 16), Nat.digitChar (byte.toNat % 16)]

/-- The value of a hexadecimal digit. -/
def hexValue (c : Char) : Option ℕ :=
  if c.isDigit then some (c.toNat - '0'.toNat)
  else if 'a' ≤ c ∧ c ≤ 'f' then some (c.toNat - 'a'.toNat + 10)
  else if 'A' ≤ c ∧ c ≤ 'F' then some (c.toNat - 'A'.toNat + 10)
  else none

/-- `bytes.fromhex()`, which skips the spaces between the bytes. -/
def fromHex : List Char → Option (List (BitVec 8))
  | [] => some []
  | [c] => if c.isWhitespace then some [] else none
  | c :: d :: rest =>
    if c.isWhitespace then fromHex (d :: rest)
    else do
      let high ← hexValue c
      let low ← hexValue d
      return BitVec.ofNat 8 (16 * high + low) :: (← fromHex rest)

/-- A digit of `bytes.hex()` or its upper case. -/
def IsHex (c : Char) : Prop :=
  ∃ n < 16, c = Nat.digitChar n ∨ c = (Nat.digitChar n).toUpper

theorem IsHex.digitChar {n : ℕ} (h : n < 16) : IsHex (Nat.digitChar n) :=
  ⟨n, h, .inl rfl⟩

/-- What the parsers of the addresses ask of a character. -/
theorem IsHex.facts {c : Char} (h : IsHex c) :
    c.isWhitespace = false ∧ c ≠ '-' ∧ c ≠ '.' ∧ IsHex c.toUpper ∧
      c.toUpper.toUpper = c.toUpper := by
  obtain ⟨n, hn, rfl | rfl⟩ := h
  · have hupper : IsHex (Nat.digitChar n).toUpper := ⟨n, hn, .inr rfl⟩
    refine ⟨?_, ?_, ?_, hupper, ?_⟩ <;> interval_cases n <;> decide
  · have hupper : (Nat.digitChar n).toUpper.toUpper = (Nat.digitChar n).toUpper := by
      interval_cases n <;> decide
    refine ⟨?_, ?_, ?_, ⟨n, hn, .inr hupper⟩, by rw [hupper, hupper]⟩ <;>
      interval_cases n <;> decide

theorem hexValue_digitChar {n : ℕ} (h : n < 16) :
    hexValue (Nat.digitChar n) = some n ∧ hexValue (Nat.digitChar n).toUpper = some n := by
  interval_cases n <;> decide

theorem isHex_hex {bytes : List (BitVec 8)} {c : Char} (h : c ∈ hex bytes) : IsHex c := by
  obtain ⟨byte, -, hc⟩ := List.mem_flatMap.mp h
  have hbyte := byte.isLt
  rcases List.mem_pair.mp hc with rfl | rfl
  · exact .digitChar (by omega)
  · exact .digitChar (by omega)

@[simp] theorem hex_nil : hex [] = [] := rfl

@[simp] theorem hex_cons (byte : BitVec 8) (bytes : List (BitVec 8)) :
    hex (byte :: bytes) =
      Nat.digitChar (byte.toNat / 16) :: Nat.digitChar (byte.toNat % 16) :: hex bytes := rfl

@[simp] theorem length_hex (bytes : List (BitVec 8)) : (hex bytes).length = 2 * bytes.length := by
  induction bytes with
  | nil => rfl
  | cons byte bytes ih =>
    rw [hex_cons, List.length_cons, List.length_cons, ih, List.length_cons]
    omega

/-- The digits of bytes, also in upper case, are read as the bytes. -/
theorem fromHex_hex (bytes : List (BitVec 8)) :
    fromHex (hex bytes) = some bytes ∧ fromHex ((hex bytes).map Char.toUpper) = some bytes := by
  induction bytes with
  | nil => exact ⟨rfl, rfl⟩
  | cons byte bytes ih =>
    have hbyte := byte.isLt
    have hhigh : byte.toNat / 16 < 16 := by omega
    have hlow : byte.toNat % 16 < 16 := by omega
    have hsum : BitVec.ofNat 8 (16 * (byte.toNat / 16) + byte.toNat % 16) = byte := by
      rw [Nat.div_add_mod, BitVec.ofNat_toNat, BitVec.setWidth_eq]
    have hspace := (IsHex.digitChar hhigh).facts
    have hupper := hspace.2.2.2.1.facts
    simp [fromHex, hspace.1, hupper.1, hexValue_digitChar hhigh, hexValue_digitChar hlow, hsum, ih]

/-- The value of a digit in either case. -/
theorem IsHex.value {c : Char} (h : IsHex c) :
    ∃ n < 16, hexValue c = some n ∧ (Nat.digitChar n).toUpper = c.toUpper := by
  obtain ⟨n, hn, rfl | rfl⟩ := h
  · exact ⟨n, hn, (hexValue_digitChar hn).1, rfl⟩
  · exact ⟨n, hn, (hexValue_digitChar hn).2, (IsHex.digitChar hn).facts.2.2.2.2.symm⟩

/-- Digits in either case are the digits of bytes. -/
theorem fromHex_of_isHex {text : List Char} {n : ℕ} (length : text.length = 2 * n)
    (chars : ∀ c ∈ text, IsHex c) :
    ∃ bytes, fromHex text = some bytes ∧ bytes.length = n ∧
      (hex bytes).map Char.toUpper = text.map Char.toUpper := by
  induction n generalizing text with
  | zero =>
    obtain rfl := List.length_eq_zero_iff.mp length
    exact ⟨[], rfl, rfl, rfl⟩
  | succ n ih =>
    obtain ⟨c, tail, rfl⟩ := List.exists_cons_of_length_pos (l := text) (by omega)
    obtain ⟨d, rest, rfl⟩ := List.exists_cons_of_length_pos (l := tail) (by
      simp only [List.length_cons] at length
      omega)
    have hlength : rest.length = 2 * n := by
      simp only [List.length_cons] at length
      omega
    obtain ⟨bytes, hbytes, hcount, hdigits⟩ := ih hlength fun e he => chars e (by simp [he])
    obtain ⟨high, hhigh, hc, hupper⟩ := (chars c (by simp)).value
    obtain ⟨low, hlow, hd, hupper'⟩ := (chars d (by simp)).value
    have hbyte : (BitVec.ofNat 8 (16 * high + low)).toNat = 16 * high + low := by
      rw [BitVec.toNat_ofNat]
      omega
    have hdiv : (16 * high + low) / 16 = high := by omega
    have hmod : (16 * high + low) % 16 = low := by omega
    refine ⟨BitVec.ofNat 8 (16 * high + low) :: bytes, ?_, by simp [hcount], ?_⟩
    · simp [fromHex, (chars c (by simp)).facts.1, hc, hd, hbytes]
    · rw [hex_cons, hbyte, hdiv, hmod, List.map_cons, List.map_cons, hupper, hupper', hdigits,
        List.map_cons, List.map_cons]

/-! ## The addresses -/

/-- `str.strip()`. -/
def strip (text : List Char) : List Char :=
  (text.dropWhile Char.isWhitespace).rdropWhile Char.isWhitespace

/-- `address_key`: the family and the serial number, without the CRC and in upper case; the name in
sysfs has the bytes in the reverse order. -/
def addressKey (address : String) : Option String :=
  let address := strip address.toList
  if '-' ∈ address then do
    let family := address.takeWhile (· ≠ '-')
    let serial ← fromHex (address.dropWhile (· ≠ '-')).tail
    return String.ofList ((family ++ hex serial.reverse).map Char.toUpper)
  else some (String.ofList (((address.filter (· ≠ '.')).map Char.toUpper).take 14))

/-- One bit of `crc8`. -/
def crcBit (state : BitVec 8 × BitVec 8) : BitVec 8 × BitVec 8 :=
  let (crc, byte) := state
  let mix := (crc ^^^ byte) &&& 1
  let crc := crc >>> 1
  (if mix = 0 then crc else crc ^^^ 0x8C, byte >>> 1)

/-- `crc8`. -/
def crc8 (data : List (BitVec 8)) : BitVec 8 :=
  data.foldl (fun crc byte => (crcBit^[8] (crc, byte)).1) 0

/-- `owfs_address`: a name of sysfs in the form of owserver. -/
def owfsAddress (name : String) : Option String := do
  let key ← addressKey name
  let data ← fromHex key.toList
  return String.ofList (key.toList.take 2 ++ '.' :: key.toList.drop 2 ++
    '.' :: (hex [crc8 data]).map Char.toUpper)

/-- A slave found by the kernel: the family and the serial number. -/
structure Slave where
  family : BitVec 8
  serial : List (BitVec 8)
  six : serial.length = 6
  deriving DecidableEq

namespace Slave

/-- The name in sysfs. -/
def name (slave : Slave) : String :=
  String.ofList (hex [slave.family] ++ '-' :: hex slave.serial)

/-- The key of the addresses of the slave. -/
def key (slave : Slave) : String :=
  String.ofList ((hex (slave.family :: slave.serial.reverse)).map Char.toUpper)

variable (slave : Slave)

theorem isHex_key {c : Char} (h : c ∈ slave.key.toList) : IsHex c := by
  rw [key, String.toList_ofList] at h
  obtain ⟨d, hd, rfl⟩ := List.mem_map.mp h
  exact (isHex_hex hd).facts.2.2.2.1

theorem toUpper_key {c : Char} (h : c ∈ slave.key.toList) : c.toUpper = c := by
  rw [key, String.toList_ofList] at h
  obtain ⟨d, hd, rfl⟩ := List.mem_map.mp h
  exact (isHex_hex hd).facts.2.2.2.2

theorem length_key : slave.key.toList.length = 14 := by
  rw [key, String.toList_ofList, List.length_map, length_hex, List.length_cons,
    List.length_reverse, slave.six]

end Slave

/-- A text without spaces is stripped already. -/
theorem strip_eq {text : List Char} (h : ∀ c ∈ text, c.isWhitespace = false) :
    strip text = text := by
  have hdrop : text.dropWhile Char.isWhitespace = text := by
    cases text with
    | nil => rfl
    | cons c text => rw [List.dropWhile_cons_of_neg (by simp [h c List.mem_cons_self])]
  rw [strip, hdrop]
  cases text using List.reverseRecOn with
  | nil => rfl
  | append_singleton text c => exact List.rdropWhile_concat_neg _ _ _ (by simp [h c (by simp)])

/-- The key of a name in sysfs. -/
theorem addressKey_sysfs {name : String} {family serial : List Char} {bytes : List (BitVec 8)}
    (hname : name.toList = family ++ '-' :: serial) (chars : ∀ c ∈ family ++ serial, IsHex c)
    (hserial : fromHex serial = some bytes) :
    addressKey name =
      some (String.ofList (family.map Char.toUpper ++ (hex bytes.reverse).map Char.toUpper)) := by
  have hfamily : ∀ c ∈ family, (decide (c ≠ '-')) = true := fun c hc =>
    decide_eq_true (chars c (List.mem_append_left _ hc)).facts.2.1
  have hstrip : strip name.toList = family ++ '-' :: serial := by
    rw [hname]
    refine strip_eq fun c hc => ?_
    rcases List.mem_append.mp hc with hc | hc
    · exact (chars c (List.mem_append_left _ hc)).facts.1
    · rcases List.mem_cons.mp hc with rfl | hc
      · decide
      · exact (chars c (List.mem_append_right _ hc)).facts.1
  unfold addressKey
  dsimp only
  rw [hstrip, if_pos (by simp), List.takeWhile_append_of_pos hfamily,
    List.dropWhile_append_of_pos hfamily]
  simp [hserial]

/-- The key of digits with dots between them, and with a CRC. -/
theorem addressKey_digits {text digits crc : List Char} (chars : ∀ c ∈ text, IsHex c ∨ c = '.')
    (hdigits : (text.filter (· ≠ '.')).map Char.toUpper = digits ++ crc)
    (length : digits.length = 14) :
    addressKey (String.ofList text) = some (String.ofList digits) := by
  have hstrip : strip text = text := by
    refine strip_eq fun c hc => ?_
    rcases chars c hc with h | rfl
    · exact h.facts.1
    · decide
  have hminus : '-' ∉ text := by
    intro hmem
    rcases chars _ hmem with h | h
    · exact h.facts.2.1 rfl
    · exact absurd h (by decide)
  unfold addressKey
  dsimp only
  rw [String.toList_ofList, hstrip, if_neg hminus, hdigits, List.take_left' length]

/-- There are no dots in digits. -/
theorem filter_dots {digits : List Char} (h : ∀ c ∈ digits, IsHex c) :
    digits.filter (· ≠ '.') = digits :=
  List.filter_eq_self.mpr fun c hc => decide_eq_true (h c hc).facts.2.2.1

namespace Slave

variable (slave : Slave)

theorem addressKey_name : addressKey slave.name = some slave.key := by
  have hchars : ∀ c ∈ hex [slave.family] ++ hex slave.serial, IsHex c := by
    intro c hc
    rcases List.mem_append.mp hc with hc | hc <;> exact isHex_hex hc
  rw [addressKey_sysfs (by rw [name, String.toList_ofList]) hchars (fromHex_hex _).1, key,
    hex_cons, ← List.map_append]
  rfl

theorem map_toUpper_key : slave.key.toList.map Char.toUpper = slave.key.toList :=
  (List.map_congr_left fun _ hc => slave.toUpper_key hc).trans (List.map_id _)

/-- The family and the serial number in the order of owserver. -/
def rom : List (BitVec 8) :=
  slave.family :: slave.serial.reverse

/-- The digits of the CRC. -/
def crc : List Char :=
  (hex [crc8 slave.rom]).map Char.toUpper

theorem isHex_crc {c : Char} (h : c ∈ slave.crc) : IsHex c := by
  obtain ⟨d, hd, rfl⟩ := List.mem_map.mp h
  exact (isHex_hex hd).facts.2.2.2.1

theorem map_toUpper_crc : slave.crc.map Char.toUpper = slave.crc := by
  rw [crc, List.map_map]
  exact List.map_congr_left fun c hc => (isHex_hex hc).facts.2.2.2.2

theorem fromHex_key : fromHex slave.key.toList = some slave.rom := by
  rw [key, String.toList_ofList]
  exact (fromHex_hex _).2

/-- The address of owserver. -/
def owfs : List Char :=
  slave.key.toList.take 2 ++ '.' :: slave.key.toList.drop 2 ++ '.' :: slave.crc

theorem owfsAddress_eq : owfsAddress slave.name = some (String.ofList slave.owfs) := by
  simp [owfsAddress, addressKey_name, fromHex_key, owfs, crc]

theorem owfs_chars : ∀ c ∈ slave.owfs, IsHex c ∨ c = '.' := by
  intro c hc
  rw [owfs, List.mem_append, List.mem_append, List.mem_cons, List.mem_cons] at hc
  rcases hc with (hc | hc | hc) | hc | hc
  · exact .inl (slave.isHex_key (List.mem_of_mem_take hc))
  · exact .inr hc
  · exact .inl (slave.isHex_key (List.mem_of_mem_drop hc))
  · exact .inr hc
  · exact .inl (slave.isHex_crc hc)

theorem owfs_digits : slave.owfs.filter (· ≠ '.') = slave.key.toList ++ slave.crc := by
  simp only [owfs, List.filter_append, List.filter_cons,
    filter_dots fun c hc => slave.isHex_key (List.mem_of_mem_take hc),
    filter_dots fun c hc => slave.isHex_key (List.mem_of_mem_drop hc),
    filter_dots fun c hc => slave.isHex_crc hc,
    ne_eq, not_true_eq_false, decide_false, Bool.false_eq_true, if_false]
  rw [List.take_append_drop]

/-- The address of the sensor created for a slave. -/
theorem owfsAddress_name :
    ∃ address, owfsAddress slave.name = some address ∧ addressKey address = some slave.key := by
  have hdigits : (slave.owfs.filter (· ≠ '.')).map Char.toUpper =
      slave.key.toList ++ slave.crc := by
    rw [owfs_digits, List.map_append, map_toUpper_key, map_toUpper_crc]
  have hkey := addressKey_digits slave.owfs_chars hdigits slave.length_key
  rw [String.ofList_toList] at hkey
  exact ⟨_, slave.owfsAddress_eq, hkey⟩

end Slave

end W1

end Evok
