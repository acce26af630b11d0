import TermOS.FS.CPIO
import Mathlib.Tactic.NormNum

/-!
# The newc format

The encoder that `FSCPIOMount` decodes: a header of fourteen text fields, the
name with its NUL and the content, the last two each padded to a multiple of
four bytes. Every digit of a header may be written in either case. For one
entry, this module says what the mount reads out of its encoding.
-/

namespace TermOS.FS

open TermOS.Lib TermOS.Kernel

/-! ## Section 1: Hexadecimal fields -/

/-- A hexadecimal digit as a character. -/
def hexCharacter (upper : Bool) (digit : Nat) : UInt8 :=
  if digit < 10 then UInt8.ofNat (48 + digit)
  else UInt8.ofNat ((if upper then 65 else 97) + (digit - 10))

/-- `n` digits of `v`, the highest first; `upper i` is the case of digit `i`. -/
def hexField (upper : Nat → Bool) : Nat → Nat → List UInt8
  | 0, _ => []
  | n + 1, v => hexField upper n (v / 16) ++ [hexCharacter (upper n) (v % 16)]

@[simp] theorem length_hexField (upper : Nat → Bool) (n v : Nat) :
    (hexField upper n v).length = n := by
  induction n generalizing v with
  | zero => rfl
  | succ n ih => rw [hexField, List.length_append, ih, List.length_singleton]

theorem hexadecimalDigit_hexCharacter {digit : Nat} (upper : Bool) (h : digit < 16) :
    hexadecimalDigit (hexCharacter upper digit) = digit := by
  have : ∀ upper : Bool, ∀ digit < 16, hexadecimalDigit (hexCharacter upper digit) = digit := by
    decide
  exact this upper digit h

/-- A field is read back. -/
theorem fsCPIOHexadecimalToUInt64_hexField {m : Memory} {upper : Nat → Bool} {n v : Nat}
    (h : m.Holds 0 (hexField upper n v)) (hn : n ≤ 16) :
    fsCPIOHexadecimalToUInt64 m n = v % 16 ^ n := by
  induction n generalizing v with
  | zero => rw [Nat.pow_zero, Nat.mod_one]; rfl
  | succ n ih =>
    obtain ⟨hinit, hlast⟩ := Memory.Holds.append_iff.mp h
    have hcharacter : m n = hexCharacter (upper n) (v % 16) := by
      have := (Memory.Holds.cons_iff.mp hlast).1
      rwa [length_hexField, Nat.zero_add] at this
    -- the digits before the last one read as `v / 16`, which leaves room to shift
    have hprefix := ih hinit (by omega)
    have hpow : 16 ^ n * 16 ≤ 2 ^ 64 := by
      rw [← Nat.pow_succ]
      calc 16 ^ (n + 1) ≤ 16 ^ 16 := Nat.pow_le_pow_right (by decide) hn
        _ = 2 ^ 64 := by norm_num
    have hlt : v / 16 % 16 ^ n < 16 ^ n := Nat.mod_lt _ (Nat.pow_pos (by decide))
    have hmod : v % 16 ^ (n + 1) = v % 16 + 16 * (v / 16 % 16 ^ n) := by
      rw [Nat.pow_succ, Nat.mul_comm (16 ^ n), Nat.mod_mul]
    rw [fsCPIOHexadecimalToUInt64] at hprefix ⊢
    rw [hexadecimalLoop_succ, hprefix, hcharacter,
      hexadecimalDigit_hexCharacter _ (Nat.mod_lt _ (by decide)), hmod]
    generalize 16 ^ n = power at *
    omega

/-! ## Section 2: Entries -/

/-- What an archive says about a file. `upper` is the case of the digits in the
header. -/
structure NewcEntry where
  name : List UInt8
  content : List UInt8
  inode : UInt32
  mode : UInt32
  userIdentifier : UInt32
  groupIdentifier : UInt32
  linkCount : UInt32
  modificationTime : UInt32
  deviceMajor : UInt32
  deviceMinor : UInt32
  remoteDeviceMajor : UInt32
  remoteDeviceMinor : UInt32
  checkSum : UInt32
  upper : Nat → Bool

namespace NewcEntry

/-- The entries that a newc archive can hold as files. -/
structure Valid (e : NewcEntry) : Prop where
  name_ne_nil : e.name ≠ []
  nul_notMem : 0 ∉ e.name
  length_name : e.name.length ≤ 255
  name_ne_trailer : e.name ≠ trailerName
  length_content : e.content.length < 2 ^ 32

/-- The padding behind `n` bytes. -/
def padding (n : Nat) : List UInt8 := List.replicate ((4 - n % 4) % 4) 0

/-- The `k`-th field of the header. -/
def field (e : NewcEntry) (k v : Nat) : List UInt8 := hexField (fun i => e.upper (8 * k + i)) 8 v

/-- The header of an entry. -/
def header (e : NewcEntry) : List UInt8 :=
  newcMagic ++ (e.field 0 e.inode.toNat ++ (e.field 1 e.mode.toNat ++
    (e.field 2 e.userIdentifier.toNat ++ (e.field 3 e.groupIdentifier.toNat ++
    (e.field 4 e.linkCount.toNat ++ (e.field 5 e.modificationTime.toNat ++
    (e.field 6 e.content.length ++ (e.field 7 e.deviceMajor.toNat ++
    (e.field 8 e.deviceMinor.toNat ++ (e.field 9 e.remoteDeviceMajor.toNat ++
    (e.field 10 e.remoteDeviceMinor.toNat ++ (e.field 11 (e.name.length + 1) ++
    e.field 12 e.checkSum.toNat))))))))))))

/-- The bytes of an entry. -/
def encode (e : NewcEntry) : List UInt8 :=
  e.header ++ (e.name ++ [0] ++ (padding (110 + e.name.length + 1) ++
    (e.content ++ padding e.content.length)))

@[simp] theorem length_field (e : NewcEntry) (k v : Nat) : (e.field k v).length = 8 :=
  length_hexField ..

@[simp] theorem length_header (e : NewcEntry) : e.header.length = 110 := by
  simp [header, newcMagic]

theorem length_padding (n : Nat) : (padding n).length = (4 - n % 4) % 4 := List.length_replicate

/-- Where the content of an entry starts. -/
def contentOffset (e : NewcEntry) : Nat := (110 + e.name.length + 1 + 3) / 4 * 4

theorem length_encode (e : NewcEntry) :
    e.encode.length = e.contentOffset + (e.content.length + 3) / 4 * 4 := by
  simp only [encode, contentOffset, List.length_append, length_header, length_padding,
    List.length_singleton]
  omega

/-! ## Section 3: What the mount reads -/

variable {m : Memory} {e : NewcEntry} {p : Nat}

/-- The parts of an encoded entry, each at its place. -/
structure At (m : Memory) (p : Nat) (e : NewcEntry) : Prop where
  magic : m.Holds p newcMagic
  inode : m.Holds (p + 6) (e.field 0 e.inode.toNat)
  mode : m.Holds (p + 14) (e.field 1 e.mode.toNat)
  fileLength : m.Holds (p + 54) (e.field 6 e.content.length)
  nameLength : m.Holds (p + 94) (e.field 11 (e.name.length + 1))
  name : m.Holds (p + 110) (e.name ++ [0])
  content : m.Holds (p + e.contentOffset) e.content

theorem at_of_holds (h : m.Holds p e.encode) : At m p e := by
  obtain ⟨hheader, hrest⟩ := Memory.Holds.append_iff.mp h
  rw [length_header] at hrest
  obtain ⟨hname, hrest⟩ := Memory.Holds.append_iff.mp hrest
  obtain ⟨-, hrest⟩ := Memory.Holds.append_iff.mp hrest
  obtain ⟨hcontent, -⟩ := Memory.Holds.append_iff.mp hrest
  simp only [header, Memory.Holds.append_iff, length_field] at hheader
  obtain ⟨hmagic, hinode, hmode, -, -, -, -, hfile, -, -, -, -, hlength, -⟩ := hheader
  have hsix : newcMagic.length = 6 := rfl
  rw [hsix] at hinode hmode hfile hlength
  refine ⟨hmagic, hinode, hmode, hfile, hlength, hname, ?_⟩
  have hplace : p + 110 + (e.name ++ [0]).length + (padding (110 + e.name.length + 1)).length =
      p + e.contentOffset := by
    simp only [contentOffset, List.length_append, length_padding, List.length_singleton]
    omega
  rwa [hplace] at hcontent

theorem At.hexadecimal_eq {a k v : Nat} (h : m.Holds a (e.field k v)) :
    fsCPIOHexadecimalToUInt64 (m.advance a) 8 = v % 2 ^ 32 :=
  fsCPIOHexadecimalToUInt64_hexField h.advance (by decide)

theorem At.magic_eq (h : At m p e) :
    stringCompareWithLimit (m.advance (p + FSCPIOHeader.magic)) newcMagic 6 = 0 :=
  stringCompareWithLimit_of_holds h.magic.advance (by decide)

theorem At.cString (h : At m p e) (hnul : 0 ∉ e.name) :
    CString (m.advance (p + FSCPIOHeader.size)) e.name := ⟨hnul, h.name.advance⟩

theorem At.trailer_iff (h : At m p e) (hnul : 0 ∉ e.name) :
    stringCompare (m.advance (p + FSCPIOHeader.size)) trailerName = 0 ↔ e.name = trailerName :=
  stringCompare_eq_zero_iff (h.cString hnul) (by decide)

theorem fsCPIOAlign4_of_lt {x : Nat} (h : x < 2 ^ 33) : fsCPIOAlign4 x = (x + 3) / 4 * 4 := by
  rw [fsCPIOAlign4, Nat.mod_eq_of_lt]
  omega

theorem At.fileSize_eq (h : At m p e) (hvalid : e.Valid) : fileSize m p = e.content.length := by
  have := At.hexadecimal_eq h.fileLength
  rwa [Nat.mod_eq_of_lt hvalid.length_content] at this

theorem At.offsetToData_eq (h : At m p e) (hvalid : e.Valid) :
    offsetToData m p = e.contentOffset := by
  have hlength := At.hexadecimal_eq h.nameLength
  have hshort := hvalid.length_name
  rw [Nat.mod_eq_of_lt (by omega)] at hlength
  simp only [offsetToData, FSCPIOHeader.nameLength, FSCPIOHeader.size]
  rw [hlength, fsCPIOAlign4_of_lt (by omega)]
  rfl

/-- The pointer after a turn of the mount loop is behind the entry. -/
theorem At.advance_eq (h : At m p e) (hvalid : e.Valid) (hend : p + e.encode.length < 2 ^ 64) :
    (p + (offsetToData m p + fsCPIOAlign4 (fileSize m p))) % 2 ^ 64 = p + e.encode.length := by
  have hcontent := hvalid.length_content
  rw [h.offsetToData_eq hvalid, h.fileSize_eq hvalid, fsCPIOAlign4_of_lt (by omega),
    ← e.length_encode, Nat.mod_eq_of_lt hend]

/-- A node says about its file what the archive says. -/
structure Describes (m : Memory) (node : FSVNode) (e : NewcEntry) : Prop where
  name : CString node.name e.name
  dataLength : node.dataLength = e.content.length
  inodeIdentifier : node.inodeIdentifier = e.inode.toNat
  flags : node.flags =
    if e.mode &&& 0xF000 = 0x4000 then kFSVNodeFlagDirectory else kFSVNodeFlagFile
  operations : node.operations = some gFSCPIOOperations
  content : m.Holds node.implementationData e.content

theorem mode_and_iff (mode : UInt32) :
    mode.toNat &&& 0xF000 = 0x4000 ↔ mode &&& 0xF000 = 0x4000 := by
  rw [← UInt32.toNat_inj, UInt32.toNat_and]
  rfl

theorem At.implementationData_eq (h : At m p e) (hvalid : e.Valid)
    (hend : p + e.contentOffset < 2 ^ 64) :
    (cpioNode m p).implementationData = p + e.contentOffset := by
  simp only [cpioNode]
  rw [h.offsetToData_eq hvalid, Nat.mod_eq_of_lt hend]

/-- A node that was filled in for an entry describes it for as long as the
entry stays where it is. -/
theorem At.describes {later : Memory} (h : At m p e) (hlater : At later p e) (hvalid : e.Valid)
    (hend : p + e.contentOffset < 2 ^ 64) : Describes later (cpioNode m p) e where
  name := by
    have hcopy := cString_stringCopyWithLimit (h.cString hvalid.nul_notMem)
      hvalid.length_name (show FSVNode.zero.name (0 + 255) = 0 from rfl)
    rwa [Memory.advance_zero] at hcopy
  dataLength := h.fileSize_eq hvalid
  inodeIdentifier := by
    have hinode : e.inode.toNat < 2 ^ 32 := e.inode.toNat_lt
    show fsCPIOHexadecimalToUInt64 (m.advance (p + 6)) 8 % 2 ^ 32 = e.inode.toNat
    rw [At.hexadecimal_eq h.inode, Nat.mod_eq_of_lt hinode, Nat.mod_eq_of_lt hinode]
  flags := by
    have hmode := At.hexadecimal_eq h.mode
    rw [Nat.mod_eq_of_lt e.mode.toNat_lt] at hmode
    show (if fsCPIOHexadecimalToUInt64 (m.advance (p + 14)) 8 &&& 0xF000 = 0x4000 then
      kFSVNodeFlagDirectory else kFSVNodeFlagFile) = _
    simp only [hmode, mode_and_iff]
  operations := rfl
  content := by
    rw [h.implementationData_eq hvalid hend]
    exact hlater.content

end NewcEntry

end TermOS.FS
