import TermOS.FS.CPIOMount

/-!
# What mounting reads

`FSCPIOMount` looks only at where an entry starts before it reads the header,
the name and the data address. This module lists what it reads and records, in
the order of the code, and says for which archives all of it lies inside. The
name is read by `StringCompare`, `StringCopyWithLimit` and `IOConsoleLog`.
-/

namespace TermOS.FS

open TermOS.Lib TermOS.Kernel

/-! ## Section 1: Reads of the string routines -/

/-- How many characters of the first string `StringCompare` reads. -/
def stringCompareReads (firstString : Memory) : List UInt8 → Nat
  | [] => 1
  | c :: cs =>
    if firstString 0 ≠ 0 ∧ firstString 0 = c then stringCompareReads (firstString.advance 1) cs + 1
    else 1

/-- How many characters of the first string `StringCompareWithLimit` reads. -/
def stringCompareWithLimitReads (firstString : Memory) : List UInt8 → Nat → Nat
  | _, 0 => 0
  | [], _ + 1 => 1
  | c :: cs, limit + 1 =>
    if firstString 0 ≠ c then 1
    else if firstString 0 = 0 then 1
    else stringCompareWithLimitReads (firstString.advance 1) cs limit + 1

/-- How many characters of the source `StringCopyWithLimit` reads: it looks at
the next one before it looks at the limit. -/
def stringCopyWithLimitReads (source : Memory) : Nat → Nat
  | 0 => 1
  | limit + 1 =>
    if source 0 ≠ 0 then stringCopyWithLimitReads (source.advance 1) limit + 1 else 1

/-- How many characters printing a string reads, the NUL included. `none` means
that the fuel ran out. -/
def printReads (string : Memory) : Nat → Option Nat
  | 0 => none
  | fuel + 1 => if string 0 = 0 then some 1 else (printReads (string.advance 1) fuel).map (· + 1)

/-- The string ends after `n` characters. -/
def EndsAt (string : Memory) (n : Nat) : Prop := string n = 0 ∧ ∀ i < n, string i ≠ 0

theorem printReads_eq_some {string : Memory} {fuel count : Nat}
    (h : printReads string fuel = some count) : ∃ n, count = n + 1 ∧ EndsAt string n := by
  induction fuel generalizing string count with
  | zero => simp [printReads] at h
  | succ fuel ih =>
    unfold printReads at h
    split at h
    · next hzero => exact ⟨0, (Option.some.inj h).symm, hzero, by simp⟩
    · next hne =>
      obtain ⟨count', hrest, rfl⟩ := Option.map_eq_some_iff.mp h
      obtain ⟨n, rfl, hend, hbefore⟩ := ih hrest
      rw [Memory.advance_apply, Nat.add_comm] at hend
      refine ⟨n + 1, rfl, hend, fun i hi => ?_⟩
      cases i with
      | zero => exact hne
      | succ i =>
        have hi' := hbefore i (by omega)
        rwa [Memory.advance_apply, Nat.add_comm] at hi'

theorem printReads_of_endsAt {string : Memory} {n fuel : Nat} (h : EndsAt string n) (hfuel : n < fuel) :
    printReads string fuel = some (n + 1) := by
  induction n generalizing string fuel with
  | zero =>
    obtain ⟨fuel, rfl⟩ := Nat.exists_eq_succ_of_ne_zero (Nat.ne_of_gt hfuel)
    rw [printReads, if_pos h.1]
  | succ n ih =>
    obtain ⟨fuel, rfl⟩ := Nat.exists_eq_succ_of_ne_zero (Nat.ne_of_gt (Nat.zero_lt_of_lt hfuel))
    have hrest : EndsAt (string.advance 1) n := by
      constructor
      · rw [Memory.advance_apply, Nat.add_comm]
        exact h.1
      · intro i hi
        rw [Memory.advance_apply, Nat.add_comm]
        exact h.2 (i + 1) (by omega)
    rw [printReads, if_neg (h.2 0 (by omega)), ih hrest (by omega), Option.map_some]

/-- No routine reads behind the NUL. -/
theorem stringCopyWithLimitReads_le {source : Memory} {n : Nat} (h : source n = 0) (limit : Nat) :
    stringCopyWithLimitReads source limit ≤ n + 1 := by
  induction limit generalizing source n with
  | zero => simp [stringCopyWithLimitReads]
  | succ limit ih =>
    unfold stringCopyWithLimitReads
    split
    · next hne =>
      cases n with
      | zero => exact absurd h hne
      | succ n =>
        have hadvance : source.advance 1 n = 0 := by rwa [Memory.advance_apply, Nat.add_comm]
        have hrest := ih hadvance
        omega
    · omega

theorem stringCompareReads_le {firstString : Memory} {n : Nat} (h : firstString n = 0)
    (secondString : List UInt8) : stringCompareReads firstString secondString ≤ n + 1 := by
  induction secondString generalizing firstString n with
  | nil => simp [stringCompareReads]
  | cons c cs ih =>
    unfold stringCompareReads
    split
    · next hmatch =>
      cases n with
      | zero => exact absurd h hmatch.1
      | succ n =>
        have hadvance : firstString.advance 1 n = 0 := by
          rwa [Memory.advance_apply, Nat.add_comm]
        have hrest := ih hadvance
        omega
    · omega

/-! ## Section 2: Reads of the mount -/

/-- Something that the mount reads, or the data of a node that it fills in. -/
inductive CPIOAccess
  | read (address : Nat)
  | content (address length : Nat)
  deriving DecidableEq, Repr

/-- The access lies inside the archive. -/
def CPIOAccess.Inside (baseAddress totalSize : Nat) : CPIOAccess → Prop
  | read address => baseAddress ≤ address ∧ address < baseAddress + totalSize
  | content address length => baseAddress ≤ address ∧ address + length ≤ baseAddress + totalSize

/-- Reads of `count` bytes from `address` on. -/
def readsAt (address count : Nat) : List CPIOAccess :=
  (List.range' address count).map CPIOAccess.read

theorem mem_readsAt {address count : Nat} {access : CPIOAccess} :
    access ∈ readsAt address count ↔ ∃ x, address ≤ x ∧ x < address + count ∧ access = .read x := by
  simp [readsAt, List.mem_range'_1, eq_comm, and_assoc]

section Mount

variable (vmHeapAllocate : Nat → Nat) (m : Memory)

/-- The magic number is compared up to the first difference. -/
def magicReads (currentPointer : Nat) : List CPIOAccess :=
  readsAt (currentPointer + FSCPIOHeader.magic) (stringCompareWithLimitReads
    (m.advance (currentPointer + FSCPIOHeader.magic)) newcMagic 6)

/-- The two lengths, and the comparison of the name with the trailer's. -/
def entryReads (currentPointer : Nat) : List CPIOAccess :=
  readsAt (currentPointer + FSCPIOHeader.nameLength) 8 ++
  readsAt (currentPointer + FSCPIOHeader.fileLength) 8 ++
  readsAt (currentPointer + FSCPIOHeader.size)
    (stringCompareReads (m.advance (currentPointer + FSCPIOHeader.size)) trailerName)

/-- Filling in and logging the node; `printed` characters are printed. -/
def nodeReads (currentPointer printed : Nat) : List CPIOAccess :=
  readsAt (currentPointer + FSCPIOHeader.size) (stringCopyWithLimitReads
    (m.advance (currentPointer + FSCPIOHeader.size)) (sizeofName - 1)) ++
  readsAt (currentPointer + FSCPIOHeader.inode) 8 ++
  .content ((currentPointer + offsetToData m currentPointer) % 2 ^ 64) (fileSize m currentPointer) ::
  readsAt (currentPointer + FSCPIOHeader.mode) 8 ++
  readsAt (currentPointer + FSCPIOHeader.size) printed

/-- Where the entry behind the one at `currentPointer` starts. -/
def nextEntry (currentPointer : Nat) : Nat :=
  (currentPointer + (offsetToData m currentPointer + fsCPIOAlign4 (fileSize m currentPointer))) %
    2 ^ 64

/-- The accesses of the loop of `FSCPIOMount`, after `allocated` nodes. `none`
means that the fuel ran out, in the loop or while a name was printed. -/
def mountAccesses (endPointer : Nat) : Nat → Nat → Nat → Option (List CPIOAccess)
  | 0, _, _ => none
  | fuel + 1, allocated, currentPointer =>
    if ¬ currentPointer < endPointer then some []
    else if stringCompareWithLimit (m.advance (currentPointer + FSCPIOHeader.magic)) newcMagic 6 ≠ 0 then
      some (magicReads m currentPointer)
    else if stringCompare (m.advance (currentPointer + FSCPIOHeader.size)) trailerName = 0 then
      some (magicReads m currentPointer ++ entryReads m currentPointer)
    else if vmHeapAllocate allocated = 0 then
      some (magicReads m currentPointer ++ entryReads m currentPointer)
    else
      (printReads (m.advance (currentPointer + FSCPIOHeader.size)) fuel).bind fun printed =>
        (mountAccesses endPointer fuel (allocated + 1) (nextEntry m currentPointer)).map fun rest =>
          magicReads m currentPointer ++ entryReads m currentPointer ++
            nodeReads m currentPointer printed ++ rest

/-- The accesses of `FSCPIOMount`: none when it does not even get a root. -/
def fsCPIOMountAccesses (baseAddress totalSize fuel : Nat) : Option (List CPIOAccess) :=
  if vmHeapAllocate 0 = 0 then some []
  else mountAccesses vmHeapAllocate m ((baseAddress + totalSize) % 2 ^ 64) fuel 1 baseAddress

/-! ## Section 3: The entries of an archive -/

/-- Where the entries of an archive start, as their lengths tell. -/
def entryStart (baseAddress : Nat) : Nat → Nat
  | 0 => baseAddress
  | k + 1 => nextEntry m (entryStart baseAddress k)

/-- The loop gets a node for the entry at `currentPointer`, its `k`-th one. -/
structure EntryPassed (endPointer k currentPointer : Nat) : Prop where
  below : currentPointer < endPointer
  magic : stringCompareWithLimit (m.advance (currentPointer + FSCPIOHeader.magic)) newcMagic 6 = 0
  notTrailer : stringCompare (m.advance (currentPointer + FSCPIOHeader.size)) trailerName ≠ 0
  allocated : vmHeapAllocate (k + 1) ≠ 0

/-- The loop comes to the `k`-th entry. -/
def EntryReached (endPointer baseAddress k : Nat) : Prop :=
  ∀ j < k, EntryPassed vmHeapAllocate m endPointer j (entryStart m baseAddress j)

/-- An entry fits into the archive as far as the loop looks at it: the magic
number up to the first difference; with the right one, the header up to the
lengths and the name as far as it agrees with the trailer's; and if it gets a
node, the whole name with its NUL, and the data. -/
structure EntryFits (endPointer k currentPointer : Nat) : Prop where
  magic : currentPointer + FSCPIOHeader.magic + stringCompareWithLimitReads
    (m.advance (currentPointer + FSCPIOHeader.magic)) newcMagic 6 ≤ endPointer
  header : stringCompareWithLimit (m.advance (currentPointer + FSCPIOHeader.magic)) newcMagic 6 = 0 →
    currentPointer + FSCPIOHeader.nameLength + 8 ≤ endPointer ∧
    currentPointer + FSCPIOHeader.size + stringCompareReads
      (m.advance (currentPointer + FSCPIOHeader.size)) trailerName ≤ endPointer
  name : EntryPassed vmHeapAllocate m endPointer k currentPointer →
    ∃ n, EndsAt (m.advance (currentPointer + FSCPIOHeader.size)) n ∧
      currentPointer + FSCPIOHeader.size + n < endPointer
  content : EntryPassed vmHeapAllocate m endPointer k currentPointer →
    currentPointer + offsetToData m currentPointer + fileSize m currentPointer ≤ endPointer

/-- Mounting comes to an end, panic or not, with all accesses inside the archive
and the data of all nodes below the root too. -/
def MountInside (baseAddress totalSize : Nat) : Prop :=
  ∃ fuel accesses result,
    fsCPIOMountAccesses vmHeapAllocate m baseAddress totalSize fuel = some accesses ∧
    fsCPIOMount vmHeapAllocate m baseAddress totalSize fuel = some result ∧
    (∀ access ∈ accesses, access.Inside baseAddress totalSize) ∧
    ∀ root volume, result = .ok (root, volume) →
      ∃ nodes, Links volume.next (volume.node root).childNode nodes 0 ∧
        ∀ node ∈ nodes, CPIOAccess.Inside baseAddress totalSize
          (.content (volume.node node).implementationData (volume.node node).dataLength)

end Mount

section Archive

variable {vmHeapAllocate : Nat → Nat} {m : Memory} {baseAddress totalSize p : Nat}

theorem hexadecimalDigit_lt (character : UInt8) : hexadecimalDigit character < 16 := by
  have hchar := character.toNat_lt
  unfold hexadecimalDigit
  split_ifs with hdigit hupper hlower
  · have hle := UInt8.le_iff_toNat_le.mp hdigit.2
    simp only [Char.toUInt8] at hle
    have h9 : ('9'.val.toUInt8).toNat = 57 := by decide
    omega
  · have hle := UInt8.le_iff_toNat_le.mp hupper.2
    have hF : ('F'.toUInt8).toNat = 70 := by decide
    omega
  · have hle := UInt8.le_iff_toNat_le.mp hlower.2
    have hf : ('f'.toUInt8).toNat = 102 := by decide
    omega
  · omega

/-- Eight digits make a number of 32 bits. -/
theorem fsCPIOHexadecimalToUInt64_lt (string : Memory) (length : Nat) :
    fsCPIOHexadecimalToUInt64 string length < 16 ^ length := by
  induction length with
  | zero => exact Nat.one_pos
  | succ length ih =>
    unfold fsCPIOHexadecimalToUInt64 at ih ⊢
    rw [hexadecimalLoop_succ, Nat.pow_succ]
    have hdigit := hexadecimalDigit_lt (string length)
    have hmod := Nat.mod_le (hexadecimalLoop 0 string length * 16) (2 ^ 64)
    have hsum := Nat.mod_le
      (hexadecimalLoop 0 string length * 16 % 2 ^ 64 + hexadecimalDigit (string length)) (2 ^ 64)
    omega

/-- The lengths of an entry are small enough for nothing to wrap. -/
theorem entry_lengths (m : Memory) (p : Nat) :
    110 ≤ offsetToData m p ∧ offsetToData m p ≤ 2 ^ 33 ∧ fileSize m p < 2 ^ 32 ∧
      fileSize m p ≤ fsCPIOAlign4 (fileSize m p) ∧ fsCPIOAlign4 (fileSize m p) ≤ fileSize m p + 3 := by
  have hname := fsCPIOHexadecimalToUInt64_lt (m.advance (p + FSCPIOHeader.nameLength)) 8
  have hfile := fsCPIOHexadecimalToUInt64_lt (m.advance (p + FSCPIOHeader.fileLength)) 8
  have hsize : fileSize m p < 2 ^ 32 := hfile
  rw [offsetToData]
  simp only [FSCPIOHeader.size]
  rw [NewcEntry.fsCPIOAlign4_of_lt (by omega), NewcEntry.fsCPIOAlign4_of_lt (by omega)]
  omega

theorem nextEntry_eq (hp : p + 2 ^ 34 ≤ 2 ^ 64) :
    nextEntry m p = p + (offsetToData m p + fsCPIOAlign4 (fileSize m p)) := by
  obtain ⟨-, hoffset, hsize, -, halign⟩ := entry_lengths m p
  rw [nextEntry, Nat.mod_eq_of_lt (by omega)]

theorem contentAddress_eq (hp : p + 2 ^ 34 ≤ 2 ^ 64) :
    (p + offsetToData m p) % 2 ^ 64 = p + offsetToData m p := by
  obtain ⟨-, hoffset, -⟩ := entry_lengths m p
  rw [Nat.mod_eq_of_lt (by omega)]

/-- Reads in a row lie inside the archive if the last one does. -/
theorem readsAt_inside {address count : Nat} (hbase : baseAddress ≤ address)
    (hle : address + count ≤ baseAddress + totalSize) :
    ∀ access ∈ readsAt address count, access.Inside baseAddress totalSize := by
  intro access haccess
  obtain ⟨x, hx, hx', rfl⟩ := mem_readsAt.mp haccess
  exact ⟨by omega, by omega⟩

theorem le_of_readsAt_inside {address count : Nat} (hcount : count ≠ 0)
    (h : ∀ access ∈ readsAt address count, access.Inside baseAddress totalSize) :
    address + count ≤ baseAddress + totalSize := by
  have hlast := h (.read (address + count - 1))
    (mem_readsAt.mpr ⟨address + count - 1, by omega, by omega, rfl⟩)
  have hlt := hlast.2
  omega

/-- The turn for an entry that gets a node. -/
theorem mountAccesses_passed {endPointer k fuel : Nat}
    (h : EntryPassed vmHeapAllocate m endPointer k p) :
    mountAccesses vmHeapAllocate m endPointer (fuel + 1) (k + 1) p =
      (printReads (m.advance (p + FSCPIOHeader.size)) fuel).bind fun printed =>
        (mountAccesses vmHeapAllocate m endPointer fuel (k + 2) (nextEntry m p)).map fun rest =>
          magicReads m p ++ entryReads m p ++ nodeReads m p printed ++ rest := by
  rw [mountAccesses, if_neg (not_not.mpr h.below), if_neg (not_not.mpr h.magic), if_neg h.notTrailer,
    if_neg h.allocated]

/-- The accesses from an entry on are among those of the whole run. -/
theorem mountAccesses_reached {endPointer k fuel : Nat} {accesses : List CPIOAccess}
    (h : mountAccesses vmHeapAllocate m endPointer fuel 1 baseAddress = some accesses)
    (hreached : EntryReached vmHeapAllocate m endPointer baseAddress k) :
    ∃ fuel' rest, mountAccesses vmHeapAllocate m endPointer fuel' (k + 1)
      (entryStart m baseAddress k) = some rest ∧ ∀ access ∈ rest, access ∈ accesses := by
  induction k with
  | zero => exact ⟨fuel, accesses, h, fun _ => id⟩
  | succ k ih =>
    obtain ⟨fuel', rest, hrest, hsub⟩ := ih fun j hj => hreached j (by omega)
    cases fuel' with
    | zero => simp [mountAccesses] at hrest
    | succ fuel' =>
      rw [mountAccesses_passed (hreached k (Nat.lt_succ_self k))] at hrest
      obtain ⟨printed, -, hmap⟩ := Option.bind_eq_some_iff.mp hrest
      obtain ⟨rest', hnext, rfl⟩ := Option.map_eq_some_iff.mp hmap
      exact ⟨fuel', rest', hnext, fun access haccess => hsub access (List.mem_append_right _ haccess)⟩

/-- An entry that is reached fits, if all accesses lie inside the archive. -/
theorem EntryFits.of_accesses {k fuel : Nat} {accesses : List CPIOAccess}
    (hbelow : p < baseAddress + totalSize) (hend : baseAddress + totalSize + 2 ^ 34 ≤ 2 ^ 64)
    (h : mountAccesses vmHeapAllocate m (baseAddress + totalSize) fuel (k + 1) p = some accesses)
    (hinside : ∀ access ∈ accesses, access.Inside baseAddress totalSize) :
    EntryFits vmHeapAllocate m (baseAddress + totalSize) k p := by
  cases fuel with
  | zero => simp [mountAccesses] at h
  | succ fuel =>
    -- what is read in each case of the turn
    have hreads : (∀ access ∈ magicReads m p, access ∈ accesses) ∧
        (stringCompareWithLimit (m.advance (p + FSCPIOHeader.magic)) newcMagic 6 = 0 →
          ∀ access ∈ entryReads m p, access ∈ accesses) := by
      unfold mountAccesses at h
      rw [if_neg (not_not.mpr hbelow)] at h
      split_ifs at h with hmagic htrailer hnode
      · obtain rfl := Option.some.inj h
        exact ⟨fun _ => id, fun hzero => absurd hzero hmagic⟩
      · obtain rfl := Option.some.inj h
        exact ⟨fun _ => List.mem_append_left _, fun _ _ => List.mem_append_right _⟩
      · obtain rfl := Option.some.inj h
        exact ⟨fun _ => List.mem_append_left _, fun _ _ => List.mem_append_right _⟩
      · obtain ⟨printed, -, hmap⟩ := Option.bind_eq_some_iff.mp h
        obtain ⟨rest, -, rfl⟩ := Option.map_eq_some_iff.mp hmap
        simp only [List.mem_append]
        exact ⟨fun _ ha => .inl (.inl (.inl ha)), fun _ _ ha => .inl (.inl (.inr ha))⟩
    have hnode : EntryPassed vmHeapAllocate m (baseAddress + totalSize) k p →
        ∃ n, EndsAt (m.advance (p + FSCPIOHeader.size)) n ∧
          ∀ access ∈ nodeReads m p (n + 1), access ∈ accesses := by
      intro hpassed
      rw [mountAccesses_passed hpassed] at h
      obtain ⟨printed, hprinted, hmap⟩ := Option.bind_eq_some_iff.mp h
      obtain ⟨rest, -, rfl⟩ := Option.map_eq_some_iff.mp hmap
      obtain ⟨n, rfl, hn⟩ := printReads_eq_some hprinted
      exact ⟨n, hn, fun access ha => List.mem_append_left _ (List.mem_append_right _ ha)⟩
    exact {
      magic := by
        by_cases hcount : stringCompareWithLimitReads
            (m.advance (p + FSCPIOHeader.magic)) newcMagic 6 = 0
        · rw [hcount, FSCPIOHeader.magic]
          omega
        · exact le_of_readsAt_inside hcount fun access ha => hinside access (hreads.1 access ha)
      header := by
        intro hmagic
        have hentry := fun access ha => hinside access (hreads.2 hmagic access ha)
        simp only [entryReads, List.mem_append] at hentry
        constructor
        · exact le_of_readsAt_inside (by decide) fun access ha => hentry access (.inl (.inl ha))
        · refine le_of_readsAt_inside ?_ fun access ha => hentry access (.inr ha)
          rw [trailerName, List.map_cons, stringCompareReads]
          split <;> omega
      name := by
        intro hpassed
        obtain ⟨n, hn, hsub⟩ := hnode hpassed
        refine ⟨n, hn, ?_⟩
        have hle : p + FSCPIOHeader.size + (n + 1) ≤ baseAddress + totalSize :=
          le_of_readsAt_inside (by omega) fun access ha =>
            hinside access (hsub access (List.mem_append_right _ ha))
        omega
      content := by
        intro hpassed
        obtain ⟨n, -, hsub⟩ := hnode hpassed
        have hcontent := hinside _ (hsub (.content ((p + offsetToData m p) % 2 ^ 64) (fileSize m p))
          (by simp [nodeReads]))
        have hle := hcontent.2
        rwa [contentAddress_eq (by omega)] at hle }

/-! ## Section 4: Mounting an archive whose entries fit -/

/-- The node describes the entry at `p`. -/
def DescribesEntry (m : Memory) (node : FSVNode) (p : Nat) : Prop :=
  node.unlinked = (cpioNode m p).unlinked

/-- The accesses of a turn for an entry that fits. -/
theorem EntryFits.inside {k : Nat} (h : EntryFits vmHeapAllocate m (baseAddress + totalSize) k p)
    (hbase : baseAddress ≤ p) (hend : baseAddress + totalSize + 2 ^ 34 ≤ 2 ^ 64) :
    (∀ access ∈ magicReads m p, access.Inside baseAddress totalSize) ∧
    (stringCompareWithLimit (m.advance (p + FSCPIOHeader.magic)) newcMagic 6 = 0 →
      ∀ access ∈ entryReads m p, access.Inside baseAddress totalSize) ∧
    (EntryPassed vmHeapAllocate m (baseAddress + totalSize) k p →
      ∃ n, EndsAt (m.advance (p + FSCPIOHeader.size)) n ∧ p + FSCPIOHeader.size + n < baseAddress + totalSize ∧
        ∀ access ∈ nodeReads m p (n + 1), access.Inside baseAddress totalSize) := by
  refine ⟨readsAt_inside (by omega) h.magic, ?_, ?_⟩
  · intro hmagic access haccess
    obtain ⟨hheader, htrailer⟩ := h.header hmagic
    simp only [FSCPIOHeader.nameLength] at hheader
    simp only [entryReads, List.mem_append] at haccess
    rcases haccess with (ha | ha) | ha
    · exact readsAt_inside (by omega) (by simp only [FSCPIOHeader.nameLength]; omega) access ha
    · exact readsAt_inside (by omega) (by simp only [FSCPIOHeader.fileLength]; omega) access ha
    · exact readsAt_inside (by omega) htrailer access ha
  · intro hpassed
    obtain ⟨n, hn, hname⟩ := h.name hpassed
    have hcontent := h.content hpassed
    obtain ⟨hheader, -⟩ := h.header hpassed.magic
    have hcopied := stringCopyWithLimitReads_le hn.1 (sizeofName - 1)
    simp only [FSCPIOHeader.nameLength] at hheader
    refine ⟨n, hn, hname, fun access haccess => ?_⟩
    simp only [nodeReads, List.mem_append, List.mem_cons] at haccess
    rcases haccess with ((ha | ha) | rfl | ha) | ha
    · exact readsAt_inside (by omega) (by omega) access ha
    · exact readsAt_inside (by omega) (by simp only [FSCPIOHeader.inode]; omega) access ha
    · rw [contentAddress_eq (by omega)]
      exact ⟨by omega, hcontent⟩
    · exact readsAt_inside (by omega) (by simp only [FSCPIOHeader.mode]; omega) access ha
    · exact readsAt_inside (by omega) (by omega) access ha

theorem entryStart_succ {k : Nat} (h : entryStart m baseAddress k + 2 ^ 34 ≤ 2 ^ 64) :
    entryStart m baseAddress (k + 1) = entryStart m baseAddress k +
      (offsetToData m (entryStart m baseAddress k) +
        fsCPIOAlign4 (fileSize m (entryStart m baseAddress k))) := by
  rw [entryStart, nextEntry_eq h]

theorem baseAddress_le_entryStart (hend : baseAddress + totalSize + 2 ^ 34 ≤ 2 ^ 64) {k : Nat}
    (h : EntryReached vmHeapAllocate m (baseAddress + totalSize) baseAddress k) :
    baseAddress ≤ entryStart m baseAddress k := by
  induction k with
  | zero => exact Nat.le_refl _
  | succ k ih =>
    have hbelow := (h k (Nat.lt_succ_self k)).below
    have hle := ih fun j hj => h j (by omega)
    rw [entryStart_succ (by omega)]
    omega

theorem EntryReached.succ {endPointer k : Nat} (h : EntryReached vmHeapAllocate m endPointer baseAddress k)
    (hpassed : EntryPassed vmHeapAllocate m endPointer k (entryStart m baseAddress k)) :
    EntryReached vmHeapAllocate m endPointer baseAddress (k + 1) := by
  intro j hj
  rcases Nat.lt_succ_iff_lt_or_eq.mp hj with hlt | rfl
  · exact h j hlt
  · exact hpassed

/-- The root and the nodes of the entries that were passed are different blocks. -/
theorem EntryReached.allocationsSucceed {endPointer k : Nat}
    (h : EntryReached vmHeapAllocate m endPointer baseAddress k) (hroot : vmHeapAllocate 0 ≠ 0)
    (hdistinct : ∀ i j, j < i → vmHeapAllocate i ≠ 0 → vmHeapAllocate j ≠ vmHeapAllocate i) :
    AllocationsSucceed vmHeapAllocate (k + 1) := by
  have hne : ∀ i < k + 1, vmHeapAllocate i ≠ 0 := by
    intro i hi
    cases i with
    | zero => exact hroot
    | succ i => exact (h i (by omega)).allocated
  exact ⟨hne, fun i hi j hj => hdistinct i j hj (hne i hi)⟩

/-- The nodes of the volume are those of the first `k` entries. -/
def EntriesLinked (vmHeapAllocate : Nat → Nat) (m : Memory) (baseAddress : Nat) (volume : FSVolume)
    (k tailNode : Nat) : Prop :=
  NodesLinked vmHeapAllocate (DescribesEntry m) volume
    ((List.range k).map (entryStart m baseAddress)) tailNode

/-- From its `k`-th turn on the loop ends, with a panic or the nodes of entries that
it came to, and stays inside the archive. -/
def LoopInside (vmHeapAllocate : Nat → Nat) (m : Memory) (baseAddress totalSize fuel k : Nat)
    (volume : FSVolume) (tailNode : Nat) : Prop :=
  ∃ accesses result,
    mountAccesses vmHeapAllocate m (baseAddress + totalSize) fuel (k + 1)
      (entryStart m baseAddress k) = some accesses ∧
    fsCPIOMountLoop vmHeapAllocate m (baseAddress + totalSize) (vmHeapAllocate 0) fuel volume
      (entryStart m baseAddress k) tailNode = some result ∧
    (∀ access ∈ accesses, access.Inside baseAddress totalSize) ∧
    ∀ final, result = .ok final → ∃ last tail,
      EntryReached vmHeapAllocate m (baseAddress + totalSize) baseAddress last ∧
      EntriesLinked vmHeapAllocate m baseAddress final last tail

section Turn

variable {k fuel tailNode : Nat} {volume : FSVolume}
  (hend : baseAddress + totalSize + 2 ^ 34 ≤ 2 ^ 64)
  (hreached : EntryReached vmHeapAllocate m (baseAddress + totalSize) baseAddress k)
  (hlinked : EntriesLinked vmHeapAllocate m baseAddress volume k tailNode)
include hend hreached hlinked

/-- The last turn: the archive ends, the magic number is wrong, the trailer has
come or the heap has no room for a node. -/
theorem loopInside_of_not_passed
    (hfit : entryStart m baseAddress k < baseAddress + totalSize →
      EntryFits vmHeapAllocate m (baseAddress + totalSize) k (entryStart m baseAddress k))
    (hlast : ¬ EntryPassed vmHeapAllocate m (baseAddress + totalSize) k
      (entryStart m baseAddress k)) :
    LoopInside vmHeapAllocate m baseAddress totalSize (fuel + 1) k volume tailNode := by
  have hbase := baseAddress_le_entryStart hend hreached
  have hstop : ∀ final, (Except.ok volume : Except CPIOPanic FSVolume) = .ok final →
      ∃ last tail, EntryReached vmHeapAllocate m (baseAddress + totalSize) baseAddress last ∧
        EntriesLinked vmHeapAllocate m baseAddress final last tail := by
    intro final hfinal
    obtain rfl := Except.ok.inj hfinal
    exact ⟨k, tailNode, hreached, hlinked⟩
  unfold LoopInside
  generalize entryStart m baseAddress k = p at *
  by_cases hbelow : p < baseAddress + totalSize
  case neg =>
    refine ⟨[], .ok volume, ?_, ?_, by simp, hstop⟩
    · rw [mountAccesses, if_pos hbelow]
    · rw [fsCPIOMountLoop, if_pos hbelow]
  obtain ⟨hmagicReads, hentryReads, -⟩ := (hfit hbelow).inside hbase hend
  by_cases hmagic : stringCompareWithLimit (m.advance (p + FSCPIOHeader.magic)) newcMagic 6 = 0
  case neg =>
    refine ⟨magicReads m p, .error .invalidMagic, ?_, ?_, hmagicReads, by simp⟩
    · rw [mountAccesses, if_neg (not_not.mpr hbelow), if_pos hmagic]
    · rw [fsCPIOMountLoop, if_neg (not_not.mpr hbelow), if_pos hmagic]
  -- past the magic number the header and the name are read, and nothing else
  have hboth : ∀ access ∈ magicReads m p ++ entryReads m p, access.Inside baseAddress totalSize := by
    intro access haccess
    rcases List.mem_append.mp haccess with ha | ha
    · exact hmagicReads access ha
    · exact hentryReads hmagic access ha
  by_cases htrailer : stringCompare (m.advance (p + FSCPIOHeader.size)) trailerName = 0
  · refine ⟨_, .ok volume, ?_, ?_, hboth, hstop⟩
    · rw [mountAccesses, if_neg (not_not.mpr hbelow), if_neg (not_not.mpr hmagic), if_pos htrailer]
    · rw [fsCPIOMountLoop, if_neg (not_not.mpr hbelow), if_neg (not_not.mpr hmagic), if_pos htrailer]
  have hnode : vmHeapAllocate (k + 1) = 0 := by
    by_contra hnode
    exact hlast ⟨hbelow, hmagic, htrailer, hnode⟩
  have hnone : volume.allocateNode vmHeapAllocate = none := by
    rw [FSVolume.allocateNode, hlinked.allocated, List.length_map, List.length_range, hnode, if_pos rfl]
  refine ⟨_, .error .newNode, ?_, ?_, hboth, by simp⟩
  · rw [mountAccesses, if_neg (not_not.mpr hbelow), if_neg (not_not.mpr hmagic), if_neg htrailer,
      if_pos hnode]
  · rw [fsCPIOMountLoop, if_neg (not_not.mpr hbelow), if_neg (not_not.mpr hmagic), if_neg htrailer,
      hnone]

/-- A turn that links a node, and all that comes after it. -/
theorem loopInside_of_passed (hroot : vmHeapAllocate 0 ≠ 0)
    (hdistinct : ∀ i j, j < i → vmHeapAllocate i ≠ 0 → vmHeapAllocate j ≠ vmHeapAllocate i)
    (hfit : EntryFits vmHeapAllocate m (baseAddress + totalSize) k (entryStart m baseAddress k))
    (hpassed : EntryPassed vmHeapAllocate m (baseAddress + totalSize) k (entryStart m baseAddress k))
    (hfuel : baseAddress + totalSize ≤ fuel + entryStart m baseAddress k)
    (hrest : ∀ {volume' : FSVolume} {tailNode' : Nat},
      EntriesLinked vmHeapAllocate m baseAddress volume' (k + 1) tailNode' →
      LoopInside vmHeapAllocate m baseAddress totalSize fuel (k + 1) volume' tailNode') :
    LoopInside vmHeapAllocate m baseAddress totalSize (fuel + 1) k volume tailNode := by
  obtain ⟨hmagicReads, hentryReads, hnodeReads⟩ :=
    hfit.inside (baseAddress_le_entryStart hend hreached) hend
  obtain ⟨n, hn, hname, hnodeInside⟩ := hnodeReads hpassed
  -- all nodes so far are different blocks, so linking one leaves the others alone
  have hallocate := (hreached.succ hpassed).allocationsSucceed hroot hdistinct
  obtain ⟨newNode, allocated, hnew, hturn⟩ := NodesLinked.turn (R := DescribesEntry m)
    (fun node node' x hx heq => heq.trans hx) hlinked hallocate (by simp) (m := m)
    (p := entryStart m baseAddress k) rfl
  have hitems : (List.range k).map (entryStart m baseAddress) ++ [entryStart m baseAddress k] =
      (List.range (k + 1)).map (entryStart m baseAddress) := by
    rw [List.range_succ, List.map_append, List.map_singleton]
  rw [hitems] at hturn
  obtain ⟨rest, result, haccesses, hloop, hinside, hresult⟩ := hrest hturn
  have hnext : nextEntry m (entryStart m baseAddress k) = entryStart m baseAddress (k + 1) := by
    rw [entryStart]
  simp only [FSCPIOHeader.size] at hname
  refine ⟨magicReads m (entryStart m baseAddress k) ++ entryReads m (entryStart m baseAddress k) ++
    nodeReads m (entryStart m baseAddress k) (n + 1) ++ rest, result, ?_, ?_, ?_, hresult⟩
  · rw [mountAccesses_passed hpassed, printReads_of_endsAt hn (by omega), Option.bind_some, hnext,
      haccesses, Option.map_some]
  · rw [fsCPIOMountLoop, if_neg (not_not.mpr hpassed.below), if_neg (not_not.mpr hpassed.magic),
      if_neg hpassed.notTrailer, hnew]
    simp only
    rw [← nextEntry, hnext]
    exact hloop
  · intro access haccess
    simp only [List.mem_append] at haccess
    rcases haccess with ((ha | ha) | ha) | ha
    · exact hmagicReads access ha
    · exact hentryReads hpassed.magic access ha
    · exact hnodeInside access ha
    · exact hinside access ha

end Turn

/-- The loop from its `k`-th turn on, when every entry that it comes to fits. The
measure is the part of the archive that is left; each entry is at least as long
as a header. -/
theorem mount_of_fits (hend : baseAddress + totalSize + 2 ^ 34 ≤ 2 ^ 64)
    (hroot : vmHeapAllocate 0 ≠ 0)
    (hdistinct : ∀ i j, j < i → vmHeapAllocate i ≠ 0 → vmHeapAllocate j ≠ vmHeapAllocate i)
    (hfits : ∀ k, EntryReached vmHeapAllocate m (baseAddress + totalSize) baseAddress k →
      entryStart m baseAddress k < baseAddress + totalSize →
      EntryFits vmHeapAllocate m (baseAddress + totalSize) k (entryStart m baseAddress k))
    (fuel : Nat) :
    ∀ {k : Nat} {volume : FSVolume} {tailNode : Nat},
      EntryReached vmHeapAllocate m (baseAddress + totalSize) baseAddress k →
      entryStart m baseAddress k ≤ baseAddress + totalSize + 3 →
      baseAddress + totalSize + 4 < fuel + entryStart m baseAddress k →
      EntriesLinked vmHeapAllocate m baseAddress volume k tailNode →
      LoopInside vmHeapAllocate m baseAddress totalSize fuel k volume tailNode := by
  induction fuel with
  | zero =>
    intro k volume tailNode _ hle hfuel
    omega
  | succ fuel ih =>
    intro k volume tailNode hreached hle hfuel hlinked
    by_cases hpassed : EntryPassed vmHeapAllocate m (baseAddress + totalSize) k
        (entryStart m baseAddress k)
    case neg => exact loopInside_of_not_passed hend hreached hlinked (hfits k hreached) hpassed
    have hbelow := hpassed.below
    have hfit := hfits k hreached hbelow
    have hcontent := hfit.content hpassed
    obtain ⟨hoffset, -, -, halign, halign'⟩ := entry_lengths m (entryStart m baseAddress k)
    -- the next entry begins at least a header further on
    have hnext : entryStart m baseAddress (k + 1) = entryStart m baseAddress k +
        (offsetToData m (entryStart m baseAddress k) +
          fsCPIOAlign4 (fileSize m (entryStart m baseAddress k))) := entryStart_succ (by omega)
    exact loopInside_of_passed hend hreached hlinked hroot hdistinct hfit hpassed (by omega)
      (ih (hreached.succ hpassed) (by omega) (by omega))

/-- The volume with nothing but a root. -/
def rootVolume (rootNode : Nat) : FSVolume :=
  FSVolume.setNode { (⟨fun _ => .zero, 0⟩ : FSVolume).setNode rootNode .zero with allocated := 1 }
    rootNode { FSVNode.zero with
      name := stringCopy FSVNode.zero.name 0 ['/'.toUInt8]
      flags := kFSVNodeFlagDirectory
      operations := some gFSCPIOOperations }

/-- With a root, mounting is its loop. -/
theorem fsCPIOMount_eq (m : Memory) (hroot : vmHeapAllocate 0 ≠ 0)
    (hstop : (baseAddress + totalSize) % 2 ^ 64 = baseAddress + totalSize) (fuel : Nat) :
    fsCPIOMount vmHeapAllocate m baseAddress totalSize fuel =
      (fsCPIOMountLoop vmHeapAllocate m (baseAddress + totalSize) (vmHeapAllocate 0) fuel
        (rootVolume (vmHeapAllocate 0)) baseAddress 0).map fun result =>
          result.map fun volume => (vmHeapAllocate 0, volume) := by
  rw [fsCPIOMount, FSVolume.allocateNode, if_neg hroot, hstop]
  rfl

/-- The data of the nodes lies inside: each is the node of an entry that was passed. -/
theorem EntriesLinked.inside (hend : baseAddress + totalSize + 2 ^ 34 ≤ 2 ^ 64)
    (hfits : ∀ k, EntryReached vmHeapAllocate m (baseAddress + totalSize) baseAddress k →
      entryStart m baseAddress k < baseAddress + totalSize →
      EntryFits vmHeapAllocate m (baseAddress + totalSize) k (entryStart m baseAddress k))
    {last tailNode : Nat} {volume : FSVolume}
    (hreached : EntryReached vmHeapAllocate m (baseAddress + totalSize) baseAddress last)
    (hlinked : EntriesLinked vmHeapAllocate m baseAddress volume last tailNode) {node : Nat}
    (hmem : node ∈ allocatedNodes vmHeapAllocate
      ((List.range last).map (entryStart m baseAddress)).length) :
    CPIOAccess.Inside baseAddress totalSize
      (.content (volume.node node).implementationData (volume.node node).dataLength) := by
  obtain ⟨i, hi, rfl⟩ := List.mem_iff_getElem.mp hmem
  have hi' : i < last := by simpa [allocatedNodes] using hi
  have hnode := hlinked.related.get hi (by simpa using hi')
  simp only [List.get_eq_getElem, List.getElem_map, List.getElem_range] at hnode
  have hreached' : EntryReached vmHeapAllocate m (baseAddress + totalSize) baseAddress i :=
    fun j hj => hreached j (by omega)
  have hpassed := hreached i hi'
  have hbelow := hpassed.below
  have hcontent := (hfits i hreached' hbelow).content hpassed
  simp only [DescribesEntry, FSVNode.unlinked, FSVNode.mk.injEq, and_true] at hnode
  obtain ⟨-, -, -, hlen, -, hdata⟩ := hnode
  have haddress : (cpioNode m (entryStart m baseAddress i)).implementationData =
      entryStart m baseAddress i + offsetToData m (entryStart m baseAddress i) :=
    contentAddress_eq (by omega)
  rw [hlen, hdata, haddress]
  exact ⟨(baseAddress_le_entryStart hend hreached').trans (Nat.le_add_right _ _), hcontent⟩

end Archive

/-- Mounting ends, with a panic or a root, and has read and recorded nothing
outside the archive, exactly when every entry that the loop comes to fits. An
archive lies in the direct map, far from the top of the address space. -/
theorem fsCPIOMount_inside_iff (vmHeapAllocate : Nat → Nat)
    (hdistinct : ∀ i j, j < i → vmHeapAllocate i ≠ 0 → vmHeapAllocate j ≠ vmHeapAllocate i)
    (m : Memory) (baseAddress totalSize : Nat) (hend : baseAddress + totalSize + 2 ^ 34 ≤ 2 ^ 64) :
    MountInside vmHeapAllocate m baseAddress totalSize ↔
      vmHeapAllocate 0 = 0 ∨
      ∀ k, EntryReached vmHeapAllocate m (baseAddress + totalSize) baseAddress k →
        entryStart m baseAddress k < baseAddress + totalSize →
        EntryFits vmHeapAllocate m (baseAddress + totalSize) k (entryStart m baseAddress k) := by
  have hstop : (baseAddress + totalSize) % 2 ^ 64 = baseAddress + totalSize :=
    Nat.mod_eq_of_lt (by omega)
  by_cases hroot : vmHeapAllocate 0 = 0
  · refine ⟨fun _ => .inl hroot, fun _ => ⟨0, [], .error .rootNode, ?_, ?_, by simp, by simp⟩⟩
    · rw [fsCPIOMountAccesses, if_pos hroot]
    · rw [fsCPIOMount, FSVolume.allocateNode, if_pos hroot]
  constructor
  -- a run whose accesses are all inside visits each entry that is reached
  · rintro ⟨fuel, accesses, result, haccesses, -, hinside, -⟩
    refine .inr fun k hreached hbelow => ?_
    rw [fsCPIOMountAccesses, if_neg hroot, hstop] at haccesses
    obtain ⟨fuel', rest, hrest, hsub⟩ := mountAccesses_reached haccesses hreached
    exact EntryFits.of_accesses hbelow hend hrest fun access ha => hinside access (hsub access ha)
  · rintro (hzero | hfits)
    · exact absurd hzero hroot
    -- here every entry fits, and the loop ends after as many turns as there are bytes
    have hstart := fsCPIOMount_eq m hroot hstop
    have hlinked : EntriesLinked vmHeapAllocate m baseAddress (rootVolume (vmHeapAllocate 0)) 0 0 := by
      refine ⟨rfl, ?_, .nil, rfl⟩
      rw [rootVolume, FSVolume.setNode_same]
      rfl
    obtain ⟨accesses, result, haccesses, hloop, hinside, hresult⟩ :=
      mount_of_fits hend hroot hdistinct hfits (totalSize + 5) (k := 0) (fun j hj => absurd hj (by simp))
        (by rw [entryStart]; omega) (by rw [entryStart]; omega) hlinked
    rw [entryStart] at haccesses hloop
    refine ⟨totalSize + 5, accesses, _, ?_, by rw [hstart, hloop, Option.map_some], hinside, ?_⟩
    · rw [fsCPIOMountAccesses, if_neg hroot, hstop]
      exact haccesses
    · intro root volume heq
      cases result with
      | error panic => simp [Except.map] at heq
      | ok final =>
        obtain ⟨rfl, rfl⟩ : vmHeapAllocate 0 = root ∧ final = volume := by simpa [Except.map] using heq
        obtain ⟨last, tail, hreached, hnodes⟩ := hresult final rfl
        exact ⟨_, hnodes.links, fun node hmem => hnodes.inside hend hfits hreached hmem⟩

/-- The small archive, a directory, a file and the trailer: all its entries fit. -/
theorem fsCPIOMount_inside_small :
    MountInside (fun n => 512 * (n + 1)) smallArchiveMemory 4096 364 := by
  apply (fsCPIOMount_inside_iff (fun n => 512 * (n + 1)) (fun i j hj _ => by
    show 512 * (j + 1) ≠ 512 * (i + 1)
    omega) smallArchiveMemory 4096 364 (by decide)).mpr
  right
  have hsecond : entryStart smallArchiveMemory 4096 1 = 4212 := by decide +kernel
  have hthird : entryStart smallArchiveMemory 4096 2 = 4336 := by decide +kernel
  have htrailer : ¬ EntryPassed (fun n => 512 * (n + 1)) smallArchiveMemory (4096 + 364) 2 4336 :=
    fun hpassed => absurd (show _ = (0 : Int) by decide +kernel) hpassed.notTrailer
  intro k hreached hbelow
  match k with
  | 0 => exact {
      magic := by decide +kernel
      header := fun _ => by decide +kernel
      name := fun _ => ⟨3, ⟨by decide +kernel, by decide +kernel⟩, by decide⟩
      content := fun _ => by decide +kernel }
  | 1 =>
    rw [hsecond]
    exact {
      magic := by decide +kernel
      header := fun _ => by decide +kernel
      name := fun _ => ⟨2, ⟨by decide +kernel, by decide +kernel⟩, by decide⟩
      content := fun _ => by decide +kernel }
  | 2 =>
    rw [hthird]
    exact {
      magic := by decide +kernel
      header := fun _ => by decide +kernel
      name := fun hpassed => absurd hpassed htrailer
      content := fun hpassed => absurd hpassed htrailer }
  | k + 3 =>
    -- the loop stops at the trailer
    have hpassed := hreached 2 (by omega)
    rw [hthird] at hpassed
    exact absurd hpassed htrailer

/-- Six bytes with the right magic number: the lengths are read behind them. -/
theorem fsCPIOMount_inside_cut :
    ¬ MountInside (fun n => 512 * (n + 1)) smallArchiveMemory 4096 6 := by
  rintro ⟨fuel, accesses, result, haccesses, -, hinside, -⟩
  rw [fsCPIOMountAccesses, if_neg (by decide)] at haccesses
  have hfits : EntryFits _ smallArchiveMemory (4096 + 6) 0 4096 :=
    EntryFits.of_accesses (by decide) (by decide) haccesses hinside
  obtain ⟨hheader, -⟩ := hfits.header (by decide +kernel)
  exact absurd hheader (by decide)

end TermOS.FS
