import Mathlib.Data.Nat.Bitwise
import TermOS.Lib.Packed

/-!
# Descriptor tables

Model of `kernel/src/arch/x86_64/GDT.c` and `kernel/src/arch/x86_64/IDT.c`: the tables as they lie in
memory, byte by byte, and what a 64-bit processor makes of them when it loads a segment, takes an
interrupt or executes `int n`. Whether an address is canonical is left to the processor's own checks.

## Main Definitions

* `TableImage` - the tables that the two initialisations build
* `fetchSegment`, `ltr`, `deliver` - what the processor reads in them
-/

namespace TermOS.Arch

open TermOS.Lib

/-! ## Section 1: The code -/

/-- `HALGlobalDescriptorTable`, one entry. -/
structure HALGlobalDescriptorTable where
  limitLow : UInt16
  baseLow : UInt16
  baseMiddle : UInt8
  access : UInt8
  granularity : UInt8
  baseHigh : UInt8

namespace HALGlobalDescriptorTable

/-- `sHALGlobalDescriptorTableSetGate` -/
def setGate (base limit : UInt64) (access granularity : UInt8) : HALGlobalDescriptorTable where
  baseLow := (base &&& 0xFFFF).toUInt16
  baseMiddle := ((base >>> 16) &&& 0xFF).toUInt8
  baseHigh := ((base >>> 24) &&& 0xFF).toUInt8
  limitLow := (limit &&& 0xFFFF).toUInt16
  granularity := ((limit >>> 16) &&& 0x0F).toUInt8 ||| (granularity &&& 0xF0)
  access := access

/-- An entry that is written as a `UInt64`. -/
def ofWord (word : UInt64) : HALGlobalDescriptorTable where
  limitLow := word.toUInt16
  baseLow := (word >>> 16).toUInt16
  baseMiddle := (word >>> 32).toUInt8
  access := (word >>> 40).toUInt8
  granularity := (word >>> 48).toUInt8
  baseHigh := (word >>> 56).toUInt8

def fields (e : HALGlobalDescriptorTable) : List PackedField :=
  [(2, e.limitLow.toNat), (2, e.baseLow.toNat), (1, e.baseMiddle.toNat), (1, e.access.toNat),
    (1, e.granularity.toNat), (1, e.baseHigh.toNat)]

end HALGlobalDescriptorTable

/-- `HALTaskStateSegment` -/
structure HALTaskStateSegment where
  reserved0 : UInt32
  rsp0 : UInt64
  rsp1 : UInt64
  rsp2 : UInt64
  reserved1 : UInt64
  ist1 : UInt64
  ist2 : UInt64
  ist3 : UInt64
  ist4 : UInt64
  ist5 : UInt64
  ist6 : UInt64
  ist7 : UInt64
  reserved2 : UInt64
  reserved3 : UInt16
  iomapBase : UInt16

namespace HALTaskStateSegment

def zero : HALTaskStateSegment := ⟨0, 0, 0, 0, 0, 0, 0, 0, 0, 0, 0, 0, 0, 0, 0⟩

def fields (t : HALTaskStateSegment) : List PackedField :=
  [(4, t.reserved0.toNat), (8, t.rsp0.toNat), (8, t.rsp1.toNat), (8, t.rsp2.toNat),
    (8, t.reserved1.toNat), (8, t.ist1.toNat), (8, t.ist2.toNat), (8, t.ist3.toNat),
    (8, t.ist4.toNat), (8, t.ist5.toNat), (8, t.ist6.toNat), (8, t.ist7.toNat),
    (8, t.reserved2.toNat), (2, t.reserved3.toNat), (2, t.iomapBase.toNat)]

end HALTaskStateSegment

/-- `sizeof(HALTaskStateSegment)` -/
def sizeofTaskStateSegment : UInt64 := 104

/-- `HALInterruptsDescriptorTableEntry` -/
structure HALInterruptsDescriptorTableEntry where
  offsetLow : UInt16
  selector : UInt16
  ist : UInt8
  attributes : UInt8
  offsetMid : UInt16
  offsetHigh : UInt32
  reserved : UInt32

namespace HALInterruptsDescriptorTableEntry

/-- An entry that was never set. -/
def zero : HALInterruptsDescriptorTableEntry := ⟨0, 0, 0, 0, 0, 0, 0⟩

/-- `sHALInterruptsDescriptorTableSetGate` -/
def setGate (handler : UInt64) (selector : UInt16) (flags : UInt8) :
    HALInterruptsDescriptorTableEntry where
  offsetLow := (handler &&& 0xFFFF).toUInt16
  offsetMid := ((handler >>> 16) &&& 0xFFFF).toUInt16
  offsetHigh := ((handler >>> 32) &&& 0xFFFFFFFF).toUInt32
  selector := selector
  ist := 0
  attributes := flags
  reserved := 0

def fields (e : HALInterruptsDescriptorTableEntry) : List PackedField :=
  [(2, e.offsetLow.toNat), (2, e.selector.toNat), (1, e.ist.toNat), (1, e.attributes.toNat),
    (2, e.offsetMid.toNat), (4, e.offsetHigh.toNat), (4, e.reserved.toNat)]

end HALInterruptsDescriptorTableEntry

/-- Where the linker has put the tables, the stack of the double fault, and the stubs. -/
structure TableImage where
  gHALGlobalDescriptorTable : UInt64
  gHALTaskStateSegment : UInt64
  gHALDoubleFaultStack : UInt64
  gHALInterruptsDescriptorTable : UInt64
  isr : Fin 32 → UInt64
  irq0 : UInt64
  irq1 : UInt64

namespace TableImage

variable (image : TableImage)

/-- The table after `HALGlobalDescriptorTableInitialize`. -/
def gdt : List HALGlobalDescriptorTable :=
  [.setGate 0 0 0 0, .setGate 0 0 0x9A 0x20, .setGate 0 0 0x92 0, .setGate 0 0 0xF2 0,
    .setGate 0 0 0xFA 0x20,
    -- `sHALTaskStateSegmentWrite`
    .setGate image.gHALTaskStateSegment sizeofTaskStateSegment 0x89 0,
    .ofWord (image.gHALTaskStateSegment >>> 32)]

/-- The end of the stack of the double fault. -/
def doubleFaultStackTop : UInt64 := image.gHALDoubleFaultStack + 4096

/-- The task state segment, once the scheduler has stored `rsp0`. -/
def tss (rsp0 : UInt64) : HALTaskStateSegment :=
  { HALTaskStateSegment.zero with
    iomapBase := sizeofTaskStateSegment.toUInt16
    ist1 := image.doubleFaultStackTop
    rsp0 := rsp0 }

/-- The stub that a vector was given. -/
def handler (vector : Nat) : Option UInt64 :=
  if h : vector < 32 then some (image.isr ⟨vector, h⟩)
  else if vector = 32 then some image.irq0
  else if vector = 33 then some image.irq1
  else none

/-- The vectors whose entry gets another stack. -/
def ist (vector : Nat) : UInt8 := if vector = 8 ∨ vector = 13 ∨ vector = 14 then 1 else 0

/-- An entry after `HALInterruptsDescriptorTableInitialize`. -/
def idtEntry (vector : Nat) : HALInterruptsDescriptorTableEntry :=
  match image.handler vector with
  | some handler => { HALInterruptsDescriptorTableEntry.setGate handler 0x08 0x8E with ist := ist vector }
  | none => .zero

def idt : List HALInterruptsDescriptorTableEntry := (List.range 256).map image.idtEntry

end TableImage

/-! ## Section 2: The processor -/

/-- A descriptor table register. -/
structure TableRegister where
  base : Nat
  limit : Nat

/-- A segment descriptor. -/
structure Segment where
  base : Nat
  limit : Nat
  type : Nat
  /-- It is no system descriptor. -/
  codeOrData : Bool
  dpl : Nat
  present : Bool
  /-- It holds 64-bit code. -/
  long : Bool
  /-- The D bit, which 64-bit code leaves clear. -/
  size : Bool
  deriving DecidableEq

namespace Segment

def decode (word : Nat) : Segment where
  base := word / 2 ^ 16 % 2 ^ 24 + word / 2 ^ 56 % 2 ^ 8 * 2 ^ 24
  limit := word % 2 ^ 16 + word / 2 ^ 48 % 2 ^ 4 * 2 ^ 16
  type := word / 2 ^ 40 % 2 ^ 4
  codeOrData := decide (word / 2 ^ 44 % 2 = 1)
  dpl := word / 2 ^ 45 % 4
  present := decide (word / 2 ^ 47 % 2 = 1)
  long := decide (word / 2 ^ 53 % 2 = 1)
  size := decide (word / 2 ^ 54 % 2 = 1)

variable (s : Segment)

/-- Code that can run in 64-bit mode. -/
def IsCode : Prop := s.codeOrData ∧ s.type / 8 % 2 = 1 ∧ s.long ∧ s.size = false ∧ s.present

/-- Data that can be written. -/
def IsWritable : Prop := s.codeOrData ∧ s.type / 8 % 2 = 0 ∧ s.type / 2 % 2 = 1 ∧ s.present

/-- Code that runs in the ring that it was entered from. -/
def Conforming : Prop := s.type / 4 % 2 = 1

instance : Decidable s.IsCode := inferInstanceAs (Decidable (_ ∧ _))
instance : Decidable s.IsWritable := inferInstanceAs (Decidable (_ ∧ _))
instance : Decidable s.Conforming := inferInstanceAs (Decidable (_ = _))

end Segment

/-- The descriptor that a selector refers to; there is no local table. -/
def fetchSegment (m : Memory) (gdtr : TableRegister) (selector : Nat) : Option Segment :=
  if selector / 4 % 2 = 0 ∧ selector / 8 ≠ 0 ∧ selector / 8 * 8 + 7 ≤ gdtr.limit then
    some (.decode (m.readLE (gdtr.base + 8 * (selector / 8)) 8))
  else none

/-- `ltr`: the base and the limit of the task state segment. -/
def ltr (m : Memory) (gdtr : TableRegister) (selector : Nat) : Option TableRegister :=
  (fetchSegment m gdtr selector).bind fun s =>
    if s.codeOrData = false ∧ s.type = 9 ∧ s.present ∧ selector / 8 * 8 + 15 ≤ gdtr.limit then
      some ⟨s.base + m.readLE (gdtr.base + 8 * (selector / 8) + 8) 4 * 2 ^ 32, s.limit⟩
    else none

/-- A gate of the interrupt table. -/
structure Gate where
  offset : Nat
  selector : Nat
  ist : Nat
  type : Nat
  /-- Bit 4 of the attributes, which no gate has. -/
  noGate : Bool
  dpl : Nat
  present : Bool

def Gate.decode (low high : Nat) : Gate where
  offset := low % 2 ^ 16 + low / 2 ^ 48 % 2 ^ 16 * 2 ^ 16 + high % 2 ^ 32 * 2 ^ 32
  selector := low / 2 ^ 16 % 2 ^ 16
  ist := low / 2 ^ 32 % 8
  type := low / 2 ^ 40 % 2 ^ 4
  noGate := decide (low / 2 ^ 44 % 2 = 1)
  dpl := low / 2 ^ 45 % 4
  present := decide (low / 2 ^ 47 % 2 = 1)

/-- What the processor has loaded. -/
structure TableRegisters where
  gdtr : TableRegister
  idtr : TableRegister
  task : TableRegister

/-- How a vector comes up: `int n` and `int3` are instructions. -/
inductive Cause
  | hardware
  | instruction
  deriving DecidableEq

/-- Where the processor goes on. -/
structure HandlerEntry where
  rip : Nat
  cs : Nat
  ring : Nat
  rsp : Nat
  /-- IF is cleared. -/
  masked : Bool
  deriving DecidableEq

/-- The stack for a gate: one of the table's, the inner ring's, or the one there is. -/
def entryStack (m : Memory) (task : TableRegister) (ist ring newRing rsp : Nat) : Option Nat :=
  if ist ≠ 0 then
    if 28 + 8 * ist + 7 ≤ task.limit then some (m.readLE (task.base + (28 + 8 * ist)) 8) else none
  else if newRing < ring then
    if 4 + 8 * newRing + 7 ≤ task.limit then some (m.readLE (task.base + (4 + 8 * newRing)) 8)
    else none
  else some rsp

/-- The processor takes an interrupt or an exception; `none` is another exception instead. -/
def deliver (m : Memory) (p : TableRegisters) (cause : Cause) (vector ring rsp : Nat) :
    Option HandlerEntry :=
  if 16 * vector + 15 ≤ p.idtr.limit then
    let gate := Gate.decode (m.readLE (p.idtr.base + 16 * vector) 8)
      (m.readLE (p.idtr.base + 16 * vector + 8) 8)
    if gate.noGate = false ∧ (gate.type = 14 ∨ gate.type = 15) ∧
        (cause = .instruction → ring ≤ gate.dpl) ∧ gate.present then
      (fetchSegment m p.gdtr gate.selector).bind fun s =>
        if s.IsCode ∧ s.dpl ≤ ring then
          let newRing := if s.Conforming then ring else s.dpl
          (entryStack m p.task gate.ist ring newRing rsp).map fun stack =>
            { rip := gate.offset
              cs := gate.selector / 4 * 4 + newRing
              ring := newRing
              rsp := stack / 16 * 16
              masked := decide (gate.type = 14) }
        else none
    else none
  else none

/-! ## Section 3: Encoding and decoding -/

section Encoding

variable (base limit : UInt64) (access granularity : UInt8)

open HALGlobalDescriptorTable

/-- The digits of a 64-bit value that a mask leaves. -/
theorem toNat_digits (x : UInt64) {shift mask : UInt64} {k n : Nat} (hshift : shift.toNat = k)
    (hk : k < 64) (hmask : mask.toNat = 2 ^ n - 1) :
    ((x >>> shift) &&& mask).toNat = x.toNat / 2 ^ k % 2 ^ n := by
  rw [UInt64.toNat_and, UInt64.toNat_shiftRight, hshift, Nat.mod_eq_of_lt hk, hmask,
    Nat.and_two_pow_sub_one_eq_mod, Nat.shiftRight_eq_div_pow]

theorem toNat_low (x : UInt64) {mask : UInt64} {n : Nat} (hmask : mask.toNat = 2 ^ n - 1) :
    (x &&& mask).toNat = x.toNat % 2 ^ n := by
  rw [UInt64.toNat_and, hmask, Nat.and_two_pow_sub_one_eq_mod]

/-- The upper half of the byte comes from the flags, and the lower half from the limit. -/
theorem or_and_upper {low : UInt8} (hlow : low.toNat < 16) (flags : UInt8) :
    (low ||| (flags &&& 0xF0)).toNat = low.toNat + flags.toNat / 16 * 16 := by
  have htable : ∀ (low : Fin 16) (flags : Fin 256),
      low.val ||| (flags.val &&& 0xF0) = low.val + flags.val / 16 * 16 := by decide +kernel
  rw [UInt8.toNat_or, UInt8.toNat_and]
  exact htable ⟨low.toNat, hlow⟩ ⟨flags.toNat, flags.toNat_lt⟩

@[simp] theorem setGate_limitLow :
    (setGate base limit access granularity).limitLow.toNat = limit.toNat % 2 ^ 16 := by
  rw [setGate, UInt64.toNat_toUInt16, toNat_low limit (n := 16) rfl, Nat.mod_mod]

@[simp] theorem setGate_baseLow :
    (setGate base limit access granularity).baseLow.toNat = base.toNat % 2 ^ 16 := by
  rw [setGate, UInt64.toNat_toUInt16, toNat_low base (n := 16) rfl, Nat.mod_mod]

@[simp] theorem setGate_baseMiddle :
    (setGate base limit access granularity).baseMiddle.toNat = base.toNat / 2 ^ 16 % 2 ^ 8 := by
  rw [setGate, UInt64.toNat_toUInt8, toNat_digits base (k := 16) (n := 8) rfl (by decide) rfl,
    Nat.mod_mod]

@[simp] theorem setGate_baseHigh :
    (setGate base limit access granularity).baseHigh.toNat = base.toNat / 2 ^ 24 % 2 ^ 8 := by
  rw [setGate, UInt64.toNat_toUInt8, toNat_digits base (k := 24) (n := 8) rfl (by decide) rfl,
    Nat.mod_mod]

@[simp] theorem setGate_granularity :
    (setGate base limit access granularity).granularity.toNat =
      limit.toNat / 2 ^ 16 % 2 ^ 4 + granularity.toNat / 16 * 16 := by
  have hlow : ((limit >>> 16) &&& 0x0F).toUInt8.toNat = limit.toNat / 2 ^ 16 % 2 ^ 4 := by
    rw [UInt64.toNat_toUInt8, toNat_digits limit (k := 16) (n := 4) rfl (by decide) rfl]
    omega
  rw [setGate, or_and_upper (by omega), hlow]

/-- An entry's fields are the digits of the word that the processor reads. -/
theorem decode_fields (e : HALGlobalDescriptorTable) :
    Segment.decode (packedValue e.fields) =
      { base := e.baseLow.toNat + e.baseMiddle.toNat * 2 ^ 16 + e.baseHigh.toNat * 2 ^ 24
        limit := e.limitLow.toNat + e.granularity.toNat % 2 ^ 4 * 2 ^ 16
        type := e.access.toNat % 2 ^ 4
        codeOrData := decide (e.access.toNat / 2 ^ 4 % 2 = 1)
        dpl := e.access.toNat / 2 ^ 5 % 4
        present := decide (e.access.toNat / 2 ^ 7 % 2 = 1)
        long := decide (e.granularity.toNat / 2 ^ 5 % 2 = 1)
        size := decide (e.granularity.toNat / 2 ^ 6 % 2 = 1) } := by
  have h₁ := e.limitLow.toNat_lt
  have h₂ := e.baseLow.toNat_lt
  have h₃ := e.baseMiddle.toNat_lt
  have h₄ := e.access.toNat_lt
  have h₅ := e.granularity.toNat_lt
  have h₆ := e.baseHigh.toNat_lt
  simp only [fields, packedValue, Nat.reducePow, Segment.decode, Segment.mk.injEq, decide_eq_decide]
  omega

/-- The processor sees the base, the limit and the flags that an entry was set to. -/
theorem decode_setGate :
    Segment.decode (packedValue (setGate base limit access granularity).fields) =
      { base := base.toNat % 2 ^ 32
        limit := limit.toNat % 2 ^ 20
        type := access.toNat % 2 ^ 4
        codeOrData := decide (access.toNat / 2 ^ 4 % 2 = 1)
        dpl := access.toNat / 2 ^ 5 % 4
        present := decide (access.toNat / 2 ^ 7 % 2 = 1)
        long := decide (granularity.toNat / 2 ^ 5 % 2 = 1)
        size := decide (granularity.toNat / 2 ^ 6 % 2 = 1) } := by
  have haccess : (setGate base limit access granularity).access = access := rfl
  rw [decode_fields, haccess, setGate_limitLow, setGate_baseLow, setGate_baseMiddle, setGate_baseHigh,
    setGate_granularity]
  simp only [Segment.mk.injEq, decide_eq_decide, true_and]
  omega

/-- An entry that was written as a number reads as this number. -/
theorem packedValue_ofWord (word : UInt64) : packedValue (ofWord word).fields = word.toNat := by
  have hlt := word.toNat_lt
  simp [fields, ofWord, packedValue, Nat.shiftRight_eq_div_pow]
  omega

variable (handler : UInt64) (selector : UInt16) (flags : UInt8)

@[simp] theorem setGate_offsetLow :
    (HALInterruptsDescriptorTableEntry.setGate handler selector flags).offsetLow.toNat =
      handler.toNat % 2 ^ 16 := by
  rw [HALInterruptsDescriptorTableEntry.setGate, UInt64.toNat_toUInt16,
    toNat_low handler (n := 16) rfl, Nat.mod_mod]

@[simp] theorem setGate_offsetMid :
    (HALInterruptsDescriptorTableEntry.setGate handler selector flags).offsetMid.toNat =
      handler.toNat / 2 ^ 16 % 2 ^ 16 := by
  rw [HALInterruptsDescriptorTableEntry.setGate, UInt64.toNat_toUInt16,
    toNat_digits handler (k := 16) (n := 16) rfl (by decide) rfl, Nat.mod_mod]

@[simp] theorem setGate_offsetHigh :
    (HALInterruptsDescriptorTableEntry.setGate handler selector flags).offsetHigh.toNat =
      handler.toNat / 2 ^ 32 % 2 ^ 32 := by
  rw [HALInterruptsDescriptorTableEntry.setGate, UInt64.toNat_toUInt32,
    toNat_digits handler (k := 32) (n := 32) rfl (by decide) rfl, Nat.mod_mod]

/-- A gate is read in two halves. -/
theorem decode_gate {m : Memory} {a : Nat} (e : HALInterruptsDescriptorTableEntry)
    (h : m.Holds a (packed e.fields)) :
    Gate.decode (m.readLE a 8) (m.readLE (a + 8) 8) =
      { offset := e.offsetLow.toNat + e.offsetMid.toNat * 2 ^ 16 + e.offsetHigh.toNat * 2 ^ 32
        selector := e.selector.toNat
        ist := e.ist.toNat % 8
        type := e.attributes.toNat % 2 ^ 4
        noGate := decide (e.attributes.toNat / 2 ^ 4 % 2 = 1)
        dpl := e.attributes.toNat / 2 ^ 5 % 4
        present := decide (e.attributes.toNat / 2 ^ 7 % 2 = 1) } := by
  have h₁ := e.offsetLow.toNat_lt
  have h₂ := e.selector.toNat_lt
  have h₃ := e.ist.toNat_lt
  have h₄ := e.attributes.toNat_lt
  have h₅ := e.offsetMid.toNat_lt
  have h₆ := e.offsetHigh.toNat_lt
  have hlow : m.readLE a 8 = packedValue (e.fields.take 5) := by
    rw [← List.take_append_drop 5 e.fields, packed, List.flatMap_append, Memory.Holds.append_iff] at h
    exact Memory.Holds.readLE_packed h.1
  have hhigh : m.readLE (a + 8) 8 = packedValue (e.fields.drop 5) := by
    rw [← List.take_append_drop 5 e.fields, packed, List.flatMap_append, Memory.Holds.append_iff] at h
    exact Memory.Holds.readLE_packed h.2
  rw [hlow, hhigh]
  simp only [HALInterruptsDescriptorTableEntry.fields, List.take_succ_cons, List.take_zero,
    List.drop_succ_cons, List.drop_zero, packedValue, Nat.reducePow, Gate.decode, Gate.mk.injEq,
    decide_eq_decide]
  omega

end Encoding

/-! ## Section 4: The tables in memory -/

namespace TableImage

variable (image : TableImage)

/-- `gHALGlobalDescriptorTablePointer` -/
def gdtr : TableRegister := ⟨image.gHALGlobalDescriptorTable.toNat, 8 * 7 - 1⟩

/-- `gHALInterruptsDescriptorTablePointer` -/
def idtr : TableRegister := ⟨image.gHALInterruptsDescriptorTable.toNat, 16 * 256 - 1⟩

/-- The tables are in memory as they were built, and `rsp0` is what the scheduler has stored last. -/
structure Loaded (m : Memory) (rsp0 : UInt64) : Prop where
  gdt : m.Holds image.gHALGlobalDescriptorTable.toNat (image.gdt.flatMap fun e => packed e.fields)
  tss : m.Holds image.gHALTaskStateSegment.toNat (packed (image.tss rsp0).fields)
  idt : m.Holds image.gHALInterruptsDescriptorTable.toNat (image.idt.flatMap fun e => packed e.fields)

variable {image} {m : Memory} {rsp0 : UInt64}

theorem length_gdtEntry (e : HALGlobalDescriptorTable) : (packed e.fields).length = 8 :=
  length_packed e.fields

theorem length_idtEntry (e : HALInterruptsDescriptorTableEntry) : (packed e.fields).length = 16 :=
  length_packed e.fields

/-- A selector of the table. -/
theorem Loaded.fetchSegment (h : image.Loaded m rsp0) {selector : Nat} {e : HALGlobalDescriptorTable}
    (hlocal : selector / 4 % 2 = 0) (hnull : selector / 8 ≠ 0)
    (hentry : image.gdt[selector / 8]? = some e) :
    fetchSegment m image.gdtr selector = some (.decode (packedValue e.fields)) := by
  have hlt : selector / 8 < 7 := (List.getElem?_eq_some_iff.mp hentry).1
  have hlimit : selector / 8 * 8 + 7 ≤ image.gdtr.limit := by
    show selector / 8 * 8 + 7 ≤ 8 * 7 - 1
    omega
  have hread := (h.gdt.entry length_gdtEntry hentry).readLE_packed
  rw [Arch.fetchSegment, if_pos ⟨hlocal, hnull, hlimit⟩]
  exact congrArg (fun word => some (Segment.decode word)) hread

/-- The selectors that the kernel uses. -/
theorem Loaded.kernelCode (h : image.Loaded m rsp0) :
    Arch.fetchSegment m image.gdtr 0x08 = some ⟨0, 0, 10, true, 0, true, true, false⟩ := by
  rw [h.fetchSegment (e := .setGate 0 0 0x9A 0x20) rfl (by decide) rfl, decode_setGate]
  rfl

theorem Loaded.kernelData (h : image.Loaded m rsp0) :
    Arch.fetchSegment m image.gdtr 0x10 = some ⟨0, 0, 2, true, 0, true, false, false⟩ := by
  rw [h.fetchSegment (e := .setGate 0 0 0x92 0) rfl (by decide) rfl, decode_setGate]
  rfl

theorem Loaded.userData (h : image.Loaded m rsp0) :
    Arch.fetchSegment m image.gdtr 0x1B = some ⟨0, 0, 2, true, 3, true, false, false⟩ := by
  rw [h.fetchSegment (e := .setGate 0 0 0xF2 0) rfl (by decide) rfl, decode_setGate]
  rfl

theorem Loaded.userCode (h : image.Loaded m rsp0) :
    Arch.fetchSegment m image.gdtr 0x23 = some ⟨0, 0, 10, true, 3, true, true, false⟩ := by
  rw [h.fetchSegment (e := .setGate 0 0 0xFA 0x20) rfl (by decide) rfl, decode_setGate]
  rfl

/-- `ltr` finds the task state segment, with its whole address. -/
theorem Loaded.ltr (h : image.Loaded m rsp0) :
    ltr m image.gdtr 0x28 = some ⟨image.gHALTaskStateSegment.toNat, 104⟩ := by
  have hlt := image.gHALTaskStateSegment.toNat_lt
  have hfetch := h.fetchSegment
    (e := .setGate image.gHALTaskStateSegment sizeofTaskStateSegment 0x89 0)
    (show 0x28 / 4 % 2 = 0 from rfl) (by decide) rfl
  have hupper : m.readLE (image.gHALGlobalDescriptorTable.toNat + 8 * 6) 4 =
      image.gHALTaskStateSegment.toNat / 2 ^ 32 := by
    have hword := (h.gdt.entry (i := 6) length_gdtEntry rfl).readLE_packed
    rw [packedValue_ofWord, UInt64.toNat_shiftRight, Nat.shiftRight_eq_div_pow] at hword
    -- the word has no upper half
    have hsplit := m.readLE_add (image.gHALGlobalDescriptorTable.toNat + 8 * 6) 4 4
    have hlow := m.readLE_lt (image.gHALGlobalDescriptorTable.toNat + 8 * 6) 4
    have hsize : packedSize (HALGlobalDescriptorTable.ofWord
      (image.gHALTaskStateSegment >>> 32)).fields = 4 + 4 := rfl
    have hshift : (32 : UInt64).toNat % 64 = 32 := rfl
    rw [hsize, hshift] at hword
    omega
  rw [Arch.ltr, hfetch, Option.bind_some, decode_setGate, 
    if_pos ⟨rfl, rfl, rfl, show 0x28 / 8 * 8 + 15 ≤ 8 * 7 - 1 by decide⟩]
  refine congrArg (fun base => some (TableRegister.mk base 104)) ?_
  show image.gHALTaskStateSegment.toNat % 2 ^ 32 +
    m.readLE (image.gHALGlobalDescriptorTable.toNat + 8 * 6) 4 * 2 ^ 32 = _
  rw [hupper]
  omega

/-- The stack pointer of ring 0. -/
theorem Loaded.readLE_rsp0 (h : image.Loaded m rsp0) :
    m.readLE (image.gHALTaskStateSegment.toNat + 4) 8 = rsp0.toNat := by
  have hlt : rsp0.toNat < 256 ^ 8 := rsp0.toNat_lt
  have hfield := Memory.Holds.readLE_field ((image.tss rsp0).fields.take 1) h.tss
  exact hfield.trans (Nat.mod_eq_of_lt hlt)

/-- The first stack of the interrupt stack table. -/
theorem Loaded.readLE_ist1 (h : image.Loaded m rsp0) :
    m.readLE (image.gHALTaskStateSegment.toNat + 36) 8 = image.doubleFaultStackTop.toNat := by
  have hlt : image.doubleFaultStackTop.toNat < 256 ^ 8 := image.doubleFaultStackTop.toNat_lt
  have hfield := Memory.Holds.readLE_field ((image.tss rsp0).fields.take 5) h.tss
  exact hfield.trans (Nat.mod_eq_of_lt hlt)

/-- The gate of a vector. -/
def gate (vector : Nat) : Gate :=
  match image.handler vector with
  | some handler => ⟨handler.toNat, 0x08, (ist vector).toNat, 14, false, 0, true⟩
  | none => ⟨0, 0, 0, 0, false, 0, false⟩

theorem Loaded.decode_gate (h : image.Loaded m rsp0) {vector : Nat} (hvector : vector < 256) :
    Gate.decode (m.readLE (image.idtr.base + 16 * vector) 8)
      (m.readLE (image.idtr.base + 16 * vector + 8) 8) = image.gate vector := by
  have hentry : image.idt[vector]? = some (image.idtEntry vector) := by
    simp [TableImage.idt, hvector]
  have hheld := h.idt.entry length_idtEntry hentry
  show Gate.decode (m.readLE (image.gHALInterruptsDescriptorTable.toNat + 16 * vector) 8) _ = _
  rw [idtr, Arch.decode_gate _ hheld, idtEntry, gate]
  cases image.handler vector with
  | none => simp [HALInterruptsDescriptorTableEntry.zero]
  | some handler =>
    have hlt := handler.toNat_lt
    have hist : (ist vector).toNat < 8 := by
      unfold ist
      split <;> decide
    have hoffset : handler.toNat % 2 ^ 16 + handler.toNat / 2 ^ 16 % 2 ^ 16 * 2 ^ 16 +
        handler.toNat / 2 ^ 32 % 2 ^ 32 * 2 ^ 32 = handler.toNat := by omega
    simp only [setGate_offsetLow, setGate_offsetMid, setGate_offsetHigh, hoffset,
      Nat.mod_eq_of_lt hist]
    simp [HALInterruptsDescriptorTableEntry.setGate]

/-! ## Section 5: The way into the kernel -/

/-- Where a vector is meant to enter the kernel: at its stub, in ring 0, with interrupts off, on the
stack of the double fault, of the current task, or of the kernel code that was interrupted. No vector
is there for the instructions of a program. -/
def entry (image : TableImage) (rsp0 : UInt64) (cause : Cause) (vector ring rsp : Nat) :
    Option HandlerEntry :=
  if cause = .instruction ∧ 0 < ring then none
  else (image.handler vector).map fun handler =>
    { rip := handler.toNat
      cs := 0x08
      ring := 0
      rsp := (if ist vector ≠ 0 then image.doubleFaultStackTop.toNat
        else if 0 < ring then rsp0.toNat else rsp) / 16 * 16
      masked := true }

/-- The registers that the initialisations load. -/
def registers (image : TableImage) : TableRegisters :=
  ⟨image.gdtr, image.idtr, ⟨image.gHALTaskStateSegment.toNat, 104⟩⟩

theorem Loaded.entryStack (h : image.Loaded m rsp0) (vector ring rsp : Nat) :
    entryStack m image.registers.task (ist vector).toNat ring 0 rsp =
      some (if ist vector ≠ 0 then image.doubleFaultStackTop.toNat
        else if 0 < ring then rsp0.toNat else rsp) := by
  have hist := h.readLE_ist1
  have hrsp0 := h.readLE_rsp0
  by_cases hstack : ist vector = 0
  · by_cases hring : 0 < ring
    · simpa [Arch.entryStack, registers, hstack, hring] using hrsp0
    · simp [Arch.entryStack, hstack, hring]
  · have hone : (ist vector).toNat = 1 := by
      unfold ist at hstack ⊢
      split
      · rfl
      · simp_all
    simpa [Arch.entryStack, registers, hstack, hone] using hist

/-- What the processor does is what is meant. -/
theorem Loaded.deliver (h : image.Loaded m rsp0) (cause : Cause) {vector : Nat} (hvector : vector < 256)
    (ring rsp : Nat) :
    deliver m image.registers cause vector ring rsp = image.entry rsp0 cause vector ring rsp := by
  have hlimit : 16 * vector + 15 ≤ image.registers.idtr.limit := by
    show 16 * vector + 15 ≤ 16 * 256 - 1
    omega
  have hgate : Gate.decode (m.readLE (image.registers.idtr.base + 16 * vector) 8)
      (m.readLE (image.registers.idtr.base + 16 * vector + 8) 8) = image.gate vector :=
    h.decode_gate hvector
  simp only [Arch.deliver, if_pos hlimit, hgate, gate, entry]
  cases image.handler vector with
  | none => simp
  | some handler =>
    have hcode : Arch.fetchSegment m image.registers.gdtr 0x08 = some ⟨0, 0, 10, true, 0, true, true, false⟩ :=
      h.kernelCode
    by_cases hrefused : cause = .instruction ∧ 0 < ring
    · -- the gates are not for programs
      obtain ⟨rfl, hring⟩ := hrefused
      simp [hring, Nat.ne_of_gt hring]
    · have hallowed : cause = .instruction → ring = 0 :=
        fun hcause => Nat.eq_zero_of_not_pos fun hring => hrefused ⟨hcause, hring⟩
      simpa [hrefused, hcode, Segment.IsCode, Segment.Conforming, h.entryStack] using hallowed

end TableImage

/-- Every vector enters the kernel as it is meant to, from whatever ring and stack it comes up: the task
register finds the task state segment, exceptions and the two lines go to their own stubs, all other
vectors are refused, and so is every vector that a program raises by an instruction. -/
theorem interrupts_enter_stubs (image : TableImage) (m : Memory) (rsp0 : UInt64)
    (h : image.Loaded m rsp0) :
    ∃ task, ltr m image.gdtr 0x28 = some task ∧
      ∀ (cause : Cause) (vector ring rsp : Nat), vector < 256 →
        deliver m ⟨image.gdtr, image.idtr, task⟩ cause vector ring rsp =
          image.entry rsp0 cause vector ring rsp :=
  ⟨_, h.ltr, fun cause _ ring rsp hvector => h.deliver cause hvector ring rsp⟩

/-- Tables one page apart. -/
def smallTables : TableImage where
  gHALGlobalDescriptorTable := 0x1000
  gHALTaskStateSegment := 0x2000
  gHALDoubleFaultStack := 0x4008
  gHALInterruptsDescriptorTable := 0x3000
  isr := fun vector => 0xFFFFFFFF80100000 + 16 * UInt64.ofNat vector.val
  irq0 := 0xFFFFFFFF80100200
  irq1 := 0xFFFFFFFF80100210

/-- The memory that they lie in. -/
def smallTablesMemory : Memory := fun x =>
  if x < 0x2000 then Memory.zeroPadded (smallTables.gdt.flatMap fun e => packed e.fields) (x - 0x1000)
  else if x < 0x3000 then Memory.zeroPadded (packed (smallTables.tss 0x9000).fields) (x - 0x2000)
  else Memory.zeroPadded (smallTables.idt.flatMap fun e => packed e.fields) (x - 0x3000)

theorem loaded_smallTables : smallTables.Loaded smallTablesMemory 0x9000 where
  gdt := by
    refine (Memory.holds_zeroPadded 0x1000 _).congr fun i hi => ?_
    have hlt : i < 56 := hi
    rw [smallTablesMemory, if_pos (show 0x1000 + i < 0x2000 by omega)]
  tss := by
    refine (Memory.holds_zeroPadded 0x2000 _).congr fun i hi => ?_
    have hlt : i < 104 := by rwa [length_packed] at hi
    rw [smallTablesMemory, if_neg (show ¬ 0x2000 + i < 0x2000 by omega),
      if_pos (show 0x2000 + i < 0x3000 by omega)]
  idt := by
    refine (Memory.holds_zeroPadded 0x3000 _).congr fun i hi => ?_
    rw [smallTablesMemory, if_neg (show ¬ 0x3000 + i < 0x2000 by omega),
      if_neg (show ¬ 0x3000 + i < 0x3000 by omega)]

/-- A page fault of a program. -/
theorem interrupts_enter_stubs_pageFault :
    deliver smallTablesMemory smallTables.registers .hardware 14 3 0x7000 =
      some ⟨0xFFFFFFFF801000E0, 0x08, 0, 0x5000, true⟩ := by
  obtain ⟨task, htask, hdeliver⟩ := interrupts_enter_stubs smallTables smallTablesMemory 0x9000
    loaded_smallTables
  obtain rfl : ⟨smallTables.gHALTaskStateSegment.toNat, 104⟩ = task :=
    Option.some.inj (loaded_smallTables.ltr.symm.trans htask)
  exact (hdeliver .hardware 14 3 0x7000 (by decide)).trans (by decide)

end TermOS.Arch
