import Mathlib.Data.Nat.Bitwise
import TermOS.VM.PMM

/-!
# Page-table entries

The entry format and index macros of `kernel/inc/VM/VMM.h`, on 64-bit values
represented as natural numbers below `2 ^ 64`.
-/

namespace TermOS.VM

/-! ## Section 1: Flags and index macros -/

def ptePresent : Nat := 1
def pteRW : Nat := 2
def pteUser : Nat := 4

/-- `PTE_ADDR_MASK`, bits 12 to 51 -/
def pteAddrMask : Nat := 0x000FFFFFFFFFF000

/-- `~PTE_ADDR_MASK` -/
def pteFlagsMask : Nat := 0xFFF0000000000FFF

/-- `PTE_GET_ADDR` -/
def pteGetAddr (entry : Nat) : Nat := entry &&& pteAddrMask

/-- `PTE_GET_FLAGS` -/
def pteGetFlags (entry : Nat) : Nat := entry &&& pteFlagsMask

/-- `VMM_PT_INDEX` -/
def vmmPTIndex (virt : Nat) : Nat := (virt >>> 12) &&& 0x1FF

/-- `VMM_PD_INDEX` -/
def vmmPDIndex (virt : Nat) : Nat := (virt >>> 21) &&& 0x1FF

/-- `VMM_PDPT_INDEX` -/
def vmmPDPTIndex (virt : Nat) : Nat := (virt >>> 30) &&& 0x1FF

/-- `VMM_PML4_INDEX` -/
def vmmPML4Index (virt : Nat) : Nat := (virt >>> 39) &&& 0x1FF

/-! ## Section 2: Index arithmetic -/

private theorem shift_and_mask (virt k : Nat) : (virt >>> k) &&& 0x1FF = virt / 2 ^ k % 512 := by
  rw [Nat.shiftRight_eq_div_pow]
  exact Nat.and_two_pow_sub_one_eq_mod _ 9

theorem vmmPTIndex_eq (virt : Nat) : vmmPTIndex virt = virt / 2 ^ 12 % 512 := shift_and_mask virt 12
theorem vmmPDIndex_eq (virt : Nat) : vmmPDIndex virt = virt / 2 ^ 21 % 512 := shift_and_mask virt 21
theorem vmmPDPTIndex_eq (virt : Nat) : vmmPDPTIndex virt = virt / 2 ^ 30 % 512 :=
  shift_and_mask virt 30
theorem vmmPML4Index_eq (virt : Nat) : vmmPML4Index virt = virt / 2 ^ 39 % 512 :=
  shift_and_mask virt 39

theorem vmmPTIndex_lt (virt : Nat) : vmmPTIndex virt < 512 := by
  rw [vmmPTIndex_eq]
  omega

theorem vmmPDIndex_lt (virt : Nat) : vmmPDIndex virt < 512 := by
  rw [vmmPDIndex_eq]
  omega

theorem vmmPDPTIndex_lt (virt : Nat) : vmmPDPTIndex virt < 512 := by
  rw [vmmPDPTIndex_eq]
  omega

theorem vmmPML4Index_lt (virt : Nat) : vmmPML4Index virt < 512 := by
  rw [vmmPML4Index_eq]
  omega

/-! ## Section 3: Entries -/

/-- The address bits of an entry, arithmetically. -/
theorem pteGetAddr_eq (entry : Nat) : pteGetAddr entry = entry / 2 ^ 12 % 2 ^ 40 * 2 ^ 12 := by
  have hmask : pteAddrMask = (2 ^ 40 - 1) <<< 12 := by decide
  apply Nat.eq_of_testBit_eq
  intro i
  rw [pteGetAddr, hmask, Nat.testBit_and, Nat.testBit_shiftLeft, Nat.testBit_two_pow_sub_one,
    Nat.testBit_mul_two_pow, Nat.testBit_mod_two_pow, Nat.testBit_div_two_pow]
  by_cases h : 12 ≤ i
  · simp only [h, decide_true, Bool.true_and, Nat.sub_add_cancel h]
    rw [Bool.and_comm]
  · simp [h]

theorem pteGetAddr_mod (entry : Nat) : pteGetAddr entry % 4096 = 0 := by
  rw [pteGetAddr_eq]
  omega

/-- A page-aligned physical address below `2 ^ 52`. -/
def IsFrameAddress (phys : Nat) : Prop := phys % 4096 = 0 ∧ phys < 2 ^ 52

instance (phys : Nat) : Decidable (IsFrameAddress phys) :=
  inferInstanceAs (Decidable (_ ∧ _))

theorem IsFrameAddress.and_mask {phys : Nat} (h : IsFrameAddress phys) :
    phys &&& pteAddrMask = phys := by
  obtain ⟨halign, hlt⟩ := h
  have := pteGetAddr_eq phys
  rw [pteGetAddr] at this
  omega

theorem IsFrameAddress.and_flagsMask {phys : Nat} (h : IsFrameAddress phys) :
    phys &&& pteFlagsMask = 0 := by
  rw [← h.and_mask, Nat.and_assoc, show pteAddrMask &&& pteFlagsMask = 0 by decide, Nat.and_zero]

/-- A 64-bit flag word without address bits. -/
def IsFlagWord (flags : Nat) : Prop := flags < 2 ^ 64 ∧ flags &&& pteAddrMask = 0

instance (flags : Nat) : Decidable (IsFlagWord flags) :=
  inferInstanceAs (Decidable (_ ∧ _))

theorem IsFlagWord.and_flagsMask {flags : Nat} (h : IsFlagWord flags) :
    flags &&& pteFlagsMask = flags := by
  have hall : flags &&& (2 ^ 64 - 1) = flags := by
    rw [Nat.and_two_pow_sub_one_eq_mod, Nat.mod_eq_of_lt h.1]
  have hsplit : flags &&& (pteAddrMask ||| pteFlagsMask) = flags := by
    rw [show pteAddrMask ||| pteFlagsMask = 2 ^ 64 - 1 by decide, hall]
  rwa [Nat.and_or_distrib_left, h.2, Nat.zero_or] at hsplit

/-- The address that an entry was made from. -/
theorem pteGetAddr_or {phys flags : Nat} (hphys : IsFrameAddress phys) (hflags : IsFlagWord flags) :
    pteGetAddr (phys ||| flags) = phys := by
  rw [pteGetAddr, Nat.and_or_distrib_right, hphys.and_mask, hflags.2, Nat.or_zero]

/-- The flags that an entry was made from. -/
theorem pteGetFlags_or {phys flags : Nat} (hphys : IsFrameAddress phys)
    (hflags : IsFlagWord flags) : pteGetFlags (phys ||| flags) = flags := by
  rw [pteGetFlags, Nat.and_or_distrib_right, hphys.and_flagsMask, hflags.and_flagsMask,
    Nat.zero_or]

/-- A flag bit of an entry is a flag bit of its flag word. -/
theorem or_and_flag {phys flags bit : Nat} (hphys : IsFrameAddress phys)
    (hbit : bit &&& pteFlagsMask = bit) : (phys ||| flags) &&& bit = flags &&& bit := by
  have hzero : phys &&& bit = 0 := by
    rw [← hbit, Nat.and_comm bit, ← Nat.and_assoc, hphys.and_flagsMask, Nat.zero_and]
  rw [Nat.and_or_distrib_right, hzero, Nat.zero_or]

theorem or_lt_word {a b : Nat} (ha : a < 2 ^ 64) (hb : b < 2 ^ 64) : a ||| b < 2 ^ 64 :=
  Nat.or_lt_two_pow ha hb

/-- Flags of a new table entry: `PTE_PRESENT | PTE_RW | (flags & PTE_USER)`. -/
def tableFlags (flags : Nat) : Nat := ptePresent ||| pteRW ||| (flags &&& pteUser)

theorem and_user_cases (flags : Nat) : flags &&& pteUser = 0 ∨ flags &&& pteUser = pteUser := by
  rw [show pteUser = 2 ^ 2 by rfl, Nat.and_two_pow]
  cases flags.testBit 2 <;> simp

theorem isFlagWord_user (flags : Nat) : IsFlagWord (flags &&& pteUser) := by
  rcases and_user_cases flags with h | h <;> rw [h] <;> decide

theorem isFlagWord_tableFlags (flags : Nat) : IsFlagWord (tableFlags flags) := by
  rcases and_user_cases flags with h | h <;> rw [tableFlags, h] <;> decide

theorem tableFlags_present (flags : Nat) : tableFlags flags &&& ptePresent ≠ 0 := by
  rcases and_user_cases flags with h | h <;> rw [tableFlags, h] <;> decide

theorem tableFlags_user (flags : Nat) : tableFlags flags &&& pteUser = flags &&& pteUser := by
  rcases and_user_cases flags with h | h <;> rw [tableFlags, h] <;> decide

theorem tableFlags_rw (flags : Nat) : tableFlags flags &&& pteRW ≠ 0 := by
  rcases and_user_cases flags with h | h <;> rw [tableFlags, h] <;> decide

/-- OR-ing the USER bit into an entry keeps its address. -/
theorem pteGetAddr_or_user (entry flags : Nat) :
    pteGetAddr (entry ||| (flags &&& pteUser)) = pteGetAddr entry := by
  rw [pteGetAddr, Nat.and_or_distrib_right, (isFlagWord_user flags).2, Nat.or_zero, pteGetAddr]

/-- OR-ing the USER bit into an entry keeps its PRESENT bit. -/
theorem or_user_and_present (entry flags : Nat) :
    (entry ||| (flags &&& pteUser)) &&& ptePresent = entry &&& ptePresent := by
  have hzero : flags &&& pteUser &&& ptePresent = 0 := by
    rcases and_user_cases flags with h | h <;> rw [h] <;> decide
  rw [Nat.and_or_distrib_right, hzero, Nat.or_zero]

/-- OR-ing the USER bit into an entry keeps its RW bit. -/
theorem or_user_and_rw (entry flags : Nat) :
    (entry ||| (flags &&& pteUser)) &&& pteRW = entry &&& pteRW := by
  have hzero : flags &&& pteUser &&& pteRW = 0 := by
    rcases and_user_cases flags with h | h <;> rw [h] <;> decide
  rw [Nat.and_or_distrib_right, hzero, Nat.or_zero]

theorem or_user_and_user (entry flags : Nat) :
    (entry ||| (flags &&& pteUser)) &&& pteUser ≠ 0 ↔
      entry &&& pteUser ≠ 0 ∨ flags &&& pteUser ≠ 0 := by
  have hidem : flags &&& pteUser &&& pteUser = flags &&& pteUser := by
    rw [Nat.and_assoc, Nat.and_self]
  rw [Nat.and_or_distrib_right, hidem, ne_eq, Nat.or_eq_zero_iff]
  tauto

end TermOS.VM
