import TermOS.Lib.Memory

/-!
# The boot information

`Bootinfo` of `common/bootinfo.h`: what the boot loader writes and the kernel finds. The
key of the memory map and the version of its descriptors are written and not read.
-/

namespace TermOS.Kernel

open TermOS.Lib

/-- `BOOTINFO_MAGIC`, "term". -/
def bootinfoMagic : Nat := 0x7465726D

/-- `sizeof(Bootinfo)` -/
def sizeofBootinfo : Nat := 96

/-- `Bootinfo` -/
structure Bootinfo where
  magic : Nat
  framebufferBase : Nat
  framebufferBaseSize : Nat
  framebufferWidth : Nat
  framebufferHeight : Nat
  framebufferPitch : Nat
  memoryMap : Nat
  mapSize : Nat
  descriptorSize : Nat
  initramfsAddress : Nat
  initramfsSize : Nat
  deriving DecidableEq, Repr

/-- The `Bootinfo` at an address. -/
def readBootinfo (m : Memory) (info : Nat) : Bootinfo where
  magic := m.word info
  framebufferBase := m.word (info + 8)
  framebufferBaseSize := m.word (info + 16)
  framebufferWidth := m.word (info + 24)
  framebufferHeight := m.word (info + 32)
  framebufferPitch := m.word (info + 40)
  memoryMap := m.word (info + 48)
  mapSize := m.word (info + 56)
  descriptorSize := m.word (info + 64)
  initramfsAddress := m.word (info + 80)
  initramfsSize := m.word (info + 88)

end TermOS.Kernel
