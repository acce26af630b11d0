import TermOS.Kernel.HeapLayout

/-!
# Clients of a heap

The clients of a heap hold payloads. They allocate, free and resize, in any order, and
write to what they hold. What they rely on is the same for the heap of the kernel and
the heap of a process.

## Main Theorems

* `HeapLayout.safe` - the layout of the blocks is what the clients rely on
-/

namespace TermOS.Kernel

open TermOS.Lib

inductive HeapAction where
  /-- `VMHeapAllocate(size)` or `MemoryAllocate(size)` -/
  | allocate (size : Nat)
  /-- `VMHeapFree(pointer)` or `MemoryFree(pointer)` -/
  | free (pointer : Nat)
  /-- `VMHeapResize(pointer, newSize)` or `MemoryReallocate(pointer, newSize)` -/
  | resize (pointer newSize : Nat)
  /-- A client writes a byte of its payload. -/
  | write (pointer offset : Nat) (byte : UInt8)
  deriving DecidableEq

/-- The length of a payload, as its header says. -/
def payloadSize (m : Memory) (pointer : Nat) : Nat := (blockHeader m (headerOf pointer)).size

/-- A client holds the payload. -/
def Held (live : List (Nat × Nat)) (pointer : Nat) : Prop := pointer ∈ live.map Prod.fst

instance (live : List (Nat × Nat)) (pointer : Nat) : Decidable (Held live pointer) :=
  inferInstanceAs (Decidable (_ ∈ _))

/-- Sizes that can be rounded up, and pointers that are held. -/
def HeapAction.Permitted (m : Memory) (live : List (Nat × Nat)) : HeapAction → Prop
  | .allocate size => size + 15 < 2 ^ 64
  | .free pointer => Held live pointer
  | .resize pointer newSize => Held live pointer ∧ newSize + 15 < 2 ^ 64
  | .write pointer offset _ => Held live pointer ∧ offset < payloadSize m pointer

instance (m : Memory) (live : List (Nat × Nat)) :
    (a : HeapAction) → Decidable (a.Permitted m live)
  | .allocate size => inferInstanceAs (Decidable (size + 15 < 2 ^ 64))
  | .free pointer => inferInstanceAs (Decidable (Held live pointer))
  | .resize pointer newSize => inferInstanceAs (Decidable (Held live pointer ∧ newSize + 15 < 2 ^ 64))
  | .write pointer offset _ =>
    inferInstanceAs (Decidable (Held live pointer ∧ offset < payloadSize m pointer))

/-- What is held after an action that has returned `pointer`. -/
def HeapAction.holdings (live : List (Nat × Nat)) (pointer : Nat) : HeapAction → List (Nat × Nat)
  | .allocate size => if pointer = 0 then live else (pointer, size) :: live
  | .free old => withoutPayload live old
  | .resize old newSize =>
    if newSize = 0 then withoutPayload live old
    else if pointer = 0 then live
    else (pointer, newSize) :: withoutPayload live old
  | .write _ _ _ => live

/-! ## Section 1: What the clients rely on -/

/-- The headers are linked in the order of their addresses, each block ends where or
before the next one begins, and the payloads that are held lie between `start` and
`stop`, apart from the headers and from each other. -/
structure HeapSafe (r : Nat → Nat → Prop) (magic start stop listHead : Nat) (m : Memory)
    (live : List (Nat × Nat)) : Prop where
  blocks : ∃ bs, listHead = firstAddress 0 bs ∧ Linked m magic 0 bs 0 ∧
    Laid r sizeofHeader start bs stop ∧
    ∀ p ∈ live, ∀ b ∈ bs, p.1 + payloadSize m p.1 ≤ b.address ∨ b.address + sizeofHeader ≤ p.1
  inside : ∀ p ∈ live, start ≤ p.1 ∧ p.1 + payloadSize m p.1 ≤ stop ∧ p.2 ≤ payloadSize m p.1
  disjoint : live.Pairwise fun p q =>
    p.1 ≠ q.1 ∧ (p.1 + payloadSize m p.1 ≤ q.1 ∨ q.1 + payloadSize m q.1 ≤ p.1)

/-- What an action that returns `pointer` leaves alone. -/
structure Respects (m : Memory) (live : List (Nat × Nat)) (a : HeapAction) (pointer : Nat)
    (m' : Memory) (live' : List (Nat × Nat)) : Prop where
  /-- Only a resize or a write may change a payload, and only its own. -/
  others : ∀ p, Held live p → (∀ n, a ≠ .resize p n) → (∀ offset byte, a ≠ .write p offset byte) →
    ∀ i < payloadSize m p, m' (p + i) = m (p + i)
  /-- A resize that returns a pointer preserves the bytes of the payload. -/
  moved : ∀ p n, a = .resize p n → pointer ≠ 0 →
    ∀ i < payloadSize m p, m' (pointer + i) = m (p + i)
  /-- A resize to a nonzero size that returns null leaves the payload held and intact. -/
  refused : ∀ p n, a = .resize p n → n ≠ 0 → pointer = 0 → live' = live ∧
    payloadSize m' p = payloadSize m p ∧ ∀ i < payloadSize m p, m' (p + i) = m (p + i)

/-! ## Section 2: Layout and clients -/

namespace HeapLayout

variable {r : Nat → Nat → Prop} {magic start stop listHead : Nat} {m m' : Memory} {bs : List Block}
  {b c : Block} {live : List (Nat × Nat)} {p n : Nat}

theorem payloadSize_eq (hr : Adjacency r) (h : HeapLayout r magic start stop listHead m bs live)
    (hb : b ∈ bs) : payloadSize m (b.address + sizeofHeader) = b.size := by
  unfold payloadSize
  rw [headerOf_payload (h.arena hr) hb, h.linked.size_eq hb]

/-- What is held is a block in use. -/
theorem exists_block (hr : Adjacency r) (h : HeapLayout r magic start stop listHead m bs live)
    (hp : (p, n) ∈ live) :
    ∃ b ∈ bs, b.isFree = false ∧ p = b.address + sizeofHeader ∧ n ≤ b.size ∧
      payloadSize m p = b.size := by
  obtain ⟨b, hb, hused, rfl, hn⟩ := h.held p n hp
  exact ⟨b, hb, hused, rfl, hn, h.payloadSize_eq hr hb⟩

theorem exists_block_of_held (hr : Adjacency r)
    (h : HeapLayout r magic start stop listHead m bs live) (hp : Held live p) :
    ∃ b ∈ bs, b.isFree = false ∧ p = b.address + sizeofHeader ∧ payloadSize m p = b.size := by
  obtain ⟨⟨q, n⟩, hq, rfl⟩ := List.mem_map.mp hp
  obtain ⟨b, hb, hused, heq, -, hsize⟩ := h.exists_block hr hq
  exact ⟨b, hb, hused, heq, hsize⟩

theorem safe (hr : Adjacency r) (h : HeapLayout r magic start stop listHead m bs live) :
    HeapSafe r magic start stop listHead m live := by
  have hlaid := (h.arena hr).laid
  refine ⟨⟨bs, h.head, h.linked, h.laid, ?_⟩, ?_, ?_⟩
  · rintro ⟨p, n⟩ hp c hc
    obtain ⟨b, hb, -, rfl, -, hsize⟩ := h.exists_block hr hp
    dsimp only
    rw [hsize]
    rcases hlaid.separate adjacency_le hb hc with rfl | hbefore | hafter
    · exact .inr (Nat.le_refl _)
    · exact .inl hbefore
    · unfold Block.stop at hafter
      exact .inr (by omega)
  · rintro ⟨p, n⟩ hp
    obtain ⟨b, hb, -, rfl, hn, hsize⟩ := h.exists_block hr hp
    obtain ⟨hstart, hstop⟩ := h.laid.bounds hr hb
    unfold Block.stop at hstop
    dsimp only
    rw [hsize]
    exact ⟨by omega, hstop, hn⟩
  · -- different pointers are different blocks
    have hnodup := List.pairwise_map.mp h.nodup
    refine hnodup.imp_of_mem ?_
    rintro ⟨p, n⟩ ⟨q, k⟩ hp hq hne
    refine ⟨hne, ?_⟩
    obtain ⟨b, hb, -, rfl, -, hbsize⟩ := h.exists_block hr hp
    obtain ⟨c, hc, -, rfl, -, hcsize⟩ := h.exists_block hr hq
    dsimp only at hne ⊢
    rw [hbsize, hcsize]
    rcases hlaid.separate adjacency_le hb hc with rfl | hbefore | hafter
    · exact absurd rfl hne
    · unfold Block.stop at hbefore
      exact .inl (by omega)
    · unfold Block.stop at hafter
      exact .inr (by omega)

/-- Payloads in use that are kept are what is held. -/
theorem others_of_kept (hr : Adjacency r) (h : HeapLayout r magic start stop listHead m bs live)
    (hp : Held live p)
    (hkept : ∀ b ∈ bs, b.isFree = false → p = b.address + sizeofHeader →
      ∀ x, Block.Holds b x → m' x = m x) :
    ∀ i < payloadSize m p, m' (p + i) = m (p + i) := by
  intro i hi
  obtain ⟨b, hb, hused, rfl, hsize⟩ := h.exists_block_of_held hr hp
  rw [hsize] at hi
  apply hkept b hb hused rfl
  unfold Block.Holds
  omega

/-- A write to what is held. -/
theorem write_held (hr : Adjacency r) (h : HeapLayout r magic start stop listHead m bs live)
    (hp : Held live p) {offset : Nat} (hoffset : offset < payloadSize m p) (byte : UInt8) :
    HeapLayout r magic start stop listHead (m.setByte (p + offset) byte) bs live ∧
      Respects m live (.write p offset byte) 0 (m.setByte (p + offset) byte) live := by
  obtain ⟨c, hc, -, rfl, hpayload⟩ := h.exists_block_of_held hr hp
  rw [hpayload] at hoffset
  have hkept : ∀ x, ¬ Block.Holds c x →
      m.setByte (c.address + sizeofHeader + offset) byte x = m x := by
    intro x hx
    apply Memory.setByte_ne
    intro heq
    apply hx
    unfold Block.Holds
    omega
  refine ⟨h.write hr hc hkept, ⟨?_, by simp, by simp⟩⟩
  intro q hq _ hwrite
  refine h.others_of_kept hr hq fun b hb _ hqb x hx => hkept x ?_
  refine outside_payload (h.arena hr).laid hb hc ?_ hx
  intro heq
  rw [heq] at hqb
  exact hwrite offset byte (by rw [hqb])

/-- A free of what is held. -/
theorem free_held (hr : Adjacency r) (h : HeapLayout r magic start stop listHead m bs live)
    (hp : Held live p) :
    (∃ bs', HeapLayout r magic start stop listHead (freeBlock m magic p) bs'
        (withoutPayload live p)) ∧
      Respects m live (.free p) 0 (freeBlock m magic p) (withoutPayload live p) := by
  obtain ⟨c, hc, -, rfl, -⟩ := h.exists_block_of_held hr hp
  obtain ⟨xs, ys, rfl⟩ := List.append_of_mem hc
  obtain ⟨hlayout, hkept⟩ := h.free hr
  refine ⟨⟨_, hlayout⟩, ⟨?_, by simp, by simp⟩⟩
  intro q hq _ _
  exact h.others_of_kept hr hq fun b hb hused _ => hkept b hb hused

/-- An allocation leaves everything alone that was held. -/
theorem respects_allocated (hr : Adjacency r) (h : HeapLayout r magic start stop listHead m bs live)
    {bs' : List Block} {stop' listHead' size pointer : Nat}
    (halloc : Allocated r magic start stop' listHead' m bs live size pointer m' bs') :
    Respects m live (.allocate size) pointer m' ((pointer, size) :: live) := by
  refine ⟨?_, by simp, by simp⟩
  intro p hp _ _
  exact h.others_of_kept hr hp fun b hb hused _ => halloc.kept b hb hused

/-- A resize moves or keeps its payload, and leaves the others alone. -/
theorem respects_resized (hr : Adjacency r) (h : HeapLayout r magic start stop listHead m bs live)
    {bs' : List Block} {stop' listHead' pointer : Nat} (hc : c ∈ bs)
    (hresized : Resized r magic start stop' listHead' m bs live c n pointer m' bs') :
    Respects m live (.resize (c.address + sizeofHeader) n) pointer m'
      ((pointer, n) :: withoutPayload live (c.address + sizeofHeader)) := by
  refine ⟨?_, ?_, ?_⟩
  · intro q hq hresize _
    refine h.others_of_kept hr hq fun b hb hbused hqb => hresized.kept b hb ?_ hbused
    intro heq
    rw [heq] at hqb
    exact hresize n (by rw [hqb])
  · intro q k heq _ i hi
    cases heq
    rw [h.payloadSize_eq hr hc] at hi
    exact hresized.moved i hi
  · intro q k _ _ hpointer
    exact absurd hpointer hresized.pointer_ne

end HeapLayout

/-- A resize to nothing is a free. -/
theorem Respects.resize_zero {m m' : Memory} {live live' : List (Nat × Nat)} {p : Nat}
    (h : Respects m live (.free p) 0 m' live') : Respects m live (.resize p 0) 0 m' live' := by
  refine ⟨?_, by simp, ?_⟩
  · intro q hq _ _
    exact h.others q hq (by simp) (by simp)
  · intro q n heq hn
    cases heq
    exact absurd rfl hn

end TermOS.Kernel
