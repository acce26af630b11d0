import TermOS.OS.Syscall

/-!
# System calls and the caller's memory

What `syscall_dispatch` reads and writes on behalf of its caller. The services follow the
pointers without looking at them, so the boundary between the rings holds exactly for the
calls that pass memory of their own.

## Main Definitions

* `RespectsBoundary` - the kernel touches user memory only, and refuses all other pointers
* `SystemCall.FollowsPointer`, `SystemCall.InUserMemory` - what decides it

## Main Theorem

* `respectsBoundary_iff` - the boundary holds for a call exactly when the service does not
  follow the pointer, or all that it points to is user memory
-/

namespace TermOS.OS

open TermOS.Lib TermOS.Kernel TermOS.VM TermOS.FS TermOS.Device VMState

/-! ## Section 1: The boundary -/

/-- The address is mapped for ring 3 in the caller's address space. -/
def SystemState.UserMapped (s : SystemState) (address : UInt64) : Prop :=
  Canonical address.toNat ∧ s.kernel.vm.UserAccessible s.kernel.scheduler.cr3 address.toNat

/-- No byte of the string before index `i` is a NUL. -/
def SystemState.NoNulBefore (s : SystemState) (string : UInt64) (i : Nat) : Prop :=
  ∀ j < i, s.byteAt (string + UInt64.ofNat j).toNat ≠ some 0

namespace SystemCall

variable (call : SystemCall)

/-- The buffer or the path. -/
def pointer : UInt64 := if call.service = some .spawn then call.arg1 else call.arg2

/-- The byte with index `i` belongs to what the caller passes: to its buffer, or to its path
with the NUL. -/
def Passes (s : SystemState) (i : Nat) : Prop :=
  match call.service with
  | some .spawn => s.NoNulBefore call.arg1 i
  | some .write | some .read => i < call.arg3.toNat
  | _ => False

/-- All that the caller passes is mapped for ring 3. -/
def InUserMemory (s : SystemState) : Prop :=
  ∀ i, call.Passes s i → s.UserMapped (call.pointer + UInt64.ofNat i)

/-- The call is `SYS_SPAWN`, or the file descriptor is one that it accepts. -/
def FollowsPointer : Prop :=
  match call.service with
  | some .spawn => True
  | some .write => call.arg1 = 1 ∨ call.arg1 = 2
  | some .read => call.arg1 = 0
  | _ => False

end SystemCall

/-- What a system call reads and writes on behalf of its caller, also when it stops. -/
def callerAccesses (around : Surroundings) (turns : Nat) (s : SystemState) (call : SystemCall) :
    List CallerAccess :=
  match syscallDispatch around turns call ⟨s, []⟩ with
  | .ok _ s' => s'.accesses
  | .error _ s' => s'.accesses

/-- The call returns without an access, and with memory as it was. -/
def Refuses (around : Surroundings) (turns : Nat) (s : SystemState) (call : SystemCall) : Prop :=
  ∃ value s', syscallDispatch around turns call ⟨s, []⟩ = .ok value s' ∧ s'.accesses = [] ∧
    s'.system.kernel.vm.mem = s.kernel.vm.mem ∧
    s'.system.kernel.scheduler.memory = s.kernel.scheduler.memory

/-- A system call keeps to the memory of its caller. -/
structure RespectsBoundary (around : Surroundings) (turns : Nat) (s : SystemState)
    (call : SystemCall) : Prop where
  userMapped : ∀ access ∈ callerAccesses around turns s call, s.UserMapped access.address
  refuses : ¬ call.InUserMemory s → Refuses around turns s call

/-! ## Section 2: Programs without an access -/

/-- The program accesses nothing on behalf of the caller. -/
def AccessFree {α : Type} (program : SystemCallM α) : Prop :=
  ∀ accesses, Triple (fun s => s.accesses = accesses) program (fun _ s => s.accesses = accesses)
    fun s => s.accesses = accesses

namespace AccessFree

theorem pure {α : Type} (a : α) : AccessFree (Pure.pure a : SystemCallM α) :=
  fun _ => .pure a fun _ => id

theorem bind {α β : Type} {program : SystemCallM α} {next : α → SystemCallM β} (h : AccessFree program)
    (hnext : ∀ a, AccessFree (next a)) : AccessFree (program >>= next) :=
  fun accesses => (h accesses).bind fun a => hnext a accesses

theorem map {α β : Type} {program : SystemCallM α} (f : α → β) (h : AccessFree program) :
    AccessFree (f <$> program) := h.bind fun a => AccessFree.pure (f a)

end AccessFree

theorem accessFree_get : AccessFree (get : SystemCallM CallState) := fun _ => .get fun _ => id

theorem accessFree_throw {α : Type} (stop : Stop) : AccessFree (throw stop : SystemCallM α) :=
  fun _ => .throw stop fun _ => id

theorem accessFree_changeSystem (change : SystemState → SystemState) : AccessFree (changeSystem change) :=
  fun _ _ hs => hs

theorem accessFree_switchTask (switch : SchedulerState → Option (Except SchedulerPanic SchedulerState)) :
    AccessFree (switchTask switch) := by
  intro accesses s hs
  unfold switchTask
  rcases switch s.system.kernel.scheduler with - | panic | scheduler
  · exact hs
  · exact hs
  · exact hs

theorem accessFree_resumes (around : Surroundings) : AccessFree (resumes around) := by
  intro accesses s hs
  unfold resumes
  cases around.resume s.system
  · exact hs
  · exact hs

theorem accessFree_consoleLog (fmt : Libterm.CString) (args : List Libterm.VaArg) (turns : Nat) :
    AccessFree (consoleLog fmt args turns) := by
  intro accesses s hs
  unfold consoleLog
  cases ioConsoleLog fmt args turns s.system.console
  · exact hs
  · exact hs

theorem accessFree_getCharacter (around : Surroundings) (turns : Nat) :
    AccessFree (ioKeyboardGetCharacter around turns) := by
  induction turns with
  | zero => exact accessFree_throw _
  | succ turns ih =>
    unfold ioKeyboardGetCharacter
    apply accessFree_get.bind
    intro s
    dsimp only
    split
    · exact (accessFree_changeSystem _).bind fun _ => AccessFree.pure _
    · exact (accessFree_switchTask _).bind fun _ => (accessFree_resumes around).bind fun _ => ih

theorem accessFree_processExit (around : Surroundings) (turns : Nat) (code : Int32) :
    AccessFree (osServiceProcessExit around turns code) :=
  accessFree_get.bind fun _ => (accessFree_consoleLog _ _ _).bind fun _ =>
    (accessFree_switchTask _).bind fun _ => accessFree_throw _

theorem accessFree_processWait (around : Surroundings) (processID : UInt64) :
    AccessFree (osServiceProcessWait around processID) :=
  (accessFree_switchTask _).bind fun _ => (accessFree_resumes around).bind fun _ => AccessFree.pure _

theorem accessFree_memory (size : UInt64) : AccessFree (osServiceMemory size) :=
  accessFree_get.bind fun _ => (accessFree_changeSystem _).bind fun _ => AccessFree.pure _

/-! ## Section 3: Loops over a buffer -/

/-- Accesses of one kind, from index `start` on. -/
def touched (kind : AccessKind) (pointer : UInt64) (start count : Nat) : List CallerAccess :=
  (List.range' start count).map fun i => ⟨kind, pointer + UInt64.ofNat i⟩

@[simp] theorem touched_zero (kind : AccessKind) (pointer : UInt64) (start : Nat) :
    touched kind pointer start 0 = [] := rfl

theorem touched_succ (kind : AccessKind) (pointer : UInt64) (start count : Nat) :
    touched kind pointer start (count + 1) =
      ⟨kind, pointer + UInt64.ofNat start⟩ :: touched kind pointer (start + 1) count := by
  unfold touched
  rw [List.range'_succ, List.map_cons]

theorem append_touched_succ (accesses : List CallerAccess) (kind : AccessKind) (pointer : UInt64)
    (start count : Nat) : accesses ++ touched kind pointer start (count + 1) =
      (accesses ++ [⟨kind, pointer + UInt64.ofNat start⟩]) ++
        touched kind pointer (start + 1) count := by
  rw [touched_succ, List.append_assoc, List.singleton_append]

theorem mem_touched {kind : AccessKind} {pointer : UInt64} {start count : Nat}
    {access : CallerAccess} : access ∈ touched kind pointer start count ↔
      ∃ i, start ≤ i ∧ i < start + count ∧ access = ⟨kind, pointer + UInt64.ofNat i⟩ := by
  simp only [touched, List.mem_map, List.mem_range'_1, and_assoc, eq_comm]

/-- The program touches the given bytes, or the first ones of them if it stops. -/
def Touches (kind : AccessKind) (pointer : UInt64) (start count : Nat) (program : SystemCallM Unit) :
    Prop :=
  ∀ accesses, Triple (fun s => s.accesses = accesses) program
    (fun _ s => s.accesses = accesses ++ touched kind pointer start count)
    fun s => s.accesses <+: accesses ++ touched kind pointer start count

theorem touches_pure (kind : AccessKind) (pointer : UInt64) (start : Nat) :
    Touches kind pointer start 0 (pure ()) :=
  fun _ => .pure () fun s hs => by simpa using hs

/-- A turn that touches one byte, and then the other turns. -/
theorem Touches.cons {α : Type} {kind : AccessKind} {pointer : UInt64} {start count : Nat}
    {turn : SystemCallM α} {rest : α → SystemCallM Unit}
    (hturn : ∀ accesses, Triple (fun s => s.accesses = accesses) turn
      (fun _ s => s.accesses = accesses ++ [⟨kind, pointer + UInt64.ofNat start⟩])
      fun s => s.accesses = accesses)
    (hrest : ∀ a, Touches kind pointer (start + 1) count (rest a)) :
    Touches kind pointer start (count + 1) (turn >>= rest) := by
  intro accesses
  rw [append_touched_succ]
  refine Triple.bind ((hturn accesses).weaken (fun _ => id) (fun _ _ => id) fun s hs => ?_)
    fun a => hrest a _
  rw [hs, List.append_assoc]
  exact List.prefix_append _ _

theorem loadByte_triple (system : SystemState) (address : UInt64) (accesses : List CallerAccess) :
    Triple (fun s => s.system = system ∧ s.accesses = accesses) (loadByte address)
      (fun value s => system.byteAt address.toNat = some value ∧ s.system = system ∧
        s.accesses = accesses ++ [⟨.load, address⟩])
      fun s => s.accesses = accesses := by
  rintro s ⟨rfl, rfl⟩
  unfold loadByte
  cases s.system.byteAt address.toNat with
  | none => rfl
  | some value => exact ⟨rfl, rfl, rfl⟩

theorem loadByte_accesses (address : UInt64) (accesses : List CallerAccess) :
    Triple (fun s => s.accesses = accesses) (loadByte address)
      (fun _ s => s.accesses = accesses ++ [⟨.load, address⟩]) fun s => s.accesses = accesses := by
  intro s hs
  have h := loadByte_triple s.system address accesses s ⟨rfl, hs⟩
  split at h
  · exact h.2.2
  · exact h

theorem storeByte_accesses (address : UInt64) (value : UInt8) (accesses : List CallerAccess) :
    Triple (fun s => s.accesses = accesses) (storeByte address value)
      (fun _ s => s.accesses = accesses ++ [⟨.store, address⟩]) fun s => s.accesses = accesses := by
  rintro s rfl
  unfold storeByte
  cases s.system.setByte address.toNat value with
  | none => rfl
  | some system => rfl

/-- Nothing is touched before. -/
theorem AccessFree.touches {α : Type} {kind : AccessKind} {pointer : UInt64} {start count : Nat}
    {first : SystemCallM α} {rest : α → SystemCallM Unit} (h : AccessFree first)
    (hrest : ∀ a, Touches kind pointer start count (rest a)) :
    Touches kind pointer start count (first >>= rest) := by
  intro accesses
  refine Triple.bind ((h accesses).weaken (fun _ => id) (fun _ _ => id) fun s hs => ?_)
    fun a => hrest a accesses
  rw [hs]
  exact List.prefix_append _ _

/-- `SYS_WRITE` reads its buffer from front to back, whatever is mapped there. -/
theorem writeLoop_touches (string : UInt64) (count i : Nat) :
    Touches .load string i count (writeLoop string count (UInt64.ofNat i)) := by
  induction count generalizing i with
  | zero => exact touches_pure _ _ _
  | succ count ih =>
    unfold writeLoop
    apply Touches.cons (loadByte_accesses _)
    intro character
    apply (accessFree_changeSystem _).touches
    intro _
    rw [← UInt64.ofNat_one, ← UInt64.ofNat_add]
    exact ih (i + 1)

/-- `SYS_READ` writes its buffer from front to back. -/
theorem readLoop_touches (around : Surroundings) (turns : Nat) (readBuffer : UInt64)
    (count i : Nat) : Touches .store readBuffer i count
      (readLoop around turns readBuffer count (UInt64.ofNat i)) := by
  induction count generalizing i with
  | zero => exact touches_pure _ _ _
  | succ count ih =>
    unfold readLoop
    apply (accessFree_getCharacter around turns).touches
    intro character
    apply Touches.cons (storeByte_accesses _ character)
    intro _
    rw [← UInt64.ofNat_one, ← UInt64.ofNat_add]
    exact ih (i + 1)

/-! ## Section 4: The path -/

/-- The loop over the path reads it up to its NUL, or up to a byte that it cannot read. -/
theorem findLastOccurrence_triple (system : SystemState) (string : UInt64) {separator : UInt8}
    (hseparator : separator ≠ 0) (turns i : Nat) (lastSeparator : Option Nat)
    (accesses : List CallerAccess) (hbefore : system.NoNulBefore string i) :
    Triple (fun s => s.system = system ∧ s.accesses = accesses)
      (stringFindLastOccurrence string separator turns i lastSeparator)
      (fun found s => s.system = system ∧
        s.accesses = accesses ++ touched .load string i (found.1.length + 1) ∧
        system.NoNulBefore string (i + found.1.length) ∧
        system.byteAt (string + UInt64.ofNat (i + found.1.length)).toNat = some 0 ∧
        ∀ k, found.2 = some k → k < i + found.1.length ∨ lastSeparator = some k)
      fun s => ∃ count, s.accesses = accesses ++ touched .load string i count ∧
        ∀ j < count, system.NoNulBefore string (i + j) := by
  -- Induction on the turns; the accesses grow by one load a turn.
  induction turns generalizing i lastSeparator accesses with
  | zero => exact .throw _ fun s hs => ⟨0, by simpa using hs.2, by simp⟩
  | succ turns ih =>
    unfold stringFindLastOccurrence
    refine Triple.bind ((loadByte_triple system _ accesses).weaken (fun _ => id) (fun _ _ => id)
      fun s hs => ⟨0, by simpa using hs, by simp⟩) fun character => Triple.assume fun hbyte => ?_
    dsimp only
    split
    · next hzero =>
      subst hzero
      refine .pure _ fun s hs => ⟨hs.1, hs.2, hbefore, hbyte, fun k hk => .inr ?_⟩
      rwa [if_neg hseparator.symm] at hk
    · next hne =>
      -- The byte that was read is not a NUL either.
      have hnext : system.NoNulBefore string (i + 1) := by
        intro j hj
        rcases Nat.lt_succ_iff_lt_or_eq.mp hj with hlt | rfl
        · exact hbefore j hlt
        · rw [hbyte]
          exact fun heq => hne (Option.some.inj heq)
      refine Triple.bind ((ih (i + 1) _ _ hnext).weaken (fun _ => id) (fun _ _ => id) ?_)
        fun rest => .pure _ ?_
      -- The loop below faults: the loads up to the fault are of this turn and of the rest.
      · rintro s ⟨count, haccesses, hcount⟩
        refine ⟨count + 1, by rw [haccesses, append_touched_succ], fun j hj => ?_⟩
        cases j with
        | zero => exact hbefore
        | succ j =>
          rw [← Nat.add_assoc, Nat.add_right_comm]
          exact hcount j (by omega)
      -- It ends: what it returns is counted from one byte further on.
      · rintro s ⟨hsystem, haccesses, hnone, hnul, hlast⟩
        have hlength : i + (character :: rest.1).length = i + 1 + rest.1.length := by
          rw [List.length_cons]
          omega
        dsimp only
        rw [hlength]
        refine ⟨hsystem, by rw [haccesses, List.length_cons, ← append_touched_succ], hnone, hnul,
          fun k hk => ?_⟩
        rcases hlast k hk with hlt | hsome
        · exact .inl hlt
        · split at hsome
          · exact .inl (by have := Option.some.inj hsome; omega)
          · exact .inr hsome

/-- No comparison reads behind the end of the second string. -/
theorem stringCompareReads_le_length (firstString : Memory) (secondString : List UInt8) :
    stringCompareReads firstString secondString ≤ secondString.length + 1 := by
  induction secondString generalizing firstString with
  | nil => exact Nat.le_refl 1
  | cons c cs ih =>
    unfold stringCompareReads
    split
    · have hrest := ih (firstString.advance 1)
      rw [List.length_cons]
      omega
    · omega

section Reads

variable {k : Kernel} {path : List UInt8} {i : Nat}

theorem openPathLoopReads_le {start fuel nodeIterator : Nat} (hstart : start ≤ path.length)
    (hi : i ∈ k.openPathLoopReads (path.drop start) start fuel nodeIterator) : i ≤ path.length := by
  induction fuel generalizing nodeIterator with
  | zero => simp [Kernel.openPathLoopReads] at hi
  | succ fuel ih =>
    unfold Kernel.openPathLoopReads at hi
    split at hi
    · simp at hi
    · rcases List.mem_append.mp hi with hcompare | hrest
      · have hle := stringCompareReads_le_length (k.volume.node nodeIterator).name (path.drop start)
        have hlt := (List.mem_range'_1.mp hcompare).2
        rw [List.length_drop] at hle
        omega
      · split at hrest
        · simp at hrest
        · exact ih hrest

theorem zeroPadded_length (string : List UInt8) : Memory.zeroPadded string string.length = 0 := by
  simp [Memory.zeroPadded]

/-- `FSVirtualFileSystemOpenPath` reads nothing behind the NUL of the path. -/
theorem openPathReads_le (hi : i ∈ k.openPathReads path) : i ≤ path.length := by
  unfold Kernel.openPathReads at hi
  split at hi
  · simp at hi
  rcases List.mem_append.mp hi with hroot | hrest
  · have hle := stringCompareReads_le (zeroPadded_length path) ['/'.toUInt8]
    have hlt := List.mem_range.mp hroot
    omega
  split at hrest
  · simp at hrest
  dsimp only at hrest
  rcases List.mem_cons.mp hrest with rfl | hloop
  · exact Nat.zero_le _
  refine openPathLoopReads_le ?_ hloop
  split
  · next hhead =>
    cases path with
    | nil => simp at hhead
    | cons c cs => exact Nat.le_add_left 1 cs.length
  · exact Nat.zero_le _

/-- `OSLoaderProcessSpawn` reads nothing behind the NUL of the path. -/
theorem processSpawnReads_le {name : Nat} (hname : name ≤ path.length)
    (hi : i ∈ k.processSpawnReads path name) : i ≤ path.length := by
  rcases List.mem_append.mp hi with hopen | hcopy
  · exact openPathReads_le hopen
  split at hcopy
  · simp at hcopy
  · simp at hcopy
  split at hcopy
  · simp at hcopy
  · simp at hcopy
  have hle := stringCopyWithLimitReads_le (zeroPadded_length (path.drop name)) 31
  have hlt := (List.mem_range'_1.mp hcopy).2
  rw [List.length_drop] at hle
  omega

end Reads

/-- The loader reads parts of the path again. -/
theorem processSpawn_triple (around : Surroundings) (path : UInt64) (characters : List UInt8)
    (name : Nat) (system : SystemState) (accesses : List CallerAccess) :
    Triple (fun s => s.system = system ∧ s.accesses = accesses)
      (processSpawn around path characters name)
      (fun _ s => s.accesses = accesses ++
        (system.kernel.processSpawnReads characters name).map fun i =>
          CallerAccess.mk .load (path + UInt64.ofNat i))
      fun s => s.accesses = accesses ++
        (system.kernel.processSpawnReads characters name).map fun i =>
          CallerAccess.mk .load (path + UInt64.ofNat i) := by
  rintro s ⟨rfl, rfl⟩
  unfold processSpawn
  dsimp only
  rcases s.system.kernel.osLoaderProcessSpawn around.others characters (characters.drop name) with
    - | panic | result
  · rfl
  · rfl
  · rfl

/-- The accesses are reads of a string, up to its NUL. -/
def StringReads (system : SystemState) (string : UInt64) (accesses : List CallerAccess) : Prop :=
  ∀ access ∈ accesses,
    ∃ i, system.NoNulBefore string i ∧ access.address = string + UInt64.ofNat i

theorem StringReads.touched {system : SystemState} {string : UInt64} {count : Nat}
    (h : ∀ j < count, system.NoNulBefore string j) :
    StringReads system string (touched .load string 0 count) := by
  intro access haccess
  obtain ⟨i, -, hi, rfl⟩ := mem_touched.mp haccess
  exact ⟨i, h i (by omega), rfl⟩

/-- What `SYS_SPAWN` reads lies in its path, and includes all of it if the call returns. -/
theorem osServiceProcessSpawn_triple (around : Surroundings) (turns : Nat) (system : SystemState)
    (path : UInt64) :
    Triple (fun s => s.system = system ∧ s.accesses = [])
      (osServiceProcessSpawn around turns path)
      (fun _ s => StringReads system path s.accesses ∧ ∀ i, system.NoNulBefore path i →
        ∃ access ∈ s.accesses, access.address = path + UInt64.ofNat i)
      fun s => StringReads system path s.accesses := by
  unfold osServiceProcessSpawn
  refine Triple.bind ((findLastOccurrence_triple system path (by decide) turns 0 none []
    fun j hj => absurd hj (Nat.not_lt_zero j)).weaken (fun _ => id) (fun _ _ => id) ?_)
    fun found => ?_
  · rintro s ⟨count, haccesses, hcount⟩
    rw [haccesses, List.nil_append]
    exact StringReads.touched fun j hj => by simpa using hcount j hj
  simp only [Nat.zero_add, List.nil_append]
  intro s
  rintro ⟨hsystem, haccesses, hnone, hnul, hlast⟩
  have hname : nameStart found.2 ≤ found.1.length := by
    cases hfound : found.2 with
    | none => exact Nat.zero_le _
    | some i => exact (hlast i hfound).resolve_right (by simp)
  have hbefore : ∀ {i}, i ≤ found.1.length → system.NoNulBefore path i :=
    fun hi j hj => hnone j (Nat.lt_of_lt_of_le hj hi)
  have hloop : StringReads system path (touched .load path 0 (found.1.length + 1)) :=
    StringReads.touched fun j hj => hbefore (Nat.le_of_lt_succ hj)
  -- the loop has read the whole path, and the loader reads no other bytes
  have hreads : StringReads system path (touched .load path 0 (found.1.length + 1) ++
      (system.kernel.processSpawnReads found.1 (nameStart found.2)).map fun i =>
        CallerAccess.mk .load (path + UInt64.ofNat i)) := by
    intro access haccess
    rcases List.mem_append.mp haccess with hfirst | hloader
    · exact hloop access hfirst
    · obtain ⟨i, hi, rfl⟩ := List.mem_map.mp hloader
      exact ⟨i, hbefore (processSpawnReads_le hname hi), rfl⟩
  refine (processSpawn_triple around path found.1 (nameStart found.2) system _).weaken
    (fun _ => id) ?_ ?_ s ⟨hsystem, haccesses⟩
  · intro _ s' hs'
    rw [hs']
    refine ⟨hreads, fun i hi => ⟨⟨.load, path + UInt64.ofNat i⟩, List.mem_append_left _ ?_, rfl⟩⟩
    have hle : i ≤ found.1.length := by
      by_contra hlt
      exact hi found.1.length (Nat.lt_of_not_le hlt) hnul
    exact mem_touched.mpr ⟨i, Nat.zero_le i, by omega, rfl⟩
  · intro s' hs'
    rw [hs']
    exact hreads

/-! ## Section 5: A whole call -/

/-- The accesses are those of a call that follows its pointer, and lie in what it passes. -/
def Within (call : SystemCall) (system : SystemState) (accesses : List CallerAccess) : Prop :=
  ∀ access ∈ accesses, call.FollowsPointer ∧
    ∃ i, call.Passes system i ∧ access.address = call.pointer + UInt64.ofNat i

/-- A call that follows its pointer has accessed all that it passes. -/
def Covers (call : SystemCall) (system : SystemState) (accesses : List CallerAccess) : Prop :=
  call.FollowsPointer → ∀ i, call.Passes system i →
    ∃ access ∈ accesses, access.address = call.pointer + UInt64.ofNat i

/-- What a system call has accessed, whether it stops or returns. -/
def Accounts (call : SystemCall) (system : SystemState) (program : SystemCallM UInt64) : Prop :=
  Triple (fun s => s.system = system ∧ s.accesses = []) program
    (fun _ s => Within call system s.accesses ∧ Covers call system s.accesses)
    fun s => Within call system s.accesses

/-- A call that passes nothing, or refuses what it passes. -/
theorem AccessFree.accounts {call : SystemCall} {system : SystemState}
    {program : SystemCallM UInt64} (h : AccessFree program) (hcall : ¬ call.FollowsPointer) :
    Accounts call system program := by
  have hwithin : Within call system [] := fun access haccess => absurd haccess List.not_mem_nil
  apply (h []).weaken
  · exact fun s hs => hs.2
  · intro _ s hs
    rw [hs]
    exact ⟨hwithin, fun hfollows => absurd hfollows hcall⟩
  · intro s hs
    rw [hs]
    exact hwithin

/-- A loop over the buffer that the call passes. -/
theorem Touches.accounts {call : SystemCall} {system : SystemState} {kind : AccessKind}
    {program : SystemCallM Unit} {length : UInt64}
    (h : Touches kind call.pointer 0 length.toNat program) (hfollows : call.FollowsPointer)
    (hpasses : ∀ i, call.Passes system i ↔ i < length.toNat) :
    Accounts call system (program >>= fun _ => pure length) := by
  have hwithin : Within call system (touched kind call.pointer 0 length.toNat) := by
    intro access haccess
    obtain ⟨i, -, hi, rfl⟩ := mem_touched.mp haccess
    exact ⟨hfollows, i, (hpasses i).mpr (by omega), rfl⟩
  refine Triple.bind ((h []).weaken (fun s hs => hs.2) (fun _ _ => id) ?_) fun _ => .pure _ ?_
  · intro s hs access haccess
    exact hwithin access (hs.subset haccess)
  · intro s hs
    rw [List.nil_append] at hs
    rw [hs]
    refine ⟨hwithin, fun _ i hi => ⟨⟨kind, call.pointer + UInt64.ofNat i⟩, ?_, rfl⟩⟩
    exact mem_touched.mpr ⟨i, Nat.zero_le i, by have := (hpasses i).mp hi; omega, rfl⟩

theorem dispatch_accounts (around : Surroundings) (turns : Nat) (call : SystemCall)
    (system : SystemState) : Accounts call system (syscallDispatch around turns call) := by
  unfold syscallDispatch
  -- By the service; only those that follow a pointer access memory of the caller.
  cases hservice : call.service with
  | none =>
    refine AccessFree.accounts ?_ (by simp [SystemCall.FollowsPointer, hservice])
    exact (accessFree_consoleLog _ _ _).bind fun _ => AccessFree.pure _
  | some service =>
    cases service with
    | exit =>
      exact ((accessFree_processExit around turns _).map _).accounts
        (by simp [SystemCall.FollowsPointer, hservice])
    | spawn =>
      have hpointer : call.pointer = call.arg1 := if_pos hservice
      -- The path is passed up to its NUL, wherever that is.
      have hpasses : call.Passes system = system.NoNulBefore call.arg1 := by
        funext i
        simp only [SystemCall.Passes, hservice]
      have hfollows : call.FollowsPointer := by simp [SystemCall.FollowsPointer, hservice]
      have hwithin : ∀ accesses, StringReads system call.arg1 accesses →
          Within call system accesses := by
        intro accesses h access haccess
        rw [hpasses, hpointer]
        exact ⟨hfollows, h access haccess⟩
      refine Triple.bind ((osServiceProcessSpawn_triple around turns system call.arg1).weaken
        (fun _ => id) (fun _ _ => id) fun s hs => hwithin _ hs) fun _ => .pure _ ?_
      rintro s ⟨hreads, hall⟩
      refine ⟨hwithin _ hreads, fun _ => ?_⟩
      rw [hpasses, hpointer]
      exact hall
    | mem =>
      exact (accessFree_memory _).accounts (by simp [SystemCall.FollowsPointer, hservice])
    | write =>
      have hpointer : call.pointer = call.arg2 := if_neg (by rw [hservice]; decide)
      -- The buffer is passed with its size.
      have hpasses : ∀ i, call.Passes system i ↔ i < call.arg3.toNat := fun i => by
        simp only [SystemCall.Passes, hservice]
      dsimp only
      unfold osServiceIOWrite
      split
      · next hdescriptor =>
        rw [← hpointer]
        apply (writeLoop_touches call.pointer call.arg3.toNat 0).accounts _ hpasses
        simpa only [SystemCall.FollowsPointer, hservice] using hdescriptor
      · next hdescriptor =>
        apply (AccessFree.pure _).accounts
        simpa only [SystemCall.FollowsPointer, hservice] using hdescriptor
    | read =>
      have hpointer : call.pointer = call.arg2 := if_neg (by rw [hservice]; decide)
      have hpasses : ∀ i, call.Passes system i ↔ i < call.arg3.toNat := fun i => by
        simp only [SystemCall.Passes, hservice]
      dsimp only
      unfold osServiceIORead
      split
      · next hdescriptor =>
        rw [← hpointer]
        apply (readLoop_touches around turns call.pointer call.arg3.toNat 0).accounts _ hpasses
        simpa only [SystemCall.FollowsPointer, hservice] using hdescriptor
      · next hdescriptor =>
        apply (AccessFree.pure _).accounts
        simpa only [SystemCall.FollowsPointer, hservice] using hdescriptor
    | wait =>
      exact ((accessFree_processWait around _).map _).accounts
        (by simp [SystemCall.FollowsPointer, hservice])

/-- A service that does not accept the file descriptor returns 0, and a call that passes
nothing has nothing to refuse. -/
theorem refuses_of_not_follows (around : Surroundings) (turns : Nat) (s : SystemState)
    (call : SystemCall) (hfollows : ¬ call.FollowsPointer) (hmemory : ¬ call.InUserMemory s) :
    Refuses around turns s call := by
  have hzero : syscallDispatch around turns call = pure 0 ∨ ∀ i, ¬ call.Passes s i := by
    revert hfollows
    unfold syscallDispatch SystemCall.FollowsPointer SystemCall.Passes
    rcases call.service with - | service
    · exact fun _ => .inr fun _ => id
    · cases service with
      | exit => exact fun _ => .inr fun _ => id
      | spawn => exact fun hfollows => absurd trivial hfollows
      | mem => exact fun _ => .inr fun _ => id
      | write => exact fun hfollows => .inl (if_neg hfollows)
      | read => exact fun hfollows => .inl (if_neg hfollows)
      | wait => exact fun _ => .inr fun _ => id
  rcases hzero with hzero | hnothing
  · exact ⟨0, ⟨s, []⟩, by rw [hzero]; rfl, rfl, rfl, rfl⟩
  · exact absurd (fun i hi => absurd hi (hnothing i)) hmemory

/-- What the accounts say of the accesses of a call. -/
theorem callerAccesses_within (around : Surroundings) (turns : Nat) (s : SystemState)
    (call : SystemCall) : Within call s (callerAccesses around turns s call) := by
  have haccounts := dispatch_accounts around turns call s ⟨s, []⟩ ⟨rfl, rfl⟩
  unfold callerAccesses
  split at haccounts
  · next hrun =>
    rw [hrun]
    exact haccounts.1
  · next hrun =>
    rw [hrun]
    exact haccounts

/-- A call that follows its pointer refuses nothing that it is to access. -/
theorem inUserMemory_of_respects {around : Surroundings} {turns : Nat} {s : SystemState}
    {call : SystemCall} (h : RespectsBoundary around turns s call)
    (hfollows : call.FollowsPointer) : call.InUserMemory s := by
  by_contra hmemory
  obtain ⟨value, s', hrun, hnone, -⟩ := h.refuses hmemory
  have hcovers := ((dispatch_accounts around turns call s).ok ⟨rfl, rfl⟩ hrun).2 hfollows
  apply hmemory
  intro i hi
  obtain ⟨access, haccess, -⟩ := hcovers i hi
  rw [hnone] at haccess
  exact absurd haccess List.not_mem_nil

/-- For every system call and all arguments, in every state and whatever happens while the
caller waits: the kernel touches user memory of the caller only, and refuses all other
pointers with memory unchanged, exactly when the service does not follow the pointer or all
that the caller passes is mapped for ring 3. No service looks at the page tables. -/
theorem respectsBoundary_iff (around : Surroundings) (turns : Nat) (s : SystemState)
    (call : SystemCall) :
    RespectsBoundary around turns s call ↔ (call.FollowsPointer → call.InUserMemory s) := by
  constructor
  · exact inUserMemory_of_respects
  · intro h
    constructor
    · intro access haccess
      obtain ⟨hfollows, i, hpasses, haddress⟩ := callerAccesses_within around turns s call access haccess
      rw [haddress]
      exact h hfollows i hpasses
    · intro hmemory
      exact refuses_of_not_follows around turns s call (fun hfollows => hmemory (h hfollows)) hmemory

/-- A first process runs, and one key has been typed. -/
def firstProcess (vm : VMState) (pml4 : Nat) (key : UInt8) : SystemState where
  kernel := {
    vm := vm
    scheduler := {
      task := Function.update (fun _ => .zero) 64 { OSTask.zero with
        next := 64
        taskState := .running
        process := 128 }
      process := fun _ => ⟨1, pml4⟩
      kernelProcess := 0
      currentTask := 64
      garbageCollectorTask := 0
      collector := ⟨.enter, 0, 0, 0⟩
      pending := fun _ => none
      live := [(64, sizeofTask)]
      linked := [64]
      freed := []
      memory := fun _ => 0
      cr3 := pml4
      rsp0 := 0
      kernelStackPointer := 0 }
    sVMHeapListHead := 0
    volume := ⟨fun _ => .zero, 0⟩
    gFSVirtualFileSystemRoot := 0
    process := fun _ => { ProcessRecord.zero with physicalPML4 := pml4, state := .running }
    gOSSchedulerNextProcessID := 2
    spaces := [pml4] }
  console := ⟨[], none, ⟨0, 0⟩, ⟨⟨8, 16⟩, fun _ => 0⟩, 0, 0, 0⟩
  keyboard := { IOKeyboardController.zero with buffer := IOKeyboardController.zero.buffer.put key }
  writeProtect := true

/-- After boot the 8 MiB machine has a frame for the page tables of a first process, and the
direct map reaches the kernel's image from there. -/
theorem exists_directMapped : ∃ σ₀ pml4, VMRun.boot heapMachine = some σ₀ ∧
    (σ₀.step .createAddressSpace).spaces = [pml4] ∧
    (σ₀.step .createAddressSpace).vm.walk pml4 0xFFFF888000100000 =
      some (0x100000, pteKernelData) ∧
    (σ₀.step .createAddressSpace).vm.Writable pml4 0xFFFF888000100000 ∧
    ¬ (σ₀.step .createAddressSpace).vm.UserAccessible pml4 0xFFFF888000100000 := by
  obtain ⟨heap, s, hheap, -⟩ := heapMachine_bootHeap
  obtain ⟨s₀, f, hs₀, hf, -⟩ := bootHeap_eq_some hheap
  have hframes := Machine.findsFrames_of_free heapMachine_accepted hs₀ hf
  obtain ⟨σ₀, hboot⟩ := exists_boot heapMachine_accepted
  obtain ⟨pmm, role, hpmm, htotal, hkeeps⟩ :=
    boot_keepsDirectMap heapMachine_accepted heapMachine_fitsDirectMap.sparesDirectMap hframes hboot
  have hsize : maxPhysicalAddress heapMachine.memoryMap = 0x800000 := by decide
  have hvm : σ₀.vm = s₀ ∧ σ₀.spaces = [] := by
    rw [VMRun.boot, hpmm, Option.map_some] at hboot
    rw [Machine.boot, hpmm, Option.map_some] at hs₀
    obtain rfl := Option.some.inj hboot
    obtain rfl := Option.some.inj hs₀
    exact ⟨rfl, bootRun_spaces heapMachine pmm⟩
  have hcall : σ₀.SparesDirectMap pmm.totalMemorySize .createAddressSpace := trivial
  obtain ⟨role', hstep⟩ := hkeeps.step (by omega) hcall
  rcases createAddressSpace_cases hkeeps.wellFormed hkeeps.isInitialized with
    ⟨hfull, -⟩ | ⟨pml4, s', heq, hne, -⟩
  · rw [hvm.1] at hfull
    exact absurd hf (freeCount_eq_zero_iff.mp hfull f)
  have hspaces : (σ₀.step .createAddressSpace).spaces = [pml4] := by
    simp only [VMRun.step, heq, if_neg hne, hvm.2]
  have hroot : pml4 ∈ (σ₀.step .createAddressSpace).roots :=
    List.mem_cons_of_mem _ (by rw [hspaces]; exact List.mem_singleton_self pml4)
  have himage : 0x100 * kVMPageSize < pmm.totalMemorySize := by
    rw [htotal, hsize]
    decide
  exact ⟨σ₀, pml4, hboot, hspaces, hstep.page hroot himage (by decide)⟩

/-- A byte of a frame is written through the direct map. -/
theorem SystemState.exists_setByte {s : SystemState} {address frame flags : Nat} (value : UInt8)
    (hcanonical : Canonical address)
    (hwalk : s.kernel.vm.walk s.kernel.scheduler.cr3 address = some (frame, flags))
    (hwritable : s.kernel.vm.Writable s.kernel.scheduler.cr3 address)
    (hdirect : address = physToHhdm (frame + address % kVMPageSize)) :
    ∃ s', s.setByte address value = some s' ∧
      s'.kernel.vm.mem (frame + address % kVMPageSize) = value := by
  have hphysical : s.physical address = some (frame + address % kVMPageSize) := by
    rw [SystemState.physical, if_pos hcanonical, hwalk, Option.map_some]
  have hframe : ¬ KernelMemory address (frame + address % kVMPageSize) := fun h => h.2 hdirect
  have hcan : s.CanWrite address := fun _ => hwritable
  rw [SystemState.setByte, hphysical, Option.bind_some, if_pos hcan, if_neg hframe]
  exact ⟨_, rfl, Memory.setByte_same _ _ _⟩

/-- `SYS_READ` of one byte, when a key has been typed. -/
theorem dispatch_read_one (around : Surroundings) {s s' : SystemState} {address : UInt64}
    (hkey : s.keyboard.buffer.head ≠ s.keyboard.buffer.tail)
    (hset : SystemState.setByte { s with keyboard := { s.keyboard with
      buffer := s.keyboard.buffer.drop } } address.toNat
        (s.keyboard.buffer.cells s.keyboard.buffer.tail) = some s') :
    syscallDispatch around 1 ⟨4, 0, address, 1, 0, 0⟩ ⟨s, []⟩ =
      .ok 1 ⟨s', [⟨.store, address⟩]⟩ := by
  have hcharacter : ioKeyboardGetCharacter around 1 ⟨s, []⟩ =
      .ok (s.keyboard.buffer.cells s.keyboard.buffer.tail)
        ⟨{ s with keyboard := { s.keyboard with buffer := s.keyboard.buffer.drop } }, []⟩ := by
    unfold ioKeyboardGetCharacter
    apply Eq.trans (bind_of_ok rfl)
    dsimp only
    rw [if_pos hkey]
    rfl
  have hstore : storeByte (address + 0) (s.keyboard.buffer.cells s.keyboard.buffer.tail)
      ⟨{ s with keyboard := { s.keyboard with buffer := s.keyboard.buffer.drop } }, []⟩ =
      .ok () ⟨s', [⟨.store, address⟩]⟩ := by
    rw [UInt64.add_zero]
    unfold storeByte
    rw [hset]
    rfl
  have hloop : readLoop around 1 address 1 0 ⟨s, []⟩ = .ok () ⟨s', [⟨.store, address⟩]⟩ := by
    unfold readLoop
    exact (bind_of_ok hcharacter).trans (bind_of_ok hstore)
  exact bind_of_ok hloop

/-- On the 8 MiB machine `SYS_READ` puts a key that has been typed into the kernel's own
image, through the direct map, for a first process. -/
theorem read_overwrites_kernelImage : ∃ σ₀ pml4, VMRun.boot heapMachine = some σ₀ ∧
    (σ₀.step .createAddressSpace).spaces = [pml4] ∧ ∀ around,
    (∃ s', syscallDispatch around 1 ⟨4, 0, 0xFFFF888000100000, 1, 0, 0⟩
        ⟨firstProcess (σ₀.step .createAddressSpace).vm pml4 'a'.toUInt8, []⟩ = .ok 1 s' ∧
      s'.system.kernel.vm.mem 0x100000 = 'a'.toUInt8) ∧
    ¬ RespectsBoundary around 1 (firstProcess (σ₀.step .createAddressSpace).vm pml4 'a'.toUInt8)
      ⟨4, 0, 0xFFFF888000100000, 1, 0, 0⟩ := by
  obtain ⟨σ₀, pml4, hboot, hspaces, hwalk, hwritable, hprivate⟩ := exists_directMapped
  refine ⟨σ₀, pml4, hboot, hspaces, fun around => ⟨?_, fun h => ?_⟩⟩
  · obtain ⟨s', hset, hbyte⟩ := SystemState.exists_setByte
      (s := { firstProcess (σ₀.step .createAddressSpace).vm pml4 'a'.toUInt8 with
        keyboard := { IOKeyboardController.zero with
          buffer := (IOKeyboardController.zero.buffer.put 'a'.toUInt8).drop } })
      'a'.toUInt8 (by decide) hwalk hwritable (by decide)
    have hkey : (IOKeyboardController.zero.buffer.put 'a'.toUInt8).head ≠
        (IOKeyboardController.zero.buffer.put 'a'.toUInt8).tail := by decide
    exact ⟨⟨s', _⟩, dispatch_read_one around hkey hset, hbyte⟩
  · -- the call follows its pointer, which is not the caller's
    have huser := inUserMemory_of_respects h rfl 0 (show 0 < 1 from Nat.one_pos)
    exact hprivate huser.2

end TermOS.OS
