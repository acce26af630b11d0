import TermOS.OS.Processor

/-!
# Spinlocks on one processor

A spinlock that is held when it is taken is never given back, since nobody else
runs. Every path through the kernel is checked once with an automaton that knows
which locks are held, whether interrupts are known to be off and which saved
flags are known to be clear; the check carries over to every run.

## Main Theorems

* `locksTracked_run` - the automaton describes every state of every run
* `spinlocks_safe` - no lock is held when IF is 1 or at `int $32`, no lock is
  found taken, and an unlock restores IF
-/

namespace TermOS.OS

open TermOS.Lib KernelCode

/-! ## Section 1: The automaton -/

/-- What is known of the locks and of IF at one point of a path. -/
structure LockView where
  /-- IF is known to be 0. -/
  off : Bool
  /-- The locks that are held, the last one first. -/
  held : List OSSpinlock
  /-- For each saved `interruptsEnabled`, whether it may be set. -/
  saved : List Bool
  deriving DecidableEq

/-- One instruction. The automaton gets stuck where a lock would be held while
IF may be 1, where a lock would be taken twice and where a task or an interrupt
would be left with a lock held. -/
def lockStep : Instruction → LockView → Option LockView
  | .readFlags, v => some { v with saved := (!v.off) :: v.saved }
  | .cli, v => some { v with off := true }
  | .sti, v => if v.held = [] then some { v with off := false } else none
  | .stiIfEnabled, v =>
    match v.saved with
    | maySet :: saved =>
      -- IF is 0 until here, and becomes what was saved
      if v.off = true ∧ (maySet = false ∨ v.held = []) then some ⟨!maySet, v.held, saved⟩ else none
    | [] => none
  | .exchange lock, v =>
    if v.off = true ∧ lock ∉ v.held then some { v with held := lock :: v.held } else none
  | .store lock, v =>
    match v.held with
    | last :: held => if last = lock ∧ lock ∉ held then some { v with held := held } else none
    | [] => none
  | .sysret, v => if v.held = [] ∧ v.saved = [] then some ⟨false, [], []⟩ else none
  | .int32, v | .int3, v | .iretq, v => if v.held = [] then some v else none
  | _, v => some v

/-- Nothing is known. -/
def LockView.unknown : LockView := ⟨false, [], []⟩

/-- IF is 0 and no lock is held, as behind an interrupt gate. -/
def LockView.masked : LockView := ⟨true, [], []⟩

/-! ## Section 2: The check -/

theorem checkPaths_kernelCall : checkPaths lockStep kernelCall .unknown = some .unknown := by
  decide +kernel

theorem checkPaths_syscallEntry (id : Nat) :
    checkPaths lockStep (syscallEntry id) .unknown = some .unknown := by
  unfold syscallEntry
  unfold syscallDispatch
  split
  all_goals decide +kernel

theorem checkPaths_irqHandler (number : Nat) :
    checkPaths lockStep (irqHandler number) .masked = some .masked := by
  unfold irqHandler
  unfold irqHandlerC
  split
  all_goals decide +kernel

theorem checkPaths_isrCommonStub (number : Nat) :
    checkPaths lockStep (isrCommonStub number) .masked = some .masked := by
  unfold isrCommonStub
  unfold isrHandlerC
  split
  all_goals decide +kernel

/-! ## Section 3: What the automaton says of a state -/

namespace LockView

/-- IF and the saved flags are as the view says. -/
structure Describes (v : LockView) (interruptsEnabled : Bool) (states : List Bool) : Prop where
  off : v.off = true → interruptsEnabled = false
  held : v.held ≠ [] → v.off = true
  saved : List.Forall₂ (fun maySet state => maySet = false → state = false) v.saved states

/-- The path does not get stuck, and gives all locks back. -/
def Continues (v : LockView) (path : List Instruction) : Prop :=
  ∃ last : LockView, runPath lockStep path v = some last ∧ last.held = [] ∧ last.saved = []

variable {v v' : LockView} {interruptsEnabled : Bool} {states : List Bool}
  {path : List Instruction}

theorem Continues.cons {i : Instruction} (h : v.Continues (i :: path)) :
    ∃ v', lockStep i v = some v' ∧ v'.Continues path := by
  obtain ⟨last, hrun, hlast⟩ := h
  obtain ⟨v', hstep, hrest⟩ := runPath_cons_eq_some.mp hrun
  exact ⟨v', hstep, last, hrest, hlast⟩

theorem continues_nil : v.Continues [] ↔ v.held = [] ∧ v.saved = [] := by
  unfold Continues
  simp

/-- A checked path does not get stuck. -/
theorem continues_of_checkPaths {P : Code} (hcheck : checkPaths lockStep P v = some v')
    (hheld : v'.held = []) (hsaved : v'.saved = []) (hpath : path ∈ P.matches') :
    v.Continues path :=
  ⟨v', runPath_of_checkPaths hcheck hpath, hheld, hsaved⟩

theorem describes_unknown (interruptsEnabled : Bool) :
    unknown.Describes interruptsEnabled [] where
  off h := by cases h
  held h := absurd rfl h
  saved := .nil

theorem describes_masked : masked.Describes false [] where
  off _ := rfl
  held h := absurd rfl h
  saved := .nil

/-- Where IF is 1 no lock is held. -/
theorem Describes.held_eq_nil (h : v.Describes true states) : v.held = [] := by
  by_contra hheld
  have hoff := h.off (h.held hheld)
  cases hoff

end LockView

/-- A suspended computation holds no lock, and can be taken up again. -/
structure Frame.LocksTracked (f : Frame) : Prop where
  view : ∃ v : LockView, v.held = [] ∧ v.Describes f.interruptsEnabled f.states ∧ v.Continues f.code
  /-- In ring 3 nothing is left to do in the kernel. -/
  user : f.ring3 = true → f.code = []

namespace Processor

/-- The view describes the running computation, and the locks are held as it says. -/
structure Viewed (v : LockView) (p : Processor) : Prop where
  describes : v.Describes p.interruptsEnabled p.states
  continues : v.Continues p.code
  locks : ∀ lock, p.lockValue lock = true ↔ lock ∈ v.held

/-- Every computation, running or suspended, is one that the automaton follows. -/
structure LocksTracked (p : Processor) : Prop where
  running : ∃ v, Viewed v p
  user : p.ring3 = true → p.code = []
  suspended : ∀ task, ∀ f ∈ p.frames task, f.LocksTracked

theorem locksTracked_boot : bootProcessor.LocksTracked where
  running := by
    refine ⟨.unknown, LockView.describes_unknown _, ⟨.unknown, rfl, rfl, rfl⟩, ?_⟩
    intro lock
    simp [bootProcessor, LockView.unknown]
  user := fun _ => rfl
  suspended := by
    intro task f hf
    simp [bootProcessor] at hf

variable {p : Processor} {v v' : LockView} {rest path : List Instruction}

theorem Viewed.unlocked (h : Viewed v p) (hheld : v.held = []) (lock : OSSpinlock) :
    p.lockValue lock = false := by
  have hlock := h.locks lock
  rw [hheld] at hlock
  simpa using hlock

/-- In ring 0 there is no more to show than what the view says. -/
theorem Viewed.tracked (h : Viewed v p) (hring : p.ring3 = false)
    (hframes : ∀ task, ∀ f ∈ p.frames task, f.LocksTracked) : p.LocksTracked where
  running := ⟨v, h⟩
  user := by
    intro huser
    rw [hring] at huser
    cases huser
  suspended := hframes

/-- Kernel code runs in ring 0. -/
theorem LocksTracked.ring0 (h : p.LocksTracked) (hcode : p.code ≠ []) : p.ring3 = false := by
  rw [← Bool.not_eq_true]
  intro huser
  exact hcode (h.user huser)

/-! ## Section 4: One instruction -/

theorem locksTracked_spawnedFrame (task : Nat) (isUser : Bool) :
    (spawnedFrame task isUser).LocksTracked where
  view := ⟨.unknown, rfl, LockView.describes_unknown _, .unknown, rfl, rfl, rfl⟩
  user _ := rfl

/-- An instruction that leaves the view alone leaves IF, the saved flags and the
locks alone. -/
theorem Viewed.keep {q : Processor} (h : Viewed v p) (hcontinues : v.Continues q.code)
    (hif : q.interruptsEnabled = p.interruptsEnabled) (hstates : q.states = p.states)
    (hlocks : q.lockValue = p.lockValue) : Viewed v q where
  describes := by
    rw [hif, hstates]
    exact h.describes
  continues := hcontinues
  locks := by
    rw [hlocks]
    exact h.locks

theorem viewed_readFlags (h : Viewed v p) (hrest : ({ v with saved := (!v.off) :: v.saved } :
    LockView).Continues rest) :
    Viewed { v with saved := (!v.off) :: v.saved } ({ p with code := rest }.effect .readFlags) where
  describes := by
    refine ⟨h.describes.off, h.describes.held, .cons ?_ h.describes.saved⟩
    -- the saved flag is clear if IF is known to be
    intro hmay
    apply h.describes.off
    simpa using hmay
  continues := hrest
  locks := h.locks

theorem viewed_cli (h : Viewed v p) (hrest : ({ v with off := true } : LockView).Continues rest) :
    Viewed { v with off := true } ({ p with code := rest }.effect .cli) where
  describes := ⟨fun _ => rfl, fun _ => rfl, h.describes.saved⟩
  continues := hrest
  locks := h.locks

theorem viewed_sti (h : Viewed v p) (hheld : v.held = [])
    (hrest : ({ v with off := false } : LockView).Continues rest) :
    Viewed { v with off := false } ({ p with code := rest }.effect .sti) where
  describes := by
    refine ⟨?_, ?_, h.describes.saved⟩
    · intro hoff
      cases hoff
    · intro hlocks
      exact absurd hheld hlocks
  continues := hrest
  locks := h.locks

theorem viewed_sysret (h : Viewed v p) (hheld : v.held = []) (hsaved : v.saved = []) :
    Viewed .unknown ({ p with code := rest }.effect .sysret) where
  describes := by
    refine ⟨?_, fun hlocks => absurd rfl hlocks, ?_⟩
    · intro hoff
      cases hoff
    · have hstates := h.describes.saved
      rw [hsaved] at hstates
      exact hstates
  continues := LockView.continues_nil.mpr ⟨rfl, rfl⟩
  locks := by
    intro lock
    have hlock := h.locks lock
    rw [hheld] at hlock
    exact hlock

/-- What `if (state->interruptsEnabled) sti` does where a lock was just given back:
IF becomes what was saved. -/
theorem viewed_stiIfEnabled {maySet : Bool} {saved : List Bool} (h : Viewed v p)
    (hoff : v.off = true) (hsaved : v.saved = maySet :: saved)
    (hheld : maySet = false ∨ v.held = [])
    (hrest : (⟨!maySet, v.held, saved⟩ : LockView).Continues rest) :
    Viewed ⟨!maySet, v.held, saved⟩ ({ p with code := rest }.effect .stiIfEnabled) ∧
      ∃ state states, p.states = state :: states ∧
        ({ p with code := rest }.effect .stiIfEnabled).interruptsEnabled = state := by
  have hmatches := h.describes.saved
  rw [hsaved] at hmatches
  obtain ⟨state, states, hstate, hstates, heq⟩ := List.forall₂_cons_left_iff.mp hmatches
  have hif := h.describes.off hoff
  have hafter : ({ p with code := rest }.effect .stiIfEnabled).interruptsEnabled = state := by
    simp [effect, hif, heq]
  refine ⟨⟨⟨?_, ?_, ?_⟩, hrest, h.locks⟩, state, states, heq, hafter⟩
  · intro hclear
    rw [hafter]
    apply hstate
    simpa using hclear
  · intro hlocks
    -- with a lock still held the saved flag is known to be clear
    rcases hheld with hclear | hnone
    · simp [hclear]
    · exact absurd hnone hlocks
  · simpa [effect, heq] using hstates

theorem viewed_exchange {lock : OSSpinlock} (h : Viewed v p) (hoff : v.off = true)
    (hrest : ({ v with held := lock :: v.held } : LockView).Continues rest) :
    Viewed { v with held := lock :: v.held } ({ p with code := rest }.effect (.exchange lock)) where
  describes := ⟨h.describes.off, fun _ => hoff, h.describes.saved⟩
  continues := hrest
  locks := by
    intro other
    have hother := h.locks other
    by_cases heq : other = lock
    · simp [effect, heq]
    · simpa [effect, heq] using hother

theorem viewed_store {lock : OSSpinlock} {held : List OSSpinlock} (h : Viewed v p)
    (hheld : v.held = lock :: held) (honce : lock ∉ held)
    (hrest : ({ v with held := held } : LockView).Continues rest) :
    Viewed { v with held := held } ({ p with code := rest }.effect (.store lock)) where
  describes := by
    refine ⟨h.describes.off, ?_, h.describes.saved⟩
    intro _
    apply h.describes.held
    rw [hheld]
    exact List.cons_ne_nil _ _
  continues := hrest
  locks := by
    intro other
    have hother := h.locks other
    rw [hheld] at hother
    by_cases heq : other = lock
    · simp [effect, heq, honce]
    · simpa [effect, heq] using hother

/-- What an interrupted computation looks like once it is taken up again. -/
theorem Viewed.of_frame {q : Processor} {f : Frame} (h : Viewed v p) (hheld : v.held = [])
    (hf : f.LocksTracked) (hcode : q.code = f.code)
    (hif : q.interruptsEnabled = f.interruptsEnabled) (hstates : q.states = f.states)
    (hlocks : q.lockValue = p.lockValue) : ∃ v', Viewed v' q := by
  obtain ⟨v', hheld', hdescribes, hcontinues⟩ := hf.view
  refine ⟨v', ⟨?_, ?_, ?_⟩⟩
  · rw [hif, hstates]
    exact hdescribes
  · rw [hcode]
    exact hcontinues
  · intro lock
    rw [hlocks, hheld']
    simpa [hheld] using h.locks lock

theorem locks_iretq (h : p.LocksTracked) (hring : p.ring3 = false) (hv : Viewed v p)
    (hheld : v.held = []) (hrest : v.Continues rest) : ({ p with code := rest }.effect .iretq).LocksTracked := by
  unfold effect
  dsimp only
  split
  · rename_i f below hframes
    have hmem : f ∈ p.frames p.currentTask := by
      rw [hframes]
      exact List.mem_cons_self
    have hf := h.suspended _ f hmem
    refine ⟨hv.of_frame hheld hf rfl rfl rfl rfl, hf.user, ?_⟩
    intro task g hg
    by_cases htask : task = p.currentTask
    · -- the frames below stay on the stack
      apply h.suspended p.currentTask
      rw [hframes]
      simp only [resume, htask, Function.update_self] at hg
      exact List.mem_cons_of_mem _ hg
    · simp only [resume, Function.update_of_ne htask] at hg
      exact h.suspended task g hg
  · have hkeep : Viewed v { p with code := rest } := hv.keep hrest rfl rfl rfl
    exact hkeep.tracked hring h.suspended

theorem locks_linkTask (h : p.LocksTracked) (hring : p.ring3 = false) (hv : Viewed v p)
    (isUser : Bool) (hrest : v.Continues rest) :
    ({ p with code := rest }.effect (.linkTask isUser)).LocksTracked := by
  have hkeep : Viewed v ({ p with code := rest }.effect (.linkTask isUser)) :=
    hv.keep hrest rfl rfl rfl
  refine hkeep.tracked hring ?_
  intro task f hf
  by_cases htask : task = p.taskCount
  · -- the new task has the frame it was built with
    simp only [effect, link, htask, Function.update_self, List.mem_singleton] at hf
    rw [hf]
    exact locksTracked_spawnedFrame _ _
  · simp only [effect, link, Function.update_of_ne htask] at hf
    exact h.suspended task f hf

/-- The instructions that change neither IF nor a lock nor a stack. -/
theorem locks_keep {q : Processor} (h : p.LocksTracked) (hv : Viewed v p)
    (hring : q.ring3 = false) (hcontinues : v.Continues q.code) (hif : q.interruptsEnabled = p.interruptsEnabled)
    (hstates : q.states = p.states) (hlocks : q.lockValue = p.lockValue)
    (hframes : q.frames = p.frames) : q.LocksTracked := by
  apply (hv.keep hcontinues hif hstates hlocks).tracked hring
  rw [hframes]
  exact h.suspended

theorem lockStep_of_held {o : Option LockView} {P : Prop} [Decidable P]
    (hstep : (if P then o else none) = some v') : P ∧ o = some v' := by
  by_cases hP : P
  · rw [if_pos hP] at hstep
    exact ⟨hP, hstep⟩
  · rw [if_neg hP] at hstep
    cases hstep

theorem locks_execute (h : p.LocksTracked) (hpossible : p.Possible .execute) :
    p.execute.LocksTracked := by
  obtain ⟨v, hv⟩ := h.running
  cases hcode : p.code with
  | nil => simp [Possible, canExecute, hcode] at hpossible
  | cons i rest =>
    have hcontinues := hv.continues
    rw [hcode] at hcontinues
    obtain ⟨v', hstep, hrest⟩ := hcontinues.cons
    have hring : p.ring3 = false := by
      apply h.ring0
      rw [hcode]
      exact List.cons_ne_nil _ _
    cases i
    case readFlags =>
      cases hstep
      rw [execute_of_code hcode (by simp) (by simp)]
      exact (viewed_readFlags hv hrest).tracked hring h.suspended
    case cli =>
      cases hstep
      rw [execute_of_code hcode (by simp) (by simp)]
      exact (viewed_cli hv hrest).tracked hring h.suspended
    case sti =>
      obtain ⟨hheld, hsome⟩ := lockStep_of_held hstep
      cases hsome
      rw [execute_of_code hcode (by simp) (by simp)]
      exact (viewed_sti hv hheld hrest).tracked hring h.suspended
    case stiIfEnabled =>
      unfold lockStep at hstep
      cases hsaved : v.saved with
      | nil => simp [hsaved] at hstep
      | cons maySet saved =>
        simp only [hsaved] at hstep
        obtain ⟨⟨hoff, hheld⟩, hsome⟩ := lockStep_of_held hstep
        cases hsome
        rw [execute_of_code hcode (by simp) (by simp)]
        exact (viewed_stiIfEnabled hv hoff hsaved hheld hrest).1.tracked hring h.suspended
    case exchange lock =>
      obtain ⟨⟨hoff, hfree⟩, hsome⟩ := lockStep_of_held hstep
      cases hsome
      have hvalue : p.lockValue lock = false := by
        rw [← Bool.not_eq_true, hv.locks]
        exact hfree
      rw [execute_exchange hcode hvalue]
      exact (viewed_exchange hv hoff hrest).tracked hring h.suspended
    case store lock =>
      unfold lockStep at hstep
      cases hheld : v.held with
      | nil => simp [hheld] at hstep
      | cons last held =>
        simp only [hheld] at hstep
        obtain ⟨⟨rfl, honce⟩, hsome⟩ := lockStep_of_held hstep
        cases hsome
        rw [execute_of_code hcode (by simp) (by simp)]
        exact (viewed_store hv hheld honce hrest).tracked hring h.suspended
    case die =>
      cases hstep
      rw [execute_die hcode]
      -- the processor stays where it is, with IF 0
      have hstay : Viewed v { p with interruptsEnabled := false } :=
        ⟨⟨fun _ => rfl, hv.describes.held, hv.describes.saved⟩, hv.continues, hv.locks⟩
      exact hstay.tracked hring h.suspended
    case iretq =>
      obtain ⟨hheld, hsome⟩ := lockStep_of_held hstep
      cases hsome
      rw [execute_of_code hcode (by simp) (by simp)]
      exact locks_iretq h hring hv hheld hrest
    case linkTask isUser =>
      cases hstep
      rw [execute_of_code hcode (by simp) (by simp)]
      exact locks_linkTask h hring hv isUser hrest
    case sysret =>
      obtain ⟨⟨hheld, hsaved⟩, hsome⟩ := lockStep_of_held hstep
      rw [execute_of_code hcode (by simp) (by simp)]
      exact ⟨⟨_, viewed_sysret hv hheld hsaved⟩, fun _ => rfl, h.suspended⟩
    case swapgsIfUser =>
      cases hstep
      rw [execute_of_code hcode (by simp) (by simp)]
      obtain ⟨active, heq⟩ := exists_effect_swapgsIfUser { p with code := rest }
      rw [heq]
      exact locks_keep h hv hring hrest rfl rfl rfl rfl
    case loadStackPointer =>
      cases hstep
      rw [execute_of_code hcode (by simp) (by simp)]
      obtain ⟨stack, heq⟩ := exists_effect_loadStackPointer { p with code := rest }
      rw [heq]
      exact locks_keep h hv hring hrest rfl rfl rfl rfl
    case int32 => simp [Possible, canExecute, hcode] at hpossible
    case int3 => simp [Possible, canExecute, hcode] at hpossible
    case switchTask => simp [Possible, canExecute, hcode] at hpossible
    all_goals
      cases hstep
      rw [execute_of_code hcode (by simp) (by simp)]
      exact locks_keep h hv hring hrest rfl rfl rfl rfl

/-! ## Section 5: The other events -/

/-- What is running when it is interrupted becomes a frame that can be taken up again. -/
theorem Viewed.locksTracked_frame (h : Viewed v p) (hheld : v.held = [])
    (huser : p.ring3 = true → p.code = []) (place : Stack) : (p.frame place).LocksTracked :=
  ⟨⟨v, hheld, h.describes, h.continues⟩, huser⟩

/-- An interrupt gate is entered where no lock is held. -/
theorem locks_enter (hv : Viewed v p) (hheld : v.held = [])
    (huser : p.ring3 = true → p.code = []) (hframes : ∀ task, ∀ f ∈ p.frames task, f.LocksTracked)
    (hpath : LockView.masked.Continues path) (place : Stack) :
    (p.enter path place).LocksTracked where
  running := by
    refine ⟨.masked, LockView.describes_masked, hpath, ?_⟩
    intro lock
    rw [show (p.enter path place).lockValue = p.lockValue from rfl, hv.unlocked hheld]
    simp [LockView.masked]
  user := by
    intro hring
    cases hring
  suspended := by
    intro task f hf
    by_cases htask : task = p.currentTask
    · simp only [enter, pushFrame, htask, Function.update_self, List.mem_cons] at hf
      rcases hf with rfl | hf
      · exact hv.locksTracked_frame hheld huser place
      · exact hframes _ f hf
    · simp only [enter, pushFrame, Function.update_of_ne htask] at hf
      exact hframes task f hf

/-- The software interrupts: the instruction itself says that no lock is held. -/
theorem viewed_software {i : Instruction} (h : p.LocksTracked) (hcode : p.code.head? = some i)
    (hi : i = .int32 ∨ i = .int3) :
    ∃ v, Viewed v { p with code := p.code.tail } ∧ v.held = [] ∧ p.ring3 = false := by
  obtain ⟨v, hv⟩ := h.running
  obtain ⟨rest, hrest⟩ := List.head?_eq_some_iff.mp hcode
  have hring : p.ring3 = false := by
    apply h.ring0
    rw [hrest]
    exact List.cons_ne_nil _ _
  have hcontinues := hv.continues
  rw [hrest] at hcontinues
  obtain ⟨v', hstep, hafter⟩ := hcontinues.cons
  have hkeep : v' = v ∧ v.held = [] := by
    rcases hi with rfl | rfl
    all_goals
      obtain ⟨hheld, hsome⟩ := lockStep_of_held hstep
      cases hsome
      exact ⟨rfl, hheld⟩
  rw [hkeep.1] at hafter
  refine ⟨v, ⟨hv.describes, ?_, hv.locks⟩, hkeep.2, hring⟩
  rw [hrest]
  exact hafter

/-- A path is begun where nothing was left to do. -/
theorem Viewed.restart {q : Processor} (h : Viewed v p) (hcode : p.code = [])
    (hstates : q.states = p.states) (hlocks : q.lockValue = p.lockValue)
    (hpath : LockView.unknown.Continues q.code) : Viewed .unknown q := by
  have hcontinues := h.continues
  rw [hcode] at hcontinues
  obtain ⟨hheld, hsaved⟩ := LockView.continues_nil.mp hcontinues
  have hmatches := h.describes.saved
  rw [hsaved] at hmatches
  have hnone : q.states = [] := by
    rw [hstates]
    exact List.forall₂_nil_left_iff.mp hmatches
  refine ⟨?_, hpath, ?_⟩
  · rw [hnone]
    exact LockView.describes_unknown _
  · intro lock
    rw [hlocks, h.unlocked hheld]
    simp [LockView.unknown]

/-- Every event keeps the automaton in step with the processor. -/
theorem locksTracked_after (p : Processor) (event : Event) (h : p.LocksTracked)
    (hpossible : p.Possible event) : (p.after event).LocksTracked := by
  -- By the event. Code that starts anew starts on a path that `checkPaths` has accepted.
  cases event with
  | execute => exact locks_execute h hpossible
  | switch task =>
    obtain ⟨hcode, -, -⟩ := hpossible
    obtain ⟨v, hv⟩ := h.running
    obtain ⟨rest, hrest⟩ := List.head?_eq_some_iff.mp hcode
    have hcontinues := hv.continues
    rw [hrest] at hcontinues
    obtain ⟨v', hstep, hafter⟩ := hcontinues.cons
    cases hstep
    have hring : p.ring3 = false := by
      apply h.ring0
      rw [hrest]
      exact List.cons_ne_nil _ _
    refine locks_keep h hv hring ?_ rfl rfl rfl rfl
    rw [show (p.after (.switch task)).code = p.code.tail from rfl, hrest]
    exact hafter
  | interrupt number path =>
    obtain ⟨hif, -, hpath⟩ := hpossible
    obtain ⟨v, hv⟩ := h.running
    have hdescribes := hv.describes
    rw [hif] at hdescribes
    -- An interrupt comes only while interrupts are on, and then no lock is held.
    apply locks_enter hv hdescribes.held_eq_nil h.user h.suspended
    exact LockView.continues_of_checkPaths (checkPaths_irqHandler number) rfl rfl hpath
  | int32 path =>
    obtain ⟨hcode, hpath⟩ := hpossible
    -- `int 32` and `int 3` stand where the code holds no lock.
    obtain ⟨v, hv, hheld, hring⟩ := viewed_software h hcode (.inl rfl)
    apply locks_enter hv hheld (by simp [hring]) h.suspended
    exact LockView.continues_of_checkPaths (checkPaths_irqHandler 32) rfl rfl hpath
  | int3 path =>
    obtain ⟨hcode, hpath⟩ := hpossible
    obtain ⟨v, hv, hheld, hring⟩ := viewed_software h hcode (.inr rfl)
    apply locks_enter hv hheld (by simp [hring]) h.suspended
    exact LockView.continues_of_checkPaths (checkPaths_isrCommonStub 3) rfl rfl hpath
  | exception number path =>
    obtain ⟨hring, hpath⟩ := hpossible
    -- An exception comes from ring 3, where nothing of the kernel is left to run.
    obtain ⟨v, hv⟩ := h.running
    have hcontinues := hv.continues
    rw [h.user hring] at hcontinues
    apply locks_enter hv (LockView.continues_nil.mp hcontinues).1 h.user h.suspended
    exact LockView.continues_of_checkPaths (checkPaths_isrCommonStub number) rfl rfl hpath
  | panic =>
    obtain ⟨v, hv⟩ := h.running
    -- After a panic the processor stands still with the locks it has.
    have hstop : Viewed v (p.after .panic) := by
      refine ⟨⟨fun _ => rfl, hv.describes.held, hv.describes.saved⟩, ?_, hv.locks⟩
      obtain ⟨last, hrun, hlast⟩ := hv.continues
      exact ⟨last, runPath_cons_eq_some.mpr ⟨v, rfl, hrun⟩, hlast⟩
    exact hstop.tracked hpossible h.suspended
  | syscall id path =>
    obtain ⟨hring, hpath⟩ := hpossible
    obtain ⟨v, hv⟩ := h.running
    have hcontinues : LockView.unknown.Continues path :=
      LockView.continues_of_checkPaths (checkPaths_syscallEntry id) rfl rfl hpath
    have hstart : Viewed .unknown (p.after (.syscall id path)) :=
      hv.restart (h.user hring) rfl rfl hcontinues
    exact hstart.tracked rfl h.suspended
  | call path =>
    obtain ⟨hring, hcode, hpath⟩ := hpossible
    obtain ⟨v, hv⟩ := h.running
    have hcontinues : LockView.unknown.Continues path :=
      LockView.continues_of_checkPaths checkPaths_kernelCall rfl rfl hpath
    have hstart : Viewed .unknown (p.after (.call path)) := hv.restart hcode rfl rfl hcontinues
    exact hstart.tracked hring h.suspended

/-- The automaton describes every state of every run. -/
theorem locksTracked_run {events : List Event} (hrun : Runs bootProcessor events p) :
    p.LocksTracked :=
  hrun.invariant locksTracked_after locksTracked_boot

/-! ## Section 6: No spinlock spins -/

/-- What is asked of the spinlocks in one state. -/
structure SpinlocksSafe (p : Processor) : Prop where
  /-- No lock is held where an interrupt can come. -/
  interruptible : p.interruptsEnabled = true → ∀ lock, p.lockValue lock = false
  /-- Nor where the processor is given away. -/
  int32 : p.code.head? = some .int32 → ∀ lock, p.lockValue lock = false
  /-- A lock that is about to be taken is free. -/
  free : ∀ lock, p.code.head? = some (.exchange lock) → p.lockValue lock = false
  /-- An unlock leaves IF as the matching lock found it: `states` holds what each
  `OSSpinlockLockIRQ` that is not undone read, the last one first. -/
  restores : p.code.head? = some .stiIfEnabled →
    ∃ state states, p.states = state :: states ∧ p.execute.interruptsEnabled = state ∧
      p.execute.states = states

theorem LocksTracked.spinlocksSafe (h : p.LocksTracked) : p.SpinlocksSafe := by
  obtain ⟨v, hv⟩ := h.running
  refine ⟨?_, ?_, ?_, ?_⟩
  · intro hif
    have hdescribes := hv.describes
    rw [hif] at hdescribes
    exact hv.unlocked hdescribes.held_eq_nil
  · intro hcode
    obtain ⟨v', hv', hheld, -⟩ := viewed_software h hcode (.inl rfl)
    exact hv'.unlocked hheld
  · intro lock hcode
    obtain ⟨rest, hrest⟩ := List.head?_eq_some_iff.mp hcode
    have hcontinues := hv.continues
    rw [hrest] at hcontinues
    obtain ⟨v', hstep, -⟩ := hcontinues.cons
    obtain ⟨⟨-, hfree⟩, -⟩ := lockStep_of_held hstep
    rw [← Bool.not_eq_true, hv.locks]
    exact hfree
  · intro hcode
    obtain ⟨rest, hrest⟩ := List.head?_eq_some_iff.mp hcode
    have hcontinues := hv.continues
    rw [hrest] at hcontinues
    obtain ⟨v', hstep, hafter⟩ := hcontinues.cons
    unfold lockStep at hstep
    cases hsaved : v.saved with
    | nil => simp [hsaved] at hstep
    | cons maySet saved =>
      simp only [hsaved] at hstep
      obtain ⟨⟨hoff, hheld⟩, hsome⟩ := lockStep_of_held hstep
      cases hsome
      obtain ⟨-, state, states, hstates, hif⟩ := viewed_stiIfEnabled hv hoff hsaved hheld hafter
      rw [execute_of_code hrest (by simp) (by simp)]
      refine ⟨state, states, hstates, hif, ?_⟩
      simp [effect, hstates]

/-- In every run of the kernel no spinlock is held where IF is 1 or where `int $32`
is executed, every lock that is taken is free, and every unlock restores IF. -/
theorem spinlocks_safe {events : List Event} (hrun : Runs bootProcessor events p) :
    p.SpinlocksSafe :=
  (locksTracked_run hrun).spinlocksSafe

/-- The boot thread enables interrupts and asks the heap for a block; just before it
gives the heap's lock back, IF is 0, and it was 1 before. -/
def heapMoves : List Move :=
  [.call (List.replicate 20 true ++ [false]), .execute,
    .call (List.replicate 11 true ++ [false]), .execute, .execute, .execute]

theorem spinlocks_safe_heap :
    ∃ p : Processor, p.lockValue .sVMHeapLock = true ∧ p.states = [true] ∧ p.SpinlocksSafe := by
  have hmoves : ∃ p, perform (fun _ _ => true) bootProcessor heapMoves = some p ∧
      p.lockValue .sVMHeapLock = true ∧ p.states = [true] := by
    have hcomputed : ((perform (fun _ _ => true) bootProcessor heapMoves).map
        fun p => (p.lockValue .sVMHeapLock, p.states)) = some (true, [true]) := by
      decide +kernel
    obtain ⟨p, hperform, hp⟩ := Option.map_eq_some_iff.mp hcomputed
    rw [Prod.mk.injEq] at hp
    exact ⟨p, hperform, hp⟩
  obtain ⟨p, hperform, hlock, hstates⟩ := hmoves
  obtain ⟨events, hrun⟩ := exists_runs_of_perform hperform
  exact ⟨p, hlock, hstates, spinlocks_safe hrun⟩

end Processor

end TermOS.OS
