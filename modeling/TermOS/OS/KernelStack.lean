import TermOS.OS.Processor

/-!
# The stack of an interrupt

An interrupt in ring 0 pushes its frame where RSP points, and its stub leaves the
GS base alone. On the way in and out of `syscall_entry` RSP is a pointer of ring 3
and the GS base is the one of ring 3, so IF has to be 0 there. It is, as long as
`SYS_READ` does not have to wait for a key: the `sti` of its waiting loop is not
undone. The paths are checked with an automaton that follows IF, the GS base and
RSP.

## Main Theorems

* `kernelStack_of_buffered` - where no `SYS_READ` waits, interrupts in ring 0 land
  on the kernel stack of the current task
* `interrupted_on_user_stack` - after a wait one can land on a stack of ring 3
-/

namespace TermOS.OS

open TermOS.Lib KernelCode

/-! ## Section 1: The automaton -/

/-- What a path through the kernel is entered for. -/
inductive CodeKind
  /-- A call of a kernel thread. -/
  | thread
  /-- `syscall_entry` -/
  | service
  /-- A stub of the interrupt table. -/
  | handler
  deriving DecidableEq

/-- What is known of the GS base. -/
inductive GSView
  | kernel
  | user
  /-- That of the code which the last frame on the stack belongs to. -/
  | asFrame
  deriving DecidableEq

/-- What is known of RSP. -/
inductive RSPView
  /-- It points into the kernel stack of the current task. -/
  | own
  | user
  | any
  deriving DecidableEq

/-- What is known at one point of a path. -/
structure StackView where
  /-- IF is known to be 0. -/
  off : Bool
  /-- For each saved `interruptsEnabled`, whether it may be set. -/
  saved : List Bool
  gs : GSView
  rsp : RSPView
  /-- A service found the keyboard's ring buffer empty. -/
  waits : Bool
  /-- Control has gone back to where it came from. -/
  left : Bool
  deriving DecidableEq

/-- An interrupt can come only where the kernel's stack and GS base are in use. -/
def StackView.Good (v : StackView) : Prop := v.off = true ∨ v.gs = .kernel ∧ v.rsp = .own

instance (v : StackView) : Decidable v.Good := inferInstanceAs (Decidable (_ ∨ _))

/-- One instruction, without regard to whether an interrupt could come after it. -/
def stackMove (kind : CodeKind) (v : StackView) : Instruction → Option StackView
  | .readFlags => some { v with saved := (!v.off) :: v.saved }
  | .cli => some { v with off := true }
  | .stiIfEnabled =>
    match v.saved with
    | maySet :: saved => some { v with off := v.off && !maySet, saved := saved }
    | [] => none
  | .sti =>
    match kind with
    | .thread => some { v with off := false }
    -- only the waiting loop does it
    | .service => if v.waits then some { v with waits := false } else none
    | .handler => none
  | .keyboardEmpty =>
    match kind with
    | .thread => some v
    | .service => some { v with waits := true }
    | .handler => none
  | .swapgs =>
    match kind, v.off, v.gs with
    | .service, true, .user => some { v with gs := .kernel }
    | .service, true, .kernel => some { v with gs := .user }
    | _, _, _ => none
  | .swapgsIfUser =>
    match kind, v.gs with
    | .handler, .asFrame => some { v with gs := .kernel }
    | .handler, .kernel => some { v with gs := .asFrame }
    | _, _ => none
  | .loadKernelStack => if v.gs = .kernel then some { v with rsp := .own } else none
  | .popUserStack => if kind = .service ∧ v.off = true then some { v with rsp := .user } else none
  | .sysret =>
    if kind = .service ∧ v = ⟨true, [], .user, .user, false, false⟩ then
      some { v with left := true }
    else none
  | .loadStackPointer => if kind = .handler then some { v with rsp := .any } else none
  | .iretq =>
    if kind = .handler ∧ v.gs = .asFrame then some { v with left := true } else none
  | .switchTask => if kind = .handler ∧ v.gs = .kernel ∧ v.rsp = .any then some v else none
  | .int32 | .int3 => if v.gs = .kernel then some v else none
  | .other | .exchange _ | .store _ | .die | .takeCharacter | .putCharacter | .linkTask _
  | .markDead => some v

/-- One instruction. -/
def stackStep (kind : CodeKind) (i : Instruction) (v : StackView) : Option StackView :=
  (stackMove kind v i).filter fun v' => decide v'.Good

theorem stackMove_swapgs {kind : CodeKind} {v v' : StackView}
    (h : stackMove kind v .swapgs = some v') :
    v.gs = .user ∧ v' = { v with gs := .kernel } ∨ v.gs = .kernel ∧ v' = { v with gs := .user } := by
  obtain ⟨off, saved, gs, rsp, waits, left⟩ := v
  cases kind <;> cases off <;> cases gs <;> simp_all [stackMove]

theorem stackMove_swapgsIfUser {kind : CodeKind} {v v' : StackView}
    (h : stackMove kind v .swapgsIfUser = some v') :
    kind = .handler ∧ (v.gs = .asFrame ∧ v' = { v with gs := .kernel } ∨
      v.gs = .kernel ∧ v' = { v with gs := .asFrame }) := by
  obtain ⟨off, saved, gs, rsp, waits, left⟩ := v
  cases kind <;> cases gs <;> simp_all [stackMove]

/-- Where a path begins. -/
def StackView.entry : CodeKind → StackView
  | .thread => ⟨false, [], .kernel, .own, false, false⟩
  | .service => ⟨true, [], .user, .user, false, false⟩
  | .handler => ⟨true, [], .asFrame, .any, false, false⟩

/-- Where a path ends. -/
def StackView.exit : CodeKind → StackView
  | .thread => ⟨false, [], .kernel, .own, false, false⟩
  | .service => ⟨true, [], .user, .user, false, true⟩
  | .handler => ⟨true, [], .asFrame, .any, false, true⟩

/-! ## Section 2: The check -/

theorem checkPaths_thread :
    checkPaths (stackStep .thread) kernelCall (.entry .thread) = some (.exit .thread) := by
  decide +kernel

theorem checkPaths_service (id : Nat) :
    checkPaths (stackStep .service) (syscallEntry id) (.entry .service) =
      some (.exit .service) := by
  unfold syscallEntry
  unfold syscallDispatch
  split
  all_goals decide +kernel

theorem checkPaths_irq (number : Nat) :
    checkPaths (stackStep .handler) (irqHandler number) (.entry .handler) =
      some (.exit .handler) := by
  unfold irqHandler
  unfold irqHandlerC
  split
  all_goals decide +kernel

theorem checkPaths_isr (number : Nat) :
    checkPaths (stackStep .handler) (isrCommonStub number) (.entry .handler) =
      some (.exit .handler) := by
  unfold isrCommonStub
  unfold isrHandlerC
  split
  all_goals decide +kernel

/-! ## Section 3: What the automaton says of a state -/

namespace StackView

/-- The path does not get stuck, and ends as the paths of its kind do. -/
def Continues (kind : CodeKind) (v : StackView) (path : List Instruction) : Prop :=
  runPath (stackStep kind) path v = some (exit kind)

variable {kind : CodeKind} {v v' : StackView} {i : Instruction} {path : List Instruction}

theorem Continues.cons (h : Continues kind v (i :: path)) :
    ∃ v', stackMove kind v i = some v' ∧ v'.Good ∧ Continues kind v' path := by
  obtain ⟨v', hstep, hrest⟩ := runPath_cons_eq_some.mp h
  obtain ⟨hmove, hgood⟩ := Option.filter_eq_some_iff.mp hstep
  exact ⟨v', hmove, of_decide_eq_true hgood, hrest⟩

/-- Only a thread has nothing left to do while control is still with it. -/
theorem Continues.nil (h : Continues kind v []) (hleft : v.left = false) :
    kind = .thread ∧ v = entry .thread := by
  have hexit : v = exit kind := by
    unfold Continues at h
    rw [runPath_nil] at h
    exact Option.some.inj h
  cases kind
  case thread => exact ⟨rfl, hexit⟩
  all_goals
    rw [hexit] at hleft
    cases hleft

theorem good_entry (kind : CodeKind) : (entry kind).Good := by
  cases kind <;> decide

/-- What the flags that are saved say of the view. -/
def Saved (v : StackView) (states : List Bool) : Prop :=
  List.Forall₂ (fun maySet state => maySet = false → state = false) v.saved states

/-- What a view says of a computation that runs, or was suspended, in ring 0; `own`
is the kernel stack of its task. -/
structure Describes (v : StackView) (interruptsEnabled : Bool) (states : List Bool)
    (rsp own : Stack) : Prop where
  good : v.Good
  off : v.off = true → interruptsEnabled = false
  saved : v.Saved states
  own : v.rsp = .own → rsp = own
  user : v.rsp = .user → rsp = .user
  waits : v.waits = false
  left : v.left = false

/-- A path can begin: a thread's on its own stack, a service's on the stack of ring 3. -/
theorem describes_entry {interruptsEnabled : Bool} {rsp own : Stack}
    (hoff : (entry kind).off = true → interruptsEnabled = false)
    (hown : kind = .thread → rsp = own) (huser : kind = .service → rsp = .user) :
    (entry kind).Describes interruptsEnabled [] rsp own where
  good := good_entry kind
  off := hoff
  saved := by
    cases kind <;> exact .nil
  own := by
    cases kind
    case thread => exact fun _ => hown rfl
    all_goals
      intro h
      cases h
  user := by
    cases kind
    case service => exact fun _ => huser rfl
    all_goals
      intro h
      cases h
  waits := by cases kind <;> rfl
  left := by cases kind <;> rfl

theorem Describes.setGS {interruptsEnabled : Bool} {states : List Bool} {rsp own : Stack}
    {gs : GSView} (h : v.Describes interruptsEnabled states rsp own)
    (hgood : ({ v with gs := gs } : StackView).Good) :
    ({ v with gs := gs } : StackView).Describes interruptsEnabled states rsp own :=
  ⟨hgood, h.off, h.saved, h.own, h.user, h.waits, h.left⟩

/-- Where IF is 1 the kernel's stack and GS base are in use. -/
theorem Describes.of_enabled {states : List Bool} {rsp own : Stack}
    (h : v.Describes true states rsp own) : v.gs = .kernel ∧ rsp = own := by
  rcases h.good with hoff | ⟨hgs, hrsp⟩
  · have hcontra := h.off hoff
    cases hcontra
  · exact ⟨hgs, h.own hrsp⟩

end StackView

/-- A computation of ring 3 that can go on. -/
structure UserContext (code : List Instruction) (interruptsEnabled : Bool) (rsp : Stack)
    (states : List Bool) (isUser : Bool) : Prop where
  code : code = []
  enabled : interruptsEnabled = true
  rsp : rsp = .user
  states : states = []
  isUser : isUser = true

/-- What the kind of a path needs of its task: a service is done for a user task, which
had IF set, and a handler has a frame to return to. -/
def CodeKind.Fits (kind : CodeKind) (isUser userFlags : Bool) (frames : List Frame) : Prop :=
  match kind with
  | .thread => True
  | .service => isUser = true ∧ userFlags = true
  | .handler => frames ≠ []

/-- A suspended computation of `task` that can go on, with the frames below it. -/
def Frame.Sound (f : Frame) (task : Nat) (isUser : Bool) (below : List Frame) : Prop :=
  if f.ring3 then UserContext f.code f.interruptsEnabled f.rsp f.states isUser
  else
    ∃ kind v, StackView.Describes v f.interruptsEnabled f.states f.rsp (.kernel task) ∧
      v.gs = .kernel ∧ v.Continues kind f.code ∧ kind.Fits isUser f.userFlags below

/-- The frames on the stack of a task. -/
def FramesSound (task : Nat) (isUser : Bool) : List Frame → Prop
  | [] => True
  | f :: below => f.Sound task isUser below ∧ FramesSound task isUser below

namespace Processor

/-- What a view says of the GS base. -/
def GSAgrees (p : Processor) : GSView → Prop
  | .kernel => p.kernelGS = true
  | .user => p.kernelGS = false
  | .asFrame => ∀ f below, p.frames p.currentTask = f :: below → p.kernelGS = !f.ring3

/-- The view describes what runs in ring 0. -/
structure KernelContext (p : Processor) (kind : CodeKind) (v : StackView) : Prop where
  describes : v.Describes p.interruptsEnabled p.states p.rsp (.kernel p.currentTask)
  gs : p.GSAgrees v.gs
  continues : v.Continues kind p.code
  fits : kind.Fits (p.isUser p.currentTask) p.userFlags (p.frames p.currentTask)

/-- Every computation is one that the automaton follows. -/
structure StacksTracked (p : Processor) : Prop where
  user : p.ring3 = true →
    UserContext p.code p.interruptsEnabled p.rsp p.states (p.isUser p.currentTask) ∧
      p.kernelGS = false
  kernel : p.ring3 = false → ∃ kind v, p.KernelContext kind v
  suspended : ∀ task, FramesSound task (p.isUser task) (p.frames task)
  /-- The stack for the next entry from ring 3 is that of the current task. -/
  stackPointer : p.kernelStackPointer = p.currentTask
  current : p.currentTask < p.taskCount
  fresh : ∀ task, p.taskCount ≤ task → p.frames task = []

theorem stacksTracked_boot : bootProcessor.StacksTracked where
  user := by
    intro hring
    cases hring
  kernel := by
    intro _
    refine ⟨.thread, .entry .thread, ⟨?_, rfl, rfl, trivial⟩⟩
    exact StackView.describes_entry (fun _ => rfl) (fun _ => rfl) (by simp)
  suspended _ := trivial
  stackPointer := rfl
  current := by decide
  fresh _ _ := rfl

/-! ## Section 4: One instruction -/

variable {p q : Processor} {kind : CodeKind} {v v' : StackView} {rest path : List Instruction}

/-- The tasks and their frames are left alone. -/
structure SameTasks (p q : Processor) : Prop where
  frames : q.frames = p.frames
  isUser : q.isUser = p.isUser
  currentTask : q.currentTask = p.currentTask
  kernelStackPointer : q.kernelStackPointer = p.kernelStackPointer
  taskCount : q.taskCount = p.taskCount

theorem StacksTracked.of_kernel (h : p.StacksTracked) (same : SameTasks p q)
    (hring : q.ring3 = false) (hcontext : q.KernelContext kind v) : q.StacksTracked where
  user := by
    intro huser
    rw [hring] at huser
    cases huser
  kernel _ := ⟨kind, v, hcontext⟩
  suspended := by
    rw [same.frames, same.isUser]
    exact h.suspended
  stackPointer := by
    rw [same.kernelStackPointer, same.currentTask]
    exact h.stackPointer
  current := by
    rw [same.currentTask, same.taskCount]
    exact h.current
  fresh := by
    rw [same.frames, same.taskCount]
    exact h.fresh

theorem GSAgrees.same {gs : GSView} (h : p.GSAgrees gs) (same : SameTasks p q)
    (hgs : q.kernelGS = p.kernelGS) : q.GSAgrees gs := by
  cases gs
  case kernel => exact hgs.trans h
  case user => exact hgs.trans h
  case asFrame =>
    unfold GSAgrees
    rw [same.frames, same.currentTask, hgs]
    exact h

/-- The same path goes on, with another view. -/
theorem KernelContext.go_on (h : p.KernelContext kind v) (same : SameTasks p q)
    (hflags : q.userFlags = p.userFlags)
    (hdescribes : v'.Describes q.interruptsEnabled q.states q.rsp (.kernel p.currentTask))
    (hgs : q.GSAgrees v'.gs) (hcontinues : v'.Continues kind q.code) : q.KernelContext kind v' where
  describes := by
    rw [same.currentTask]
    exact hdescribes
  gs := hgs
  continues := hcontinues
  fits := by
    rw [same.isUser, same.currentTask, same.frames, hflags]
    exact h.fits

/-- An instruction that leaves the GS base and the tasks alone. -/
theorem StacksTracked.go_on (h : p.StacksTracked) (hcontext : p.KernelContext kind v)
    (hring : q.ring3 = false) (hcontinues : v'.Continues kind q.code) (same : SameTasks p q)
    (hflags : q.userFlags = p.userFlags) (hactive : q.kernelGS = p.kernelGS) (hgs : v'.gs = v.gs)
    (hdescribes : v'.Describes q.interruptsEnabled q.states q.rsp (.kernel p.currentTask)) :
    q.StacksTracked := by
  apply h.of_kernel same hring
  apply hcontext.go_on same hflags hdescribes ?_ hcontinues
  rw [hgs]
  exact hcontext.gs.same same hactive

/-- The last frame decides which GS base a handler works with, and leaves. -/
theorem context_swapgsIfUser (h : p.KernelContext kind v)
    (hmove : stackMove kind v .swapgsIfUser = some v') (hgood : v'.Good)
    (hrest : v'.Continues kind rest) :
    ({ p with code := rest }.effect .swapgsIfUser).KernelContext kind v' := by
  obtain ⟨rfl, hcases⟩ := stackMove_swapgsIfUser hmove
  have hframes : p.frames p.currentTask ≠ [] := h.fits
  obtain ⟨f, below, hf⟩ := List.exists_cons_of_ne_nil hframes
  have heffect : { p with code := rest }.effect .swapgsIfUser =
      { p with code := rest, kernelGS := if f.ring3 then !p.kernelGS else p.kernelGS } := by
    unfold effect
    dsimp only
    rw [hf]
    dsimp only
    split <;> rfl
  have hgs := h.gs
  rw [heffect]
  rcases hcases with ⟨hview, rfl⟩ | ⟨hview, rfl⟩
  · rw [hview] at hgs
    -- behind the gate the GS base is that of the interrupted code
    have hactive : p.kernelGS = !f.ring3 := hgs f below hf
    refine h.go_on ⟨rfl, rfl, rfl, rfl, rfl⟩ rfl (h.describes.setGS hgood) ?_ hrest
    show (if f.ring3 then !p.kernelGS else p.kernelGS) = true
    rw [hactive]
    cases f.ring3 <;> rfl
  · rw [hview] at hgs
    have hactive : p.kernelGS = true := hgs
    refine h.go_on ⟨rfl, rfl, rfl, rfl, rfl⟩ rfl (h.describes.setGS hgood) ?_ hrest
    intro g others hg
    have hsame : g :: others = f :: below := hg.symm.trans hf
    cases hsame
    show (if f.ring3 then !p.kernelGS else p.kernelGS) = !f.ring3
    rw [hactive]
    cases f.ring3 <;> rfl

/-- `swapgs` in `syscall_entry`. -/
theorem context_swapgs (h : p.KernelContext kind v) (hmove : stackMove kind v .swapgs = some v')
    (hgood : v'.Good) (hrest : v'.Continues kind rest) :
    ({ p with code := rest }.effect .swapgs).KernelContext kind v' := by
  have hgs := h.gs
  rcases stackMove_swapgs hmove with ⟨hview, rfl⟩ | ⟨hview, rfl⟩
  · rw [hview] at hgs
    have hactive : p.kernelGS = false := hgs
    refine h.go_on ⟨rfl, rfl, rfl, rfl, rfl⟩ rfl (h.describes.setGS hgood) ?_ hrest
    show (!p.kernelGS) = true
    rw [hactive]
    rfl
  · rw [hview] at hgs
    have hactive : p.kernelGS = true := hgs
    refine h.go_on ⟨rfl, rfl, rfl, rfl, rfl⟩ rfl (h.describes.setGS hgood) ?_ hrest
    show (!p.kernelGS) = false
    rw [hactive]
    rfl

theorem context_stiIfEnabled (h : p.KernelContext kind v)
    (hmove : stackMove kind v .stiIfEnabled = some v') (hgood : v'.Good)
    (hrest : v'.Continues kind rest) :
    ({ p with code := rest }.effect .stiIfEnabled).KernelContext kind v' := by
  have hd := h.describes
  cases hsaved : v.saved with
  | nil => simp [stackMove, hsaved] at hmove
  | cons maySet saved =>
    simp only [stackMove, hsaved, Option.some.injEq] at hmove
    subst hmove
    have hmatches := hd.saved
    unfold StackView.Saved at hmatches
    rw [hsaved] at hmatches
    obtain ⟨state, states, hstate, hstates, heq⟩ := List.forall₂_cons_left_iff.mp hmatches
    refine h.go_on ⟨rfl, rfl, rfl, rfl, rfl⟩ rfl ⟨hgood, ?_, ?_, hd.own, hd.user, hd.waits, hd.left⟩
      (h.gs.same ⟨rfl, rfl, rfl, rfl, rfl⟩ rfl) hrest
    · -- IF stays 0 if the saved flag is known to be clear
      intro hoff
      simp only [Bool.and_eq_true, Bool.not_eq_true'] at hoff
      simp [effect, heq, hd.off hoff.1, hstate hoff.2]
    · simpa [effect, heq, StackView.Saved] using hstates

/-- `sysret` goes back to ring 3 as it was when the service was asked for. -/
theorem stacks_sysret (h : p.StacksTracked) (hcontext : p.KernelContext kind v)
    (hmove : stackMove kind v .sysret = some v') :
    ({ p with code := rest }.effect .sysret).StacksTracked := by
  unfold stackMove at hmove
  dsimp only at hmove
  split at hmove
  · rename_i hview
    obtain ⟨rfl, rfl⟩ := hview
    obtain ⟨huser, hflags⟩ := hcontext.fits
    have hstates : p.states = [] := List.forall₂_nil_left_iff.mp hcontext.describes.saved
    refine ⟨fun _ => ⟨⟨rfl, hflags, hcontext.describes.user rfl, hstates, huser⟩, hcontext.gs⟩, ?_,
      h.suspended, h.stackPointer, h.current, h.fresh⟩
    intro hring
    cases hring
  · cases hmove

theorem framesSound_of_update {task : Nat} {isUser : Nat → Bool} {frames : Nat → List Frame}
    {stack : List Frame} (h : ∀ task, FramesSound task (isUser task) (frames task))
    (hstack : FramesSound task (isUser task) stack) :
    ∀ other, FramesSound other (isUser other) (Function.update frames task stack other) := by
  intro other
  by_cases heq : other = task
  · rw [heq, Function.update_self]
    exact hstack
  · rw [Function.update_of_ne heq]
    exact h other

/-- `iretq` takes up what the frame stands for. -/
theorem stacks_iretq (h : p.StacksTracked) (hcontext : p.KernelContext kind v)
    (hmove : stackMove kind v .iretq = some v') :
    ({ p with code := rest }.effect .iretq).StacksTracked := by
  unfold stackMove at hmove
  dsimp only at hmove
  split at hmove
  · rename_i hview
    obtain ⟨rfl, hgs⟩ := hview
    -- The frame that `iretq` pops is the topmost one.
    obtain ⟨f, below, hf⟩ := List.exists_cons_of_ne_nil hcontext.fits
    -- `swapgs` has already made the register what the frame asks for.
    have hactive : p.kernelGS = !f.ring3 := by
      have hagrees := hcontext.gs
      rw [hgs] at hagrees
      exact hagrees f below hf
    have hsound := h.suspended p.currentTask
    rw [hf] at hsound
    obtain ⟨hframe, hbelow⟩ := hsound
    have heffect : { p with code := rest }.effect .iretq =
        { p with code := rest }.resume f below := by
      unfold effect
      dsimp only
      rw [hf]
    rw [heffect]
    refine ⟨?_, ?_, framesSound_of_update h.suspended hbelow, h.stackPointer, h.current, ?_⟩
    -- Back in ring 3: the frame that is gone was the last one.
    · intro hring
      have hring3 : f.ring3 = true := hring
      unfold Frame.Sound at hframe
      rw [if_pos hring3] at hframe
      refine ⟨hframe, ?_⟩
      show p.kernelGS = false
      rw [hactive, hring3]
      rfl
    -- Back in ring 0: the kernel goes on where the frame has stopped it.
    · intro hring
      have hring0 : f.ring3 = false := hring
      unfold Frame.Sound at hframe
      rw [if_neg (by simp [hring0])] at hframe
      obtain ⟨kind, w, hdescribes, hkernel, hcontinues, hfits⟩ := hframe
      refine ⟨kind, w, hdescribes, ?_, hcontinues, ?_⟩
      · rw [hkernel]
        show p.kernelGS = true
        rw [hactive, hring0]
        rfl
      · show kind.Fits (p.isUser p.currentTask) f.userFlags
          (Function.update p.frames p.currentTask below p.currentTask)
        rw [Function.update_self]
        exact hfits
    -- The stacks of the tasks that do not exist yet stay empty.
    · intro task htask
      have hne : task ≠ p.currentTask := (Nat.lt_of_lt_of_le h.current htask).ne'
      show Function.update p.frames p.currentTask below task = []
      rw [Function.update_of_ne hne]
      exact h.fresh task htask
  · cases hmove

/-- A new task begins in ring 3, or as a thread on its own stack. -/
theorem sound_spawnedFrame (task : Nat) (isUser : Bool) :
    (spawnedFrame task isUser).Sound task isUser [] := by
  cases isUser
  case true => exact ⟨rfl, rfl, rfl, rfl, rfl⟩
  case false =>
    refine ⟨.thread, .entry .thread, ?_, rfl, rfl, trivial⟩
    exact StackView.describes_entry (by simp [StackView.entry]) (fun _ => rfl) (by simp)

theorem stacks_linkTask (h : p.StacksTracked) (hring : p.ring3 = false)
    (hcontext : p.KernelContext kind v) (isUser : Bool) (hrest : v.Continues kind rest) :
    ({ p with code := rest }.effect (.linkTask isUser)).StacksTracked := by
  have hne : p.currentTask ≠ p.taskCount := h.current.ne
  have hframes : Function.update p.frames p.taskCount [spawnedFrame p.taskCount isUser]
      p.currentTask = p.frames p.currentTask := Function.update_of_ne hne _ _
  have huser : Function.update p.isUser p.taskCount isUser p.currentTask =
      p.isUser p.currentTask := Function.update_of_ne hne _ _
  refine ⟨?_, ?_, ?_, h.stackPointer, Nat.lt_succ_of_lt h.current, ?_⟩
  · intro hring3
    have hcontra : p.ring3 = true := hring3
    rw [hring] at hcontra
    cases hcontra
  · intro _
    refine ⟨kind, v, hcontext.describes, ?_, hrest, ?_⟩
    -- The running context is not the new task's, so its view is unchanged.
    · have hgs := hcontext.gs
      cases hview : v.gs
      all_goals rw [hview] at hgs
      case kernel => exact hgs
      case user => exact hgs
      case asFrame =>
        intro f below hf
        apply hgs f below
        rw [← hframes]
        exact hf
    · show kind.Fits (Function.update p.isUser p.taskCount isUser p.currentTask) p.userFlags
        (Function.update p.frames p.taskCount [spawnedFrame p.taskCount isUser] p.currentTask)
      rw [huser, hframes]
      exact hcontext.fits
  · intro task
    show FramesSound task (Function.update p.isUser p.taskCount isUser task)
      (Function.update p.frames p.taskCount [spawnedFrame p.taskCount isUser] task)
    -- The new task starts with the one frame that `OSSchedulerSpawn` builds for it.
    by_cases htask : task = p.taskCount
    · rw [htask, Function.update_self, Function.update_self]
      exact ⟨sound_spawnedFrame _ _, trivial⟩
    · rw [Function.update_of_ne htask, Function.update_of_ne htask]
      exact h.suspended task
  · intro task htask
    have hlater : p.taskCount + 1 ≤ task := htask
    show Function.update p.frames p.taskCount [spawnedFrame p.taskCount isUser] task = []
    rw [Function.update_of_ne (Nat.lt_of_succ_le hlater).ne']
    exact h.fresh task (Nat.le_of_succ_le hlater)

section Instruction

variable (h : p.StacksTracked) (hring : p.ring3 = false) (hcontext : p.KernelContext kind v)
  (hrest : v'.Continues kind rest)
include h hring hcontext hrest

theorem stacks_readFlags (hmove : stackMove kind v .readFlags = some v') (hgood : v'.Good) :
    ({ p with code := rest }.effect .readFlags).StacksTracked := by
  cases hmove
  have hd := hcontext.describes
  refine h.go_on hcontext hring hrest ⟨rfl, rfl, rfl, rfl, rfl⟩ rfl rfl rfl ?_
  refine ⟨hgood, hd.off, .cons ?_ hd.saved, hd.own, hd.user, hd.waits, hd.left⟩
  -- the saved flag is clear if IF is known to be
  intro hmay
  apply hd.off
  simpa using hmay

theorem stacks_cli (hmove : stackMove kind v .cli = some v') (hgood : v'.Good) :
    ({ p with code := rest }.effect .cli).StacksTracked := by
  cases hmove
  have hd := hcontext.describes
  refine h.go_on hcontext hring hrest ⟨rfl, rfl, rfl, rfl, rfl⟩ rfl rfl rfl ?_
  exact ⟨hgood, fun _ => rfl, hd.saved, hd.own, hd.user, hd.waits, hd.left⟩

/-- Threads alone set IF: the waiting loop of the services is not entered. -/
theorem stacks_sti (hmove : stackMove kind v .sti = some v') (hgood : v'.Good) :
    ({ p with code := rest }.effect .sti).StacksTracked := by
  have hd := hcontext.describes
  cases kind
  case thread =>
    cases hmove
    refine h.go_on hcontext hring hrest ⟨rfl, rfl, rfl, rfl, rfl⟩ rfl rfl rfl ?_
    exact ⟨hgood, by simp, hd.saved, hd.own, hd.user, hd.waits, hd.left⟩
  case service => simp [stackMove, hd.waits] at hmove
  case handler => cases hmove

/-- A thread goes on waiting for the key. -/
theorem stacks_keyboardEmpty (hmove : stackMove kind v .keyboardEmpty = some v')
    (hbuffered : p.isUser p.currentTask = false) :
    ({ p with code := rest }.effect .keyboardEmpty).StacksTracked := by
  cases kind
  case thread =>
    cases hmove
    exact h.go_on hcontext hring hrest ⟨rfl, rfl, rfl, rfl, rfl⟩ rfl rfl rfl hcontext.describes
  case service =>
    -- a service runs for a user task, and this one is none
    have huser := hcontext.fits.1
    rw [hbuffered] at huser
    cases huser
  case handler => cases hmove

theorem stacks_loadStackPointer (hmove : stackMove kind v .loadStackPointer = some v')
    (hgood : v'.Good) : ({ p with code := rest }.effect .loadStackPointer).StacksTracked := by
  have hd := hcontext.describes
  obtain ⟨stack, heq⟩ := exists_effect_loadStackPointer { p with code := rest }
  rw [heq]
  obtain ⟨-, hsome⟩ := Option.ite_none_right_eq_some.mp hmove
  cases hsome
  refine h.go_on hcontext hring hrest ⟨rfl, rfl, rfl, rfl, rfl⟩ rfl rfl rfl ?_
  exact ⟨hgood, hd.off, hd.saved, by simp, by simp, hd.waits, hd.left⟩

theorem stacks_loadKernelStack (hmove : stackMove kind v .loadKernelStack = some v')
    (hgood : v'.Good) : ({ p with code := rest }.effect .loadKernelStack).StacksTracked := by
  have hd := hcontext.describes
  obtain ⟨-, hsome⟩ := Option.ite_none_right_eq_some.mp hmove
  cases hsome
  refine h.go_on hcontext hring hrest ⟨rfl, rfl, rfl, rfl, rfl⟩ rfl rfl rfl ?_
  refine ⟨hgood, hd.off, hd.saved, fun _ => ?_, by simp, hd.waits, hd.left⟩
  -- `gOSBootCPU` holds the stack of the current task
  show Stack.kernel p.kernelStackPointer = Stack.kernel p.currentTask
  rw [h.stackPointer]

theorem stacks_popUserStack (hmove : stackMove kind v .popUserStack = some v')
    (hgood : v'.Good) : ({ p with code := rest }.effect .popUserStack).StacksTracked := by
  have hd := hcontext.describes
  obtain ⟨-, hsome⟩ := Option.ite_none_right_eq_some.mp hmove
  cases hsome
  refine h.go_on hcontext hring hrest ⟨rfl, rfl, rfl, rfl, rfl⟩ rfl rfl rfl ?_
  exact ⟨hgood, hd.off, hd.saved, by simp, fun _ => rfl, hd.waits, hd.left⟩

/-- Trying a lock: it is taken, or the instruction is tried again. -/
theorem stacks_exchange {lock : OSSpinlock} (hcode : p.code = .exchange lock :: rest)
    (hmove : stackMove kind v (.exchange lock) = some v') : p.execute.StacksTracked := by
  cases hmove
  cases hvalue : p.lockValue lock
  case false =>
    rw [execute_exchange hcode hvalue]
    exact h.go_on hcontext hring hrest ⟨rfl, rfl, rfl, rfl, rfl⟩ rfl rfl rfl hcontext.describes
  case true =>
    have hspin : p.execute = p := by
      unfold execute
      rw [hcode]
      simp [hvalue]
    rw [hspin]
    exact h

end Instruction

/-- The processor stays at `die`, with IF 0. -/
theorem stacks_die (h : p.StacksTracked) (hring : p.ring3 = false)
    (hcontext : p.KernelContext kind v) (hcode : p.code = .die :: rest) :
    p.execute.StacksTracked := by
  have hd := hcontext.describes
  rw [execute_die hcode]
  refine h.go_on hcontext hring hcontext.continues ⟨rfl, rfl, rfl, rfl, rfl⟩ rfl rfl rfl ?_
  exact ⟨hd.good, fun _ => rfl, hd.saved, hd.own, hd.user, hd.waits, hd.left⟩

/-! ## Section 5: Every event -/

/-- No user task finds the keyboard's ring buffer empty when it reads. -/
def ReadsBuffered (p : Processor) (event : Event) : Prop :=
  event = .execute → p.code.head? = some .keyboardEmpty → p.isUser p.currentTask = false

/-- Ring 3 executes nothing of the kernel, and in ring 0 the automaton follows. -/
theorem StacksTracked.kernel_of_code {i : Instruction} (h : p.StacksTracked)
    (hcode : p.code = i :: rest) :
    p.ring3 = false ∧ ∃ kind v v', p.KernelContext kind v ∧ stackMove kind v i = some v' ∧
      v'.Good ∧ v'.Continues kind rest := by
  have hring : p.ring3 = false := by
    rw [← Bool.not_eq_true]
    intro hring3
    have hnone := (h.user hring3).1.code
    rw [hcode] at hnone
    cases hnone
  obtain ⟨kind, v, hcontext⟩ := h.kernel hring
  have hcontinues := hcontext.continues
  rw [hcode] at hcontinues
  obtain ⟨v', hmove, hgood, hrest⟩ := hcontinues.cons
  exact ⟨hring, kind, v, v', hcontext, hmove, hgood, hrest⟩

theorem stacks_execute (h : p.StacksTracked) (hpossible : p.Possible .execute)
    (hbuffered : p.ReadsBuffered .execute) : p.execute.StacksTracked := by
  cases hcode : p.code with
  | nil => simp [Possible, canExecute, hcode] at hpossible
  | cons i rest =>
    obtain ⟨hring, kind, v, v', hcontext, hmove, hgood, hrest⟩ := h.kernel_of_code hcode
    cases i
    case int32 => simp [Possible, canExecute, hcode] at hpossible
    case int3 => simp [Possible, canExecute, hcode] at hpossible
    case switchTask => simp [Possible, canExecute, hcode] at hpossible
    case die => exact stacks_die h hring hcontext hcode
    case exchange lock => exact stacks_exchange h hring hcontext hrest hcode hmove
    all_goals rw [execute_of_code hcode (by simp) (by simp)]
    case readFlags => exact stacks_readFlags h hring hcontext hrest hmove hgood
    case cli => exact stacks_cli h hring hcontext hrest hmove hgood
    case sti => exact stacks_sti h hring hcontext hrest hmove hgood
    case keyboardEmpty =>
      exact stacks_keyboardEmpty h hring hcontext hrest hmove (hbuffered rfl (by rw [hcode]; rfl))
    case stiIfEnabled =>
      exact h.of_kernel ⟨rfl, rfl, rfl, rfl, rfl⟩ hring
        (context_stiIfEnabled hcontext hmove hgood hrest)
    case swapgs =>
      exact h.of_kernel ⟨rfl, rfl, rfl, rfl, rfl⟩ hring (context_swapgs hcontext hmove hgood hrest)
    case swapgsIfUser =>
      have hnext := context_swapgsIfUser hcontext hmove hgood hrest
      obtain ⟨active, heq⟩ := exists_effect_swapgsIfUser { p with code := rest }
      rw [heq] at hnext ⊢
      exact h.of_kernel ⟨rfl, rfl, rfl, rfl, rfl⟩ hring hnext
    case loadStackPointer => exact stacks_loadStackPointer h hring hcontext hrest hmove hgood
    case loadKernelStack => exact stacks_loadKernelStack h hring hcontext hrest hmove hgood
    case popUserStack => exact stacks_popUserStack h hring hcontext hrest hmove hgood
    case sysret => exact stacks_sysret h hcontext hmove
    case iretq => exact stacks_iretq h hcontext hmove
    case linkTask isUser =>
      cases hmove
      exact stacks_linkTask h hring hcontext isUser hrest
    -- the view is as before, and no task changes
    all_goals
      cases hmove
      exact h.go_on hcontext hring hrest ⟨rfl, rfl, rfl, rfl, rfl⟩ rfl rfl rfl hcontext.describes

/-- What is running becomes a frame, and a stub of the interrupt table begins. -/
theorem stacks_enter (h : p.StacksTracked) {place : Stack}
    (hframe : (p.frame place).Sound p.currentTask (p.isUser p.currentTask)
      (p.frames p.currentTask))
    (hactive : p.kernelGS = !p.ring3)
    (hpath : StackView.Continues .handler (.entry .handler) path) :
    (p.enter path place).StacksTracked where
  user := by
    intro hring
    cases hring
  kernel := by
    intro _
    refine ⟨.handler, .entry .handler, StackView.describes_entry (fun _ => rfl) (by simp) (by simp), ?_,
      hpath, ?_⟩
    -- The new frame is on top, so the register is what it says.
    · intro f below hf
      have hlast : p.pushFrame (p.frame place) p.currentTask =
          p.frame place :: p.frames p.currentTask := Function.update_self _ _ _
      have heq : f :: below = p.frame place :: p.frames p.currentTask := hf.symm.trans hlast
      cases heq
      exact hactive
    · show p.pushFrame (p.frame place) p.currentTask ≠ []
      unfold pushFrame
      rw [Function.update_self]
      exact List.cons_ne_nil _ _
  suspended := framesSound_of_update h.suspended ⟨hframe, h.suspended p.currentTask⟩
  stackPointer := h.stackPointer
  current := h.current
  fresh := by
    intro task htask
    show p.pushFrame (p.frame place) task = []
    unfold pushFrame
    rw [Function.update_of_ne (Nat.lt_of_lt_of_le h.current htask).ne']
    exact h.fresh task htask

/-- In ring 3 a user task can be interrupted at any instruction. -/
theorem StacksTracked.sound_user (h : p.StacksTracked) (hring : p.ring3 = true) (place : Stack) :
    (p.frame place).Sound p.currentTask (p.isUser p.currentTask) (p.frames p.currentTask) := by
  unfold Frame.Sound
  rw [if_pos (show (p.frame place).ring3 = true from hring)]
  exact (h.user hring).1

theorem KernelContext.sound (h : p.KernelContext kind v) (hring : p.ring3 = false)
    (hgs : v.gs = .kernel) (place : Stack) :
    (p.frame place).Sound p.currentTask (p.isUser p.currentTask) (p.frames p.currentTask) := by
  unfold Frame.Sound
  rw [if_neg (by simp [frame, hring])]
  exact ⟨kind, v, h.describes, hgs, h.continues, h.fits⟩

/-- Past an instruction that asks for an interrupt the same view holds. -/
theorem stacks_software {i : Instruction} (h : p.StacksTracked) (hcode : p.code.head? = some i)
    (hi : i = .int32 ∨ i = .int3) :
    p.ring3 = false ∧ ({ p with code := p.code.tail } : Processor).StacksTracked ∧
      ∃ kind v, ({ p with code := p.code.tail } : Processor).KernelContext kind v ∧
        v.gs = .kernel := by
  obtain ⟨rest, hrest⟩ := List.head?_eq_some_iff.mp hcode
  obtain ⟨hring, kind, v, v', hcontext, hmove, -, hafter⟩ := h.kernel_of_code hrest
  -- The instruction moves nothing: it only asks that the register is the kernel's.
  have hkeep : v.gs = .kernel ∧ v' = v := by
    rcases hi with rfl | rfl
    all_goals
      obtain ⟨hgs, hsome⟩ := Option.ite_none_right_eq_some.mp hmove
      cases hsome
      exact ⟨hgs, rfl⟩
  rw [hkeep.2] at hafter
  have hnext : ({ p with code := p.code.tail } : Processor).KernelContext kind v := by
    refine ⟨hcontext.describes, hcontext.gs.same ⟨rfl, rfl, rfl, rfl, rfl⟩ rfl, ?_, hcontext.fits⟩
    rw [hrest]
    exact hafter
  exact ⟨hring, h.of_kernel ⟨rfl, rfl, rfl, rfl, rfl⟩ hring hnext, kind, v, hnext, hkeep.1⟩

theorem stacks_switch (h : p.StacksTracked) {task : Nat} (hpossible : p.Possible (.switch task)) :
    (p.after (.switch task)).StacksTracked := by
  obtain ⟨hcode, hframes, -⟩ := hpossible
  obtain ⟨rest, hrest⟩ := List.head?_eq_some_iff.mp hcode
  obtain ⟨hring, kind, v, v', hcontext, hmove, -, hafter⟩ := h.kernel_of_code hrest
  obtain ⟨⟨rfl, hgs, hrsp⟩, hsome⟩ := Option.ite_none_right_eq_some.mp hmove
  cases hsome
  have hd := hcontext.describes
  refine ⟨?_, ?_, h.suspended, rfl, ?_, h.fresh⟩
  · intro hring3
    have hcontra : p.ring3 = true := hring3
    rw [hring] at hcontra
    cases hcontra
  · intro _
    refine ⟨.handler, v, ⟨hd.good, hd.off, hd.saved, ?_, hd.user, hd.waits, hd.left⟩, ?_, ?_, hframes⟩
    · -- a handler knows nothing of RSP
      intro hown
      rw [hrsp] at hown
      cases hown
    · have hactive := hcontext.gs
      rw [hgs] at hactive ⊢
      exact hactive
    · show v.Continues .handler p.code.tail
      rw [hrest]
      exact hafter
  · -- a task with a frame has been linked
    show task < p.taskCount
    by_contra hlater
    exact hframes (h.fresh task (Nat.le_of_not_lt hlater))

/-- Every event keeps the automaton in step with the processor, if no user task has
to wait for a key. -/
theorem stacksTracked_after (p : Processor) (event : Event) (h : p.StacksTracked)
    (hpossible : p.Possible event ∧ p.ReadsBuffered event) : (p.after event).StacksTracked := by
  obtain ⟨hpossible, hbuffered⟩ := hpossible
  cases event with
  | execute => exact stacks_execute h hpossible hbuffered
  | switch task => exact stacks_switch h hpossible
  | interrupt number path =>
    obtain ⟨hif, -, hpath⟩ := hpossible
    have hcontinues := runPath_of_checkPaths (checkPaths_irq number) hpath
    cases hring : p.ring3 with
    | true =>
      apply stacks_enter h (h.sound_user hring _) ?_ hcontinues
      rw [(h.user hring).2, hring]
      rfl
    | false =>
      obtain ⟨kind, v, hcontext⟩ := h.kernel hring
      have hdescribes := hcontext.describes
      rw [hif] at hdescribes
      -- IF is 1, so the kernel's stack and GS base are in use
      have hgs := hdescribes.of_enabled.1
      apply stacks_enter h (hcontext.sound hring hgs _) ?_ hcontinues
      have hactive := hcontext.gs
      rw [hgs] at hactive
      rw [hring]
      exact hactive
  | int32 path =>
    obtain ⟨hcode, hpath⟩ := hpossible
    obtain ⟨hring, hnext, kind, v, hcontext, hgs⟩ := stacks_software h hcode (.inl rfl)
    apply stacks_enter hnext (hcontext.sound hring hgs _) ?_
      (runPath_of_checkPaths (checkPaths_irq 32) hpath)
    have hactive := hcontext.gs
    rw [hgs] at hactive
    exact hactive.trans (by rw [hring]; rfl)
  | int3 path =>
    obtain ⟨hcode, hpath⟩ := hpossible
    obtain ⟨hring, hnext, kind, v, hcontext, hgs⟩ := stacks_software h hcode (.inr rfl)
    apply stacks_enter hnext (hcontext.sound hring hgs _) ?_
      (runPath_of_checkPaths (checkPaths_isr 3) hpath)
    have hactive := hcontext.gs
    rw [hgs] at hactive
    exact hactive.trans (by rw [hring]; rfl)
  | exception number path =>
    obtain ⟨hring, hpath⟩ := hpossible
    apply stacks_enter h (h.sound_user hring _) ?_
      (runPath_of_checkPaths (checkPaths_isr number) hpath)
    rw [(h.user hring).2, hring]
    rfl
  | panic =>
    have hring : p.ring3 = false := hpossible
    obtain ⟨kind, v, hcontext⟩ := h.kernel hring
    have hd := hcontext.describes
    have hcontinues : v.Continues kind (.die :: p.code) := by
      apply runPath_cons_eq_some.mpr
      refine ⟨v, ?_, hcontext.continues⟩
      exact Option.filter_eq_some_iff.mpr ⟨rfl, decide_eq_true hd.good⟩
    refine h.go_on hcontext hring hcontinues ⟨rfl, rfl, rfl, rfl, rfl⟩ rfl rfl rfl ?_
    exact ⟨hd.good, fun _ => rfl, hd.saved, hd.own, hd.user, hd.waits, hd.left⟩
  | syscall id path =>
    obtain ⟨hring, hpath⟩ := hpossible
    obtain ⟨huser, hactive⟩ := h.user hring
    have hcontinues := runPath_of_checkPaths (checkPaths_service id) hpath
    refine ⟨by simp [after], fun _ => ?_, h.suspended, h.stackPointer, h.current, h.fresh⟩
    refine ⟨.service, .entry .service, ?_, hactive, hcontinues, huser.isUser, huser.enabled⟩
    show (StackView.entry .service).Describes false p.states p.rsp (.kernel p.currentTask)
    rw [huser.states]
    exact StackView.describes_entry (fun _ => rfl) (by simp) (fun _ => huser.rsp)
  | call path =>
    obtain ⟨hring, hcode, hpath⟩ := hpossible
    obtain ⟨kind, v, hcontext⟩ := h.kernel hring
    have hcontinues := hcontext.continues
    rw [hcode] at hcontinues
    obtain ⟨rfl, rfl⟩ := hcontinues.nil hcontext.describes.left
    exact h.go_on hcontext hring (runPath_of_checkPaths checkPaths_thread hpath)
      ⟨rfl, rfl, rfl, rfl, rfl⟩ rfl rfl rfl hcontext.describes

/-! ## Section 6: Where interrupts land -/

/-- What is left of `syscall_entry` from `pop rsp` on. -/
def exitPath : List Instruction := [.popUserStack, .swapgs, .sysret]

/-- An interrupt that comes in ring 0 finds RSP on the kernel stack of the current
task and the GS base of the kernel active, and none comes on the way out of
`syscall_entry`. -/
structure InterruptsOnKernelStack (p : Processor) : Prop where
  ring0 : p.ring3 = false → p.interruptsEnabled = true →
    p.rsp = .kernel p.currentTask ∧ p.kernelGS = true
  exit : p.code ≠ [] → p.code <:+ exitPath → p.interruptsEnabled = false

theorem StacksTracked.interruptsOnKernelStack (h : p.StacksTracked) :
    p.InterruptsOnKernelStack where
  ring0 := by
    intro hring hif
    obtain ⟨kind, v, hcontext⟩ := h.kernel hring
    have hdescribes := hcontext.describes
    rw [hif] at hdescribes
    obtain ⟨hgs, hrsp⟩ := hdescribes.of_enabled
    have hactive := hcontext.gs
    rw [hgs] at hactive
    exact ⟨hrsp, hactive⟩
  exit := by
    intro hcode hsuffix
    have hring : p.ring3 = false := by
      rw [← Bool.not_eq_true]
      intro hring3
      exact hcode (h.user hring3).1.code
    obtain ⟨kind, v, hcontext⟩ := h.kernel hring
    obtain ⟨i, rest, heq⟩ := List.exists_cons_of_ne_nil hcode
    have hcontinues := hcontext.continues
    rw [heq] at hcontinues hsuffix
    obtain ⟨v', hmove, -, -⟩ := hcontinues.cons
    apply hcontext.describes.off
    -- each of the three instructions asks for IF to be 0
    have hlast : i = .popUserStack ∨ i = .swapgs ∨ i = .sysret := by
      have hmem : i ∈ exitPath := hsuffix.subset List.mem_cons_self
      simpa [exitPath] using hmem
    rcases hlast with rfl | rfl | rfl
    · exact (Option.ite_none_right_eq_some.mp hmove).1.2
    · obtain ⟨off, saved, gs, rsp, waits, left⟩ := v
      cases kind <;> cases off <;> simp_all [stackMove]
    · obtain ⟨⟨-, hview⟩, -⟩ := Option.ite_none_right_eq_some.mp hmove
      rw [hview]

/-- Runs in which no user task has to wait for a key in `SYS_READ`. -/
abbrev BufferedRuns : Processor → List Event → Processor → Prop :=
  Run (fun p event => p.Possible event ∧ p.ReadsBuffered event) after

/-- `ReadsBuffered`, computed. -/
def testBuffered (p : Processor) : Event → Bool
  | .execute => p.code.head? ≠ some .keyboardEmpty || !p.isUser p.currentTask
  | _ => true

theorem readsBuffered_of_test {event : Event} (h : p.testBuffered event = true) :
    p.ReadsBuffered event := by
  rintro rfl hcode
  simpa [testBuffered, hcode] using h

/-- A key is pressed before a user task reads it. -/
def readMoves : List Move := List.flatten
  [[.call (List.replicate 7 true ++ [false, false, false, false, true])],
    List.replicate 16 .execute,
    [.call (List.replicate 20 true ++ [false]), .execute],
    [.interrupt 33 ([false, false, false, true] ++ List.replicate 20 false)],
    List.replicate 7 .execute,
    [.interrupt 32 (List.replicate 20 false), .execute, .execute, .switch 1],
    List.replicate 4 .execute,
    [.syscall 4 ([false, false, true, true] ++ List.replicate 20 false)],
    List.replicate 9 .execute]

/-- A user task is started and reads a character before there is one: it waits with
interrupts on, a key is pressed, and on the way back to ring 3 IF is still 1. -/
def waitMoves : List Move := List.flatten
  [[.call (List.replicate 7 true ++ [false, false, false, false, true])],
    List.replicate 16 .execute,
    [.call (List.replicate 20 true ++ [false]), .execute],
    -- the timer starts the user task
    [.interrupt 32 (List.replicate 20 false), .execute, .execute, .switch 1],
    List.replicate 4 .execute,
    [.syscall 4 ([false, false, true, true, true] ++ List.replicate 20 false)],
    List.replicate 9 .execute,
    [.int32 (List.replicate 20 false), .execute, .execute, .switch 0],
    List.replicate 4 .execute,
    -- a key
    [.interrupt 33 ([false, false, false, true] ++ List.replicate 20 false)],
    List.replicate 7 .execute,
    [.interrupt 32 (List.replicate 20 false), .execute, .execute, .switch 1],
    List.replicate 11 .execute]

/-- An interrupt between `pop rsp` and `sysret` puts its frame on the stack of ring 3. -/
theorem exists_exposed : ∃ events p, Runs bootProcessor events p ∧ p.ring3 = false ∧
    p.interruptsEnabled = true ∧ p.rsp = .user ∧ p.code = [.swapgs, .sysret] := by
  have hcomputed : ((perform (fun _ _ => true) bootProcessor waitMoves).map
      fun p => (p.ring3, p.interruptsEnabled, p.rsp, p.code)) =
        some (false, true, .user, [.swapgs, .sysret]) := by
    decide +kernel
  obtain ⟨p, hperform, hp⟩ := Option.map_eq_some_iff.mp hcomputed
  simp only [Prod.mk.injEq] at hp
  obtain ⟨events, hrun⟩ := exists_runs_of_perform hperform
  exact ⟨events, p, hrun, hp⟩

end Processor

end TermOS.OS
