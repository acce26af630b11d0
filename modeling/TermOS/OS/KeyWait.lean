import TermOS.OS.SchedulerTurn
import TermOS.OS.SchedulerYield
import TermOS.OS.SpawnRoom

/-!
# Waiting for a key

`IOKeyboardGetCharacter` enables interrupts and calls `OSSchedulerYield(1)` until there is
a key. While `kmain` waits in it there are three tasks, the kernel's own one, the idle task
and the garbage collector, and none of them dies. Whatever happens until the key is there,
the ring stays as it is, and so do the heap's blocks and all memory but the tasks' stacks.

## Main Theorems

* `Idling.step` - what a step of the wait leaves as it was
* `AwaitsKey.idling` - what the wait leaves as it was
* `awaitsKey_yieldOnce` - a wait of one yield and two interrupts
-/

namespace TermOS.OS

open TermOS.Lib TermOS.Kernel TermOS.VM

/-! ## Section 1: The wait -/

/-- What can happen while `kernelTask` waits: interrupts, its own `OSSchedulerYield(1)`, the
statements of the collector, and what is pushed on the stack of the task that executes. -/
def YieldState.WaitAction (kernelTask : Nat) (y : YieldState) : YieldAction → Prop
  | .whole (.tick _) | .whole (.collect _) | .yieldStatement _ => True
  | .whole (.store address _) =>
    (y.scheduler.task y.scheduler.currentTask).kernelStackBase ≤ address ∧
      address < (y.scheduler.task y.scheduler.currentTask).kernelStackTop
  | .yieldCall ticks => y.scheduler.currentTask = kernelTask ∧ ticks = 1
  | _ => False

/-- A step of the wait. -/
def YieldState.WaitStep (kernelTask : Nat) (y : YieldState) (action : YieldAction)
    (y' : YieldState) : Prop :=
  y.Step action y' ∧ y.WaitAction kernelTask action

namespace SchedulerState

/-- The current task waits for a key; in the end it executes again, outside its calls of
`OSSchedulerYield`. -/
def AwaitsKey (s s' : SchedulerState) : Prop :=
  ∃ actions, Trace (YieldState.WaitStep s.currentTask) ⟨s, fun _ => none⟩ actions
    ⟨s', fun _ => none⟩ ∧ s'.currentTask = s.currentTask

end SchedulerState

/-- The current task waits for a key. -/
def Kernel.AwaitsKey (k k' : Kernel) : Prop :=
  ∃ s, k.scheduler.AwaitsKey s ∧ k' = { k with scheduler := s }

/-! ## Section 2: What the wait leaves -/

/-- Where the collector is as long as it finds no dead task: it has tasks of the ring in hand. -/
def Collector.Walks (collector : Collector) (ring : List Nat) : Prop :=
  match collector.point with
  | .enter => True
  | .first | .yieldTicks | .yieldState | .yieldSwitch => collector.self ∈ ring
  | .second => collector.self ∈ ring ∧ collector.previousTask ∈ ring
  | .test | .check | .advance | .follow => collector.self ∈ ring ∧ collector.nextTask ∈ ring
  | .unlink | .freeStack | .freeTask | .reread => False

namespace SchedulerState

/-- From `s` on only interrupts and the collector have been at work: stack pointers, ticks and states
of tasks differ, and what the stacks hold. All tasks of the ring are alive. -/
structure Idling (s : SchedulerState) (ring : List Nat) (s' : SchedulerState) : Prop where
  rest : s' = { s with
    task := s'.task, currentTask := s'.currentTask, collector := s'.collector
    memory := s'.memory, cr3 := s'.cr3, rsp0 := s'.rsp0
    kernelStackPointer := s'.kernelStackPointer }
  task_eq : ∀ t, s'.task t = { s.task t with
    stackPointer := (s'.task t).stackPointer
    sleepTicks := (s'.task t).sleepTicks
    taskState := (s'.task t).taskState }
  current_mem : s'.currentTask ∈ ring
  alive : ∀ t ∈ ring, s'.Alive t
  walks : s'.collector.Walks ring

variable {s s₁ s₂ : SchedulerState} {ring others : List Nat} {sp : Nat}

theorem Idling.successor_eq (h : s.Idling ring s₁) : successor s₁.task = successor s.task := by
  funext t
  rw [successor, h.task_eq t, successor]

/-- Writing ticks and state of the current task, which stays alive. -/
theorem Idling.setCurrent (h : s.Idling ring s₁) (ticks : Nat) {state : OSProcessState}
    (hstate : state ≠ .dead) :
    s.Idling ring (s₁.setTask s₁.currentTask
      { s₁.task s₁.currentTask with sleepTicks := ticks, taskState := state }) := by
  constructor
  · rw [setTask, h.rest]
  · intro t
    by_cases ht : t = s₁.currentTask
    · subst ht
      rw [setTask_same, h.task_eq]
    · rw [setTask_ne _ _ ht]
      exact h.task_eq t
  · exact h.current_mem
  · intro t ht
    by_cases heq : t = s₁.currentTask
    · rw [heq, Alive, setTask_same]
      exact hstate
    · rw [Alive, setTask_ne _ _ heq]
      exact h.alive t ht
  · exact h.walks

theorem Idling.setCollector (h : s.Idling ring s₁) {collector : Collector}
    (hwalks : collector.Walks ring) : s.Idling ring (s₁.setCollector collector) where
  rest := by rw [SchedulerState.setCollector, h.rest]
  task_eq := h.task_eq
  current_mem := h.current_mem
  alive := h.alive
  walks := hwalks

/-- What is stored, and what the registers hold. -/
theorem Idling.setMemory (h : s.Idling ring s₁) (memory : Memory) :
    s.Idling ring { s₁ with memory := memory } where
  rest := by rw [h.rest]
  task_eq := h.task_eq
  current_mem := h.current_mem
  alive := h.alive
  walks := h.walks

section Ring

variable {root : Nat} (hring : Links (successor s.task) root ring root)

include hring

/-- A switch stays on the ring. -/
theorem Idling.next (h : s.Idling ring s₁) (hnext : s₁.next sp = some (.ok s₂)) :
    s.Idling ring s₂ ∧ s₂.memory = s₁.memory := by
  have hswitched := next_switched hnext
  have hrest := hswitched.rest
  obtain ⟨passed, hpassed⟩ := hswitched.reached
  constructor
  · constructor
    · rw [hrest, h.rest]
    · intro t
      rw [hswitched.task_eq t, h.task_eq t]
    · rw [h.successor_eq] at hpassed
      exact hring.reached_mem h.current_mem hpassed
    · intro t ht
      rcases hswitched.state t with heq | ⟨-, hrunning⟩
      · rw [Alive, heq]
        exact h.alive t ht
      · rw [Alive, hrunning]
        exact OSProcessState.noConfusion
    · rw [hrest]
      exact h.walks
  · rw [hrest]

/-- Without a dead task, the collector goes round and yields. -/
theorem Idling.collect (h : s.Idling ring s₁) (hcollect : s₁.collect sp = some (.ok s₂)) :
    s.Idling ring s₂ ∧ s₂.memory = s₁.memory := by
  have hwalks := h.walks
  have hsuccessor : ∀ t, (s₁.task t).next = successor s.task t := fun t => congrFun h.successor_eq t
  rw [SchedulerState.collect] at hcollect
  unfold Collector.Walks at hwalks
  cases hpoint : s₁.collector.point with
  | enter =>
    simp only [hpoint] at hcollect
    cases hcollect
    exact ⟨h.setCollector h.current_mem, rfl⟩
  | first =>
    simp only [hpoint] at hcollect hwalks
    cases hcollect
    exact ⟨h.setCollector ⟨hwalks, hwalks⟩, rfl⟩
  | second =>
    simp only [hpoint] at hcollect hwalks
    cases hcollect
    refine ⟨h.setCollector ⟨hwalks.1, ?_⟩, rfl⟩
    rw [hsuccessor]
    exact hring.next_mem hwalks.2
  | test =>
    simp only [hpoint] at hcollect hwalks
    cases hcollect
    refine ⟨h.setCollector ?_, rfl⟩
    unfold Collector.Walks
    split_ifs
    · exact hwalks
    · exact hwalks.1
  | check =>
    -- the task in hand is alive
    simp only [hpoint] at hcollect hwalks
    rw [if_neg (h.alive _ hwalks.2)] at hcollect
    cases hcollect
    exact ⟨h.setCollector hwalks, rfl⟩
  | advance =>
    simp only [hpoint] at hcollect hwalks
    cases hcollect
    exact ⟨h.setCollector hwalks, rfl⟩
  | follow =>
    simp only [hpoint] at hcollect hwalks
    cases hcollect
    refine ⟨h.setCollector ⟨hwalks.1, ?_⟩, rfl⟩
    rw [hsuccessor]
    exact hring.next_mem hwalks.2
  | yieldTicks =>
    simp only [hpoint] at hcollect hwalks
    cases hcollect
    exact ⟨(h.setCurrent 200 (h.alive _ h.current_mem)).setCollector hwalks, rfl⟩
  | yieldState =>
    simp only [hpoint] at hcollect hwalks
    cases hcollect
    exact ⟨(h.setCurrent _ OSProcessState.noConfusion).setCollector hwalks, rfl⟩
  | yieldSwitch =>
    simp only [hpoint] at hcollect hwalks
    have hmoved : s.Idling ring (s₁.setCollector { s₁.collector with point := .first }) :=
      h.setCollector hwalks
    have hswitched := hmoved.next hring hcollect
    exact hswitched
  | unlink | freeStack | freeTask | reread =>
    simp only [hpoint] at hwalks

/-- What a step of the wait leaves as it was. It stores nothing outside the stack of the task that
executes. -/
theorem Idling.step {y y' : YieldState} {kernelTask : Nat} {action : YieldAction}
    (h : s.Idling ring y.scheduler) (hstep : y.WaitStep kernelTask action y') :
    s.Idling ring y'.scheduler ∧ ∀ x,
      ¬ ((s.task y.scheduler.currentTask).kernelStackBase ≤ x ∧
        x < (s.task y.scheduler.currentTask).kernelStackTop) →
      y'.scheduler.memory x = y.scheduler.memory x := by
  have hquiet : s.Idling ring y'.scheduler ∧ y'.scheduler.memory = y.scheduler.memory →
      s.Idling ring y'.scheduler ∧ ∀ x,
        ¬ ((s.task y.scheduler.currentTask).kernelStackBase ≤ x ∧
          x < (s.task y.scheduler.currentTask).kernelStackTop) →
        y'.scheduler.memory x = y.scheduler.memory x :=
    fun hboth => ⟨hboth.1, fun x _ => congrFun hboth.2 x⟩
  obtain ⟨hstep, hwaits⟩ := hstep
  cases action with
  | whole action =>
    obtain ⟨⟨-, hact⟩, -⟩ := hstep.whole
    cases action with
    | tick sp => exact hquiet (h.next hring hact)
    | collect sp => exact hquiet (h.collect hring hact)
    | store address value =>
      have hsome := Except.ok.inj (Option.some.inj hact)
      rw [← hsome]
      refine ⟨h.setMemory _, fun x hx => ?_⟩
      obtain ⟨hle, hlt⟩ := hwaits
      rw [h.task_eq] at hle hlt
      exact Memory.setByte_ne _ _ fun heq => hx ⟨heq ▸ hle, heq ▸ hlt⟩
    | _ => exact hwaits.elim
  | spawnWaits task entry owner isUser fixedUserStackPointer => exact hwaits.elim
  | yieldCall ticks =>
    obtain rfl := Except.ok.inj (Option.some.inj hstep.2)
    exact hquiet ⟨h, rfl⟩
  | yieldStatement sp =>
    obtain ⟨call, hcall, hact⟩ := hstep.statement
    unfold YieldState.yieldStatement at hact
    cases hpoint : call.point with
    | ticks =>
      simp only [hpoint] at hact
      obtain rfl := Except.ok.inj (Option.some.inj hact)
      exact hquiet ⟨h.setCurrent _ (h.alive _ h.current_mem), rfl⟩
    | state =>
      simp only [hpoint] at hact
      obtain rfl := Except.ok.inj (Option.some.inj hact)
      exact hquiet ⟨h.setCurrent _ OSProcessState.noConfusion, rfl⟩
    | switch =>
      simp only [hpoint] at hact
      obtain ⟨result, hnext, hmap⟩ := Option.map_eq_some_iff.mp hact
      cases result with
      | error panic => cases hmap
      | ok s' =>
        obtain rfl := Except.ok.inj hmap
        exact hquiet (h.next hring hnext)

/-- What a run of the wait leaves as it was. -/
theorem Idling.trace {y y' : YieldState} {kernelTask : Nat} {actions : List YieldAction}
    (h : s.Idling ring y.scheduler) (htrace : Trace (YieldState.WaitStep kernelTask) y actions y') :
    s.Idling ring y'.scheduler := by
  have hkeep : ∀ (y : YieldState) action y', s.Idling ring y.scheduler →
      y.WaitStep kernelTask action y' → s.Idling ring y'.scheduler :=
    fun _ _ _ hidling hstep => (hidling.step hring hstep).1
  exact htrace.invariant hkeep h

end Ring

/-! ## Section 3: The shortest wait -/

/-- The order of turns depends on the links and the current task only. -/
theorem TurnOrder.congr (h : s.TurnOrder others) (hsuccessor : successor s₁.task = successor s.task)
    (hcurrent : s₁.currentTask = s.currentTask) : s₁.TurnOrder others := by
  rw [TurnOrder, hsuccessor, hcurrent]
  exact h

/-- The next task has its turn; the one that it takes the processor from comes last now. -/
theorem TurnOrder.rotate {t : Nat} {rest : List Nat} (h : s.TurnOrder (t :: rest))
    (hsuccessor : successor s₁.task = successor s.task) (hcurrent : s₁.currentTask = t) :
    s₁.TurnOrder (rest ++ [s.currentTask]) := by
  obtain ⟨hlinks, hnodup⟩ := h
  subst hcurrent
  rw [TurnOrder, hsuccessor]
  have hcycle : Links (successor s.task) s.currentTask ([s.currentTask] ++ s₁.currentTask :: rest)
      s.currentTask := hlinks
  have hturns : ([s.currentTask] ++ s₁.currentTask :: rest).Nodup := hnodup
  exact ⟨hcycle.rotate, List.nodup_append_comm.mp hturns⟩

/-- A task behind the current one that is due has the next turn. -/
theorem TurnOrder.next {t : Nat} {rest : List Nat} (h : s.TurnOrder (t :: rest))
    (hlength : rest.length + 1 < s.live.length) (hdue : s.Due t) :
    ∃ s₁, s.next sp = some (.ok s₁) ∧ s.Selects (t :: rest) s₁ ∧ s₁.currentTask = t ∧
      s₁.TurnOrder (rest ++ [s.currentTask]) ∧ Switched s sp s₁ := by
  obtain ⟨s₁, hnext⟩ := @next_ok s sp _ h (List.cons_ne_nil _ _) hlength (.inl ⟨t, by simp, hdue⟩)
  have hselects := next_selects h hlength (by simp) hnext
  have hcurrent := hselects.current_eq (show t :: rest = [] ++ t :: rest from rfl) hdue (by simp)
  have hswitched := next_switched hnext
  have hsame : successor s₁.task = successor s.task := by
    rw [hswitched.aged.successor_eq]
    exact successor_update_same rfl
  exact ⟨s₁, hnext, hselects, hcurrent, h.rotate hsame hcurrent, hswitched⟩

/-- One `OSSchedulerYield(1)` and two timer interrupts. -/
def yieldOnce (s : SchedulerState) : Option (Except SchedulerPanic SchedulerState) :=
  (s.yieldTask 1 0).bind fun yielded =>
    match yielded with
    | .error panic => some (.error panic)
    | .ok s => (s.next 0).bind fun interrupted =>
      match interrupted with
      | .error panic => some (.error panic)
      | .ok s => s.next 0

/-- When two other tasks run, one yield and two interrupts are a wait, after which all three run. -/
theorem awaitsKey_yieldOnce {first second : Nat} (hcalls : s.Calls)
    (horder : s.TurnOrder [first, second]) (hlength : 2 < s.live.length)
    (hfirst : (s.task first).taskState = .running) (hsecond : (s.task second).taskState = .running) :
    ∃ s', s.yieldOnce = some (.ok s') ∧ s.AwaitsKey s' ∧ s'.TurnOrder [first, second] ∧
      s'.currentTask = s.currentTask ∧
      (∀ t ∈ [s.currentTask, first, second], (s'.task t).taskState = .running) ∧
      s' = { s with
        task := s'.task
        currentTask := s'.currentTask
        cr3 := s'.cr3
        rsp0 := s'.rsp0
        kernelStackPointer := s'.kernelStackPointer } := by
  have hnodup := horder.2
  simp only [List.nodup_cons, List.mem_cons, List.not_mem_nil, or_false, not_or] at hnodup
  obtain ⟨⟨hne₁, hne₂⟩, hne₃, -⟩ := hnodup
  -- the yield gives the processor to the first of the two
  have hasleep : (s.fallAsleep 1).TurnOrder [first, second] :=
    horder.congr (successor_update_same rfl) rfl
  have hdue₁ : (s.fallAsleep 1).Due first := by
    refine .inl ?_
    rw [fallAsleep, setTask_ne _ _ (Ne.symm hne₁)]
    exact hfirst
  obtain ⟨s₁, hyield, hselects₁, hcurrent₁, horder₁, hswitched₁⟩ := @TurnOrder.next _ 0 _ _ hasleep hlength hdue₁
  have hlive₁ : s₁.live = s.live := by rw [hswitched₁.rest]; rfl
  -- the first interrupt gives it to the second one
  have hdue₂ : s₁.Due second := by
    refine .inl ?_
    rw [hselects₁.state second (hcurrent₁ ▸ Ne.symm hne₃), fallAsleep, setTask_ne _ _ (Ne.symm hne₂)]
    exact hsecond
  obtain ⟨s₂, hnext₂, hselects₂, hcurrent₂, horder₂, hswitched₂⟩ :=
    @TurnOrder.next _ 0 _ _ horder₁ (by rw [hlive₁]; exact hlength) hdue₂
  have hlive₂ : s₂.live = s₁.live := by rw [hswitched₂.rest]
  -- the other gives it back, since the one tick is over
  have hdue₃ : s₂.Due s.currentTask := by
    have hsleeps : ((s.fallAsleep 1).task s.currentTask).taskState = .sleeping ∧
        ((s.fallAsleep 1).task s.currentTask).sleepTicks = 1 := by
      rw [fallAsleep, setTask_same]
      exact ⟨rfl, rfl⟩
    have hticks₁ : (s₁.task s.currentTask).sleepTicks = 0 := by
      have hleft := hselects₁.ticks s.currentTask List.mem_cons_self
      rw [hleft, ticksLeft, hsleeps.2, if_pos (show s.currentTask = (s.fallAsleep 1).currentTask from rfl)]
    have hticks₂ : (s₂.task s.currentTask).sleepTicks = 0 := by
      have hleft := hselects₂.ticks s.currentTask (by simp [fallAsleep, setTask])
      rw [hleft, ticksLeft, hticks₁, Nat.zero_sub]
    refine .inr ⟨?_, by rw [ticksLeft, hticks₂, Nat.zero_sub]⟩
    rw [hselects₂.state _ (hcurrent₂ ▸ hne₂), hselects₁.state _ (hcurrent₁ ▸ hne₁)]
    exact hsleeps.1
  obtain ⟨s₃, hnext₃, hselects₃, hcurrent₃, horder₃, hswitched₃⟩ :=
    @TurnOrder.next _ 0 _ _ horder₂ (by rw [hlive₂, hlive₁]; exact hlength) hdue₃
  refine ⟨s₃, ?_, ?_, ?_, hcurrent₃, ?_, ?_⟩
  · unfold yieldOnce
    rw [show s.yieldTask 1 0 = some (.ok s₁) from hyield, Option.bind_some]
    simp only [hnext₂, Option.bind_some, hnext₃]
  · obtain ⟨y₁, y₂, y₃, hstep₁, hstep₂, hstep₃, hstep₄⟩ :=
      @YieldState.yieldTask_statements ⟨s, fun _ => none⟩ 1 0 s₁ rfl ⟨hcalls, hyield⟩
    have htick : ∀ {s₁ s₂ : SchedulerState}, s₁.next 0 = some (.ok s₂) →
        YieldState.Step ⟨s₁, fun _ => none⟩ (.whole (.tick 0)) ⟨s₂, fun _ => none⟩ := by
      intro s₁ s₂ hnext
      refine ⟨⟨trivial, ?_, trivial⟩, ?_⟩
      · intro hwakeup
        cases hwakeup
      show (s₁.next 0).map _ = _
      rw [hnext]
      rfl
    refine ⟨_, .cons ⟨hstep₁, rfl, rfl⟩ (.cons ⟨hstep₂, trivial⟩ (.cons ⟨hstep₃, trivial⟩
      (.cons ⟨hstep₄, trivial⟩ (.cons ⟨htick hnext₂, trivial⟩ (.single ⟨htick hnext₃, trivial⟩))))), ?_⟩
    exact hcurrent₃
  · rw [← hcurrent₁, ← hcurrent₂]
    exact horder₃
  · have hrunning₁ : (s₁.task first).taskState = .running := hcurrent₁ ▸ hswitched₁.running
    have hrunning₂ : (s₂.task second).taskState = .running := hcurrent₂ ▸ hswitched₂.running
    have hrunning₃ : (s₃.task s.currentTask).taskState = .running := hcurrent₃ ▸ hswitched₃.running
    have hfirst₃ : (s₃.task first).taskState = .running := by
      rw [hselects₃.state first (hcurrent₃ ▸ Ne.symm hne₁), hselects₂.state first (hcurrent₂ ▸ hne₃)]
      exact hrunning₁
    have hsecond₃ : (s₃.task second).taskState = .running := by
      rw [hselects₃.state second (hcurrent₃ ▸ Ne.symm hne₂)]
      exact hrunning₂
    intro t ht
    simp only [List.mem_cons, List.not_mem_nil, or_false] at ht
    rcases ht with rfl | rfl | rfl
    · exact hrunning₃
    · exact hfirst₃
    · exact hsecond₃
  · rw [hswitched₃.rest, hswitched₂.rest, hswitched₁.rest]
    rfl

end SchedulerState

end TermOS.OS
