import TermOS.Libterm.ConsoleLine
import TermOS.Libterm.String

/-!
# The shell

Model of `userspace/termosh`: `main`, `char2token`, `cmd_spawn` and `not_implemented_yet`, over
the console, the strings and the process services of `userspace/libterm`. What the kernel does in
`OSServiceProcessSpawn` and `OSServiceProcessWait`, and what other processes do meanwhile, is a
parameter. While the shell reads a line it is the only one that reads.

## Main Definitions

* `main` - the code; `none` when it has not come to its end
* `command` - what a line asks for
* `termoshSession` - the shell without its buffers

## Main Theorem

* `main_session` - the code does what the lines ask for, and writes to its buffers only
-/

namespace TermOS.Userspace

open TermOS.Lib TermOS.Libterm TermOS.Device

/-! ## Section 1: The code -/

/-- What the shell shares with other processes: the characters that will be typed, and the rest of
the system. -/
structure World (κ : Type) where
  keys : List UInt8
  system : κ

/-- `ProcessSpawn` and `ProcessWait` -/
structure ProcessServices (κ : Type) where
  processSpawn : World κ → List UInt8 → Int32 × World κ
  processWait : World κ → UInt64 → Int32 × World κ

/-- `termosh_token` -/
inductive TermoshToken
  | empty
  | null
  | illegal
  | quit
  | clear
  | help
  | spawn
  deriving DecidableEq

/-- `token_map`, without its last entry -/
def tokenMap : List (List UInt8 × TermoshToken) :=
  [(literal "q".toList, .quit), (literal "quit".toList, .quit), (literal "exit".toList, .quit),
    (literal "clear".toList, .clear), (literal "help".toList, .help), (literal "spawn".toList, .spawn)]

/-- `char2token` -/
def char2token (m : Memory) (token : Nat) : TermoshToken :=
  match tokenMap.find? fun entry => Kernel.stringCompare (m.advance token) entry.1 = 0 with
  | some entry => entry.2
  | none => .illegal

/-- The memory and `olds`, what the shell has written, and what it shares. -/
structure Shell (κ : Type) where
  strings : StringState
  output : List UInt8
  world : World κ

/-- What follows a turn of the loop of `main`. -/
inductive Turn
  | again
  | returned
  | waits

def promptFormat : Libterm.CString := ⟨literal "termosh_> ".toList, by decide⟩

def notImplementedFormat : Libterm.CString := ⟨literal "Not implemented yet!\n".toList, by decide⟩

def notFoundFormat : Libterm.CString := ⟨literal "\"%s\" not found.\n".toList, by decide⟩

def failedFormat : Libterm.CString := ⟨literal "failed to spawn (%d)\n".toList, by decide⟩

def coreServicesFormat : Libterm.CString := ⟨literal "/System/CoreServices/%s".toList, by decide⟩

/-- `BUFFER_SIZE` -/
def bufferSize : Nat := 512

section Code

-- `stack` is the frame of `ConsolePrint`, and `turns` bounds every loop over a string
variable {κ : Type} (services : ProcessServices κ) (cmdbuff buff : Nat) (stack : Memory) (turns : Nat)

/-- `ConsolePrint` -/
def Shell.print (s : Shell κ) (format : Libterm.CString) (args : List VaArg) : Option (Shell κ) :=
  (consolePrint stack format args turns).map fun printed => { s with output := s.output ++ printed }

/-- `cmd_spawn` -/
def cmdSpawn (path : Nat) (s : Shell κ) : Option (Shell κ) :=
  (stringAt s.strings.memory turns path).bind fun chars =>
    let (pid, world) := services.processSpawn s.world chars.chars
    let s := { s with world := world }
    if pid < 0 then
      if pid = -1 then s.print stack turns notFoundFormat [.string (some chars)]
      else s.print stack turns failedFormat [.int pid]
    -- the shell waits for the process that it has spawned
    else some { s with world := (services.processWait s.world pid.toInt64.toUInt64).2 }

/-- The `switch` of `main`; a line without a token is skipped. -/
def dispatch (s : Shell κ) : List Nat → Option (Shell κ × Turn)
  -- an empty line
  | [] => some (s, .again)
  | token :: tokens =>
    match char2token s.strings.memory token with
    | .quit => some (s, .returned)
    | .clear => (s.print stack turns notImplementedFormat []).map fun s => (s, .again)
    | .help => (s.print stack turns notImplementedFormat []).map fun s => (s, .again)
    | .spawn =>
      match tokens with
      | [] => some (s, .again)
      | path :: _ => (cmdSpawn services stack turns path s).map fun s => (s, .again)
    | _ =>
      -- any other word is the name of a core service
      (stringAt s.strings.memory turns token).bind fun chars =>
        (stringFormat buff 256 coreServicesFormat [.string (some chars)] s.strings.memory turns).bind
          fun formatted =>
            let s := { s with strings := { s.strings with memory := formatted.2 } }
            (cmdSpawn services stack turns buff s).map fun s => (s, .again)

/-- One turn of the loop of `main`. -/
def mainTurn (s : Shell κ) : Option (Shell κ × Turn) :=
  (s.print stack turns promptFormat []).bind fun s =>
    (consoleReadLine cmdbuff (UInt64.ofNat bufferSize) stack turns s.world.keys s.strings.memory
        s.output).bind fun (line, left) =>
      let strings := { s.strings with memory := line.memory }
      match left with
      -- no more keys: the line is not complete
      | none => some (⟨strings, line.output, { s.world with keys := [] }⟩, .waits)
      | some keys =>
        (tokenize strings cmdbuff bufferSize turns).bind fun (tokens, strings) =>
          dispatch services buff stack turns ⟨strings, line.output, { s.world with keys := keys }⟩ tokens

/-- `main`, with so many turns of its loop: the state when it has returned, or when it waits for
another character. -/
def main : Nat → Shell κ → Option (Shell κ × Bool)
  | 0, _ => none
  | n + 1, s =>
    (mainTurn services cmdbuff buff stack turns s).bind fun (s, turn) =>
      match turn with
      | .again => main n s
      | .returned => some (s, true)
      | .waits => some (s, false)

end Code

/-! ## Section 2: What a line asks for -/

/-- The request of a line. -/
inductive Command
  | nothing
  | quit
  | notImplemented
  | spawn (path : List UInt8)

/-- A `spawn` without a path is skipped. -/
def spawnCommand : List (List UInt8) → Command
  | [] => .nothing
  | path :: _ => .spawn path

/-- The word that comes first decides; a word that is no command is looked up among the core services,
and its path is cut to what a buffer of 256 bytes holds. -/
def command (line : List UInt8) : Command :=
  match runs delim line with
  | [] => .nothing
  | word :: words =>
    if word ∈ [literal "q".toList, literal "quit".toList, literal "exit".toList] then .quit
    else if word ∈ [literal "clear".toList, literal "help".toList] then .notImplemented
    else if word = literal "spawn".toList then spawnCommand words
    else .spawn ((literal "/System/CoreServices/".toList ++ word).take 255)

/-- What is printed about a process that has not been spawned. -/
def spawnMessage (path : List UInt8) (pid : Int32) : List UInt8 :=
  if pid = -1 then literal "\"".toList ++ path ++ literal "\" not found.\n".toList
  else literal "failed to spawn (-".toList ++ decimal pid.toInt.natAbs ++ literal ")\n".toList

section Session

variable {κ : Type} (services : ProcessServices κ)

/-- The prompt and a line. -/
def readCommand (s : List UInt8 × κ) (keys : List UInt8) :
    (List UInt8 × κ) × Option (List UInt8 × List UInt8) :=
  let line := consoleLine bufferSize [] keys
  ((s.1 ++ promptFormat.chars ++ line.1 ++ (if line.2.isSome then literal ['\n'] else []), s.2), line.2)

/-- A path is spawned and waited for. -/
def spawnPath (path output : List UInt8) (world : World κ) : List UInt8 × World κ :=
  let (pid, world) := services.processSpawn world path
  if pid < 0 then (output ++ spawnMessage path pid, world)
  else (output, (services.processWait world pid.toInt64.toUInt64).2)

/-- The request of a line is carried out. -/
def execute (s : List UInt8 × κ) (line rest : List UInt8) : (List UInt8 × κ) × List UInt8 × Bool :=
  match command line with
  | .nothing => (s, rest, true)
  | .quit => (s, rest, false)
  | .notImplemented => ((s.1 ++ notImplementedFormat.chars, s.2), rest, true)
  | .spawn path =>
    let (output, world) := spawnPath services path s.1 ⟨rest, s.2⟩
    ((output, world.system), world.keys, true)

/-- The shell as a session of lines. -/
def termoshSession (n : Nat) (output : List UInt8) (world : World κ) :
    Option ((List UInt8 × κ) × List UInt8 × Bool) :=
  session readCommand (execute services) n (output, world.system) world.keys

end Session

/-! ## Section 3: Printing and spawning -/

section Spawn

variable {κ : Type} {services : ProcessServices κ} {stack : Memory} {turns : Nat} {s : Shell κ}
  {format : Libterm.CString} {args : List VaArg} {text path : List UInt8} {pid : Int32}

theorem print_eq (htext : expansion format.chars args = some text)
    (hfits : text.length < kConsoleDefaultBufferSize) (hlength : format.chars.length < bufferSize)
    (hturns : bufferSize ≤ turns) :
    s.print stack turns format args = some { s with output := s.output ++ text } := by
  have hprinted : consolePrint stack format args turns = some text :=
    consolePrint_eq (lt_trans hlength (by decide)) htext hfits (lt_of_lt_of_le hlength hturns)
  rw [Shell.print, hprinted, Option.map_some]

/-- The decimal digits of a 64-bit number. -/
theorem decimal_length {n : Nat} (h : n < 2 ^ 64) : (decimal n).length ≤ 20 := by
  unfold decimal
  split
  · decide
  · rw [List.length_reverse, List.length_map]
    exact (tempBuffer_fits n h).1

/-- The message about a process expands to its text, which the buffer of `ConsolePrint` can hold. -/
theorem print_spawnMessage (hpath : 0 ∉ path) (hshort : path.length < bufferSize) (hpid : pid < 0)
    (hturns : bufferSize ≤ turns) :
    (if pid = -1 then s.print stack turns notFoundFormat [.string (some ⟨path, hpath⟩)]
      else s.print stack turns failedFormat [.int pid]) =
      some { s with output := s.output ++ spawnMessage path pid } := by
  unfold spawnMessage
  split
  · apply print_eq rfl ?_ (by decide) hturns
    have hsize : bufferSize = 512 := rfl
    simp [literal, kConsoleDefaultBufferSize]
    omega
  · have hneg : pid.toInt < 0 := Int32.lt_iff_toInt_lt.mp hpid
    have hvalue : pid.toInt.natAbs < 2 ^ 64 := by
      have := pid.le_toInt
      omega
    have htext : expansion failedFormat.chars [.int pid] =
        some (literal "failed to spawn (".toList ++ ((if pid.toInt < 0 then literal ['-'] else []) ++
          decimal pid.toInt.natAbs ++ literal ")\n".toList)) := rfl
    rw [if_pos hneg] at htext
    have hdigits := decimal_length hvalue
    apply print_eq ?_ ?_ (by decide) hturns
    · rw [htext]
      simp [literal]
    · simp [literal, kConsoleDefaultBufferSize]
      omega

/-- `cmd_spawn` for the string that its argument points to. -/
theorem cmdSpawn_eq {address : Nat} (h : Kernel.CString (s.strings.memory.advance address) path)
    (hshort : path.length < bufferSize) (hturns : bufferSize ≤ turns) :
    cmdSpawn services stack turns address s =
      some ⟨s.strings, (spawnPath services path s.output s.world).1,
        (spawnPath services path s.output s.world).2⟩ := by
  rw [cmdSpawn, stringAt_eq h (lt_of_lt_of_le hshort hturns), Option.bind_some]
  unfold spawnPath
  obtain ⟨pid, world⟩ := services.processSpawn s.world path
  dsimp only
  split
  · next hpid => rw [print_spawnMessage h.1 hshort hpid hturns]
  · rfl

end Spawn

/-! ## Section 4: One line -/

section Line

variable {κ : Type} {services : ProcessServices κ} {cmdbuff buff turns token : Nat} {stack m : Memory}
  {s : Shell κ} {line rest word : List UInt8} {words : List (List UInt8)} {tokens : List Nat}

/-- The entry of `token_map` that is found for the first word is what the line asks for. -/
theorem char2token_cases (h : Kernel.CString (m.advance token) word)
    (hruns : runs delim line = word :: words) :
    (char2token m token = .quit ∧ command line = .quit) ∨
    ((char2token m token = .clear ∨ char2token m token = .help) ∧ command line = .notImplemented) ∨
    (char2token m token = .spawn ∧ command line = spawnCommand words) ∨
    (char2token m token = .illegal ∧
      command line = .spawn ((literal "/System/CoreServices/".toList ++ word).take 255)) := by
  have hfind : (tokenMap.find? fun entry => Kernel.stringCompare (m.advance token) entry.1 = 0) =
      tokenMap.find? fun entry => word = entry.1 := by
    simp (disch := decide) only [tokenMap, List.find?_cons, List.find?_nil,
      Kernel.stringCompare_eq_zero_iff h]
  unfold char2token command
  rw [hfind, hruns]
  by_cases hmem : word ∈ tokenMap.map Prod.fst
  · simp only [tokenMap, List.map_cons, List.map_nil, List.mem_cons, List.not_mem_nil, or_false] at hmem
    rcases hmem with rfl | rfl | rfl | rfl | rfl | rfl
    · exact .inl ⟨rfl, rfl⟩
    · exact .inl ⟨rfl, rfl⟩
    · exact .inl ⟨rfl, rfl⟩
    · exact .inr (.inl ⟨.inl rfl, rfl⟩)
    · exact .inr (.inl ⟨.inr rfl, rfl⟩)
    · exact .inr (.inr (.inl ⟨rfl, rfl⟩))
  · have hnone : (tokenMap.find? fun entry => word = entry.1) = none := by
      apply List.find?_eq_none.mpr
      intro entry hentry hword
      exact hmem (List.mem_map.mpr ⟨entry, hentry, (of_decide_eq_true hword).symm⟩)
    have hquit : word ∉ [literal "q".toList, literal "quit".toList, literal "exit".toList] :=
      fun hword => hmem (List.mem_of_mem_take (i := 3) hword)
    have hmissing : word ∉ [literal "clear".toList, literal "help".toList] :=
      fun hword => hmem (List.mem_of_mem_drop (i := 3) (List.mem_of_mem_take (i := 2) hword))
    have hspawn : word ≠ literal "spawn".toList := by
      rintro rfl
      exact hmem (by decide)
    refine .inr (.inr (.inr ⟨by rw [hnone], ?_⟩))
    simp only [if_neg hquit, if_neg hmissing, if_neg hspawn]

/-- The shell after a line, beside what the line asks for. -/
structure CarriedOut (buff : Nat) (s : Shell κ) (result : (List UInt8 × κ) × List UInt8 × Bool)
    (s' : Shell κ) (turn : Turn) : Prop where
  output_eq : s'.output = result.1.1
  system_eq : s'.world.system = result.1.2
  keys_eq : s'.world.keys = result.2.1
  turn_eq : turn = if result.2.2 then .again else .returned
  outside : ∀ x, x < buff ∨ buff + 256 ≤ x → s'.strings.memory x = s.strings.memory x

/-- The arguments of `dispatch` are strings of the line. -/
theorem token_string (h : Tokenizes m cmdbuff line bufferSize tokens s.strings)
    (hline : line.length < bufferSize) {j : Nat} (htoken : tokens[j]? = some token)
    (hword : (runs delim line)[j]? = some word) :
    Kernel.CString (s.strings.memory.advance token) word ∧ word.length < bufferSize := by
  obtain ⟨hstring, before, after, hsplit, -⟩ := h.stored j token word htoken hword
  refine ⟨hstring, lt_of_le_of_lt ?_ hline⟩
  rw [hsplit, List.length_append, List.length_append]
  omega

/-- A word that is no command is looked up among the core services. -/
theorem dispatch_coreService (h : Kernel.CString (s.strings.memory.advance token) word)
    (hillegal : char2token s.strings.memory token = .illegal) (hshort : word.length < bufferSize)
    (hturns : bufferSize ≤ turns) :
    ∃ s', dispatch services buff stack turns s (token :: tokens) = some (s', .again) ∧
      (s'.output, s'.world) = spawnPath services
        ((literal "/System/CoreServices/".toList ++ word).take 255) s.output s.world ∧
      ∀ x, x < buff ∨ buff + 256 ≤ x → s'.strings.memory x = s.strings.memory x := by
  have hsize : bufferSize = 512 := rfl
  have hnul : 0 ∉ literal "/System/CoreServices/".toList ++ word := by
    rw [List.mem_append, not_or]
    exact ⟨by decide, h.1⟩
  have htext : expansion coreServicesFormat.chars [.string (some ⟨word, h.1⟩)] =
      some (literal "/System/CoreServices/".toList ++ (word ++ [])) := rfl
  rw [List.append_nil] at htext
  have hlength : (literal "/System/CoreServices/".toList ++ word).length = 21 + word.length := by
    rw [List.length_append]
    rfl
  obtain ⟨result, m', hformat, hbounded⟩ := @stringFormat_returns s.strings.memory buff 256 turns _
    coreServicesFormat _ (by decide) htext (by omega) (by decide) (lt_of_lt_of_le (by decide) hturns)
  have hpath := hbounded.cString (by decide) hnul
  have hspawn := @cmdSpawn_eq κ services stack turns ⟨⟨m', s.strings.olds⟩, s.output, s.world⟩ _ buff
    hpath (by rw [List.length_take]; omega) hturns
  refine ⟨⟨⟨m', s.strings.olds⟩, _, _⟩, ?_, rfl, hbounded.outside⟩
  unfold dispatch
  simp only [hillegal, stringAt_eq h (lt_of_lt_of_le hshort hturns), Option.bind_some, hformat, hspawn,
    Option.map_some]
  rfl

/-- The `switch` does what the line asks for, when its tokens are the words of the line. -/
theorem dispatch_eq (h : Tokenizes m cmdbuff line bufferSize tokens s.strings)
    (hline : line.length < bufferSize) (hturns : bufferSize ≤ turns) :
    ∃ s' turn, dispatch services buff stack turns s tokens = some (s', turn) ∧
      CarriedOut buff s (execute services (s.output, s.world.system) line s.world.keys) s' turn := by
  have hcount : tokens.length = min bufferSize (runs delim line).length := h.length_eq
  have hsize : bufferSize = 512 := rfl
  cases hruns : runs delim line with
  | nil =>
    have hcommand : command line = .nothing := by rw [command, hruns]
    obtain rfl : tokens = [] := List.length_eq_zero_iff.mp (by simp [hcount, hruns])
    refine ⟨s, .again, rfl, ?_⟩
    simp only [execute, hcommand]
    exact ⟨rfl, rfl, rfl, rfl, fun _ _ => rfl⟩
  | cons word words =>
    rw [hruns, List.length_cons] at hcount
    obtain ⟨token, tokens, rfl⟩ := List.exists_cons_of_length_pos (show 0 < tokens.length by omega)
    obtain ⟨hword, hshort⟩ := token_string h hline (j := 0) rfl (by rw [hruns]; rfl)
    rcases char2token_cases hword hruns with ⟨htoken, hcommand⟩ | ⟨htoken, hcommand⟩ |
      ⟨htoken, hcommand⟩ | ⟨htoken, hcommand⟩
    · refine ⟨s, .returned, ?_, ?_⟩
      · unfold dispatch
        simp only [htoken]
      · simp only [execute, hcommand]
        exact ⟨rfl, rfl, rfl, rfl, fun _ _ => rfl⟩
    · have hprint : s.print stack turns notImplementedFormat [] =
          some { s with output := s.output ++ notImplementedFormat.chars } :=
        print_eq rfl (by decide) (by decide) hturns
      refine ⟨{ s with output := s.output ++ notImplementedFormat.chars }, .again, ?_, ?_⟩
      · unfold dispatch
        rcases htoken with htoken | htoken
        · simp only [htoken, hprint, Option.map_some]
        · simp only [htoken, hprint, Option.map_some]
      · simp only [execute, hcommand]
        exact ⟨rfl, rfl, rfl, rfl, fun _ _ => rfl⟩
    · cases words with
      | nil =>
        obtain rfl : tokens = [] := List.length_eq_zero_iff.mp (by simp at hcount; omega)
        refine ⟨s, .again, ?_, ?_⟩
        · unfold dispatch
          simp only [htoken]
        · simp only [execute, hcommand, spawnCommand]
          exact ⟨rfl, rfl, rfl, rfl, fun _ _ => rfl⟩
      | cons path words =>
        simp only [List.length_cons] at hcount
        obtain ⟨address, tokens, rfl⟩ :=
          List.exists_cons_of_length_pos (show 0 < tokens.length by omega)
        obtain ⟨hpath, hfits⟩ := token_string h hline (j := 1) rfl (by rw [hruns]; rfl)
        refine ⟨⟨s.strings, (spawnPath services path s.output s.world).1,
          (spawnPath services path s.output s.world).2⟩, .again, ?_, ?_⟩
        · unfold dispatch
          simp only [htoken, cmdSpawn_eq hpath hfits hturns, Option.map_some]
        · simp only [execute, hcommand, spawnCommand]
          exact ⟨rfl, rfl, rfl, rfl, fun _ _ => rfl⟩
    · obtain ⟨s', hrun, hspawned, houtside⟩ := @dispatch_coreService κ services buff turns token stack s
        word tokens hword htoken hshort hturns
      refine ⟨s', .again, hrun, ?_⟩
      simp only [execute, hcommand]
      have hpair : spawnPath services ((literal "/System/CoreServices/".toList ++ word).take 255) s.output
          ⟨s.world.keys, s.world.system⟩ = (s'.output, s'.world) := hspawned.symm
      rw [hpair]
      exact ⟨rfl, rfl, rfl, rfl, houtside⟩

/-- The tokens of a line are found in `cmdbuff`, and nothing else is written. -/
theorem Tokenizes.outside (h : Tokenizes m cmdbuff line bufferSize tokens s.strings)
    (hline : line.length < bufferSize) {x : Nat} (hx : x < cmdbuff ∨ cmdbuff + bufferSize ≤ x) :
    s.strings.memory x = m x := by
  by_contra hne
  obtain ⟨-, before, after, c, d, hsplit, -, -, rfl⟩ := h.changed x hne
  have hlength : before.length + 1 < line.length := by
    simp [hsplit]
  omega

end Line

/-! ## Section 5: The session -/

/-- Other processes take characters from the front. -/
structure ProcessServices.TakesKeys {κ : Type} (services : ProcessServices κ) : Prop where
  spawn : ∀ world path, (services.processSpawn world path).2.keys <:+ world.keys
  wait : ∀ world pid, (services.processWait world pid).2.keys <:+ world.keys

section Session

variable {κ : Type} {services : ProcessServices κ} {cmdbuff buff turns : Nat} {stack : Memory}
  {s : Shell κ} {line rest : List UInt8}

/-- What a turn writes outside the two buffers, nothing, and what it leaves of the rest. -/
def KeepsMemory (cmdbuff buff : Nat) (s s' : Shell κ) : Prop :=
  ∀ x, x < cmdbuff ∨ cmdbuff + bufferSize ≤ x → x < buff ∨ buff + 256 ≤ x →
    s'.strings.memory x = s.strings.memory x

theorem print_prompt (hturns : bufferSize ≤ turns) :
    s.print stack turns promptFormat [] = some { s with output := s.output ++ promptFormat.chars } :=
  print_eq rfl (by decide) (by decide) hturns

/-- Without a line the shell has printed its prompt and what was typed. -/
theorem mainTurn_waits (hturns : bufferSize ≤ turns) (hkeys : 0 ∉ s.world.keys)
    (hline : (readCommand (s.output, s.world.system) s.world.keys).2 = none) :
    ∃ s', mainTurn services cmdbuff buff stack turns s = some (s', .waits) ∧
      (s'.output, s'.world.system) = (readCommand (s.output, s.world.system) s.world.keys).1 ∧
      s'.world.keys = [] ∧ KeepsMemory cmdbuff buff s s' := by
  have hloops : 3 < turns := lt_of_lt_of_le (by decide) hturns
  obtain ⟨⟨state, left⟩, hread, houtput, hleft, houtside, -⟩ :=
    @consoleReadLine_reads s.strings.memory stack cmdbuff turns (UInt64.ofNat bufferSize)
      (s.output ++ promptFormat.chars) s.world.keys (by decide) hloops hkeys
  change (consoleLine bufferSize [] s.world.keys).2 = none at hline
  change left = (consoleLine bufferSize [] s.world.keys).2.map Prod.snd at hleft
  rw [hline, Option.map_none] at hleft
  subst hleft
  refine ⟨⟨⟨state.memory, s.strings.olds⟩, state.output, ⟨[], s.world.system⟩⟩, ?_, ?_, rfl,
    fun x hx _ => houtside x hx⟩
  · simp only [mainTurn, print_prompt hturns, Option.bind_some, hread]
  · exact congrArg (·, s.world.system) houtput

/-- With a line it has done what the line asks for. -/
theorem mainTurn_line (hcmdbuff : cmdbuff ≠ 0) (hturns : bufferSize ≤ turns) (hkeys : 0 ∉ s.world.keys)
    (hline : (readCommand (s.output, s.world.system) s.world.keys).2 = some (line, rest)) :
    ∃ s₁ s' turn, mainTurn services cmdbuff buff stack turns s = some (s', turn) ∧
      CarriedOut buff s₁
        (execute services (readCommand (s.output, s.world.system) s.world.keys).1 line rest) s' turn ∧
      KeepsMemory cmdbuff buff s s' := by
  have hloops : 3 < turns := lt_of_lt_of_le (by decide) hturns
  obtain ⟨⟨state, left⟩, hread, houtput, hleft, houtside, hstring⟩ :=
    @consoleReadLine_reads s.strings.memory stack cmdbuff turns (UInt64.ofNat bufferSize)
      (s.output ++ promptFormat.chars) s.world.keys (by decide) hloops hkeys
  change (consoleLine bufferSize [] s.world.keys).2 = some (line, rest) at hline
  change left = (consoleLine bufferSize [] s.world.keys).2.map Prod.snd at hleft
  rw [hline, Option.map_some] at hleft
  subst hleft
  obtain ⟨hshort, hchars⟩ : line.length < bufferSize ∧ _ := hstring line rest hline
  obtain ⟨tokens, strings, htokenize, htokens⟩ : ∃ tokens strings,
      tokenize ⟨state.memory, s.strings.olds⟩ cmdbuff bufferSize turns = some (tokens, strings) ∧
        Tokenizes state.memory cmdbuff line bufferSize tokens strings := by
    unfold tokenize
    rw [stringTokenize_start hcmdbuff]
    exact @tokenizeLoop_exact cmdbuff turns line ⟨state.memory, cmdbuff⟩ bufferSize rfl hcmdbuff hchars
      (lt_of_lt_of_le hshort hturns)
  obtain ⟨s', turn, hrun, hcarried⟩ := @dispatch_eq κ services cmdbuff buff turns stack state.memory
    ⟨strings, state.output, ⟨rest, s.world.system⟩⟩ line tokens htokens hshort hturns
  have hread' : (readCommand (s.output, s.world.system) s.world.keys).1 =
      (state.output, s.world.system) := congrArg (·, s.world.system) houtput.symm
  refine ⟨⟨strings, state.output, ⟨rest, s.world.system⟩⟩, s', turn, ?_, ?_, fun x hx hbuff => ?_⟩
  · simp only [mainTurn, print_prompt hturns, Option.bind_some, hread, htokenize, hrun]
  · rw [hread']
    exact hcarried
  · calc s'.strings.memory x
        = strings.memory x := hcarried.outside x hbuff
      _ = state.memory x := @Tokenizes.outside κ cmdbuff state.memory
          ⟨strings, state.output, ⟨rest, s.world.system⟩⟩ line tokens htokens hshort x hx
      _ = s.strings.memory x := houtside x hx

/-- What a line leaves of the characters behind it. -/
theorem execute_keys (hservices : services.TakesKeys) (state : List UInt8 × κ) (line rest : List UInt8) :
    (execute services state line rest).2.1 <:+ rest := by
  unfold execute
  cases command line with
  | nothing => exact List.suffix_refl rest
  | quit => exact List.suffix_refl rest
  | notImplemented => exact List.suffix_refl rest
  | spawn path =>
    have hspawn := hservices.spawn ⟨rest, state.2⟩ path
    show (spawnPath services path state.1 ⟨rest, state.2⟩).2.keys <:+ rest
    unfold spawnPath
    dsimp only
    split
    · exact hspawn
    · exact (hservices.wait _ _).trans hspawn

/-- The run of `main` is the session of its lines, and ends or waits for a character when it has more
turns than there are characters. Memory outside the two buffers is as it was. -/
theorem main_session (hservices : services.TakesKeys) (hcmdbuff : cmdbuff ≠ 0)
    (hturns : bufferSize ≤ turns) (stack : Memory) (s : Shell κ) (hkeys : 0 ∉ s.world.keys) (n : Nat)
    (hn : s.world.keys.length < n) :
    ∃ s' returned, main services cmdbuff buff stack turns n s = some (s', returned) ∧
      termoshSession services n s.output s.world =
        some ((s'.output, s'.world.system), s'.world.keys, returned) ∧
      KeepsMemory cmdbuff buff s s' := by
  -- Induction on the turns; every line takes at least one character.
  induction n generalizing s with
  | zero => exact absurd hn (Nat.not_lt_zero _)
  | succ n ih =>
    cases hline : (readCommand (s.output, s.world.system) s.world.keys).2 with
    | none =>
      obtain ⟨s', hrun, houtput, hempty, hkept⟩ := @mainTurn_waits κ services cmdbuff buff turns stack s
        hturns hkeys hline
      refine ⟨s', false, ?_, ?_, hkept⟩
      · simp only [main, hrun, Option.bind_some]
      · rw [termoshSession, session_waits hline, ← houtput, hempty]
    | some found =>
      obtain ⟨line, rest⟩ := found
      obtain ⟨s₁, s', turn, hrun, hcarried, hkept⟩ := @mainTurn_line κ services cmdbuff buff turns stack s
        line rest hcmdbuff hturns hkeys hline
      obtain ⟨houtput, hsystem, hleft, hturn, -⟩ := hcarried
      rw [termoshSession, session_line hline]
      cases hresult : (execute services (readCommand (s.output, s.world.system) s.world.keys).1 line
          rest).2.2 with
      | false =>
        obtain rfl : turn = .returned := by simpa [hresult] using hturn
        refine ⟨s', true, ?_, ?_, hkept⟩
        · simp only [main, hrun, Option.bind_some]
        · rw [if_neg (by simp), houtput, hsystem, hleft]
      | true =>
        obtain rfl : turn = .again := by simpa [hresult] using hturn
        have hopen : ¬ bufferSize - 1 ≤ ([] : List UInt8).length := by decide
        have htaken : rest.length < s.world.keys.length := lineRead_length hopen hline
        have hsuffix : s'.world.keys <:+ rest := hleft ▸ execute_keys hservices _ line rest
        have hnul : 0 ∉ s'.world.keys :=
          fun hmem => hkeys ((lineRead_suffix hline).subset (hsuffix.subset hmem))
        have hlength := hsuffix.length_le
        obtain ⟨s'', returned, hmain, hsession, hkept'⟩ := ih s' hnul (by omega)
        refine ⟨s'', returned, ?_, ?_, fun x hx hbuff => (hkept' x hx hbuff).trans (hkept x hx hbuff)⟩
        · simp only [main, hrun, Option.bind_some, hmain]
        · rw [if_pos rfl, ← hsession, termoshSession, houtput, hsystem, hleft]

end Session

/-- A system without programs: the paths that have been asked for. -/
def noPrograms : ProcessServices (List (List UInt8)) where
  processSpawn world path := (-1, { world with system := world.system ++ [path] })
  processWait world pid := (pid.toUInt32.toInt32, world)

/-- A program that is not there, and the end. -/
theorem main_session_notFound :
    ∃ s', main noPrograms 0x1000 0x2000 (fun _ => 0) 512 6
        ⟨⟨fun _ => 0, 0⟩, [], ⟨literal "ls\nq\n".toList, []⟩⟩ = some (s', true) ∧
      s'.output = literal
        "termosh_> ls\n\"/System/CoreServices/ls\" not found.\ntermosh_> q\n".toList ∧
      s'.world.system = [literal "/System/CoreServices/ls".toList] := by
  obtain ⟨s', returned, hmain, hsession, -⟩ := @main_session _ noPrograms 0x1000 0x2000 512
    ⟨fun _ _ => List.suffix_refl _, fun _ _ => List.suffix_refl _⟩ (by decide) (by decide) (fun _ => 0)
    ⟨⟨fun _ => 0, 0⟩, [], ⟨literal "ls\nq\n".toList, []⟩⟩ (by decide) 6 (by decide)
  have hrun : termoshSession noPrograms 6 [] ⟨literal "ls\nq\n".toList, []⟩ =
      some ((literal "termosh_> ls\n\"/System/CoreServices/ls\" not found.\ntermosh_> q\n".toList,
        [literal "/System/CoreServices/ls".toList]), [], true) := by decide
  obtain ⟨hstate, -, rfl⟩ : (s'.output, s'.world.system) = _ ∧ _ ∧ returned = true := by
    have hsame := Option.some.inj (hsession.symm.trans hrun)
    exact ⟨congrArg Prod.fst hsame, hsame, congrArg (fun r => r.2.2) hsame⟩
  exact ⟨s', hmain, congrArg Prod.fst hstate, congrArg Prod.snd hstate⟩

end TermOS.Userspace
