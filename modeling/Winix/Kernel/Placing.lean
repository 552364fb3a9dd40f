/-
**What the kernel puts into a process.**

`copyto_user_stack`, `copyto_user_heap`, `build_signal_ctx` and `build_user_stack` write into the
memory of a process, at its stack pointer and at the break of its heap. They write down every run of
words that they store there (`Transfer`). The copies that the kernel makes for itself, on its own
stack and with `kmalloc`, are not among them.

* `buildSignalCtx_erase`: without the log, the delivery of a signal is the one of `kernel/signal.c`;
* `Grows`: what goes to the heap is one run, up from the break;
* **`placed_owned_iff`**: the words belong to the process if and only if they fit into the room
  below its stack pointer and from its break on. `copyto_user_heap` looks at the end of the heap;
  `copyto_user_stack` looks at nothing;
* `frame_below_memory`: a process with its stack pointer at the start of its memory gets a signal.
-/

import Winix.Fs.Owned
import Winix.Kernel.Sigframe

namespace Winix.Kernel.Placing

open Lib Fs

/-! ### The code -/

/-- The kernel, with `heap_break` and `heap_bottom` of the process. -/
structure Target where
  kernel : Machine
  heapBreak : Word
  heapBottom : Word

/-- A program that writes down its transfers. -/
abbrev PlaceM := Logged Transfer Target

/-- The state. -/
def look : PlaceM Target := Logged.lift get

/-- Change the state. -/
def change (f : Target → Target) : PlaceM PUnit := Logged.lift (modify f)

theorem look_bind_log {β : Type} {f : Target → PlaceM β} {s : Target} :
    (look >>= f).log s = (f s).log s := rfl

/-- `copyto_user_stack`. -/
def copytoUserStack (who : ProcNr) (len : Nat) (words : Nat → Word) : PlaceM PUnit := do
  let s ← look
  let p := s.kernel.procTable who
  Logged.write [⟨who, physicalAddr p p.ctx.sp - BitVec.ofNat 32 len, len⟩]
  change fun s => { s with kernel := Kernel.copytoUserStack s.kernel who len words }

/-- `copyto_user_heap`: the virtual address, or null. -/
def copytoUserHeap (who : ProcNr) (len : Nat) (words : Nat → Word) : PlaceM Word := do
  let s ← look
  if s.heapBottom ≤ s.heapBreak + BitVec.ofNat 32 len then return 0#32
  else do
    Logged.write [⟨who, s.heapBreak, len⟩]
    change fun s => { s with
      kernel := { s.kernel with memory := writeWords s.kernel.memory s.heapBreak len words }
      heapBreak := s.heapBreak + BitVec.ofNat 32 len }
    return s.heapBreak - (s.kernel.procTable who).ctx.rbase

/-- `build_signal_ctx`. -/
def buildSignalCtx (who : ProcNr) (signum : Nat) : PlaceM PUnit := do
  let s ← look
  copytoUserStack who signalCtxLen (signalCtx (s.kernel.procTable who))
  let s ← look
  copytoUserStack who sigframeLen
    (sigframe s.kernel.memory s.kernel.sigMesg signum (s.kernel.procTable who).ctx.sp)
  change fun s => { s with kernel := s.kernel.updateProc who fun p =>
    { p with
      ctx := { p.ctx with pc := (p.sigTable signum).handler, ra := p.saRestorer }
      sigMask2 := p.sigMask
      sigMask := (p.sigTable signum).mask
      state := runnable } }

/-- `struct string_array`: the strings, or nothing if its size is 0. -/
abbrev StringArray := Option (List (List Word))

/-- `copy_sarray_to_heap`: the pointers, and a null pointer behind them. -/
def copySarrayToHeap (who : ProcNr) : List (List Word) → PlaceM (List Word)
  | [] => return [0#32]
  | string :: rest => do
    let p ← copytoUserHeap who (string.length + 1) fun i => string.getD i 0#32
    let pointers ← copySarrayToHeap who rest
    return p :: pointers

/-- The strings of an array and then the array itself. -/
def placeArray (who : ProcNr) (strings : List (List Word)) : PlaceM Word := do
  let pointers ← copySarrayToHeap who strings
  copytoUserHeap who (strings.length + 1) fun i => pointers.getD i 0#32

/-- `argc` and `argv`; `granted` says whether `kmalloc` had room for the pointers. -/
def placeArgv (who : ProcNr) : StringArray → Bool → PlaceM (Word × Word)
  | some strings, true => do
    let argv ← placeArray who strings
    return (BitVec.ofNat 32 strings.length, argv)
  | _, _ => return (0#32, 0#32)

/-- The environment, with the pointer to it in the last word of the stack. -/
def placeEnv (who : ProcNr) (spBtm : Word) : StringArray → Bool → PlaceM PUnit
  | some strings, true => do
    let env ← placeArray who strings
    Logged.write [⟨who, spBtm, 1⟩]
    change fun s => { s with kernel := s.kernel.poke spBtm env }
  | _, _ => return ⟨⟩

/-- The words of the code behind `main`. -/
def exitCodeLen : Nat := 2
/-- The words of the first frame. -/
def initialFrameLen : Nat := 15
/-- `ASM_ADDUI_SP_SP_2`. -/
def asmAdduiSpSp2 : Word := 0x1ee10002#32
/-- `ASM_SYSCALL`. -/
def asmSyscall : Word := 0x200d0000#32
/-- The number of `exit`. -/
def exitCallNr : Word := 2#32

/-- The words of `struct initial_frame`. -/
def initialFrame (argc argv sp : Word) : Nat → Word
  | 0 => argc
  | 1 => argv
  | 2 => winixSendrec
  | 4 => sp - BitVec.ofNat 32 exitCodeLen - BitVec.ofNat 32 messageLen
  | 6 => exitCallNr
  | 7 => exitMagic
  | 13 => asmAdduiSpSp2
  | 14 => asmSyscall
  | _ => 0#32

/-- The last word of the page of the stack pointer. -/
def spBtm (p : Proc) : Word := physicalAddr p (alignPage p.ctx.sp - 1)

/-- The end of `build_user_stack`: a program whose `main` returns goes on with the code of the frame. -/
def pushInitialFrame (who : ProcNr) (sp argc argvPtr : Word) : PlaceM PUnit := do
  change fun s => { s with kernel := s.kernel.updateProc who fun p =>
    { p with ctx := { p.ctx with ra := p.ctx.sp - BitVec.ofNat 32 exitCodeLen } } }
  copytoUserStack who initialFrameLen (initialFrame argc argvPtr sp)

/-- `build_user_stack`. -/
def buildUserStack (who : ProcNr) (argv env : StringArray) (grantedArgv grantedEnv : Bool) :
    PlaceM PUnit := do
  let s ← look
  let p := s.kernel.procTable who
  let args ← placeArgv who argv grantedArgv
  placeEnv who (spBtm p) env grantedEnv
  pushInitialFrame who p.ctx.sp args.1 args.2

/-- The ways to put something into a process. -/
inductive Placement
  | copytoUserStack (len : Nat) (words : Nat → Word)
  | copytoUserHeap (len : Nat) (words : Nat → Word)
  | buildSignalCtx (signum : Nat)
  | buildUserStack (argv env : StringArray) (grantedArgv grantedEnv : Bool)

/-- The words that are written. -/
def Placement.log (who : ProcNr) (s : Target) : Placement → List Transfer
  | copytoUserStack len words => (Placing.copytoUserStack who len words).log s
  | copytoUserHeap len words => (Placing.copytoUserHeap who len words).log s
  | buildSignalCtx signum => (Placing.buildSignalCtx who signum).log s
  | buildUserStack argv env grantedArgv grantedEnv =>
    (Placing.buildUserStack who argv env grantedArgv grantedEnv).log s

/-- **Without the log**, the delivery of a signal is `build_signal_ctx`. -/
theorem buildSignalCtx_erase (who : ProcNr) (signum : Nat) (s : Target) :
    (buildSignalCtx who signum).erase s =
      some (⟨⟩, { s with kernel := Kernel.buildSignalCtx s.kernel who signum }) := rfl

/-! ### The heap -/

/-- How many words of these pieces `copyto_user_heap` takes, one after the other; one that does not fit
is left out. -/
def accepted (bottom : Word) : Word → List Nat → Nat
  | _, [] => 0
  | brk, len :: rest =>
    if bottom ≤ brk + BitVec.ofNat 32 len then accepted bottom brk rest
    else len + accepted bottom (brk + BitVec.ofNat 32 len) rest

theorem accepted_append (bottom brk : Word) (first second : List Nat) :
    accepted bottom brk (first ++ second) = accepted bottom brk first +
      accepted bottom (brk + BitVec.ofNat 32 (accepted bottom brk first)) second := by
  induction first generalizing brk with
  | nil => simp [accepted]
  | cons len first ih =>
    simp only [List.cons_append, accepted]
    split_ifs
    · exact ih brk
    · rw [ih, BitVec.ofNat_add, ← BitVec.add_assoc, Nat.add_assoc]

/-- The program comes back with this result and has written these pieces to the heap, as far as they
fit: a run of words up from the break. -/
structure Grows {α : Type} (who : ProcNr) (pieces : List Nat) (x : PlaceM α) (s : Target) (a : α)
    (s' : Target) : Prop where
  came : x.erase s = some (a, s')
  run : Chained (Up who) s.heapBreak (x.log s) s'.heapBreak
  span : span (x.log s) = accepted s.heapBottom s.heapBreak pieces
  bottom : s'.heapBottom = s.heapBottom
  procs : s'.kernel.procTable = s.kernel.procTable

section Heap

variable {α β : Type} {who : ProcNr} {s s' s'' : Target} {a : α} {b : β} {x : PlaceM α}
  {f : α → PlaceM β} {first second : List Nat}

theorem Grows.pure (a : α) : Grows who [] (Pure.pure a : PlaceM α) s a s :=
  ⟨rfl, rfl, rfl, rfl, rfl⟩

theorem Grows.bind (grows : Grows who first x s a s') (next : Grows who second (f a) s' b s'') :
    Grows who (first ++ second) (x >>= f) s b s'' := by
  have log : (x >>= f).log s = x.log s ++ (f a).log s' := by
    rw [Logged.bind_log, grows.came]
    rfl
  refine ⟨?_, ?_, ?_, next.bottom.trans grows.bottom, next.procs.trans grows.procs⟩
  · rw [Logged.bind_erase, grows.came]
    exact next.came
  · rw [log]
    exact grows.run.append next.run
  · rw [log, span_append, next.span, grows.span, accepted_append, grows.bottom, grows.run.ends_up,
      grows.span]

theorem copytoUserHeap_grows (who : ProcNr) (s : Target) (len : Nat) (words : Nat → Word) :
    ∃ a s', Grows who [len] (copytoUserHeap who len words) s a s' := by
  by_cases full : s.heapBottom ≤ s.heapBreak + BitVec.ofNat 32 len
  · have nothing : copytoUserHeap who len words s = ([], some (0#32, s)) := by
      show (if s.heapBottom ≤ s.heapBreak + BitVec.ofNat 32 len then _ else _ : PlaceM Word) s = _
      rw [if_pos full]
      rfl
    refine ⟨0#32, s, congrArg Prod.snd nothing, ?_, ?_, rfl, rfl⟩
    · rw [Logged.log, nothing]
      rfl
    · rw [Logged.log, nothing, accepted, if_pos full]
      rfl
  · have placed : copytoUserHeap who len words s = ([⟨who, s.heapBreak, len⟩],
        some (s.heapBreak - (s.kernel.procTable who).ctx.rbase, { s with
          kernel := { s.kernel with memory := writeWords s.kernel.memory s.heapBreak len words }
          heapBreak := s.heapBreak + BitVec.ofNat 32 len })) := by
      show (if s.heapBottom ≤ s.heapBreak + BitVec.ofNat 32 len then _ else _ : PlaceM Word) s = _
      rw [if_neg full]
      rfl
    refine ⟨_, _, congrArg Prod.snd placed, ?_, ?_, rfl, rfl⟩
    · rw [Logged.log, placed]
      exact ⟨_, ⟨rfl, rfl, rfl⟩, rfl⟩
    · rw [Logged.log, placed, accepted, if_neg full]
      rfl

/-- The lengths of the strings, with their zeros. -/
def stringLens (strings : List (List Word)) : List Nat := strings.map fun string => string.length + 1

theorem copySarrayToHeap_grows (who : ProcNr) (s : Target) (strings : List (List Word)) :
    ∃ a s', Grows who (stringLens strings) (copySarrayToHeap who strings) s a s' := by
  induction strings generalizing s with
  | nil => exact ⟨_, s, .pure _⟩
  | cons string rest ih =>
    obtain ⟨p, middle, here⟩ := copytoUserHeap_grows who s (string.length + 1)
      fun i => string.getD i 0#32
    obtain ⟨pointers, s', later⟩ := ih middle
    have tail := later.bind (f := fun pointers => pure (p :: pointers)) (.pure _)
    rw [List.append_nil] at tail
    exact ⟨_, s', here.bind (f := fun p => do
      let pointers ← copySarrayToHeap who rest
      pure (p :: pointers)) tail⟩

/-- What an array puts on the heap: its strings, then the pointers to them. -/
def heapPieces : StringArray → Bool → List Nat
  | some strings, true => stringLens strings ++ [strings.length + 1]
  | _, _ => []

theorem placeArray_grows (who : ProcNr) (s : Target) (strings : List (List Word)) :
    ∃ a s', Grows who (heapPieces (some strings) true) (placeArray who strings) s a s' := by
  obtain ⟨pointers, middle, first⟩ := copySarrayToHeap_grows who s strings
  obtain ⟨a, s', second⟩ := copytoUserHeap_grows who middle (strings.length + 1)
    fun i => pointers.getD i 0#32
  exact ⟨a, s', first.bind second⟩

theorem placeArgv_grows (who : ProcNr) (s : Target) (argv : StringArray) (granted : Bool) :
    ∃ a s', Grows who (heapPieces argv granted) (placeArgv who argv granted) s a s' := by
  match argv, granted with
  | some strings, true =>
    obtain ⟨a, s', grows⟩ := placeArray_grows who s strings
    have whole := grows.bind (f := fun argv => pure (BitVec.ofNat 32 strings.length, argv)) (.pure _)
    rw [List.append_nil] at whole
    exact ⟨_, s', whole⟩
  | some _, false => exact ⟨_, s, .pure _⟩
  | none, _ => exact ⟨_, s, .pure _⟩

theorem placeEnv_log (who : ProcNr) (s : Target) (spBtm : Word) (env : StringArray) (granted : Bool) :
    ∃ log s', (placeEnv who spBtm env granted).log s =
        log ++ (if env.isSome && granted then [⟨who, spBtm, 1⟩] else []) ∧
      (placeEnv who spBtm env granted).erase s = some (⟨⟩, s') ∧
      (∃ brk, Chained (Up who) s.heapBreak log brk) ∧
      span log = accepted s.heapBottom s.heapBreak (heapPieces env granted) ∧
      s'.kernel.procTable = s.kernel.procTable := by
  match env, granted with
  | some strings, true =>
    obtain ⟨a, middle, grows⟩ := placeArray_grows who s strings
    refine ⟨(placeArray who strings).log s,
      { middle with kernel := middle.kernel.poke spBtm a }, ?_, ?_, ⟨_, grows.run⟩, grows.span, ?_⟩
    · rw [placeEnv, Logged.bind_log, grows.came]
      rfl
    · rw [placeEnv, Logged.bind_erase, grows.came]
      rfl
    · exact grows.procs
  | some _, false => exact ⟨[], s, rfl, rfl, ⟨_, rfl⟩, rfl, rfl⟩
  | none, true => exact ⟨[], s, rfl, rfl, ⟨_, rfl⟩, rfl, rfl⟩
  | none, false => exact ⟨[], s, rfl, rfl, ⟨_, rfl⟩, rfl, rfl⟩

end Heap

/-! ### What belongs to the process -/

/-- The words fit. Below the stack pointer there is room for what is pushed; from the break on there is
room for the pieces that the heap takes; and the last word of the stack, if it is set, is the process's
own. -/
def Placement.Fits (t : Tables) (who : ProcNr) (s : Target) : Placement → Prop
  | copytoUserStack len _ => StackFits t who s len
  | copytoUserHeap len _ => accepted s.heapBottom s.heapBreak [len] ≤ room t who s.heapBreak
  | buildSignalCtx _ => StackFits t who s (signalCtxLen + sigframeLen)
  | buildUserStack argv env grantedArgv grantedEnv =>
    accepted s.heapBottom s.heapBreak (heapPieces argv grantedArgv ++ heapPieces env grantedEnv) ≤
      room t who s.heapBreak ∧
    ((env.isSome && grantedEnv) = true → Owns t who (spBtm (s.kernel.procTable who))) ∧
    StackFits t who s initialFrameLen
where
  /-- So many words below the stack pointer belong to the process. -/
  StackFits (t : Tables) (who : ProcNr) (s : Target) (len : Nat) : Prop :=
    len ≤ room t who (physicalAddr (s.kernel.procTable who) (s.kernel.procTable who).ctx.sp -
      BitVec.ofNat 32 len)

section Owned

variable {who : ProcNr} {s : Target}

theorem copytoUserStack_sp (k : Machine) (who : ProcNr) (len : Nat) (words : Nat → Word) :
    physicalAddr ((Kernel.copytoUserStack k who len words).procTable who)
        ((Kernel.copytoUserStack k who len words).procTable who).ctx.sp =
      physicalAddr (k.procTable who) (k.procTable who).ctx.sp - BitVec.ofNat 32 len := by
  rw [Kernel.copytoUserStack, Machine.updateProc_same]
  exact BitVec.sub_add_cancel _ _

theorem pushInitialFrame_log (sp argc argvPtr : Word) :
    (pushInitialFrame who sp argc argvPtr).log s =
      [⟨who, physicalAddr (s.kernel.procTable who) (s.kernel.procTable who).ctx.sp -
        BitVec.ofNat 32 initialFrameLen, initialFrameLen⟩] := by
  show [_] = _
  rw [List.singleton_inj, Machine.updateProc_same]
  rfl

theorem buildSignalCtx_down (who : ProcNr) (s : Target) (signum : Nat) :
    ∃ low, Chained (Down who)
      (physicalAddr (s.kernel.procTable who) (s.kernel.procTable who).ctx.sp)
      ((buildSignalCtx who signum).log s) low := by
  refine ⟨_, _, ⟨rfl, rfl, rfl⟩, _, ⟨rfl, ?_, rfl⟩, rfl⟩
  exact congrArg (· - BitVec.ofNat 32 sigframeLen) (copytoUserStack_sp s.kernel who _ _)

/-- What `build_user_stack` writes: the heap, the word that points to the environment and the frame. -/
theorem buildUserStack_log (who : ProcNr) (s : Target) (argv env : StringArray)
    (grantedArgv grantedEnv : Bool) :
    ∃ heap brk, Chained (Up who) s.heapBreak heap brk ∧
      span heap = accepted s.heapBottom s.heapBreak
        (heapPieces argv grantedArgv ++ heapPieces env grantedEnv) ∧
      (buildUserStack who argv env grantedArgv grantedEnv).log s =
        heap ++ (if env.isSome && grantedEnv then
          [⟨who, spBtm (s.kernel.procTable who), 1⟩] else []) ++
        [⟨who, physicalAddr (s.kernel.procTable who) (s.kernel.procTable who).ctx.sp -
          BitVec.ofNat 32 initialFrameLen, initialFrameLen⟩] := by
  obtain ⟨⟨argc, argvPtr⟩, middle, first⟩ := placeArgv_grows who s argv grantedArgv
  obtain ⟨log, last, second, came, ⟨brk, run⟩, length, procs⟩ :=
    placeEnv_log who middle (spBtm (s.kernel.procTable who)) env grantedEnv
  refine ⟨(placeArgv who argv grantedArgv).log s ++ log, brk, first.run.append run, ?_, ?_⟩
  · rw [span_append, length, first.span, accepted_append, first.bottom, first.run.ends_up, first.span]
  · rw [buildUserStack, look_bind_log, Logged.bind_log, first.came]
    show _ ++ (placeEnv who _ env grantedEnv >>= fun _ => _).log middle = _
    rw [Logged.bind_log, came, second]
    show _ ++ (_ ++ (pushInitialFrame who _ argc argvPtr).log last) = _
    rw [pushInitialFrame_log, procs, first.procs]
    simp only [List.append_assoc]

/-- **What is put into a process belongs to it** if and only if it fits. -/
theorem placed_owned_iff (t : Tables) (who : ProcNr) (s : Target) (placement : Placement) :
    Owned t (placement.log who s) ↔ placement.Fits t who s := by
  match placement with
  | .copytoUserStack len words => exact owned_singleton
  | .copytoUserHeap len words =>
    obtain ⟨a, s', grows⟩ := copytoUserHeap_grows who s len words
    show Owned t ((copytoUserHeap who len words).log s) ↔ _
    rw [grows.run.owned_up, grows.span]
    rfl
  | .buildSignalCtx signum =>
    obtain ⟨low, down⟩ := buildSignalCtx_down who s signum
    show Owned t ((buildSignalCtx who signum).log s) ↔ _
    rw [down.owned_down]
    rfl
  | .buildUserStack argv env grantedArgv grantedEnv =>
    obtain ⟨heap, brk, up, length, log⟩ :=
      buildUserStack_log who s argv env grantedArgv grantedEnv
    show Owned t ((buildUserStack who argv env grantedArgv grantedEnv).log s) ↔ _
    rw [log, owned_append, owned_append, up.owned_up, length, owned_singleton, and_assoc]
    refine and_congr_right fun _ => and_congr_left fun _ => ?_
    split_ifs with placed
    · rw [owned_singleton, ← owns_run_iff]
      refine ⟨fun owns _ => ?_, fun owns i small => ?_⟩
      · have first := owns 0 Nat.one_pos
        rwa [BitVec.add_zero] at first
      · obtain rfl := Nat.lt_one_iff.mp small
        rw [BitVec.add_zero]
        exact owns placed
    · exact ⟨fun _ some => absurd some placed, fun _ => owned_nil⟩

end Owned

/-! ### A stack pointer just above the start of the memory -/

/-- Process 1, whose only page is the third one, has its stack pointer at the 16th word of it. -/
def lowTarget : Target where
  kernel := bootMachine [1] (fun _ => 2048) (fun _ => 16) fun _ => 0
  heapBreak := 3000
  heapBottom := 3071

/-- Its protection table: the one page. -/
def lowTables : Tables := ⟨fun _ i => if i = 0 then BitVec.twoPow 32 29 else 0, fun _ => 0⟩

/-- **A signal is written over the page before**: the saved context starts there, and the frame lies
there as a whole. -/
theorem frame_below_memory :
    (Placement.buildSignalCtx 1).log 1 lowTarget = [⟨1, 2043, 21⟩, ⟨1, 2031, 12⟩] ∧
    Owns lowTables 1 2048 ∧ ¬ Owned lowTables ((Placement.buildSignalCtx 1).log 1 lowTarget) := by
  have log : (Placement.buildSignalCtx 1).log 1 lowTarget = [⟨1, 2043, 21⟩, ⟨1, 2031, 12⟩] := by
    decide +kernel
  refine ⟨log, by decide, fun owned => ?_⟩
  rw [log] at owned
  exact absurd (owned ⟨1, 2043, 21⟩ List.mem_cons_self 0 (by decide)) (by decide)

end Winix.Kernel.Placing
