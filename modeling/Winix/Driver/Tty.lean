/-
**The terminal driver.**

`driver/tty.c`: one line buffer, filled by the interrupt handler of a serial port, and at most one
process that waits for a line (`reader`). The pointers into the buffer are indices.

* `ttyRead` answers at once if the descriptor is non-blocking, and else makes the caller the reader;
  a reader that has ended in the meantime is only noticed here.
* `ttyExceptionHandler` takes one character. Control-C is reported as the process group that gets
  `SIGINT`; the end of a line is copied to the reader and answered.
* **`tty_pointers_kept`**: whatever is typed and read, the driver keeps to its buffer.
-/

import Winix.Kernel.Proc

namespace Winix.Driver

open Kernel Function

/-- `TTY_BUFFER_SIZ`. -/
def ttyBufferSiz : Nat := 64
/-- `EBUSY`. -/
def ebusy : Int := -16

/-- Backspace. -/
def backspace : Word := 8#32
/-- Control-C. -/
def controlC : Word := 3#32
/-- The end of a line. -/
def newline : Word := 10#32
/-- Carriage return. -/
def carriageReturn : Word := 13#32
/-- The bell. -/
def bell : Word := 7#32

/-- `struct tty_state`. -/
structure Tty where
  bptr : Nat
  readPtr : Nat
  reader : Option ProcNr
  readData : Word
  readCount : Nat
  buffer : Nat → Word
  foregroundGroup : Int
  controllingSession : Int
  isEchoing : Bool

/-- The index of `buffer_end`. -/
def bufferEnd : Nat := ttyBufferSiz - 1

/-- `__tty_init`. -/
def Tty.init (s : Tty) : Tty := { s with bptr := 0, readPtr := 0, isEchoing := true }

/-- `strncpy`: the copy ends at a zero or after `n` words, and is always terminated. -/
def strncpy (memory : Memory) (dest : Word) (src : Nat → Word) : Nat → Memory
  | 0 => store memory dest 0#32
  | n + 1 =>
    if src 0 = 0#32 then store memory dest 0#32
    else strncpy (store memory dest (src 0)) (dest + 1) (fun i => src (i + 1)) n

/-- `*state->bptr = '\0'`, then what follows the read pointer. -/
def Tty.line (s : Tty) (i : Nat) : Word := update s.buffer s.bptr 0#32 (s.readPtr + i)

/-! ### Reading -/

/-- `__tty_read`. -/
def ttyReadWords (s : Tty) (memory : Memory) (data : Word) (len : Nat) : Int × Tty × Memory :=
  let bufferCount := s.bptr - s.readPtr
  let count := if bufferCount < len then bufferCount else len
  if 0 < count ∧ s.readPtr < s.bptr then
    (count, { s with buffer := update s.buffer s.bptr 0#32, readPtr := s.readPtr + count },
      strncpy memory data s.line count)
  else (0, s, memory)

/-- `tty_read`, called by this process. -/
def ttyRead (s : Tty) (k : Machine) (who : ProcNr) (nonblock : Bool) (data : Word) (count : Nat) :
    Int × Tty × Memory :=
  if s.reader.any fun reader => (k.procTable reader).inUse then (ebusy, s, k.memory)
  else
    let s := { s with reader := none }
    if nonblock then ttyReadWords s k.memory data count
    else (suspend, { s with readData := data, readCount := count, reader := some who }, k.memory)

/-! ### The interrupt -/

/-- What the interrupt handler does: the characters it transmits, the process group it sends `SIGINT`,
the reader it answers and the result it answers with. -/
structure Interrupted where
  tty : Tty
  memory : Memory
  transmitted : List Word
  killed : Option Int
  reply : Option (ProcNr × Int)

/-- `__kputc` transmits nothing but serial codes. -/
def kputc (c : Word) : List Word := if c.toNat ≤ 127 then [c] else []

/-- `isprint`. -/
def isprint (c : Word) : Bool := decide ((c - 32#32).toNat < 95)

/-- Start again at the front of a buffer that is full and has been read. -/
def Tty.rewind (s : Tty) : Tty :=
  if bufferEnd ≤ s.bptr ∧ s.readPtr = s.bptr then { s with readPtr := 0, bptr := 0 } else s

/-- Put a character into the buffer if there is room: the character that was put in, and what is
transmitted. -/
def Tty.putIn (s : Tty) (val : Word) : Tty × Word × List Word :=
  if s.bptr < bufferEnd then
    let val := if val = carriageReturn then newline else val
    if isprint val || val = newline then
      ({ s with buffer := update s.buffer s.bptr val, bptr := s.bptr + 1 }, val,
        if s.isEchoing then kputc val else [])
    else (s, val, kputc bell)
  else (s, val, [])

/-- A line that is complete goes to the reader. -/
def Tty.handOver (s : Tty) (memory : Memory) (val : Word) (transmitted : List Word) : Interrupted :=
  match s.reader with
  | none => ⟨s, memory, transmitted, none, none⟩
  | some reader =>
    if val = newline ∨ bufferEnd ≤ s.bptr then
      ⟨{ s with
          buffer := update s.buffer s.bptr 0#32, bptr := 0, readPtr := 0, reader := none },
        strncpy memory s.readData s.line s.readCount, transmitted, none, some (reader, s.bptr)⟩
    else ⟨s, memory, transmitted, none, none⟩

/-- `tty_exception_handler`, for the character that has arrived. -/
def ttyExceptionHandler (s : Tty) (memory : Memory) (val : Word) : Interrupted :=
  if val = backspace then
    if 0 < s.bptr then
      ⟨{ s with
          readPtr := if s.bptr = s.readPtr then s.readPtr - 1 else s.readPtr, bptr := s.bptr - 1 },
        memory, kputc val, none, none⟩
    else ⟨s, memory, [], none, none⟩
  else if val = controlC then
    ⟨s, memory, [],
      if 0 < s.controllingSession ∧ 0 < s.foregroundGroup then some s.foregroundGroup else none, none⟩
  else
    let (s, val, transmitted) := s.rewind.putIn val
    s.handOver memory val transmitted

/-! ### The reader -/

theorem ttyReadWords_reader (s : Tty) (memory : Memory) (data : Word) (len : Nat) :
    (ttyReadWords s memory data len).2.1.reader = s.reader := by
  unfold ttyReadWords
  dsimp only
  split_ifs <;> rfl

/-- **A read leaves the reader, or makes its caller the reader.** -/
theorem ttyRead_reader {s : Tty} {k : Machine} {who p : ProcNr} {nonblock : Bool} {data : Word}
    {count : Nat} (waits : (ttyRead s k who nonblock data count).2.1.reader = some p) :
    s.reader = some p ∨ p = who := by
  unfold ttyRead at waits
  dsimp only at waits
  split_ifs at waits
  · exact .inl waits
  · rw [ttyReadWords_reader] at waits
    cases waits
  · exact .inr (Option.some.inj waits).symm

theorem Tty.putIn_reader (s : Tty) (val : Word) : (s.putIn val).1.reader = s.reader := by
  unfold Tty.putIn
  dsimp only
  split_ifs <;> rfl

theorem Tty.rewind_reader (s : Tty) : s.rewind.reader = s.reader := by
  unfold Tty.rewind
  split_ifs <;> rfl

theorem Tty.handOver_reader {s : Tty} {memory : Memory} {val : Word} {transmitted : List Word}
    {p : ProcNr} (waits : (s.handOver memory val transmitted).tty.reader = some p) :
    s.reader = some p := by
  unfold Tty.handOver at waits
  split at waits
  · exact waits
  · split_ifs at waits
    exact waits

/-- **A character makes nobody the reader.** -/
theorem ttyExceptionHandler_reader {s : Tty} {memory : Memory} {val : Word} {p : ProcNr}
    (waits : (ttyExceptionHandler s memory val).tty.reader = some p) : s.reader = some p := by
  unfold ttyExceptionHandler at waits
  by_cases back : val = backspace
  · rw [if_pos back] at waits
    split_ifs at waits <;> exact waits
  · by_cases control : val = controlC
    · rw [if_neg back, if_pos control] at waits
      exact waits
    · rw [if_neg back, if_neg control] at waits
      rw [← s.rewind_reader, ← s.rewind.putIn_reader val]
      exact Tty.handOver_reader waits

/-! ### The pointers -/

/-- What happens to a terminal. -/
inductive TtyEvent
  | key (memory : Memory) (val : Word)
  | read (k : Machine) (who : ProcNr) (nonblock : Bool) (data : Word) (count : Nat)

/-- A step of the driver. -/
def ttyStep (s : Tty) : TtyEvent → Tty
  | .key memory val => (ttyExceptionHandler s memory val).tty
  | .read k who nonblock data count => (ttyRead s k who nonblock data count).2.1

/-- The pointers are in order and in the buffer, and the words behind the buffer are these. -/
structure Tty.Kept (behind : Nat → Word) (s : Tty) : Prop where
  order : s.readPtr ≤ s.bptr
  inside : s.bptr ≤ bufferEnd
  behind : ∀ i, ttyBufferSiz ≤ i → s.buffer i = behind i

variable {behind : Nat → Word} {s : Tty}

theorem Tty.Kept.store (kept : s.Kept behind) (c : Word) (i : Nat) (far : ttyBufferSiz ≤ i) :
    update s.buffer s.bptr c i = behind i := by
  have inside := kept.inside
  unfold bufferEnd ttyBufferSiz at *
  rw [update_of_ne (by omega), kept.behind i far]

theorem Tty.Kept.putIn (kept : s.Kept behind) (val : Word) : (s.rewind.putIn val).1.Kept behind := by
  have rewound : s.rewind.Kept behind := by
    unfold Tty.rewind
    split_ifs
    · exact ⟨le_rfl, Nat.zero_le _, kept.behind⟩
    · exact kept
  unfold Tty.putIn
  dsimp only
  split_ifs with room
  all_goals first
    | exact rewound
    | exact ⟨Nat.le_succ_of_le rewound.order, room, rewound.store _⟩

theorem Tty.Kept.handOver (kept : s.Kept behind) (memory : Memory) (val : Word)
    (transmitted : List Word) :
    (s.handOver memory val transmitted).tty.Kept behind := by
  unfold Tty.handOver
  split
  · exact kept
  · split_ifs
    · exact ⟨le_rfl, Nat.zero_le _, kept.store _⟩
    · exact kept

theorem Tty.Kept.step (kept : s.Kept behind) (event : TtyEvent) : (ttyStep s event).Kept behind := by
  have order := kept.order
  have inside := kept.inside
  cases event with
  | key memory val =>
    unfold ttyStep ttyExceptionHandler
    dsimp only
    split_ifs
    · exact ⟨by dsimp only; omega, by dsimp only; omega, kept.behind⟩
    · exact ⟨by dsimp only; omega, by dsimp only; omega, kept.behind⟩
    · exact kept
    · exact kept
    · exact kept
    · exact (kept.putIn val).handOver _ _ _
  | read k who nonblock data count =>
    unfold ttyStep ttyRead ttyReadWords
    dsimp only
    split_ifs
    all_goals first
      | exact ⟨order, inside, kept.behind⟩
      | exact ⟨by dsimp only; omega, inside, kept.store _⟩

/-- **The driver keeps to its buffer**: after any characters and reads, blocking or not, the
pointers are in order and in the buffer, and no word behind the buffer has been written. -/
theorem tty_pointers_kept (s : Tty) (events : List TtyEvent) :
    (events.foldl ttyStep s.init).Kept s.buffer :=
  List.foldlRecOn events ttyStep ⟨le_rfl, Nat.zero_le _, fun _ _ => rfl⟩ fun _ kept event _ =>
    kept.step event

end Winix.Driver
