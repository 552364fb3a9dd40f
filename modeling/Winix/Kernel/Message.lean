/-
**Machine words, the memory and the message buffers.**

`include/sys/ipc.h`. Words are `BitVec 32` and the memory is one flat array of words. A
`struct message` is eight consecutive words of it; a pointer to a message is the address of its
first word, so two message buffers may overlap (the kernel does not check the pointers it is
handed).
-/

import Winix.Lib.Bits

namespace Winix.Kernel

variable {offset : Nat}

/-- A machine word, an address or a C `int`. -/
abbrev Word := BitVec 32

/-- `struct message`: the source, the type (which `reply_res` is another name of) and the six words
of the union. -/
structure Message where
  src : Word
  type : Word
  m1i1 : Word
  m1i2 : Word
  m1i3 : Word
  m1p1 : Word
  m1p2 : Word
  m1p3 : Word
  deriving DecidableEq, Repr

/-- The words of a message, in the order they lie in memory. -/
def Message.word (message : Message) : Nat → Word
  | 0 => message.src
  | 1 => message.type
  | 2 => message.m1i1
  | 3 => message.m1i2
  | 4 => message.m1i3
  | 5 => message.m1p1
  | 6 => message.m1p2
  | _ => message.m1p3

/-- `sizeof(struct message)`, in words. -/
def messageLen : Nat := 8

/-- The memory: a word at every address. -/
abbrev Memory := Word → Word

/-- The message at an address. -/
def readMessage (memory : Memory) (address : Word) : Message where
  src := memory address
  type := memory (address + 1)
  m1i1 := memory (address + 2)
  m1i2 := memory (address + 3)
  m1i3 := memory (address + 4)
  m1p1 := memory (address + 5)
  m1p2 := memory (address + 6)
  m1p3 := memory (address + 7)

/-- Store a word. -/
def store (memory : Memory) (address value : Word) : Memory := Function.update memory address value

/-- An address lies in the message buffer that starts at `buffer`. -/
def InBuffer (buffer address : Word) : Prop := (address - buffer).toNat < messageLen

instance (buffer address : Word) : Decidable (InBuffer buffer address) :=
  inferInstanceAs (Decidable (_ < _))

/-- Store a whole message (`*p = *q`). -/
def writeMessage (memory : Memory) (buffer : Word) (message : Message) : Memory := fun address =>
  if InBuffer buffer address then message.word (address - buffer).toNat else memory address

theorem writeMessage_of_not_inBuffer {memory : Memory} {buffer address : Word} {message : Message}
    (outside : ¬ InBuffer buffer address) :
    writeMessage memory buffer message address = memory address :=
  if_neg outside

theorem store_of_ne {memory : Memory} {address other value : Word} (ne : other ≠ address) :
    store memory address value other = memory other :=
  Function.update_of_ne ne _ _

theorem offset_toNat (buffer : Word) (small : offset < messageLen) :
    (buffer + BitVec.ofNat 32 offset - buffer).toNat = offset := by
  rw [add_sub_cancel_left, BitVec.toNat_ofNat]
  exact Nat.mod_eq_of_lt (lt_of_lt_of_le small (by decide))

theorem inBuffer_add (buffer : Word) (small : offset < messageLen) :
    InBuffer buffer (buffer + BitVec.ofNat 32 offset) := by
  rw [InBuffer, offset_toNat buffer small]
  exact small

theorem writeMessage_add (memory : Memory) (buffer : Word) (message : Message)
    (small : offset < messageLen) :
    writeMessage memory buffer message (buffer + BitVec.ofNat 32 offset) = message.word offset := by
  rw [writeMessage, if_pos (inBuffer_add buffer small), offset_toNat buffer small]

/-- **What was written is read back.** -/
@[simp] theorem readMessage_writeMessage (memory : Memory) (buffer : Word) (message : Message) :
    readMessage (writeMessage memory buffer message) buffer = message := by
  have word := fun offset (small : offset < messageLen) =>
    writeMessage_add memory buffer message small
  have first : writeMessage memory buffer message buffer = message.word 0 := by
    simpa using word 0 (by decide)
  calc readMessage (writeMessage memory buffer message) buffer
      = ⟨message.word 0, message.word 1, message.word 2, message.word 3, message.word 4,
          message.word 5, message.word 6, message.word 7⟩ := by
        simp only [readMessage, Message.mk.injEq]
        exact ⟨first, word 1 (by decide), word 2 (by decide), word 3 (by decide),
          word 4 (by decide), word 5 (by decide), word 6 (by decide), word 7 (by decide)⟩
    _ = message := rfl

theorem word_readMessage (memory : Memory) (buffer : Word) (small : offset < messageLen) :
    (readMessage memory buffer).word offset = memory (buffer + BitVec.ofNat 32 offset) := by
  have first : memory buffer = memory (buffer + BitVec.ofNat 32 0) := by simp
  match offset, small with
  | 0, _ => exact first
  | 1, _ | 2, _ | 3, _ | 4, _ | 5, _ | 6, _ | 7, _ => rfl

theorem add_offset (buffer address : Word) :
    buffer + BitVec.ofNat 32 (address - buffer).toNat = address := by
  rw [BitVec.ofNat_toNat, BitVec.setWidth_eq, add_sub_cancel]

theorem writeMessage_readMessage (memory : Memory) (buffer : Word) :
    writeMessage memory buffer (readMessage memory buffer) = memory := by
  funext address
  by_cases inside : InBuffer buffer address
  · rw [writeMessage, if_pos inside, word_readMessage memory buffer inside, add_offset]
  · exact writeMessage_of_not_inBuffer inside

theorem readMessage_congr {memory memory' : Memory} {buffer : Word}
    (same : ∀ address, InBuffer buffer address → memory' address = memory address) :
    readMessage memory' buffer = readMessage memory buffer := by
  have word : ∀ offset < messageLen, memory' (buffer + BitVec.ofNat 32 offset) =
      memory (buffer + BitVec.ofNat 32 offset) := fun offset small =>
    same _ (inBuffer_add buffer small)
  have first : memory' buffer = memory buffer := by simpa using word 0 (by decide)
  simp only [readMessage, Message.mk.injEq]
  exact ⟨first, word 1 (by decide), word 2 (by decide), word 3 (by decide), word 4 (by decide),
    word 5 (by decide), word 6 (by decide), word 7 (by decide)⟩

end Winix.Kernel
