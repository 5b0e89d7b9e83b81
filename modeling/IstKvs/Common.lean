import Mathlib.Algebra.GroupWithZero.Nat
import Mathlib.Data.List.TakeWhile
import Mathlib.Logic.Function.Basic

/-! Constants, opcodes and the records of `main.c`. A C string is the list of
its bytes before the terminator; a descriptor is `none` where the code has -1. -/

namespace IstKvs

def MAX_SESSION_COUNT : Nat := 2
def MAX_PIPE_PATH_LENGTH : Nat := 40
def MAX_STRING_SIZE : Nat := 40
def MAX_NUMBER_SUB : Nat := 10

instance : NeZero MAX_SESSION_COUNT := ⟨Nat.succ_ne_zero 1⟩

def OP_CODE_CONNECT : UInt8 := 1
def OP_CODE_DISCONNECT : UInt8 := 2
def OP_CODE_SUBSCRIBE : UInt8 := 3
def OP_CODE_UNSUBSCRIBE : UInt8 := 4

/-- The bytes of a C string before its terminator. -/
structure CString where
  bytes : List UInt8
  noNul : 0 ∉ bytes
  deriving DecidableEq

namespace CString

theorem ext {first second : CString} (same : first.bytes = second.bytes) : first = second := by
  cases first; cases second; cases same; rfl

def empty : CString := ⟨[], by simp⟩

/-- The C string that starts at the first byte of a buffer. -/
def ofBytes (buffer : List UInt8) : CString where
  bytes := buffer.takeWhile (· != 0)
  noNul := by
    intro member
    simpa using List.mem_takeWhile_imp member

/-- `snprintf(.., size, "%s", s)` keeps at most `size - 1` bytes. -/
def snprintf (size : Nat) (s : CString) : CString where
  bytes := s.bytes.take (size - 1)
  noNul := fun member => s.noNul (List.mem_of_mem_take member)

theorem snprintf_of_fits {size : Nat} {s : CString} (fits : s.bytes.length < size) :
    snprintf size s = s :=
  ext (List.take_of_length_le (by omega))

end CString

/-- The contents of one `char[MAX_PIPE_PATH_LENGTH]` field. -/
abbrev PipePath := List UInt8

/-- `ConnectionRequest`: the three pipe names a client registers with. -/
structure ConnectionRequest where
  reqPipePath : PipePath
  respPipePath : PipePath
  notifPipePath : PipePath
  deriving DecidableEq

/-- `struct SessionData`. Cells of `subscribedKeys` outside
`0 .. MAX_NUMBER_SUB - 1` stand for the memory around the array. -/
structure SessionData where
  reqPipePath : PipePath
  respPipePath : PipePath
  notifPipePath : PipePath
  reqFd : Option Nat
  respFd : Option Nat
  notifFd : Option Nat
  active : Bool
  subscribedKeys : Int → CString
  numSubscribedKeys : Int

/-- A slot of the static array `sessions` before its first use. Its descriptors
are 0, the standard input, and not -1. -/
def SessionData.zero : SessionData where
  reqPipePath := List.replicate MAX_PIPE_PATH_LENGTH 0
  respPipePath := List.replicate MAX_PIPE_PATH_LENGTH 0
  notifPipePath := List.replicate MAX_PIPE_PATH_LENGTH 0
  reqFd := some 0
  respFd := some 0
  notifFd := some 0
  active := false
  subscribedKeys := fun _ => CString.empty
  numSubscribedKeys := 0

/-- `strncpy(subscribed_keys[j], key, MAX_STRING_SIZE)`. -/
def SessionData.setKey (session : SessionData) (j : Int) (key : CString) : SessionData :=
  { session with subscribedKeys := Function.update session.subscribedKeys j key }

/-- The keys notifications are sent for: entries `0 .. numSubscribedKeys - 1`. -/
def SessionData.Subscribed (session : SessionData) (key : CString) : Prop :=
  ∃ j : Int, 0 ≤ j ∧ j < session.numSubscribedKeys ∧ session.subscribedKeys j = key

theorem SessionData.subscribed_iff (session : SessionData) (key : CString) :
    (∃ j : Nat, j < session.numSubscribedKeys.toNat ∧ session.subscribedKeys j = key) ↔
      session.Subscribed key := by
  constructor
  · rintro ⟨j, high, same⟩
    exact ⟨j, by omega, by omega, same⟩
  · rintro ⟨j, low, high, same⟩
    refine ⟨j.toNat, by omega, ?_⟩
    rw [Int.toNat_of_nonneg low, same]

instance (session : SessionData) (key : CString) : Decidable (session.Subscribed key) :=
  decidable_of_iff _ (session.subscribed_iff key)

/-- `strncpy(key, local_buffer + 1, MAX_STRING_SIZE - 1)` and the terminator after it. -/
def requestKey (localBuffer : List UInt8) : CString :=
  CString.ofBytes ((localBuffer.drop 1).take (MAX_STRING_SIZE - 1))

/-- `local_buffer[0]`. -/
def opCode (localBuffer : List UInt8) : UInt8 := localBuffer.headD 0

/-- `read` overwrites the first bytes of the buffer and leaves the others. -/
def readInto (localBuffer data : List UInt8) : List UInt8 := data ++ localBuffer.drop data.length

end IstKvs
