import KuiperCache.Library.Cells
import KuiperCache.Packet.Packet

/-! The memory below the cache and the transactions it answers. -/
namespace KuiperCache

open Checked

inductive TlmCommand where
  | readCommand
  | writeCommand
  | ignoreCommand
deriving DecidableEq, Repr

inductive TlmResponseStatus where
  | okResponse
  | incompleteResponse
  | genericErrorResponse
  | addressErrorResponse
  | commandErrorResponse
  | burstErrorResponse
  | byteEnableErrorResponse
deriving DecidableEq, Repr

/-- A transaction.  `data` is the caller's buffer, as long as the data length
says; the byte-enable pointer is null when it is zero. -/
structure GenericPayload where
  command : TlmCommand
  address : Addr
  data : List UInt8
  streamingWidth : BitVec 32
  byteEnablePtr : Addr
  responseStatus : TlmResponseStatus
  dataLength_lt : data.length < 2 ^ 32

/-- The data length, an `unsigned int`. -/
def GenericPayload.dataLength (gp : GenericPayload) : BitVec 32 :=
  BitVec.ofNat 32 gp.data.length

namespace Initiator

/-- The transaction of `Initiator::Read`, which passes the address as the
byte-enable pointer. -/
def readPayload (addr : Addr) (buf : List UInt8) (h : buf.length < 2 ^ 32) : GenericPayload :=
  { command := .readCommand, address := addr, data := buf,
    streamingWidth := BitVec.ofNat 32 buf.length, byteEnablePtr := addr,
    responseStatus := .incompleteResponse, dataLength_lt := h }

/-- The transaction of `Initiator::Write`, which leaves the streaming width at
its initial zero. -/
def writePayload (addr : Addr) (buf : List UInt8) (h : buf.length < 2 ^ 32) : GenericPayload :=
  { command := .writeCommand, address := addr, data := buf, streamingWidth := 0,
    byteEnablePtr := 0, responseStatus := .incompleteResponse, dataLength_lt := h }

end Initiator

structure Memory where
  memorySize : BitVec 64
  memory : Nat → UInt8

namespace Memory

/-- Whether the range fits, in 64-bit arithmetic. -/
def checkAddress (mem : Memory) (gp : GenericPayload) : TlmResponseStatus :=
  if gp.address ≥ mem.memorySize then .addressErrorResponse
  else if gp.address + gp.dataLength.setWidth 64 ≥ mem.memorySize then .addressErrorResponse
  else .okResponse

/-- `m_memory[address++] = data[i]` for every byte of the data. -/
def store (mem : Memory) (address : Addr) : List UInt8 → Except Assertion Memory
  | [] => .ok mem
  | byte :: data => do
      check (address < mem.memorySize) .undefinedBehaviour
      store { mem with memory := Function.update mem.memory address.toNat byte } (address + 1) data

/-- `data[i] = m_memory[address++]` for every byte of the data. -/
def load (mem : Memory) (address : Addr) : Nat → Except Assertion (List UInt8)
  | 0 => .ok []
  | length + 1 => do
      check (address < mem.memorySize) .undefinedBehaviour
      let data ← load mem (address + 1) length
      pure (mem.memory address.toNat :: data)

theorem load_length {mem : Memory} {address : Addr} {length : Nat} {data : List UInt8}
    (h : mem.load address length = .ok data) : data.length = length := by
  induction length generalizing address data with
  | zero =>
      cases h
      rfl
  | succ length ih =>
      simp only [load, bind_eq_ok, check_eq_ok, exists_const, pure_eq_ok] at h
      obtain ⟨-, rest, hrest, rfl⟩ := h
      rw [List.length_cons, ih hrest]

/-- The status that the checks of the byte enables and of the streaming width
leave in the payload; the last statement of `b_transport` overwrites it. -/
def checkPayload (gp : GenericPayload) : GenericPayload :=
  if gp.byteEnablePtr != 0 then { gp with responseStatus := .byteEnableErrorResponse }
  else if gp.streamingWidth != gp.dataLength then { gp with responseStatus := .burstErrorResponse }
  else gp

/-- The data a read moves into the buffer. -/
def loadInto (mem : Memory) (gp : GenericPayload) : Except Assertion GenericPayload :=
  match h : mem.load gp.address gp.data.length with
  | .error reason => .error reason
  | .ok data => .ok { gp with data, dataLength_lt := by rw [load_length h]; exact gp.dataLength_lt }

/-- `b_transport`.  A command that is neither a read nor a write fails an
assertion, as the flag that would suppress it is never set. -/
def bTransport (mem : Memory) (gp : GenericPayload) :
    Except Assertion (Memory × GenericPayload) := do
  let responseStatus := mem.checkAddress gp
  let gp := checkPayload gp
  let (mem, gp) ← (match gp.command with
    | .ignoreCommand => .error .unexpectedCommand
    | .writeCommand =>
        if responseStatus = .okResponse then do
          let mem ← mem.store gp.address gp.data
          pure (mem, gp)
        else pure (mem, gp)
    | .readCommand =>
        if responseStatus = .okResponse then do
          let gp ← mem.loadInto gp
          pure (mem, gp)
        else pure (mem, gp))
  pure (mem, { gp with responseStatus })

end Memory

end KuiperCache
