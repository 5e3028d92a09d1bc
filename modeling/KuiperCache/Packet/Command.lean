import Mathlib.Data.List.Basic

/-! Memory commands and their attribute table, `MemCmd` of the packet header. -/
namespace KuiperCache

/-- The commands of a packet, in the order of the source's enumeration. -/
inductive MemCmd where
  | invalidCmd
  | readReq
  | readResp
  | readRespWithInvalidate
  | writeReq
  | writeResp
  | writeCompleteResp
  | writebackDirty
  | writebackClean
  | writeClean
  | cleanEvict
  | softPFReq
  | softPFExReq
  | hardPFReq
  | softPFResp
  | hardPFResp
  | writeLineReq
  | upgradeReq
  | scUpgradeReq
  | upgradeResp
  | scUpgradeFailReq
  | upgradeFailResp
  | readExReq
  | readExResp
  | readCleanReq
  | readSharedReq
  | loadLockedReq
  | storeCondReq
  | storeCondFailReq
  | storeCondResp
  | lockedRMWReadReq
  | lockedRMWReadResp
  | lockedRMWWriteReq
  | lockedRMWWriteResp
  | swapReq
  | swapResp
  | memFenceReq
  | memSyncReq
  | memSyncResp
  | memFenceResp
  | cleanSharedReq
  | cleanSharedResp
  | cleanInvalidReq
  | cleanInvalidResp
  | invalidDestError
  | badAddressError
  | readError
  | writeError
  | functionalReadError
  | functionalWriteError
  | printReq
  | flushReq
  | invalidateReq
  | invalidateResp
  | htmReq
  | htmReqResp
  | htmAbort
  | tlbiExtSync
deriving DecidableEq, Repr

namespace MemCmd

inductive Attribute where
  | isRead
  | isWrite
  | isUpgrade
  | isInvalidate
  | isClean
  | needsWritable
  | isRequest
  | isResponse
  | needsResponse
  | isEviction
  | isSWPrefetch
  | isHWPrefetch
  | isLlsc
  | isLockedRMW
  | hasData
  | isError
  | isPrint
  | isFlush
  | fromCache
deriving DecidableEq, Repr

open Attribute in
/-- The attribute column of `commandInfo`. -/
def attributes : MemCmd → List Attribute
  | invalidCmd => []
  | readReq => [isRead, isRequest, needsResponse]
  | readResp => [isRead, isResponse, hasData]
  | readRespWithInvalidate => [isRead, isResponse, hasData, isInvalidate]
  | writeReq => [isWrite, needsWritable, isRequest, needsResponse, hasData]
  | writeResp => [isWrite, isResponse]
  | writeCompleteResp => [isWrite, isResponse]
  | writebackDirty => [isWrite, isRequest, isEviction, hasData, fromCache]
  | writebackClean => [isWrite, isRequest, isEviction, hasData, fromCache]
  | writeClean => [isWrite, isRequest, hasData, fromCache]
  | cleanEvict => [isRequest, isEviction, fromCache]
  | softPFReq => [isRead, isRequest, isSWPrefetch, needsResponse]
  | softPFExReq => [isRead, needsWritable, isInvalidate, isRequest, isSWPrefetch, needsResponse]
  | hardPFReq => [isRead, isRequest, isHWPrefetch, needsResponse, fromCache]
  | softPFResp => [isRead, isResponse, isSWPrefetch, hasData]
  | hardPFResp => [isRead, isResponse, isHWPrefetch, hasData]
  | writeLineReq => [isWrite, needsWritable, isRequest, needsResponse, hasData]
  | upgradeReq => [isInvalidate, needsWritable, isUpgrade, isRequest, needsResponse, fromCache]
  | scUpgradeReq =>
      [isInvalidate, needsWritable, isUpgrade, isLlsc, isRequest, needsResponse, fromCache]
  | upgradeResp => [isUpgrade, isResponse]
  | scUpgradeFailReq =>
      [isRead, needsWritable, isInvalidate, isLlsc, isRequest, needsResponse, fromCache]
  | upgradeFailResp => [isRead, isResponse, hasData]
  | readExReq => [isRead, needsWritable, isInvalidate, isRequest, needsResponse, fromCache]
  | readExResp => [isRead, isResponse, hasData]
  | readCleanReq => [isRead, isRequest, needsResponse, fromCache]
  | readSharedReq => [isRead, isRequest, needsResponse, fromCache]
  | loadLockedReq => [isRead, isLlsc, isRequest, needsResponse]
  | storeCondReq => [isWrite, needsWritable, isLlsc, isRequest, needsResponse, hasData]
  | storeCondFailReq => [isWrite, needsWritable, isLlsc, isRequest, needsResponse, hasData]
  | storeCondResp => [isWrite, isLlsc, isResponse]
  | lockedRMWReadReq => [isRead, isLockedRMW, needsWritable, isRequest, needsResponse]
  | lockedRMWReadResp => [isRead, isLockedRMW, needsWritable, isResponse, hasData]
  | lockedRMWWriteReq => [isWrite, isLockedRMW, needsWritable, isRequest, needsResponse, hasData]
  | lockedRMWWriteResp => [isWrite, isLockedRMW, needsWritable, isResponse]
  | swapReq => [isRead, isWrite, needsWritable, isRequest, hasData, needsResponse]
  | swapResp => [isRead, isWrite, isResponse, hasData]
  | memFenceReq => [isRequest, needsResponse]
  | memSyncReq => [isRequest, needsResponse]
  | memSyncResp => [isResponse]
  | memFenceResp => [isResponse]
  | cleanSharedReq => [isRequest, isClean, needsResponse, fromCache]
  | cleanSharedResp => [isResponse, isClean]
  | cleanInvalidReq => [isRequest, isInvalidate, isClean, needsResponse, fromCache]
  | cleanInvalidResp => [isResponse, isInvalidate, isClean]
  | invalidDestError => [isResponse, isError]
  | badAddressError => [isResponse, isError]
  | readError => [isRead, isResponse, isError]
  | writeError => [isWrite, isResponse, isError]
  | functionalReadError => [isRead, isResponse, isError]
  | functionalWriteError => [isWrite, isResponse, isError]
  | printReq => [isRequest, isPrint]
  | flushReq => [isRequest, isFlush, needsWritable]
  | invalidateReq => [isInvalidate, isRequest, needsWritable, needsResponse, fromCache]
  | invalidateResp => [isInvalidate, isResponse]
  | htmReq => [isRead, isRequest, needsResponse]
  | htmReqResp => [isRead, isResponse]
  | htmAbort => [isRead, isRequest]
  | tlbiExtSync => [isRequest]

/-- The response column of `commandInfo`; `invalidCmd` when there is none. -/
def responseCommand : MemCmd → MemCmd
  | readReq => readResp
  | writeReq => writeResp
  | softPFReq => softPFResp
  | softPFExReq => softPFResp
  | hardPFReq => hardPFResp
  | writeLineReq => writeResp
  | upgradeReq => upgradeResp
  | scUpgradeReq => upgradeResp
  | scUpgradeFailReq => upgradeFailResp
  | readExReq => readExResp
  | readCleanReq => readResp
  | readSharedReq => readResp
  | loadLockedReq => readResp
  | storeCondReq => storeCondResp
  | storeCondFailReq => storeCondResp
  | lockedRMWReadReq => lockedRMWReadResp
  | lockedRMWWriteReq => lockedRMWWriteResp
  | swapReq => swapResp
  | memFenceReq => memFenceResp
  | memSyncReq => memSyncResp
  | cleanSharedReq => cleanSharedResp
  | cleanInvalidReq => cleanInvalidResp
  | invalidateReq => invalidateResp
  | htmReq => htmReqResp
  | _ => invalidCmd

def testCmdAttrib (cmd : MemCmd) (attrib : Attribute) : Bool :=
  cmd.attributes.contains attrib

def isRead (cmd : MemCmd) : Bool := cmd.testCmdAttrib .isRead
def isWrite (cmd : MemCmd) : Bool := cmd.testCmdAttrib .isWrite
def isUpgrade (cmd : MemCmd) : Bool := cmd.testCmdAttrib .isUpgrade
def isRequest (cmd : MemCmd) : Bool := cmd.testCmdAttrib .isRequest
def isResponse (cmd : MemCmd) : Bool := cmd.testCmdAttrib .isResponse
def needsWritable (cmd : MemCmd) : Bool := cmd.testCmdAttrib .needsWritable
def needsResponse (cmd : MemCmd) : Bool := cmd.testCmdAttrib .needsResponse
def isInvalidate (cmd : MemCmd) : Bool := cmd.testCmdAttrib .isInvalidate
def isEviction (cmd : MemCmd) : Bool := cmd.testCmdAttrib .isEviction
def isClean (cmd : MemCmd) : Bool := cmd.testCmdAttrib .isClean
def fromCache (cmd : MemCmd) : Bool := cmd.testCmdAttrib .fromCache
def hasData (cmd : MemCmd) : Bool := cmd.testCmdAttrib .hasData
def isLLSC (cmd : MemCmd) : Bool := cmd.testCmdAttrib .isLlsc
def isLockedRMW (cmd : MemCmd) : Bool := cmd.testCmdAttrib .isLockedRMW
def isError (cmd : MemCmd) : Bool := cmd.testCmdAttrib .isError

/-- A writeback is an eviction that carries data. -/
def isWriteback (cmd : MemCmd) : Bool :=
  cmd.testCmdAttrib .isEviction && cmd.testCmdAttrib .hasData

def isPrefetch (cmd : MemCmd) : Bool :=
  cmd.testCmdAttrib .isSWPrefetch || cmd.testCmdAttrib .isHWPrefetch

def hasRespData (cmd : MemCmd) : Bool := cmd.responseCommand.hasData

def isCleanEviction (cmd : MemCmd) : Bool :=
  cmd == cleanEvict || cmd == writebackClean

/-- Every request that expects a response has one that is a response. -/
theorem responseCommand_isResponse (cmd : MemCmd) (h : cmd.needsResponse = true) :
    cmd.responseCommand.isResponse = true := by
  revert h
  cases cmd <;> decide

/-- Nothing is both a request and a response, so a packet is answered once. -/
theorem isRequest_of_isResponse (cmd : MemCmd) (h : cmd.isResponse = true) :
    cmd.isRequest = false := by
  revert h
  cases cmd <;> decide

/-- The plain reads and writes a CPU-side port delivers. -/
def isPlain (cmd : MemCmd) : Bool :=
  cmd == readReq || cmd == writeReq || cmd == writeLineReq

theorem isPlain_cases {cmd : MemCmd} (h : cmd.isPlain = true) :
    cmd = readReq ∨ cmd = writeReq ∨ cmd = writeLineReq := by
  simpa [isPlain, or_assoc] using h

end MemCmd

end KuiperCache
