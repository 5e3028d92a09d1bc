import KuiperCache.Cache.Entries
import KuiperCache.Cache.PlainAccess
import KuiperCache.Mshr.Flags

/-! Uncacheable accesses.  They are meant to go past the cache, but only the
choice of an MSHR ever asks whether a request is uncacheable, and the lookup of
the miss path turns that question off. -/
namespace KuiperCache.Uncacheable

open Checked Cache

variable {config : CacheConfig}

/-- A response on its way to an MSHR. -/
structure Reply (config : CacheConfig) where
  index : Fin config.mshrs
  addr : Addr
  isSecure : Bool
  isError : Bool

/-- Responses that are also writes are not looked at. -/
def replyOf (config : CacheConfig) (pkt : Packet) : Option (Reply config) :=
  if pkt.cmd.isWrite then none
  else match popMSHR pkt with
    | .error _ => none
    | .ok index => some
        { index, addr := pkt.addr, isSecure := pkt.isSecure, isError := pkt.cmd.isError }

/-- The response that a call hands to the cache, if it does. -/
def response (system : System config) : Label config → Option (Reply config)
  | .recvTimingReq .. => none
  | .getNextQueueEntry _ => none
  | .sendMSHRQueuePacket _ none _ => none
  | .sendMSHRQueuePacket index (some _) _ =>
      match (system.cache.mshrQueue.entries index).getTarget with
      | .error _ => none
      | .ok target =>
          -- write coalescing may hold the MSHR back
          if (system.cache.coalesceDelay index target.pkt).1 then none
          else some
            { index, addr := (Packet.ofBlock 0 target.pkt.req .readReq config.blkSize).addr,
              isSecure := target.pkt.req.isSecure, isError := false }
  | .handleTimingRes pkt _ =>
      replyOf config { Packet.ofBlock pkt.ptr pkt.req
        (if pkt.cmd.isRead then .readExResp else .writeResp) pkt.size with
          senderState := pkt.senderState }
  | .recvTimingResp pkt _ => replyOf config pkt

/-- An MSHR all of whose targets are of the kind it was allocated for, and whose
response will bring its line in. -/
structure Uniform (mshr : Mshr) : Prop where
  isForward : mshr.isForward = false
  allocOnFill : mshr.targets.allocOnFill = true
  kind : ∀ target ∈ mshr.waiting, target.pkt.req.isUncacheable = mshr.isUncacheable

theorem Uniform.issued {mshr : Mshr} (h : Uniform mshr) :
    Uniform { mshr with isForward := false } := ⟨rfl, h.allocOnFill, h.kind⟩

theorem Uniform.allocateTarget {mshr mshr' : Mshr} {pkt : Packet} {whenReady : Tick}
    {order : Nat} {onFill : Bool} (h : Uniform mshr)
    (hjoin : mshr.allocateTarget pkt whenReady order onFill = .ok mshr')
    (hkind : mshr.isUncacheable = pkt.req.isUncacheable) : Uniform mshr' := by
  obtain ⟨-, -, hblock, hforward, target, hreq, -, hwaiting, htargets⟩ :=
    Mshr.allocateTarget_joined hjoin
  refine ⟨hforward.trans h.isForward, ?_, ?_⟩
  · obtain hsame | hadd := htargets
    · rw [hsame, h.allocOnFill]
    · have hflags := congrArg Flags.allocOnFill (TargetList.add_flags hadd)
      simpa [TargetList.flags, Flags.join, h.allocOnFill] using hflags
  · intro other hother
    rw [hblock.isUncacheable]
    rw [hwaiting, List.mem_append, List.mem_singleton] at hother
    obtain hold | rfl := hother
    · exact h.kind other hold
    · rw [Target.unmarked_pkt, hreq, hkind]

theorem Uniform.markInService {mshr mshr' : Mshr} {pendingModified : Bool} (h : Uniform mshr)
    (hmark : mshr.markInService pendingModified = .ok mshr') : Uniform mshr' := by
  have hspec := Mshr.markInService_spec hmark
  refine ⟨hspec.isForward.trans h.isForward, ?_, ?_⟩
  · obtain hsame | hcleared := hspec.targets
    · rw [hsame, h.allocOnFill]
    · rw [hcleared]
      exact h.allocOnFill
  · rw [hspec.waiting, hspec.isUncacheable]
    exact h.kind

theorem unblockTargets_tags (cache : Cache config) (index : Fin config.mshrs) :
    (cache.unblockTargets index).tags = cache.tags := by
  unfold unblockTargets
  split <;> rfl

theorem handleTimingReqMiss_responses {cache next : Cache config} {pkt : Packet}
    {blk : Option (BlkRef config.geometry)} (h : cache.handleTimingReqMiss pkt blk = .ok next) :
    next.responses = cache.responses := by
  obtain ⟨found, updated, hkept, -, hmiss⟩ := handleTimingReqMiss_cases h
  rw [← hkept.responses]
  cases found with
  | some index =>
      obtain ⟨-, hsame⟩ | ⟨mshr, -, hserving⟩ := coalesce_cases hmiss
      · exact hsame.responses
      · rw [hserving.responses, List.append_nil]
  | none =>
      obtain ⟨-, middle, index, mshr, htouched, -, -, hmissed, -⟩ := startMiss_cases hmiss
      exact hmissed.kept.responses.trans htouched.responses

/-- Four bytes at the address, cacheable or not. -/
def fourBytes (addr : Addr) (uncacheable : Bool) : Packet :=
  Packet.ofRequest 0
    (Request.physical addr 4 (if uncacheable then Request.uncacheable else 0) 0) .readReq

end KuiperCache.Uncacheable
