import KuiperCache.Cache.Shortage
import KuiperCache.Cache.Moves
import KuiperCache.Cache.WriteStream
import KuiperCache.Library.Tally

/-! Write coalescing holds an MSHR back to wait for more writes to its line.  It cannot
do so for ever: a delay is used up each time, and only a write to the line brings new
ones. -/
namespace KuiperCache

namespace WriteAllocator

/-- The delays never exceed the threshold. -/
def Limited (threshold : Nat) (allocator : WriteAllocator) : Prop :=
  allocator.delayThreshold = threshold ∧ ∀ addr, allocator.delayCtr addr ≤ threshold

theorem limited_new (coalesceLimit noAllocateLimit : BitVec 32) (delayThreshold : Nat) :
    Limited delayThreshold (new coalesceLimit noAllocateLimit delayThreshold) :=
  ⟨rfl, fun _ => Nat.zero_le _⟩

variable {threshold : Nat} {allocator : WriteAllocator}

theorem Limited.reset (h : Limited threshold allocator) : Limited threshold allocator.reset := h

theorem Limited.update (h : Limited threshold allocator) (blkAddr : Addr) {count : Nat}
    (hcount : count ≤ threshold) :
    Limited threshold { allocator with
      delayCtr := Function.update allocator.delayCtr blkAddr count } := by
  refine ⟨h.1, ?_⟩
  intro addr
  dsimp only
  rw [Function.update_apply]
  split
  · exact hcount
  · exact h.2 addr

theorem Limited.updateMode (h : Limited threshold allocator) (writeAddr : Addr) (writeSize : Nat)
    (blkAddr : Addr) : Limited threshold (allocator.updateMode writeAddr writeSize blkAddr) := by
  unfold WriteAllocator.updateMode
  dsimp only
  split
  · exact h.update blkAddr h.1.le
  · exact h.update blkAddr (Nat.zero_le _)

/-- Only a write to the block brings delays, and no more than the threshold. -/
theorem updateMode_delayCtr (h : Limited threshold allocator) (writeAddr : Addr)
    (writeSize : Nat) (blkAddr addr : Addr) :
    (allocator.updateMode writeAddr writeSize blkAddr).delayCtr addr ≤
      allocator.delayCtr addr + if blkAddr = addr then threshold else 0 := by
  have hafter := (h.updateMode writeAddr writeSize blkAddr).2 addr
  by_cases heq : blkAddr = addr
  · rw [if_pos heq]
    omega
  · unfold WriteAllocator.updateMode
    rw [if_neg heq]
    dsimp only
    split
    · exact (Function.update_of_ne (Ne.symm heq) _ _).le
    · exact (Function.update_of_ne (Ne.symm heq) _ _).le

end WriteAllocator

namespace HoldBack

open Checked Cache MissTracking

variable {config : CacheConfig}

/-- The delays that are left for a block. -/
def delaysLeft (cache : Cache config) (addr : Addr) : Nat :=
  match cache.writeAllocator with
  | none => 0
  | some allocator => allocator.delayCtr addr

def Limited (threshold : Nat) (cache : Cache config) : Prop :=
  ∀ allocator, cache.writeAllocator = some allocator → allocator.Limited threshold

/-- The step is an attempt to send an MSHR of the block that is held back. -/
def heldFor (addr : Addr) (system : System config) : Label config → Nat
  | .sendMSHRQueuePacket index _ _ =>
      if (system.cache.mshrQueue.entries index).blkAddr = addr ∧
        Shortage.heldBack system.cache index = true then 1 else 0
  | _ => 0

/-- The step is a write to the block. -/
def writesTo (addr : Addr) : Label config → Bool
  | .recvTimingReq pkt _ => pkt.cmd.isWrite && pkt.getBlockAddr config.blkSize == addr
  | _ => false

theorem delaysLeft_same {before after : Cache config} (h : SameAllocator before after)
    (addr : Addr) : delaysLeft after addr = delaysLeft before addr := by
  have h : after.writeAllocator = before.writeAllocator := h
  rw [delaysLeft, delaysLeft, h]

theorem Limited.same {threshold : Nat} {before after : Cache config}
    (h : Limited threshold before) (hsame : SameAllocator before after) :
    Limited threshold after := by
  intro allocator hallocator
  have hsame : after.writeAllocator = before.writeAllocator := hsame
  exact h allocator (hsame ▸ hallocator)

theorem Limited.delaysLeft_le {threshold : Nat} {cache : Cache config}
    (h : Limited threshold cache) (addr : Addr) : delaysLeft cache addr ≤ threshold := by
  unfold delaysLeft
  split
  · exact Nat.zero_le _
  · rename_i allocator hallocator
    exact (h allocator hallocator).2 addr

/-- What a request does to the write allocator: nothing, or it is a write that missed. -/
theorem recvTimingReq_allocator {cache next : Cache config}
    (hempty : cache.writeBuffer.allocatedList = []) {pkt : Packet}
    {random : Fin config.geometry.assoc} (h : cache.recvTimingReq pkt random = .ok next) :
    SameAllocator cache next ∨ ∃ allocator, cache.writeAllocator = some allocator ∧
      pkt.cmd.isWrite = true ∧ next.writeAllocator =
        some (allocator.updateMode pkt.addr pkt.size (pkt.getBlockAddr config.blkSize)) := by
  obtain ⟨reopened, accessed, handled, -, haccess, -, hquiet, hhandled, rfl⟩ :=
    recvTimingReq_parts hempty h
  have haccessed := hquiet SameAllocator sameAllocator_moves.toQuiet fun _ => sameAllocator_dirties
  have hpkt := access_pkt haccess
  have hnext : SameAllocator handled
      (if config.hasPrefetcher then handled.schedMemSideSendEvent else handled) := by
    split <;> rfl
  split at hhandled
  · have hhit := sameAllocator_moves.handleTimingReqHit sameAllocator_counts hhandled
    have hcleared := sameAllocator_moves.clearPrefetched accessed.cache accessed.blk
    exact .inl (sameAllocator_moves.trans haccessed (sameAllocator_moves.trans hcleared
      (sameAllocator_moves.trans hhit hnext)))
  · simp only [Cache.handleTimingReqMiss, bind_eq_ok, check_eq_ok, exists_const] at hhandled
    obtain ⟨found, -, -, hmiss⟩ := hhandled
    have hrest : SameAllocator (accessed.cache.updateWriteMode accessed.pkt) handled := by
      cases found with
      | none => exact sameAllocator_moves.startMiss sameAllocator_counts hmiss
      | some index => exact sameAllocator_moves.coalesce sameAllocator_counts hmiss
    have hall := sameAllocator_moves.trans hrest hnext
    have haccessed : accessed.cache.writeAllocator = cache.writeAllocator := haccessed
    unfold Cache.updateWriteMode at hall
    split at hall
    · exact .inl (sameAllocator_moves.trans haccessed hall)
    · rename_i allocator hallocator
      split at hall
      · rename_i hwrite
        rw [Bool.and_eq_true] at hwrite
        rw [hpkt] at hwrite hall
        exact .inr ⟨allocator, haccessed ▸ hallocator, hwrite.1, hall⟩
      · exact .inl (sameAllocator_moves.trans haccessed hall)

/-- An entry that is held back uses up a delay of its block. -/
theorem coalesceDelay_delays (cache : Cache config) (index : Fin config.mshrs) (pkt : Packet)
    (addr : Addr) :
    (if (cache.mshrQueue.entries index).blkAddr = addr ∧ (cache.coalesceDelay index pkt).1 = true
      then 1 else 0) + delaysLeft (cache.coalesceDelay index pkt).2 addr ≤
      delaysLeft cache addr := by
  unfold coalesceDelay
  cases hallocator : cache.writeAllocator with
  | none => simp
  | some allocator =>
      dsimp only
      split
      · split
        · simp only [Bool.false_eq_true, and_false, ↓reduceIte, Nat.zero_add, delaysLeft,
            hallocator, WriteAllocator.resetDelay, Function.update_apply]
          split
          · exact Nat.zero_le _
          · exact le_rfl
        · simp only [delaysLeft, hallocator, WriteAllocator.delay]
          by_cases hleft : allocator.delayCtr (cache.mshrQueue.entries index).blkAddr > 0
          · simp only [if_pos hleft, and_true, ↓reduceIte, Function.update_apply]
            by_cases heq : (cache.mshrQueue.entries index).blkAddr = addr
            · subst heq
              simp only [↓reduceIte]
              omega
            · simp [heq, Ne.symm heq]
          · simp only [if_neg hleft, Bool.false_eq_true, and_false, ↓reduceIte, Nat.zero_add]
            exact le_rfl
      · simp

theorem coalesceDelay_limited {threshold : Nat} {cache : Cache config}
    (h : Limited threshold cache) (index : Fin config.mshrs) (pkt : Packet) :
    Limited threshold (cache.coalesceDelay index pkt).2 := by
  unfold coalesceDelay
  cases hallocator : cache.writeAllocator with
  | none => exact h
  | some allocator =>
      have hlimited := h allocator hallocator
      dsimp only
      split
      · split
        · intro other hother
          obtain rfl := Option.some.inj hother
          exact hlimited.update _ (Nat.zero_le _)
        · intro other hother
          obtain rfl := Option.some.inj hother
          unfold WriteAllocator.delay
          split
          · have hleft := hlimited.2 (cache.mshrQueue.entries index).blkAddr
            exact hlimited.update _ (by omega)
          · exact hlimited.reset
      · exact h

/-- What a step pays for: an MSHR that is held back costs a delay, and a write to the
block brings delays up to the threshold. -/
theorem step_paid {threshold : Nat} (addr : Addr) (system : System config) (label : Label config)
    (next : System config) (h : Sound system.cache ∧ Limited threshold system.cache)
    (hstep : system.step label = .ok next) :
    (Sound next.cache ∧ Limited threshold next.cache) ∧
      heldFor addr system label + delaysLeft next.cache addr ≤
        delaysLeft system.cache addr + if writesTo addr label then threshold else 0 := by
  obtain ⟨hsound, hlimited⟩ := h
  refine (and_assoc.mpr ⟨System.step_sound system label next hsound hstep, ?_⟩)
  have hfresh : SameAllocator system.cache system.cache.newPtr.2 := rfl
  have hempty := (hsound.touched (newPtr_kept system.cache).toTouched).writeBuffer
  have hsame : SameAllocator system.cache next.cache → heldFor addr system label = 0 →
      Limited threshold next.cache ∧ heldFor addr system label + delaysLeft next.cache addr ≤
        delaysLeft system.cache addr + if writesTo addr label then threshold else 0 := by
    intro hsame hheld
    rw [hheld, delaysLeft_same hsame, Nat.zero_add]
    exact ⟨hlimited.same hsame, Nat.le_add_right _ _⟩
  cases label with
  | recvTimingReq pkt random =>
      obtain ⟨cache, hreq, rfl⟩ := System.step_recvTimingReq hstep
      obtain hkept | ⟨allocator, hallocator, hwrite, hnext⟩ := recvTimingReq_allocator hempty.1 hreq
      · exact hsame (sameAllocator_moves.trans hfresh hkept) rfl
      · have hallocator : system.cache.writeAllocator = some allocator := hallocator
        have hlimit := hlimited allocator hallocator
        constructor
        · intro other hother
          obtain rfl := Option.some.inj (hnext.symm.trans hother)
          exact hlimit.updateMode _ _ _
        · have hbrings := WriteAllocator.updateMode_delayCtr hlimit pkt.addr pkt.size
            (pkt.getBlockAddr config.blkSize) addr
          have hwrite : pkt.cmd.isWrite = true := hwrite
          simp only [delaysLeft, hnext, hallocator, heldFor, writesTo, hwrite, Bool.true_and,
            beq_iff_eq, Nat.zero_add]
          exact hbrings
  | getNextQueueEntry prefetch =>
      obtain ⟨entry, cache, hnext, rfl⟩ := System.step_getNextQueueEntry hstep
      have hchosen := sameAllocator_moves.getNextQueueEntry sameAllocator_counts hempty.2 hnext
      exact hsame (sameAllocator_moves.trans hfresh hchosen) rfl
  | sendMSHRQueuePacket index reply random =>
      obtain ⟨waiting, cache, flight, hsend, rfl⟩ := System.step_sendMSHRQueuePacket hstep
      obtain ⟨target, htarget, hsent⟩ := sameAllocator_moves.sendMSHRQueuePacket_parts hsend
      refine ⟨(coalesceDelay_limited hlimited index target.pkt).same hsent, ?_⟩
      rw [delaysLeft_same hsent, heldFor, Shortage.heldBack_eq htarget]
      exact (coalesceDelay_delays system.cache index target.pkt addr).trans (Nat.le_add_right _ _)
  | handleTimingRes pkt random =>
      obtain ⟨cache, hres, rfl⟩ := System.step_handleTimingRes hstep
      exact hsame (sameAllocator_moves.handleTimingRes hres) rfl
  | recvTimingResp pkt random =>
      obtain ⟨cache, hresp, rfl⟩ := System.step_recvTimingResp hstep
      exact hsame (sameAllocator_moves.recvTimingResp (fun _ => sameAllocator_dirties) hresp) rfl

theorem sum_credits (addr : Addr) (threshold : Nat) (labels : List (Label config)) :
    (labels.map fun label => if writesTo addr label then threshold else 0).sum =
      threshold * labels.countP (writesTo addr) := by
  induction labels with
  | nil => rfl
  | cons label labels ih =>
      rw [List.map_cons, List.sum_cons, ih, List.countP_cons, Nat.mul_add, Nat.add_comm]
      congr 1
      split
      · rw [Nat.mul_one]
      · rw [Nat.mul_zero]

/-- After any calls with any packets, write coalescing holds the MSHRs of a block back
no more often than the threshold for each write to it; and from any state on, no more
often than the threshold and the threshold for each further write.  So a block that is
no longer written is held back at most as often as the threshold says. -/
theorem held_back_at_most_threshold {coalesceLimit noAllocateLimit : BitVec 32}
    {threshold : Nat} {labels : List (Label config)} {system : System config}
    (hrun : Transition.run System.step (System.new config
      (some (WriteAllocator.new coalesceLimit noAllocateLimit threshold))) labels = .ok system)
    (addr : Addr) :
    Transition.tally System.step (heldFor addr) (System.new config
        (some (WriteAllocator.new coalesceLimit noAllocateLimit threshold))) labels ≤
      threshold * labels.countP (writesTo addr) ∧
    ∀ further, Transition.tally System.step (heldFor addr) system further ≤
      threshold + threshold * further.countP (writesTo addr) := by
  have hpaid := @step_paid config threshold addr
  have hnew : Sound (System.new config (some (WriteAllocator.new coalesceLimit noAllocateLimit
      threshold))).cache ∧ Limited threshold (System.new config
      (some (WriteAllocator.new coalesceLimit noAllocateLimit threshold))).cache := by
    refine ⟨sound_new config _, ?_⟩
    intro allocator hallocator
    obtain rfl := Option.some.inj hallocator
    exact WriteAllocator.limited_new coalesceLimit noAllocateLimit threshold
  constructor
  · have hbound := Transition.tally_le hpaid labels hnew
    rw [sum_credits] at hbound
    exact hbound.trans_eq (Nat.zero_add _)
  · intro further
    obtain ⟨hsound, hlimited⟩ := Transition.run_invariant (fun _ => True)
      (fun state label next _ hinv hstep => (hpaid state label next hinv hstep).1)
      (fun _ _ => trivial) hrun hnew
    have hbound := Transition.tally_le hpaid further ⟨hsound, hlimited⟩
    rw [sum_credits] at hbound
    exact hbound.trans (Nat.add_le_add_right (hlimited.delaysLeft_le addr) _)

/-- A write starts a stream; its MSHR is held back twice and then sent. -/
def heldBackTwice : List (Label prefetchingParams) :=
  let way := prefetchingParams.geometry.firstWay
  let send := Label.sendMSHRQueuePacket ⟨0, prefetchingParams.mshrs_pos⟩
    (some (List.replicate 16 7)) way
  [.recvTimingReq (Packet.ofRequest 0 (Request.physical 0x00 4 0 0) .writeReq) way,
    send, send, send]

theorem held_back_at_most_threshold_twice :
    ∃ system, Transition.run System.step (System.new prefetchingParams
        (some (WriteAllocator.new 0 64 2))) heldBackTwice = .ok system ∧
      system.cache.responses.length = 1 ∧
      Transition.tally System.step (heldFor 0x00) (System.new prefetchingParams
        (some (WriteAllocator.new 0 64 2))) heldBackTwice = 2 ∧
      ∀ further, Transition.tally System.step (heldFor 0x00) system further ≤
        2 + 2 * further.countP (writesTo 0x00) := by
  obtain ⟨system, hrun, hseen⟩ := exists_ok_of_observed
    (show ((Transition.run System.step (System.new prefetchingParams
      (some (WriteAllocator.new 0 64 2))) heldBackTwice).toOption.map fun system =>
        system.cache.responses.length) = some 1 by decide +kernel)
  exact ⟨system, hrun, hseen, by decide +kernel, (held_back_at_most_threshold hrun 0x00).2⟩

end HoldBack

end KuiperCache
