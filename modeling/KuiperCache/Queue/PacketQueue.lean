import KuiperCache.Library.StableOrder
import KuiperCache.Library.Transition
import KuiperCache.Mshr.Target

/-! The queue of deferred packets of a port.  A packet is placed by its tick,
and in a queue that forces the order never in front of one to its address; a
packet that is refused goes back to the front. -/
namespace KuiperCache

open Checked StableOrder

def Packet.matchAddr (pkt : Packet) (addr : Addr) (isSecure : Bool) : Bool :=
  pkt.addr == addr && pkt.isSecure == isSecure

/-- A packet to transmit later.  `call` numbers the calls that scheduled one; the
code does not keep it and no function reads it. -/
structure PacketQueue.DeferredPacket where
  tick : Tick
  pkt : Packet
  call : Nat

/-- `sendEvents` counts the notifications of `sendEvent`. -/
structure PacketQueue where
  transmitList : List PacketQueue.DeferredPacket
  disableSanityCheck : Bool
  forceOrder : Bool
  waitingOnRetry : Bool
  sendEvents : Nat

namespace PacketQueue

def new (forceOrder disableSanityCheck : Bool) : PacketQueue :=
  { transmitList := [], disableSanityCheck, forceOrder, waitingOnRetry := false, sendEvents := 0 }

/-- The two packets have the same address and security. -/
def DeferredPacket.sameAddr (first second : DeferredPacket) : Bool :=
  first.pkt.matchAddr second.pkt.addr second.pkt.isSecure

/-- `sendEvent.notify()`, also while a retry is awaited. -/
def schedSendEvent (queue : PacketQueue) : PacketQueue :=
  { queue with sendEvents := queue.sendEvents + 1 }

/-- Whether the search for the place of a packet ends at this one. -/
def stopsAt (forceOrder : Bool) (dp it : DeferredPacket) : Bool :=
  (forceOrder && it.sameAddr dp) || it.tick ≤ dp.tick

/-- The search from the end of the list, as the packets before the iterator, the
nearest one first, and those after it.  Whether the front was reached is told
as well. -/
def emplace (forceOrder : Bool) (dp : DeferredPacket) : List DeferredPacket →
    List DeferredPacket → Bool × List DeferredPacket
  | [], after => (true, dp :: after)
  | it :: before, after =>
      if stopsAt forceOrder dp it then (false, (it :: before).reverse ++ dp :: after)
      else emplace forceOrder dp before (it :: after)

def schedSendTiming (queue : PacketQueue) (dp : DeferredPacket) : Except Assertion PacketQueue := do
  check (queue.disableSanityCheck || queue.transmitList.length ≤ 128) .packetQueueOverflow
  let (front, transmitList) := emplace queue.forceOrder dp queue.transmitList.reverse []
  let placed := { queue with transmitList }
  pure (if front then placed.schedSendEvent else placed)

/-- Send the head of the list; `taken` is what `sendTiming` answers.  Returns the
packet that left. -/
def sendDeferredPacket (queue : PacketQueue) (taken : Bool) :
    Except Assertion (Option DeferredPacket × PacketQueue) := do
  check (!queue.waitingOnRetry) .waitingOnRetry
  match queue.transmitList with
  | [] => .error .deferredPacketExpected
  | dp :: rest =>
      let popped := { queue with transmitList := rest, waitingOnRetry := !taken }
      if taken then pure (some dp, popped.schedSendEvent)
      else pure (none, { popped with transmitList := dp :: rest })

def processSendEvent (queue : PacketQueue) (taken : Bool) :
    Except Assertion (Option DeferredPacket × PacketQueue) := do
  check (!queue.waitingOnRetry) .waitingOnRetry
  queue.sendDeferredPacket taken

def retry (queue : PacketQueue) (taken : Bool) :
    Except Assertion (Option DeferredPacket × PacketQueue) := do
  check queue.waitingOnRetry .waitingOnRetry
  { queue with waitingOnRetry := false }.sendDeferredPacket taken

variable {forceOrder : Bool} {dp : DeferredPacket}

/-- The packet is placed behind the last one the search ends at. -/
theorem emplace_split (forceOrder : Bool) (dp : DeferredPacket)
    (before after : List DeferredPacket) :
    ∃ front back, before.reverse = front ++ back ∧
      (emplace forceOrder dp before after).2 = front ++ dp :: (back ++ after) ∧
      (∀ it ∈ back, stopsAt forceOrder dp it = false) ∧
      ∀ it ∈ front.getLast?, stopsAt forceOrder dp it = true := by
  induction before generalizing after with
  | nil => exact ⟨[], [], rfl, rfl, by simp, by simp⟩
  | cons it before ih =>
      rw [emplace]
      cases hstop : stopsAt forceOrder dp it with
      | true => exact ⟨(it :: before).reverse, [], by simp, rfl, by simp, by simp [hstop]⟩
      | false =>
          obtain ⟨front, back, hsplit, hplace, hback, hfront⟩ := ih (it :: after)
          refine ⟨front, back ++ [it], ?_, ?_, ?_, hfront⟩
          · rw [List.reverse_cons, hsplit, List.append_assoc]
          · rw [if_neg Bool.false_ne_true, hplace, List.append_assoc]
            rfl
          · intro other hother
            obtain hother | hother := List.mem_append.mp hother
            · exact hback other hother
            · rw [List.mem_singleton.mp hother]
              exact hstop

/-- Where a scheduled packet goes. -/
theorem schedSendTiming_eq_ok {queue next : PacketQueue} (h : queue.schedSendTiming dp = .ok next) :
    next.forceOrder = queue.forceOrder ∧
      ∃ front back, queue.transmitList = front ++ back ∧
        next.transmitList = front ++ dp :: back ∧
        (∀ it ∈ back, stopsAt queue.forceOrder dp it = false) ∧
        ∀ it ∈ front.getLast?, stopsAt queue.forceOrder dp it = true := by
  simp only [schedSendTiming, bind_eq_ok, check_eq_ok, exists_const, pure_eq_ok] at h
  obtain ⟨-, rfl⟩ := h
  obtain ⟨front, back, hsplit, hplace, hback, hfront⟩ :=
    emplace_split queue.forceOrder dp queue.transmitList.reverse []
  rw [List.reverse_reverse] at hsplit
  rw [List.append_nil] at hplace
  refine ⟨?_, front, back, hsplit, ?_, hback, hfront⟩
  · split <;> rfl
  · rw [← hplace]
    split <;> rfl

/-- A send takes the head of the list, or leaves the list as it is. -/
theorem sendDeferredPacket_eq_ok {queue next : PacketQueue} {taken : Bool}
    {left : Option DeferredPacket} (h : queue.sendDeferredPacket taken = .ok (left, next)) :
    next.forceOrder = queue.forceOrder ∧
      left.toList ++ next.transmitList = queue.transmitList := by
  simp only [sendDeferredPacket, bind_eq_ok] at h
  obtain ⟨-, -, h⟩ := h
  cases hlist : queue.transmitList with
  | nil =>
      rw [hlist] at h
      cases h
  | cons head rest =>
      rw [hlist] at h
      cases taken with
      | true =>
          cases h
          exact ⟨rfl, rfl⟩
      | false =>
          cases h
          exact ⟨rfl, rfl⟩

end PacketQueue

/-- The queue, all packets scheduled and those sent, both in order. -/
structure PacketQueueRun where
  queue : PacketQueue
  scheduled : List PacketQueue.DeferredPacket
  sent : List PacketQueue.DeferredPacket

namespace PacketQueueRun

open PacketQueue

inductive Label where
  | schedSendTiming (pkt : Packet) (tick : Tick)
  | processSendEvent (taken : Bool)
  | retry (taken : Bool)

def new (forceOrder disableSanityCheck : Bool) : PacketQueueRun :=
  { queue := PacketQueue.new forceOrder disableSanityCheck, scheduled := [], sent := [] }

def step (run : PacketQueueRun) : Label → Except Assertion PacketQueueRun
  | .schedSendTiming pkt tick => do
      let dp := { tick, pkt, call := run.scheduled.length }
      let queue ← run.queue.schedSendTiming dp
      pure { run with queue, scheduled := run.scheduled ++ [dp] }
  | .processSendEvent taken => do
      let (left, queue) ← run.queue.processSendEvent taken
      pure { run with queue, sent := run.sent ++ left.toList }
  | .retry taken => do
      let (left, queue) ← run.queue.retry taken
      pure { run with queue, sent := run.sent ++ left.toList }

/-- Every packet that left or still waits, in the order of leaving. -/
def leaving (run : PacketQueueRun) : List PacketQueue.DeferredPacket :=
  run.sent ++ run.queue.transmitList

/-- The packets are those scheduled, and they are in order. -/
structure InOrder (run : PacketQueueRun) : Prop where
  conserved : run.leaving.Perm run.scheduled
  numbered : run.scheduled.map PacketQueue.DeferredPacket.call = List.range run.scheduled.length
  byTick : run.queue.forceOrder = false →
    run.queue.transmitList.Pairwise
      (Precedes PacketQueue.DeferredPacket.tick PacketQueue.DeferredPacket.call)
  byAddr : run.queue.forceOrder = true → run.leaving.Pairwise fun first second =>
    first.sameAddr second = true → first.call < second.call

variable {run next : PacketQueueRun}

theorem InOrder.call_lt (h : run.InOrder) {dp : PacketQueue.DeferredPacket}
    (hmem : dp ∈ run.leaving) :
    dp.call < run.scheduled.length := by
  have hcall : dp.call ∈ run.scheduled.map PacketQueue.DeferredPacket.call :=
    List.mem_map_of_mem (h.conserved.mem_iff.mp hmem)
  rw [h.numbered] at hcall
  exact List.mem_range.mp hcall

/-- Placed by tick: behind the packets of at most its tick. -/
theorem InOrder.schedule_byTick (h : run.InOrder) {dp : PacketQueue.DeferredPacket}
    {front back : List PacketQueue.DeferredPacket} (hcall : dp.call = run.scheduled.length)
    (hsplit : run.queue.transmitList = front ++ back) (hforce : run.queue.forceOrder = false)
    (hback : ∀ it ∈ back, stopsAt run.queue.forceOrder dp it = false)
    (hfront : ∀ it ∈ front.getLast?, stopsAt run.queue.forceOrder dp it = true) :
    (front ++ dp :: back).Pairwise
      (Precedes PacketQueue.DeferredPacket.tick PacketQueue.DeferredPacket.call) := by
  have hsorted := h.byTick hforce
  rw [hsplit] at hsorted
  simp only [stopsAt, hforce, Bool.false_and, Bool.false_or, decide_eq_false_iff_not,
    decide_eq_true_eq, not_le] at hback hfront
  apply pairwise_insert hsorted
  · intro it hit
    cases hlast : front.getLast? with
    | none =>
        rw [List.getLast?_eq_none_iff.mp hlast] at hit
        cases hit
    | some last =>
        have hle := key_le_last (List.pairwise_append.mp hsorted).1 hlast it hit
        exact hle.trans (hfront last hlast)
  · exact hback
  · intro it hit
    rw [hcall]
    apply h.call_lt
    simp [leaving, hsplit, hit]

/-- Placed behind the packets to its address. -/
theorem InOrder.schedule_byAddr (h : run.InOrder) {dp : PacketQueue.DeferredPacket}
    {front back : List PacketQueue.DeferredPacket} (hcall : dp.call = run.scheduled.length)
    (hsplit : run.queue.transmitList = front ++ back) (hforce : run.queue.forceOrder = true)
    (hback : ∀ it ∈ back, stopsAt run.queue.forceOrder dp it = false) :
    (run.sent ++ (front ++ dp :: back)).Pairwise fun first second =>
      first.sameAddr second = true → first.call < second.call := by
  have hleaving := h.byAddr hforce
  have hlater : ∀ it ∈ run.leaving, it.call < dp.call := by
    intro it hit
    rw [hcall]
    exact h.call_lt hit
  rw [leaving, hsplit, ← List.append_assoc] at hleaving hlater
  rw [← List.append_assoc]
  rw [List.pairwise_append] at hleaving
  obtain ⟨hfirst, hsecond, hacross⟩ := hleaving
  rw [List.pairwise_append, List.pairwise_cons]
  refine ⟨hfirst, ⟨?_, hsecond⟩, ?_⟩
  · intro it hit hsame
    -- the search would have ended at a packet to the same address
    have hstop := hback it hit
    simp only [stopsAt, hforce, Bool.true_and, Bool.or_eq_false_iff] at hstop
    have hcomm : it.sameAddr dp = dp.sameAddr it := by
      simp only [PacketQueue.DeferredPacket.sameAddr, Packet.matchAddr, BEq.comm]
    rw [hcomm, hsame] at hstop
    cases hstop.1
  · intro it hit other hother
    obtain rfl | hother := List.mem_cons.mp hother
    · intro _
      exact hlater it (List.mem_append_left back hit)
    · exact hacross it hit other hother

theorem InOrder.schedule (h : run.InOrder) {pkt : Packet} {tick : Tick}
    (hstep : run.step (.schedSendTiming pkt tick) = .ok next) : next.InOrder := by
  simp only [step, bind_eq_ok, pure_eq_ok] at hstep
  obtain ⟨queue, hqueue, rfl⟩ := hstep
  obtain ⟨hforce, front, back, hsplit, hplaced, hback, hfront⟩ := schedSendTiming_eq_ok hqueue
  refine ⟨?_, ?_, ?_, ?_⟩
  · have hconserved := h.conserved
    simp only [leaving, hsplit, hplaced] at hconserved ⊢
    rw [← List.append_assoc] at hconserved ⊢
    exact List.perm_middle.trans ((hconserved.cons _).trans (List.perm_append_singleton _ _).symm)
  · simp [h.numbered, List.range_succ]
  · intro hfalse
    show queue.transmitList.Pairwise _
    rw [hplaced]
    exact h.schedule_byTick rfl hsplit (hforce.symm.trans hfalse) hback hfront
  · intro htrue
    show (run.sent ++ queue.transmitList).Pairwise _
    rw [hplaced]
    exact h.schedule_byAddr rfl hsplit (hforce.symm.trans htrue) hback

/-- A send moves the head from the queue to the packets sent, or nothing. -/
theorem InOrder.send (h : run.InOrder) {queue : PacketQueue}
    {left : Option PacketQueue.DeferredPacket}
    (hforce : queue.forceOrder = run.queue.forceOrder)
    (hleft : left.toList ++ queue.transmitList = run.queue.transmitList) :
    { run with queue, sent := run.sent ++ left.toList }.InOrder := by
  have hleaving : { run with queue, sent := run.sent ++ left.toList }.leaving = run.leaving := by
    simp only [leaving, List.append_assoc, hleft]
  refine ⟨?_, h.numbered, ?_, ?_⟩
  · rw [hleaving]
    exact h.conserved
  · intro hfalse
    have hsorted := h.byTick (hforce.symm.trans hfalse)
    rw [← hleft] at hsorted
    exact (List.pairwise_append.mp hsorted).2.1
  · intro htrue
    rw [hleaving]
    exact h.byAddr (hforce.symm.trans htrue)

theorem InOrder.step {label : Label} (h : run.InOrder) (hstep : run.step label = .ok next) :
    next.InOrder ∧ next.queue.forceOrder = run.queue.forceOrder := by
  cases label with
  | schedSendTiming pkt tick =>
      refine ⟨h.schedule hstep, ?_⟩
      simp only [PacketQueueRun.step, bind_eq_ok, pure_eq_ok] at hstep
      obtain ⟨queue, hqueue, rfl⟩ := hstep
      exact (schedSendTiming_eq_ok hqueue).1
  | processSendEvent taken =>
      simp only [PacketQueueRun.step, processSendEvent, bind_eq_ok, pure_eq_ok] at hstep
      obtain ⟨⟨left, queue⟩, ⟨-, -, hsend⟩, rfl⟩ := hstep
      obtain ⟨hforce, hleft⟩ := sendDeferredPacket_eq_ok hsend
      exact ⟨h.send hforce hleft, hforce⟩
  | retry taken =>
      simp only [PacketQueueRun.step, PacketQueue.retry, bind_eq_ok, pure_eq_ok] at hstep
      obtain ⟨⟨left, queue⟩, ⟨-, -, hsend⟩, rfl⟩ := hstep
      obtain ⟨hforce, hleft⟩ := sendDeferredPacket_eq_ok hsend
      exact ⟨h.send hforce hleft, hforce⟩

theorem inOrder_new (forceOrder disableSanityCheck : Bool) :
    (new forceOrder disableSanityCheck).InOrder :=
  ⟨List.Perm.refl _, rfl, fun _ => List.Pairwise.nil, fun _ => List.Pairwise.nil⟩

/-- No packet is lost or sent twice; the list is ordered by tick and then by call,
or packets to one address leave in the order of the calls. -/
theorem deferred_packets_keep_order {forceOrder disableSanityCheck : Bool} {labels : List Label}
    {final : PacketQueueRun}
    (hrun : Transition.run step (new forceOrder disableSanityCheck) labels = .ok final) :
    (forceOrder = false →
      final.queue.transmitList.Pairwise
        (Precedes PacketQueue.DeferredPacket.tick PacketQueue.DeferredPacket.call)) ∧
    (forceOrder = true → (final.sent ++ final.queue.transmitList).Pairwise fun first second =>
      first.pkt.addr = second.pkt.addr → first.pkt.isSecure = second.pkt.isSecure →
        first.call < second.call) ∧
    (final.sent ++ final.queue.transmitList).Perm final.scheduled ∧
    final.scheduled.map PacketQueue.DeferredPacket.call = List.range final.scheduled.length := by
  have hpreserved : ∀ run label next, True →
      (run.InOrder ∧ run.queue.forceOrder = forceOrder) → step run label = .ok next →
      next.InOrder ∧ next.queue.forceOrder = forceOrder := by
    rintro run label next - ⟨h, hforce⟩ hstep
    obtain ⟨hnext, hsame⟩ := h.step hstep
    exact ⟨hnext, hsame.trans hforce⟩
  obtain ⟨h, hforce⟩ := Transition.run_invariant (fun _ => True) hpreserved (fun _ _ => trivial)
    hrun ⟨inOrder_new forceOrder disableSanityCheck, rfl⟩
  refine ⟨fun hfalse => h.byTick (hforce.trans hfalse), ?_, h.conserved, h.numbered⟩
  intro htrue
  apply (h.byAddr (hforce.trans htrue)).imp
  intro first second hcalls haddr hsecure
  apply hcalls
  simp [PacketQueue.DeferredPacket.sameAddr, Packet.matchAddr, haddr, hsecure]

/-- A read of four bytes. -/
def readPacket (addr : Addr) : Packet :=
  Packet.ofRequest 0 (Request.physical addr 4 0 0) .readReq

/-- The second packet to an address is due before the first one; another one
overtakes both, and its send is refused once. -/
def overtakingCalls : List Label :=
  [.schedSendTiming (readPacket 0x40) 9, .schedSendTiming (readPacket 0x40) 5,
    .schedSendTiming (readPacket 0x80) 1, .processSendEvent false, .retry true,
    .processSendEvent true]

theorem deferred_packets_keep_order_overtaking :
    ∃ final, Transition.run step (new true false) overtakingCalls = .ok final ∧
      final.sent.map PacketQueue.DeferredPacket.call = [2, 0] ∧
      (final.sent ++ final.queue.transmitList).Perm final.scheduled := by
  obtain ⟨final, hrun, hseen⟩ := exists_ok_of_observed
    (show (Transition.run step (new true false) overtakingCalls).toOption.map
      (fun final => final.sent.map PacketQueue.DeferredPacket.call) = some [2, 0] by decide +kernel)
  exact ⟨final, hrun, hseen, (deferred_packets_keep_order hrun).2.2.1⟩

end PacketQueueRun

end KuiperCache
