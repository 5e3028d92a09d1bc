import KuiperCache.Library.Transition
import KuiperCache.Mshr.Waiting

/-! The life of one MSHR: it is allocated, coalesces targets, is sent and
answered any number of times, and is freed when nothing waits.  Targets leave it
in the order in which they arrived. -/
namespace KuiperCache.ServiceOrder

open Checked Mshr

structure Lifetime where
  mshr : Mshr
  allocated : Bool
  arrived : List Target
  extracted : List Target
deriving DecidableEq

inductive Event where
  | allocate (blkAddr : Addr) (blkSize : Nat) (pkt : Packet) (whenReady : Tick) (order : Nat)
      (allocOnFill : Bool)
  | allocateTarget (pkt : Packet) (whenReady : Tick) (order : Nat) (allocOnFill : Bool)
  | setForward (isForward : Bool)
  | setDownstreamPending (pending : Bool)
  | markInService (pendingModified : Bool)
  | response (readable writable : Bool) (resp : MemCmd) (now : Tick)

/-- The part of `recvTimingResp` that works on the MSHR: promotions, extraction,
then back to pending or free. -/
def respond (mshr : Mshr) (readable writable : Bool) (resp : MemCmd) (now : Tick) :
    Except Assertion (List Target × Bool × Mshr) := do
  let mshr ← (if readable then mshr.promoteReadable else .ok mshr)
  let mshr ← (if writable then mshr.promoteWritable else .ok mshr)
  let (ready, mshr) ← mshr.extractServiceableTargets resp
  let (promoted, mshr) ← mshr.promoteDeferredTargets now
  if promoted then do
    check mshr.inService .notInService
    pure (ready.list, true, { mshr with inService := false })
  else do
    let mshr ← mshr.deallocate
    pure (ready.list, false, mshr)

def step (life : Lifetime) : Event → Except Assertion Lifetime
  | .allocate blkAddr blkSize pkt whenReady order allocOnFill => do
      check (!life.allocated) .mshrUnexpected
      check (life.mshr.getNumTargets == 0) .entryStillHoldsTargets
      let mshr ← life.mshr.allocate blkAddr blkSize pkt whenReady order allocOnFill
      pure { life with
        mshr
        allocated := true
        arrived := life.arrived ++ [(firstTarget pkt whenReady order allocOnFill).unmarked] }
  | .allocateTarget pkt whenReady order allocOnFill => do
      check life.allocated .mshrExpected
      let mshr ← life.mshr.allocateTarget pkt whenReady order allocOnFill
      pure { life with
        mshr, arrived := life.arrived ++ [coalescedTarget pkt whenReady order allocOnFill] }
  | .setForward isForward => do
      check life.allocated .mshrExpected
      pure { life with mshr := { life.mshr with isForward } }
  | .setDownstreamPending pending => do
      check life.allocated .mshrExpected
      pure { life with mshr := { life.mshr with downstreamPending := pending } }
  | .markInService pendingModified => do
      check life.allocated .mshrExpected
      let mshr ← life.mshr.markInService pendingModified
      pure { life with mshr }
  | .response readable writable resp now => do
      check life.allocated .mshrExpected
      let (ready, allocated, mshr) ← respond life.mshr readable writable resp now
      pure { life with mshr, allocated, extracted := life.extracted ++ ready }

def initial : Lifetime := { mshr := .empty, allocated := false, arrived := [], extracted := [] }

/-- The packet an event adds is not half of a locked read-modify-write. -/
def Event.unlocked : Event → Bool
  | .allocate _ _ pkt _ _ _ => !pkt.cmd.isLockedRMW
  | .allocateTarget pkt _ _ _ => !pkt.cmd.isLockedRMW
  | _ => true

/-- What is waiting: only the head of the line may come from the prefetcher. -/
structure Queued (mshr : Mshr) : Prop where
  postInvalidate : mshr.postInvalidate = false
  sources : ∀ target ∈ mshr.waiting.tail, target.source = .fromCPU
  unlocked : ∀ target ∈ mshr.waiting, target.pkt.cmd ≠ .lockedRMWReadReq

structure Ordered (life : Lifetime) : Prop where
  conserved : life.extracted.map Target.unmarked ++ life.mshr.waiting = life.arrived
  nonempty : life.allocated = true → life.mshr.targets.list ≠ []
  free : life.allocated = false → life.mshr.waiting = []
  queued : Queued life.mshr

theorem Queued.rearranged {mshr mshr' : Mshr} (hqueued : Queued mshr)
    (h : Rearranged mshr mshr') : Queued mshr' :=
  ⟨h.postInvalidate.trans hqueued.postInvalidate, h.waiting ▸ hqueued.sources,
    h.waiting ▸ hqueued.unlocked⟩

theorem Queued.targets_sources {mshr : Mshr} (hqueued : Queued mshr) :
    ∀ target ∈ mshr.targets.list.tail, target.source = .fromCPU := by
  intro target htarget
  have htail : target.unmarked ∈ mshr.waiting.tail := by
    cases hlist : mshr.targets.list with
    | nil => simp [hlist] at htarget
    | cons first rest =>
        rw [hlist, List.tail_cons] at htarget
        simp only [waiting, hlist, List.cons_append, List.map_cons, List.tail_cons]
        exact List.mem_map_of_mem (List.mem_append_left _ htarget)
  exact hqueued.sources target.unmarked htail

theorem Queued.targets_unlocked {mshr : Mshr} (hqueued : Queued mshr) :
    ∀ target ∈ mshr.targets.list, target.pkt.cmd ≠ .lockedRMWReadReq := by
  intro target htarget
  exact hqueued.unlocked target.unmarked
    (List.mem_map_of_mem (List.mem_append_left _ htarget))

theorem not_lockedRMWReadReq {cmd : MemCmd} (h : (!cmd.isLockedRMW) = true) :
    cmd ≠ .lockedRMWReadReq := by
  rintro rfl
  cases h

/-- A target of its own may come from anywhere. -/
theorem queued_singleton {mshr : Mshr} {target : Target} (hpost : mshr.postInvalidate = false)
    (hwaiting : mshr.waiting = [target]) (hunlocked : target.pkt.cmd ≠ .lockedRMWReadReq) :
    Queued mshr := by
  refine ⟨hpost, by simp [hwaiting], ?_⟩
  rw [hwaiting]
  simp only [List.mem_singleton, forall_eq]
  exact hunlocked

/-- A target of the processor joins the end of the line. -/
theorem Queued.snoc {mshr mshr' : Mshr} {target : Target} (hqueued : Queued mshr)
    (hpost : mshr'.postInvalidate = mshr.postInvalidate)
    (hwaiting : mshr'.waiting = mshr.waiting ++ [target]) (hsource : target.source = .fromCPU)
    (hunlocked : target.pkt.cmd ≠ .lockedRMWReadReq) : Queued mshr' := by
  refine ⟨hpost.trans hqueued.postInvalidate, ?_, ?_⟩
  · rw [hwaiting]
    exact forall_tail_snoc hqueued.sources hsource
  · intro other hother
    rw [hwaiting, List.mem_append, List.mem_singleton] at hother
    obtain hold | rfl := hother
    · exact hqueued.unlocked other hold
    · exact hunlocked

/-- Serving a prefix of the line leaves a queue again. -/
theorem Queued.suffix {mshr mshr' : Mshr} {served : List Target} (hqueued : Queued mshr)
    (hwaiting : served ++ mshr'.waiting = mshr.waiting)
    (hpost : mshr'.postInvalidate = mshr.postInvalidate) : Queued mshr' := by
  refine ⟨hpost.trans hqueued.postInvalidate, ?_, ?_⟩
  · exact forall_tail_suffix (hwaiting ▸ hqueued.sources)
  · intro target htarget
    exact hqueued.unlocked target (hwaiting ▸ List.mem_append_right _ htarget)

/-- A response serves a prefix of the line and keeps the rest in order. -/
theorem respond_spec {mshr mshr' : Mshr} {readable writable allocated : Bool} {resp : MemCmd}
    {now : Tick} {ready : List Target} (hqueued : Queued mshr)
    (h : respond mshr readable writable resp now = .ok (ready, allocated, mshr')) :
    ready.map Target.unmarked ++ mshr'.waiting = mshr.waiting ∧ Queued mshr' ∧
      (allocated = true → mshr'.targets.list ≠ []) ∧
      (allocated = false → mshr'.waiting = []) := by
  simp only [respond, bind_eq_ok] at h
  obtain ⟨afterReadable, hreadable, afterWritable, hwritable, ⟨readyTargets, left⟩, hextract,
    ⟨promoted, next⟩, hpromote, h⟩ := h
  have hrearranged : Rearranged mshr afterReadable := by
    split at hreadable
    · exact (promoteReadable_rearranged hreadable).1
    · cases hreadable
      exact Rearranged.refl mshr
  have hqueuedReadable := hqueued.rearranged hrearranged
  have hrearranged' : Rearranged afterReadable afterWritable := by
    split at hwritable
    · exact (promoteWritable_rearranged hwritable).1
    · cases hwritable
      exact Rearranged.refl afterReadable
  have hqueuedWritable := hqueuedReadable.rearranged hrearranged'
  obtain ⟨hserved, -, -, hpost⟩ := extractServiceableTargets_waiting
    hqueuedWritable.targets_sources hqueuedWritable.targets_unlocked hextract
  have hqueuedLeft := hqueuedWritable.suffix hserved hpost
  obtain ⟨hpromoted, hcase⟩ := promoteDeferredTargets_cases hpromote
  have hqueuedNext := hqueuedLeft.rearranged hpromoted
  rw [hrearranged'.waiting, hrearranged.waiting, ← hpromoted.waiting] at hserved
  cases promoted with
  | true =>
      simp only [↓reduceIte, bind_eq_ok, check_eq_ok, exists_const, pure_eq_ok,
        Prod.mk.injEq] at h hcase
      obtain ⟨-, rfl, rfl, rfl⟩ := h
      exact ⟨hserved, ⟨hqueuedNext.postInvalidate, hqueuedNext.sources, hqueuedNext.unlocked⟩,
        fun _ => hcase, by simp⟩
  | false =>
      simp only [Bool.false_eq_true, ↓reduceIte, bind_eq_ok, pure_eq_ok, Prod.mk.injEq] at h hcase
      obtain ⟨freed, hfreed, rfl, rfl, rfl⟩ := h
      obtain ⟨-, rfl⟩ := deallocate_eq_ok hfreed
      obtain ⟨rfl, hempty⟩ := hcase
      exact ⟨hserved, ⟨hqueuedNext.postInvalidate, hqueuedNext.sources, hqueuedNext.unlocked⟩,
        by simp, fun _ => hempty⟩

theorem step_ordered (life : Lifetime) (event : Event) (next : Lifetime)
    (hunlocked : event.unlocked = true) (hordered : Ordered life)
    (h : step life event = .ok next) : Ordered next := by
  obtain ⟨hconserved, hnonempty, hfree, hqueued⟩ := hordered
  cases event with
  | allocate blkAddr blkSize pkt whenReady order onFill =>
      simp only [step, bind_eq_ok, check_eq_ok, exists_const, pure_eq_ok,
        Bool.not_eq_true'] at h
      obtain ⟨hidle, -, mshr, halloc, rfl⟩ := h
      have hempty := hfree hidle
      have hspec := allocate_spec halloc
      obtain ⟨htargets, -, hwaiting⟩ := hspec.lists hempty
      refine ⟨?_, fun _ => by simp [htargets], by simp, ?_⟩
      · rw [hwaiting, ← hconserved, hempty, List.append_nil]
      · exact queued_singleton (hspec.postInvalidate.trans hqueued.postInvalidate) hwaiting
          (not_lockedRMWReadReq hunlocked)
  | allocateTarget pkt whenReady order onFill =>
      simp only [step, bind_eq_ok, check_eq_ok, exists_const, pure_eq_ok] at h
      obtain ⟨hbusy, mshr, halloc, rfl⟩ := h
      obtain ⟨hwaiting, hkept, htargets⟩ :=
        allocateTarget_waiting (by simp [hqueued.postInvalidate]) halloc
      refine ⟨?_, fun _ => htargets, by simp [hbusy], ?_⟩
      · rw [hwaiting, ← hconserved, List.append_assoc]
      · exact hqueued.snoc hkept.postInvalidate hwaiting rfl (not_lockedRMWReadReq hunlocked)
  | setForward isForward =>
      simp only [step, bind_eq_ok, check_eq_ok, exists_const, pure_eq_ok] at h
      obtain ⟨-, rfl⟩ := h
      exact ⟨hconserved, hnonempty, hfree, hqueued.postInvalidate, hqueued.sources,
        hqueued.unlocked⟩
  | setDownstreamPending pending =>
      simp only [step, bind_eq_ok, check_eq_ok, exists_const, pure_eq_ok] at h
      obtain ⟨-, rfl⟩ := h
      exact ⟨hconserved, hnonempty, hfree, hqueued.postInvalidate, hqueued.sources,
        hqueued.unlocked⟩
  | markInService pendingModified =>
      simp only [step, bind_eq_ok, check_eq_ok, exists_const, pure_eq_ok] at h
      obtain ⟨hbusy, mshr, hmark, rfl⟩ := h
      have hspec := markInService_spec hmark
      have hwaiting := hspec.waiting
      exact ⟨hwaiting ▸ hconserved, fun _ => hspec.held (hnonempty hbusy), by simp [hbusy],
        hspec.postInvalidate, hwaiting ▸ hqueued.sources, hwaiting ▸ hqueued.unlocked⟩
  | response readable writable resp now =>
      simp only [step, bind_eq_ok, check_eq_ok, exists_const, pure_eq_ok] at h
      obtain ⟨-, ⟨ready, allocated, mshr⟩, hrespond, rfl⟩ := h
      obtain ⟨hserved, hqueued', hbusy', hfree'⟩ := respond_spec hqueued hrespond
      refine ⟨?_, hbusy', hfree', hqueued'⟩
      rw [List.map_append, List.append_assoc, hserved, hconserved]

theorem initial_ordered : Ordered initial :=
  ⟨rfl, by simp [initial], fun _ => rfl, rfl,
    by simp [initial, waiting, Mshr.empty, TargetList.empty],
    by simp [initial, waiting, Mshr.empty, TargetList.empty]⟩

/-- In every state of every life of an MSHR, the targets extracted so far
followed by those that still wait are the targets that arrived, in arrival
order, and an allocated MSHR always has a target to match addresses with. -/
theorem targets_served_in_arrival_order {events : List Event} {final : Lifetime}
    (hunlocked : ∀ event ∈ events, event.unlocked = true)
    (hrun : Transition.run step initial events = .ok final) :
    (final.extracted ++ final.mshr.targets.list ++ final.mshr.deferredTargets.list).map
        Target.unmarked = final.arrived ∧
      (final.allocated = true → final.mshr.targets.list ≠ []) := by
  obtain ⟨hconserved, hnonempty, -, -⟩ :=
    Transition.run_invariant (fun event => event.unlocked = true) step_ordered hunlocked hrun
      initial_ordered
  refine ⟨?_, hnonempty⟩
  rw [← hconserved, waiting, List.append_assoc, List.map_append]

/-- A read is sent and a write and a read are deferred behind it.  The response
only serves the first read, the promoted rest is sent again and served. -/
def deferredWrite : List Event :=
  let packet ptr cmd := Packet.ofRequest ptr (Request.physical 0x40 4 0 0) cmd
  [.allocate 0x40 4 (packet 0 .readReq) 0 0 true, .markInService false,
    .allocateTarget (packet 1 .writeReq) 0 1 true, .allocateTarget (packet 2 .readReq) 0 2 true,
    .response false false .readRespWithInvalidate 0, .markInService true,
    .response false true .readResp 0]

theorem targets_served_in_arrival_order_deferredWrite :
    ∃ final, Transition.run step initial deferredWrite = .ok final ∧
      final.extracted.map (fun target => target.pkt.ptr) = [0, 1, 2] ∧
      (final.extracted ++ final.mshr.targets.list ++ final.mshr.deferredTargets.list).map
        Target.unmarked = final.arrived := by
  obtain ⟨final, hrun, hserved⟩ := exists_ok_of_observed
    (show ((Transition.run step initial deferredWrite).toOption.map fun final =>
      final.extracted.map fun target => target.pkt.ptr) = some [0, 1, 2] by decide +kernel)
  exact ⟨final, hrun, hserved, (targets_served_in_arrival_order (by decide) hrun).1⟩

end KuiperCache.ServiceOrder
