import KuiperCache.Library.BoundedFifo
import KuiperCache.Prefetch.Distinct

/-! The tagged prefetcher asks for the next blocks, all with one priority.  Its queue
is a queue then: none of the places where priorities decide disturbs the order. -/
namespace KuiperCache

open Checked

namespace Queued

variable {queue next : List DeferredPacket} {dpp : DeferredPacket} {queueSize : Nat}

/-- All entries have the priority the tagged prefetcher gives. -/
def Flat (queue : List DeferredPacket) : Prop := ∀ entry ∈ queue, entry.priority = 0

theorem Flat.sublist (h : Flat queue) (hsub : next.Sublist queue) : Flat next :=
  fun entry hentry => h entry (hsub.subset hentry)

/-- Among equals the search for the victim goes on to the head. -/
theorem removeLowest_flat {it : DeferredPacket} {before after : List DeferredPacket}
    (hit : it.priority = 0) (hbefore : Flat before) :
    removeLowest it before after = (before.reverse ++ it :: after).tail := by
  induction before generalizing it after with
  | nil => rfl
  | cons prev before ih =>
      have hprev := hbefore prev List.mem_cons_self
      rw [removeLowest, hprev, hit, beq_self_eq_true, if_pos rfl,
        ih hprev fun entry hentry => hbefore entry (List.mem_cons_of_mem prev hentry),
        List.reverse_cons, List.append_assoc, List.singleton_append]

theorem makeRoom_flat (hpos : 1 ≤ queueSize) (h : Flat queue) :
    makeRoom queueSize queue =
      .ok (if queue.length = queueSize then queue.tail else queue) := by
  rw [makeRoom]
  by_cases hfull : queue.length = queueSize
  · rw [if_pos (beq_iff_eq.mpr hfull), if_pos hfull, removeFull]
    cases hreverse : queue.reverse with
    | nil =>
        rw [List.reverse_eq_nil_iff] at hreverse
        subst hreverse
        rw [List.length_nil] at hfull
        omega
    | cons last before =>
        have hmem : ∀ entry ∈ last :: before, entry.priority = 0 := by
          intro entry hentry
          rw [← hreverse, List.mem_reverse] at hentry
          exact h entry hentry
        simp only [removeLowest_flat (hmem last List.mem_cons_self) fun entry hentry =>
          hmem entry (List.mem_cons_of_mem last hentry)]
        rw [← List.reverse_cons, ← hreverse, List.reverse_reverse]
  · rw [if_neg (by simpa using hfull), if_neg hfull]

/-- A new entry of the common priority goes behind the last one. -/
theorem insertEntry_flat (h : Flat queue) (hdpp : dpp.priority = 0) :
    insertEntry queue dpp = queue ++ [dpp] := by
  rw [insertEntry]
  cases hlast : queue.getLast? with
  | none =>
      rw [List.getLast?_eq_none_iff] at hlast
      rw [hlast]
      rfl
  | some back =>
      have hback := h back (List.mem_of_getLast? hlast)
      simp only [hback, hdpp, le_refl, ↓reduceIte]

theorem addToQueue_flat (hpos : 1 ≤ queueSize) (h : Flat queue) (hdpp : dpp.priority = 0) :
    addToQueue queueSize queue dpp = .ok (BoundedFifo.push queueSize queue dpp) := by
  have hkept : Flat (if queue.length = queueSize then queue.tail else queue) := by
    split
    · exact h.sublist (List.tail_sublist queue)
    · exact h
  rw [addToQueue, makeRoom_flat hpos h, ok_bind, insertEntry_flat hkept hdpp]
  rfl

/-- Nothing has less than the common priority, so nothing is raised. -/
theorem alreadyInQueue_flat (h : Flat queue) (pfi : PrefetchInfo) :
    (alreadyInQueue queue pfi 0).2 = queue := by
  obtain hnone | ⟨front, entry, back, rfl, hentry, hfront⟩ := exists_match queue pfi
  · rw [alreadyInQueue, searchQueue_none hnone]
  · rw [alreadyInQueue, searchQueue_match hfront hentry]
    cases back with
    | nil => rfl
    | cons behind back =>
        have hbehind := h behind (by simp)
        simp only [hbehind, lt_irrefl, ↓reduceIte]

end Queued

namespace Tagged

/-- The candidates: the blocks behind that of the access.  The distance is a 32-bit
product, and `d` is an int that is incremented once more after the last round. -/
def calculatePrefetch (params : PrefetchParams) (degree : Int) (pfi : TriggerInfo) :
    Except Assertion (List AddrPriority) := do
  check (degree < 2 ^ 31 - 1) .undefinedBehaviour
  let blkAddr := params.blockAddress pfi.address
  pure ((List.range degree.toNat).map fun round =>
    (blkAddr + BitVec.ofNat 64 ((round + 1) * params.blkSize % 2 ^ 32), 0))

end Tagged

namespace Prefetcher

def notifyTagged (state : Prefetcher) (params : PrefetchParams) (degree : Int)
    (acc : CacheAccessProbeArg) (pfi : TriggerInfo) : Except Assertion Prefetcher := do
  let addresses ← Tagged.calculatePrefetch params degree pfi
  state.notify params acc pfi addresses

variable {params : PrefetchParams} {acc : CacheAccessProbeArg} {pfi newPfi : TriggerInfo}
  {state next last : Prefetcher}

/-- What holds of the queues of a tagged prefetcher. -/
structure Uniform (params : PrefetchParams) (state : Prefetcher) : Prop where
  queueSize : state.queueSize = params.queueSize
  pfq : Queued.Flat state.pfq
  missing : Queued.Flat state.pfqMissingTranslation
  packets : ∀ entry ∈ state.pfq, entry.pkt.isSome = true

/-- The queue was given the entries that the record has in addition. -/
def Extends (size : Nat) (state next : Prefetcher) : Prop :=
  ∃ more, next.added = state.added ++ more ∧
    next.pfq = BoundedFifo.pushAll size state.pfq more

theorem Extends.refl (size : Nat) (state : Prefetcher) : Extends size state state :=
  ⟨[], (List.append_nil _).symm, rfl⟩

theorem Extends.trans {size : Nat} (h : Extends size state next) (h' : Extends size next last) :
    Extends size state last := by
  obtain ⟨more, hadded, hpfq⟩ := h
  obtain ⟨more', hadded', hpfq'⟩ := h'
  refine ⟨more ++ more', ?_, ?_⟩
  · rw [hadded', hadded, List.append_assoc]
  · rw [hpfq', hpfq, BoundedFifo.pushAll_append]

theorem Uniform.enqueue {pfInfo : PrefetchInfo} {paddr : Addr} (h : state.Uniform params)
    (hpos : 1 ≤ params.queueSize) (henqueue : state.enqueue params pfInfo 0 paddr = .ok next) :
    next.Uniform params ∧ Extends params.queueSize state next := by
  rw [← h.queueSize] at hpos
  simp only [Prefetcher.enqueue, Queued.addToQueue_flat hpos h.pfq, ok_bind, pure_eq_ok] at henqueue
  subst henqueue
  rw [← h.queueSize]
  refine ⟨⟨h.queueSize, ?_, h.missing, ?_⟩, _, rfl, rfl⟩
  · intro entry hentry
    have hmem := (BoundedFifo.push_sublist _ _ _).subset hentry
    rw [List.mem_append, List.mem_singleton] at hmem
    obtain hmem | rfl := hmem
    · exact h.pfq entry hmem
    · rfl
  · intro entry hentry
    have hmem := (BoundedFifo.push_sublist _ _ _).subset hentry
    rw [List.mem_append, List.mem_singleton] at hmem
    obtain hmem | rfl := hmem
    · exact h.packets entry hmem
    · rfl

theorem Uniform.enqueueMissing {pfInfo : PrefetchInfo} (h : state.Uniform params)
    (henqueue : state.enqueueMissing pfInfo 0 = .ok next) :
    next.Uniform params ∧ Extends params.queueSize state next := by
  simp only [Prefetcher.enqueueMissing, bind_eq_ok, pure_eq_ok] at henqueue
  obtain ⟨missing, hadd, rfl⟩ := henqueue
  obtain ⟨kept, hkept, hperm, -⟩ := Queued.addToQueue_kept hadd
  refine ⟨⟨h.queueSize, h.pfq, ?_, h.packets⟩, [], (List.append_nil _).symm, rfl⟩
  intro entry hentry
  obtain rfl | hmem := List.mem_cons.mp (hperm.mem_iff.mp hentry)
  · rfl
  · exact h.missing entry (hkept.subset hmem)

theorem Uniform.insert (h : state.Uniform params) (hpos : 1 ≤ params.queueSize)
    (hinsert : state.insert params acc newPfi 0 = .ok next) :
    next.Uniform params ∧ Extends params.queueSize state next := by
  obtain rfl | rfl | ⟨-, hnew⟩ := insert_cases hinsert
  · rw [Queued.alreadyInQueue_flat h.pfq]
    exact ⟨h, Extends.refl _ state⟩
  · rw [Queued.alreadyInQueue_flat h.missing]
    exact ⟨h, Extends.refl _ state⟩
  · obtain rfl | ⟨paddr, -, henqueue⟩ | ⟨request, -, henqueue⟩ := insertNew_cases hnew
    · exact ⟨h, Extends.refl _ next⟩
    · exact h.enqueue hpos henqueue
    · exact h.enqueueMissing henqueue

/-- The queue after the squashing of a demanded block. -/
def unsquashed (params : PrefetchParams) (pfi : TriggerInfo) (queue : List DeferredPacket) :
    List DeferredPacket :=
  if params.queueSquash then queue.filter fun entry =>
    !(entry.pfInfo.address == params.blockAddress pfi.address && entry.pfInfo.secure == pfi.secure)
  else queue

/-- A notification squashes the demanded block, and puts new entries into the bounded
queue one by one. -/
def Notified (params : PrefetchParams) (pfi : TriggerInfo) (state next : Prefetcher) : Prop :=
  ∃ more, next.added = state.added ++ more ∧
    next.pfq = BoundedFifo.pushAll params.queueSize (unsquashed params pfi state.pfq) more

theorem demanded_pfq (state : Prefetcher) (params : PrefetchParams) (pfi : TriggerInfo) :
    state.demanded params pfi = { state with pfq := unsquashed params pfi state.pfq } := by
  unfold demanded unsquashed
  split
  · rw [squash_eq_filter]
  · rfl

theorem unsquashed_sublist (params : PrefetchParams) (pfi : TriggerInfo)
    (queue : List DeferredPacket) : (unsquashed params pfi queue).Sublist queue := by
  unfold unsquashed
  split
  · exact List.filter_sublist
  · exact List.Sublist.refl queue

theorem Uniform.notifyTagged {degree : Int} (h : state.Uniform params)
    (hpos : 1 ≤ params.queueSize)
    (hnotify : state.notifyTagged params degree acc pfi = .ok next) :
    next.Uniform params ∧ Notified params pfi state next := by
  simp only [Prefetcher.notifyTagged, Tagged.calculatePrefetch, bind_eq_ok, check_eq_ok,
    exists_const, pure_eq_ok] at hnotify
  obtain ⟨addresses, ⟨-, rfl⟩, hnotify⟩ := hnotify
  rw [notify_eq, demanded_pfq] at hnotify
  have hsub := unsquashed_sublist params pfi state.pfq
  have hstart : { state with pfq := unsquashed params pfi state.pfq }.Uniform params :=
    ⟨h.queueSize, h.pfq.sublist hsub, h.missing, fun entry hentry =>
      h.packets entry (hsub.subset hentry)⟩
  have hinserted : ∀ candidate ∈ (List.range degree.toNat).map fun round =>
      (params.blockAddress pfi.address +
        BitVec.ofNat 64 ((round + 1) * params.blkSize % 2 ^ 32), (0 : Int)),
      ∀ before after : Prefetcher,
      params.samePage (params.blockAddress candidate.1) pfi.address = .ok true →
      before.Uniform params ∧ Extends params.queueSize
        { state with pfq := unsquashed params pfi state.pfq } before →
      before.insert params acc (pfi.forAddress (params.blockAddress candidate.1)) candidate.2 =
        .ok after →
      after.Uniform params ∧ Extends params.queueSize
        { state with pfq := unsquashed params pfi state.pfq } after := by
    rintro candidate hcandidate before after - ⟨hbefore, hextends⟩ hinsert
    obtain ⟨round, -, rfl⟩ := List.mem_map.mp hcandidate
    obtain ⟨hafter, hmore⟩ := hbefore.insert hpos hinsert
    exact ⟨hafter, hextends.trans hmore⟩
  exact queueCandidates_invariant hinserted hnotify ⟨hstart, Extends.refl _ _⟩

/-- The first entry can be taken, and only then is there one. -/
theorem Uniform.getPacket (h : state.Uniform params) :
    ∃ popped, state.getPacket = .ok (state.pfq.head?.bind DeferredPacket.pkt, popped) ∧
      (state.pfq.head?.bind DeferredPacket.pkt = none ↔ state.pfq = []) ∧
      popped.pfq = state.pfq.tail ∧ popped.added = state.added ∧ popped.Uniform params := by
  cases hpfq : state.pfq with
  | nil =>
      refine ⟨state, ?_, iff_of_true rfl rfl, hpfq, rfl, h⟩
      simp only [Prefetcher.getPacket, Queued.getPacket, Queued.processMissingTranslations,
        ite_self, hpfq]
      rfl
  | cons front rest =>
      have hfront := h.packets front (by simp [hpfq])
      obtain ⟨pkt, hpkt⟩ := Option.isSome_iff_exists.mp hfront
      have hrest : rest.Sublist state.pfq := hpfq ▸ List.sublist_cons_self front rest
      refine ⟨{ state with pfq := rest, issuedPrefetches := state.issuedPrefetches + 1 }, ?_,
        by simp [hpkt], rfl, rfl, ⟨h.queueSize, h.pfq.sublist hrest, h.missing, fun entry hentry =>
          h.packets entry (hrest.subset hentry)⟩⟩
      simp only [Prefetcher.getPacket, Queued.getPacket, Queued.processMissingTranslations,
        ite_self, hpfq, hpkt, Option.isSome_some, check_true, ok_bind, List.head?_cons,
        Option.bind_some]
      rfl

end Prefetcher

/-- What happens to a tagged prefetcher. -/
inductive TaggedCall where
  | notify (acc : CacheAccessProbeArg) (pfi : TriggerInfo)
  | probeNotify (acc : CacheAccessProbeArg) (miss : Bool)
  | getPacket

namespace Prefetcher

variable {params : PrefetchParams} {degree : Int} {state next : Prefetcher}

def stepTagged (params : PrefetchParams) (degree : Int) (state : Prefetcher) :
    TaggedCall → Except Assertion Prefetcher
  | .notify acc pfi => state.notifyTagged params degree acc pfi
  | .probeNotify acc miss =>
      state.probeNotify params (Tagged.calculatePrefetch params degree) acc miss
  | .getPacket => do
      let (_, next) ← state.getPacket
      pure next

/-- What a bounded queue that drops its oldest entry does at each call. -/
def IsFifoStep (params : PrefetchParams) (state : Prefetcher) (call : TaggedCall)
    (next : Prefetcher) : Prop :=
  match call with
  | .notify _ pfi => Notified params pfi state next
  | .probeNotify acc miss =>
      (next.pfq = state.pfq ∧ next.added = state.added) ∨
        ∃ address pfi, TriggerInfo.ofPacket acc address miss = .ok pfi ∧
          Notified params pfi state next
  | .getPacket =>
      state.getPacket = .ok (state.pfq.head?.bind DeferredPacket.pkt, next) ∧
        (state.pfq.head?.bind DeferredPacket.pkt = none ↔ state.pfq = []) ∧
        next.pfq = state.pfq.tail ∧ next.added = state.added

theorem Uniform.stepTagged {call : TaggedCall} (h : state.Uniform params)
    (hpos : 1 ≤ params.queueSize) (hstep : state.stepTagged params degree call = .ok next) :
    next.Uniform params ∧ IsFifoStep params state call next := by
  cases call with
  | notify acc pfi => exact h.notifyTagged hpos hstep
  | probeNotify acc miss =>
      obtain ⟨useful, rfl | ⟨address, pfi, addresses, hpfi, hcalculate, hnotify⟩⟩ :=
        probeNotify_cases hstep
      · exact ⟨⟨h.queueSize, h.pfq, h.missing, h.packets⟩, .inl ⟨rfl, rfl⟩⟩
      · have hcounted : { state with usefulPrefetches := useful }.Uniform params :=
          ⟨h.queueSize, h.pfq, h.missing, h.packets⟩
        have hnotified : { state with usefulPrefetches := useful }.notifyTagged params degree acc
            pfi = .ok next := by
          rw [Prefetcher.notifyTagged, hcalculate]
          exact hnotify
        obtain ⟨hnext, hfifo⟩ := hcounted.notifyTagged hpos hnotified
        exact ⟨hnext, .inr ⟨address, pfi, hpfi, hfifo⟩⟩
  | getPacket =>
      obtain ⟨popped, hget, hnone, hpfq, hadded, hpopped⟩ := h.getPacket
      simp only [Prefetcher.stepTagged, hget, ok_bind, pure_eq_ok] at hstep
      subst hstep
      exact ⟨hpopped, hget, hnone, hpfq, hadded⟩

theorem uniform_new (params : PrefetchParams) : (new params).Uniform params :=
  ⟨rfl, by simp [Queued.Flat, new], by simp [Queued.Flat, new], by simp [new]⟩

/-- A step keeps the queue a part of the record, in order, and within its size. -/
theorem IsFifoStep.bounded {call : TaggedCall} (h : IsFifoStep params state call next)
    (hpos : 1 ≤ params.queueSize)
    (hstate : state.pfq.Sublist state.added ∧ state.pfq.length ≤ params.queueSize) :
    next.pfq.Sublist next.added ∧ next.pfq.length ≤ params.queueSize := by
  have hnotified : ∀ pfi, Notified params pfi state next →
      next.pfq.Sublist next.added ∧ next.pfq.length ≤ params.queueSize := by
    rintro pfi ⟨more, hadded, hpfq⟩
    have hsub := unsquashed_sublist params pfi state.pfq
    rw [hadded, hpfq]
    exact ⟨(BoundedFifo.pushAll_sublist _ _ _).trans ((hsub.trans hstate.1).append_right more),
      BoundedFifo.pushAll_length_le hpos (hsub.length_le.trans hstate.2) more⟩
  cases call with
  | notify acc pfi => exact hnotified pfi h
  | probeNotify acc miss =>
      obtain ⟨hpfq, hadded⟩ | ⟨address, pfi, -, hfifo⟩ := h
      · rw [hpfq, hadded]
        exact hstate
      · exact hnotified _ hfifo
  | getPacket =>
      obtain ⟨-, -, hpfq, hadded⟩ := h
      rw [hpfq, hadded]
      exact ⟨(List.tail_sublist _).trans hstate.1,
        (List.tail_sublist _).length_le.trans hstate.2⟩

/-- In every run the queue lists what is left of the queued prefetches in the order in
which they came, within its size, and every call does to it what it does to a bounded
queue that drops its oldest entry; an entry that is first can be taken. -/
theorem tagged_queue_drops_the_oldest {calls : List TaggedCall} {final : Prefetcher}
    (hpos : 1 ≤ params.queueSize)
    (hrun : Transition.run (stepTagged params degree) (new params) calls = .ok final) :
    final.pfq.Sublist final.added ∧ final.pfq.length ≤ params.queueSize ∧
    Transition.stepwise (stepTagged params degree) (IsFifoStep params) (new params) calls ∧
    ∃ popped, final.getPacket = .ok (final.pfq.head?.bind DeferredPacket.pkt, popped) := by
  have hpreserved : ∀ state call next, True → Uniform params state →
      stepTagged params degree state call = .ok next →
      Uniform params next ∧ IsFifoStep params state call next :=
    fun _ _ _ _ h hstep => h.stepTagged hpos hstep
  have hbounded : ∀ state call next, True →
      (Uniform params state ∧ state.pfq.Sublist state.added ∧
        state.pfq.length ≤ params.queueSize) →
      stepTagged params degree state call = .ok next →
      Uniform params next ∧ next.pfq.Sublist next.added ∧
        next.pfq.length ≤ params.queueSize := by
    rintro state call next - ⟨huniform, hstate⟩ hstep
    obtain ⟨hnext, hfifo⟩ := huniform.stepTagged hpos hstep
    exact ⟨hnext, hfifo.bounded hpos hstate⟩
  obtain ⟨huniform, hsub, hlength⟩ := Transition.run_invariant (fun _ => True) hbounded
    (fun _ _ => trivial) hrun ⟨uniform_new params, List.Sublist.refl _, Nat.zero_le _⟩
  obtain ⟨popped, hget, -⟩ := huniform.getPacket
  refine ⟨hsub, hlength, ?_, popped, hget⟩
  have hallowed : ∀ call ∈ calls, (fun _ : TaggedCall => True) call := fun _ _ => trivial
  exact Transition.stepwise_of_invariant hpreserved hallowed (uniform_new params)

/-- Two accesses that ask for two blocks each, a demand of the second of these blocks,
and an issue; the queue has two entries. -/
def demandedCalls : List TaggedCall :=
  let notify address := .notify (readAccess address address) (readTrigger address address)
  [notify 0x1000, notify 0x1200, notify 0x1240, .getPacket]

theorem tagged_queue_drops_the_oldest_demanded :
    ∃ final, Transition.run (stepTagged pagedParams 2) (new pagedParams) demandedCalls =
        .ok final ∧
      final.added.map (fun entry => entry.pfInfo.address) =
        [0x1040, 0x1080, 0x1240, 0x1280, 0x12c0] ∧
      final.pfq.map (fun entry => entry.pfInfo.address) = [0x12c0] ∧
      final.pfq.Sublist final.added := by
  obtain ⟨final, hrun, hseen⟩ := exists_ok_of_observed
    (show (Transition.run (stepTagged pagedParams 2) (new pagedParams) demandedCalls).toOption.map
      (fun final => (final.added.map fun entry => entry.pfInfo.address,
        final.pfq.map fun entry => entry.pfInfo.address)) =
      some ([0x1040, 0x1080, 0x1240, 0x1280, 0x12c0], [0x12c0]) by decide +kernel)
  rw [Prod.mk.injEq] at hseen
  exact ⟨final, hrun, hseen.1, hseen.2,
    (tagged_queue_drops_the_oldest (show 1 ≤ pagedParams.queueSize by decide) hrun).1⟩

end Prefetcher

end KuiperCache
