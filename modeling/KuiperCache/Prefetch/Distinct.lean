import KuiperCache.Prefetch.Notify
import KuiperCache.Prefetch.PriorityOrder

/-! With the filter on, no prefetch is queued twice.  The two queues are looked at
together: what leaves one of them for the other is in neither in between, and
raising a priority only changes the order. -/
namespace KuiperCache

open Checked

namespace Queued

variable {queue next : List DeferredPacket} {dpp : DeferredPacket} {queueSize : Nat}

/-- One entry is removed, and the others stay in order. -/
theorem removeLowest_erases (it : DeferredPacket) (before after : List DeferredPacket) :
    ∃ front victim rest, before.reverse ++ it :: after = front ++ victim :: rest ∧
      removeLowest it before after = front ++ rest := by
  induction before generalizing it after with
  | nil => exact ⟨[], it, after, rfl, rfl⟩
  | cons prev before ih =>
      rw [removeLowest]
      split
      · obtain ⟨front, victim, rest, hlist, hremoved⟩ := ih prev (it :: after)
        refine ⟨front, victim, rest, ?_, hremoved⟩
        rw [← hlist, List.reverse_cons, List.append_assoc]
        rfl
      · exact ⟨(prev :: before).reverse, it, after, rfl, rfl⟩

/-- What room is made by: nothing, or one entry of a full queue. -/
theorem makeRoom_eq_ok {kept : List DeferredPacket} (h : makeRoom queueSize queue = .ok kept) :
    (queue.length ≠ queueSize ∧ kept = queue) ∨
      (queue.length = queueSize ∧ ∃ front victim rest, queue = front ++ victim :: rest ∧
        kept = front ++ rest) := by
  rw [makeRoom] at h
  split at h
  · next hfull =>
      rw [removeFull] at h
      cases hreverse : queue.reverse with
      | nil =>
          rw [hreverse] at h
          cases h
      | cons last before =>
          rw [hreverse, Except.ok.injEq] at h
          obtain ⟨front, victim, rest, hlist, hremoved⟩ := removeLowest_erases last before []
          refine .inr ⟨beq_iff_eq.mp hfull, front, victim, rest, ?_, by rw [← h, hremoved]⟩
          rw [← hlist, ← List.reverse_cons, ← hreverse, List.reverse_reverse]
  · next hroom =>
      rw [Except.ok.injEq] at h
      exact .inl ⟨by simpa using hroom, h.symm⟩

/-- The new entry and some of the old ones, as many as the queue has room for. -/
theorem addToQueue_kept (h : addToQueue queueSize queue dpp = .ok next) :
    ∃ kept, kept.Sublist queue ∧ next.Perm (dpp :: kept) ∧
      (queue.length ≤ queueSize → next.length ≤ queueSize) := by
  simp only [addToQueue, bind_eq_ok, pure_eq_ok] at h
  obtain ⟨kept, hkept, rfl⟩ := h
  have hperm := insertEntry_perm kept dpp
  have hlength := hperm.length_eq
  rw [List.length_cons] at hlength
  obtain ⟨hroom, rfl⟩ | ⟨hfull, front, victim, rest, rfl, rfl⟩ := makeRoom_eq_ok hkept
  · exact ⟨kept, List.Sublist.refl kept, hperm, fun hle => by omega⟩
  · refine ⟨front ++ rest, (List.sublist_cons_self victim rest).append_left front, hperm, ?_⟩
    intro _
    simp only [List.length_append, List.length_cons] at hfull hlength
    omega

/-- Asking again changes the order and priorities, and nothing that does not depend on
them. -/
theorem alreadyInQueue_map {β : Type} {f : DeferredPacket → β}
    (hf : ∀ entry priority, f { entry with priority } = f entry) (queue : List DeferredPacket)
    (pfi : PrefetchInfo) (priority : Int) :
    ((alreadyInQueue queue pfi priority).2.map f).Perm (queue.map f) := by
  obtain hnone | ⟨front, entry, back, rfl, hentry, hfront⟩ := exists_match queue pfi
  · rw [alreadyInQueue, searchQueue_none hnone]
  · rw [alreadyInQueue, searchQueue_match hfront hentry]
    cases back with
    | nil => exact List.Perm.refl _
    | cons behind back =>
        simp only
        split
        · have hbubble := (bubble_perm { behind with priority } (front ++ [entry]).reverse []
            back).map f
          apply hbubble.trans
          simp only [List.reverse_reverse, List.nil_append, List.map_cons, List.map_append,
            List.append_assoc, List.cons_append, hf]
          apply List.perm_middle.symm.trans
          exact (List.Perm.swap _ _ _).append_left _
        · exact List.Perm.refl _

end Queued

namespace Prefetcher

variable {params : PrefetchParams} {acc : CacheAccessProbeArg} {pfi newPfi : TriggerInfo}
  {pfInfo : PrefetchInfo} {priority : Int} {paddr : Addr} {state next : Prefetcher} {size : Nat}

/-- The addresses of both queues. -/
def keys (state : Prefetcher) : List PrefetchInfo :=
  state.pfq.map DeferredPacket.pfInfo ++ state.pfqMissingTranslation.map DeferredPacket.pfInfo

/-- No address is queued twice, and both queues keep to the size. -/
structure Unrepeated (size : Nat) (state : Prefetcher) : Prop where
  queueSize : state.queueSize = size
  nodup : state.keys.Nodup
  pfq_le : state.pfq.length ≤ size
  missing_le : state.pfqMissingTranslation.length ≤ size

/-- Sublists of the queues are as good as the queues. -/
theorem Unrepeated.sublist (h : state.Unrepeated size)
    (hpfq : next.pfq.Sublist state.pfq)
    (hmissing : next.pfqMissingTranslation.Sublist state.pfqMissingTranslation)
    (hsize : next.queueSize = state.queueSize) : next.Unrepeated size := by
  refine ⟨hsize.trans h.queueSize, ?_, hpfq.length_le.trans h.pfq_le,
    hmissing.length_le.trans h.missing_le⟩
  exact h.nodup.sublist ((hpfq.map DeferredPacket.pfInfo).append
    (hmissing.map DeferredPacket.pfInfo))

/-- A permutation of the addresses of one queue changes nothing. -/
theorem Unrepeated.raised (h : state.Unrepeated size)
    (hpfq : (next.pfq.map DeferredPacket.pfInfo).Perm (state.pfq.map DeferredPacket.pfInfo))
    (hmissing : (next.pfqMissingTranslation.map DeferredPacket.pfInfo).Perm
      (state.pfqMissingTranslation.map DeferredPacket.pfInfo))
    (hsize : next.queueSize = state.queueSize) : next.Unrepeated size := by
  have hpfqLength := hpfq.length_eq
  have hmissingLength := hmissing.length_eq
  simp only [List.length_map] at hpfqLength hmissingLength
  refine ⟨hsize.trans h.queueSize, ?_, hpfqLength ▸ h.pfq_le, hmissingLength ▸ h.missing_le⟩
  exact (hpfq.append hmissing).nodup_iff.mpr h.nodup

theorem enqueue_pfq (h : state.enqueue params pfInfo priority paddr = .ok next) :
    ∃ dpp kept, dpp.pfInfo = pfInfo ∧ kept.Sublist state.pfq ∧ next.pfq.Perm (dpp :: kept) ∧
      (state.pfq.length ≤ state.queueSize → next.pfq.length ≤ state.queueSize) ∧
      next.pfqMissingTranslation = state.pfqMissingTranslation ∧
      next.queueSize = state.queueSize := by
  simp only [enqueue, bind_eq_ok, pure_eq_ok] at h
  obtain ⟨pfq, hadd, rfl⟩ := h
  obtain ⟨kept, hkept, hperm, hlength⟩ := Queued.addToQueue_kept hadd
  exact ⟨_, kept, rfl, hkept, hperm, hlength, rfl, rfl⟩

theorem Unrepeated.enqueue (h : state.Unrepeated size)
    (hfresh : pfInfo ∉ state.keys)
    (henqueue : state.enqueue params pfInfo priority paddr = .ok next) :
    next.Unrepeated size := by
  obtain ⟨dpp, kept, rfl, hkept, hperm, hlength, hmissing, hsize⟩ := enqueue_pfq henqueue
  rw [h.queueSize] at hlength
  refine ⟨hsize.trans h.queueSize, ?_, hlength h.pfq_le, hmissing ▸ h.missing_le⟩
  have hsub : (kept.map DeferredPacket.pfInfo ++
      state.pfqMissingTranslation.map DeferredPacket.pfInfo).Sublist state.keys :=
    (hkept.map DeferredPacket.pfInfo).append_right _
  rw [keys, hmissing, ((hperm.map DeferredPacket.pfInfo).append_right _).nodup_iff, List.map_cons,
    List.cons_append, List.nodup_cons]
  exact ⟨fun hmem => hfresh (hsub.subset hmem), h.nodup.sublist hsub⟩

theorem Unrepeated.enqueueMissing (h : state.Unrepeated size)
    (hfresh : pfInfo ∉ state.keys)
    (henqueue : state.enqueueMissing pfInfo priority = .ok next) :
    next.Unrepeated size := by
  simp only [Prefetcher.enqueueMissing, bind_eq_ok, pure_eq_ok] at henqueue
  obtain ⟨missing, hadd, rfl⟩ := henqueue
  obtain ⟨kept, hkept, hperm, hlength⟩ := Queued.addToQueue_kept hadd
  rw [h.queueSize] at hlength
  refine ⟨h.queueSize, ?_, h.pfq_le, hlength h.missing_le⟩
  have hsub : (state.pfq.map DeferredPacket.pfInfo ++ kept.map DeferredPacket.pfInfo).Sublist
      state.keys := (hkept.map DeferredPacket.pfInfo).append_left _
  rw [keys, ((hperm.map DeferredPacket.pfInfo).append_left _).nodup_iff, List.map_cons,
    List.nodup_middle, List.nodup_cons]
  exact ⟨fun hmem => hfresh (hsub.subset hmem), h.nodup.sublist hsub⟩

/-- What the filter lets through is in neither queue. -/
theorem not_mem_keys (h : ∀ entry ∈ state.pfq ++ state.pfqMissingTranslation,
    entry.pfInfo.sameAddr pfInfo = false) : pfInfo ∉ state.keys := by
  rw [keys, ← List.map_append, List.mem_map]
  rintro ⟨entry, hentry, rfl⟩
  have hself : entry.pfInfo.sameAddr entry.pfInfo = true := by simp [PrefetchInfo.sameAddr]
  rw [h entry hentry] at hself
  cases hself

theorem Unrepeated.insert (h : state.Unrepeated size)
    (hfilter : params.queueFilter = true)
    (hinsert : state.insert params acc newPfi priority = .ok next) :
    next.Unrepeated size := by
  obtain rfl | rfl | ⟨hfresh, hnew⟩ := insert_cases hinsert
  · exact h.raised (Queued.alreadyInQueue_map (fun _ _ => rfl) _ _ _) (List.Perm.refl _) rfl
  · exact h.raised (List.Perm.refl _) (Queued.alreadyInQueue_map (fun _ _ => rfl) _ _ _) rfl
  · have hkeys := not_mem_keys (hfresh hfilter)
    obtain rfl | ⟨paddr, -, henqueue⟩ | ⟨request, -, henqueue⟩ := insertNew_cases hnew
    · exact h
    · exact h.enqueue hkeys henqueue
    · exact h.enqueueMissing hkeys henqueue

theorem Unrepeated.notify {addresses : List AddrPriority}
    (h : state.Unrepeated size) (hfilter : params.queueFilter = true)
    (hnotify : state.notify params acc pfi addresses = .ok next) :
    next.Unrepeated size := by
  rw [notify_eq] at hnotify
  refine queueCandidates_invariant (fun candidate _ before after _ hbefore hinsert =>
    hbefore.insert hfilter hinsert) hnotify ?_
  rw [demanded]
  split
  · refine h.sublist ?_ (List.Sublist.refl _) rfl
    simp only [squash_eq_filter]
    exact List.filter_sublist
  · exact h

theorem Unrepeated.probeNotify {miss : Bool}
    {calculate : TriggerInfo → Except Assertion (List AddrPriority)}
    (h : state.Unrepeated size) (hfilter : params.queueFilter = true)
    (hprobe : state.probeNotify params calculate acc miss = .ok next) :
    next.Unrepeated size := by
  obtain ⟨useful, rfl | ⟨address, pfi, addresses, -, -, hnotify⟩⟩ := probeNotify_cases hprobe
  · exact ⟨h.queueSize, h.nodup, h.pfq_le, h.missing_le⟩
  · have hcounted : { state with usefulPrefetches := useful }.Unrepeated size :=
      ⟨h.queueSize, h.nodup, h.pfq_le, h.missing_le⟩
    exact hcounted.notify hfilter hnotify

theorem Unrepeated.getPacket {pkt : Option Packet}
    (h : state.Unrepeated size) (hget : state.getPacket = .ok (pkt, next)) :
    next.Unrepeated size := by
  obtain ⟨hpfq, -, hmissing, hsize, -⟩ := getPacket_eq_ok hget
  refine h.sublist ?_ ?_ hsize
  · rw [hpfq]
    exact List.tail_sublist _
  · rw [hmissing]

/-- Enqueueing does not look at the other queue. -/
theorem enqueue_withMissing (missing : List DeferredPacket)
    (h : state.enqueue params pfInfo priority paddr = .ok next) :
    { state with pfqMissingTranslation := missing }.enqueue params pfInfo priority paddr =
      .ok { next with pfqMissingTranslation := missing } := by
  simp only [enqueue, bind_eq_ok, pure_eq_ok] at h ⊢
  obtain ⟨pfq, hadd, rfl⟩ := h
  exact ⟨pfq, hadd, rfl⟩

/-- The entry whose translation is over leaves its queue, and enters the other one
at most once. -/
theorem Unrepeated.translationComplete {dp : Nat} {target : Option Addr} {cache : CacheAccessor}
    (h : state.Unrepeated size)
    (hcomplete : state.translationComplete params dp target cache = .ok next) :
    next.Unrepeated size := by
  unfold Prefetcher.translationComplete at hcomplete
  split at hcomplete
  · cases hcomplete
  · next it hit =>
      simp only [bind_eq_ok, pure_eq_ok] at hcomplete
      obtain ⟨queued, hqueued, rfl⟩ := hcomplete
      obtain ⟨hlt, hget⟩ := List.getElem?_eq_some_iff.mp hit
      -- the entry is gone first, and its address is nowhere then
      have herased : { state with pfqMissingTranslation :=
          state.pfqMissingTranslation.eraseIdx dp }.Unrepeated size :=
        h.sublist (List.Sublist.refl _) (List.eraseIdx_sublist _ _) rfl
      have hperm : (it :: state.pfqMissingTranslation.eraseIdx dp).Perm
          state.pfqMissingTranslation := hget ▸ List.getElem_cons_eraseIdx_perm hlt
      have hfresh : it.pfInfo ∉ { state with pfqMissingTranslation :=
          state.pfqMissingTranslation.eraseIdx dp }.keys := by
        have hkeys := h.nodup
        rw [keys, ← ((hperm.map DeferredPacket.pfInfo).append_left _).nodup_iff, List.map_cons,
          List.nodup_middle, List.nodup_cons] at hkeys
        exact hkeys.1
      cases target with
      | none =>
          cases hqueued
          exact herased
      | some targetPaddr =>
          simp only at hqueued
          split at hqueued
          · cases hqueued
            exact herased
          · have hsame : queued.pfqMissingTranslation = state.pfqMissingTranslation := by
              obtain ⟨-, -, -, -, -, -, hmissing, -⟩ := enqueue_pfq hqueued
              exact hmissing
            rw [hsame]
            exact herased.enqueue hfresh (enqueue_withMissing _ hqueued)

end Prefetcher

/-- What is done to a prefetcher.  The candidates of a notification are those of any
prefetcher, and so is the calculation behind a probe. -/
inductive PrefetchCall where
  | insert (acc : CacheAccessProbeArg) (newPfi : TriggerInfo) (priority : Int)
  | notify (acc : CacheAccessProbeArg) (pfi : TriggerInfo) (addresses : List AddrPriority)
  | probeNotify (calculate : TriggerInfo → Except Assertion (List AddrPriority))
      (acc : CacheAccessProbeArg) (miss : Bool)
  | getPacket
  | translationComplete (dp : Nat) (paddr : Option Addr) (cache : CacheAccessor)

namespace Prefetcher

def step (params : PrefetchParams) (state : Prefetcher) :
    PrefetchCall → Except Assertion Prefetcher
  | .insert acc newPfi priority => state.insert params acc newPfi priority
  | .notify acc pfi addresses => state.notify params acc pfi addresses
  | .probeNotify calculate acc miss => state.probeNotify params calculate acc miss
  | .getPacket => do
      let (_, next) ← state.getPacket
      pure next
  | .translationComplete dp paddr cache => state.translationComplete params dp paddr cache

theorem Unrepeated.step {params : PrefetchParams} {state next : Prefetcher} {size : Nat}
    {call : PrefetchCall} (h : state.Unrepeated size) (hfilter : params.queueFilter = true)
    (hstep : state.step params call = .ok next) : next.Unrepeated size := by
  cases call with
  | insert acc newPfi priority => exact h.insert hfilter hstep
  | notify acc pfi addresses => exact h.notify hfilter hstep
  | probeNotify calculate acc miss => exact h.probeNotify hfilter hstep
  | getPacket =>
      simp only [Prefetcher.step, bind_eq_ok, pure_eq_ok] at hstep
      obtain ⟨⟨pkt, popped⟩, hget, rfl⟩ := hstep
      exact h.getPacket hget
  | translationComplete dp paddr cache => exact h.translationComplete hstep

/-- In every state of every run, no two entries of the two queues together have the
same address and security, and neither queue exceeds its size. -/
theorem no_prefetch_is_queued_twice {params : PrefetchParams} {calls : List PrefetchCall}
    {final : Prefetcher} (hfilter : params.queueFilter = true)
    (hrun : Transition.run (step params) (new params) calls = .ok final) :
    ((final.pfq ++ final.pfqMissingTranslation).map fun entry =>
      (entry.pfInfo.address, entry.pfInfo.secure)).Nodup ∧
    final.pfq.length ≤ params.queueSize ∧
    final.pfqMissingTranslation.length ≤ params.queueSize := by
  have hnew : (new params).Unrepeated params.queueSize :=
    ⟨rfl, List.nodup_nil, Nat.zero_le _, Nat.zero_le _⟩
  have hpreserved : ∀ state call next, True → Unrepeated params.queueSize state →
      step params state call = .ok next → Unrepeated params.queueSize next :=
    fun _ _ _ _ h hstep => h.step hfilter hstep
  have hfinal := Transition.run_invariant (fun _ => True) hpreserved (fun _ _ => trivial) hrun hnew
  refine ⟨?_, hfinal.pfq_le, hfinal.missing_le⟩
  have hinjective : Function.Injective fun info : PrefetchInfo => (info.address, info.secure) := by
    rintro ⟨address, secure⟩ ⟨address', secure'⟩ hsame
    simpa using hsame
  have hnodup := hfinal.nodup.map hinjective
  rw [keys, ← List.map_append, List.map_map] at hnodup
  exact hnodup

/-- A read that missed, with a translation behind it, at a cache that holds nothing. -/
def readAccess (vaddr paddr : Addr) : CacheAccessProbeArg :=
  let req := (RequestObject.virtual vaddr 4 0 0 0 0).setPaddr paddr
  { pkt :=
      { Packet.ofRequest 0 req.toRequest .readReq with
        dataPtr := 0, validAddr := true, validSize := true, staticData := false,
        dynamicData := false }
    req
    shared := rfl
    cache :=
      { inCache := fun _ _ => false, inMissQueue := fun _ _ => false,
        hasBeenPrefetched := fun _ _ => false, coalesce := false } }

/-- What such a read starts. -/
def readTrigger (paddr address : Addr) : TriggerInfo :=
  { address, secure := false, pc := some 0, requestorId := 0, size := 4, write := false,
    paddress := paddr, cacheMiss := true, data := none }

theorem ofPacket_readAccess (vaddr paddr address : Addr) :
    TriggerInfo.ofPacket (readAccess vaddr paddr) address true =
      .ok (readTrigger paddr address) := by
  have hflags : (readAccess vaddr paddr).req.flags = 0 := rfl
  have hsecure : (readAccess vaddr paddr).pkt.isSecure = false := by
    change ((readAccess vaddr paddr).req.flags &&& Request.secure != 0) = false
    rw [hflags]
    decide
  rw [TriggerInfo.ofPacket, hsecure]
  rfl

/-- Blocks of 64 bytes on pages of 4096, trained with physical addresses, and queues of
two entries. -/
def pagedParams : PrefetchParams :=
  { blkSize := 64, pageBytes := 4096, onMiss := false, onRead := true, onWrite := true,
    onData := true, onInst := true, prefetchOnAccess := true, prefetchOnPfHit := false,
    useVirtualAddresses := false, queueSize := 2, queueSquash := true, queueFilter := true,
    cacheSnoop := true, throttleControlPct := 0 }

/-- The next line twice, and a line of the next page twice, before and after its
translation. -/
def askedTwice : List PrefetchCall :=
  let acc := readAccess 0x7000 0x1000
  let pfi := readTrigger 0x1000 0x1000
  [.insert acc (pfi.forAddress 0x1040) 1, .insert acc (pfi.forAddress 0x1040) 3,
    .insert acc (pfi.forAddress 0x2000) 1, .insert acc (pfi.forAddress 0x2000) 2,
    .translationComplete 0 (some 0x9000) acc.cache, .insert acc (pfi.forAddress 0x2000) 2]

theorem no_prefetch_is_queued_twice_askedTwice :
    ∃ final, Transition.run (step pagedParams) (new pagedParams) askedTwice = .ok final ∧
      final.pfq.map (fun entry => entry.pfInfo.address) = [0x1040, 0x2000] ∧
      final.pfq.length ≤ 2 := by
  obtain ⟨final, hrun, hseen⟩ := exists_ok_of_observed
    (show (Transition.run (step pagedParams) (new pagedParams) askedTwice).toOption.map
      (fun final => final.pfq.map fun entry => entry.pfInfo.address) = some [0x1040, 0x2000]
      by decide +kernel)
  exact ⟨final, hrun, hseen, (no_prefetch_is_queued_twice rfl hrun).2.1⟩

end Prefetcher

end KuiperCache
