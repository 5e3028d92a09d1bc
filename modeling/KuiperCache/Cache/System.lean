import KuiperCache.Cache.Miss
import KuiperCache.Queue.Representation

/-! The cache as a transition system.  Requests arrive, the prefetcher is
consulted, MSHRs are sent and responses come back, in any order and with any
packets. -/
namespace KuiperCache

open Checked

/-- The cache and the packets handed to it so far. -/
structure System (config : CacheConfig) where
  cache : Cache config
  accepted : List Packet

/-- The calls made on the cache.  `random` is what the replacement policy draws;
`reply` is the line read from below, when the request is answered at once. -/
inductive Label (config : CacheConfig) where
  | recvTimingReq (pkt : Packet) (random : Fin config.geometry.assoc)
  | getNextQueueEntry (prefetch : Option Packet)
  | sendMSHRQueuePacket (index : Fin config.mshrs) (reply : Option (List UInt8))
      (random : Fin config.geometry.assoc)
  | handleTimingRes (pkt : Packet) (random : Fin config.geometry.assoc)
  | recvTimingResp (pkt : Packet) (random : Fin config.geometry.assoc)

namespace System

variable {config : CacheConfig}

def new (config : CacheConfig) (writeAllocator : Option WriteAllocator) : System config :=
  { cache := Cache.new config writeAllocator, accepted := [] }

/-- Every packet that enters is an object of its own, so it gets a fresh identity.
Only entries of the ready list are ever sent. -/
def step (system : System config) : Label config → Except Assertion (System config)
  | .recvTimingReq pkt random => do
      let (ptr, cache) := system.cache.newPtr
      let cache ← cache.recvTimingReq { pkt with ptr } random
      pure { cache, accepted := system.accepted ++ [{ pkt with ptr }] }
  | .getNextQueueEntry prefetch => do
      let (ptr, cache) := system.cache.newPtr
      let (_, cache) ← cache.getNextQueueEntry (prefetch.map fun pkt => { pkt with ptr })
      pure { system with cache }
  | .sendMSHRQueuePacket index reply random => do
      check (system.cache.mshrQueue.readyList.contains index) .mshrExpected
      let (_, cache, _) ← system.cache.sendMSHRQueuePacket index reply random
      pure { system with cache }
  | .handleTimingRes pkt random => do
      let cache ← system.cache.handleTimingRes pkt random
      pure { system with cache }
  | .recvTimingResp pkt random => do
      let cache ← system.cache.recvTimingResp pkt random
      pure { system with cache }

variable {system next : System config}

/-- Each call taken apart: what a step that succeeds did. -/
theorem step_recvTimingReq {pkt : Packet} {random : Fin config.geometry.assoc}
    (h : system.step (.recvTimingReq pkt random) = .ok next) :
    ∃ cache, system.cache.newPtr.2.recvTimingReq { pkt with ptr := system.cache.nextPtr } random =
        .ok cache ∧
      next =
        { cache, accepted := system.accepted ++ [{ pkt with ptr := system.cache.nextPtr }] } := by
  simp only [step, bind_eq_ok, pure_eq_ok] at h
  obtain ⟨cache, hreq, rfl⟩ := h
  exact ⟨cache, hreq, rfl⟩

theorem step_getNextQueueEntry {prefetch : Option Packet}
    (h : system.step (.getNextQueueEntry prefetch) = .ok next) :
    ∃ entry cache, system.cache.newPtr.2.getNextQueueEntry
        (prefetch.map fun pkt => { pkt with ptr := system.cache.nextPtr }) = .ok (entry, cache) ∧
      next = { system with cache } := by
  simp only [step, bind_eq_ok, pure_eq_ok] at h
  obtain ⟨⟨entry, cache⟩, hnext, rfl⟩ := h
  exact ⟨entry, cache, hnext, rfl⟩

theorem step_sendMSHRQueuePacket {index : Fin config.mshrs} {reply : Option (List UInt8)}
    {random : Fin config.geometry.assoc}
    (h : system.step (.sendMSHRQueuePacket index reply random) = .ok next) :
    ∃ waiting cache flight,
      system.cache.sendMSHRQueuePacket index reply random = .ok (waiting, cache, flight) ∧
      next = { system with cache } := by
  simp only [step, bind_eq_ok, check_eq_ok, exists_const, pure_eq_ok] at h
  obtain ⟨-, ⟨waiting, cache, flight⟩, hsend, rfl⟩ := h
  exact ⟨waiting, cache, flight, hsend, rfl⟩

theorem step_handleTimingRes {pkt : Packet} {random : Fin config.geometry.assoc}
    (h : system.step (.handleTimingRes pkt random) = .ok next) :
    ∃ cache, system.cache.handleTimingRes pkt random = .ok cache ∧
      next = { system with cache } := by
  simp only [step, bind_eq_ok, pure_eq_ok] at h
  obtain ⟨cache, hres, rfl⟩ := h
  exact ⟨cache, hres, rfl⟩

theorem step_recvTimingResp {pkt : Packet} {random : Fin config.geometry.assoc}
    (h : system.step (.recvTimingResp pkt random) = .ok next) :
    ∃ cache, system.cache.recvTimingResp pkt random = .ok cache ∧
      next = { system with cache } := by
  simp only [step, bind_eq_ok, pure_eq_ok] at h
  obtain ⟨cache, hresp, rfl⟩ := h
  exact ⟨cache, hresp, rfl⟩

end System

namespace Cache

variable {config : CacheConfig}

/-- What holds of the cache after any calls with any packets. -/
structure Sound (cache : Cache config) : Prop where
  represents : MshrQueue.Represents cache.mshrQueue
  numReserve : cache.mshrQueue.numReserve = 0
  free : ∀ index ∈ cache.mshrQueue.freeList, (cache.mshrQueue.entries index).waiting = []
  noMSHRs : cache.blocked.noMSHRs = cache.mshrQueue.isFull
  writeBuffer : cache.writeBuffer.allocatedList = [] ∧ cache.writeBuffer.readyList = []
  replaceable : cache.tags.Replaceable
  due : ∀ index ∈ cache.mshrQueue.readyList, (cache.mshrQueue.entries index).readyTime = curTick

theorem sound_new (config : CacheConfig) (writeAllocator : Option WriteAllocator) :
    Sound (Cache.new config writeAllocator) := by
  refine ⟨MshrQueue.represents_new _ _ _, rfl, fun _ _ => rfl, ?_, ⟨rfl, rfl⟩, fun _ _ => rfl,
    fun _ _ => rfl⟩
  have hpos := config.mshrs_pos
  simp only [new, Blocked.none, MshrQueue.new, Queue.new, Queue.isFull]
  simp
  omega

theorem Sound.touched {before after : Cache config} (h : Sound before)
    (htouched : Touched before after) : Sound after := by
  have hqueue := htouched.mshrQueue
  have hbuffer := htouched.writeBuffer
  refine ⟨hqueue ▸ h.represents, hqueue ▸ h.numReserve, hqueue ▸ h.free, ?_,
    hbuffer ▸ h.writeBuffer, htouched.replaceable h.replaceable, hqueue ▸ h.due⟩
  rw [htouched.noMSHRs, hqueue, h.noMSHRs]

/-- An entry with targets is allocated. -/
theorem Sound.mem_allocatedList {cache : Cache config} (h : Sound cache)
    {index : Fin config.mshrs} (hheld : (cache.mshrQueue.entries index).targets.list ≠ []) :
    index ∈ cache.mshrQueue.allocatedList := by
  obtain hfree | hused := h.represents.partition.complete index
  · exact absurd (Mshr.waiting_eq_nil.mp (h.free index hfree)).1 hheld
  · exact hused

/-- The queue is full exactly when the free list is empty. -/
theorem Sound.isFull_iff {cache : Cache config} (h : Sound cache) :
    cache.mshrQueue.isFull = true ↔ cache.mshrQueue.freeList = [] := by
  obtain ⟨hfree, hused, hdisjoint, hcomplete⟩ := h.represents.partition
  have hlength : cache.mshrQueue.freeList.length + cache.mshrQueue.allocatedList.length =
      config.mshrs := by
    have hnodup : (cache.mshrQueue.freeList ++ cache.mshrQueue.allocatedList).Nodup :=
      List.nodup_append.mpr ⟨hfree, hused, fun a ha b hb heq => hdisjoint a ha (heq ▸ hb)⟩
    have hperm : (cache.mshrQueue.freeList ++ cache.mshrQueue.allocatedList).Perm
        (List.finRange config.mshrs) := by
      rw [List.perm_ext_iff_of_nodup hnodup (List.nodup_finRange _)]
      intro index
      simp [hcomplete index]
    have hcount := hperm.length_eq
    rw [List.length_append, List.length_finRange] at hcount
    exact hcount
  simp only [Queue.isFull, decide_eq_true_eq, h.numReserve, h.represents.allocated]
  rw [← List.length_eq_zero_iff]
  omega

theorem Sound.missed {before after : Cache config} {index : Fin config.mshrs} {mshr : Mshr}
    (h : Sound before) (hmissed : Missed before after index mshr)
    (hidle : mshr.inService = false) (hready : mshr.readyTime = curTick) : Sound after := by
  have halloc := hmissed.allocated
  have hrepresents := h.represents.allocate halloc hidle
  have hbuffer : after.writeBuffer = before.writeBuffer := hmissed.kept.writeBuffer
  have hnumReserve : after.mshrQueue.numReserve = 0 := halloc.numReserve.trans h.numReserve
  refine ⟨hrepresents, hnumReserve, ?_, ?_, ?_, hmissed.kept.replaceable h.replaceable, ?_⟩
  · intro other hother
    have hfree : other ∈ before.mshrQueue.freeList := by
      rw [halloc.freeList]
      exact List.mem_cons_of_mem index hother
    have hne : other ≠ index := by
      rintro rfl
      have hnodup := h.represents.partition.free_nodup
      rw [halloc.freeList, List.nodup_cons] at hnodup
      exact hnodup.1 hother
    rw [halloc.entries, Function.update_of_ne hne]
    exact h.free other hfree
  · rw [hmissed.noMSHRs, h.noMSHRs]
    -- a queue with a free entry was not full before
    have hroom : before.mshrQueue.isFull = false := by
      rw [Bool.eq_false_iff, Ne, h.isFull_iff, halloc.freeList]
      simp
    rw [hroom, Bool.or_false]
  · exact hbuffer ▸ h.writeBuffer
  · intro other hother
    rw [halloc.entries, Function.update_apply]
    split
    · exact hready
    · rename_i hne
      rw [halloc.readyList.mem_iff, List.mem_cons] at hother
      exact h.due other (hother.resolve_left hne)

theorem Sound.serving {before after : Cache config} {index : Fin config.mshrs} {mshr : Mshr}
    {answers : List Packet} (h : Sound before) (hmem : index ∈ before.mshrQueue.allocatedList)
    (hserving : Serving before after index mshr answers)
    (hservice : mshr.inService = (before.mshrQueue.entries index).inService)
    (hready : mshr.readyTime = (before.mshrQueue.entries index).readyTime) : Sound after := by
  have hedited := MshrQueue.setEntry_edited before.mshrQueue index mshr
  have hbuffer : after.writeBuffer = before.writeBuffer := hserving.kept.writeBuffer
  refine ⟨?_, ?_, ?_, ?_, hbuffer ▸ h.writeBuffer, hserving.kept.replaceable h.replaceable, ?_⟩
  · rw [hserving.mshrQueue]
    exact h.represents.edit hedited (List.Perm.refl _) rfl hservice
  · rw [hserving.mshrQueue]
    exact h.numReserve
  · rw [hserving.mshrQueue]
    intro other hother
    rw [hedited.entries, Function.update_of_ne (h.represents.ne_of_free hother hmem)]
    exact h.free other hother
  · have hflag : after.blocked.noMSHRs = before.blocked.noMSHRs := hserving.kept.noMSHRs
    rw [hflag, h.noMSHRs, hserving.mshrQueue]
    rfl
  · intro other hother
    rw [hserving.mshrQueue, MshrQueue.setEntry_readyList] at hother
    rw [hserving.mshrQueue, hedited.entries, Function.update_apply]
    split
    · rename_i heq
      subst heq
      exact hready.trans (h.due other hother)
    · exact h.due other hother

theorem Sound.marked {before after : Cache config} {index : Fin config.mshrs}
    {pendingModified : Bool} (h : Sound before) (hmem : index ∈ before.mshrQueue.allocatedList)
    (hmark : before.markInService index pendingModified = .ok after) : Sound after := by
  obtain ⟨mshrQueue, hqueue, rfl⟩ := markInService_eq_ok hmark
  obtain ⟨mshr, hmshr, hedited, hready, hcount⟩ := MshrQueue.markInService_spec hqueue
  have hspec := Mshr.markInService_spec hmshr
  refine ⟨h.represents.start hmem hspec.pending hedited hready hcount hspec.inService,
    hedited.numReserve.trans h.numReserve, ?_, ?_, h.writeBuffer, h.replaceable, ?_⟩
  · intro other hother
    have hother : other ∈ before.mshrQueue.freeList := hedited.freeList ▸ hother
    dsimp only
    rw [hedited.entries, Function.update_of_ne (h.represents.ne_of_free hother hmem)]
    exact h.free other hother
  · rw [h.noMSHRs]
    unfold Queue.isFull
    rw [hedited.allocated, hedited.numReserve]
  · intro other hother
    have hother : other ∈ before.mshrQueue.readyList :=
      List.mem_of_mem_erase (hready ▸ hother)
    dsimp only
    rw [hedited.entries, Function.update_apply]
    split
    · rename_i heq
      subst heq
      exact hspec.readyTime.trans (h.due other hother)
    · exact h.due other hother

theorem Sound.responded {before after : Cache config} {index : Fin config.mshrs}
    {answers : List Packet} (h : Sound before) (hmem : index ∈ before.mshrQueue.allocatedList)
    (hresponded : Responded before after index answers) : Sound after := by
  obtain ⟨free, hreleased, hwaiting, -⟩ := hresponded.released
  have hrepresents := h.represents.release hmem hreleased
  have hnumReserve : after.mshrQueue.numReserve = 0 := hreleased.numReserve.trans h.numReserve
  have hroom : after.mshrQueue.isFull = false := by
    have hbound := h.represents.bounds.2.2
    simp only [Queue.isFull, hnumReserve, hreleased.allocated, decide_eq_false_iff_not]
    omega
  refine ⟨hrepresents, hnumReserve, ?_, ?_, hresponded.writeBuffer ▸ h.writeBuffer,
    hresponded.replaceable h.replaceable, ?_⟩
  · intro other hother
    rw [hreleased.entries]
    by_cases heq : other = index
    · subst heq
      rw [Function.update_self, hwaiting]
    · rw [Function.update_of_ne heq]
      rw [hreleased.freeList, List.mem_cons] at hother
      exact h.free other (hother.resolve_left heq)
  · rw [hresponded.noMSHRs, hroom, h.noMSHRs]
    cases before.mshrQueue.isFull <;> rfl
  · intro other hother
    rw [h.represents.readyList_released hreleased, h.represents.ready.nodup.mem_erase_iff] at hother
    rw [hreleased.entries, Function.update_of_ne hother.1]
    exact h.due other hother.2

end Cache

end KuiperCache
