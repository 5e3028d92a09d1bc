import KuiperCache.Cache.Lines

/-! The demand reserve.  A prefetch takes an MSHR only while more entries are free
than are reserved, and what the prefetcher holds never reaches into the reserve. -/
namespace KuiperCache.Reserve

open Checked Cache MissTracking Turns

variable {config : CacheConfig}

/-- A prefetch waits in the entry. -/
def prefetched (cache : Cache config) (index : Fin config.mshrs) : Bool :=
  (targetsOf cache index).any fun target => target.source == .fromPrefetcher

/-- The entries that prefetches may hold: all but the reserve and one more. -/
def unreserved (config : CacheConfig) : Nat := config.mshrs - (1 + config.demandMshrReserve)

/-- Prefetches hold none of the reserve. -/
structure Spared (cache : Cache config) : Prop where
  reserve : cache.mshrQueue.demandReserve = config.demandMshrReserve
  spared : cache.mshrQueue.allocatedList.countP (prefetched cache) ≤ unreserved config

theorem spared_new (config : CacheConfig) (writeAllocator : Option WriteAllocator) :
    Spared (Cache.new config writeAllocator) :=
  ⟨rfl, Nat.zero_le _⟩

/-- With room for a prefetch, one more entry still leaves the reserve free. -/
theorem Spared.room {cache : Cache config} (h : Spared cache) (hsound : Sound cache)
    (hroom : cache.mshrQueue.canPrefetch = true) :
    cache.mshrQueue.allocatedList.length + 1 ≤ unreserved config := by
  rw [MshrQueue.canPrefetch, decide_eq_true_eq, hsound.represents.allocated, hsound.numReserve,
    h.reserve] at hroom
  unfold unreserved
  omega

theorem Spared.shrunk {before after : Cache config} (h : Spared before) (hafter : Sound after)
    (hshrunk : Shrunk before after) : Spared after := by
  refine ⟨hshrunk.reserve.trans h.reserve, ?_⟩
  have hsub : after.mshrQueue.allocatedList ⊆ before.mshrQueue.allocatedList :=
    fun index hindex => (hshrunk.stays index hindex).1
  have hsame : ∀ index ∈ after.mshrQueue.allocatedList,
      (prefetched after index = true ↔ prefetched before index = true) := by
    intro index hindex
    rw [prefetched, prefetched, (hshrunk.stays index hindex).2.1]
  have hfewer := List.subperm_of_subset hafter.represents.partition.used_nodup hsub
  rw [List.countP_congr hsame]
  exact (hfewer.countP_le _).trans h.spared

/-- A target that the processor asked for makes no entry one of the prefetcher's. -/
theorem prefetched_came {before after : Cache config} {index : Fin config.mshrs} {mshr : Mshr}
    {target : Target} (hcame : Came before after index mshr target)
    (hsource : target.source ≠ .fromPrefetcher) : prefetched after = prefetched before := by
  funext other
  unfold prefetched
  rw [targetsOf, hcame.entries, Function.update_apply]
  split
  · rename_i heq
    rw [hcame.waiting, List.any_append, heq, List.any_cons, beq_eq_false_iff_ne.mpr hsource]
    exact Bool.or_false _
  · rfl

theorem Spared.came {before after : Cache config} (h : Spared before) (hsound : Sound before)
    {index : Fin config.mshrs} {mshr : Mshr} {target : Target}
    (hroom : target.source = .fromPrefetcher → before.mshrQueue.canPrefetch = true)
    (hcame : Came before after index mshr target) : Spared after := by
  refine ⟨hcame.reserve.trans h.reserve, ?_⟩
  by_cases hsource : target.source = .fromPrefetcher
  · -- one entry more at most, whatever it holds
    have hone := h.room hsound (hroom hsource)
    refine List.countP_le_length.trans ?_
    obtain ⟨-, hlist, -, -⟩ | ⟨-, -, hlist, -, -⟩ := hcame.place
    · rw [hlist]
      omega
    · rw [hlist, List.length_append]
      exact hone
  · rw [prefetched_came hcame hsource]
    obtain ⟨-, hlist, -, -⟩ | ⟨-, hnone, hlist, -, -⟩ := hcame.place
    · rw [hlist]
      exact h.spared
    · have hfresh : prefetched before index = false := by
        rw [prefetched, hnone]
        rfl
      rw [hlist, List.countP_append, List.countP_singleton, hfresh]
      exact h.spared

/-- The reserve is kept when the targets that a prefetch starts are admitted only
while there is room. -/
theorem spared_lines : Lines
    (fun (cache : Cache config) (target : Target) =>
      target.source = .fromPrefetcher → cache.mshrQueue.canPrefetch = true)
    (fun cache _ => Spared cache) where
  mono := fun h _ => h
  shrunk := fun h hafter hshrunk => h.shrunk hafter hshrunk
  came := fun h hsound _ hroom hcame => h.came hsound hroom hcame

/-- The packets that come in are no prefetches of a cache above. -/
def isDemand : Label config → Prop
  | .recvTimingReq pkt _ => pkt.cmd ≠ .hardPFReq
  | _ => True

theorem step_spared {system next : System config} {label : Label config}
    (hdemand : isDemand label) (hsound : Sound system.cache) (h : Spared system.cache)
    (hstep : system.step label = .ok next) : Spared next.cache := by
  refine spared_lines.step h hsound ?_ ?_ hstep
  · rintro pkt random rfl cache target hcmd hsource
    exact absurd (hcmd hsource) hdemand
  · intro cache target hmay _
    exact hmay

/-- After any calls that bring in no prefetch of a cache above: the entries in which
a prefetch waits leave one entry and the reserve to the processor, also when no entry
is free; and a prefetch is started only when nothing waits to be sent, the cache is
open, and its line is neither present nor asked for, and then the reserve and one
entry more are still free. -/
theorem prefetches_leave_the_reserve {writeAllocator : Option WriteAllocator}
    {labels : List (Label config)} {system : System config}
    (hdemand : ∀ label ∈ labels, isDemand label)
    (hrun : Transition.run System.step (System.new config writeAllocator) labels = .ok system) :
    system.cache.mshrQueue.allocatedList.countP (prefetched system.cache) ≤ unreserved config ∧
    (system.cache.mshrQueue.freeList = [] →
      min config.mshrs (1 + config.demandMshrReserve) ≤
        system.cache.mshrQueue.allocatedList.countP fun index =>
          !prefetched system.cache index) ∧
    ∀ prefetch index next,
      system.cache.getNextQueueEntry prefetch = .ok (some (.miss index), next) →
      index ∉ system.cache.mshrQueue.allocatedList →
      ∃ pkt, prefetch = some pkt ∧ system.cache.mshrQueue.readyList = [] ∧
        system.cache.blocked.any = false ∧
        system.cache.findBlock (pkt.getBlockAddr config.blkSize) pkt.isSecure = none ∧
        (∀ other ∈ system.cache.mshrQueue.allocatedList,
          (system.cache.mshrQueue.entries other).isUncacheable = false →
          ¬ ((system.cache.mshrQueue.entries other).blkAddr = pkt.getBlockAddr config.blkSize ∧
            (system.cache.mshrQueue.entries other).isSecure = pkt.isSecure)) ∧
        index ∈ next.mshrQueue.allocatedList ∧
        1 + config.demandMshrReserve ≤ next.mshrQueue.freeList.length := by
  have hpreserved : ∀ (system : System config) (label : Label config) (next : System config),
      isDemand label → Sound system.cache ∧ Spared system.cache →
      system.step label = .ok next → Sound next.cache ∧ Spared next.cache := by
    intro system label next hdemand hinv hstep
    exact ⟨System.step_sound system label next hinv.1 hstep,
      step_spared hdemand hinv.1 hinv.2 hstep⟩
  obtain ⟨hsound, hspared⟩ := Transition.run_invariant isDemand hpreserved hdemand hrun
    ⟨sound_new config writeAllocator, spared_new config writeAllocator⟩
  refine ⟨hspared.spared, ?_, ?_⟩
  · intro hfull
    have htotal := hsound.represents.partition.length_add_length
    rw [hfull, List.length_nil, Nat.zero_add, Fintype.card_fin,
      List.length_eq_countP_add_countP (prefetched system.cache)] at htotal
    simp only [Bool.not_eq_true, Bool.decide_eq_false] at htotal
    have hleft := hspared.spared
    unfold unreserved at hleft
    omega
  · intro prefetch index next hnext hfresh
    obtain ⟨-, hentry⟩ | ⟨pkt, taken, rfl, hentry, hstarted⟩ :=
      getNextQueueEntry_parts hsound.writeBuffer.2 hnext
    · obtain ⟨head, hhead, heq⟩ := Option.map_eq_some_iff.mp hentry.symm
      cases heq
      rw [L0.getNext_eq_head hsound] at hhead
      have hready := List.mem_of_head? hhead
      exact absurd ((hsound.represents.ready.mem index).mp hready).1 hfresh
    · cases hentry
      have hidle := hstarted.idle
      rw [L0.getNext_eq_head hsound, List.head?_eq_none_iff] at hidle
      obtain ⟨mshr, -, hmissed, -⟩ := allocateMissBuffer_missed hstarted.allocated
      have halloc := hmissed.allocated
      refine ⟨pkt, rfl, hidle, hstarted.unblocked, hstarted.uncached, ?_, ?_, ?_⟩
      · intro other hother hcacheable
        exact findMatch_eq_none hstarted.unasked other hother fun _ => hcacheable
      · rw [halloc.allocatedList]
        exact List.mem_append_right _ (List.mem_singleton_self _)
      · have hone := hspared.room hsound hstarted.room
        have htotal := hsound.represents.partition.length_add_length
        rw [halloc.freeList, List.length_cons, Fintype.card_fin] at htotal
        unfold unreserved at hone
        omega

/-- Two lines are fetched ahead, and two others are asked for. -/
def twoAhead : List (Label prefetchingParams) :=
  let packet addr cmd := Packet.ofRequest 0 (Request.physical addr 4 0 0) cmd
  let way := prefetchingParams.geometry.firstWay
  [.getNextQueueEntry (some (packet 0x50 .hardPFReq)),
    .sendMSHRQueuePacket ⟨0, prefetchingParams.mshrs_pos⟩ none way,
    .getNextQueueEntry (some (packet 0x60 .hardPFReq)),
    .recvTimingReq (packet 0x104 .readReq) way, .recvTimingReq (packet 0x204 .readReq) way]

theorem prefetches_leave_the_reserve_ahead :
    ∃ system, Transition.run System.step (System.new prefetchingParams none) twoAhead =
        .ok system ∧
      system.cache.mshrQueue.freeList = [] ∧
      system.cache.mshrQueue.allocatedList.countP (prefetched system.cache) ≤ 2 ∧
      2 ≤ system.cache.mshrQueue.allocatedList.countP fun index =>
        !prefetched system.cache index := by
  obtain ⟨system, hrun, hfull⟩ := exists_ok_of_observed
    (show ((Transition.run System.step (System.new prefetchingParams none)
      twoAhead).toOption.map fun system => system.cache.mshrQueue.freeList) = some [] by
        decide +kernel)
  have hdemand : ∀ label ∈ twoAhead, isDemand label := by
    simp [twoAhead, isDemand, Packet.ofRequest]
  obtain ⟨hfew, hrest, -⟩ := prefetches_leave_the_reserve hdemand hrun
  exact ⟨system, hrun, hfull, hfew, hrest hfull⟩

end KuiperCache.Reserve
