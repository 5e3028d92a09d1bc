import KuiperCache.Cache.Conservation
import KuiperCache.Cache.RequestQueue
import KuiperCache.Cache.Shortage
import KuiperCache.Library.Places

/-! Emptying the cache's request queue.  Each line that is sent takes a way of its
set for good, since valid lines are never replaced, so the entries that wait can all
be sent exactly when their sets have room for them. -/
namespace KuiperCache.Draining

open Checked Cache Shortage MissTracking

variable {config : CacheConfig}

/-- An entry that is sent, the line memory answers with, and what the replacement
policy draws. -/
structure Send (config : CacheConfig) where
  index : Fin config.mshrs
  data : List UInt8
  random : Fin config.geometry.assoc

def send (system : System config) (sent : Send config) : Except Assertion (System config) :=
  system.step (.sendMSHRQueuePacket sent.index (some sent.data) sent.random)

/-- The set that the line of an entry belongs to. -/
def lineSet (cache : Cache config) (index : Fin config.mshrs) : Fin config.geometry.numSets :=
  config.geometry.extractSet (cache.mshrQueue.entries index).blkAddr

/-- The number of lines of a set that are waited for. -/
def waiting (cache : Cache config) (set : Fin config.geometry.numSets) : Nat :=
  cache.mshrQueue.allocatedList.countP fun index => lineSet cache index = set

/-- The number of ways of a set that hold no line. -/
def freeWays {geometry : Geometry} (tags : Tags geometry) (set : Fin geometry.numSets) : Nat :=
  (List.finRange geometry.assoc).countP fun way => !(tags.blks set way).valid

/-- The address of the line can be told from its tag and set. -/
def nameable (geometry : Geometry) (addr : Addr) : Prop :=
  geometry.regenerateAddr (geometry.extractTag addr) (geometry.extractSet addr) =
    geometry.lineAddr addr

instance (geometry : Geometry) (addr : Addr) : Decidable (nameable geometry addr) :=
  inferInstanceAs (Decidable (_ = _))

def jobs : Places.Jobs (System config) (Send config) (Fin config.mshrs)
    (Fin config.geometry.numSets) where
  does sent := sent.index
  pending system := system.cache.mshrQueue.allocatedList
  kind system := lineSet system.cache
  possible system index :=
    nameable config.geometry (system.cache.mshrQueue.entries index).blkAddr
  free system := freeWays system.cache.tags

theorem lineShortage_eq_none {geometry : Geometry} {tags : Tags geometry} {addr : Addr} :
    lineShortage tags addr = none ↔
      nameable geometry addr ∧ 0 < freeWays tags (geometry.extractSet addr) := by
  have hfree : (List.finRange geometry.assoc).all
        (fun way => (tags.blks (geometry.extractSet addr) way).valid) = true ↔
      ¬ 0 < freeWays tags (geometry.extractSet addr) := by
    rw [freeWays, List.countP_pos_iff, List.all_eq_true]
    simp
  unfold lineShortage
  split
  · rename_i hfull
    simp [hfree.mp hfull]
  · rename_i hroom
    rw [hfree, not_not] at hroom
    simp [hroom, nameable]

theorem freeWays_kept {geometry : Geometry} {before after : Tags geometry}
    {set : Fin geometry.numSets}
    (h : ∀ way, CacheBlk.LineKept (before.blks set way) (after.blks set way)) :
    freeWays after set = freeWays before set := by
  simp only [freeWays, (h _).valid]

/-- A line put into a free way takes one free way of its set. -/
theorem freeWays_installed {before after : Tags config.geometry} {addr : Addr} {secure : Bool}
    {way : Fin config.geometry.assoc}
    (h : MissTracking.Installed before after addr secure way)
    (hinvalid : (before.blks (config.geometry.extractSet addr) way).valid = false)
    (set : Fin config.geometry.numSets) :
    freeWays before set =
      freeWays after set + if config.geometry.extractSet addr = set then 1 else 0 := by
  by_cases hset : config.geometry.extractSet addr = set
  · subst hset
    have hothers : ∀ other, other ≠ way →
        (!(after.blks (config.geometry.extractSet addr) other).valid) =
          !(before.blks (config.geometry.extractSet addr) other).valid := by
      intro other hne
      rw [(h.others _ other fun hsame => hne hsame.2).valid]
    unfold freeWays
    rw [SlotPool.countP_eq_erase (List.mem_finRange way),
      SlotPool.countP_eq_erase (List.mem_finRange way),
      SlotPool.countP_erase_congr (List.nodup_finRange _) hothers, h.valid, hinvalid]
    simp
  · rw [if_neg hset, Nat.add_zero]
    refine (freeWays_kept fun way' => h.others set way' ?_).symm
    exact fun hsame => hset hsame.1.symm

/-- What holds of the cache in every orderly run without write coalescing. -/
structure Prompt (system : System config) : Prop where
  ready : Ready system.cache
  writeAllocator : system.cache.writeAllocator = none

theorem step_prompt (system : System config) (label : Label config) (next : System config)
    (hlabel : orderlyStep label = true) (h : Prompt system) (hstep : system.step label = .ok next) :
    Prompt next := by
  refine ⟨step_ready system label next hlabel h.ready hstep, ?_⟩
  have hfresh := newPtr_kept system.cache
  have hnone := hfresh.writeAllocator h.writeAllocator
  cases label with
  | recvTimingReq pkt random =>
      obtain ⟨cache, hreq, rfl⟩ := System.step_recvTimingReq hstep
      have hsound := h.ready.sound.touched hfresh.toTouched
      exact (recvTimingReq_announced hsound hreq).writeAllocator hnone
  | getNextQueueEntry prefetch =>
      obtain ⟨entry, cache, hnext, rfl⟩ := System.step_getNextQueueEntry hstep
      have hready : system.cache.newPtr.2.writeBuffer.readyList = [] :=
        h.ready.sound.writeBuffer.2
      obtain ⟨rfl, -⟩ | ⟨pkt, index, mshr, -, -, -, -, -, -, hmissed⟩ :=
        getNextQueueEntry_cases hready hnext
      · exact hnone
      · exact hmissed.kept.writeAllocator hnone
  | sendMSHRQueuePacket index reply random =>
      obtain ⟨data, rfl⟩ := Option.isSome_iff_exists.mp hlabel
      obtain ⟨waiting, cache, flight, hsend, rfl⟩ := System.step_sendMSHRQueuePacket hstep
      exact (sendMSHRQueuePacket_answered h.ready.sound h.writeAllocator hsend).2.1
  | handleTimingRes pkt random => cases hlabel
  | recvTimingResp pkt random => cases hlabel

/-- An entry is sent exactly when its line has a place, and then takes one. -/
theorem takes : (@jobs config).Takes send (fun _ => True) Prompt where
  ok_iff := by
    intro system sent _ h hmem
    have hready : sent.index ∈ system.cache.mshrQueue.readyList :=
      (h.ready.sound.represents.ready.mem sent.index).mpr
        ⟨hmem, (h.ready.prompt sent.index hmem).inService⟩
    rw [send, step_ok_iff system _ rfl h.ready, Option.isNone_iff_eq_none]
    simp only [shortage, sendShortage, List.contains_iff_mem.mpr hready,
      heldBack_of_none h.writeAllocator, Bool.not_true, Bool.false_eq_true, ↓reduceIte]
    exact lineShortage_eq_none
  step := by
    intro system sent next _ h hmem hstep
    refine ⟨step_prompt system _ next rfl h hstep, ?_⟩
    obtain ⟨waiting, cache, flight, hsend, rfl⟩ := System.step_sendMSHRQueuePacket hstep
    obtain ⟨-, ⟨hallocator, -⟩ | ⟨-, way, free, hreleased, hinvalid, hinstalled⟩⟩ :=
      h.ready.sendMSHRQueuePacket_cases hsend
    · exact absurd h.writeAllocator hallocator
    · have hentry : ∀ other ∈ cache.mshrQueue.allocatedList,
          cache.mshrQueue.entries other = system.cache.mshrQueue.entries other :=
        fun other hother => (h.ready.sound.represents.released_cases hreleased hother).2.2
      refine ⟨hreleased.allocatedList, ?_, ?_, freeWays_installed hinstalled hinvalid⟩
      · intro other hother
        simp only [jobs, lineSet, hentry other hother]
      · intro other hother
        simp only [jobs, hentry other hother]

theorem prompt_of_run {labels : List (Label config)} {system : System config}
    (hlabels : ∀ label ∈ labels, orderlyStep label = true)
    (hrun : Transition.run System.step (System.new config none) labels = .ok system) :
    Prompt system :=
  Transition.run_invariant (fun label => orderlyStep label = true) step_prompt hlabels hrun
    ⟨ready_new config none, rfl⟩

/-- Once no entry is left, every accepted packet has been answered. -/
theorem answered_of_empty {accepted : List Packet} {cache : Cache config}
    (h : Conservation.Conserved accepted [] cache) (hempty : cache.mshrQueue.allocatedList = [])
    {pkt : Packet} (hpkt : pkt ∈ accepted) : Conservation.answers cache pkt.ptr = 1 := by
  have hone : (accepted.map Packet.ptr).count pkt.ptr = 1 :=
    List.count_eq_one_of_mem h.distinct (List.mem_map_of_mem hpkt)
  rw [h.balance.count_eq, Conservation.heldPtrs, hempty] at hone
  rw [← Conservation.count_responses]
  simpa using hone

/-- After any orderly run, sending all the waiting entries, in any order, succeeds
exactly when each set has a free way for each of its lines and each line can be
named.  Then nothing waits any more, and every packet accepted in a run without
prefetches has been answered once. -/
theorem waiting_lines_drain_iff_room {labels : List (Label config)} {system : System config}
    (hlabels : ∀ label ∈ labels, orderlyStep label = true)
    (hrun : Transition.run System.step (System.new config none) labels = .ok system)
    {sends : List (Send config)}
    (hsends : (sends.map Send.index).Perm system.cache.mshrQueue.allocatedList) :
    ((∃ final, Transition.run send system sends = .ok final) ↔
      (∀ index ∈ system.cache.mshrQueue.allocatedList,
        nameable config.geometry (system.cache.mshrQueue.entries index).blkAddr) ∧
      ∀ set, waiting system.cache set ≤ freeWays system.cache.tags set) ∧
    ∀ final, Transition.run send system sends = .ok final →
      final.cache.mshrQueue.allocatedList = [] ∧
      ((∀ label ∈ labels, Conservation.plainStep label = true) →
        ∀ pkt ∈ final.accepted, Conservation.answers final.cache pkt.ptr = 1) := by
  have hprompt := prompt_of_run hlabels hrun
  refine ⟨takes.run_ok_iff_room (fun _ _ => trivial) hprompt hsends, ?_⟩
  intro final hfinal
  obtain ⟨-, hempty⟩ := takes.run_pending (fun _ _ => trivial) hprompt hsends hfinal
  refine ⟨hempty, ?_⟩
  intro hplain pkt hpkt
  have hconserved := Transition.run_invariant (fun _ => True)
    (fun state sent next _ => Conservation.step_conserved state
      (.sendMSHRQueuePacket sent.index (some sent.data) sent.random) next rfl)
    (fun _ _ => trivial) hfinal (Conservation.run_conserved hplain hrun)
  exact answered_of_empty hconserved.2 hempty hpkt

/-- Two lines of one set and one of the other wait, and a second read of the first. -/
def waitingReads : List (Label prefetchingParams) :=
  let read addr := Packet.ofRequest 0 (Request.physical addr 4 0 0) .readReq
  let way := prefetchingParams.geometry.firstWay
  [.recvTimingReq (read 0x00) way, .recvTimingReq (read 0x24) way, .recvTimingReq (read 0x10) way,
    .recvTimingReq (read 0x08) way]

/-- The entries that wait, the one allocated last first. -/
def sendsFromLast (system : System prefetchingParams) : List (Send prefetchingParams) :=
  system.cache.mshrQueue.allocatedList.reverse.map
    fun index => ⟨index, [], prefetchingParams.geometry.firstWay⟩

theorem waiting_lines_drain_iff_room_reads :
    ∃ system final, Transition.run System.step (System.new prefetchingParams none) waitingReads =
        .ok system ∧ waiting system.cache ⟨0, by decide⟩ = 2 ∧
      Transition.run send system (sendsFromLast system) = .ok final ∧
      ∀ pkt ∈ final.accepted, Conservation.answers final.cache pkt.ptr = 1 := by
  obtain ⟨system, hrun, hseen⟩ := exists_ok_of_observed
    (show ((Transition.run System.step (System.new prefetchingParams none)
      waitingReads).toOption.map fun system => (waiting system.cache ⟨0, by decide⟩,
        decide (∀ index ∈ system.cache.mshrQueue.allocatedList, nameable prefetchingParams.geometry
          (system.cache.mshrQueue.entries index).blkAddr),
        decide (∀ set, waiting system.cache set ≤ freeWays system.cache.tags set))) =
      some (2, true, true) by decide +kernel)
  obtain ⟨hwaiting, hnamed, hroom⟩ : _ ∧ _ ∧ _ := by simpa only [Prod.mk.injEq] using hseen
  have hsends : ((sendsFromLast system).map Send.index).Perm
      system.cache.mshrQueue.allocatedList := by
    rw [sendsFromLast, List.map_map]
    exact (List.map_id _ ▸ List.reverse_perm _)
  obtain ⟨hiff, hdrained⟩ := waiting_lines_drain_iff_room (by decide +kernel) hrun hsends
  obtain ⟨final, hfinal⟩ := hiff.mpr ⟨of_decide_eq_true hnamed, of_decide_eq_true hroom⟩
  exact ⟨system, final, hrun, hwaiting, hfinal, (hdrained final hfinal).2 (by decide +kernel)⟩

end KuiperCache.Draining
