import KuiperCache.Cache.PrefetchMark

/-! The prefetched lines nobody has asked for.  A cached line is marked as long as no
packet was accepted for it, so the mark tells the prefetcher which of its lines have
been of no use yet. -/
namespace KuiperCache.PrefetchMark

open Checked Cache MissTracking Shortage Turns

variable {config : CacheConfig}

/-- The line is there and marked. -/
def hasBeenPrefetched (cache : Cache config) (addr : Addr) (secure : Bool) : Bool :=
  (cache.findBlock addr secure).any fun ref => (cache.getBlk ref).prefetched

/-- The packet is for the line of the address. -/
def asksFor (config : CacheConfig) (pkt : Packet) (addr : Addr) (secure : Bool) : Bool :=
  config.geometry.lineAddr pkt.addr == config.geometry.lineAddr addr && pkt.isSecure == secure

/-- Some packet was accepted for the line. -/
def asked (config : CacheConfig) (accepted : List Packet) (addr : Addr) (secure : Bool) : Bool :=
  accepted.any fun pkt => asksFor config pkt addr secure

theorem asksFor_iff {pkt : Packet} {addr : Addr} {secure : Bool} :
    asksFor config pkt addr secure = true ↔
      config.geometry.lineAddr pkt.addr = config.geometry.lineAddr addr ∧
        pkt.isSecure = secure := by
  rw [asksFor, Bool.and_eq_true, beq_iff_eq, beq_iff_eq]

theorem findBlock_of_asksFor {pkt : Packet} {addr : Addr} {secure : Bool}
    (tags : Tags config.geometry) (h : asksFor config pkt addr secure = true) :
    tags.findBlock pkt.addr pkt.isSecure = tags.findBlock addr secure := by
  obtain ⟨hline, hsecure⟩ := asksFor_iff.mp h
  rw [findBlock_of_lineAddr tags hline, hsecure]

/-- Lines that are looked up with different results are different lines. -/
theorem asksFor_eq_false {pkt : Packet} {addr : Addr} {secure : Bool} (tags : Tags config.geometry)
    (h : tags.findBlock pkt.addr pkt.isSecure ≠ tags.findBlock addr secure) :
    asksFor config pkt addr secure = false := by
  rw [Bool.eq_false_iff]
  exact fun hsame => h (findBlock_of_asksFor tags hsame)

theorem asked_lineAddr (accepted : List Packet) (addr : Addr) (secure : Bool) :
    asked config accepted (config.geometry.lineAddr addr) secure =
      asked config accepted addr secure := by
  unfold asked asksFor
  rw [Geometry.lineAddr_lineAddr]

theorem asked_append (accepted : List Packet) (pkt : Packet) (addr : Addr) (secure : Bool) :
    asked config (accepted ++ [pkt]) addr secure =
      (asked config accepted addr secure || asksFor config pkt addr secure) := by
  simp [asked]

/-- The line is cached or some entry waits for it. -/
def Fetched (cache : Cache config) (addr : Addr) (secure : Bool) : Prop :=
  (cache.tags.findBlock addr secure).isSome = true ∨
    ∃ index ∈ cache.mshrQueue.allocatedList,
      (cache.mshrQueue.entries index).blkAddr = config.geometry.lineAddr addr ∧
        (cache.mshrQueue.entries index).isSecure = secure

/-- What the marks say when these packets were accepted. -/
structure Marked (cache : Cache config) (accepted : List Packet) : Prop where
  cached : ∀ addr secure way, cache.tags.findBlock addr secure = some way →
    (cache.tags.blks (config.geometry.extractSet addr) way).prefetched =
      !asked config accepted addr secure
  waiting : ∀ index ∈ cache.mshrQueue.allocatedList, fromCore cache index =
    asked config accepted (cache.mshrQueue.entries index).blkAddr
      (cache.mshrQueue.entries index).isSecure
  fetched : ∀ addr secure, asked config accepted addr secure = true → Fetched cache addr secure
  blank : ∀ set way, (cache.tags.blks set way).valid = false →
    (cache.tags.blks set way).prefetched = false

theorem marked_new (config : CacheConfig) (writeAllocator : Option WriteAllocator) :
    Marked (Cache.new config writeAllocator) [] := by
  refine ⟨?_, ?_, ?_, fun _ _ _ => rfl⟩
  · intro addr secure way hfound
    cases Tags.findBlock_eq_some hfound
  · intro index hindex
    cases hindex
  · intro addr secure hasked
    cases hasked

theorem Marked.kept {cache next : Cache config} {accepted : List Packet}
    (h : Marked cache accepted) (hkept : Kept cache next) (hmarks : SameMarks cache next) :
    Marked next accepted := by
  have hprefetched : ∀ set way, (next.tags.blks set way).prefetched =
      (cache.tags.blks set way).prefetched := fun set way => hmarks (.slot set way)
  refine ⟨?_, ?_, ?_, ?_⟩
  · intro addr secure way hfound
    rw [Tags.findBlock_kept hkept.lines] at hfound
    rw [hprefetched]
    exact h.cached addr secure way hfound
  · unfold fromCore targetsOf
    rw [hkept.mshrQueue]
    exact h.waiting
  · intro addr secure hasked
    unfold Fetched
    rw [Tags.findBlock_kept hkept.lines, hkept.mshrQueue]
    exact h.fetched addr secure hasked
  · intro set way hinvalid
    rw [(hkept.lines set way).valid] at hinvalid
    rw [hprefetched]
    exact h.blank set way hinvalid

/-! A packet comes to an entry. -/

/-- Nobody has asked for a line that is neither cached nor awaited. -/
theorem Marked.unasked {cache before next : Cache config} {accepted : List Packet}
    (h : Marked cache accepted) (htracked : Tracked cache) (hnext : Tracked next)
    (hqueue : before.mshrQueue = cache.mshrQueue) {index : Fin config.mshrs} {mshr : Mshr}
    {target : Target} {pkt : Packet} (hstands : Stands target pkt)
    (hcame : Came before next index mshr target)
    (habsent : cache.tags.findBlock pkt.addr pkt.isSecure = none)
    (hfresh : index ∉ cache.mshrQueue.allocatedList) :
    asked config accepted pkt.addr pkt.isSecure = false := by
  have hindex : index ∈ next.mshrQueue.allocatedList := (hcame.listed index).mpr (.inr rfl)
  obtain ⟨haddr, hsecure⟩ := hcame.block hstands (hnext.waits index hindex)
  rw [Bool.eq_false_iff]
  intro hasked
  obtain hfound | ⟨other, hother, haddr', hsecure'⟩ := h.fetched _ _ hasked
  · rw [habsent] at hfound
    cases hfound
  · obtain ⟨hlisted, hsame, hspace⟩ := hcame.stays hqueue htracked hnext hother
    have heq := hnext.unique other hlisted index hindex
      (hsame.trans (haddr'.trans haddr.symm)) (hspace.trans (hsecure'.trans hsecure.symm))
    exact hfresh (heq ▸ hother)

theorem Marked.came {cache before next : Cache config} {accepted accepted' : List Packet}
    (h : Marked cache accepted) (htracked : Tracked cache) (hnext : Tracked next)
    (hqueue : before.mshrQueue = cache.mshrQueue) {index : Fin config.mshrs} {mshr : Mshr}
    {target : Target} {pkt : Packet} (hstands : Stands target pkt)
    (hcame : Came before next index mshr target)
    (habsent : cache.tags.findBlock pkt.addr pkt.isSecure = none)
    (hasked : ∀ addr secure, asked config accepted' addr secure =
      (asked config accepted addr secure ||
        (target.source == .fromCPU && asksFor config pkt addr secure)))
    (other : Fin config.mshrs) (hother : other ∈ next.mshrQueue.allocatedList) :
    fromCore next other = asked config accepted' (next.mshrQueue.entries other).blkAddr
      (next.mshrQueue.entries other).isSecure := by
  have hindex : index ∈ next.mshrQueue.allocatedList := (hcame.listed index).mpr (.inr rfl)
  obtain ⟨haddr, hsecure⟩ := hcame.block hstands (hnext.waits index hindex)
  have hbefore : fromCore before other = asked config accepted
      (next.mshrQueue.entries other).blkAddr (next.mshrQueue.entries other).isSecure := by
    by_cases hlisted : other ∈ cache.mshrQueue.allocatedList
    · obtain ⟨-, hsame, hspace⟩ := hcame.stays hqueue htracked hnext hlisted
      rw [hsame, hspace, fromCore, targetsOf, hqueue]
      exact h.waiting other hlisted
    · obtain hlisted' | rfl := (hcame.listed other).mp hother
      · exact absurd (hqueue ▸ hlisted') hlisted
      rw [haddr, hsecure, asked_lineAddr,
        h.unasked htracked hnext hqueue hstands hcame habsent hlisted]
      obtain ⟨hlisted', -⟩ | ⟨-, hnone, -⟩ := hcame.place
      · exact absurd (hqueue ▸ hlisted') hlisted
      · rw [fromCore, hnone]
        rfl
  have hline : asksFor config pkt (next.mshrQueue.entries other).blkAddr
      (next.mshrQueue.entries other).isSecure = (other == index) := by
    rw [Bool.eq_iff_iff, beq_iff_eq, asksFor_iff, (hnext.waits other hother).aligned]
    constructor
    · rintro ⟨haddr', hsecure'⟩
      exact hnext.unique other hother index hindex (haddr'.symm.trans haddr.symm)
        (hsecure'.symm.trans hsecure.symm)
    · rintro rfl
      exact ⟨haddr.symm, hsecure.symm⟩
  rw [fromCore_came hcame other, hbefore, hasked, hline, Bool.and_comm (other == index)]

/-- A packet joined the line of those that wait, and no block has changed its mark. -/
theorem Marked.joined {cache before next : Cache config} {accepted accepted' : List Packet}
    (h : Marked cache accepted) (htracked : Tracked cache) (hnext : Tracked next)
    (hqueue : before.mshrQueue = cache.mshrQueue) {index : Fin config.mshrs} {mshr : Mshr}
    {target : Target} {pkt : Packet} (hstands : Stands target pkt)
    (hcame : Came before next index mshr target)
    (habsent : cache.tags.findBlock pkt.addr pkt.isSecure = none)
    (hasked : ∀ addr secure, asked config accepted' addr secure =
      (asked config accepted addr secure ||
        (target.source == .fromCPU && asksFor config pkt addr secure)))
    (hlines : ∀ set way, CacheBlk.LineKept (cache.tags.blks set way) (next.tags.blks set way))
    (hmarks : SameMarks cache next) : Marked next accepted' := by
  have hprefetched : ∀ set way, (next.tags.blks set way).prefetched =
      (cache.tags.blks set way).prefetched := fun set way => hmarks (.slot set way)
  refine ⟨?_, h.came htracked hnext hqueue hstands hcame habsent hasked, ?_, ?_⟩
  · intro addr secure way hfound
    rw [Tags.findBlock_kept hlines] at hfound
    have hapart : asksFor config pkt addr secure = false :=
      asksFor_eq_false cache.tags (by rw [habsent, hfound]; exact (Option.some_ne_none way).symm)
    rw [hprefetched, hasked, hapart, Bool.and_false, Bool.or_false]
    exact h.cached addr secure way hfound
  · intro addr secure hbefore
    rw [hasked, Bool.or_eq_true, Bool.and_eq_true] at hbefore
    unfold Fetched
    rw [Tags.findBlock_kept hlines]
    obtain hbefore | ⟨-, hpkt⟩ := hbefore
    · refine (h.fetched addr secure hbefore).imp id ?_
      rintro ⟨other, hother, haddr, hsecure⟩
      obtain ⟨hlisted, hsame, hspace⟩ := hcame.stays hqueue htracked hnext hother
      exact ⟨other, hlisted, hsame.trans haddr, hspace.trans hsecure⟩
    · obtain ⟨hline, hspace⟩ := asksFor_iff.mp hpkt
      have hlisted : index ∈ next.mshrQueue.allocatedList := (hcame.listed index).mpr (.inr rfl)
      obtain ⟨haddr, hsecure⟩ := hcame.block hstands (hnext.waits index hlisted)
      exact .inr ⟨index, hlisted, haddr.trans hline, hsecure.trans hspace⟩
  · intro set way hinvalid
    rw [(hlines set way).valid] at hinvalid
    rw [hprefetched]
    exact h.blank set way hinvalid

/-- A plain request finds its line, or it comes to an entry. -/
theorem recvTimingReq_joins {cache next : Cache config} (h : Ready cache) {pkt : Packet}
    (hplain : pkt.cmd.isPlain = true) {random : Fin config.geometry.assoc}
    (hreq : cache.recvTimingReq pkt random = .ok next) :
    ((cache.tags.findBlock pkt.addr pkt.isSecure).isSome = true ∧
        next.mshrQueue = cache.mshrQueue) ∨
      (cache.tags.findBlock pkt.addr pkt.isSecure = none ∧
        ∃ before index mshr target, before.mshrQueue = cache.mshrQueue ∧ Stands target pkt ∧
          target.source ≠ .fromPrefetcher ∧ Came before next index mshr target) := by
  obtain ⟨seen, handled, hkept, rfl, houtcome⟩ := recvTimingReq_plain h.sound hplain hreq
  obtain ⟨hpermits, hfinished⟩ | ⟨hrefused, hmiss⟩ := houtcome
  · refine .inl ⟨?_, ?_⟩
    · cases hfind : cache.tags.findBlock pkt.addr pkt.isSecure with
      | none =>
          rw [Cache.findBlock, hfind] at hpermits
          cases hpermits
      | some way => rfl
    · rw [← hkept.mshrQueue, ← hfinished.kept.mshrQueue]
      split <;> rfl
  · obtain ⟨before, htouched, -, ⟨hcmd, -⟩ | ⟨index, mshr, target, hstands, hsource, hcame⟩⟩ :=
      came_of_miss (h.kept hkept).sound hmiss
    · rw [hcmd] at hplain
      cases hplain
    · refine .inr ⟨h.tracked.absent_of_refused hrefused, before, index, mshr, target,
        htouched.mshrQueue.trans hkept.mshrQueue, hstands, ?_, ?_⟩
      · intro hpref
        rw [hsource hpref] at hplain
        cases hplain
      · split
        · exact ⟨hcame.entries, hcame.waiting, hcame.numbered, hcame.order, hcame.reserve,
            hcame.place⟩
        · exact hcame

/-- A request that finds its line clears its mark. -/
theorem Marked.hit {cache next : Cache config} {accepted : List Packet} (h : Marked cache accepted)
    (htracked : Tracked cache) {pkt : Packet} {way : Fin config.geometry.assoc}
    (hfound : cache.tags.findBlock pkt.addr pkt.isSecure = some way)
    (hqueue : next.mshrQueue = cache.mshrQueue)
    (hlines : ∀ set way, CacheBlk.LineKept (cache.tags.blks set way) (next.tags.blks set way))
    (hmarks : ∀ set way', (next.tags.blks set way').prefetched =
      if set = config.geometry.extractSet pkt.addr ∧
          cache.tags.findBlock pkt.addr pkt.isSecure = some way' then false
      else (cache.tags.blks set way').prefetched) : Marked next (accepted ++ [pkt]) := by
  refine ⟨?_, ?_, ?_, ?_⟩
  · intro addr secure way' hfound'
    rw [Tags.findBlock_kept hlines] at hfound'
    rw [hmarks, asked_append]
    cases hsame : asksFor config pkt addr secure with
    | true =>
        have hset : config.geometry.extractSet addr = config.geometry.extractSet pkt.addr := by
          rw [← Geometry.extractSet_lineAddr, ← (asksFor_iff.mp hsame).1,
            Geometry.extractSet_lineAddr]
        rw [if_pos ⟨hset, (findBlock_of_asksFor cache.tags hsame).trans hfound'⟩, Bool.or_true]
        rfl
    | false =>
        -- the block found belongs to another line
        have hother : ¬ (config.geometry.extractSet addr = config.geometry.extractSet pkt.addr ∧
            cache.tags.findBlock pkt.addr pkt.isSecure = some way') := by
          rintro ⟨hset, hway⟩
          obtain ⟨-, htag, hsecure⟩ := Tags.matchTag_eq_true.mp (Tags.findBlock_matches hfound')
          obtain ⟨-, htag', hsecure'⟩ := Tags.matchTag_eq_true.mp (Tags.findBlock_matches hway)
          rw [hset] at htag hsecure
          have hline := asksFor_iff.mpr ⟨Geometry.lineAddr_eq_of_extract_eq config.geometry
            hset.symm (htag'.symm.trans htag), hsecure'.symm.trans hsecure⟩
          rw [hsame] at hline
          cases hline
        rw [if_neg hother, Bool.or_false]
        exact h.cached addr secure way' hfound'
  · intro index hindex
    rw [hqueue] at hindex
    have hapart : asksFor config pkt (cache.mshrQueue.entries index).blkAddr
        (cache.mshrQueue.entries index).isSecure = false := asksFor_eq_false cache.tags
      (by rw [hfound, htracked.absent index hindex]; exact Option.some_ne_none way)
    rw [asked_append, fromCore, targetsOf, hqueue, hapart, Bool.or_false]
    exact h.waiting index hindex
  · intro addr secure hasked
    rw [asked_append, Bool.or_eq_true] at hasked
    unfold Fetched
    rw [Tags.findBlock_kept hlines, hqueue]
    obtain hbefore | hpkt := hasked
    · exact h.fetched addr secure hbefore
    · rw [← findBlock_of_asksFor cache.tags hpkt, hfound]
      exact .inl rfl
  · intro set way' hinvalid
    rw [(hlines set way').valid] at hinvalid
    rw [hmarks, h.blank set way' hinvalid]
    exact ite_self _

theorem Marked.recvTimingReq (hprefetcher : config.hasPrefetcher = true)
    {cache next : Cache config} {accepted : List Packet} (h : Marked cache accepted)
    (hready : Ready cache) (hnext : Ready next) {pkt : Packet}
    (hplain : pkt.cmd.isPlain = true) {random : Fin config.geometry.assoc}
    (hreq : cache.recvTimingReq pkt random = .ok next) : Marked next (accepted ++ [pkt]) := by
  have hlines := hready.recvTimingReq_lines hplain hreq
  have hmarks := recvTimingReq_prefetched hprefetcher hready hplain hreq
  obtain ⟨hfound, hqueue⟩ | ⟨habsent, before, index, mshr, target, hqueue, hstands, hsource,
    hcame⟩ := recvTimingReq_joins hready hplain hreq
  · obtain ⟨way, hway⟩ := Option.isSome_iff_exists.mp hfound
    exact h.hit hready.tracked hway hqueue hlines hmarks
  · have hindex := (hcame.listed index).mpr (.inr rfl)
    have hcore := (source_of_prompt (hnext.prompt index hindex) hcame.mem).resolve_right hsource
    obtain ⟨seen, hseen, ⟨hpermits, -⟩ | ⟨-, hsame⟩⟩ :=
      recvTimingReq_marks hready.sound hplain hreq
    · rw [Cache.findBlock, habsent] at hpermits
      cases hpermits
    · refine h.joined hready.tracked hnext.tracked hqueue hstands hcame habsent ?_ hlines
        (sameMarks_quiet.trans hseen hsame)
      intro addr secure
      rw [asked_append, hcore]
      rfl

theorem Marked.getNextQueueEntry {cache next : Cache config} {accepted : List Packet}
    (h : Marked cache accepted) (hready : Ready cache) (hnext : Ready next)
    {prefetch : Option Packet} {entry : Option (EntryRef config)}
    (hprefetch : ∀ pkt, prefetch = some pkt → pkt.cmd = .hardPFReq)
    (hchosen : cache.getNextQueueEntry prefetch = .ok (entry, next)) : Marked next accepted := by
  obtain ⟨rfl, -⟩ | ⟨pkt, index, hpkt, -, hstarted⟩ :=
    getNextQueueEntry_parts hready.sound.writeBuffer.2 hchosen
  · exact h
  · obtain ⟨mshr, target, hstands, hsource, hcame⟩ :=
      came_of_missBuffer hready.sound hstarted.allocated
    obtain ⟨started, -, hmissed, -⟩ := allocateMissBuffer_missed hstarted.allocated
    have habsent : cache.tags.findBlock pkt.addr pkt.isSecure = none := by
      have huncached := hstarted.uncached
      rw [Cache.findBlock, Option.map_eq_none_iff] at huncached
      exact (findBlock_lineAddr cache.tags pkt.addr pkt.isSecure).symm.trans huncached
    refine h.joined hready.tracked hnext.tracked rfl hstands hcame habsent ?_ hmissed.kept.lines
      (sameMarks_quiet.allocateMissBuffer sameMarks_counts hstarted.allocated)
    intro addr secure
    rw [hsource.mpr (hprefetch pkt hpkt)]
    exact (Bool.or_false _).symm

/-- An entry that is answered leaves its line behind, marked unless the processor
waited for it. -/
theorem Marked.sendMSHRQueuePacket {cache next : Cache config} {accepted : List Packet}
    (h : Marked cache accepted) (hready : Ready cache) {index : Fin config.mshrs}
    {data : List UInt8} {random : Fin config.geometry.assoc} {waiting : Bool}
    {flight : Option Packet}
    (hsend : cache.sendMSHRQueuePacket index (some data) random = .ok (waiting, next, flight)) :
    Marked next accepted := by
  obtain ⟨hkept, hmarks⟩ | ⟨way, free, hreleased, hmem, hinvalid, hinstalled, hmarks⟩ :=
    sendMSHRQueuePacket_marks hready h.blank hsend
  · exact h.kept hkept hmarks
  have habsent := hready.tracked.absent index hmem
  have hfilled := findBlock_installed hinstalled hinvalid
  refine ⟨?_, ?_, ?_, ?_⟩
  · intro addr secure way' hfound
    rw [hmarks]
    by_cases hsame : config.geometry.lineAddr addr =
        config.geometry.lineAddr (cache.mshrQueue.entries index).blkAddr ∧
          secure = (cache.mshrQueue.entries index).isSecure
    · obtain ⟨hline, rfl⟩ := hsame
      have hset : config.geometry.extractSet addr =
          config.geometry.extractSet (cache.mshrQueue.entries index).blkAddr := by
        rw [← Geometry.extractSet_lineAddr, hline, Geometry.extractSet_lineAddr]
      rw [findBlock_of_lineAddr next.tags hline,
        findBlock_installed_self hinstalled hinvalid habsent, Option.some.injEq] at hfound
      rw [if_pos ⟨hset, hfound.symm⟩, h.waiting index hmem, ← asked_lineAddr, ← hline,
        asked_lineAddr]
    · rw [findBlock_installed_other hinstalled hinvalid hsame] at hfound
      have hother : ¬ (config.geometry.extractSet addr =
          config.geometry.extractSet (cache.mshrQueue.entries index).blkAddr ∧ way' = way) := by
        rintro ⟨hset, rfl⟩
        have hvalid := Tags.findBlock_eq_some hfound
        rw [hset, hinvalid] at hvalid
        cases hvalid
      rw [if_neg hother]
      exact h.cached addr secure way' hfound
  · intro other hother
    obtain ⟨-, hold, hentry⟩ := hready.sound.represents.released_cases hreleased hother
    rw [fromCore, targetsOf, hentry]
    exact h.waiting other hold
  · intro addr secure hasked
    obtain hfound | ⟨other, hother, haddr, hsecure⟩ := h.fetched addr secure hasked
    · exact .inl ((hfilled addr secure).mpr (.inl hfound))
    · by_cases heq : other = index
      · subst heq
        refine .inl ((hfilled addr secure).mpr (.inr ⟨?_, hsecure.symm⟩))
        rw [haddr, Geometry.lineAddr_lineAddr]
      · refine .inr ⟨other, ?_, ?_⟩
        · rw [hreleased.allocatedList]
          exact (List.mem_erase_of_ne heq).mpr hother
        · rw [hreleased.entries, Function.update_of_ne heq]
          exact ⟨haddr, hsecure⟩
  · intro set way' hempty
    rw [hmarks]
    split
    · rename_i hself
      rw [hself.1, hself.2, hinstalled.valid] at hempty
      cases hempty
    · rename_i hother
      rw [(hinstalled.others set way' hother).valid] at hempty
      exact h.blank set way' hempty

theorem step_marked (hprefetcher : config.hasPrefetcher = true) (system : System config)
    (label : Label config) (next : System config) (hlabel : orderlyStep label = true)
    (hinv : Ready system.cache ∧ Marked system.cache system.accepted)
    (hstep : system.step label = .ok next) :
    Ready next.cache ∧ Marked next.cache next.accepted := by
  obtain ⟨hready, h⟩ := hinv
  have hnext := step_ready system label next hlabel hready hstep
  refine ⟨hnext, ?_⟩
  have hfresh := newPtr_kept system.cache
  have hnewPtr : SameMarks system.cache system.cache.newPtr.2 :=
    sameMarks_quiet.besides rfl rfl rfl rfl (Nat.le_succ _)
  cases label with
  | recvTimingReq pkt random =>
      simp only [orderlyStep, Bool.and_eq_true] at hlabel
      obtain ⟨cache, hreq, rfl⟩ := System.step_recvTimingReq hstep
      exact (h.kept hfresh hnewPtr).recvTimingReq hprefetcher (hready.kept hfresh) hnext
        (by exact hlabel.1.1) hreq
  | getNextQueueEntry prefetch =>
      obtain ⟨entry, cache, hchosen, rfl⟩ := System.step_getNextQueueEntry hstep
      exact (h.kept hfresh hnewPtr).getNextQueueEntry (hready.kept hfresh) hnext
        (fun pkt hpkt => (prefetch_orderly _ hlabel pkt hpkt).1) hchosen
  | sendMSHRQueuePacket index reply random =>
      obtain ⟨data, rfl⟩ := Option.isSome_iff_exists.mp hlabel
      obtain ⟨waiting, cache, flight, hsend, rfl⟩ := System.step_sendMSHRQueuePacket hstep
      exact h.sendMSHRQueuePacket hready hsend
  | handleTimingRes pkt random => cases hlabel
  | recvTimingResp pkt random => cases hlabel

/-- In every orderly run of a cache with a prefetcher: a line that is cached is marked
as prefetched exactly when no packet that was accepted asked for it; an entry that
waits has a target of the processor exactly when some packet asked for its line; and
every line that was asked for is cached or awaited. -/
theorem marked_lines_are_the_unasked_ones {writeAllocator : Option WriteAllocator}
    {labels : List (Label config)} {system : System config}
    (hprefetcher : config.hasPrefetcher = true)
    (hlabels : ∀ label ∈ labels, orderlyStep label = true)
    (hrun : Transition.run System.step (System.new config writeAllocator) labels = .ok system) :
    (∀ addr secure, (system.cache.findBlock addr secure).isSome = true →
      (hasBeenPrefetched system.cache addr secure = true ↔ ∀ pkt ∈ system.accepted,
        ¬ (config.geometry.lineAddr pkt.addr = config.geometry.lineAddr addr ∧
          pkt.isSecure = secure))) ∧
    (∀ index ∈ system.cache.mshrQueue.allocatedList,
      (fromCore system.cache index = true ↔ ∃ pkt ∈ system.accepted,
        config.geometry.lineAddr pkt.addr = (system.cache.mshrQueue.entries index).blkAddr ∧
          pkt.isSecure = (system.cache.mshrQueue.entries index).isSecure)) ∧
    ∀ pkt ∈ system.accepted, Fetched system.cache pkt.addr pkt.isSecure := by
  obtain ⟨hready, h⟩ := Transition.run_invariant (fun label => orderlyStep label = true)
    (step_marked hprefetcher) hlabels hrun
    ⟨ready_new config writeAllocator, marked_new config writeAllocator⟩
  refine ⟨?_, ?_, ?_⟩
  · intro addr secure hcached
    rw [Cache.findBlock, Option.isSome_map] at hcached
    obtain ⟨way, hfound⟩ := Option.isSome_iff_exists.mp hcached
    have hmark := h.cached addr secure way hfound
    rw [hasBeenPrefetched, Cache.findBlock, hfound, Option.map_some, Option.any_some, getBlk,
      hmark, Bool.not_eq_true', asked, List.any_eq_false]
    simp only [asksFor_iff]
  · intro index hindex
    rw [h.waiting index hindex, asked, List.any_eq_true]
    simp only [asksFor_iff, (hready.tracked.waits index hindex).aligned]
  · intro pkt hpkt
    refine h.fetched pkt.addr pkt.isSecure ?_
    rw [asked, List.any_eq_true]
    exact ⟨pkt, hpkt, asksFor_iff.mpr ⟨rfl, rfl⟩⟩

/-- Two lines are fetched ahead, and one of them is asked for. -/
def halfUsed : List (Label prefetchingParams) :=
  let packet addr cmd := Packet.ofRequest 0 (Request.physical addr 4 0 0) cmd
  let way := prefetchingParams.geometry.firstWay
  let send := Label.sendMSHRQueuePacket ⟨0, prefetchingParams.mshrs_pos⟩
    (some (List.replicate 16 7)) way
  [.getNextQueueEntry (some (packet 0x50 .hardPFReq)), send,
    .getNextQueueEntry (some (packet 0x60 .hardPFReq)), send,
    .recvTimingReq (packet 0x64 .readReq) way]

theorem marked_lines_are_the_unasked_ones_halfUsed :
    ∃ system, Transition.run System.step (System.new prefetchingParams none) halfUsed =
        .ok system ∧
      hasBeenPrefetched system.cache 0x50 false = true ∧
      hasBeenPrefetched system.cache 0x60 false = false := by
  obtain ⟨system, hrun, hseen⟩ := exists_ok_of_observed
    (show ((Transition.run System.step (System.new prefetchingParams none)
      halfUsed).toOption.map fun system => ((system.cache.findBlock 0x50 false).isSome,
        (system.cache.findBlock 0x60 false).isSome,
        system.accepted.map fun pkt => (prefetchingParams.geometry.lineAddr pkt.addr,
          pkt.isSecure))) = some (true, true, [(0x60, false)]) by decide +kernel)
  obtain ⟨hcached, hseen⟩ := Prod.mk.inj hseen
  obtain ⟨hcached', hseen⟩ := Prod.mk.inj hseen
  obtain ⟨pkt, haccepted, hkey⟩ := List.map_eq_singleton_iff.mp hseen
  obtain ⟨hline, hsecure⟩ := Prod.mk.inj hkey
  obtain ⟨hmarked, -, -⟩ := marked_lines_are_the_unasked_ones rfl (by decide +kernel) hrun
  refine ⟨system, hrun, (hmarked 0x50 false hcached).mpr ?_, ?_⟩
  · rintro other hother ⟨hsame, -⟩
    rw [haccepted, List.mem_singleton] at hother
    rw [hother, hline] at hsame
    exact absurd hsame (by decide)
  · rw [Bool.eq_false_iff]
    intro hmark
    have hunasked := (hmarked 0x60 false hcached').mp hmark pkt (by simp [haccepted])
    exact hunasked ⟨hline.trans (by decide), hsecure⟩

end KuiperCache.PrefetchMark
