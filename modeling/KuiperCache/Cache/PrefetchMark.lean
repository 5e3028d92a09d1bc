import KuiperCache.Cache.Lines
import KuiperCache.Cache.Permanent
import KuiperCache.Cache.Shortage

/-! The mark of prefetched lines.  It is set when a line comes in that only the
prefetcher waited for, cleared when a request finds the line, and left alone by
everything else. -/
namespace KuiperCache.PrefetchMark

open Checked Cache MissTracking Permanent Shortage Turns

variable {config : CacheConfig}

/-- The processor waits for the line of the entry. -/
def fromCore (cache : Cache config) (index : Fin config.mshrs) : Bool :=
  (targetsOf cache index).any fun target => target.source == .fromCPU

/-! What is done to the marks. -/

def SameMark (before after : CacheBlk) : Prop := after.prefetched = before.prefetched

theorem sameMark_edits : QuietEdits SameMark where
  refl _ := rfl
  trans _ _ _ hab hbc := hbc.trans hab
  readable _ := rfl
  writable _ := rfl
  cleared blk bit := by cases bit <;> rfl
  counted _ := rfl
  tagged _ _ _ _ := rfl
  inserted _ _ _ _ _ _ := rfl

/-- No mark is set or cleared. -/
def SameMarks (before after : Cache config) : Prop := Blockwise SameMark before after

theorem sameMarks_quiet : Quiet (@SameMarks config) := blockwise_quiet sameMark_edits

theorem sameMarks_counts : Counts (@SameMarks config) := blockwise_counts sameMark_edits

theorem sameMarks_adapts : Adapts (@SameMarks config) := blockwise_adapts sameMark_edits

theorem sameMarks_dirties : Dirties (@SameMarks config) :=
  fun cache ref => .setBlk sameMark_edits cache ref rfl

/-- A plain request clears the mark of the line it finds, and touches no other. -/
theorem recvTimingReq_marks {cache next : Cache config} (hsound : Sound cache) {pkt : Packet}
    (hplain : pkt.cmd.isPlain = true) {random : Fin config.geometry.assoc}
    (hreq : cache.recvTimingReq pkt random = .ok next) :
    ∃ seen, SameMarks cache seen ∧
      ((cache.permits pkt (cache.findBlock pkt.addr pkt.isSecure) = .ok true ∧
          SameMarks (seen.clearPrefetched (cache.findBlock pkt.addr pkt.isSecure)) next) ∨
        (cache.permits pkt (cache.findBlock pkt.addr pkt.isSecure) = .ok false ∧
          SameMarks seen next)) := by
  obtain ⟨-, -, -, -, -, -, -, hcmd, -⟩ := isPlain_attributes hplain
  obtain ⟨reopened, accessed, handled, hsame, haccess, -, hquiet, hhandled, rfl⟩ :=
    recvTimingReq_parts hsound.writeBuffer.1 hreq
  rw [hsame hcmd] at haccess
  obtain ⟨hpkt, hblk, -, hpermits⟩ := access_plain hsound.writeBuffer.1 hplain haccess
  rw [hpkt, hblk] at hhandled
  refine ⟨accessed.cache, hquiet SameMarks sameMarks_quiet fun _ => sameMarks_dirties, ?_⟩
  have hlast : SameMarks handled
      (if config.hasPrefetcher then handled.schedMemSideSendEvent else handled) := by
    split
    · exact sameMarks_quiet.besides rfl rfl rfl rfl le_rfl
    · exact sameMarks_quiet.refl handled
  cases hsatisfied : accessed.satisfied with
  | true =>
      rw [hsatisfied, if_pos rfl] at hhandled
      rw [hsatisfied] at hpermits
      exact .inl ⟨hpermits, sameMarks_quiet.trans
        (sameMarks_quiet.handleTimingReqHit sameMarks_counts hhandled) hlast⟩
  | false =>
      rw [hsatisfied, if_neg Bool.false_ne_true] at hhandled
      rw [hsatisfied] at hpermits
      exact .inr ⟨hpermits, sameMarks_quiet.trans
        (sameMarks_quiet.handleTimingReqMiss sameMarks_counts sameMarks_adapts hhandled) hlast⟩

/-- Serving the targets of a list tells whether the CPU or the prefetcher had asked. -/
theorem serviceTargets_seen {pkt : Packet} {blk : Option (BlkRef config.geometry)}
    {list : List Target} {serviced final : Serviced config}
    (h : list.foldlM (serviceTarget pkt blk) serviced = .ok final) :
    final.fromCore = (serviced.fromCore || list.any fun target => target.source == .fromCPU) ∧
      final.fromPref =
        (serviced.fromPref || list.any fun target => target.source == .fromPrefetcher) := by
  induction list generalizing serviced with
  | nil =>
      rw [List.foldlM_nil, pure_eq_ok] at h
      subst h
      simp
  | cons target rest ih =>
      simp only [List.foldlM_cons, bind_eq_ok] at h
      obtain ⟨next, hnext, hrest⟩ := h
      obtain ⟨hcore, hpref⟩ := ih hrest
      rw [hcore, hpref, List.any_cons, List.any_cons]
      unfold serviceTarget at hnext
      split at hnext
      · rename_i hsource
        simp only [bind_eq_ok, pure_eq_ok] at hnext
        obtain ⟨⟨tgtPkt, cache⟩, -, made, -, resp, -, rfl⟩ := hnext
        simp [hsource, show (Source.fromCPU == .fromPrefetcher) = false from rfl]
      · rename_i hsource
        simp only [bind_eq_ok, check_eq_ok, exists_const, pure_eq_ok] at hnext
        obtain ⟨-, rfl⟩ := hnext
        simp [hsource, show (Source.fromPrefetcher == .fromCPU) = false from rfl]
      · cases hnext

/-- The block served is marked when only the prefetcher had asked for it. -/
theorem serviceMSHRTargets_marks {cache next : Cache config} {index : Fin config.mshrs}
    {pkt : Packet} {blk : Option (BlkRef config.geometry)}
    (h : cache.serviceMSHRTargets index pkt blk = .ok next) :
    ∃ ready left served, (cache.mshrQueue.entries index).extractServiceableTargets pkt.cmd =
        .ok (ready, left) ∧ SameMarks cache served ∧
      next = if (!ready.list.any fun target => target.source == .fromCPU) &&
          ready.list.any fun target => target.source == .fromPrefetcher then
        served.setPrefetched blk else served := by
  simp only [Cache.serviceMSHRTargets, bind_eq_ok, check_eq_ok, exists_const, pure_eq_ok] at h
  obtain ⟨-, -, ⟨ready, left⟩, hextract, serviced, hserviced, -, rfl⟩ := h
  obtain ⟨answers, -, hcache⟩ := serviceTargets_eq_ok hserviced
  obtain ⟨hcore, hpref⟩ := serviceTargets_seen hserviced
  refine ⟨ready, left, serviced.cache, hextract, ?_, ?_⟩
  · rw [hcache]
    exact sameMarks_quiet.besides rfl rfl rfl rfl le_rfl
  · rw [hcore, hpref]
    simp only [Bool.false_or]

/-! Who waits. -/

theorem fromCore_came {before after : Cache config} {index : Fin config.mshrs} {mshr : Mshr}
    {target : Target} (hcame : Came before after index mshr target) (other : Fin config.mshrs) :
    fromCore after other = (fromCore before other ||
      (other == index && target.source == .fromCPU)) := by
  unfold fromCore targetsOf
  rw [hcame.entries, Function.update_apply]
  split
  · rename_i heq
    rw [hcame.waiting, heq, List.any_append, List.any_cons, List.any_nil, Bool.or_false,
      beq_self_eq_true, Bool.true_and]
    rfl
  · rename_i hne
    rw [beq_eq_false_iff_ne.mpr hne, Bool.false_and, Bool.or_false]

/-- Nobody but the processor and the prefetcher waits in an orderly run. -/
theorem source_of_prompt {mshr : Mshr} {blkSize : Nat} (hprompt : Mshr.Prompt blkSize mshr)
    {target : Target} (htarget : target ∈ mshr.waiting) :
    target.source = .fromCPU ∨ target.source = .fromPrefetcher := by
  rw [Mshr.waiting, hprompt.deferred.1, List.append_nil, List.mem_map] at htarget
  obtain ⟨original, hmem, rfl⟩ := htarget
  exact (hprompt.serviceable original hmem).origin.imp And.left And.left

/-- Nothing is deferred, so everybody who waits is served. -/
theorem fromCore_prompt {cache : Cache config} {index : Fin config.mshrs}
    (hprompt : Mshr.Prompt config.blkSize (cache.mshrQueue.entries index)) :
    fromCore cache index = (cache.mshrQueue.entries index).targets.list.any fun target =>
      target.source == .fromCPU := by
  rw [fromCore, targetsOf, Mshr.waiting, hprompt.deferred.1, List.append_nil, List.any_map]
  rfl

/-- Where the processor does not wait, the prefetcher does. -/
theorem prefetched_of_idle {list : List Target} {blkSize : Nat} (hlist : list ≠ [])
    (hserviceable : ∀ target ∈ list, target.Serviceable blkSize)
    (hcore : (list.any fun target => target.source == .fromCPU) = false) :
    (list.any fun target => target.source == .fromPrefetcher) = true := by
  obtain ⟨first, rest, rfl⟩ := List.exists_cons_of_ne_nil hlist
  obtain ⟨hsource, -⟩ | ⟨hsource, -⟩ := (hserviceable first List.mem_cons_self).origin
  · rw [List.any_cons, hsource] at hcore
    cases hcore
  · rw [List.any_cons, hsource]
    rfl

/-- An entry with nothing deferred marks the block unless the processor waits for it. -/
theorem serviceMSHRTargets_prompt_marks {cache next : Cache config} {index : Fin config.mshrs}
    {pkt : Packet} (hcmd : pkt.cmd = .readExResp)
    (hprompt : Mshr.Prompt config.blkSize (cache.mshrQueue.entries index))
    (hheld : (cache.mshrQueue.entries index).targets.list ≠ [])
    {blk : Option (BlkRef config.geometry)}
    (h : cache.serviceMSHRTargets index pkt blk = .ok next) :
    ∃ served, SameMarks cache served ∧
      next = if fromCore cache index then served else served.setPrefetched blk := by
  obtain ⟨ready, left, served, hextract, hserved, hnext⟩ := serviceMSHRTargets_marks h
  obtain ⟨ready', targets, hextract', hready, -⟩ := hprompt.extractServiceableTargets
    (show pkt.cmd ≠ .readRespWithInvalidate by simp [hcmd])
  rw [hextract', Except.ok.injEq, Prod.mk.injEq] at hextract
  rw [← hextract.1, hready, ← fromCore_prompt hprompt] at hnext
  refine ⟨served, hserved, hnext.trans ?_⟩
  cases hcore : fromCore cache index with
  | true => rfl
  | false =>
      have hpref := prefetched_of_idle hheld hprompt.serviceable
        ((fromCore_prompt hprompt).symm.trans hcore)
      rw [hpref]
      rfl

/-- A line that came in is still in the same way later on. -/
theorem way_of_lasting {cache filled next : Cache config} {addr : Addr} {secure : Bool}
    {way way' : Fin config.geometry.assoc}
    (hfilled : Installed cache.tags filled.tags addr secure way)
    (hinvalid : (cache.tags.blks (config.geometry.extractSet addr) way).valid = false)
    (hlasting : Blockwise Lasting filled next)
    (hnext : Installed cache.tags next.tags addr secure way') : way = way' := by
  by_contra hne
  have hvalid := ((hlasting (.slot (config.geometry.extractSet addr) way)).line hfilled.valid).1
  have hline := (hnext.others (config.geometry.extractSet addr) way fun heq => hne heq.2).valid
  rw [hinvalid] at hline
  rw [getBlk, hline] at hvalid
  cases hvalid

/-- The answer to a line read marks the line unless the processor waits for it. -/
theorem recvTimingResp_marks {cache next : Cache config} {pkt : Packet}
    (hpkt : IsLine config pkt) {index : Fin config.mshrs} (hpop : popMSHR pkt = .ok index)
    (hprompt : Mshr.Prompt config.blkSize (cache.mshrQueue.entries index))
    (hheld : (cache.mshrQueue.entries index).targets.list ≠ [])
    (hissued : (cache.mshrQueue.entries index).isForward = false)
    (habsent : cache.findBlock pkt.addr pkt.isSecure = none) {random : Fin config.geometry.assoc}
    (h : cache.recvTimingResp pkt random = .ok next) :
    ∃ way served, Installed cache.tags next.tags pkt.addr pkt.isSecure way ∧
      (cache.tags.blks (config.geometry.extractSet pkt.addr) way).valid = false ∧
      SameMarks cache served ∧
      SameMarks (if fromCore cache index then served else
        served.setPrefetched (some (.slot (config.geometry.extractSet pkt.addr) way))) next := by
  obtain ⟨way', -, -, -, hinstalled'⟩ :=
    recvTimingResp_installed hpkt hpop hprompt hissued habsent h
  have hread : pkt.cmd.isRead = true := by rw [hpkt.cmd]; rfl
  have hinvalidate : pkt.cmd.isInvalidate = false := by rw [hpkt.cmd]; rfl
  have herror : pkt.cmd.isError = false := by rw [hpkt.cmd]; rfl
  have hqueue := (unblockTargets_kept cache index).mshrQueue
  have htags := Uncacheable.unblockTargets_tags cache index
  obtain ⟨hwrite, -⟩ | ⟨index', blk, filled, writebacks, promoted, serviced, dropped, hpop', hfill,
    hpromote, hservice, hretire⟩ := recvTimingResp_stages h
  · rw [hpkt.cmd] at hwrite
    cases hwrite
  rw [hpop, Except.ok.injEq] at hpop'
  subst hpop'
  obtain ⟨-, ref, rfl, hhandle⟩ | ⟨hskip, -, -⟩ := fillFromResponse_read hread hinvalidate hfill
  swap
  · rw [hqueue, hissued, herror] at hskip
    cases hskip
  -- the line goes into a free way
  have hkeep : ((cache.unblockTargets index).mshrQueue.entries index).allocOnFill = true := by
    rw [hqueue]
    exact hprompt.allocOnFill
  have hfind : (cache.unblockTargets index).findBlock pkt.addr pkt.isSecure = none := by
    rw [Cache.findBlock, htags]
    exact habsent
  rw [hfind, hkeep] at hhandle
  obtain ⟨way, rfl, hinvalid, hinstalled⟩ := handleFill_installed hpkt.exclusive.1 hhandle
  rw [htags] at hinvalid hinstalled
  have hmoves : Moves (@Blockwise config Lasting) := blockwise_moves lasting_edits
  have hlasting := hmoves.trans (hmoves.promoteTargets hpromote)
    (hmoves.trans (hmoves.serviceMSHRTargets hservice) (hmoves.retireMSHR hretire))
  obtain rfl := way_of_lasting hinstalled hinvalid hlasting hinstalled'
  -- the entry is served as it stands
  have hentry : filled.mshrQueue.entries index = cache.mshrQueue.entries index := by
    rw [(fillFromResponse_touched hfill).mshrQueue, hqueue]
  obtain ⟨promoted', hpromote', hentry'⟩ := promoteTargets_prompt hpkt.cmd
    (hentry.symm ▸ hprompt) (some (.slot (config.geometry.extractSet pkt.addr) way))
  rw [hpromote, Except.ok.injEq] at hpromote'
  subst hpromote'
  rw [hentry] at hentry'
  have hcore : fromCore promoted index = fromCore cache index := by
    rw [fromCore, targetsOf, hentry']
    rfl
  obtain ⟨served, hserved, rfl⟩ := serviceMSHRTargets_prompt_marks hpkt.cmd
    (hentry'.symm ▸ hprompt) (hentry'.symm ▸ hheld) hservice
  rw [hcore] at hretire
  have hfilled := sameMarks_quiet.trans (sameMarks_quiet.unblockTargets cache index)
    (sameMarks_quiet.fillFromResponse (fun _ => sameMarks_dirties) hfill)
  have hmarked := sameMarks_quiet.trans hfilled (sameMarks_quiet.promoteTargets hpromote)
  exact ⟨way, served, hinstalled', hinvalid, sameMarks_quiet.trans hmarked hserved,
    sameMarks_quiet.retireMSHR hretire⟩

/-! The marks of single blocks. -/

theorem setPrefetched_prefetched (cache : Cache config) (set : Fin config.geometry.numSets)
    (way : Fin config.geometry.assoc) (set' : Fin config.geometry.numSets)
    (way' : Fin config.geometry.assoc) :
    ((cache.setPrefetched (some (.slot set way))).tags.blks set' way').prefetched =
      if set' = set ∧ way' = way then true else (cache.tags.blks set' way').prefetched := by
  simp only [setPrefetched, setBlk, Tags.setBlk_blks]
  split <;> rfl

theorem clearPrefetched_prefetched (hprefetcher : config.hasPrefetcher = true)
    (cache : Cache config) (set : Fin config.geometry.numSets)
    (way : Fin config.geometry.assoc) (set' : Fin config.geometry.numSets)
    (way' : Fin config.geometry.assoc) :
    ((cache.clearPrefetched (some (.slot set way))).tags.blks set' way').prefetched =
      if set' = set ∧ way' = way then false else (cache.tags.blks set' way').prefetched := by
  simp only [clearPrefetched, hprefetcher, Bool.true_and]
  split
  · simp only [setBlk, Tags.setBlk_blks]
    split <;> rfl
  · rename_i hunmarked
    split
    · rename_i hself
      rw [hself.1, hself.2]
      exact Bool.not_eq_true _ ▸ hunmarked
    · rfl

/-- A plain request clears the mark of the line it finds and no other. -/
theorem recvTimingReq_prefetched (hprefetcher : config.hasPrefetcher = true)
    {cache next : Cache config} (h : Ready cache) {pkt : Packet}
    (hplain : pkt.cmd.isPlain = true) {random : Fin config.geometry.assoc}
    (hreq : cache.recvTimingReq pkt random = .ok next) (set : Fin config.geometry.numSets)
    (way : Fin config.geometry.assoc) : (next.tags.blks set way).prefetched =
      if set = config.geometry.extractSet pkt.addr ∧
          cache.tags.findBlock pkt.addr pkt.isSecure = some way then false
      else (cache.tags.blks set way).prefetched := by
  obtain ⟨seen, hseen, ⟨-, hnext⟩ | ⟨hrefused, hnext⟩⟩ := recvTimingReq_marks h.sound hplain hreq
  · rw [show (next.tags.blks set way).prefetched = _ from hnext (.slot set way)]
    cases hfind : cache.tags.findBlock pkt.addr pkt.isSecure with
    | none =>
        rw [Cache.findBlock, hfind, if_neg fun hself => by cases hself.2]
        exact hseen (.slot set way)
    | some found =>
        rw [Cache.findBlock, hfind, Option.map_some]
        refine (clearPrefetched_prefetched hprefetcher seen _ found set way).trans ?_
        rw [show (seen.tags.blks set way).prefetched = _ from hseen (.slot set way)]
        simp only [Option.some.injEq, eq_comm (b := found)]
        rfl
  · rw [h.tracked.absent_of_refused hrefused, if_neg fun hself => by cases hself.2]
    exact (hnext (.slot set way)).trans (hseen (.slot set way))

/-- An entry that was sent: held back, or answered with its line marked unless the
processor waits for it. -/
theorem sendMSHRQueuePacket_marks {cache next : Cache config} (h : Ready cache)
    (hblank : ∀ set way, (cache.tags.blks set way).valid = false →
      (cache.tags.blks set way).prefetched = false)
    {index : Fin config.mshrs} {data : List UInt8} {random : Fin config.geometry.assoc}
    {waiting : Bool} {flight : Option Packet}
    (hsend : cache.sendMSHRQueuePacket index (some data) random = .ok (waiting, next, flight)) :
    (Kept cache next ∧ SameMarks cache next) ∨
      ∃ way free, MshrQueue.ReleasedAt cache.mshrQueue next.mshrQueue index free ∧
        index ∈ cache.mshrQueue.allocatedList ∧
        (cache.tags.blks (config.geometry.extractSet (cache.mshrQueue.entries index).blkAddr)
          way).valid = false ∧
        Installed cache.tags next.tags (cache.mshrQueue.entries index).blkAddr
          (cache.mshrQueue.entries index).isSecure way ∧
        ∀ set' way', (next.tags.blks set' way').prefetched =
          if set' = config.geometry.extractSet (cache.mshrQueue.entries index).blkAddr ∧
              way' = way then !fromCore cache index
          else (cache.tags.blks set' way').prefetched := by
  obtain ⟨hmem, hcase⟩ := h.sendMSHRQueuePacket_cases hsend
  obtain ⟨first, rest, hcons⟩ := List.exists_cons_of_ne_nil (h.tracked.waits index hmem).held
  have hfirst : (cache.mshrQueue.entries index).getTarget = .ok first :=
    Mshr.getTarget_eq_ok.mpr ⟨rest, hcons⟩
  have hkept := coalesceDelay_kept cache index first.pkt
  have hmarks := sameMarks_quiet.coalesceDelay sameMarks_adapts cache index first.pkt
  cases hdelay : cache.coalesceDelay index first.pkt with
  | mk delayed after =>
      rw [hdelay] at hkept hmarks
      cases delayed with
      | true =>
          rw [Cache.sendMSHRQueuePacket, issueMSHR_eq_none.mpr ⟨first, hfirst, hdelay⟩] at hsend
          obtain ⟨-, rfl, -⟩ := Prod.mk.inj (Except.ok.inj hsend)
          exact .inl ⟨hkept, hmarks⟩
      | false =>
          obtain ⟨fresh, resp, hresp, htags, hissued⟩ := h.handleTimingRes_answers hmem
            (issued_serving hkept index) hcons after.nextPtr data
          simp only [h.sendMSHRQueuePacket_eq hmem hfirst hdelay, hissued random, bind_eq_ok,
            pure_eq_ok, Prod.mk.injEq] at hsend
          obtain ⟨answered, hanswered, rfl, rfl, -⟩ := hsend
          have hentry := hresp.entries
          obtain ⟨way, served, hinstalled, hinvalid, hserved, hmarked⟩ := recvTimingResp_marks
            hresp.line hresp.pop (hentry ▸ (h.prompt index hmem).issued)
            (by rw [hentry]; exact (h.tracked.waits index hmem).held) (by rw [hentry])
            (hresp.absent h.tracked hmem) hanswered
          have hcore : fromCore fresh index = fromCore cache index := by
            rw [fromCore, targetsOf, hentry]
            rfl
          have hfresh : ∀ set' way', (fresh.tags.blks set' way').prefetched =
              (cache.tags.blks set' way').prefetched := by
            rw [htags]
            exact fun set' way' => hmarks (.slot set' way')
          obtain ⟨-, hfalse, -⟩ | ⟨-, -, free, hreleased, -, -⟩ := hcase
          · cases hfalse
          rw [hresp.addr, hcore] at hmarked
          rw [hresp.addr] at hinvalid hinstalled
          rw [hresp.secure] at hinstalled
          rw [(hresp.lines _ _).valid] at hinvalid
          refine .inr ⟨way, free, hreleased, hmem, hinvalid,
            installed_of_kept hresp.lines hinstalled, fun set' way' => ?_⟩
          rw [show (answered.tags.blks set' way').prefetched = _ from hmarked (.slot set' way')]
          have hseen : (served.tags.blks set' way').prefetched =
              (cache.tags.blks set' way').prefetched :=
            (hserved (.slot set' way')).trans (hfresh set' way')
          cases fromCore cache index with
          | true =>
              rw [if_pos rfl]
              refine hseen.trans ?_
              split
              · rename_i hself
                rw [hself.1, hself.2, hblank _ _ hinvalid]
                rfl
              · rfl
          | false =>
              rw [if_neg Bool.false_ne_true]
              refine (setPrefetched_prefetched served _ way set' way').trans ?_
              rw [hseen]
              rfl

end KuiperCache.PrefetchMark
