import KuiperCache.Cache.Sound

/-! Plain reads and writes.  They look one block up, are answered if it permits
them and otherwise wait in an MSHR. -/
namespace KuiperCache.Cache

open Checked

variable {config : CacheConfig}

/-- What the access path asks of a plain command. -/
theorem isPlain_attributes {cmd : MemCmd} (h : cmd.isPlain = true) :
    cmd.isEviction = false ∧ cmd.isWriteback = false ∧ (cmd == .cleanEvict) = false ∧
      (cmd == .writeClean) = false ∧ cmd.isLLSC = false ∧ cmd.isLockedRMW = false ∧
      cmd.needsResponse = true ∧ cmd ≠ .lockedRMWWriteReq ∧ cmd.isRequest = true := by
  obtain rfl | rfl | rfl := MemCmd.isPlain_cases h
  · decide
  · decide
  · decide

theorem accessBlock_fst (cache : Cache config) (pkt : Packet) :
    (cache.accessBlock pkt).1 = cache.findBlock pkt.addr pkt.isSecure := by
  unfold accessBlock
  split
  · rename_i hnone
    rw [hnone]
  · rename_i ref hsome
    rw [hsome]

theorem getBlk_setBlk (cache : Cache config) (ref other : BlkRef config.geometry)
    (blk : CacheBlk) :
    (cache.setBlk ref blk).getBlk other = if other = ref then blk else cache.getBlk other := by
  cases ref with
  | temp => cases other <;> simp [setBlk, getBlk]
  | slot set way =>
      cases other with
      | temp => simp [setBlk, getBlk]
      | slot set' way' => simp [setBlk, getBlk, Tags.setBlk_blks]

/-- A block replaced by one with the same bits. -/
theorem isSet_setBlk {cache : Cache config} {ref : BlkRef config.geometry} {blk : CacheBlk}
    (h : ∀ bit, blk.isSet bit = (cache.getBlk ref).isSet bit) (other : BlkRef config.geometry)
    (bit : CoherenceBit) :
    ((cache.setBlk ref blk).getBlk other).isSet bit = (cache.getBlk other).isSet bit := by
  rw [getBlk_setBlk]
  split
  · rename_i heq
    rw [h, heq]
  · rfl

theorem isSet_accessBlock (cache : Cache config) (pkt : Packet) (ref : BlkRef config.geometry)
    (bit : CoherenceBit) :
    ((cache.accessBlock pkt).2.getBlk ref).isSet bit = (cache.getBlk ref).isSet bit := by
  unfold accessBlock
  split
  · rfl
  · exact isSet_setBlk (fun bit => by cases bit <;> rfl) ref bit

theorem isSet_clearPrefetched (cache : Cache config) (blk : Option (BlkRef config.geometry))
    (ref : BlkRef config.geometry) (bit : CoherenceBit) :
    ((cache.clearPrefetched blk).getBlk ref).isSet bit = (cache.getBlk ref).isSet bit := by
  unfold clearPrefetched
  split
  · split
    · exact isSet_setBlk (fun bit => by cases bit <;> rfl) ref bit
    · rfl
  · rfl

/-- Counting a reference takes no permission away and gives none. -/
theorem permits_accessBlock (cache : Cache config) (pkt : Packet)
    (blk : Option (BlkRef config.geometry)) :
    (cache.accessBlock pkt).2.permits pkt blk = cache.permits pkt blk := by
  cases blk with
  | none => rfl
  | some ref => simp only [permits, isSet_accessBlock]

/-- An access that writes nothing back only counts the reference. -/
theorem access_line {cache : Cache config} (hempty : cache.writeBuffer.allocatedList = [])
    {pkt : Packet} (hwriteback : pkt.cmd.isWriteback = false)
    (hevict : (pkt.cmd == .cleanEvict) = false) (hclean : (pkt.cmd == .writeClean) = false)
    (hllsc : pkt.cmd.isLLSC = false) {random : Fin config.geometry.assoc}
    {accessed : Accessed config} (h : cache.access pkt random = .ok accessed) :
    accessed.pkt = pkt ∧ accessed.blk = cache.findBlock pkt.addr pkt.isSecure ∧
      Kept cache accessed.cache ∧
      cache.permits pkt (cache.findBlock pkt.addr pkt.isSecure) = .ok accessed.satisfied := by
  have hblock := accessBlock_kept cache pkt
  simp only [access, accessBase, hwriteback, hevict, hclean, Bool.or_self, Bool.false_eq_true,
    ↓reduceIte, bind_eq_ok, check_eq_ok, exists_const, pure_eq_ok,
    meetWriteBuffer_eq (show (cache.accessBlock pkt).2.writeBuffer.allocatedList = [] by
      rw [hblock.writeBuffer, hempty]), ok_bind, exists_eq_right] at h
  obtain ⟨-, -, hline⟩ := h
  obtain ⟨hcache, hblk, hrest⟩ := accessLine_eq_ok hline
  obtain ⟨hpkt, hpermits⟩ := hrest hllsc
  rw [permits_accessBlock] at hpermits
  rw [← accessBlock_fst, hcache, hblk]
  exact ⟨hpkt, rfl, hblock, hpermits⟩

theorem access_plain {cache : Cache config} (hempty : cache.writeBuffer.allocatedList = [])
    {pkt : Packet} (hplain : pkt.cmd.isPlain = true) {random : Fin config.geometry.assoc}
    {accessed : Accessed config} (h : cache.access pkt random = .ok accessed) :
    accessed.pkt = pkt ∧ accessed.blk = cache.findBlock pkt.addr pkt.isSecure ∧
      Kept cache accessed.cache ∧
      cache.permits pkt (cache.findBlock pkt.addr pkt.isSecure) = .ok accessed.satisfied := by
  obtain ⟨-, hwriteback, hevict, hclean, hllsc, -, -, -, -⟩ := isPlain_attributes hplain
  exact access_line hempty hwriteback hevict hclean hllsc h

/-- A plain request, up to the notification at its end. -/
theorem recvTimingReq_plain {cache next : Cache config} (hsound : Sound cache) {pkt : Packet}
    (hplain : pkt.cmd.isPlain = true) {random : Fin config.geometry.assoc}
    (h : cache.recvTimingReq pkt random = .ok next) :
    ∃ seen handled, Kept cache seen ∧
      next = (if config.hasPrefetcher then handled.schedMemSideSendEvent else handled) ∧
      ((cache.permits pkt (cache.findBlock pkt.addr pkt.isSecure) = .ok true ∧
          Finished seen handled pkt) ∨
       (cache.permits pkt (cache.findBlock pkt.addr pkt.isSecure) = .ok false ∧
          seen.handleTimingReqMiss pkt (cache.findBlock pkt.addr pkt.isSecure) =
            .ok handled)) := by
  obtain ⟨-, -, -, -, -, hunlocked, -, hcmd, -⟩ := isPlain_attributes hplain
  obtain ⟨reopened, accessed, handled, -, hsame, haccess, -, hhandled, hnext⟩ :=
    recvTimingReq_cases hsound.writeBuffer.1 h
  rw [hsame hcmd] at haccess
  obtain ⟨hpkt, hblk, hkept, hpermits⟩ := access_plain hsound.writeBuffer.1 hplain haccess
  rw [hpkt, hblk] at hhandled
  cases hsatisfied : accessed.satisfied with
  | true =>
      rw [hsatisfied, if_pos rfl] at hhandled
      rw [hsatisfied] at hpermits
      obtain ⟨locked, hfinished, ⟨-, rfl⟩ | ⟨hlocked, -, -⟩⟩ := handleTimingReqHit_cases hhandled
      · have hcleared := clearPrefetched_kept accessed.cache (cache.findBlock pkt.addr pkt.isSecure)
        exact ⟨_, handled, hkept.trans hcleared, hnext, .inl ⟨hpermits, hfinished⟩⟩
      · rw [hunlocked] at hlocked
        cases hlocked
  | false =>
      rw [hsatisfied, if_neg Bool.false_ne_true] at hhandled
      rw [hsatisfied] at hpermits
      exact ⟨accessed.cache, handled, hkept, hnext, .inr ⟨hpermits, hhandled⟩⟩

end KuiperCache.Cache
