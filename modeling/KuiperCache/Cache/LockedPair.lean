import KuiperCache.Cache.PlainAccess

/-! The locked read-modify-write pair.  The read fakes an MSHR and takes the
block's permissions away; the write gives them back and answers the read that
still waits.  The answer is a write response, and the non-coherent cache accepts
none. -/
namespace KuiperCache

open Checked

namespace Cache

variable {config : CacheConfig}

/-- The write finds its block readable and writable again. -/
theorem reopenLine_opened {cache next : Cache config} {pkt : Packet}
    (hcmd : pkt.cmd = .lockedRMWWriteReq) (h : cache.reopenLine pkt = .ok next) :
    ∃ way, next.tags.findBlock pkt.addr pkt.isSecure = some way ∧
      (next.tags.blks (config.geometry.extractSet pkt.addr) way).isSet .writableBit = true := by
  simp only [reopenLine, hcmd, bne_self_eq_false, Bool.false_eq_true, ↓reduceIte] at h
  unfold Cache.findBlock at h
  cases hfind : cache.tags.findBlock pkt.addr pkt.isSecure with
  | none => simp [hfind] at h
  | some way =>
      simp only [hfind, Option.map_some, bind_eq_ok, check_eq_ok, exists_const] at h
      obtain ⟨hvalid, -, readable, hreadable, hwritable⟩ := h
      have hkept := (setCoherenceBits_kept hreadable).trans (setCoherenceBits_kept hwritable)
      refine ⟨way, (Tags.findBlock_kept hkept.lines _ _).trans hfind, ?_⟩
      have hvalid' := (hkept.lines (config.geometry.extractSet pkt.addr) way).valid.trans hvalid
      have hbit := (setCoherenceBits_bit (setCoherenceBits_slot hwritable)).2 rfl
      simp [CacheBlk.isSet, hvalid', hbit]

/-- So it always hits, and the response it fakes for the read is refused. -/
theorem recvTimingReq_lockedWrite_fails {cache : Cache config} (hsound : Sound cache)
    {pkt : Packet} (hcmd : pkt.cmd = .lockedRMWWriteReq) (random : Fin config.geometry.assoc)
    (next : Cache config) : cache.recvTimingReq pkt random ≠ .ok next := by
  intro h
  simp only [recvTimingReq, bind_eq_ok, check_eq_ok, exists_const, pure_eq_ok] at h
  obtain ⟨-, -, reopened, hreopen, accessed, haccess, handled, hhandled, -⟩ := h
  obtain ⟨way, hfind, hset⟩ := reopenLine_opened hcmd hreopen
  have hempty : reopened.writeBuffer.allocatedList = [] := by
    rw [(reopenLine_kept hreopen).writeBuffer, hsound.writeBuffer.1]
  obtain ⟨hpkt, -, -, hpermits⟩ := access_line hempty (by rw [hcmd]; rfl)
    (by rw [hcmd]; rfl) (by rw [hcmd]; rfl) (by rw [hcmd]; rfl) haccess
  rw [Cache.findBlock, hfind, Option.map_some] at hpermits
  have hneeds : pkt.needsWritable = .ok true := by
    rw [Packet.needsWritable, hcmd]
    rfl
  have hsatisfied : accessed.satisfied = true := by
    simp only [permits, hneeds, ok_bind, getBlk, ↓reduceIte, pure_eq_ok, hset] at hpermits
    exact hpermits.symm
  rw [hsatisfied, if_pos rfl] at hhandled
  obtain ⟨-, -, ⟨hunlocked, -⟩ | ⟨-, hread, -⟩⟩ := handleTimingReqHit_cases hhandled
  · rw [hpkt, hcmd] at hunlocked
    cases hunlocked
  · rw [hpkt, hcmd] at hread
    cases hread

end Cache

namespace System

variable {config : CacheConfig}

/-- Neither locks nor writes back: a read or a write, or any other call. -/
def ordinaryLabel : Label config → Bool
  | .recvTimingReq pkt _ => pkt.cmd == .readReq || pkt.cmd == .writeReq
  | _ => true

/-- A locked pair on a block that a reachable cache holds with all permissions,
and what is delivered between the two. -/
structure LockedPair (config : CacheConfig) where
  system : System config
  reached : ∃ writeAllocator labels, Transition.run step (new config writeAllocator) labels =
    .ok system
  read : Packet
  write : Packet
  read_cmd : read.cmd = .lockedRMWReadReq
  write_cmd : write.cmd = .lockedRMWWriteReq
  sameRequest : write.addr = read.addr ∧ write.isSecure = read.isSecure ∧ write.size = read.size
  ref : BlkRef config.geometry
  hit : system.cache.findBlock read.addr read.isSecure = some ref
  readable : (system.cache.getBlk ref).isSet .readableBit = true
  writable : (system.cache.getBlk ref).isSet .writableBit = true
  noMSHR : system.cache.mshrQueue.findMatch (read.getBlockAddr config.blkSize) read.isSecure
    false = .ok none
  between : List (Label config)
  ordinary : ∀ label ∈ between, ordinaryLabel label = true
  readRandom : Fin config.geometry.assoc
  writeRandom : Fin config.geometry.assoc

namespace LockedPair

/-- The calls up to the locked write. -/
def locked (pair : LockedPair config) : List (Label config) :=
  .recvTimingReq pair.read pair.readRandom :: pair.between

/-- A response to a packet on the block of the pair. -/
def concerns (pair : LockedPair config) (resp : Packet) : Bool :=
  resp.getBlockAddr config.blkSize == pair.read.getBlockAddr config.blkSize &&
    resp.isSecure == pair.read.isSecure

/-- The pair runs to its end, the block has its permissions back, no MSHR is left
for it, and until the locked write arrives nothing but the locked read is answered
from the block. -/
def Restores (pair : LockedPair config) : Prop :=
  ∃ held final, Transition.run step pair.system pair.locked = .ok held ∧
    held.step (.recvTimingReq pair.write pair.writeRandom) = .ok final ∧
    (∃ ref, final.cache.findBlock pair.read.addr pair.read.isSecure = some ref ∧
      (final.cache.getBlk ref).isSet .readableBit = true ∧
      (final.cache.getBlk ref).isSet .writableBit = true) ∧
    final.cache.mshrQueue.findMatch (pair.read.getBlockAddr config.blkSize) pair.read.isSecure
      false = .ok none ∧
    ∀ resp ∈ held.cache.responses.drop pair.system.cache.responses.length,
      pair.concerns resp = true → resp.cmd = .lockedRMWReadResp

/-- No locked pair restores the cache: the locked write never finishes. -/
theorem locked_pair_never_restores (pair : LockedPair config) : ¬ pair.Restores := by
  rintro ⟨held, final, hlocked, hwrite, -⟩
  obtain ⟨writeAllocator, labels, hreached⟩ := pair.reached
  have hsound : held.cache.Sound := Transition.run_invariant (fun _ => True)
    (fun system label next _ hsound hstep => step_sound system label next hsound hstep)
    (fun _ _ => trivial) hlocked (run_sound hreached)
  obtain ⟨next, hreq, -⟩ := step_recvTimingReq hwrite
  refine Cache.recvTimingReq_lockedWrite_fails
    (hsound.touched (Cache.newPtr_kept held.cache).toTouched) ?_ pair.writeRandom next hreq
  exact pair.write_cmd

/-- Four bytes of line 1 of the L0 cache. -/
def fourBytes (cmd : MemCmd) : Packet := Packet.ofRequest 0 (Request.physical 0x200 4 0 0) cmd

def onLine (cmd : MemCmd) : Label simL0Params :=
  .recvTimingReq (fourBytes cmd) simL0Params.geometry.firstWay

/-- Where the line is put. -/
def cachedLine : BlkRef simL0Params.geometry :=
  .slot (simL0Params.geometry.extractSet 0x200) simL0Params.geometry.firstWay

/-- A read brings the line in. -/
def fetchLine : List (Label simL0Params) :=
  [onLine .readReq,
    .sendMSHRQueuePacket ⟨0, simL0Params.mshrs_pos⟩ (some (List.replicate 512 0))
      simL0Params.geometry.firstWay]

/-- The line is cached with all permissions, the locked read hits and a read waits
behind it; then the locked write stops at the assertion that only read responses
are received. -/
theorem locked_write_fails_recvTimingResp :
    ∃ pair : LockedPair simL0Params,
      Transition.run step (new simL0Params none) fetchLine = .ok pair.system ∧
      pair.locked = [onLine .lockedRMWReadReq, onLine .readReq] ∧
      ∃ held, Transition.run step pair.system pair.locked = .ok held ∧
        held.step (.recvTimingReq pair.write pair.writeRandom) = .error .unexpectedResponse := by
  obtain ⟨system, hrun, hseen⟩ := exists_ok_of_observed
    (show ((Transition.run step (new simL0Params none) fetchLine).toOption.map fun system =>
      (decide (system.cache.findBlock 0x200 false = some cachedLine),
        (system.cache.getBlk cachedLine).isSet .readableBit &&
          (system.cache.getBlk cachedLine).isSet .writableBit,
        (system.cache.mshrQueue.findMatch 0x200 false false).toOption.map Option.isNone,
        (Transition.run step system [onLine .lockedRMWReadReq, onLine .readReq]).toOption.map
          fun held => failure (held.step (onLine .lockedRMWWriteReq)))) =
      some (true, true, some true, some (some .unexpectedResponse)) by decide +kernel)
  simp only [Prod.mk.injEq, decide_eq_true_eq, Bool.and_eq_true] at hseen
  obtain ⟨hhit, ⟨hreadable, hwritable⟩, hnone, hlocked⟩ := hseen
  obtain ⟨found, hfound, hnone⟩ := exists_ok_of_observed hnone
  rw [Option.isNone_iff_eq_none.mp hnone] at hfound
  obtain ⟨held, hheld, hfails⟩ := exists_ok_of_observed hlocked
  let pair : LockedPair simL0Params :=
    { system, reached := ⟨none, fetchLine, hrun⟩, read := fourBytes .lockedRMWReadReq,
      write := fourBytes .lockedRMWWriteReq, read_cmd := rfl, write_cmd := rfl,
      sameRequest := ⟨rfl, rfl, rfl⟩, ref := cachedLine, hit := hhit, readable := hreadable,
      writable := hwritable, noMSHR := hfound, between := [onLine .readReq],
      ordinary := by decide, readRandom := simL0Params.geometry.firstWay,
      writeRandom := simL0Params.geometry.firstWay }
  exact ⟨pair, hrun, rfl, held, hheld, failure_eq_some.mp hfails⟩

end LockedPair

end System

end KuiperCache
