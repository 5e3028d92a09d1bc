import Mathlib.Tactic.Ring
import KuiperCache.Prefetch.Tagged

/-! Prefetches stay on the page of the access that triggered them.  The candidates
are computed with trained addresses; what is fetched is a physical address at the
same distance, and the page of the one carries over to the other. -/
namespace KuiperCache

open Checked Alignment

section Distances

variable {block page : Nat}

/-- The block that is some blocks further is another one, also past the top of the
address space. -/
theorem further_block_ne {words current distance : Nat} (hcurrent : current < words)
    (hpos : 0 < distance) (hdistance : distance < words) :
    (current + distance) % words ≠ current := by
  by_cases hwrap : current + distance < words
  · rw [Nat.mod_eq_of_lt hwrap]
    omega
  · rw [Nat.mod_eq_sub_mod (by omega), Nat.mod_eq_of_lt (by omega)]
    omega

/-- An address of the page of `a`, seen from `b` with the offset of `a`. -/
theorem moved_eq {a b other : Nat} (hoffset : a % page = b % page)
    (hsame : other / page = a / page) : b / page * page + other % page + a = b + other := by
  have ha := Nat.div_add_mod' a page
  have hb := Nat.div_add_mod' b page
  have hother := Nat.div_add_mod' other page
  rw [hsame] at hother
  omega

/-- Seen from there, it is in the page of `b`, at the same offset. -/
theorem moved_div {b other : Nat} (hpage : 0 < page) :
    (b / page * page + other % page) / page = b / page ∧
      (b / page * page + other % page) % page = other % page := by
  rw [Nat.mul_comm (b / page)]
  exact ⟨by rw [Nat.mul_add_div hpage, Nat.div_eq_of_lt (Nat.mod_lt _ hpage), Nat.add_zero],
    by rw [Nat.mul_add_mod, Nat.mod_mod]⟩

/-- A page that has an address below a multiple of its size lies below it. -/
theorem page_lt {size b other : Nat} (hpage : 0 < page) (hdvd : page ∣ size) (hb : b < size) :
    b / page * page + other % page < size := by
  obtain ⟨pages, rfl⟩ := hdvd
  have hquotient : b / page + 1 ≤ pages := Nat.div_lt_of_lt_mul hb
  have hpages := Nat.mul_le_mul_right page hquotient
  rw [Nat.add_mul, Nat.one_mul, Nat.mul_comm pages] at hpages
  have hoffset := Nat.mod_lt other hpage
  omega

/-- In one page the offset alone tells the blocks apart. -/
theorem div_eq_iff_of_same_page {a b : Nat} (hblock : 0 < block) (hdvd : block ∣ page)
    (hsame : a / page = b / page) : a / block = b / block ↔ a % page / block = b % page / block := by
  obtain ⟨blocks, rfl⟩ := hdvd
  have hsplit : ∀ c, c / block = c / (block * blocks) * blocks + c % (block * blocks) / block := by
    intro c
    conv_lhs => rw [← Nat.div_add_mod' c (block * blocks)]
    rw [show c / (block * blocks) * (block * blocks) = block * (c / (block * blocks) * blocks) by
      ring, Nat.mul_add_div hblock]
  rw [hsplit a, hsplit b, hsame, Nat.add_left_cancel_iff]

end Distances

namespace PrefetchParams

variable {params : PrefetchParams} {blkBits pageBits : Nat}

/-- Blocks and pages are powers of two, and a page is made of blocks. -/
structure Paged (params : PrefetchParams) (blkBits pageBits : Nat) : Prop where
  blkSize : params.blkSize = 2 ^ blkBits
  pageBytes : params.pageBytes = 2 ^ pageBits
  le : blkBits ≤ pageBits
  lt : pageBits < 64

theorem Paged.dvd (h : params.Paged blkBits pageBits) : params.blkSize ∣ params.pageBytes := by
  rw [h.blkSize, h.pageBytes]
  exact Nat.pow_dvd_pow 2 h.le

theorem Paged.toNat_blockAddress (h : params.Paged blkBits pageBits) (a : Addr) :
    (params.blockAddress a).toNat = a.toNat / params.blkSize * params.blkSize := by
  rw [blockAddress, h.blkSize, toNat_alignDown]

theorem samePage_comm {a b : Addr} {same : Bool} (h : params.samePage a b = .ok same) :
    params.samePage b a = .ok same := by
  simp only [samePage, bind_eq_ok, pure_eq_ok] at h ⊢
  obtain ⟨pageA, hA, pageB, hB, rfl⟩ := h
  exact ⟨pageB, hB, pageA, hA, BEq.comm⟩

theorem Paged.div_eq_of_samePage (h : params.Paged blkBits pageBits) {a b : Addr}
    (hsame : params.samePage a b = .ok true) :
    a.toNat / params.pageBytes = b.toNat / params.pageBytes := by
  simp only [samePage, roundDown, bind_eq_ok, check_eq_ok, exists_const, pure_eq_ok,
    beq_iff_eq] at hsame
  obtain ⟨pageA, ⟨-, rfl⟩, pageB, ⟨-, rfl⟩, hpages⟩ := hsame
  have hnat := congrArg BitVec.toNat hpages
  rw [h.pageBytes, toNat_alignDown, toNat_alignDown] at hnat
  rw [h.pageBytes]
  exact Nat.eq_of_mul_eq_mul_right (Nat.two_pow_pos pageBits) hnat

/-- The address of an access that the prefetcher is trained on. -/
def trainedAddress (params : PrefetchParams) (req : RequestObject) : Addr :=
  if params.useVirtualAddresses then req.vaddr else req.paddr

/-- The physical address for a trained one: at the same distance from the access. -/
def physicalFor (params : PrefetchParams) (req : RequestObject) (address : Addr) : Addr :=
  if params.useVirtualAddresses then req.paddr + (address - req.vaddr) else address

theorem origAddr_eq_ok {req : RequestObject} {address : Addr}
    (h : params.origAddr req = .ok address) : address = params.trainedAddress req := by
  unfold origAddr RequestObject.getVaddr RequestObject.getPaddr at h
  unfold trainedAddress
  split at h
  · next hvirtual =>
      simp only [bind_eq_ok, pure_eq_ok] at h
      obtain ⟨-, -, rfl⟩ := h
      rw [if_pos hvirtual]
  · next hphysical =>
      simp only [bind_eq_ok, pure_eq_ok] at h
      obtain ⟨-, -, rfl⟩ := h
      rw [if_neg hphysical]

theorem sub_stride (paddr a b : Addr) : paddr - (a - b) = paddr + (b - a) := by
  rw [BitVec.sub_eq_add_neg paddr, BitVec.neg_sub, BitVec.add_comm (-a), ← BitVec.sub_eq_add_neg]

/-- A candidate on the page of the access is never in need of a translation. -/
theorem destination_samePage {acc : CacheAccessProbeArg} {newPfi : TriggerInfo}
    {destination : Destination}
    (hsame : params.samePage (params.trainedAddress acc.req) newPfi.address = .ok true)
    (h : params.destination acc newPfi = .ok destination) :
    destination = .physical (params.physicalFor acc.req newPfi.address) := by
  simp only [PrefetchParams.destination, bind_eq_ok] at h
  obtain ⟨origAddr, horig, same, hpage, h⟩ := h
  rw [origAddr_eq_ok horig] at h hpage
  rw [hsame, Except.ok.injEq] at hpage
  subst hpage
  rw [if_pos rfl] at h
  unfold physicalFor
  split at h
  · next hvirtual =>
      simp only [RequestObject.getPaddr, bind_eq_ok, pure_eq_ok] at h
      obtain ⟨paddr, ⟨-, -, rfl⟩, rfl⟩ := h
      rw [if_pos hvirtual, trainedAddress, if_pos hvirtual]
      split
      · rfl
      · -- a negative stride is subtracted
        rw [sub_stride]
  · next hphysical =>
      rw [pure_eq_ok] at h
      rw [if_neg hphysical, h]

/-- Translation keeps the offset on the page.  With physical addresses there is
nothing to keep. -/
def KeepsOffset (params : PrefetchParams) (req : RequestObject) : Prop :=
  params.useVirtualAddresses = true →
    req.vaddr.toNat % params.pageBytes = req.paddr.toNat % params.pageBytes

/-- The physical address lies on the page of the access, at the offset that the trained
address has on its page. -/
theorem Paged.toNat_physicalFor (h : params.Paged blkBits pageBits) {req : RequestObject}
    {address : Addr} (hoffset : params.KeepsOffset req)
    (hsame : address.toNat / params.pageBytes =
      (params.trainedAddress req).toNat / params.pageBytes) :
    (params.physicalFor req address).toNat =
      req.paddr.toNat / params.pageBytes * params.pageBytes + address.toNat % params.pageBytes := by
  unfold physicalFor
  unfold trainedAddress at hsame
  split
  · next hvirtual =>
      rw [if_pos hvirtual] at hsame
      have hmoved := moved_eq (hoffset hvirtual) hsame
      have hlt : req.paddr.toNat / params.pageBytes * params.pageBytes +
          address.toNat % params.pageBytes < 2 ^ 64 := by
        rw [h.pageBytes]
        exact page_lt (Nat.two_pow_pos pageBits) (Nat.pow_dvd_pow 2 h.lt.le) req.paddr.isLt
      have hpaddr := req.paddr.isLt
      have hvaddr := req.vaddr.isLt
      have haddress := address.isLt
      rw [BitVec.toNat_add, BitVec.toNat_sub]
      omega
  · next hphysical =>
      rw [if_neg hphysical] at hsame
      rw [← hsame]
      exact (Nat.div_add_mod' _ _).symm

/-- The candidates of the tagged prefetcher, once they are aligned. -/
def taggedCandidate (params : PrefetchParams) (address : Addr) (round : Nat) : Addr :=
  params.blockAddress (params.blockAddress address +
    BitVec.ofNat 64 ((round + 1) * params.blkSize % 2 ^ 32))

/-- A candidate is the address of another block than the one it starts from. -/
theorem Paged.taggedCandidate_facts (h : params.Paged blkBits pageBits) {address : Addr}
    {round : Nat} (hround : (round + 1) * params.blkSize < 2 ^ 32) :
    (params.taggedCandidate address round).toNat % params.blkSize = 0 ∧
      (params.taggedCandidate address round).toNat / params.blkSize ≠
        address.toNat / params.blkSize := by
  have hpos : 0 < params.blkSize := h.blkSize ▸ Nat.two_pow_pos blkBits
  have hle := h.le
  have hlt := h.lt
  have hwords : 2 ^ 64 = 2 ^ (64 - blkBits) * params.blkSize := by
    rw [h.blkSize, ← Nat.pow_add, Nat.sub_add_cancel (by omega)]
  have hcurrent : address.toNat / params.blkSize < 2 ^ (64 - blkBits) := by
    apply Nat.div_lt_of_lt_mul
    rw [Nat.mul_comm, ← hwords]
    exact address.isLt
  have hdistance : round + 1 < 2 ^ (64 - blkBits) := by
    apply Nat.lt_of_mul_lt_mul_right (a := params.blkSize)
    rw [← hwords]
    exact hround.trans (by decide)
  -- the sum is a whole number of blocks, also when it wraps around
  have hsum : (params.blockAddress address +
      BitVec.ofNat 64 ((round + 1) * params.blkSize % 2 ^ 32)).toNat =
        (address.toNat / params.blkSize + (round + 1)) % 2 ^ (64 - blkBits) * params.blkSize := by
    rw [BitVec.toNat_add, h.toNat_blockAddress, Nat.mod_eq_of_lt hround, BitVec.toNat_ofNat,
      Nat.add_mod_mod, ← Nat.add_mul, hwords, Nat.mul_mod_mul_right]
  rw [taggedCandidate, h.toNat_blockAddress, hsum, Nat.mul_div_cancel _ hpos]
  refine ⟨Nat.mul_mod_left _ _, ?_⟩
  rw [Nat.mul_div_cancel _ hpos]
  exact further_block_ne hcurrent (Nat.succ_pos round) hdistance

/-- Block-aligned, on the page of the access, in another block. -/
structure BesideAccess (params : PrefetchParams) (req : RequestObject) (address : Addr) : Prop where
  aligned : address.toNat % params.blkSize = 0
  page : address.toNat / params.pageBytes = req.paddr.toNat / params.pageBytes
  block : address.toNat / params.blkSize ≠ req.paddr.toNat / params.blkSize

/-- What holds of a trained address on its page holds of the physical one. -/
theorem Paged.besideAccess (h : params.Paged blkBits pageBits) {req : RequestObject}
    {address : Addr} (hoffset : params.KeepsOffset req)
    (hsame : address.toNat / params.pageBytes =
      (params.trainedAddress req).toNat / params.pageBytes)
    (haligned : address.toNat % params.blkSize = 0)
    (hblock : address.toNat / params.blkSize ≠
      (params.trainedAddress req).toNat / params.blkSize) :
    params.BesideAccess req (params.physicalFor req address) := by
  have hpos : 0 < params.blkSize := h.blkSize ▸ Nat.two_pow_pos blkBits
  have hpage : 0 < params.pageBytes := h.pageBytes ▸ Nat.two_pow_pos pageBits
  have hphysical := h.toNat_physicalFor hoffset hsame
  obtain ⟨hdiv, hmod⟩ : (params.physicalFor req address).toNat / params.pageBytes =
      req.paddr.toNat / params.pageBytes ∧
      (params.physicalFor req address).toNat % params.pageBytes =
        address.toNat % params.pageBytes := by
    rw [hphysical]
    exact moved_div hpage
  have htrained : (params.trainedAddress req).toNat % params.pageBytes =
      req.paddr.toNat % params.pageBytes := by
    unfold trainedAddress
    split
    · next hvirtual => exact hoffset hvirtual
    · rfl
  refine ⟨?_, hdiv, ?_⟩
  · rw [← Nat.mod_mod_of_dvd _ h.dvd, hmod, Nat.mod_mod_of_dvd _ h.dvd]
    exact haligned
  · rw [ne_eq, div_eq_iff_of_same_page hpos h.dvd hdiv, hmod, ← htrained,
      ← div_eq_iff_of_same_page hpos h.dvd hsame]
    exact hblock

end PrefetchParams

namespace Prefetcher

variable {params : PrefetchParams} {acc : CacheAccessProbeArg} {pfi newPfi : TriggerInfo}
  {state next : Prefetcher} {blkBits pageBits : Nat}

/-- A prefetch request for one block beside the access. -/
def IsPageMate (params : PrefetchParams) (acc : CacheAccessProbeArg) (entry : DeferredPacket) :
    Prop :=
  ∃ pkt, entry.pkt = some pkt ∧ pkt.cmd = .hardPFReq ∧ pkt.size = params.blkSize ∧
    pkt.isSecure = acc.pkt.isSecure ∧ params.BesideAccess acc.req pkt.addr

theorem createPkt_facts (params : PrefetchParams) (ptr : Nat) (pfInfo : PrefetchInfo)
    (paddr : Addr) :
    (params.createPkt ptr pfInfo paddr).cmd = .hardPFReq ∧
      (params.createPkt ptr pfInfo paddr).size = params.blkSize ∧
      (params.createPkt ptr pfInfo paddr).isSecure = pfInfo.secure ∧
      (params.createPkt ptr pfInfo paddr).addr = paddr := by
  rw [PrefetchParams.createPkt, Packet.allocate_eq]
  refine ⟨rfl, rfl, ?_, rfl⟩
  cases pfInfo.secure <;>
    simp [Packet.ofRequest, Request.physical, Request.isSecure, Request.isSet, Request.secure]

/-- What a call has added: the record grew by prefetches with the property, and no
packet came into the queue otherwise. -/
structure AddsOnly (good : DeferredPacket → Prop) (state next : Prefetcher) : Prop where
  added : ∃ more, next.added = state.added ++ more ∧ (∀ entry ∈ more, good entry) ∧
    ∀ entry ∈ next.pfq, ∃ source ∈ state.pfq ++ more, source.pkt = entry.pkt
  missing : (next.pfqMissingTranslation.map DeferredPacket.pfInfo).Perm
    (state.pfqMissingTranslation.map DeferredPacket.pfInfo)

theorem AddsOnly.refl (good : DeferredPacket → Prop) (state : Prefetcher) :
    AddsOnly good state state :=
  ⟨⟨[], (List.append_nil _).symm, by simp, fun entry hentry => ⟨entry, by simpa using hentry, rfl⟩⟩,
    List.Perm.refl _⟩

theorem AddsOnly.trans {good : DeferredPacket → Prop} {last : Prefetcher}
    (h : AddsOnly good state next) (h' : AddsOnly good next last) : AddsOnly good state last := by
  obtain ⟨⟨more, hadded, hgood, hpkts⟩, hmissing⟩ := h
  obtain ⟨⟨more', hadded', hgood', hpkts'⟩, hmissing'⟩ := h'
  refine ⟨⟨more ++ more', by rw [hadded', hadded, List.append_assoc], ?_, ?_⟩,
    hmissing'.trans hmissing⟩
  · intro entry hentry
    exact (List.mem_append.mp hentry).elim (hgood entry) (hgood' entry)
  · intro entry hentry
    obtain ⟨middle, hmiddle, hpkt⟩ := hpkts' entry hentry
    obtain hmiddle | hmiddle := List.mem_append.mp hmiddle
    · obtain ⟨source, hsource, hsame⟩ := hpkts middle hmiddle
      refine ⟨source, ?_, hsame.trans hpkt⟩
      rw [← List.append_assoc]
      exact List.mem_append_left _ hsource
    · refine ⟨middle, ?_, hpkt⟩
      rw [← List.append_assoc]
      exact List.mem_append_right _ hmiddle

/-- Queues with the same packets and addresses have nothing added. -/
theorem AddsOnly.of_perm (good : DeferredPacket → Prop) (hadded : next.added = state.added)
    (hpfq : (next.pfq.map DeferredPacket.pkt).Perm (state.pfq.map DeferredPacket.pkt))
    (hmissing : (next.pfqMissingTranslation.map DeferredPacket.pfInfo).Perm
      (state.pfqMissingTranslation.map DeferredPacket.pfInfo)) : AddsOnly good state next := by
  refine ⟨⟨[], by rw [hadded, List.append_nil], by simp, ?_⟩, hmissing⟩
  intro entry hentry
  have hmem := hpfq.mem_iff.mp (List.mem_map_of_mem hentry)
  rw [List.append_nil]
  exact List.mem_map.mp hmem

/-- Squashing adds nothing. -/
theorem addsOnly_demanded (good : DeferredPacket → Prop) (state : Prefetcher)
    (pfi : TriggerInfo) : AddsOnly good state (state.demanded params pfi) := by
  rw [demanded_pfq]
  refine ⟨⟨[], (List.append_nil _).symm, by simp, ?_⟩, List.Perm.refl _⟩
  intro entry hentry
  refine ⟨entry, ?_, rfl⟩
  rw [List.append_nil]
  exact (unsquashed_sublist params pfi state.pfq).subset hentry

theorem addsOnly_enqueue {good : DeferredPacket → Prop} {pfInfo : PrefetchInfo} {priority : Int}
    {paddr : Addr}
    (hgood : ∀ entry : DeferredPacket, ∀ ptr,
      entry.pkt = some (params.createPkt ptr pfInfo paddr) → good entry)
    (h : state.enqueue params pfInfo priority paddr = .ok next) : AddsOnly good state next := by
  simp only [enqueue, bind_eq_ok, pure_eq_ok] at h
  obtain ⟨pfq, hadd, rfl⟩ := h
  obtain ⟨kept, hkept, hperm, -⟩ := Queued.addToQueue_kept hadd
  refine ⟨⟨_, rfl, ?_, ?_⟩, List.Perm.refl _⟩
  · intro entry hentry
    rw [List.mem_singleton] at hentry
    exact hentry ▸ hgood _ _ rfl
  · intro entry hentry
    refine ⟨entry, ?_, rfl⟩
    obtain rfl | hmem := List.mem_cons.mp (hperm.mem_iff.mp hentry)
    · exact List.mem_append_right _ List.mem_cons_self
    · exact List.mem_append_left _ (hkept.subset hmem)

/-- Inserting a candidate of the page adds the prefetch for it, at most. -/
theorem addsOnly_insert {priority : Int}
    (hsame : params.samePage (params.trainedAddress acc.req) newPfi.address = .ok true)
    (hsecure : newPfi.secure = acc.pkt.isSecure)
    (hbeside : params.BesideAccess acc.req (params.physicalFor acc.req newPfi.address))
    (h : state.insert params acc newPfi priority = .ok next) :
    AddsOnly (IsPageMate params acc) state next := by
  obtain rfl | rfl | ⟨-, hnew⟩ := insert_cases h
  · exact AddsOnly.of_perm _ rfl (Queued.alreadyInQueue_map (fun _ _ => rfl) _ _ _)
      (List.Perm.refl _)
  · exact AddsOnly.of_perm _ rfl (List.Perm.refl _)
      (Queued.alreadyInQueue_map (fun _ _ => rfl) _ _ _)
  · obtain rfl | ⟨paddr, hdestination, henqueue⟩ | ⟨request, hdestination, -⟩ :=
      insertNew_cases hnew
    · exact AddsOnly.refl _ next
    · have htarget := PrefetchParams.destination_samePage hsame hdestination
      rw [PrefetchParams.Destination.physical.injEq] at htarget
      apply addsOnly_enqueue _ henqueue
      intro entry ptr hpkt
      obtain ⟨hcmd, hsize, hpktSecure, haddr⟩ :=
        createPkt_facts params ptr newPfi.toPrefetchInfo paddr
      refine ⟨_, hpkt, hcmd, hsize, hpktSecure.trans hsecure, ?_⟩
      rw [haddr, htarget]
      exact hbeside
    · cases PrefetchParams.destination_samePage hsame hdestination

theorem addsOnly_candidate {round : Nat} (h : params.Paged blkBits pageBits)
    (hdistance : (round + 1) * params.blkSize < 2 ^ 32) (hoffset : params.KeepsOffset acc.req)
    (hsame : params.samePage (params.taggedCandidate (params.trainedAddress acc.req) round)
      (params.trainedAddress acc.req) = .ok true)
    (hpfi : TriggerInfo.Describes acc (params.trainedAddress acc.req) pfi)
    (hinfo : newPfi = pfi.forAddress (params.taggedCandidate (params.trainedAddress acc.req) round))
    (hinsert : state.insert params acc newPfi 0 = .ok next) :
    AddsOnly (IsPageMate params acc) state next := by
  have haddress : newPfi.address =
      params.taggedCandidate (params.trainedAddress acc.req) round := by
    rw [hinfo]
    rfl
  have hsecure : newPfi.secure = acc.pkt.isSecure := by
    rw [hinfo]
    exact hpfi.secure
  obtain ⟨haligned, hblock⟩ := h.taggedCandidate_facts hdistance
  have hbeside := h.besideAccess hoffset (h.div_eq_of_samePage hsame) haligned hblock
  rw [← haddress] at hsame hbeside
  exact addsOnly_insert (PrefetchParams.samePage_comm hsame) hsecure hbeside hinsert

section Answers

theorem isPowerOf2_word : ∀ bits < 64, isPowerOf2 (2 ^ bits) = true := by
  decide

theorem samePage_total (h : params.Paged blkBits pageBits) (a b : Addr) :
    ∃ same, params.samePage a b = .ok same := by
  have hpage : isPowerOf2 params.pageBytes = true := h.pageBytes ▸ isPowerOf2_word _ h.lt
  simp only [PrefetchParams.samePage, PrefetchParams.roundDown, hpage, check_true, ok_bind,
    pure_bind]
  exact ⟨_, rfl⟩

/-- The access has the addresses that it is asked for. -/
structure Addressed (params : PrefetchParams) (req : RequestObject) : Prop where
  hasPaddr : req.hasPaddr = true
  hasVaddr : params.useVirtualAddresses = true → req.hasVaddr = true

theorem destination_total (haddressed : Addressed params acc.req)
    (hsame : params.samePage (params.trainedAddress acc.req) newPfi.address = .ok true) :
    ∃ destination, params.destination acc newPfi = .ok destination := by
  unfold PrefetchParams.trainedAddress at hsame
  unfold PrefetchParams.destination PrefetchParams.origAddr RequestObject.getVaddr
    RequestObject.getPaddr
  split at hsame
  · next hvirtual =>
      simp only [hvirtual, ↓reduceIte, haddressed.hasVaddr hvirtual, haddressed.hasPaddr, check_true,
        ok_bind, pure_bind, hsame]
      exact ⟨_, rfl⟩
  · next hphysical =>
      simp only [hphysical, Bool.false_eq_true, ↓reduceIte, haddressed.hasPaddr, check_true,
        ok_bind, pure_bind, hsame]
      exact ⟨_, rfl⟩

theorem enqueue_total (hpos : 1 ≤ state.queueSize) (pfInfo : PrefetchInfo) (priority : Int)
    (paddr : Addr) : ∃ next, state.enqueue params pfInfo priority paddr = .ok next ∧
      next.queueSize = state.queueSize := by
  unfold enqueue
  obtain ⟨pfq, hadd, -⟩ := Queued.addToQueue_total hpos state.pfq
    { pfInfo, pkt := some (params.createPkt state.added.length pfInfo paddr), priority,
      arrival := state.added.length }
  simp only [hadd, ok_bind]
  exact ⟨_, rfl, rfl⟩

theorem insertNew_total {priority : Int} (hpos : 1 ≤ state.queueSize)
    (haddressed : Addressed params acc.req)
    (hsame : params.samePage (params.trainedAddress acc.req) newPfi.address = .ok true) :
    ∃ next, state.insertNew params acc newPfi priority = .ok next ∧
      next.queueSize = state.queueSize := by
  obtain ⟨destination, hdestination⟩ := destination_total haddressed hsame
  obtain rfl := PrefetchParams.destination_samePage hsame hdestination
  simp only [insertNew, hdestination, ok_bind]
  split
  · exact ⟨state, rfl, rfl⟩
  · exact enqueue_total hpos _ _ _

theorem insert_total {priority : Int} (hpos : 1 ≤ state.queueSize)
    (haddressed : Addressed params acc.req)
    (hsame : params.samePage (params.trainedAddress acc.req) newPfi.address = .ok true) :
    ∃ next, state.insert params acc newPfi priority = .ok next ∧
      next.queueSize = state.queueSize := by
  unfold Prefetcher.insert
  split
  · simp only
    split
    · exact ⟨_, rfl, rfl⟩
    · split
      · exact ⟨_, rfl, rfl⟩
      · exact insertNew_total hpos haddressed hsame
  · exact insertNew_total hpos haddressed hsame

theorem queueCandidates_total {pfi : TriggerInfo} {addresses : List AddrPriority}
    {maxPfs numPfs : Nat} (h : params.Paged blkBits pageBits) (hpos : 1 ≤ state.queueSize)
    (haddressed : Addressed params acc.req)
    (htrained : pfi.address = params.trainedAddress acc.req) :
    ∃ next, queueCandidates params acc pfi maxPfs numPfs addresses state = .ok next := by
  induction addresses generalizing numPfs state with
  | nil => exact ⟨state, rfl⟩
  | cons candidate rest ih =>
      obtain ⟨same, hsame⟩ := samePage_total h (params.blockAddress candidate.1) pfi.address
      simp only [queueCandidates, hsame, ok_bind]
      cases same with
      | false => exact ih hpos
      | true =>
          have hnear := PrefetchParams.samePage_comm hsame
          rw [htrained] at hnear
          obtain ⟨inserted, hinserted, hsize⟩ : ∃ inserted, state.insert params acc
              (pfi.forAddress (params.blockAddress candidate.1)) candidate.2 = .ok inserted ∧
              inserted.queueSize = state.queueSize := insert_total hpos haddressed hnear
          simp only [↓reduceIte, hinserted, ok_bind]
          split
          · exact ⟨inserted, rfl⟩
          · exact ih (hsize ▸ hpos)

end Answers

/-- Every packet that a notification adds is a prefetch for one block of the page of
the access, and nothing is left to translate. -/
theorem prefetches_stay_on_the_page {degree : Int} (h : params.Paged blkBits pageBits)
    (hdegree : degree * params.blkSize < 2 ^ 32) (hoffset : params.KeepsOffset acc.req)
    (hpfi : TriggerInfo.Describes acc (params.trainedAddress acc.req) pfi) :
    (∀ next, state.notifyTagged params degree acc pfi = .ok next →
      AddsOnly (IsPageMate params acc) state next) ∧
    (1 ≤ state.queueSize → degree < 2 ^ 31 - 1 → Addressed params acc.req →
      ∃ next, state.notifyTagged params degree acc pfi = .ok next) := by
  constructor
  · intro next hnotify
    simp only [notifyTagged, Tagged.calculatePrefetch, bind_eq_ok, check_eq_ok, exists_const,
      pure_eq_ok] at hnotify
    obtain ⟨addresses, ⟨-, rfl⟩, hnotify⟩ := hnotify
    rw [notify_eq] at hnotify
    refine queueCandidates_invariant ?_ hnotify (addsOnly_demanded _ state _)
    intro candidate hcandidate before after hsame hbefore hinsert
    obtain ⟨round, hround, rfl⟩ := List.mem_map.mp hcandidate
    rw [List.mem_range] at hround
    have hdistance : (round + 1) * params.blkSize < 2 ^ 32 := by
      have hdegree' : degree.toNat * params.blkSize < 2 ^ 32 := by
        rw [← Int.toNat_of_nonneg (show 0 ≤ degree by omega)] at hdegree
        exact_mod_cast hdegree
      exact (Nat.mul_le_mul_right _ hround).trans_lt hdegree'
    rw [hpfi.address] at hsame hinsert
    exact hbefore.trans (addsOnly_candidate h hdistance hoffset hsame hpfi rfl hinsert)
  · intro hpos hint haddressed
    simp only [notifyTagged, Tagged.calculatePrefetch, hint, decide_true, check_true, ok_bind,
      pure_bind]
    rw [notify_eq]
    apply queueCandidates_total h _ haddressed hpfi.address
    rw [demanded_pfq]
    exact hpos

/-- The pages of the example, trained with virtual addresses. -/
def virtualParams : PrefetchParams := { pagedParams with useVirtualAddresses := true }

/-- An access to the last but one block of a page asks for three more, and gets one. -/
theorem prefetches_stay_on_the_page_lastBlocks :
    ∃ pfi next pkt,
      TriggerInfo.ofPacket (readAccess 0x7f84 0x1f84) 0x7f84 true = .ok pfi ∧
      (new virtualParams).notifyTagged virtualParams 3 (readAccess 0x7f84 0x1f84) pfi =
        .ok next ∧
      next.added.map DeferredPacket.pkt = [some pkt] ∧ pkt.addr = 0x1fc0 ∧
      virtualParams.BesideAccess (readAccess 0x7f84 0x1f84).req pkt.addr := by
  obtain ⟨next, hnotify, hseen⟩ := exists_ok_of_observed
    (show ((new virtualParams).notifyTagged virtualParams 3 (readAccess 0x7f84 0x1f84)
      (readTrigger 0x1f84 0x7f84)).toOption.map (fun next =>
        next.added.map DeferredPacket.pkt) =
      some [some (virtualParams.createPkt 0 ⟨0x7fc0, false⟩ 0x1fc0)] by decide +kernel)
  have hpaged : virtualParams.Paged 6 12 := ⟨by decide, by decide, by decide, by decide⟩
  have hpfi := ofPacket_readAccess 0x7f84 0x1f84 0x7f84
  obtain ⟨⟨more, hadded, hmates, -⟩, -⟩ :=
    (prefetches_stay_on_the_page hpaged (by decide) (fun _ => by decide)
      (TriggerInfo.ofPacket_describes hpfi)).1 next hnotify
  have hmore : next.added = more := hadded
  rw [hmore] at hseen
  obtain ⟨entry, rfl⟩ : ∃ entry, more = [entry] := by
    apply List.length_eq_one_iff.mp
    rw [← List.length_map (f := DeferredPacket.pkt), hseen]
    rfl
  obtain ⟨pkt, hpkt, -, -, -, hbeside⟩ := hmates entry List.mem_cons_self
  have haddr : pkt.addr = 0x1fc0 := by
    rw [List.map_singleton, hpkt, List.singleton_inj, Option.some.injEq] at hseen
    rw [hseen, (createPkt_facts _ _ _ _).2.2.2]
  exact ⟨_, next, pkt, hpfi, hnotify, by rw [hmore, List.map_singleton, hpkt], haddr, hbeside⟩

end Prefetcher

end KuiperCache
