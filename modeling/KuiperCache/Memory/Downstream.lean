import KuiperCache.Cache.Shortage
import KuiperCache.Memory.Transport

/-! The cache with the memory below it.  The packet sent for an MSHR is read from
memory at once, and the answer comes back as the response. -/
namespace KuiperCache

open Checked Cells

namespace Initiator

/-- The bytes of a packet that a transaction moves.  Its length is 32 bits wide. -/
def transferred (pkt : Packet) : List UInt8 := pkt.data.take (pkt.size % 2 ^ 32)

theorem transferred_length_lt (pkt : Packet) : (transferred pkt).length < 2 ^ 32 := by
  rw [transferred, List.length_take]
  exact lt_of_le_of_lt (Nat.min_le_left _ _) (Nat.mod_lt _ (Nat.two_pow_pos 32))

/-- `Read`. -/
def read (mem : Memory) (pkt : Packet) : Except Assertion (Memory × Packet) := do
  let (mem, gp) ←
    mem.bTransport (readPayload pkt.addr (transferred pkt) (transferred_length_lt pkt))
  check (gp.responseStatus == .okResponse) .unexpectedResponse
  pure (mem, { pkt with data := gp.data ++ pkt.data.drop (pkt.size % 2 ^ 32) })

/-- `Write`. -/
def write (mem : Memory) (pkt : Packet) : Except Assertion (Memory × Packet) := do
  let (mem, gp) ←
    mem.bTransport (writePayload pkt.addr (transferred pkt) (transferred_length_lt pkt))
  check (gp.responseStatus == .okResponse) .unexpectedResponse
  pure (mem, pkt)

/-- `sendTimingReq`.  The buffer must be as long as the packet says. -/
def sendTimingReq (mem : Memory) (pkt : Packet) : Except Assertion (Memory × Packet) :=
  if pkt.cmd.isWrite then do
    check (!pkt.isMaskedWrite) .maskedWriteUnexpected
    check (pkt.size ≤ pkt.data.length) .undefinedBehaviour
    write mem pkt
  else if pkt.cmd.isRead then do
    check (pkt.size ≤ pkt.data.length) .undefinedBehaviour
    read mem pkt
  else .error .unexpectedCommand

end Initiator

namespace Downstream

open Cache Shortage MissTracking

variable {config : CacheConfig}

/-- `sendMSHRQueuePacket` of a cache whose `sendTimingReq` is the initiator's.
Returns the packet that memory answered, if one was sent. -/
def sendMSHRQueuePacket (cache : Cache config) (mem : Memory) (index : Fin config.mshrs)
    (random : Fin config.geometry.assoc) :
    Except Assertion (Cache config × Memory × Option Packet) := do
  let (issued, cache) ← cache.issueMSHR index
  match issued with
  | none => pure (cache, mem, none)
  | some sent => do
      let (mem, answered) ← Initiator.sendTimingReq mem sent
      let cache ← cache.handleTimingRes answered random
      pure (cache, mem, some answered)

/-- The cache, the memory, and the packets that memory has answered. -/
structure Backed (config : CacheConfig) where
  system : System config
  memory : Memory
  fetched : List Packet

inductive Event (config : CacheConfig) where
  | request (pkt : Packet) (random : Fin config.geometry.assoc)
  | prefetch (pkt : Option Packet)
  | send (index : Fin config.mshrs) (random : Fin config.geometry.assoc)

def Backed.new (config : CacheConfig) (writeAllocator : Option WriteAllocator) (memory : Memory) :
    Backed config :=
  { system := System.new config writeAllocator, memory, fetched := [] }

def step (backed : Backed config) : Event config → Except Assertion (Backed config)
  | .request pkt random => do
      let system ← backed.system.step (.recvTimingReq pkt random)
      pure { backed with system }
  | .prefetch pkt => do
      let system ← backed.system.step (.getNextQueueEntry pkt)
      pure { backed with system }
  | .send index random => do
      check (backed.system.cache.mshrQueue.readyList.contains index) .mshrExpected
      let (cache, memory, answered) ←
        sendMSHRQueuePacket backed.system.cache backed.memory index random
      pure { system := { backed.system with cache }, memory,
             fetched := backed.fetched ++ answered.toList }

/-- The same event without a memory; a send is answered. -/
def Event.label : Event config → Label config
  | .request pkt random => .recvTimingReq pkt random
  | .prefetch pkt => .getNextQueueEntry pkt
  | .send index random => .sendMSHRQueuePacket index (some []) random

def orderlyEvent (event : Event config) : Bool := orderlyStep event.label

/-! What memory answers to the read of a line. -/

/-- Why memory refuses to read a range: its end is not below the size of the memory,
or, past the last address, the bytes are not there. -/
def refusal (mem : Memory) (addr : Addr) (size : Nat) : Option Assertion :=
  if addr.toNat < mem.memorySize.toNat ∧ (addr.toNat + size) % 2 ^ 64 < mem.memorySize.toNat then
    if addr.toNat + size ≤ mem.memorySize.toNat then none else some .undefinedBehaviour
  else some .unexpectedResponse

/-- A range that does not fit is read past the end of the memory. -/
theorem load_overrun {mem : Memory} {address : Addr} {length : Nat} (hpos : 0 < length)
    (h : mem.memorySize.toNat < address.toNat + length) :
    mem.load address length = .error .undefinedBehaviour := by
  induction length generalizing address with
  | zero => omega
  | succ length ih =>
      rw [Memory.load]
      by_cases hinside : address < mem.memorySize
      · have hlt := BitVec.lt_def.mp hinside
        have hsize := mem.memorySize.isLt
        have hnext : (address + 1).toNat = address.toNat + 1 := by
          rw [BitVec.toNat_add]
          exact Nat.mod_eq_of_lt (show address.toNat + 1 < 2 ^ 64 by omega)
        rw [decide_eq_true hinside, check_true, ok_bind, ih (by omega) (by omega)]
        rfl
      · rw [decide_eq_false hinside]
        rfl

theorem bTransport_overrun {mem : Memory} {gp : GenericPayload}
    (hcommand : gp.command = .readCommand) (haccepted : mem.checkAddress gp = .okResponse)
    (hpos : 0 < gp.data.length) (h : mem.memorySize.toNat < gp.bound) :
    mem.bTransport gp = .error .undefinedBehaviour := by
  obtain ⟨hkept, haddress, hdata⟩ := Memory.checkPayload_kept gp
  have hload : mem.load (Memory.checkPayload gp).address (Memory.checkPayload gp).data.length =
      .error .undefinedBehaviour := by
    rw [haddress, hdata]
    exact load_overrun hpos h
  have hinto : mem.loadInto (Memory.checkPayload gp) = .error .undefinedBehaviour := by
    unfold Memory.loadInto
    split
    · rename_i reason herror
      rw [hload] at herror
      exact congrArg Except.error (Except.error.inj herror).symm
    · rename_i data hok
      rw [hload] at hok
      cases hok
  rw [Memory.bTransport, hkept, hcommand]
  simp only [if_pos haccepted, hinto]
  rfl

/-- A read packet is refused, or answered with the bytes of the memory, which stays
as it is. -/
theorem sendTimingReq_read (mem : Memory) {pkt : Packet} (hcmd : pkt.cmd = .readReq)
    (hlength : pkt.data.length = pkt.size) (hpos : 0 < pkt.size) (hsize : pkt.size < 2 ^ 32) :
    Settles (refusal mem pkt.addr pkt.size)
      (fun answer => answer =
        (mem, { pkt with data := slice mem.memory pkt.addr.toNat pkt.size }))
      (Initiator.sendTimingReq mem pkt) := by
  have hmod : pkt.size % 2 ^ 32 = pkt.size := Nat.mod_eq_of_lt hsize
  have hbuffer : (Initiator.transferred pkt).length = pkt.size := by
    rw [Initiator.transferred, List.length_take, hmod, hlength, Nat.min_self]
  have hwrite : MemCmd.readReq.isWrite = false := rfl
  have hread : MemCmd.readReq.isRead = true := rfl
  simp only [Initiator.sendTimingReq, hcmd, hwrite, hread, hlength, le_refl, decide_true,
    Bool.false_eq_true, ↓reduceIte, check_true, ok_bind, Initiator.read]
  generalize hgp : Initiator.readPayload pkt.addr (Initiator.transferred pkt)
    (Initiator.transferred_length_lt pkt) = gp
  have hcommand : gp.command = .readCommand := by rw [← hgp]; rfl
  have hdata : gp.data.length = pkt.size := by rw [← hgp]; exact hbuffer
  have haddr : gp.address = pkt.addr := by rw [← hgp]; rfl
  have hbound : gp.bound = pkt.addr.toNat + pkt.size := by
    rw [GenericPayload.bound, hdata, haddr]
  have haccepts : mem.checkAddress gp = .okResponse ↔
      pkt.addr.toNat < mem.memorySize.toNat ∧
        (pkt.addr.toNat + pkt.size) % 2 ^ 64 < mem.memorySize.toNat := by
    rw [Memory.checkAddress_eq_ok, hbound, haddr]
  unfold refusal
  by_cases haccepted : mem.checkAddress gp = .okResponse
  · rw [if_pos (haccepts.mp haccepted)]
    by_cases hfits : pkt.addr.toNat + pkt.size ≤ mem.memorySize.toNat
    · obtain ⟨resp, htransport, hresp⟩ :=
        Memory.bTransport_read hcommand haccepted (hbound ▸ hfits)
      have hstatus := (Memory.bTransport_status htransport).trans haccepted
      rw [if_pos hfits, settles_none, htransport]
      simp only [ok_bind, hstatus, beq_self_eq_true, check_true]
      refine ⟨_, rfl, ?_⟩
      rw [hresp, hdata, haddr, hmod, List.drop_of_length_le (Nat.le_of_eq hlength),
        List.append_nil]
    · rw [if_neg hfits, settles_some,
        bTransport_overrun hcommand haccepted (hdata ▸ hpos) (by omega)]
      rfl
  · have hignore : gp.command ≠ .ignoreCommand := by
      rw [hcommand]
      intro h
      cases h
    obtain ⟨resp, htransport, -⟩ := Memory.bTransport_refused hignore haccepted
    have hstatus := Memory.bTransport_status htransport
    rw [if_neg (fun h => haccepted (haccepts.mpr h)), settles_some, htransport]
    simp only [ok_bind, hstatus]
    rw [beq_eq_false_iff_ne.mpr haccepted]
    rfl

/-! Sending an entry to memory. -/

/-- The packet sent for an entry reads its line. -/
structure ReadsLine (cache : Cache config) (index : Fin config.mshrs) (sent : Packet) : Prop where
  cmd : sent.cmd = .readReq
  addr : sent.addr = (cache.mshrQueue.entries index).blkAddr
  secure : sent.isSecure = (cache.mshrQueue.entries index).isSecure
  size : sent.size = config.blkSize

theorem missPacket_readsLine {cache : Cache config} (h : Ready cache) {index : Fin config.mshrs}
    (hmem : index ∈ cache.mshrQueue.allocatedList) {first : Target}
    (hfirst : (cache.mshrQueue.entries index).getTarget = .ok first) (ptr : Nat) :
    ReadsLine cache index (missPacket config index first.pkt.req ptr) ∧
      (missPacket config index first.pkt.req ptr).data.length = config.blkSize := by
  obtain ⟨rest, hcons⟩ := Mshr.getTarget_eq_ok.mp hfirst
  have hwaiting : first.unmarked ∈ (cache.mshrQueue.entries index).waiting := by
    simp [Mshr.waiting, hcons]
  obtain ⟨hat, hline, hsecure⟩ := (h.tracked.waits index hmem).line _ hwaiting
  obtain ⟨-, haddr, hreq⟩ := atRequest_eq hat
  rw [Target.unmarked_pkt] at hline hsecure haddr hreq
  rw [haddr] at hline
  refine ⟨⟨rfl, hline, hreq.symm.trans hsecure, rfl⟩, ?_⟩
  exact List.length_replicate

/-- What is sent to memory, next to what is sent to a given answer. -/
theorem sendMSHRQueuePacket_eq {cache after : Cache config} (h : Ready cache)
    {index : Fin config.mshrs} (hmem : index ∈ cache.mshrQueue.allocatedList) {first : Target}
    (hfirst : (cache.mshrQueue.entries index).getTarget = .ok first)
    (hdelay : cache.coalesceDelay index first.pkt = (false, after)) (mem : Memory)
    (random : Fin config.geometry.assoc) :
    sendMSHRQueuePacket cache mem index random = (do
      let (mem, answered) ←
        Initiator.sendTimingReq mem (missPacket config index first.pkt.req after.nextPtr)
      let next ← (issued after index).handleTimingRes answered random
      pure (next, mem, some answered)) := by
  rw [sendMSHRQueuePacket, h.issueMSHR_eq hmem hfirst hdelay]
  rfl

/-- The packet that memory answers with the line of an entry. -/
def answer (mem : Memory) (sent : Packet) : Packet :=
  { sent with data := slice mem.memory sent.addr.toNat sent.size }

/-- An entry that is sent to memory is held back, refused, or answered with its line. -/
theorem sendMSHRQueuePacket_settles {cache : Cache config} (h : Ready cache)
    {index : Fin config.mshrs} (hmem : index ∈ cache.mshrQueue.allocatedList) (mem : Memory)
    (random : Fin config.geometry.assoc) :
    (heldBack cache index = true ∧ ∃ next,
        sendMSHRQueuePacket cache mem index random = .ok (next, mem, none) ∧
        cache.sendMSHRQueuePacket index (some []) random = .ok (false, next, none)) ∨
      (heldBack cache index = false ∧ ∃ reason,
        refusal mem (cache.mshrQueue.entries index).blkAddr config.blkSize = some reason ∧
        sendMSHRQueuePacket cache mem index random = .error reason) ∨
      (heldBack cache index = false ∧
        refusal mem (cache.mshrQueue.entries index).blkAddr config.blkSize = none ∧
        ∃ sent, ReadsLine cache index sent ∧ sendMSHRQueuePacket cache mem index random = (do
          let (_, next, _) ← cache.sendMSHRQueuePacket index (some (answer mem sent).data) random
          pure (next, mem, some (answer mem sent)))) := by
  obtain ⟨first, rest, hcons⟩ := List.exists_cons_of_ne_nil (h.tracked.waits index hmem).held
  have hfirst : (cache.mshrQueue.entries index).getTarget = .ok first :=
    Mshr.getTarget_eq_ok.mpr ⟨rest, hcons⟩
  rw [heldBack_eq hfirst]
  cases hdelay : cache.coalesceDelay index first.pkt with
  | mk delayed after =>
      cases delayed with
      | true =>
          have hheld := issueMSHR_eq_none.mpr ⟨first, hfirst, hdelay⟩
          refine .inl ⟨rfl, after, ?_, ?_⟩
          · rw [sendMSHRQueuePacket, hheld]
            rfl
          · rw [Cache.sendMSHRQueuePacket, hheld]
            rfl
      | false =>
          obtain ⟨hline, hlength⟩ := missPacket_readsLine h hmem hfirst after.nextPtr
          have hread := sendTimingReq_read mem hline.cmd (hlength.trans hline.size.symm)
            (by rw [hline.size]; exact Nat.two_pow_pos _)
            (by
              rw [hline.size]
              exact Nat.pow_lt_pow_right (by omega) (by have := config.geometry.blkBits_lt; omega))
          rw [hline.addr, hline.size] at hread
          have hsend := sendMSHRQueuePacket_eq h hmem hfirst hdelay mem random
          cases hrefusal : refusal mem (cache.mshrQueue.entries index).blkAddr config.blkSize with
          | some reason =>
              rw [hrefusal, settles_some] at hread
              rw [hread] at hsend
              exact .inr (.inl ⟨rfl, reason, rfl, hsend⟩)
          | none =>
              rw [hrefusal, settles_none] at hread
              obtain ⟨_, hread, rfl⟩ := hread
              refine .inr (.inr ⟨rfl, rfl, _, hline, ?_⟩)
              rw [hsend, hread]
              simp only [ok_bind, h.sendMSHRQueuePacket_eq hmem hfirst hdelay, answer, hline.addr,
                hline.size]
              generalize Cache.handleTimingRes _ _ _ = answered
              cases answered <;> rfl

/-- What is known of an entry that was sent to memory: it was held back, or its line
was read and went into a free way. -/
theorem sendMSHRQueuePacket_cases {cache next : Cache config} (h : Ready cache)
    {index : Fin config.mshrs} (hmem : index ∈ cache.mshrQueue.allocatedList) {mem mem' : Memory}
    {random : Fin config.geometry.assoc} {answered : Option Packet}
    (hsend : sendMSHRQueuePacket cache mem index random = .ok (next, mem', answered)) :
    mem' = mem ∧ Ready next ∧ ((answered = none ∧ Kept cache next) ∨
      refusal mem (cache.mshrQueue.entries index).blkAddr config.blkSize = none ∧
      ∃ sent way, ReadsLine cache index sent ∧ answered = some (answer mem sent) ∧
        (cache.tags.blks (config.geometry.extractSet (cache.mshrQueue.entries index).blkAddr)
          way).valid = false ∧
        Installed cache.tags next.tags (cache.mshrQueue.entries index).blkAddr
          (cache.mshrQueue.entries index).isSecure way) := by
  obtain ⟨-, held, hheld, hcache⟩ | ⟨-, reason, -, herror⟩ | ⟨hheld, hrefusal, sent, hline, heq⟩ :=
    sendMSHRQueuePacket_settles h hmem mem random
  · rw [hheld, Except.ok.injEq, Prod.mk.injEq, Prod.mk.injEq] at hsend
    obtain ⟨rfl, rfl, rfl⟩ := hsend
    obtain ⟨-, ⟨-, -, hkept⟩ | ⟨hwaiting, -⟩⟩ := h.sendMSHRQueuePacket_cases hcache
    · exact ⟨rfl, h.sendMSHRQueuePacket_next hcache, .inl ⟨rfl, hkept⟩⟩
    · cases hwaiting
  · rw [herror] at hsend
    cases hsend
  · simp only [heq, bind_eq_ok, pure_eq_ok, Prod.mk.injEq] at hsend
    obtain ⟨⟨waiting, next', flight⟩, hcache, rfl, rfl, rfl⟩ := hsend
    have hwaiting := h.sendMSHRQueuePacket_waiting hmem hcache
    rw [hheld] at hwaiting
    obtain ⟨-, ⟨-, hnot, -⟩ | ⟨-, way, free, -, hinvalid, hinstalled⟩⟩ :=
      h.sendMSHRQueuePacket_cases hcache
    · rw [hnot] at hwaiting
      cases hwaiting
    · exact ⟨rfl, h.sendMSHRQueuePacket_next hcache,
        .inr ⟨hrefusal, sent, way, hline, rfl, hinvalid, hinstalled⟩⟩

/-! Runs. -/

/-- The line a packet is for. -/
def lineOf (pkt : Packet) : Addr × Bool := (pkt.addr, pkt.isSecure)

/-- A packet that memory answered with a whole line, short of the last one. -/
structure LineRead (config : CacheConfig) (mem : Memory) (pkt : Packet) : Prop where
  cmd : pkt.cmd = .readReq
  aligned : config.geometry.lineAddr pkt.addr = pkt.addr
  size : pkt.size = config.blkSize
  inside : pkt.addr.toNat + config.blkSize < mem.memorySize.toNat
  data : pkt.data = slice mem.memory pkt.addr.toNat config.blkSize

/-- What holds in every run: memory stays as it was, and the lines cached are those
fetched from it, each of them once. -/
structure Fetches (mem : Memory) (backed : Backed config) : Prop where
  ready : Ready backed.system.cache
  memory : backed.memory = mem
  line : ∀ pkt ∈ backed.fetched, LineRead config mem pkt
  once : (backed.fetched.map lineOf).Nodup
  cached : ∀ addr secure, (backed.system.cache.tags.findBlock addr secure).isSome = true ↔
    (config.geometry.lineAddr addr, secure) ∈ backed.fetched.map lineOf

theorem Fetches.kept {mem : Memory} {backed : Backed config} {system : System config}
    (h : Fetches mem backed) (hready : Ready system.cache)
    (hlines : ∀ set way, CacheBlk.LineKept (backed.system.cache.tags.blks set way)
      (system.cache.tags.blks set way)) : Fetches mem { backed with system } := by
  refine ⟨hready, h.memory, h.line, h.once, ?_⟩
  intro addr secure
  rw [Tags.findBlock_kept hlines]
  exact h.cached addr secure

theorem refusal_eq_none {mem : Memory} {addr : Addr} {size : Nat}
    (h : refusal mem addr size = none) : addr.toNat + size < mem.memorySize.toNat := by
  unfold refusal at h
  split at h
  · rename_i haccepted
    split at h
    · rename_i hfits
      have hsize := mem.memorySize.isLt
      have hmod := haccepted.2
      rwa [Nat.mod_eq_of_lt (by omega)] at hmod
    · cases h
  · cases h

/-- The line of an entry is read and cached. -/
theorem Fetches.fetch {mem : Memory} {backed : Backed config} (h : Fetches mem backed)
    {index : Fin config.mshrs} (hmem : index ∈ backed.system.cache.mshrQueue.allocatedList)
    {cache : Cache config} (hready : Ready cache) {sent : Packet}
    (hsent : ReadsLine backed.system.cache index sent)
    (hrefusal : refusal mem (backed.system.cache.mshrQueue.entries index).blkAddr config.blkSize =
      none) {way : Fin config.geometry.assoc}
    (hinvalid : (backed.system.cache.tags.blks (config.geometry.extractSet
      (backed.system.cache.mshrQueue.entries index).blkAddr) way).valid = false)
    (hinstalled : Installed backed.system.cache.tags cache.tags
      (backed.system.cache.mshrQueue.entries index).blkAddr
      (backed.system.cache.mshrQueue.entries index).isSecure way) :
    Fetches mem { system := { backed.system with cache }, memory := mem,
                  fetched := backed.fetched ++ [answer mem sent] } := by
  have haligned := (h.ready.tracked.waits index hmem).aligned
  have hkey : lineOf (answer mem sent) = ((backed.system.cache.mshrQueue.entries index).blkAddr,
      (backed.system.cache.mshrQueue.entries index).isSecure) := by
    rw [lineOf, answer, hsent.addr, hsent.secure]
  refine ⟨hready, rfl, ?_, ?_, ?_⟩
  · intro pkt hpkt
    rw [List.mem_append, List.mem_singleton] at hpkt
    obtain hold | rfl := hpkt
    · exact h.line pkt hold
    · refine ⟨hsent.cmd, ?_, hsent.size, ?_, ?_⟩
      · rw [answer, hsent.addr, haligned]
      · rw [answer, hsent.addr]
        exact refusal_eq_none hrefusal
      · rw [answer, hsent.size]
  · rw [List.map_append, List.map_singleton, List.nodup_append]
    refine ⟨h.once, List.nodup_singleton _, ?_⟩
    intro line hline other hother hsame
    rw [List.mem_singleton, hkey] at hother
    subst hsame hother
    have hfound := (h.cached (backed.system.cache.mshrQueue.entries index).blkAddr
      (backed.system.cache.mshrQueue.entries index).isSecure).mpr (by rw [haligned]; exact hline)
    rw [h.ready.tracked.absent index hmem] at hfound
    cases hfound
  · intro addr secure
    rw [findBlock_installed hinstalled hinvalid, h.cached, List.map_append, List.mem_append,
      List.map_singleton, List.mem_singleton, hkey, haligned, Prod.mk.injEq]

/-- What the next event lacks: a free MSHR, a place for the line, or the line below. -/
def shortage (backed : Backed config) : Event config → Option Assertion
  | .send index random =>
      if backed.system.cache.mshrQueue.readyList.contains index &&
          !heldBack backed.system.cache index then
        (refusal backed.memory (backed.system.cache.mshrQueue.entries index).blkAddr
          config.blkSize).or
            (Shortage.shortage backed.system (.sendMSHRQueuePacket index (some []) random))
      else Shortage.shortage backed.system (.sendMSHRQueuePacket index (some []) random)
  | event => Shortage.shortage backed.system event.label

theorem step_failure (backed : Backed config) (event : Event config)
    (hevent : orderlyEvent event = true) (h : Ready backed.system.cache) :
    failure (step backed event) = shortage backed event := by
  have hplain := Shortage.step_failure backed.system event.label hevent h
  cases event with
  | request pkt random => exact (failure_bind_pure _ _).trans hplain
  | prefetch pkt => exact (failure_bind_pure _ _).trans hplain
  | send index random =>
      simp only [step, shortage]
      by_cases hlisted : backed.system.cache.mshrQueue.readyList.contains index = true
      · have hmem : index ∈ backed.system.cache.mshrQueue.allocatedList :=
          ((h.sound.represents.ready.mem index).mp (by simpa using hlisted)).1
        simp only [hlisted, check_true, ok_bind, Bool.true_and, Shortage.shortage, sendShortage,
          Bool.not_true, Bool.false_eq_true, ↓reduceIte]
        refine (failure_bind_pure _ _).trans ?_
        obtain ⟨hheld, held, hok, -⟩ | ⟨hheld, reason, hreason, herror⟩ |
          ⟨hheld, hnone, sent, -, heq⟩ := sendMSHRQueuePacket_settles h hmem backed.memory random
        · rw [hok, hheld]
          rfl
        · rw [herror, hheld, hreason]
          rfl
        · have hcache := h.sendMSHRQueuePacket hmem (answer backed.memory sent).data random
          rw [heq, hnone, hheld, failure_bind_pure, hcache, hheld]
          rfl
      · rw [Bool.not_eq_true] at hlisted
        simp only [hlisted, check_false, error_bind, Bool.false_and, Bool.false_eq_true, ↓reduceIte,
          Shortage.shortage, sendShortage, Bool.not_false]
        rfl

end Downstream

end KuiperCache
