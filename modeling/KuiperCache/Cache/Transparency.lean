import KuiperCache.Cache.Conservation

/-! The cache against a flat byte array.  `satisfyRequest` moves no data, so a read
is answered with the buffer it was handed in with; that is the array's contents
only when the buffer held them already. -/
namespace KuiperCache.Transparency

open Checked Cache Conservation

variable {config : CacheConfig}

/-- A flat byte array. -/
abbrev Memory := Addr → UInt8

namespace Memory

def read (memory : Memory) (addr : Addr) (size : Nat) : List UInt8 :=
  (List.range size).map fun i => memory (addr + BitVec.ofNat 64 i)

/-- `writeData`: the bytes a masked write disables stay as they are. -/
def write (memory : Memory) (pkt : Packet) : Memory := fun addr =>
  let i := (addr - pkt.addr).toNat
  let enabled := !pkt.isMaskedWrite || pkt.req.byteEnable.getD i false
  if i < pkt.size && enabled then pkt.data.getD i 0 else memory addr

/-- The array after the writes among the accepted packets, in order. -/
def after (memory : Memory) (accepted : List Packet) : Memory :=
  (accepted.filter fun pkt => pkt.cmd.isWrite).foldl write memory

end Memory

/-- The bytes a read should see: those of the writes accepted before it. -/
def flatBytes (memory : Memory) (before : List Packet) (pkt : Packet) : List UInt8 :=
  (memory.after before).read pkt.addr pkt.size

/-- A read, the packets accepted before it, and the response it was turned into. -/
structure ReadAnswered (system : System config) (before : List Packet) (pkt resp : Packet) :
    Prop where
  accepted : ∃ rest, system.accepted = before ++ pkt :: rest
  read : pkt.cmd = .readReq
  answer : resp ∈ system.cache.responses
  same : resp.ptr = pkt.ptr

/-- Whatever is read from below, the payload of an answered read is the buffer it
was handed in with. -/
theorem payload_eq_buffer {system : System config}
    (hconserved : Conserved system.accepted [] system.cache) {before : List Packet}
    {pkt resp : Packet} (h : ReadAnswered system before pkt resp) : resp.data = pkt.data := by
  obtain ⟨rest, haccepted⟩ := h.accepted
  have hpkt : pkt ∈ system.accepted := by simp [haccepted]
  obtain ⟨source, hsource, hanswered⟩ := hconserved.answered resp h.answer
  have hptr : resp.ptr = source.ptr := by rw [hanswered.same]
  have heq : pkt = source :=
    List.inj_on_of_nodup_map hconserved.distinct hpkt hsource (h.same.symm.trans hptr)
  rw [hanswered.same, heq]

/-- In every run, an answered read carries the bytes of the flat array exactly when
its buffer held them as it was handed in. -/
theorem read_transparent_iff_prefilled {writeAllocator : Option WriteAllocator}
    {labels : List (Label config)} {final : System config}
    (hlabels : ∀ label ∈ labels, plainStep label = true)
    (hrun : Transition.run System.step (System.new config writeAllocator) labels = .ok final)
    (memory : Memory) {before : List Packet} {pkt resp : Packet}
    (hread : ReadAnswered final before pkt resp) :
    resp.data = flatBytes memory before pkt ↔ pkt.data = flatBytes memory before pkt := by
  rw [payload_eq_buffer (run_conserved hlabels hrun).2 hread]

/-- A request for four bytes of the line at 0x200. -/
def benchPacket (ptr : Nat) (cmd : MemCmd) (data : List UInt8) : Packet :=
  { Packet.ofRequest ptr (Request.physical 0x200 4 0 0) cmd with data }

/-- A line is written, fetched from memory, and then read with the given buffer. -/
def writeThenRead (memory : Memory) (buffer : List UInt8) : List (Label simL0Params) :=
  let way := simL0Params.geometry.firstWay
  [.recvTimingReq (benchPacket 0 .writeReq [1, 2, 3, 4]) way,
    .sendMSHRQueuePacket ⟨0, simL0Params.mshrs_pos⟩ (some (memory.read 0x200 512)) way,
    .recvTimingReq (benchPacket 0 .readReq buffer) way]

/-- Memory that holds 7 everywhere. -/
def sevens : Memory := fun _ => 7

/-- What the run leaves behind, whatever the buffer of the read. -/
theorem writeThenRead_answered (buffer : List UInt8)
    (hseen : (Transition.run System.step (System.new simL0Params none)
        (writeThenRead sevens buffer)).toOption.map
          (fun final => (final.accepted, final.cache.responses)) =
      some ([benchPacket 0 .writeReq [1, 2, 3, 4], benchPacket 3 .readReq buffer],
        [benchPacket 0 .writeResp [1, 2, 3, 4], benchPacket 3 .readResp buffer])) :
    ∃ final, Transition.run System.step (System.new simL0Params none)
        (writeThenRead sevens buffer) = .ok final ∧
      ReadAnswered final [benchPacket 0 .writeReq [1, 2, 3, 4]] (benchPacket 3 .readReq buffer)
        (benchPacket 3 .readResp buffer) := by
  obtain ⟨final, hrun, hfinal⟩ := exists_ok_of_observed hseen
  obtain ⟨haccepted, hresponses⟩ := Prod.mk.inj hfinal
  exact ⟨final, hrun, ⟨[], haccepted⟩, rfl, by simp [hresponses], rfl⟩

/-- A read into a zeroed buffer, as the test bench makes them, gets the zeros back. -/
theorem read_after_write_returns_zeros :
    ∃ final pkt resp, Transition.run System.step (System.new simL0Params none)
        (writeThenRead sevens [0, 0, 0, 0]) = .ok final ∧
      ReadAnswered final [benchPacket 0 .writeReq [1, 2, 3, 4]] pkt resp ∧
      flatBytes sevens [benchPacket 0 .writeReq [1, 2, 3, 4]] pkt = [1, 2, 3, 4] ∧
      resp.data = [0, 0, 0, 0] := by
  obtain ⟨final, hrun, hread⟩ := writeThenRead_answered [0, 0, 0, 0] (by decide +kernel)
  exact ⟨final, _, _, hrun, hread, by decide +kernel, rfl⟩

theorem read_transparent_iff_prefilled_bench :
    ∃ final pkt resp, Transition.run System.step (System.new simL0Params none)
        (writeThenRead sevens [1, 2, 3, 4]) = .ok final ∧
      ReadAnswered final [benchPacket 0 .writeReq [1, 2, 3, 4]] pkt resp ∧
      resp.data = flatBytes sevens [benchPacket 0 .writeReq [1, 2, 3, 4]] pkt := by
  obtain ⟨final, hrun, hread⟩ := writeThenRead_answered [1, 2, 3, 4] (by decide +kernel)
  have hiff := read_transparent_iff_prefilled (by decide +kernel) hrun sevens hread
  exact ⟨final, _, _, hrun, hread, hiff.mpr (by decide +kernel)⟩

end KuiperCache.Transparency
