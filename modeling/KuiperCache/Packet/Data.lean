import Mathlib.Logic.Function.Basic
import KuiperCache.Library.Alignment
import KuiperCache.Library.Cells
import KuiperCache.Packet.Packet

/-! The bytes of a packet and the bytes of a block.  Both lie in one memory: the
packet points to its data, and the block starts somewhere.  A write copies its
enabled bytes into the block, a read copies a run of the block into its data. -/
namespace KuiperCache

open Checked Cells

abbrev ByteMemory := Nat → UInt8

/-- `std::memcpy`: two ranges that overlap are undefined behaviour. -/
def memcpy (mem : ByteMemory) (dest src n : Nat) : Except Assertion ByteMemory := do
  check (dest + n ≤ src || src + n ≤ dest) .undefinedBehaviour
  pure (overwrite mem dest (slice mem src n))

/-- The loop of a masked write, from the first byte on. -/
def writeEnabled (mem : ByteMemory) (p base : Nat) : List Bool → ByteMemory
  | [] => mem
  | enabled :: byteEnable =>
      writeEnabled (if enabled then Function.update mem p (mem base) else mem) (p + 1) (base + 1)
        byteEnable

/-- A packet with the flags that its accessors assert, and its data pointer. -/
structure PacketObject extends Packet where
  dataPtr : Nat
  validAddr : Bool
  validSize : Bool
  staticData : Bool
  dynamicData : Bool
deriving DecidableEq, Repr

namespace PacketObject

def getAddr (pkt : PacketObject) : Except Assertion Addr := do
  check pkt.validAddr .addrExpected
  pure pkt.addr

def getSize (pkt : PacketObject) : Except Assertion Nat := do
  check pkt.validSize .sizeExpected
  pure pkt.size

def getOffset (pkt : PacketObject) (blkSize : Nat) : Except Assertion Addr := do
  let addr ← pkt.getAddr
  pure (addr &&& BitVec.ofNat 64 (blkSize - 1))

def getPtr (pkt : PacketObject) : Except Assertion Nat := do
  check (pkt.staticData || pkt.dynamicData) .dataExpected
  check (!pkt.isMaskedWrite) .maskedWriteUnexpected
  pure pkt.dataPtr

def getConstPtr (pkt : PacketObject) : Except Assertion Nat := do
  check (pkt.staticData || pkt.dynamicData) .dataExpected
  pure pkt.dataPtr

/-- Copy the bytes at `p` to where the packet has its data. -/
def setData (pkt : PacketObject) (mem : ByteMemory) (p : Nat) : Except Assertion ByteMemory := do
  let ptr ← pkt.getPtr
  check (p != ptr || pkt.staticData) .copyOntoItself
  if p != ptr then
    let size ← pkt.getSize
    memcpy mem ptr p size
  else
    pure mem

def setDataFromBlock (pkt : PacketObject) (mem : ByteMemory) (blkData blkSize : Nat) :
    Except Assertion ByteMemory := do
  let offset ← pkt.getOffset blkSize
  pkt.setData mem (blkData + offset.toNat)

/-- Copy the packet's data to `p`.  The bytes that a masked write disables stay
untouched. -/
def writeData (pkt : PacketObject) (mem : ByteMemory) (p : Nat) : Except Assertion ByteMemory := do
  if !pkt.isMaskedWrite then
    let base ← pkt.getConstPtr
    let size ← pkt.getSize
    memcpy mem p base size
  else
    let size ← pkt.getSize
    check (pkt.req.byteEnable.length == size) .maskSizeExpected
    let base ← pkt.getConstPtr
    pure (writeEnabled mem p base pkt.req.byteEnable)

def writeDataToBlock (pkt : PacketObject) (mem : ByteMemory) (blkData blkSize : Nat) :
    Except Assertion ByteMemory := do
  let offset ← pkt.getOffset blkSize
  pkt.writeData mem (blkData + offset.toNat)

/-- The packets write to the block one after the other. -/
def writesToBlock (mem : ByteMemory) (blkData blkSize : Nat) :
    List PacketObject → Except Assertion ByteMemory
  | [] => pure mem
  | pkt :: pkts => do
      let mem ← pkt.writeDataToBlock mem blkData blkSize
      writesToBlock mem blkData blkSize pkts

end PacketObject

namespace Packet

/-- Whether byte `i` of a block is among the bytes of the packet. -/
def covers (pkt : Packet) (blkSize i : Nat) : Bool :=
  pkt.addr.toNat % blkSize ≤ i && i < pkt.addr.toNat % blkSize + pkt.size

/-- Only a masked write disables bytes. -/
def enables (pkt : Packet) (byte : Nat) : Bool :=
  !pkt.isMaskedWrite || pkt.req.byteEnable.getD byte false

/-- The data byte that the packet has for byte `i` of a block. -/
def byteFor (pkt : Packet) (blkSize i : Nat) : Option UInt8 :=
  if pkt.covers blkSize i && pkt.enables (i - pkt.addr.toNat % blkSize) then
    pkt.data[i - pkt.addr.toNat % blkSize]?
  else none

end Packet

namespace PacketObject

/-- Every byte of a block is that of the last packet that has one for it. -/
def blockBytes (contents : Nat → UInt8) (blkSize : Nat) (pkts : List PacketObject) : Nat → UInt8 :=
  lastPatch contents (pkts.map fun pkt => pkt.byteFor blkSize)

/-- A packet that can write to the block: the block and the packet's data are
different memory. -/
structure WritesInside (mem : ByteMemory) (blkData blkSize : Nat) (pkt : PacketObject) : Prop where
  hasAddr : pkt.validAddr = true
  hasSize : pkt.validSize = true
  hasData : (pkt.staticData || pkt.dynamicData) = true
  stored : slice mem pkt.dataPtr pkt.size = pkt.data
  apart : pkt.dataPtr + pkt.size ≤ blkData ∨ blkData + blkSize ≤ pkt.dataPtr
  inside : pkt.addr.toNat % blkSize + pkt.size ≤ blkSize
  masked : pkt.isMaskedWrite = true → pkt.req.byteEnable.length = pkt.size

/-- A packet that can read from the block.  Its data either are elsewhere, or are
the bytes it reads and known to be static. -/
structure ReadsInside (blkData blkSize : Nat) (pkt : PacketObject) : Prop where
  isRead : pkt.cmd.isRead = true
  hasAddr : pkt.validAddr = true
  hasSize : pkt.validSize = true
  hasData : (pkt.staticData || pkt.dynamicData) = true
  inside : pkt.addr.toNat % blkSize + pkt.size ≤ blkSize
  place : if pkt.dataPtr = blkData + pkt.addr.toNat % blkSize then pkt.staticData = true
    else pkt.dataPtr + pkt.size ≤ blkData + pkt.addr.toNat % blkSize ∨
      blkData + pkt.addr.toNat % blkSize + pkt.size ≤ pkt.dataPtr

variable {mem : ByteMemory} {pkt : PacketObject} {p base dest src n blkData blkSize bits : Nat}

theorem memcpy_eq_ok (hapart : dest + n ≤ src ∨ src + n ≤ dest) :
    memcpy mem dest src n = .ok (overwrite mem dest (slice mem src n)) := by
  simp only [memcpy, bind_eq_ok, check_eq_ok, exists_const, pure_eq_ok, Bool.or_eq_true,
    decide_eq_true_eq, and_true]
  exact hapart

theorem lt_length_of_enabled {byteEnable : List Bool} {i : Nat}
    (henabled : byteEnable.getD i false = true) : i < byteEnable.length := by
  by_contra hge
  rw [List.getD_eq_default _ _ (Nat.le_of_not_lt hge)] at henabled
  cases henabled

/-- The loop reads every byte before it writes it, so it is one write. -/
theorem writeEnabled_eq_patch {byteEnable : List Bool}
    (hapart : base + byteEnable.length ≤ p ∨ p + byteEnable.length ≤ base) :
    writeEnabled mem p base byteEnable =
      patch mem (placed p fun i =>
        if byteEnable.getD i false then some (mem (base + i)) else none) := by
  induction byteEnable generalizing mem p base with
  | nil =>
      funext address
      simp [writeEnabled, patch, placed]
  | cons enabled byteEnable ih =>
      rw [List.length_cons] at hapart
      have hwritten : (if enabled then Function.update mem p (mem base) else mem) =
          Function.update mem p ((if enabled then some (mem base) else none).getD (mem p)) := by
        cases enabled with
        | false => exact (Function.update_eq_self p mem).symm
        | true => rfl
      rw [writeEnabled, hwritten, ih (by omega), patch_placed_succ mem p]
      congr 2
      funext i
      rw [List.getD_cons_succ]
      by_cases henabled : byteEnable.getD i false = true
      · have hlt := lt_length_of_enabled henabled
        have hsource : base + 1 + i = base + (i + 1) := by omega
        -- this byte is not the one just written
        rw [if_pos henabled, if_pos henabled, Function.update_of_ne (by omega), hsource]
      · rw [if_neg henabled, if_neg henabled]

theorem getOffset_eq_ok (haddr : pkt.validAddr = true) (bits : Nat) :
    ∃ offset, pkt.getOffset (2 ^ bits) = .ok offset ∧
      offset.toNat = pkt.addr.toNat % 2 ^ bits := by
  refine ⟨pkt.addr &&& BitVec.ofNat 64 (2 ^ bits - 1), ?_,
    Alignment.toNat_and_two_pow_sub_one pkt.addr bits⟩
  rw [getOffset, getAddr, haddr]
  rfl

theorem getSize_eq_ok (hsize : pkt.validSize = true) : pkt.getSize = .ok pkt.size := by
  rw [getSize, hsize]
  rfl

theorem getConstPtr_eq_ok (hdata : (pkt.staticData || pkt.dynamicData) = true) :
    pkt.getConstPtr = .ok pkt.dataPtr := by
  rw [getConstPtr, hdata]
  rfl

/-- A read is no masked write, so its data can be written. -/
theorem getPtr_eq_ok (hdata : (pkt.staticData || pkt.dynamicData) = true)
    (hread : pkt.cmd.isRead = true) : pkt.getPtr = .ok pkt.dataPtr := by
  have hmasked : pkt.isMaskedWrite = false := by
    rw [Packet.isMaskedWrite, Bool.and_eq_false_iff]
    left
    cases hcmd : pkt.cmd <;> first | rfl | (rw [hcmd] at hread; cases hread)
  rw [getPtr, hdata, hmasked]
  rfl

/-- A write of the enabled bytes, masked or not. -/
theorem writeData_eq_ok (hsize : pkt.validSize = true)
    (hdata : (pkt.staticData || pkt.dynamicData) = true)
    (hapart : pkt.dataPtr + pkt.size ≤ p ∨ p + pkt.size ≤ pkt.dataPtr)
    (hmasked : pkt.isMaskedWrite = true → pkt.req.byteEnable.length = pkt.size) :
    pkt.writeData mem p =
      .ok (patch mem (placed p fun i =>
        if pkt.enables i then (slice mem pkt.dataPtr pkt.size)[i]? else none)) := by
  rw [writeData, getSize_eq_ok hsize, getConstPtr_eq_ok hdata, ok_bind, ok_bind, ok_bind]
  cases hmask : pkt.isMaskedWrite with
  | false =>
      have henables : ∀ i, pkt.enables i = true := by
        intro i
        rw [Packet.enables, hmask]
        rfl
      simp only [Bool.not_false, ↓reduceIte, henables]
      rw [memcpy_eq_ok hapart.symm, overwrite_eq_patch]
  | true =>
      have hlength := hmasked hmask
      have henables : ∀ i, pkt.enables i = pkt.req.byteEnable.getD i false := by
        intro i
        rw [Packet.enables, hmask]
        rfl
      simp only [Bool.not_true, Bool.false_eq_true, ↓reduceIte, hlength, beq_self_eq_true,
        check_true, ok_bind, henables]
      rw [writeEnabled_eq_patch (by omega)]
      congr 3
      funext i
      by_cases henabled : pkt.req.byteEnable.getD i false = true
      · have hlt := lt_length_of_enabled henabled
        rw [if_pos henabled, if_pos henabled, getElem?_slice, if_pos (by omega)]
      · rw [if_neg henabled, if_neg henabled]

/-- Where a write inside the block puts which bytes. -/
theorem placed_byteFor (pkt : Packet) (hlength : pkt.data.length = pkt.size) :
    (placed (pkt.addr.toNat % blkSize) fun i => if pkt.enables i then pkt.data[i]? else none) =
      pkt.byteFor blkSize := by
  funext i
  unfold placed Packet.byteFor Packet.covers
  by_cases hstart : pkt.addr.toNat % blkSize ≤ i
  · by_cases hend : i < pkt.addr.toNat % blkSize + pkt.size
    · simp [hstart, hend]
    · have hnone : pkt.data[i - pkt.addr.toNat % blkSize]? = none :=
        List.getElem?_eq_none (by omega)
      simp [hstart, hend, hnone]
  · simp [hstart]

theorem byteFor_eq_none {pkt : Packet} {i : Nat}
    (hout : pkt.addr.toNat % blkSize + pkt.size ≤ i) : pkt.byteFor blkSize i = none := by
  have hend : ¬ i < pkt.addr.toNat % blkSize + pkt.size := by omega
  simp [Packet.byteFor, Packet.covers, hend]

namespace WritesInside

theorem length_data (h : pkt.WritesInside mem blkData blkSize) : pkt.data.length = pkt.size := by
  rw [← h.stored, length_slice]

/-- What lies outside the block stays as it is. -/
theorem patch_outside (h : pkt.WritesInside mem blkData blkSize) {address : Nat}
    (hout : address < blkData ∨ blkData + blkSize ≤ address) :
    patch mem (placed blkData (pkt.byteFor blkSize)) address = mem address := by
  have hinside := h.inside
  unfold patch placed
  by_cases hstart : blkData ≤ address
  · rw [if_pos hstart, byteFor_eq_none (by omega)]
    rfl
  · rw [if_neg hstart]
    rfl

/-- The packet's data are outside the block. -/
theorem of_outside {mem' : ByteMemory} (h : pkt.WritesInside mem blkData blkSize)
    (houtside : ∀ address, address < blkData ∨ blkData + blkSize ≤ address →
      mem' address = mem address) : pkt.WritesInside mem' blkData blkSize := by
  have hstored : slice mem' pkt.dataPtr pkt.size = slice mem pkt.dataPtr pkt.size := by
    apply slice_congr
    intro i hi
    have hapart := h.apart
    exact houtside _ (by omega)
  exact { h with stored := hstored.trans h.stored }

/-- One write. -/
theorem writeDataToBlock_eq_ok (h : pkt.WritesInside mem blkData (2 ^ bits)) :
    pkt.writeDataToBlock mem blkData (2 ^ bits) =
      .ok (patch mem (placed blkData (pkt.byteFor (2 ^ bits)))) := by
  obtain ⟨offset, hoffset, htoNat⟩ := getOffset_eq_ok h.hasAddr bits
  have hinside := h.inside
  have hapart := h.apart
  rw [writeDataToBlock, hoffset, ok_bind, htoNat,
    writeData_eq_ok h.hasSize h.hasData (by omega) h.masked, h.stored, placed_add,
    placed_byteFor _ h.length_data]

end WritesInside

/-- The writes one after the other. -/
theorem writesToBlock_eq_ok {pkts : List PacketObject}
    (h : ∀ pkt ∈ pkts, pkt.WritesInside mem blkData (2 ^ bits)) :
    ∃ final, writesToBlock mem blkData (2 ^ bits) pkts = .ok final ∧
      (∀ i < 2 ^ bits, final (blkData + i) =
        blockBytes (fun i => mem (blkData + i)) (2 ^ bits) pkts i) ∧
      ∀ address, address < blkData ∨ blkData + 2 ^ bits ≤ address →
        final address = mem address := by
  induction pkts generalizing mem with
  | nil => exact ⟨mem, rfl, fun _ _ => rfl, fun _ _ => rfl⟩
  | cons pkt pkts ih =>
      have hpkt := h pkt List.mem_cons_self
      have hrest : ∀ other ∈ pkts, other.WritesInside
          (patch mem (placed blkData (pkt.byteFor (2 ^ bits)))) blkData (2 ^ bits) := by
        intro other hother
        exact (h other (List.mem_cons_of_mem pkt hother)).of_outside
          fun _ hout => hpkt.patch_outside hout
      obtain ⟨final, hrun, hbytes, houtside⟩ := ih hrest
      refine ⟨final, ?_, ?_, ?_⟩
      · rw [writesToBlock, hpkt.writeDataToBlock_eq_ok, ok_bind, hrun]
      · intro i hi
        rw [hbytes i hi, blockBytes, blockBytes, List.map_cons, lastPatch_cons]
        exact lastPatch_congr (patch_placed mem blkData _ i) _
      · intro address hout
        rw [houtside address hout, hpkt.patch_outside hout]

/-- One read. -/
theorem setDataFromBlock_eq_ok (h : pkt.ReadsInside blkData (2 ^ bits)) (mem : ByteMemory) :
    ∃ after, pkt.setDataFromBlock mem blkData (2 ^ bits) = .ok after ∧
      slice after pkt.dataPtr pkt.size =
        slice mem (blkData + pkt.addr.toNat % 2 ^ bits) pkt.size := by
  obtain ⟨offset, hoffset, htoNat⟩ := getOffset_eq_ok h.hasAddr bits
  have hplace := h.place
  rw [setDataFromBlock, hoffset, ok_bind, htoNat, setData, getPtr_eq_ok h.hasData h.isRead, ok_bind,
    getSize_eq_ok h.hasSize]
  generalize blkData + pkt.addr.toNat % 2 ^ bits = p at hplace ⊢
  by_cases hsame : pkt.dataPtr = p
  · -- the packet already points to the bytes
    rw [if_pos hsame] at hplace
    refine ⟨mem, ?_, by rw [hsame]⟩
    simp [hsame, hplace]
  · rw [if_neg hsame] at hplace
    refine ⟨overwrite mem pkt.dataPtr (slice mem p pkt.size), ?_, ?_⟩
    · have hne : (p != pkt.dataPtr) = true := by simpa using Ne.symm hsame
      rw [hne, Bool.true_or, check_true, ok_bind, if_pos rfl, ok_bind, memcpy_eq_ok hplace]
    · have hslice := slice_overwrite mem pkt.dataPtr (slice mem p pkt.size)
      rw [length_slice] at hslice
      exact hslice

/-- The block ends up with the bytes of the last packet to enable each, and
nothing else changes.  A read from it gets just these bytes. -/
theorem block_holds_last_enabled_bytes (mem : ByteMemory) (blkData bits : Nat)
    (pkts : List PacketObject) (hpkts : ∀ pkt ∈ pkts, pkt.WritesInside mem blkData (2 ^ bits)) :
    ∃ final, writesToBlock mem blkData (2 ^ bits) pkts = .ok final ∧
      (∀ i < 2 ^ bits, final (blkData + i) =
        blockBytes (fun i => mem (blkData + i)) (2 ^ bits) pkts i) ∧
      (∀ address, address < blkData ∨ blkData + 2 ^ bits ≤ address →
        final address = mem address) ∧
      ∀ read : PacketObject, read.ReadsInside blkData (2 ^ bits) →
        ∃ after, read.setDataFromBlock final blkData (2 ^ bits) = .ok after ∧
          slice after read.dataPtr read.size =
            slice (blockBytes (fun i => mem (blkData + i)) (2 ^ bits) pkts)
              (read.addr.toNat % 2 ^ bits) read.size := by
  obtain ⟨final, hrun, hbytes, houtside⟩ := writesToBlock_eq_ok hpkts
  refine ⟨final, hrun, hbytes, houtside, ?_⟩
  intro read hread
  obtain ⟨after, hset, hslice⟩ := setDataFromBlock_eq_ok hread final
  refine ⟨after, hset, hslice.trans ?_⟩
  apply slice_congr
  intro i hi
  have hinside := hread.inside
  rw [Nat.add_assoc]
  exact hbytes _ (by omega)

/-- Every byte holds the low bits of its address. -/
def numbered : ByteMemory := fun address => UInt8.ofNat address

/-- A packet with data of its own in that memory. -/
def onNumbered (cmd : MemCmd) (addr : Addr) (byteEnable : List Bool) (dataPtr : Nat) :
    PacketObject :=
  { Packet.ofRequest 0 { Request.physical addr byteEnable.length 0 0 with byteEnable } cmd with
    data := slice numbered dataPtr byteEnable.length, dataPtr, validAddr := true,
    validSize := true, staticData := false, dynamicData := true }

/-- A masked write over the end of an unmasked one, and a read across both. -/
theorem block_holds_last_enabled_bytes_overlap :
    ∃ final, writesToBlock numbered 16 (2 ^ 3)
        [onNumbered .writeReq 0x42 [true, true, true, true] 100,
          onNumbered .writeReq 0x54 [true, false, false, true] 200] = .ok final ∧
      ∃ after, (onNumbered .readReq 0x41 [true, true, true, true, true] 50).setDataFromBlock final
          16 (2 ^ 3) = .ok after ∧
        slice after 50 5 = [17, 100, 101, 200, 103] := by
  have hpkts : ∀ pkt ∈ [onNumbered .writeReq 0x42 [true, true, true, true] 100,
      onNumbered .writeReq 0x54 [true, false, false, true] 200],
      pkt.WritesInside numbered 16 (2 ^ 3) := by
    intro pkt hpkt
    rw [List.mem_cons, List.mem_singleton] at hpkt
    obtain rfl | rfl := hpkt
    · exact ⟨rfl, rfl, rfl, rfl, by decide, by decide, by decide⟩
    · exact ⟨rfl, rfl, rfl, rfl, by decide, by decide, by decide⟩
  obtain ⟨final, hrun, -, -, hreads⟩ := block_holds_last_enabled_bytes numbered 16 3 _ hpkts
  obtain ⟨after, hset, hslice⟩ := hreads
    (onNumbered .readReq 0x41 [true, true, true, true, true] 50)
    ⟨rfl, rfl, rfl, rfl, by decide, by decide⟩
  exact ⟨final, hrun, after, hset, hslice.trans (by decide)⟩

end PacketObject

end KuiperCache
