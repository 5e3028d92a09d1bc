import KuiperCache.Library.Cells
import KuiperCache.Packet.Packet

/-! The set-associative tag store with its indexing and random replacement. -/
namespace KuiperCache

open Checked Cells

/-- Coherence bits of a block. -/
inductive CoherenceBit where
  | writableBit
  | readableBit
  | dirtyBit
deriving DecidableEq, Repr

/-- The lock a load-locked access takes: its context and its byte range, both
ends included. -/
structure Lock where
  contextId : Int
  lowAddr : Addr
  highAddr : Addr
deriving DecidableEq, Repr

/-- A cache block.  `replValid` is the flag its replacement data keeps. -/
structure CacheBlk where
  valid : Bool
  tag : Addr
  secure : Bool
  writable : Bool
  readable : Bool
  dirty : Bool
  prefetched : Bool
  taskId : Nat
  srcRequestorId : Nat
  refCount : Nat
  data : List UInt8
  lockList : List Lock
  replValid : Bool
deriving DecidableEq, Repr

namespace CacheBlk

/-- A constructed block over the bytes that its data pointer is given: invalid, with
all state cleared. -/
def empty (data : List UInt8) : CacheBlk :=
  { valid := false, tag := BitVec.allOnes 64, secure := false, writable := false,
    readable := false, dirty := false, prefetched := false, taskId := 1024,
    srcRequestorId := 65535, refCount := 0, data, lockList := [], replValid := false }

def isSet (blk : CacheBlk) : CoherenceBit → Bool
  | .writableBit => blk.valid && blk.writable
  | .readableBit => blk.valid && blk.readable
  | .dirtyBit => blk.valid && blk.dirty

def setCoherenceBits (blk : CacheBlk) (bit : CoherenceBit) : Except Assertion CacheBlk := do
  check blk.valid .blockExpected
  pure (match bit with
    | .writableBit => { blk with writable := true }
    | .readableBit => { blk with readable := true }
    | .dirtyBit => { blk with dirty := true })

def clearCoherenceBits (blk : CacheBlk) : CoherenceBit → CacheBlk
  | .writableBit => { blk with writable := false }
  | .readableBit => { blk with readable := false }
  | .dirtyBit => { blk with dirty := false }

def matchTag (blk : CacheBlk) (tag : Addr) (secure : Bool) : Bool :=
  blk.valid && blk.tag == tag && blk.secure == secure

/-- `TaggedEntry::insert`. -/
def insertTag (blk : CacheBlk) (tag : Addr) (secure : Bool) : Except Assertion CacheBlk := do
  check (!blk.valid) .victimStillValid
  pure { blk with valid := true, tag, secure := blk.secure || secure }

/-- `CacheBlk::insert`: tag, source and task; insertion counts as a reference. -/
def insert (blk : CacheBlk) (tag : Addr) (secure : Bool) (srcRequestorId taskId : Nat) :
    Except Assertion CacheBlk := do
  let tagged ← blk.insertTag tag secure
  pure { tagged with srcRequestorId, taskId, refCount := blk.refCount + 1 }

end CacheBlk

/-- The shape of a tag store.  Block size and number of sets are powers of two;
both are 32-bit quantities. -/
structure Geometry where
  blkBits : Nat
  setBits : Nat
  assoc : Nat
  blkBits_lt : blkBits < 31
  setBits_lt : setBits < 32
  assoc_pos : 0 < assoc

namespace Geometry

def blkSize (geometry : Geometry) : Nat := 2 ^ geometry.blkBits

def numSets (geometry : Geometry) : Nat := 2 ^ geometry.setBits

/-- One of the ways the replacement policy may draw. -/
def firstWay (geometry : Geometry) : Fin geometry.assoc := ⟨0, geometry.assoc_pos⟩

def tagShift (geometry : Geometry) : Nat := geometry.blkBits + geometry.setBits

/-- `addr >> tagShift`. -/
def extractTag (geometry : Geometry) (addr : Addr) : Addr := addr >>> geometry.tagShift

theorem and_setMask_lt (geometry : Geometry) (bits : BitVec 64) :
    (bits &&& BitVec.ofNat 64 (geometry.numSets - 1)).toNat < geometry.numSets := by
  have hpos : 0 < geometry.numSets := Nat.two_pow_pos _
  have hmask := Nat.mod_le (geometry.numSets - 1) (2 ^ 64)
  have hand : bits.toNat &&& (geometry.numSets - 1) % 2 ^ 64 ≤ (geometry.numSets - 1) % 2 ^ 64 :=
    Nat.and_le_right
  rw [BitVec.toNat_and, BitVec.toNat_ofNat]
  omega

/-- `(addr >> setShift) & setMask`. -/
def extractSet (geometry : Geometry) (addr : Addr) : Fin geometry.numSets :=
  ⟨((addr >>> geometry.blkBits) &&& BitVec.ofNat 64 (geometry.numSets - 1)).toNat,
    geometry.and_setMask_lt _⟩

/-- The index of the block in a slot. -/
def slot (geometry : Geometry) (set : Fin geometry.numSets) (way : Fin geometry.assoc) : Nat :=
  set.val * geometry.assoc + way.val

/-- `(tag << tagShift) | (set << setShift)`; the set is shifted as a 32-bit value. -/
def regenerateAddr (geometry : Geometry) (tag : Addr) (set : Fin geometry.numSets) : Addr :=
  (tag <<< geometry.tagShift) |||
    ((BitVec.ofNat 32 set.val <<< geometry.blkBits).setWidth 64)

end Geometry

/-- Overwriting one entry of a table. -/
theorem update_update_apply {ι κ α : Type} [DecidableEq ι] [DecidableEq κ] (table : ι → κ → α)
    (i i' : ι) (k k' : κ) (x : α) :
    Function.update table i (Function.update (table i) k x) i' k' =
      if i' = i ∧ k' = k then x else table i' k' := by
  by_cases hi : i' = i
  · subst hi
    simp [Function.update_apply]
  · simp [hi]

/-- The bytes at `&dataBlks[blkSize * blk_index]`, whose index is a 32-bit product.  The
array is allocated and not set, so it holds any bytes. -/
def blkData (dataBlks : Nat → UInt8) (blkSize index : Nat) : List UInt8 :=
  slice dataBlks (blkSize * index % 2 ^ 32) blkSize

/-- The blocks, by set and way. -/
structure Tags (geometry : Geometry) where
  blks : Fin geometry.numSets → Fin geometry.assoc → CacheBlk

namespace Tags

variable {geometry : Geometry}

def tagsInit (geometry : Geometry) (dataBlks : Nat → UInt8) : Tags geometry :=
  { blks := fun set way =>
      CacheBlk.empty (blkData dataBlks geometry.blkSize (geometry.slot set way)) }

/-- Overwrite one block. -/
def setBlk (tags : Tags geometry) (set : Fin geometry.numSets) (way : Fin geometry.assoc)
    (blk : CacheBlk) : Tags geometry :=
  { blks := Function.update tags.blks set (Function.update (tags.blks set) way blk) }

/-- The way that holds an address, if any; the set is given by the address. -/
def findBlock (tags : Tags geometry) (addr : Addr) (secure : Bool) :
    Option (Fin geometry.assoc) :=
  (List.finRange geometry.assoc).find? fun way =>
    (tags.blks (geometry.extractSet addr) way).matchTag (geometry.extractTag addr) secure

/-- `Random::getVictim` over the ways of the set: a random one, unless one is
marked invalid. -/
def findVictim (tags : Tags geometry) (addr : Addr) (random : Fin geometry.assoc) :
    Fin geometry.assoc :=
  ((List.finRange geometry.assoc).find? fun way =>
    !(tags.blks (geometry.extractSet addr) way).replValid).getD random

/-- Insert the packet's block and reset the replacement data. -/
def insertBlock (tags : Tags geometry) (pkt : Packet) (way : Fin geometry.assoc) :
    Except Assertion (Tags geometry) := do
  let set := geometry.extractSet pkt.addr
  let blk := tags.blks set way
  check (!blk.valid) .victimStillValid
  let inserted ← blk.insert (geometry.extractTag pkt.addr) pkt.isSecure pkt.req.requestorId
    pkt.req.taskId
  pure (tags.setBlk set way { inserted with replValid := true })

def regenerateBlkAddr (tags : Tags geometry) (set : Fin geometry.numSets)
    (way : Fin geometry.assoc) : Addr :=
  geometry.regenerateAddr (tags.blks set way).tag set

theorem findBlock_eq_none {tags : Tags geometry} {addr : Addr} {secure : Bool} :
    tags.findBlock addr secure = none ↔
      ∀ way, (tags.blks (geometry.extractSet addr) way).matchTag (geometry.extractTag addr)
        secure = false := by
  simp [findBlock, List.find?_eq_none]

/-- A block that is found is valid. -/
theorem findBlock_eq_some {tags : Tags geometry} {addr : Addr} {secure : Bool}
    {way : Fin geometry.assoc} (h : tags.findBlock addr secure = some way) :
    (tags.blks (geometry.extractSet addr) way).valid = true := by
  have hmatch := List.find?_some h
  simp only [CacheBlk.matchTag, Bool.and_eq_true] at hmatch
  exact hmatch.1.1

theorem setBlk_blks (tags : Tags geometry) (set other : Fin geometry.numSets)
    (way way' : Fin geometry.assoc) (blk : CacheBlk) :
    (tags.setBlk set way blk).blks other way' =
      if other = set ∧ way' = way then blk else tags.blks other way' :=
  update_update_apply tags.blks set other way way' blk

/-- A block that is inserted was invalid; now it is valid for both. -/
theorem insertBlock_eq_ok {tags next : Tags geometry} {pkt : Packet} {way : Fin geometry.assoc}
    (h : tags.insertBlock pkt way = .ok next) :
    (tags.blks (geometry.extractSet pkt.addr) way).valid = false ∧
      ∃ blk, next = tags.setBlk (geometry.extractSet pkt.addr) way blk ∧ blk.valid = true ∧
        blk.replValid = true ∧ blk.tag = geometry.extractTag pkt.addr ∧
        blk.secure = ((tags.blks (geometry.extractSet pkt.addr) way).secure || pkt.isSecure) := by
  simp only [insertBlock, CacheBlk.insert, CacheBlk.insertTag, bind_eq_ok, check_eq_ok,
    exists_const, pure_eq_ok, Bool.not_eq_true'] at h
  obtain ⟨hvalid, inserted, ⟨tagged, ⟨-, rfl⟩, rfl⟩, rfl⟩ := h
  exact ⟨hvalid, _, rfl, rfl, rfl, rfl, rfl⟩

end Tags

end KuiperCache
