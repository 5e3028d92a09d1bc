import KuiperCache.Library.Transition
import KuiperCache.Tags.Address

/-! The tag store as it is built: one array of blocks, and an indexing policy
whose table says which block stands in which way of which set.  All counts are
32-bit quantities, the size of the store alone is a 64-bit one. -/
namespace KuiperCache

open Checked

/-- The parameters a store and its indexing policy are built from.  The entries
of the policy are the blocks, so both have one size. -/
structure SetAssocParams where
  blockSize : Nat
  assoc : Nat
  size : Nat

/-- The 32-bit instances of `floorLog2`. -/
def floorLog2 (x : Nat) : Except Assertion Nat := do
  check (0 < x) .positiveExpected
  let (y, ux) := if x &&& 0xffff0000 != 0 then (16, x >>> 16) else (0, x)
  let (y, ux) := if ux &&& 0xff00 != 0 then (y + 8, ux >>> 8) else (y, ux)
  let (y, ux) := if ux &&& 0xf0 != 0 then (y + 4, ux >>> 4) else (y, ux)
  let (y, ux) := if ux &&& 0xc != 0 then (y + 2, ux >>> 2) else (y, ux)
  pure (if ux &&& 0x2 != 0 then y + 1 else y)

def isPowerOf2 (n : Nat) : Bool := n != 0 && n &&& (n - 1) == 0

/-- `sets[set][way]` is the index of a block, or a null pointer. -/
structure IndexingPolicy where
  assoc : Nat
  numSets : Nat
  setShift : Nat
  setMask : Nat
  tagShift : Nat
  sets : Nat → Nat → Option Nat

namespace IndexingPolicy

def new (p : SetAssocParams) : Except Assertion IndexingPolicy := do
  -- `p.entry_size * assoc` is an unsigned product, and the divisor
  let setSize := p.blockSize * p.assoc % 2 ^ 32
  check (setSize != 0) .undefinedBehaviour
  let numSets := p.size / setSize % 2 ^ 32
  let setShift ← floorLog2 p.blockSize
  let setBits ← floorLog2 numSets
  check (isPowerOf2 numSets) .powerOfTwoExpected
  check (0 < p.assoc) .positiveExpected
  pure { assoc := p.assoc, numSets, setShift, setMask := numSets - 1,
         tagShift := setShift + setBits, sets := fun _ _ => none }

def extractSet (policy : IndexingPolicy) (addr : Addr) : Nat :=
  ((addr >>> policy.setShift) &&& BitVec.ofNat 64 policy.setMask).toNat

def extractTag (policy : IndexingPolicy) (addr : Addr) : Addr := addr >>> policy.tagShift

/-- The set is shifted as the 32-bit value `getSet` returns. -/
def regenerateAddr (policy : IndexingPolicy) (tag : Addr) (set : Nat) : Addr :=
  (tag <<< policy.tagShift) ||| ((BitVec.ofNat 32 set <<< policy.setShift).setWidth 64)

def getPossibleEntries (policy : IndexingPolicy) (addr : Addr) : List (Option Nat) :=
  (List.range policy.assoc).map (policy.sets (policy.extractSet addr))

end IndexingPolicy

/-- A block of the array with the position `setPosition` gave it. -/
structure TagEntry where
  blk : CacheBlk
  set : Nat
  way : Nat

/-- Back to a constructed block.  The data stays where it is. -/
def CacheBlk.invalidate (blk : CacheBlk) : CacheBlk :=
  { blk with
    valid := false, tag := BitVec.allOnes 64, secure := false, prefetched := false,
    writable := false, readable := false, dirty := false, taskId := 1024, refCount := 0,
    srcRequestorId := 65535, lockList := [] }

structure BaseSetAssoc where
  indexingPolicy : IndexingPolicy
  numBlocks : Nat
  blks : Nat → TagEntry

namespace BaseSetAssoc

/-- The constructor; `dataBlks` is what the storage holds when it is allocated. -/
def new (p : SetAssocParams) (dataBlks : Nat → UInt8) : Except Assertion BaseSetAssoc := do
  let indexingPolicy ← IndexingPolicy.new p
  check (p.blockSize < 4 || isPowerOf2 p.blockSize) .powerOfTwoExpected
  pure { indexingPolicy, numBlocks := p.size / p.blockSize % 2 ^ 32,
         blks := fun index =>
          { blk := CacheBlk.empty (blkData dataBlks p.blockSize index), set := 0, way := 0 } }

/-- Link a block to the indexing policy, by its index in the array. -/
def setEntry (store : BaseSetAssoc) (index : Nat) : Except Assertion BaseSetAssoc := do
  let policy := store.indexingPolicy
  let set := index / policy.assoc
  let way := index % policy.assoc
  check (set < policy.numSets) .setOutOfRange
  pure { store with
    indexingPolicy := { policy with
      sets := Function.update policy.sets set
        (Function.update (policy.sets set) way (some index)) }
    blks := Function.update store.blks index { store.blks index with set, way } }

def tagsInit (store : BaseSetAssoc) : Except Assertion BaseSetAssoc :=
  (List.range store.numBlocks).foldlM setEntry store

/-- The block a slot of the table points to. -/
def deref : Option Nat → Except Assertion Nat
  | none => .error .undefinedBehaviour
  | some index => .ok index

def testEntry (store : BaseSetAssoc) (test : CacheBlk → Bool) (slot : Option Nat) :
    Except Assertion Bool := do
  let index ← deref slot
  pure (test (store.blks index).blk)

def findBlock (store : BaseSetAssoc) (addr : Addr) (secure : Bool) :
    Except Assertion (Option Nat) := do
  let tag := store.indexingPolicy.extractTag addr
  let entries := store.indexingPolicy.getPossibleEntries addr
  let found ← findFirst (store.testEntry fun blk => blk.matchTag tag secure) entries
  pure found.join

/-- `Random::getVictim` over the ways of the set.  The generator answers in the
range it is asked for. -/
def findVictim (store : BaseSetAssoc) (addr : Addr) (random : Nat) : Except Assertion Nat := do
  let candidates := store.indexingPolicy.getPossibleEntries addr
  check (!candidates.isEmpty) .positiveExpected
  let invalid ← findFirst (store.testEntry fun blk => !blk.replValid) candidates
  deref (invalid.getD (candidates[random % candidates.length]?.join))

/-- Overwrite the block at an index; its position stays. -/
def setBlk (store : BaseSetAssoc) (index : Nat) (blk : CacheBlk) : BaseSetAssoc :=
  { store with blks := Function.update store.blks index { store.blks index with blk } }

def insertBlock (store : BaseSetAssoc) (pkt : Packet) (index : Nat) :
    Except Assertion BaseSetAssoc := do
  let blk := (store.blks index).blk
  check (!blk.valid) .victimStillValid
  let inserted ← blk.insert (store.indexingPolicy.extractTag pkt.addr) pkt.isSecure
    pkt.req.requestorId pkt.req.taskId
  pure (store.setBlk index { inserted with replValid := true })

def invalidate (store : BaseSetAssoc) (index : Nat) : Except Assertion BaseSetAssoc := do
  let blk := (store.blks index).blk
  check blk.valid .blockExpected
  pure (store.setBlk index { blk.invalidate with replValid := false })

def regenerateBlkAddr (store : BaseSetAssoc) (index : Nat) : Addr :=
  let entry := store.blks index
  store.indexingPolicy.regenerateAddr entry.blk.tag entry.set

/-- The calls that change which lines are held. -/
inductive Event where
  | insert (pkt : Packet) (random : Nat)
  | invalidate (index : Nat)

/-- A packet is inserted only after `findBlock` missed, into the block that
`findVictim` names; a block that is invalidated is one of the array. -/
def step (store : BaseSetAssoc) : Event → Except Assertion BaseSetAssoc
  | .insert pkt random => do
      let found ← store.findBlock pkt.addr pkt.isSecure
      check found.isNone .blockUnexpected
      let victim ← store.findVictim pkt.addr random
      store.insertBlock pkt victim
  | .invalidate index => do
      check (index < store.numBlocks) .undefinedBehaviour
      store.invalidate index

end BaseSetAssoc

end KuiperCache
