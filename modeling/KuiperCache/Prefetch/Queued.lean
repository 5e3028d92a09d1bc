import KuiperCache.Library.Transition
import KuiperCache.Packet.Packet

/-! The queued prefetcher: a bounded list of prefetches, the most urgent first.
Iterators into the list are modelled by the entries before them, the nearest
one first, and the entries after them. -/
namespace KuiperCache

open Checked

structure PrefetchInfo where
  address : Addr
  secure : Bool
deriving DecidableEq, Repr

def PrefetchInfo.sameAddr (pfInfo pfi : PrefetchInfo) : Bool :=
  pfInfo.address == pfi.address && pfInfo.secure == pfi.secure

/-- A prefetch in the queue.  `arrival` numbers the insertions; the code does
not keep it and nothing below reads it. -/
structure DeferredPacket where
  pfInfo : PrefetchInfo
  pkt : Option Packet
  priority : Int
  arrival : Nat
deriving DecidableEq, Repr

namespace Queued

/-- The loop that looks for the oldest entry of lowest priority: from the last
entry towards the head while the priority stays the same. -/
def removeLowest (it : DeferredPacket) : List DeferredPacket → List DeferredPacket →
    List DeferredPacket
  | [], after => after
  | prev :: before, after =>
      if prev.priority == it.priority then removeLowest prev before (it :: after)
      else (prev :: before).reverse ++ after

/-- Erase the oldest entry of lowest priority; there is none in an empty list. -/
def removeFull (queue : List DeferredPacket) : Except Assertion (List DeferredPacket) :=
  match queue.reverse with
  | [] => .error .undefinedBehaviour
  | last :: before => .ok (removeLowest last before [])

/-- The first half of `addToQueue`: verify that there is space. -/
def makeRoom (queueSize : Nat) (queue : List DeferredPacket) :
    Except Assertion (List DeferredPacket) :=
  if queue.length == queueSize then removeFull queue else .ok queue

/-- The loop that looks for the place of a new entry, from the last entry
towards the head, and the insertion in front of the entry it stops at. -/
def insertScan (dpp : DeferredPacket) : List DeferredPacket → List DeferredPacket →
    List DeferredPacket
  | [], after => dpp :: after
  | [it], after =>
      -- the head: the new entry goes in front of it or behind it
      if dpp.priority ≤ it.priority then it :: dpp :: after else dpp :: it :: after
  | it :: prev :: before, after =>
      if it.priority < dpp.priority then insertScan dpp (prev :: before) (it :: after)
      else (prev :: before).reverse ++ dpp :: it :: after

/-- The second half of `addToQueue`: find the spot of the new entry. -/
def insertEntry (queue : List DeferredPacket) (dpp : DeferredPacket) : List DeferredPacket :=
  match queue.getLast? with
  | none => [dpp]
  | some back =>
      if dpp.priority ≤ back.priority then queue ++ [dpp]
      else insertScan dpp queue.reverse []

def addToQueue (queueSize : Nat) (queue : List DeferredPacket) (dpp : DeferredPacket) :
    Except Assertion (List DeferredPacket) := do
  let queue ← makeRoom queueSize queue
  pure (insertEntry queue dpp)

/-- The search of `alreadyInQueue`: whether an entry has the address, the
entries the iterator passed and those from the iterator on.  The iterator is
advanced once more after the match. -/
def searchQueue (pfi : PrefetchInfo) : List DeferredPacket →
    Bool × List DeferredPacket × List DeferredPacket
  | [] => (false, [], [])
  | head :: tail =>
      if head.pfInfo.sameAddr pfi then (true, [head], tail)
      else
        let (found, passed, rest) := searchQueue pfi tail
        (found, head :: passed, rest)

/-- The bubbling loop: `prev` goes down to the head and every entry of lower
priority on the way changes places with the one at `it`; `between` stands
between the two iterators. -/
def bubble (it : DeferredPacket) : List DeferredPacket → List DeferredPacket →
    List DeferredPacket → List DeferredPacket
  | [], between, after => between ++ it :: after
  | prev :: before, between, after =>
      if prev.priority < it.priority then bubble it before [] (between ++ prev :: after)
      else bubble it before (prev :: between) after

def alreadyInQueue (queue : List DeferredPacket) (pfi : PrefetchInfo) (priority : Int) :
    Bool × List DeferredPacket :=
  let (found, passed, rest) := searchQueue pfi queue
  match rest with
  | [] => (found, queue)
  | it :: after =>
      if it.priority < priority then
        (found, bubble { it with priority } passed.reverse [] after)
      else (found, queue)

end Queued

/-- The prefetcher's queues. -/
structure Queued where
  queueSize : Nat
  pfq : List DeferredPacket
  pfqMissingTranslation : List DeferredPacket
  issuedPrefetches : Nat

namespace Queued

/-- The loop only walks the list: the call of `startTranslation` is commented
out. -/
def processMissingTranslations (prefetcher : Queued) (_max : Nat) : Queued := prefetcher

def getPacket (prefetcher : Queued) : Except Assertion (Option Packet × Queued) := do
  let prefetcher := if prefetcher.pfq.isEmpty then
      prefetcher.processMissingTranslations prefetcher.queueSize
    else prefetcher
  match prefetcher.pfq with
  | [] => pure (none, prefetcher)
  | front :: pfq => do
      check front.pkt.isSome .packetExpected
      let prefetcher :=
        { prefetcher with pfq, issuedPrefetches := prefetcher.issuedPrefetches + 1 }
      pure (front.pkt, prefetcher.processMissingTranslations (prefetcher.queueSize - pfq.length))

end Queued

end KuiperCache
