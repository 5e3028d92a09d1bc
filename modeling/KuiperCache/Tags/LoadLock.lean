import KuiperCache.Tags.Store

/-! Load-locked and store-conditional accesses.  A block keeps the list of
locks taken on it; loads, stores and invalidations each erase some of them. -/
namespace KuiperCache

open Checked

namespace Request

def contextId (req : Request) : Except Assertion Int :=
  match req.context with
  | some id => .ok id
  | none => .error .contextIdExpected

/-- The last byte of the request: `getPaddr() + getSize() - 1`. -/
def highAddr (req : Request) : Addr := req.paddr + BitVec.ofNat 64 req.size - 1

def setExtraData (req : Request) (extraData : Nat) : Request := { req with extraData }

end Request

namespace Lock

def ofRequest (req : Request) : Except Assertion Lock := do
  let contextId ← req.contextId
  pure { contextId, lowAddr := req.paddr, highAddr := req.highAddr }

/-- The request is of the lock's context and inside its range. -/
def matchesReq (lock : Lock) (req : Request) : Except Assertion Bool := do
  let contextId ← req.contextId
  pure (lock.contextId == contextId && decide (lock.lowAddr ≤ req.paddr) &&
    decide (req.highAddr ≤ lock.highAddr))

def intersects (lock : Lock) (req : Request) : Bool :=
  decide (req.paddr ≤ lock.highAddr) && decide (lock.lowAddr ≤ req.highAddr)

/-- Whether `clearLoadLocks` erases the lock.  The context of the request is
looked at only when the ranges meet. -/
def clearedBy (lock : Lock) (req : Request) : Except Assertion Bool :=
  if lock.intersects req then do
    let contextId ← req.contextId
    pure (lock.contextId != contextId)
  else
    pure false

end Lock

namespace CacheBlk

def trackLoadLocked (blk : CacheBlk) (pkt : Packet) : Except Assertion CacheBlk := do
  check pkt.cmd.isLLSC .llscExpected
  let others := blk.lockList.filter fun lock => !lock.intersects pkt.req
  let lock ← Lock.ofRequest pkt.req
  pure { blk with lockList := lock :: others }

def clearLoadLocks (blk : CacheBlk) (req : Request) : Except Assertion CacheBlk := do
  let lockList ← eraseWhere (fun lock => lock.clearedBy req) blk.lockList
  pure { blk with lockList }

/-- Whether the write may proceed, the block and the packet afterwards. -/
def checkWrite (blk : CacheBlk) (pkt : Packet) :
    Except Assertion (Bool × CacheBlk × Packet) := do
  check pkt.cmd.isWrite .writeExpected
  -- common case
  if !pkt.cmd.isLLSC && blk.lockList.isEmpty then
    pure (true, blk, pkt)
  else if pkt.cmd.isLLSC then
    -- a store conditional has to find its load-locked
    let (success, lockList) ← eraseFirst (fun lock => lock.matchesReq pkt.req) blk.lockList
    let req := pkt.req.setExtraData (if success then 1 else 0)
    let blk ← clearLoadLocks { blk with lockList } req
    pure (success, blk, { pkt with req })
  else
    let blk ← blk.clearLoadLocks pkt.req
    pure (true, blk, pkt)

end CacheBlk

namespace Request

/-- The bytes of the one request are among those of the other. -/
def Within (inner outer : Request) : Prop :=
  outer.paddr.toNat ≤ inner.paddr.toNat ∧
    inner.paddr.toNat + inner.size ≤ outer.paddr.toNat + outer.size

/-- The two requests have a byte in common. -/
def Overlaps (first second : Request) : Prop :=
  first.paddr.toNat < second.paddr.toNat + second.size ∧
    second.paddr.toNat < first.paddr.toNat + first.size

instance (inner outer : Request) : Decidable (inner.Within outer) :=
  inferInstanceAs (Decidable (_ ∧ _))

instance (first second : Request) : Decidable (first.Overlaps second) :=
  inferInstanceAs (Decidable (_ ∧ _))

/-- The request carries a context id, has bytes and does not wrap the address
space. -/
structure Located (req : Request) : Prop where
  context : req.context.isSome = true
  size_pos : 1 ≤ req.size
  fits : req.paddr.toNat + req.size ≤ 2 ^ 64

/-- The lock a located request takes. -/
def lock (req : Request) : Lock :=
  { contextId := req.context.getD 0, lowAddr := req.paddr, highAddr := req.highAddr }

variable {req other : Request}

/-- Two ranges around one byte meet. -/
theorem Within.overlaps (hreq : req.Located) {first second : Request} (hfirst : req.Within first)
    (hsecond : req.Within second) : first.Overlaps second := by
  have hpos := hreq.size_pos
  obtain ⟨hlow, hhigh⟩ := hfirst
  obtain ⟨hlow', hhigh'⟩ := hsecond
  constructor <;> omega

theorem Located.highAddr_toNat (h : req.Located) :
    req.highAddr.toNat = req.paddr.toNat + req.size - 1 := by
  have hpos := h.size_pos
  have hfits := h.fits
  have hone : (1 : BitVec 64).toNat = 1 := rfl
  simp only [highAddr, BitVec.toNat_sub, BitVec.toNat_add, BitVec.toNat_ofNat, hone]
  omega

theorem Located.contextId (h : req.Located) : req.contextId = .ok (req.context.getD 0) := by
  obtain ⟨id, hid⟩ := Option.isSome_iff_exists.mp h.context
  simp [Request.contextId, hid]

theorem Located.ofRequest (h : req.Located) : Lock.ofRequest req = .ok req.lock := by
  rw [Lock.ofRequest, h.contextId]
  rfl

/-- Contexts compare as the ids they carry. -/
theorem Located.context_beq (h : req.Located) (hother : other.Located) :
    (req.context.getD 0 == other.context.getD 0) = decide (other.context = req.context) := by
  obtain ⟨id, hid⟩ := Option.isSome_iff_exists.mp h.context
  obtain ⟨id', hid'⟩ := Option.isSome_iff_exists.mp hother.context
  rw [hid, hid', Bool.eq_iff_iff]
  simp only [Option.getD_some, beq_iff_eq, decide_eq_true_eq, Option.some.injEq]
  exact eq_comm

theorem Located.intersects (h : req.Located) (hother : other.Located) :
    other.lock.intersects req = decide (req.Overlaps other) := by
  have hpos := h.size_pos
  have hpos' := hother.size_pos
  rw [Bool.eq_iff_iff, decide_eq_true_iff]
  simp only [Lock.intersects, lock, Overlaps, Bool.and_eq_true, decide_eq_true_eq, BitVec.le_def,
    h.highAddr_toNat, hother.highAddr_toNat]
  omega

/-- The locks a store conditional may use: those its own context took around it. -/
def usable (req : Request) (reservation : Request) : Bool :=
  decide (req.context = reservation.context ∧ req.Within reservation)

/-- The locks a store breaks: those of other contexts that it meets. -/
def breaks (req : Request) (reservation : Request) : Bool :=
  decide (req.context ≠ reservation.context ∧ req.Overlaps reservation)

theorem Located.matchesReq (h : req.Located) (hother : other.Located) :
    other.lock.matchesReq req = .ok (req.usable other) := by
  have hpos := h.size_pos
  have hpos' := hother.size_pos
  have hcontext := hother.context_beq h
  rw [Lock.matchesReq, h.contextId, ok_bind]
  apply congrArg Except.ok
  rw [usable, Bool.eq_iff_iff, decide_eq_true_iff]
  simp only [lock, Within, hcontext, Bool.and_eq_true, decide_eq_true_eq, BitVec.le_def,
    h.highAddr_toNat, hother.highAddr_toNat, and_assoc]
  apply and_congr_right
  intro _
  omega

theorem Located.clearedBy (h : req.Located) (hother : other.Located) :
    other.lock.clearedBy req = .ok (req.breaks other) := by
  rw [Lock.clearedBy, h.intersects hother, h.contextId, ok_bind]
  by_cases hmeet : req.Overlaps other
  · have hcontext := hother.context_beq h
    simp [hmeet, breaks, lock, bne, hcontext]
  · simp [hmeet, breaks]

end Request

/-- Erasing the first of the elements of which at most one qualifies. -/
theorem eraseP_eq_filter {α : Type} {p : α → Bool} {list : List α}
    (h : list.Pairwise fun x y => ¬ (p x = true ∧ p y = true)) :
    list.eraseP p = list.filter fun x => !p x := by
  induction list with
  | nil => rfl
  | cons head tail ih =>
      rw [List.pairwise_cons] at h
      rw [List.eraseP_cons, List.filter_cons]
      cases hhead : p head with
      | false => simp [ih h.2]
      | true =>
          have htail : ∀ x ∈ tail, p x = false := by
            intro x hx
            simpa [hhead] using h.1 x hx
          symm
          simpa [List.filter_eq_self] using htail

/-- The block holds the locks of these reservations, which do not meet. -/
structure CacheBlk.Holds (blk : CacheBlk) (reservations : List Request) : Prop where
  lockList : blk.lockList = reservations.map Request.lock
  located : ∀ r ∈ reservations, r.Located
  apart : reservations.Pairwise fun r r' => ¬ r.Overlaps r'

namespace CacheBlk

variable {blk : CacheBlk} {reservations : List Request} {pkt : Packet} {req : Request}

theorem Holds.filter (h : blk.Holds reservations) (keep : Request → Bool) :
    ({ blk with lockList := (reservations.filter keep).map Request.lock } : CacheBlk).Holds
      (reservations.filter keep) := by
  constructor
  · rfl
  · intro r hr
    exact h.located r (List.mem_of_mem_filter hr)
  · exact h.apart.filter keep

/-- At most one reservation is usable for a store conditional. -/
theorem Holds.usable_unique (h : blk.Holds reservations) (hreq : req.Located) :
    reservations.Pairwise fun r r' => ¬ (req.usable r = true ∧ req.usable r' = true) := by
  apply h.apart.imp
  rintro r r' hapart ⟨hr, hr'⟩
  simp only [Request.usable, decide_eq_true_eq] at hr hr'
  exact hapart (Request.Within.overlaps hreq hr.2 hr'.2)

theorem Holds.trackLoadLocked (h : blk.Holds reservations) (hcmd : pkt.cmd.isLLSC = true)
    (hreq : pkt.req.Located) : ∃ next, blk.trackLoadLocked pkt = .ok next ∧
      next.Holds (pkt.req :: reservations.filter fun r => !decide (pkt.req.Overlaps r)) := by
  have hothers : blk.lockList.filter (fun lock => !lock.intersects pkt.req) =
      (reservations.filter fun r => !decide (pkt.req.Overlaps r)).map Request.lock := by
    rw [h.lockList, List.filter_map]
    apply congrArg (List.map Request.lock)
    apply List.filter_congr
    intro r hr
    rw [Function.comp_apply, hreq.intersects (h.located r hr)]
  rw [CacheBlk.trackLoadLocked, hcmd, check_true, ok_bind, hothers, hreq.ofRequest, ok_bind]
  refine ⟨_, rfl, ?_⟩
  constructor
  · rfl
  · intro r hr
    obtain rfl | hr := List.mem_cons.mp hr
    · exact hreq
    · exact h.located r (List.mem_of_mem_filter hr)
  · rw [List.pairwise_cons]
    constructor
    · intro r hr
      simpa using List.of_mem_filter hr
    · exact h.apart.filter _

theorem Holds.clearLoadLocks (h : blk.Holds reservations) (hreq : req.Located) :
    blk.clearLoadLocks req = .ok { blk with
      lockList := (reservations.filter fun r => !req.breaks r).map Request.lock } := by
  have hcleared : ∀ r ∈ reservations, r.lock.clearedBy req = .ok (req.breaks r) := by
    intro r hr
    exact hreq.clearedBy (h.located r hr)
  rw [CacheBlk.clearLoadLocks, h.lockList, eraseWhere_map hcleared]
  rfl

/-- Whether the write proceeds. -/
def granted (reservations : List Request) (pkt : Packet) : Bool :=
  !pkt.cmd.isLLSC || reservations.any pkt.req.usable

/-- The reservations the write leaves. -/
def remaining (reservations : List Request) (pkt : Packet) : List Request :=
  reservations.filter fun r => !(pkt.cmd.isLLSC && pkt.req.usable r) && !pkt.req.breaks r

/-- The packet after the check: a store conditional carries its outcome. -/
def answered (pkt : Packet) (success : Bool) : Packet :=
  if pkt.cmd.isLLSC then { pkt with req := pkt.req.setExtraData (if success then 1 else 0) }
  else pkt

theorem Holds.checkWrite_plain (h : blk.Holds reservations) (hcmd : pkt.cmd.isWrite = true)
    (hplain : pkt.cmd.isLLSC = false) (hreq : pkt.req.Located) :
    blk.checkWrite pkt = .ok (true, { blk with
      lockList := (reservations.filter fun r => !pkt.req.breaks r).map Request.lock }, pkt) := by
  rw [CacheBlk.checkWrite, hcmd, check_true, ok_bind, hplain, h.clearLoadLocks hreq]
  cases hempty : blk.lockList.isEmpty with
  | false => rfl
  | true =>
      -- without locks there is nothing to erase
      have hlist : blk.lockList = [] := List.isEmpty_iff.mp hempty
      have hnone : reservations = [] := by simpa [hlist] using h.lockList
      simp [hnone, ← hlist]

theorem Holds.checkWrite_storeCond (h : blk.Holds reservations) (hcmd : pkt.cmd.isWrite = true)
    (hllsc : pkt.cmd.isLLSC = true) (hreq : pkt.req.Located) :
    blk.checkWrite pkt = .ok (reservations.any pkt.req.usable, { blk with
      lockList := (reservations.filter fun r => !pkt.req.breaks r && !pkt.req.usable r).map
        Request.lock },
      { pkt with req :=
        pkt.req.setExtraData (if reservations.any pkt.req.usable then 1 else 0) }) := by
  have hfirst : eraseFirst (fun lock => lock.matchesReq pkt.req) (reservations.map Request.lock) =
      .ok (reservations.any pkt.req.usable,
        (reservations.eraseP pkt.req.usable).map Request.lock) := by
    apply eraseFirst_map
    intro r hr
    exact hreq.matchesReq (h.located r hr)
  have hreq' : (pkt.req.setExtraData
      (if reservations.any pkt.req.usable then 1 else 0)).Located :=
    ⟨hreq.context, hreq.size_pos, hreq.fits⟩
  have hclear := (h.filter fun r => !pkt.req.usable r).clearLoadLocks hreq'
  rw [CacheBlk.checkWrite, hcmd, check_true, ok_bind, hllsc, h.lockList, hfirst,
    eraseP_eq_filter (h.usable_unique hreq)]
  simp only [Bool.not_true, Bool.false_and, Bool.false_eq_true, ↓reduceIte, ok_bind, hclear,
    List.filter_filter]
  rfl

theorem Holds.checkWrite (h : blk.Holds reservations) (hcmd : pkt.cmd.isWrite = true)
    (hreq : pkt.req.Located) : ∃ next,
      blk.checkWrite pkt =
        .ok (granted reservations pkt, next, answered pkt (granted reservations pkt)) ∧
      next.Holds (remaining reservations pkt) := by
  refine ⟨_, ?_, h.filter _⟩
  cases hllsc : pkt.cmd.isLLSC with
  | false =>
      rw [h.checkWrite_plain hcmd hllsc hreq]
      simp [granted, answered, hllsc]
  | true =>
      rw [h.checkWrite_storeCond hcmd hllsc hreq]
      simp [granted, answered, hllsc, Bool.and_comm]

end CacheBlk

/-- The operations that touch the locks of a block. -/
inductive LockOp where
  | trackLoadLocked (pkt : Packet)
  | checkWrite (pkt : Packet)
  | invalidate

/-- What the operations assert, and that the request is located. -/
def LockOp.WellFormed : LockOp → Prop
  | .trackLoadLocked pkt => pkt.cmd.isLLSC = true ∧ pkt.req.Located
  | .checkWrite pkt => pkt.cmd.isWrite = true ∧ pkt.req.Located
  | .invalidate => True

/-- An operation that was carried out.  `proceeds` is the answer of
`checkWrite`; the other operations have none. -/
structure LockRecord where
  op : LockOp
  proceeds : Bool

/-- A block with what happened to it. -/
structure LockedBlk where
  blk : CacheBlk
  history : List LockRecord

namespace LockedBlk

def step (state : LockedBlk) (op : LockOp) : Except Assertion LockedBlk := do
  let (proceeds, blk) ← match op with
    | .trackLoadLocked pkt => do
        let blk ← state.blk.trackLoadLocked pkt
        pure (true, blk)
    | .checkWrite pkt => do
        let (success, blk, _) ← state.blk.checkWrite pkt
        pure (success, blk)
    | .invalidate => pure (true, state.blk.invalidate)
  pure { blk, history := state.history ++ [⟨op, proceeds⟩] }

end LockedBlk

/-- The operation ends the reservation that a load-locked request made: another
load-locked that meets it, a store of another context that meets it, a
successful store conditional of its own context inside it, an invalidation. -/
def LockRecord.Ends (reservation : Request) (record : LockRecord) : Prop :=
  match record.op with
  | .trackLoadLocked pkt => pkt.req.Overlaps reservation
  | .checkWrite pkt =>
      (pkt.req.context ≠ reservation.context ∧ pkt.req.Overlaps reservation) ∨
      (pkt.cmd.isLLSC = true ∧ record.proceeds = true ∧
        pkt.req.context = reservation.context ∧ pkt.req.Within reservation)
  | .invalidate => True

/-- A load-locked access made the reservation and nothing after it ended it. -/
def Survives (history : List LockRecord) (reservation : Request) : Prop :=
  ∃ earlier later pkt proceeds, history = earlier ++ ⟨.trackLoadLocked pkt, proceeds⟩ :: later ∧
    pkt.req = reservation ∧ ∀ record ∈ later, ¬ record.Ends reservation

theorem survives_nil (reservation : Request) : ¬ Survives [] reservation := by
  rintro ⟨earlier, later, pkt, proceeds, hsplit, -⟩
  simp at hsplit

/-- What one more operation does to the surviving reservations. -/
theorem survives_snoc {history : List LockRecord} {record : LockRecord} {reservation : Request} :
    Survives (history ++ [record]) reservation ↔
      (∃ pkt, record.op = .trackLoadLocked pkt ∧ pkt.req = reservation) ∨
        (Survives history reservation ∧ ¬ record.Ends reservation) := by
  constructor
  · rintro ⟨earlier, later, pkt, proceeds, hsplit, hreq, hlater⟩
    obtain rfl | ⟨later, last, rfl⟩ := List.eq_nil_or_concat later
    · obtain ⟨-, hlast⟩ := List.append_inj' hsplit rfl
      rw [List.singleton_inj] at hlast
      exact .inl ⟨pkt, by rw [hlast], hreq⟩
    · rw [List.concat_eq_append, ← List.cons_append, ← List.append_assoc] at hsplit
      obtain ⟨hhistory, hlast⟩ := List.append_inj' hsplit rfl
      rw [List.singleton_inj] at hlast
      simp only [List.concat_eq_append, List.mem_append, List.mem_singleton] at hlater
      exact .inr ⟨⟨earlier, later, pkt, proceeds, hhistory, hreq,
        fun r hr => hlater r (.inl hr)⟩, hlater record (.inr hlast)⟩
  · rintro (⟨pkt, hop, hreq⟩ | ⟨⟨earlier, later, pkt, proceeds, rfl, hreq, hlater⟩, hlast⟩)
    · refine ⟨history, [], pkt, record.proceeds, ?_, hreq, by simp⟩
      rw [← hop]
    · refine ⟨earlier, later ++ [record], pkt, proceeds, by simp, hreq, ?_⟩
      intro r hr
      obtain hr | hr := List.mem_append.mp hr
      · exact hlater r hr
      · rw [List.mem_singleton.mp hr]
        exact hlast

namespace LockedBlk

/-- The locks of the block are those of the surviving reservations. -/
structure Tracks (state : LockedBlk) (reservations : List Request) : Prop where
  holds : state.blk.Holds reservations
  survives : ∀ r, r ∈ reservations ↔ Survives state.history r

variable {state : LockedBlk} {reservations : List Request} {pkt : Packet}

theorem Tracks.afterLoadLocked (h : state.Tracks reservations) (hcmd : pkt.cmd.isLLSC = true)
    (hreq : pkt.req.Located) : ∃ next, state.step (.trackLoadLocked pkt) = .ok next ∧
      next.history.map LockRecord.op = state.history.map LockRecord.op ++ [.trackLoadLocked pkt] ∧
      ∃ reservations, next.Tracks reservations := by
  obtain ⟨blk, hblk, hholds⟩ := h.holds.trackLoadLocked hcmd hreq
  simp only [step, hblk, ok_bind]
  refine ⟨_, rfl, by simp, _, hholds, ?_⟩
  intro r
  rw [survives_snoc, ← h.survives, List.mem_cons, List.mem_filter]
  simp only [LockRecord.Ends, LockOp.trackLoadLocked.injEq, exists_eq_left', Bool.not_eq_true',
    decide_eq_false_iff_not]
  rw [eq_comm]

theorem Tracks.afterCheckWrite (h : state.Tracks reservations) (hcmd : pkt.cmd.isWrite = true)
    (hreq : pkt.req.Located) : ∃ next, state.step (.checkWrite pkt) = .ok next ∧
      next.history.map LockRecord.op = state.history.map LockRecord.op ++ [.checkWrite pkt] ∧
      ∃ reservations, next.Tracks reservations := by
  obtain ⟨blk, hblk, hholds⟩ := h.holds.checkWrite hcmd hreq
  simp only [step, hblk, ok_bind]
  refine ⟨_, rfl, by simp, _, hholds, ?_⟩
  intro r
  rw [survives_snoc, ← h.survives]
  simp only [CacheBlk.remaining, List.mem_filter, LockRecord.Ends, reduceCtorEq, false_and,
    exists_false, false_or]
  apply and_congr_right
  intro hr
  -- a usable reservation is what makes the store conditional succeed
  have hproceeds : pkt.cmd.isLLSC = true → pkt.req.usable r = true →
      CacheBlk.granted reservations pkt = true := by
    intro hllsc huse
    rw [CacheBlk.granted, hllsc, Bool.not_true, Bool.false_or, List.any_eq_true]
    exact ⟨r, hr, huse⟩
  simp only [Request.usable, Request.breaks, decide_eq_true_eq] at hproceeds ⊢
  grind

theorem tracks_afterInvalidate (state : LockedBlk) :
    ∃ next, state.step .invalidate = .ok next ∧
      next.history.map LockRecord.op = state.history.map LockRecord.op ++ [.invalidate] ∧
      ∃ reservations, next.Tracks reservations := by
  refine ⟨_, rfl, by simp, [], ⟨rfl, by simp, List.Pairwise.nil⟩, ?_⟩
  intro r
  rw [survives_snoc]
  simp [LockRecord.Ends]

theorem Tracks.afterStep {op : LockOp} (h : state.Tracks reservations) (hop : op.WellFormed) :
    ∃ next, state.step op = .ok next ∧
      next.history.map LockRecord.op = state.history.map LockRecord.op ++ [op] ∧
      ∃ reservations, next.Tracks reservations := by
  cases op with
  | trackLoadLocked pkt => exact h.afterLoadLocked hop.1 hop.2
  | checkWrite pkt => exact h.afterCheckWrite hop.1 hop.2
  | invalidate => exact tracks_afterInvalidate state

/-- Every sequence of well-formed operations is carried out, and leaves the
locks of the surviving reservations. -/
theorem Tracks.afterRun {ops : List LockOp} (h : state.Tracks reservations)
    (hops : ∀ op ∈ ops, op.WellFormed) : ∃ reached, Transition.run step state ops = .ok reached ∧
      reached.history.map LockRecord.op = state.history.map LockRecord.op ++ ops ∧
      ∃ reservations, reached.Tracks reservations := by
  induction ops generalizing state reservations with
  | nil => exact ⟨state, rfl, by simp, reservations, h⟩
  | cons op ops ih =>
      obtain ⟨next, hstep, hhistory, others, hnext⟩ := h.afterStep (hops op List.mem_cons_self)
      obtain ⟨reached, hrun, hreached, htracks⟩ :=
        ih hnext fun o ho => hops o (List.mem_cons_of_mem op ho)
      refine ⟨reached, ?_, ?_, htracks⟩
      · exact Transition.run_cons_eq_ok.mpr ⟨next, hstep, hrun⟩
      · rw [hreached, hhistory, List.append_assoc, List.singleton_append]

/-- On a block without locks, whatever was done to it since, a store conditional
succeeds exactly when a reservation of its context around it survived, and
tells so in its request; a plain store always succeeds. -/
theorem store_conditional_succeeds_iff_survives (blk : CacheBlk) (hblk : blk.lockList = [])
    (ops : List LockOp) (hops : ∀ op ∈ ops, op.WellFormed) (pkt : Packet)
    (hcmd : pkt.cmd.isWrite = true) (hreq : pkt.req.Located) :
    ∃ reached, Transition.run step ⟨blk, []⟩ ops = .ok reached ∧
      reached.history.map LockRecord.op = ops ∧
      ∃ success next, reached.blk.checkWrite pkt =
          .ok (success, next, CacheBlk.answered pkt success) ∧
        (pkt.cmd.isLLSC = true → (success = true ↔ ∃ reservation,
          Survives reached.history reservation ∧ pkt.req.context = reservation.context ∧
            pkt.req.Within reservation)) ∧
        (pkt.cmd.isLLSC = false → success = true) := by
  have hinitial : Tracks ⟨blk, []⟩ [] := by
    refine ⟨⟨hblk, by simp, List.Pairwise.nil⟩, ?_⟩
    intro r
    simp [survives_nil]
  obtain ⟨reached, hrun, hhistory, reservations, htracks⟩ := hinitial.afterRun hops
  obtain ⟨next, hnext, -⟩ := htracks.holds.checkWrite hcmd hreq
  refine ⟨reached, hrun, hhistory, _, next, hnext, ?_, ?_⟩
  · intro hllsc
    simp [CacheBlk.granted, hllsc, Request.usable, htracks.survives]
  · intro hplain
    simp [CacheBlk.granted, hplain]

/-- An access of a context to a few bytes. -/
def lockAccess (cmd : MemCmd) (addr : Addr) (size : Nat) (context : Int) : Packet :=
  Packet.ofRequest 0 { Request.physical addr size 0 0 with context := some context } cmd

/-- A context's own plain store and another context's load-locked elsewhere
leave the reservation. -/
theorem store_conditional_succeeds_iff_survives_ownStore :
    ∃ reached, Transition.run step ⟨CacheBlk.empty (List.replicate 64 0), []⟩
        [.trackLoadLocked (lockAccess .loadLockedReq 0x100 8 1),
          .checkWrite (lockAccess .writeReq 0x104 4 1),
          .trackLoadLocked (lockAccess .loadLockedReq 0x108 8 2)] = .ok reached ∧
      ∃ success next, reached.blk.checkWrite (lockAccess .storeCondReq 0x104 4 1) =
          .ok (success, next, CacheBlk.answered (lockAccess .storeCondReq 0x104 4 1) success) ∧
        (success = true ↔ ∃ reservation, Survives reached.history reservation ∧
          some 1 = reservation.context ∧
          (lockAccess .storeCondReq 0x104 4 1).req.Within reservation) := by
  have hlocated : ∀ cmd addr context, addr.toNat ≤ 0x108 →
      (lockAccess cmd addr 8 context).req.Located ∧
        (lockAccess cmd addr 4 context).req.Located := by
    intro cmd addr context haddr
    refine ⟨⟨rfl, ?_, ?_⟩, ⟨rfl, ?_, ?_⟩⟩ <;>
      simp only [lockAccess, Packet.ofRequest, Request.physical] <;> omega
  obtain ⟨reached, hrun, -, success, next, hwrite, hsurvives, -⟩ :=
    store_conditional_succeeds_iff_survives (CacheBlk.empty (List.replicate 64 0)) rfl
      [.trackLoadLocked (lockAccess .loadLockedReq 0x100 8 1),
        .checkWrite (lockAccess .writeReq 0x104 4 1),
        .trackLoadLocked (lockAccess .loadLockedReq 0x108 8 2)]
      (by
        simp only [List.mem_cons, List.not_mem_nil, or_false, forall_eq_or_imp, forall_eq]
        exact ⟨⟨rfl, (hlocated _ _ _ (by decide)).1⟩, ⟨rfl, (hlocated _ _ _ (by decide)).2⟩,
          ⟨rfl, (hlocated _ _ _ (by decide)).1⟩⟩)
      (lockAccess .storeCondReq 0x104 4 1) rfl (hlocated _ _ _ (by decide)).2
  exact ⟨reached, hrun, success, next, hwrite, hsurvives rfl⟩

end LockedBlk

end KuiperCache
