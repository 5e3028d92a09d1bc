import Mathlib.Data.List.TakeWhile
import KuiperCache.Cache.WriteAllocator

/-! The stream of writes behind the mode of the write allocator.  The allocator
keeps one counter and one address; the stream keeps how many bytes had been
written at each of its writes. -/
namespace KuiperCache

inductive WriteOp where
  | reset
  | write (addr : Addr) (size : Nat) (blkAddr : Addr)

/-- The bytes an operation writes. -/
def WriteOp.size : WriteOp → Nat
  | .reset => 0
  | .write _ size _ => size

/-- The writes since the last reset or the last write that did not continue the
one before it.  `nextAddr` is where a continuing write starts, `total` counts the
bytes and `totals` says what it was at each continuing write. -/
structure WriteStream where
  nextAddr : Addr
  total : Nat
  totals : List Nat

namespace WriteStream

def empty : WriteStream := { nextAddr := 0, total := 0, totals := [] }

/-- A write that starts where the last one ended. -/
def continues (stream : WriteStream) : WriteOp → Bool
  | .reset => false
  | .write addr _ _ => addr == stream.nextAddr

/-- The address behind a write. -/
def endAddr : WriteOp → Addr
  | .reset => 0
  | .write addr size _ => addr + BitVec.ofNat 64 size

def push (stream : WriteStream) (op : WriteOp) : WriteStream :=
  if stream.continues op then
    { nextAddr := endAddr op, total := stream.total + op.size,
      totals := stream.totals ++ [stream.total + op.size] }
  else { nextAddr := endAddr op, total := op.size, totals := [] }

def ofHistory (history : List WriteOp) : WriteStream := history.foldl push empty

/-- Some continuing write had brought the stream past the limit. -/
def passes (limit : Nat) (totals : List Nat) : Bool := totals.any fun total => limit < total

/-- The totals behind the first one past the limit. -/
def behind (limit : Nat) (totals : List Nat) : List Nat :=
  (totals.dropWhile fun total => total ≤ limit).tail

end WriteStream

namespace WriteAllocator

/-- The constructor, for any limits. -/
def new (coalesceLimit noAllocateLimit : BitVec 32) (delayThreshold : Nat) : WriteAllocator :=
  { mode := .allocate, nextAddr := 0, byteCount := 0, coalesceLimit, noAllocateLimit,
    delayThreshold, delayCtr := fun _ => 0 }

def step (allocator : WriteAllocator) : WriteOp → WriteAllocator
  | .reset => allocator.reset
  | .write addr size blkAddr => allocator.updateMode addr size blkAddr

def afterHistory (coalesceLimit noAllocateLimit : BitVec 32) (delayThreshold : Nat)
    (history : List WriteOp) : WriteAllocator :=
  history.foldl step (new coalesceLimit noAllocateLimit delayThreshold)

end WriteAllocator

open WriteStream

/-- How far the mode is from allocating. -/
def WriteMode.rank : WriteMode → Nat
  | .allocate => 0
  | .coalesce => 1
  | .noAllocate => 2

/-- The mode the totals of a stream stand for. -/
def WriteStream.modeOf (coalesceLimit noAllocateLimit : Nat) (totals : List Nat) : WriteMode :=
  if passes coalesceLimit totals then
    if passes noAllocateLimit (behind coalesceLimit totals) then .noAllocate else .coalesce
  else .allocate

namespace WriteStream

theorem passes_snoc (limit total : Nat) (totals : List Nat) :
    passes limit (totals ++ [total]) = (passes limit totals || decide (limit < total)) := by
  simp [passes]

theorem passes_eq_false {limit : Nat} {totals : List Nat} :
    passes limit totals = false ↔ ∀ total ∈ totals, total ≤ limit := by
  simp [passes]

/-- The first total past the limit is not behind itself. -/
theorem behind_snoc_first {limit total : Nat} {totals : List Nat}
    (h : passes limit totals = false) : behind limit (totals ++ [total]) = [] := by
  have hnone : (totals.dropWhile fun total => total ≤ limit) = [] := by
    simpa [List.dropWhile_eq_nil_iff] using passes_eq_false.mp h
  rw [behind, List.dropWhile_append, hnone]
  by_cases hlast : total ≤ limit <;> simp [hlast]

theorem behind_snoc_later {limit total : Nat} {totals : List Nat}
    (h : passes limit totals = true) :
    behind limit (totals ++ [total]) = behind limit totals ++ [total] := by
  have hsome : (totals.dropWhile fun total => total ≤ limit) ≠ [] := by
    simpa [passes, List.dropWhile_eq_nil_iff] using h
  rw [behind, behind, List.dropWhile_append, if_neg (by simpa using hsome),
    List.tail_append_of_ne_nil hsome]

/-- A total past the second limit stands behind one past the first. -/
theorem passes_behind_iff {limit later : Nat} {totals : List Nat} :
    passes later (behind limit totals) = true ↔
      ∃ front total back, totals = front ++ total :: back ∧ limit < total ∧
        ∃ last ∈ back, later < last := by
  induction totals with
  | nil => simp [behind, passes]
  | cons head tail ih =>
      by_cases hhead : head ≤ limit
      · have hbehind : behind limit (head :: tail) = behind limit tail := by
          rw [behind, List.dropWhile_cons_of_pos (by simpa using hhead)]
          rfl
        rw [hbehind, ih]
        constructor
        · rintro ⟨front, total, back, rfl, hlimit⟩
          exact ⟨head :: front, total, back, rfl, hlimit⟩
        · rintro ⟨front, total, back, hsplit, hlimit⟩
          obtain ⟨rfl, rfl, -⟩ | ⟨rest, rfl, rfl⟩ := List.cons_eq_append_iff.mp hsplit
          · omega
          · exact ⟨rest, total, back, rfl, hlimit⟩
      · have hbehind : behind limit (head :: tail) = tail := by
          rw [behind, List.dropWhile_cons_of_neg (by simpa using hhead)]
          rfl
        rw [hbehind]
        constructor
        · intro hpasses
          exact ⟨[], head, tail, rfl, by omega, by simpa [passes] using hpasses⟩
        · rintro ⟨front, total, back, hsplit, -, last, hlast, hlater⟩
          have hmem : last ∈ tail := by
            cases front with
            | nil =>
                rw [List.nil_append, List.cons.injEq] at hsplit
                rw [hsplit.2]
                exact hlast
            | cons first rest =>
                rw [List.cons_append, List.cons.injEq] at hsplit
                rw [hsplit.2]
                simp [hlast]
          rw [passes, List.any_eq_true]
          exact ⟨last, hmem, by simpa using hlater⟩

theorem modeOf_eq_allocate {coalesceLimit noAllocateLimit : Nat} {totals : List Nat} :
    modeOf coalesceLimit noAllocateLimit totals = .allocate ↔
      ∀ total ∈ totals, total ≤ coalesceLimit := by
  rw [← passes_eq_false, modeOf]
  cases passes coalesceLimit totals with
  | false => simp
  | true => cases passes noAllocateLimit (behind coalesceLimit totals) <;> simp

theorem modeOf_eq_noAllocate {coalesceLimit noAllocateLimit : Nat} {totals : List Nat} :
    modeOf coalesceLimit noAllocateLimit totals = .noAllocate ↔
      passes noAllocateLimit (behind coalesceLimit totals) = true := by
  rw [modeOf]
  cases hpasses : passes coalesceLimit totals with
  | true => cases passes noAllocateLimit (behind coalesceLimit totals) <;> simp
  | false =>
      have hnone : (totals.dropWhile fun total => total ≤ coalesceLimit) = [] := by
        simpa [List.dropWhile_eq_nil_iff] using passes_eq_false.mp hpasses
      simp [behind, hnone, passes]

/-- What one more continuing write does to the mode. -/
theorem modeOf_snoc (coalesceLimit noAllocateLimit total : Nat) (totals : List Nat) :
    modeOf coalesceLimit noAllocateLimit (totals ++ [total]) =
      match modeOf coalesceLimit noAllocateLimit totals with
      | .allocate => if coalesceLimit < total then .coalesce else .allocate
      | .coalesce => if noAllocateLimit < total then .noAllocate else .coalesce
      | .noAllocate => .noAllocate := by
  unfold modeOf
  rw [passes_snoc]
  cases hpasses : passes coalesceLimit totals with
  | false =>
      rw [behind_snoc_first hpasses]
      simp [passes]
  | true =>
      rw [behind_snoc_later hpasses, passes_snoc]
      cases hlater : passes noAllocateLimit (behind coalesceLimit totals) <;> simp

end WriteStream

namespace WriteAllocator

/-- The limits, and a bound on the sizes that keeps the counter below 2^32 for as
long as it is compared with them. -/
structure Bounds (coalesceLimit noAllocateLimit maxSize : Nat) : Prop where
  coalesce : max coalesceLimit maxSize + 2 * maxSize < 2 ^ 32
  noAllocate : noAllocateLimit + maxSize < 2 ^ 32

/-- The allocator has the mode of the stream, and counts its bytes until it does
not allocate any more. -/
structure Follows (maxSize : Nat) (allocator : WriteAllocator) (stream : WriteStream) : Prop where
  nextAddr : allocator.nextAddr = stream.nextAddr
  mode : allocator.mode =
    modeOf allocator.coalesceLimit.toNat allocator.noAllocateLimit.toNat stream.totals
  counted : allocator.mode ≠ .noAllocate → allocator.byteCount.toNat = stream.total
  starting : allocator.mode = .allocate →
    stream.total ≤ max allocator.coalesceLimit.toNat maxSize
  coalescing : allocator.mode = .coalesce → stream.total ≤ max allocator.noAllocateLimit.toNat
    (max allocator.coalesceLimit.toNat maxSize + maxSize)

variable {maxSize : Nat} {allocator : WriteAllocator} {stream : WriteStream} {op : WriteOp}

theorem step_limits (allocator : WriteAllocator) (op : WriteOp) :
    (allocator.step op).coalesceLimit = allocator.coalesceLimit ∧
      (allocator.step op).noAllocateLimit = allocator.noAllocateLimit := by
  cases op with
  | reset => exact ⟨rfl, rfl⟩
  | write addr size blkAddr =>
      simp only [step, updateMode]
      split
      · exact ⟨rfl, rfl⟩
      · exact ⟨rfl, rfl⟩

/-- An operation that breaks the stream starts over. -/
theorem Follows.break (h : Follows maxSize allocator stream) (hsize : op.size ≤ maxSize)
    (hbound : maxSize < 2 ^ 32) (hbreak : stream.continues op = false) :
    (allocator.step op).mode = .allocate ∧
      Follows maxSize (allocator.step op) (stream.push op) := by
  rw [push, hbreak, if_neg Bool.false_ne_true]
  cases op with
  | reset =>
      refine ⟨rfl, rfl, rfl, fun _ => rfl, fun _ => Nat.zero_le _, ?_⟩
      intro hmode
      cases hmode
  | write addr size blkAddr =>
      have hother : addr ≠ stream.nextAddr := by simpa [continues] using hbreak
      rw [← h.nextAddr] at hother
      simp only [step, updateMode, if_neg hother.symm, resetDelay]
      have hsize : size ≤ maxSize := hsize
      refine ⟨trivial, rfl, rfl, ?_, ?_, ?_⟩
      · intro _
        show (BitVec.ofNat 32 size).toNat = size
        rw [BitVec.toNat_ofNat, Nat.mod_eq_of_lt (by omega)]
      · intro _
        show size ≤ max allocator.coalesceLimit.toNat maxSize
        omega
      · intro hmode
        cases hmode

/-- The counter of a continuing write, as long as it counts. -/
theorem Follows.count (h : Follows maxSize allocator stream)
    (hbounds : Bounds allocator.coalesceLimit.toNat allocator.noAllocateLimit.toNat maxSize)
    {size : Nat} (hsize : size ≤ maxSize) (hmode : allocator.mode ≠ .noAllocate) :
    (allocator.byteCount + BitVec.ofNat 32 size).toNat = stream.total + size := by
  have hcoalesce := hbounds.coalesce
  have hnoAllocate := hbounds.noAllocate
  have htotal : stream.total + size < 2 ^ 32 := by
    cases hcase : allocator.mode with
    | allocate =>
        have hstarting := h.starting hcase
        omega
    | coalesce =>
        have hcoalescing := h.coalescing hcase
        omega
    | noAllocate => exact absurd hcase hmode
  rw [BitVec.toNat_add, h.counted hmode, BitVec.toNat_ofNat]
  omega

/-- The counter is past a limit when the stream's total is. -/
theorem Follows.count_gt_iff (h : Follows maxSize allocator stream)
    (hbounds : Bounds allocator.coalesceLimit.toNat allocator.noAllocateLimit.toNat maxSize)
    {size : Nat} (hsize : size ≤ maxSize) (hmode : allocator.mode ≠ .noAllocate)
    (limit : BitVec 32) :
    allocator.byteCount + BitVec.ofNat 32 size > limit ↔ limit.toNat < stream.total + size := by
  rw [gt_iff_lt, BitVec.lt_def, h.count hbounds hsize hmode]

/-- A continuing write counts on, and the mode follows the totals. -/
theorem Follows.continue (h : Follows maxSize allocator stream)
    (hbounds : Bounds allocator.coalesceLimit.toNat allocator.noAllocateLimit.toNat maxSize)
    (hsize : op.size ≤ maxSize) (hcontinues : stream.continues op = true) :
    Follows maxSize (allocator.step op) (stream.push op) := by
  rw [push, hcontinues, if_pos rfl]
  cases op with
  | reset => cases hcontinues
  | write addr size blkAddr =>
      have hsize : size ≤ maxSize := hsize
      have haddr : allocator.nextAddr = addr := by
        rw [h.nextAddr]
        exact (beq_iff_eq.mp hcontinues).symm
      have hmode := h.mode
      simp only [step, updateMode, if_pos haddr, nextMode, WriteOp.size, endAddr]
      cases hcase : allocator.mode with
      | noAllocate =>
          rw [hcase] at hmode
          exact ⟨rfl, by rw [modeOf_snoc, ← hmode], by simp, by simp, by simp⟩
      | allocate =>
          have hcounts : allocator.mode ≠ .noAllocate := by rw [hcase]; decide
          have hcount := h.count hbounds hsize hcounts
          have hpast := h.count_gt_iff hbounds hsize hcounts allocator.coalesceLimit
          have hstarting := h.starting hcase
          rw [hcase] at hmode
          simp only [reduceCtorEq, ↓reduceIte, hpast]
          refine ⟨rfl, by rw [modeOf_snoc, ← hmode], fun _ => hcount, ?_, ?_⟩
          · intro hstays
            have hle : ¬ allocator.coalesceLimit.toNat < stream.total + size := by
              intro hlt
              simp [hlt] at hstays
            dsimp only
            omega
          · intro _
            dsimp only
            omega
      | coalesce =>
          have hcounts : allocator.mode ≠ .noAllocate := by rw [hcase]; decide
          have hcount := h.count hbounds hsize hcounts
          have hpast := h.count_gt_iff hbounds hsize hcounts allocator.noAllocateLimit
          rw [hcase] at hmode
          simp only [reduceCtorEq, ↓reduceIte, hpast]
          refine ⟨rfl, by rw [modeOf_snoc, ← hmode], fun _ => hcount, ?_, ?_⟩
          · intro hstays
            by_cases hlt : allocator.noAllocateLimit.toNat < stream.total + size
            · simp [hlt] at hstays
            · simp [hlt] at hstays
          · intro hstays
            have hle : ¬ allocator.noAllocateLimit.toNat < stream.total + size := by
              intro hlt
              simp [hlt] at hstays
            dsimp only
            omega

theorem Follows.step (h : Follows maxSize allocator stream)
    (hbounds : Bounds allocator.coalesceLimit.toNat allocator.noAllocateLimit.toNat maxSize)
    (hsize : op.size ≤ maxSize) : Follows maxSize (allocator.step op) (stream.push op) := by
  have hbound : maxSize < 2 ^ 32 := by
    have hnoAllocate := hbounds.noAllocate
    omega
  cases hcase : stream.continues op with
  | true => exact h.continue hbounds hsize hcase
  | false => exact (h.break hsize hbound hcase).2

/-- Within a stream the mode only goes forward. -/
theorem Follows.forward (h : Follows maxSize allocator stream)
    (hbounds : Bounds allocator.coalesceLimit.toNat allocator.noAllocateLimit.toNat maxSize)
    (hsize : op.size ≤ maxSize) (hcontinues : stream.continues op = true) :
    allocator.mode.rank ≤ (allocator.step op).mode.rank := by
  have hnext := (h.continue hbounds hsize hcontinues).mode
  rw [(step_limits allocator op).1, (step_limits allocator op).2, push, hcontinues, if_pos rfl,
    modeOf_snoc, ← h.mode] at hnext
  rw [hnext]
  cases allocator.mode with
  | allocate => exact Nat.zero_le _
  | coalesce =>
      dsimp only
      split <;> decide
  | noAllocate => exact le_refl _

/-- It starts over only when the stream is broken. -/
theorem Follows.restarts_iff (h : Follows maxSize allocator stream)
    (hbounds : Bounds allocator.coalesceLimit.toNat allocator.noAllocateLimit.toNat maxSize)
    (hsize : op.size ≤ maxSize) (hleft : allocator.mode ≠ .allocate) :
    (allocator.step op).mode = .allocate ↔ stream.continues op = false := by
  cases hcontinues : stream.continues op with
  | false =>
      have hbound : maxSize < 2 ^ 32 := by
        have hlast := hbounds.noAllocate
        omega
      exact iff_of_true (h.break hsize hbound hcontinues).1 rfl
  | true =>
      apply iff_of_false _ (by simp)
      intro hback
      have hrank := h.forward hbounds hsize hcontinues
      rw [hback] at hrank
      cases hcase : allocator.mode with
      | allocate => exact hleft hcase
      | coalesce => simp [hcase, WriteMode.rank] at hrank
      | noAllocate => simp [hcase, WriteMode.rank] at hrank

theorem afterHistory_snoc (coalesceLimit noAllocateLimit : BitVec 32) (delayThreshold : Nat)
    (history : List WriteOp) (op : WriteOp) :
    afterHistory coalesceLimit noAllocateLimit delayThreshold (history ++ [op]) =
      (afterHistory coalesceLimit noAllocateLimit delayThreshold history).step op := by
  rw [afterHistory, List.foldl_append]
  rfl

theorem ofHistory_snoc (history : List WriteOp) (op : WriteOp) :
    ofHistory (history ++ [op]) = (ofHistory history).push op := by
  rw [ofHistory, List.foldl_append]
  rfl

theorem afterHistory_limits (coalesceLimit noAllocateLimit : BitVec 32) (delayThreshold : Nat)
    (history : List WriteOp) :
    (afterHistory coalesceLimit noAllocateLimit delayThreshold history).coalesceLimit =
        coalesceLimit ∧
      (afterHistory coalesceLimit noAllocateLimit delayThreshold history).noAllocateLimit =
        noAllocateLimit := by
  induction history using List.reverseRecOn with
  | nil => exact ⟨rfl, rfl⟩
  | append_singleton history op ih =>
      rw [afterHistory_snoc, (step_limits _ op).1, (step_limits _ op).2]
      exact ih

theorem afterHistory_follows {coalesceLimit noAllocateLimit : BitVec 32} {history : List WriteOp}
    (hbounds : Bounds coalesceLimit.toNat noAllocateLimit.toNat maxSize)
    (hsizes : ∀ op ∈ history, op.size ≤ maxSize) (delayThreshold : Nat) :
    Follows maxSize (afterHistory coalesceLimit noAllocateLimit delayThreshold history)
      (ofHistory history) := by
  induction history using List.reverseRecOn with
  | nil => exact ⟨rfl, rfl, fun _ => rfl, fun _ => Nat.zero_le _, fun _ => Nat.zero_le _⟩
  | append_singleton history op ih =>
      obtain ⟨hcoalesce, hnoAllocate⟩ :=
        afterHistory_limits coalesceLimit noAllocateLimit delayThreshold history
      rw [afterHistory_snoc, ofHistory_snoc]
      apply (ih fun op' hop => hsizes op' (by simp [hop])).step
      · rw [hcoalesce, hnoAllocate]
        exact hbounds
      · exact hsizes op (by simp)

/-- The mode is that of the current stream: it stops allocating at the first
continuing write past the first limit, stops filling at the first later one past
the second, goes on in this direction only, and starts over when the stream is
broken. -/
theorem mode_follows_stream {coalesceLimit noAllocateLimit : BitVec 32} {history : List WriteOp}
    (hbounds : Bounds coalesceLimit.toNat noAllocateLimit.toNat maxSize)
    (hsizes : ∀ op ∈ history, op.size ≤ maxSize) (delayThreshold : Nat) :
    let allocator := afterHistory coalesceLimit noAllocateLimit delayThreshold history
    let stream := ofHistory history
    (allocator.mode ≠ .allocate ↔ ∃ total ∈ stream.totals, coalesceLimit.toNat < total) ∧
    (allocator.mode = .noAllocate ↔ ∃ front total back, stream.totals = front ++ total :: back ∧
      coalesceLimit.toNat < total ∧ ∃ last ∈ back, noAllocateLimit.toNat < last) ∧
    ∀ op, op.size ≤ maxSize →
      (stream.continues op = true → allocator.mode.rank ≤ (allocator.step op).mode.rank) ∧
      (allocator.mode ≠ .allocate →
        ((allocator.step op).mode = .allocate ↔ stream.continues op = false)) := by
  intro allocator stream
  obtain ⟨hcoalesce, hnoAllocate⟩ :=
    afterHistory_limits coalesceLimit noAllocateLimit delayThreshold history
  have hfollows := afterHistory_follows hbounds hsizes delayThreshold
  have hmode : allocator.mode =
      modeOf coalesceLimit.toNat noAllocateLimit.toNat stream.totals := by
    rw [hfollows.mode, hcoalesce, hnoAllocate]
  refine ⟨?_, ?_, ?_⟩
  · rw [hmode, Ne, modeOf_eq_allocate]
    simp
  · rw [hmode, modeOf_eq_noAllocate, passes_behind_iff]
  · intro op hsize
    have hbounds' : Bounds allocator.coalesceLimit.toNat allocator.noAllocateLimit.toNat maxSize := by
      rw [hcoalesce, hnoAllocate]
      exact hbounds
    exact ⟨hfollows.forward hbounds' hsize, hfollows.restarts_iff hbounds' hsize⟩

/-- Lines of 64 bytes, limits of two and four lines. -/
theorem mode_follows_stream_lines :
    let history := (List.range 6).map fun line =>
      WriteOp.write (BitVec.ofNat 64 (0x1000 + 64 * line)) 64 (BitVec.ofNat 64 (0x1000 + 64 * line))
    (ofHistory history).totals = [128, 192, 256, 320, 384] ∧
      (afterHistory 128 256 0 history).mode = .noAllocate := by
  intro history
  have htotals : (ofHistory history).totals = [128, 192, 256, 320, 384] := by decide
  have hbounds : Bounds (128 : BitVec 32).toNat (256 : BitVec 32).toNat 64 :=
    ⟨by decide, by decide⟩
  have hsizes : ∀ op ∈ history, op.size ≤ 64 := by
    intro op hop
    obtain ⟨line, -, rfl⟩ := List.mem_map.mp hop
    exact le_refl _
  refine ⟨htotals, (mode_follows_stream hbounds hsizes 0).2.1.mpr ?_⟩
  exact ⟨[128], 192, [256, 320, 384], htotals, by decide, 320, by simp, by decide⟩

/-- Two writes of 2^31 bytes make the counter wrap around, although either limit
and a size are together below 2^32. -/
theorem counter_wraps_within_bounds :
    let history := [WriteOp.write 0x1000 0x80000000 0, WriteOp.write 0x80001000 0x80000000 0]
    (∀ op ∈ history, op.size ≤ 0x80000000) ∧ 0 + 0x80000000 < 2 ^ 32 ∧
      (ofHistory history).totals = [0x100000000] ∧
      ¬ ((afterHistory 0 0 0 history).mode ≠ .allocate ↔
        ∃ total ∈ (ofHistory history).totals, (0 : BitVec 32).toNat < total) := by
  decide

end WriteAllocator

end KuiperCache
