import Mathlib.Data.List.TakeWhile
import KuiperCache.Mshr.ServiceOrder

/-! Cache maintenance is served on its own.  A request that cleans or invalidates
the line is sent for one target only; targets that wait with it would be answered
by a response that was not meant for them. -/
namespace KuiperCache

open Checked

def Target.isMaintenance (target : Target) : Bool := target.pkt.req.isCacheMaintenance

/-- A maintenance target shares the list with no other target. -/
def isolated (list : List Target) : Bool :=
  list.all fun target => !target.isMaintenance || list.length == 1

theorem isolated_iff {list : List Target} : isolated list = true ↔
    (∀ target ∈ list, target.isMaintenance = false) ∨ list.length = 1 := by
  by_cases hone : list.length = 1
  · simp [isolated, hone]
  · simp [isolated, hone]

theorem isolated_of_length_le {list : List Target} (h : list.length ≤ 1) :
    isolated list = true := by
  rw [isolated_iff]
  cases list with
  | nil => simp
  | cons first rest =>
      right
      simp only [List.length_cons] at h ⊢
      omega

theorem isolated_unmarked (list : List Target) :
    isolated (list.map Target.unmarked) = isolated list := by
  simp only [isolated, List.all_map, List.length_map]
  rfl

/-- Two targets that are kept apart from maintenance contain none. -/
theorem isolated_many {list : List Target} (h : isolated list = true) (hmany : 1 < list.length) :
    ∀ target ∈ list, target.isMaintenance = false := by
  obtain hnone | hone := isolated_iff.mp h
  · exact hnone
  · omega

theorem isolated_suffix {list rest : List Target} (h : isolated list = true)
    (hsuffix : rest <:+ list) : isolated rest = true := by
  have hlength := hsuffix.length_le
  by_cases hmany : 1 < rest.length
  · have hnone := isolated_many h (by omega)
    exact isolated_iff.mpr (.inl fun target htarget => hnone target (hsuffix.subset htarget))
  · exact isolated_of_length_le (by omega)

namespace Maintenance

open Mshr

/-- What `recvTimingResp` knows besides the MSHR: the response, whether it finds
the block, and whether the fill left it writable. -/
structure Response where
  cmd : MemCmd
  cacheInvalidate : Bool
  validBlock : Bool
  writableBlock : Bool
  now : Tick
deriving DecidableEq

/-- Deferred targets move up when the response is good enough for them, but not
past a locked read. -/
def promote (mshr : Mshr) (response : Response) : Except Assertion Mshr :=
  if mshr.hasLockedRMWReadTarget then .ok mshr
  else do
    let mshr ← (if response.validBlock && response.cmd.isClean && !response.cmd.isInvalidate then
        mshr.promoteReadable
      else .ok mshr)
    if response.writableBlock && !response.cacheInvalidate then mshr.promoteWritable else .ok mshr

/-- The MSHR after the response, and whether it is still allocated.  Behind a
locked read it stays in service. -/
def respond (mshr : Mshr) (response : Response) : Except Assertion (Bool × Mshr) := do
  check response.cmd.isResponse .unexpectedResponse
  let _ ← mshr.getTarget
  let mshr ← promote mshr response
  let (_, mshr) ← mshr.extractServiceableTargets response.cmd
  if mshr.hasLockedRMWReadTarget then pure (true, mshr)
  else do
    let (promoted, mshr) ← mshr.promoteDeferredTargets response.now
    if promoted then do
      check mshr.inService .notInService
      pure (true, { mshr with inService := false })
    else do
      let mshr ← mshr.deallocate
      pure (false, mshr)

structure Life where
  mshr : Mshr
  allocated : Bool
deriving DecidableEq

inductive Event where
  | allocate (blkAddr : Addr) (blkSize : Nat) (pkt : Packet) (whenReady : Tick) (order : Nat)
      (allocOnFill : Bool)
  | allocateTarget (pkt : Packet) (whenReady : Tick) (order : Nat) (allocOnFill : Bool)
  | setForward (isForward : Bool)
  | setDownstreamPending (pending : Bool)
  | markInService (pendingModified : Bool)
  | response (response : Response)

def step (life : Life) : Event → Except Assertion Life
  | .allocate blkAddr blkSize pkt whenReady order allocOnFill => do
      check (!life.allocated) .mshrUnexpected
      check (life.mshr.getNumTargets == 0) .entryStillHoldsTargets
      let mshr ← life.mshr.allocate blkAddr blkSize pkt whenReady order allocOnFill
      pure { mshr, allocated := true }
  | .allocateTarget pkt whenReady order allocOnFill => do
      check life.allocated .mshrExpected
      let mshr ← life.mshr.allocateTarget pkt whenReady order allocOnFill
      pure { life with mshr }
  | .setForward isForward => do
      check life.allocated .mshrExpected
      pure { life with mshr := { life.mshr with isForward } }
  | .setDownstreamPending pending => do
      check life.allocated .mshrExpected
      pure { life with mshr := { life.mshr with downstreamPending := pending } }
  | .markInService pendingModified => do
      check life.allocated .mshrExpected
      let mshr ← life.mshr.markInService pendingModified
      pure { life with mshr }
  | .response response => do
      check life.allocated .mshrExpected
      let (allocated, mshr) ← respond life.mshr response
      pure { mshr, allocated }

def initial : Life := { mshr := .empty, allocated := false }

/-- Whenever the next request is made from the first target, a maintenance target
is the only one. -/
def sendsAlone (life : Life) : Bool :=
  !(life.allocated && !life.mshr.inService) || isolated life.mshr.targets.list

/-- The deferred targets that a writable response moves up. -/
def movable (mshr : Mshr) : List Target :=
  if mshr.deferredTargets.needsWritable && !mshr.postDowngrade then
    mshr.deferredTargets.list.takeWhile fun target => !target.pkt.req.isCacheInvalidate
  else []

/-- The targets that an invalidating response leaves behind the first one. -/
def left (mshr : Mshr) : List Target := mshr.targets.list.tail ++ movable mshr

/-- An invalidating response that comes with a writable block moves maintenance
targets up, and then serves none but the first target. -/
def mixes (mshr : Mshr) (response : Response) : Bool :=
  response.cmd == .readRespWithInvalidate && response.writableBlock &&
    !response.cacheInvalidate && !mshr.hasLockedRMWReadTarget &&
    !((left mshr).head?.any fun first => first.pkt.cmd == .lockedRMWReadReq) &&
    (movable mshr).any Target.isMaintenance && decide (1 < (left mshr).length)

def keepsApart (life : Life) : Event → Bool
  | .response response => !mixes life.mshr response
  | _ => true

theorem promotable_isolated (deferred : List Target) :
    isolated (promotable [] deferred).1 = true := by
  unfold promotable
  split
  · simp only [List.isEmpty_nil, ↓reduceIte, List.splitAt_eq]
    apply isolated_of_length_le
    simp
  · rename_i split hsplit
    rw [List.span_eq_takeWhile_dropWhile]
    refine isolated_iff.mpr (.inl ?_)
    intro target htarget
    simpa [Target.isMaintenance] using List.mem_takeWhile_imp htarget

theorem promotable_behind {targets : List Target} (h : targets ≠ []) (deferred : List Target) :
    (promotable targets deferred).1 = deferred.takeWhile fun target => !target.isMaintenance := by
  have hempty : targets.isEmpty = false := by simpa using h
  unfold promotable
  rw [List.span_eq_takeWhile_dropWhile]
  split
  · rename_i hsplit
    rw [Prod.mk.injEq] at hsplit
    simp only [hempty, Bool.false_eq_true, ↓reduceIte]
    exact hsplit.1.symm
  · rfl

/-- Promotion fills an empty list with maintenance alone or with none, and adds
none to a list that has targets. -/
theorem promoteDeferredTargets_targets {mshr mshr' : Mshr} {now : Tick}
    (h : mshr.promoteDeferredTargets now = .ok (true, mshr')) :
    (mshr.targets.list = [] → isolated mshr'.targets.list = true) ∧
      (mshr.targets.list ≠ [] → mshr'.targets.list = mshr.targets.list ++
        mshr.deferredTargets.list.takeWhile fun target => !target.isMaintenance) := by
  unfold promoteDeferredTargets at h
  split at h
  · cases h
  · simp only [bind_eq_ok, pure_eq_ok, Prod.mk.injEq, true_and] at h
    obtain ⟨deferred, -, targets, htargets, first, -, rfl⟩ := h
    have hlist := (TargetList.populateFlags_spec htargets).1.list
    refine ⟨?_, ?_⟩
    · intro hempty
      simp only [hlist, hempty, List.nil_append]
      exact promotable_isolated _
    · intro hsome
      simp only [hlist, promotable_behind hsome]

theorem promote_rearranged {mshr mshr' : Mshr} {response : Response}
    (h : promote mshr response = .ok mshr') : Rearranged mshr mshr' := by
  unfold promote at h
  split at h
  · cases h
    exact Rearranged.refl mshr
  · simp only [bind_eq_ok] at h
    obtain ⟨middle, hreadable, hwritable⟩ := h
    have hmiddle : Rearranged mshr middle := by
      split at hreadable
      · exact (promoteReadable_rearranged hreadable).1
      · cases hreadable
        exact Rearranged.refl mshr
    refine hmiddle.trans ?_
    split at hwritable
    · exact (promoteWritable_rearranged hwritable).1
    · cases hwritable
      exact Rearranged.refl _

/-- Promotion asserts that the MSHR is in service before it moves anything. -/
theorem promote_pending {mshr mshr' : Mshr} {response : Response}
    (hpending : mshr.inService = false) (h : promote mshr response = .ok mshr') :
    mshr' = mshr := by
  unfold promote at h
  split at h
  · cases h
    rfl
  · simp only [bind_eq_ok] at h
    obtain ⟨middle, hreadable, hwritable⟩ := h
    have hmiddle : middle = mshr := by
      unfold promoteReadable at hreadable
      split at hreadable
      · split at hreadable
        · cases hreadable
          rfl
        · simp [hpending] at hreadable
      · cases hreadable
        rfl
    subst hmiddle
    unfold promoteWritable at hwritable
    split at hwritable
    · split at hwritable
      · cases hwritable
        rfl
      · split at hwritable
        · cases hwritable
          rfl
        · simp [hpending] at hwritable
    · cases hwritable
      rfl

/-- An invalidation is maintenance, so promotion stops at it. -/
theorem takeWhile_behind_invalidation (list : List Target) :
    (list.dropWhile fun target => !target.pkt.req.isCacheInvalidate).takeWhile
      (fun target => !target.isMaintenance) = [] := by
  induction list with
  | nil => rfl
  | cons target rest ih =>
      rw [List.dropWhile_cons]
      split
      · exact ih
      · rename_i hinvalidate
        rw [List.takeWhile_cons_of_neg]
        intro hordinary
        apply hinvalidate
        simp only [Target.isMaintenance, Bool.not_eq_true'] at hordinary
        simp [Request.isCacheInvalidate_of_not_maintenance _ hordinary]

theorem promotesWritable_eq {target : Target} {answer : Bool}
    (h : promotesWritable target = .ok answer) :
    answer = !target.pkt.req.isCacheInvalidate := by
  simp only [promotesWritable, bind_eq_ok, check_eq_ok, exists_const, pure_eq_ok] at h
  exact h.2.symm

/-- A writable response moves `movable` up; what it leaves starts with an
invalidation, or nothing has moved. -/
theorem promoteWritable_movable {mshr mshr' : Mshr} (hpost : mshr.postInvalidate = false)
    (h : mshr.promoteWritable = .ok mshr') :
    mshr'.targets.list = mshr.targets.list ++ (movable mshr).map Target.unmarked ∧
      (movable mshr = [] ∨
        mshr'.deferredTargets.list.takeWhile (fun target => !target.isMaintenance) = []) := by
  unfold promoteWritable at h
  split at h
  case h_1 hnil =>
    cases h
    simp [movable, hnil]
  case h_2 first rest hcons =>
    split at h
    case isTrue hreadable =>
      cases h
      simp_all [movable]
    case isFalse hwritable =>
      simp only [bind_eq_ok, check_eq_ok, exists_const, hpost, Bool.false_or] at h
      obtain ⟨-, h⟩ := h
      split at h
      case isTrue hstays =>
        rw [pure_eq_ok] at h
        subst h
        have hnone : movable mshr = [] := by
          unfold movable
          split
          · rename_i hmoves
            simp_all
          · rfl
        simp [hnone]
      case isFalse hmoves =>
        simp only [bind_eq_ok, check_eq_ok, exists_const, promoteIf, pure_eq_ok] at h
        obtain ⟨-, -, ⟨moved, kept⟩, hsplit, deferred, hdeferred, rfl⟩ := h
        obtain ⟨rfl, rfl⟩ :=
          splitWhile_eq_takeWhile (fun target answer => promotesWritable_eq) hsplit
        have hlist := (TargetList.populateFlags_spec hdeferred).1.list
        have hmovable : movable mshr = mshr.deferredTargets.list.takeWhile
            (fun target => !target.pkt.req.isCacheInvalidate) := by
          simp_all [movable]
        refine ⟨by rw [hmovable]; rfl, .inr ?_⟩
        rw [hlist]
        exact takeWhile_behind_invalidation _

/-- The deferred targets that this response moves up. -/
def moved (mshr : Mshr) (response : Response) : List Target :=
  if response.writableBlock && !response.cacheInvalidate then movable mshr else []

/-- An invalidating response promotes only what needs a writable block. -/
theorem promote_invalidating {mshr mshr' : Mshr} {response : Response}
    (hpost : mshr.postInvalidate = false) (hlocked : mshr.hasLockedRMWReadTarget = false)
    (hinvalidate : response.cmd = .readRespWithInvalidate)
    (h : promote mshr response = .ok mshr') :
    mshr'.targets.list = mshr.targets.list ++ (moved mshr response).map Target.unmarked ∧
      (moved mshr response = [] ∨
        mshr'.deferredTargets.list.takeWhile (fun target => !target.isMaintenance) = []) := by
  have hcmd : response.cmd.isInvalidate = true := by
    rw [hinvalidate]
    rfl
  simp only [promote, hlocked, hcmd, Bool.not_true, Bool.and_false, Bool.false_eq_true,
    ↓reduceIte, ok_bind] at h
  by_cases hwritable : (response.writableBlock && !response.cacheInvalidate) = true
  · rw [if_pos hwritable] at h
    simp only [moved, hwritable, ↓reduceIte]
    exact promoteWritable_movable hpost h
  · rw [if_neg hwritable, Except.ok.injEq] at h
    subst h
    simp only [moved, hwritable, Bool.false_eq_true, ↓reduceIte]
    simp

/-- What is left of a list behind which a locked read may wait. -/
theorem splitAtLocked_left (list : List Target) :
    (splitAtLocked list).2 <:+ list ∧
      ((splitAtLocked list).2 = [] ∨
        (splitAtLocked list).2.head?.any (fun first => first.pkt.cmd == .lockedRMWReadReq) =
          true) := by
  induction list with
  | nil => exact ⟨List.suffix_rfl, .inl rfl⟩
  | cons target rest ih =>
      unfold splitAtLocked
      split
      · rename_i hlocked
        exact ⟨List.suffix_rfl, .inr hlocked⟩
      · exact ⟨ih.1.trans (List.suffix_cons target rest), ih.2⟩

/-- A locked read at the front is served and stays, with everything behind it. -/
theorem serviceable_locked {first : Target} {rest served left : List Target} {resp : MemCmd}
    (hlocked : first.pkt.cmd = .lockedRMWReadReq)
    (h : serviceable (first :: rest) resp = .ok (served, left)) : left = first :: rest := by
  unfold serviceable at h
  split at h
  · simp only [bind_eq_ok, check_eq_ok, exists_const, hlocked, beq_self_eq_true, ↓reduceIte,
      pure_eq_ok, Prod.mk.injEq] at h
    exact h.2.2.symm
  · simp only [splitAtLocked, hlocked, beq_self_eq_true, ↓reduceIte, Except.ok.injEq,
      Prod.mk.injEq] at h
    exact h.2.symm

/-- An invalidating response serves the first target only. -/
theorem serviceable_invalidating {first : Target} {rest served left : List Target}
    (hsource : ∀ target ∈ rest, target.source = .fromCPU)
    (hlocked : first.pkt.cmd ≠ .lockedRMWReadReq)
    (h : serviceable (first :: rest) .readRespWithInvalidate = .ok (served, left)) :
    left = rest := by
  have hsplit := splitSnoops_cpu hsource
  simp only [serviceable, ↓reduceIte, bind_eq_ok, check_eq_ok, exists_const, beq_iff_eq, hlocked,
    hsplit, Except.ok.injEq, exists_eq_left', pure_eq_ok, Prod.mk.injEq] at h
  exact h.2.2.symm

/-- Whatever a response leaves, it leaves in place. -/
theorem serviceable_suffix {list served left : List Target} {resp : MemCmd}
    (hsource : ∀ target ∈ list.tail, target.source = .fromCPU)
    (h : serviceable list resp = .ok (served, left)) : left <:+ list := by
  by_cases hinvalidate : resp = .readRespWithInvalidate
  · subst hinvalidate
    cases list with
    | nil => cases h
    | cons first rest =>
        by_cases hlocked : first.pkt.cmd = .lockedRMWReadReq
        · rw [serviceable_locked hlocked h]
        · rw [serviceable_invalidating hsource hlocked h]
          exact List.suffix_cons first rest
  · simp only [serviceable, hinvalidate, ↓reduceIte, Except.ok.injEq] at h
    have hleft : left = (splitAtLocked list).2 := by rw [h]
    rw [hleft]
    exact (splitAtLocked_left list).1

/-- What a response does, once its parts succeed: it stays in service behind a
locked read, goes back to pending, or is freed. -/
theorem respond_eq_ok {mshr mshr' : Mshr} {response : Response} {allocated : Bool}
    (h : respond mshr response = .ok (allocated, mshr')) :
    mshr.targets.list ≠ [] ∧ ∃ promoted served after,
      promote mshr response = .ok promoted ∧
      promoted.extractServiceableTargets response.cmd = .ok (served, after) ∧
      if after.hasLockedRMWReadTarget then allocated = true ∧ mshr' = after
      else ∃ next, after.promoteDeferredTargets response.now = .ok (allocated, next) ∧
        if allocated then mshr' = { next with inService := false }
        else next.deallocate = .ok mshr' := by
  simp only [respond, bind_eq_ok, check_eq_ok, exists_const] at h
  obtain ⟨-, first, hfirst, promoted, hpromote, ⟨served, after⟩, hextract, h⟩ := h
  obtain ⟨rest, hcons⟩ := getTarget_eq_ok.mp hfirst
  refine ⟨by simp [hcons], promoted, served, after, hpromote, hextract, ?_⟩
  split at h
  case isTrue hlocked =>
    rw [pure_eq_ok, Prod.mk.injEq] at h
    rw [if_pos hlocked]
    exact ⟨h.1.symm, h.2.symm⟩
  case isFalse hunlocked =>
    rw [if_neg hunlocked]
    simp only [bind_eq_ok] at h
    obtain ⟨⟨again, next⟩, hdeferred, h⟩ := h
    cases again with
    | true =>
        simp only [↓reduceIte, bind_eq_ok, check_eq_ok, exists_const, pure_eq_ok,
          Prod.mk.injEq] at h
        obtain ⟨-, rfl, rfl⟩ := h
        exact ⟨next, hdeferred, rfl⟩
    | false =>
        simp only [Bool.false_eq_true, ↓reduceIte, bind_eq_ok, pure_eq_ok, Prod.mk.injEq] at h
        obtain ⟨freed, hfreed, rfl, rfl⟩ := h
        exact ⟨next, hdeferred, hfreed⟩

end Maintenance

end KuiperCache
