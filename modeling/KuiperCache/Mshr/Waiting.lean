import KuiperCache.Mshr.Mshr

/-! An MSHR as a queue.  Whatever list a target sits in, the targets wait in
one line: `targets` first, then `deferredTargets`.  Each operation is specified
by what it does to that line. -/
namespace KuiperCache.Mshr

open Checked

/-- The targets in the order in which they wait, marks aside. -/
def waiting (mshr : Mshr) : List Target :=
  (mshr.targets.list ++ mshr.deferredTargets.list).map Target.unmarked

/-- Joining the end of a line keeps what holds behind its head. -/
theorem forall_tail_snoc {p : Target → Prop} {line : List Target} {last : Target}
    (h : ∀ target ∈ line.tail, p target) (hlast : p last) :
    ∀ target ∈ (line ++ [last]).tail, p target := by
  intro target htarget
  cases line with
  | nil => simp at htarget
  | cons first rest =>
      rw [List.cons_append, List.tail_cons, List.mem_append, List.mem_singleton] at htarget
      obtain hold | rfl := htarget
      · exact h target hold
      · exact hlast

/-- So does serving its front. -/
theorem forall_tail_suffix {p : Target → Prop} {served line : List Target}
    (h : ∀ target ∈ (served ++ line).tail, p target) : ∀ target ∈ line.tail, p target := by
  intro target htarget
  apply h target
  cases served with
  | nil => exact htarget
  | cons first rest => exact List.mem_append_right rest (List.mem_of_mem_tail htarget)

/-- The fields that say which line an MSHR is for. -/
structure SameBlock (mshr mshr' : Mshr) : Prop where
  blkAddr : mshr'.blkAddr = mshr.blkAddr
  blkSize : mshr'.blkSize = mshr.blkSize
  isSecure : mshr'.isSecure = mshr.isSecure
  isUncacheable : mshr'.isUncacheable = mshr.isUncacheable

theorem SameBlock.refl (mshr : Mshr) : SameBlock mshr mshr := ⟨rfl, rfl, rfl, rfl⟩

theorem SameBlock.trans {a b c : Mshr} (hab : SameBlock a b) (hbc : SameBlock b c) :
    SameBlock a c :=
  ⟨hbc.blkAddr.trans hab.blkAddr, hbc.blkSize.trans hab.blkSize,
    hbc.isSecure.trans hab.isSecure, hbc.isUncacheable.trans hab.isUncacheable⟩

/-- Operations on the lists that leave every other field alone. -/
structure Kept (mshr mshr' : Mshr) : Prop extends SameBlock mshr mshr' where
  readyTime : mshr'.readyTime = mshr.readyTime
  order : mshr'.order = mshr.order
  inService : mshr'.inService = mshr.inService
  downstreamPending : mshr'.downstreamPending = mshr.downstreamPending
  pendingModified : mshr'.pendingModified = mshr.pendingModified
  postInvalidate : mshr'.postInvalidate = mshr.postInvalidate
  postDowngrade : mshr'.postDowngrade = mshr.postDowngrade
  isForward : mshr'.isForward = mshr.isForward

theorem Kept.refl (mshr : Mshr) : Kept mshr mshr :=
  ⟨SameBlock.refl mshr, rfl, rfl, rfl, rfl, rfl, rfl, rfl, rfl⟩

/-- Operations that only rearrange the line keep the flags a response reads. -/
structure Rearranged (mshr mshr' : Mshr) : Prop extends SameBlock mshr mshr' where
  waiting : mshr'.waiting = mshr.waiting
  inService : mshr'.inService = mshr.inService
  postInvalidate : mshr'.postInvalidate = mshr.postInvalidate

theorem Rearranged.refl (mshr : Mshr) : Rearranged mshr mshr :=
  ⟨SameBlock.refl mshr, rfl, rfl, rfl⟩

theorem Rearranged.trans {a b c : Mshr} (hab : Rearranged a b) (hbc : Rearranged b c) :
    Rearranged a c :=
  ⟨hab.toSameBlock.trans hbc.toSameBlock, hbc.waiting.trans hab.waiting,
    hbc.inService.trans hab.inService, hbc.postInvalidate.trans hab.postInvalidate⟩

theorem waiting_eq_nil {mshr : Mshr} :
    mshr.waiting = [] ↔ mshr.targets.list = [] ∧ mshr.deferredTargets.list = [] := by
  simp [waiting]

theorem getNumTargets_eq_length (mshr : Mshr) : mshr.getNumTargets = mshr.waiting.length := by
  simp [getNumTargets, waiting]

theorem getTarget_eq_ok {mshr : Mshr} {first : Target} :
    mshr.getTarget = .ok first ↔ ∃ rest, mshr.targets.list = first :: rest := by
  unfold getTarget
  split
  · rename_i hnil
    simp [hnil]
  · rename_i head tail hcons
    simp [hcons]

structure Allocated (mshr mshr' : Mshr) (blkAddr : Addr) (blkSize : Nat) (pkt : Packet)
    (first : Target) : Prop where
  targets : (mshr.targets.init blkAddr blkSize).add first = .ok mshr'.targets
  deferredTargets : mshr'.deferredTargets = mshr.deferredTargets.init blkAddr blkSize
  blkAddr : mshr'.blkAddr = blkAddr
  blkSize : mshr'.blkSize = blkSize
  isSecure : mshr'.isSecure = pkt.isSecure
  isUncacheable : mshr'.isUncacheable = pkt.req.isUncacheable
  readyTime : mshr'.readyTime = first.readyTime
  order : mshr'.order = first.order
  inService : mshr'.inService = false
  isForward : mshr'.isForward = false
  downstreamPending : mshr'.downstreamPending = false
  postInvalidate : mshr'.postInvalidate = mshr.postInvalidate

theorem allocate_spec {mshr mshr' : Mshr} {blkAddr : Addr} {blkSize : Nat} {pkt : Packet}
    {whenReady : Tick} {order : Nat} {onFill : Bool}
    (h : mshr.allocate blkAddr blkSize pkt whenReady order onFill = .ok mshr') :
    Allocated mshr mshr' blkAddr blkSize pkt (firstTarget pkt whenReady order onFill) := by
  simp only [allocate, bind_eq_ok, pure_eq_ok] at h
  obtain ⟨targets, hadd, -, -, rfl⟩ := h
  exact ⟨hadd, rfl, rfl, rfl, rfl, rfl, rfl, rfl, rfl, rfl, rfl, rfl⟩

/-- A miss starts a line of its own in a free MSHR. -/
theorem Allocated.lists {mshr mshr' : Mshr} {blkAddr : Addr} {blkSize : Nat} {pkt : Packet}
    {first : Target} (h : Allocated mshr mshr' blkAddr blkSize pkt first)
    (hfree : mshr.waiting = []) :
    mshr'.targets.list = [first] ∧ mshr'.deferredTargets.list = [] ∧
      mshr'.waiting = [first.unmarked] := by
  obtain ⟨htargets, hdeferred⟩ := waiting_eq_nil.mp hfree
  have hlist := (TargetList.add_spec h.targets).1
  rw [TargetList.init_list, htargets, List.nil_append] at hlist
  have hlist' : mshr'.deferredTargets.list = [] := by
    rw [h.deferredTargets, TargetList.init_list, hdeferred]
  refine ⟨hlist, hlist', ?_⟩
  simp [waiting, hlist, hlist']

/-- Telling the caches above only clears marks. -/
theorem tellUpstream_spec (mshr : Mshr) :
    Kept mshr mshr.tellUpstream ∧ mshr.tellUpstream.deferredTargets = mshr.deferredTargets ∧
      (mshr.tellUpstream.targets = mshr.targets ∨
        mshr.tellUpstream.targets = mshr.targets.clearDownstreamPending) := by
  unfold tellUpstream
  split
  · exact ⟨Kept.refl mshr, rfl, .inl rfl⟩
  · exact ⟨⟨⟨rfl, rfl, rfl, rfl⟩, rfl, rfl, rfl, rfl, rfl, rfl, rfl, rfl⟩, rfl, .inr rfl⟩

structure MarkedInService (mshr mshr' : Mshr) (pendingModified : Bool) : Prop
    extends SameBlock mshr mshr' where
  pending : mshr.inService = false
  inService : mshr'.inService = true
  readyTime : mshr'.readyTime = mshr.readyTime
  isForward : mshr'.isForward = mshr.isForward
  downstreamPending : mshr'.downstreamPending = mshr.downstreamPending
  pendingModified : mshr'.pendingModified = (mshr.targets.needsWritable || pendingModified)
  postInvalidate : mshr'.postInvalidate = false
  postDowngrade : mshr'.postDowngrade = false
  deferredTargets : mshr'.deferredTargets = mshr.deferredTargets
  targets : mshr'.targets = mshr.targets ∨
    mshr'.targets = mshr.targets.clearDownstreamPending

theorem markInService_spec {mshr mshr' : Mshr} {pendingModified : Bool}
    (h : mshr.markInService pendingModified = .ok mshr') :
    MarkedInService mshr mshr' pendingModified := by
  simp only [markInService, bind_eq_ok, check_eq_ok, exists_const, pure_eq_ok,
    Bool.not_eq_true'] at h
  obtain ⟨hservice, rfl⟩ := h
  obtain ⟨hkept, hdeferred, htargets⟩ := tellUpstream_spec mshr
  exact ⟨⟨hkept.blkAddr, hkept.blkSize, hkept.isSecure, hkept.isUncacheable⟩, hservice, rfl,
    hkept.readyTime, hkept.isForward, hkept.downstreamPending, rfl, rfl, rfl, hdeferred, htargets⟩

/-- Going into service leaves the line as it is. -/
theorem MarkedInService.waiting {mshr mshr' : Mshr} {pendingModified : Bool}
    (h : MarkedInService mshr mshr' pendingModified) : mshr'.waiting = mshr.waiting := by
  rw [Mshr.waiting, Mshr.waiting, h.deferredTargets]
  obtain htargets | htargets := h.targets
  · rw [htargets]
  · rw [htargets]
    simp [TargetList.clearDownstreamPending, Function.comp_def]

theorem MarkedInService.held {mshr mshr' : Mshr} {pendingModified : Bool}
    (h : MarkedInService mshr mshr' pendingModified) (hsome : mshr.targets.list ≠ []) :
    mshr'.targets.list ≠ [] := by
  obtain htargets | htargets := h.targets
  · rw [htargets]
    exact hsome
  · rw [htargets]
    simpa [TargetList.clearDownstreamPending] using hsome

theorem deallocate_eq_ok {mshr mshr' : Mshr} (h : mshr.deallocate = .ok mshr') :
    mshr.targets.list = [] ∧
      mshr' = { mshr with targets := mshr.targets.resetFlags, inService := false } := by
  simp only [deallocate, bind_eq_ok, check_eq_ok, exists_const, pure_eq_ok,
    List.isEmpty_iff] at h
  obtain ⟨htargets, -, rfl⟩ := h
  exact ⟨htargets, rfl⟩

/-- A target that is not deferred finds the deferred list empty. -/
theorem defers_eq_false {mshr : Mshr} {pkt : Packet} (h : mshr.defers pkt = .ok false) :
    mshr.deferredTargets.list = [] := by
  simp only [defers, bind_eq_ok] at h
  obtain ⟨first, -, h⟩ := h
  split at h
  · simp at h
  · rename_i hnone
    simp only [Bool.or_eq_true, not_or, Bool.not_eq_true, Bool.not_eq_false'] at hnone
    exact List.isEmpty_iff.mp hnone.2

theorem deferTarget_spec {mshr mshr' : Mshr} {pkt : Packet} {whenReady : Tick} {order : Nat}
    {onFill : Bool} (hkept : (mshr.inService && mshr.postInvalidate) = false)
    (h : mshr.deferTarget pkt whenReady order onFill = .ok mshr') :
    mshr.deferredTargets.add (TargetList.newTarget pkt whenReady order .fromCPU true onFill) =
        .ok mshr'.deferredTargets ∧
      mshr'.targets = mshr.targets ∧ Kept mshr mshr' := by
  simp only [deferTarget, hkept, Bool.false_eq_true, ↓reduceIte, ok_bind, bind_eq_ok,
    pure_eq_ok] at h
  obtain ⟨deferredTargets, hadd, rfl⟩ := h
  exact ⟨hadd, rfl, ⟨rfl, rfl, rfl, rfl⟩, rfl, rfl, rfl, rfl, rfl, rfl, rfl, rfl⟩

theorem appendTarget_spec {mshr mshr' : Mshr} {pkt : Packet} {whenReady : Tick} {order : Nat}
    {onFill : Bool} (h : mshr.appendTarget pkt whenReady order onFill = .ok mshr') :
    mshr.targets.add
        (TargetList.newTarget pkt whenReady order .fromCPU (!mshr.inService) onFill) =
        .ok mshr'.targets ∧
      mshr'.deferredTargets = mshr.deferredTargets ∧ Kept mshr mshr' := by
  simp only [appendTarget, bind_eq_ok, pure_eq_ok] at h
  obtain ⟨targets, hadd, rfl⟩ := h
  exact ⟨hadd, rfl, ⟨rfl, rfl, rfl, rfl⟩, rfl, rfl, rfl, rfl, rfl, rfl, rfl, rfl⟩

theorem allocateTarget_cases {mshr mshr' : Mshr} {pkt : Packet} {whenReady : Tick} {order : Nat}
    {onFill : Bool} (h : mshr.allocateTarget pkt whenReady order onFill = .ok mshr') :
    pkt.cmd ≠ .hardPFReq ∧
      ((mshr.defers pkt = .ok true ∧ mshr.deferTarget pkt whenReady order onFill = .ok mshr') ∨
       (mshr.defers pkt = .ok false ∧
          mshr.appendTarget pkt whenReady order onFill = .ok mshr')) := by
  simp only [allocateTarget, bind_eq_ok, check_eq_ok, exists_const, bne_iff_ne] at h
  obtain ⟨hcmd, defers, hdefers, h⟩ := h
  refine ⟨hcmd, ?_⟩
  cases defers with
  | true => exact .inl ⟨hdefers, h⟩
  | false => exact .inr ⟨hdefers, h⟩

/-- The entry a coalesced packet takes in the line. -/
def coalescedTarget (pkt : Packet) (whenReady : Tick) (order : Nat) (onFill : Bool) : Target :=
  { pkt, order, readyTime := whenReady, source := .fromCPU,
    markedPending := false, allocOnFill := onFill }

/-- A coalesced target goes to the end of the line, deferred or not. -/
theorem allocateTarget_waiting {mshr mshr' : Mshr} {pkt : Packet} {whenReady : Tick}
    {order : Nat} {onFill : Bool} (hpost : (mshr.inService && mshr.postInvalidate) = false)
    (h : mshr.allocateTarget pkt whenReady order onFill = .ok mshr') :
    mshr'.waiting = mshr.waiting ++ [coalescedTarget pkt whenReady order onFill] ∧
      Kept mshr mshr' ∧ mshr'.targets.list ≠ [] := by
  obtain ⟨-, ⟨hdefers, h⟩ | ⟨hdefers, h⟩⟩ := allocateTarget_cases h
  · obtain ⟨hadd, htargets, hkept⟩ := deferTarget_spec hpost h
    have hlist := (TargetList.add_spec hadd).1
    simp only [defers, bind_eq_ok] at hdefers
    obtain ⟨first, hfirst, -⟩ := hdefers
    obtain ⟨rest, hcons⟩ := getTarget_eq_ok.mp hfirst
    refine ⟨?_, hkept, by simp [htargets, hcons]⟩
    simp only [waiting, htargets, hlist, List.map_append, List.append_assoc]
    rfl
  · obtain ⟨hadd, hdeferred, hkept⟩ := appendTarget_spec h
    have hlist := (TargetList.add_spec hadd).1
    have hnone := defers_eq_false hdefers
    refine ⟨?_, hkept, by simp [hlist]⟩
    simp only [waiting, hlist, hdeferred, hnone, List.map_append, List.append_nil]
    rfl

/-- A replaced upgrade is still the same request, and finds the same way back. -/
theorem replaceUpgrade_same {pkt pkt' : Packet} (h : replaceUpgrade pkt = .ok pkt') :
    pkt'.req = pkt.req ∧ pkt'.senderState = pkt.senderState := by
  simp only [replaceUpgrade, bind_eq_ok, check_eq_ok, exists_const, pure_eq_ok] at h
  obtain ⟨-, rfl⟩ := h
  rw [apply_ite Packet.req, apply_ite Packet.senderState, Packet.allocate_eq]
  exact ⟨ite_self _, ite_self _⟩

/-- Whatever the MSHR is about, the new target is for the packet's request. -/
theorem allocateTarget_joined {mshr mshr' : Mshr} {pkt : Packet} {whenReady : Tick} {order : Nat}
    {onFill : Bool} (h : mshr.allocateTarget pkt whenReady order onFill = .ok mshr') :
    mshr.targets.list ≠ [] ∧ mshr'.targets.list ≠ [] ∧ SameBlock mshr mshr' ∧
      mshr'.isForward = mshr.isForward ∧
      ∃ target : Target, target.pkt.req = pkt.req ∧ target.allocOnFill = onFill ∧
        mshr'.waiting = mshr.waiting ++ [target.unmarked] ∧
        (mshr'.targets = mshr.targets ∨ mshr.targets.add target = .ok mshr'.targets) := by
  obtain ⟨-, ⟨hdefers, h⟩ | ⟨hdefers, h⟩⟩ := allocateTarget_cases h
  · simp only [defers, bind_eq_ok] at hdefers
    obtain ⟨first, hfirst, -⟩ := hdefers
    obtain ⟨rest, hcons⟩ := getTarget_eq_ok.mp hfirst
    simp only [deferTarget, bind_eq_ok, pure_eq_ok] at h
    obtain ⟨sent, hsent, deferred, hadd, rfl⟩ := h
    have hreq : sent.req = pkt.req := by
      split at hsent
      · exact (replaceUpgrade_same hsent).1
      · cases hsent
        rfl
    refine ⟨by simp [hcons], by simp [hcons], ⟨rfl, rfl, rfl, rfl⟩, rfl,
      TargetList.newTarget sent whenReady order .fromCPU true onFill, hreq, rfl, ?_, .inl rfl⟩
    simp [waiting, (TargetList.add_spec hadd).1]
  · have hheld : mshr.targets.list ≠ [] := by
      intro hnone
      simp [defers, getTarget, hnone] at hdefers
    have hnone := defers_eq_false hdefers
    obtain ⟨hadd, hdeferred, hkept⟩ := appendTarget_spec h
    have hlist := (TargetList.add_spec hadd).1
    refine ⟨hheld, by simp [hlist], hkept.toSameBlock, hkept.isForward, _, rfl, rfl, ?_, .inr hadd⟩
    simp [waiting, hlist, hdeferred, hnone]

theorem splitAtLocked_unlocked {list : List Target}
    (h : ∀ target ∈ list, target.pkt.cmd ≠ .lockedRMWReadReq) :
    splitAtLocked list = (list, []) := by
  induction list with
  | nil => rfl
  | cons target rest ih =>
      have hhead := h target (by simp)
      have htail := ih fun t ht => h t (by simp [ht])
      simp [splitAtLocked, hhead, htail]

theorem splitSnoops_cpu {list : List Target} (h : ∀ target ∈ list, target.source = .fromCPU) :
    splitSnoops list = .ok ([], list) := by
  induction list with
  | nil => rfl
  | cons target rest ih =>
      have hhead := h target (by simp)
      have htail := ih fun t ht => h t (by simp [ht])
      simp only [splitSnoops, htail, ok_bind, hhead]
      rfl

/-- Without snoops and locked reads a response serves a prefix of the list. -/
theorem serviceable_append {list served left : List Target} {resp : MemCmd}
    (hsource : ∀ target ∈ list.tail, target.source = .fromCPU)
    (hlock : ∀ target ∈ list, target.pkt.cmd ≠ .lockedRMWReadReq)
    (h : serviceable list resp = .ok (served, left)) : served ++ left = list := by
  unfold serviceable at h
  split at h
  · cases list with
    | nil => cases h
    | cons first rest =>
        have hfirst := hlock first (by simp)
        have hsplit := splitSnoops_cpu hsource
        simp only [bind_eq_ok, check_eq_ok, exists_const, beq_iff_eq, hfirst, ↓reduceIte,
          List.tail_cons] at h hsplit
        simp only [hsplit, Except.ok.injEq, exists_eq_left', pure_eq_ok, Prod.mk.injEq] at h
        rw [← h.2.1, ← h.2.2]
        rfl
  · rw [Except.ok.injEq, splitAtLocked_unlocked hlock, Prod.mk.injEq] at h
    rw [← h.1, ← h.2, List.append_nil]

theorem extractServiceableTargets_eq_ok {mshr mshr' : Mshr} {ready : TargetList} {resp : MemCmd}
    (h : mshr.extractServiceableTargets resp = .ok (ready, mshr')) :
    ∃ served left targets,
      serviceable mshr.targets.list resp = .ok (served, left) ∧ ready.list = served ∧
      { mshr.targets with list := left }.populateFlags = .ok targets ∧
      mshr' = { mshr with targets } := by
  simp only [extractServiceableTargets, bind_eq_ok, pure_eq_ok, Prod.mk.injEq] at h
  obtain ⟨⟨served, left⟩, hsplit, readyTargets, hready, targets, htargets, rfl, rfl⟩ := h
  exact ⟨served, left, targets, hsplit, (TargetList.populateFlags_spec hready).1.list, htargets,
    rfl⟩

/-- Extraction takes a prefix of the line. -/
theorem extractServiceableTargets_waiting {mshr mshr' : Mshr} {ready : TargetList}
    {resp : MemCmd} (hsource : ∀ target ∈ mshr.targets.list.tail, target.source = .fromCPU)
    (hlock : ∀ target ∈ mshr.targets.list, target.pkt.cmd ≠ .lockedRMWReadReq)
    (h : mshr.extractServiceableTargets resp = .ok (ready, mshr')) :
    ready.list.map Target.unmarked ++ mshr'.waiting = mshr.waiting ∧ SameBlock mshr mshr' ∧
      mshr'.inService = mshr.inService ∧ mshr'.postInvalidate = mshr.postInvalidate := by
  obtain ⟨served, left, targets, hsplit, hready, htargets, rfl⟩ :=
    extractServiceableTargets_eq_ok h
  have happend := serviceable_append hsource hlock hsplit
  have hlist := (TargetList.populateFlags_spec htargets).1.list
  refine ⟨?_, ⟨rfl, rfl, rfl, rfl⟩, rfl, rfl⟩
  simp only [waiting, hlist, hready, ← happend, List.map_append, List.append_assoc]

theorem promotable_append (targets deferred : List Target) :
    (promotable targets deferred).1 ++ (promotable targets deferred).2 = deferred := by
  unfold promotable
  split
  · split
    · rw [List.splitAt_eq]
      exact List.take_append_drop 1 deferred
    · rfl
  · rename_i split hsplit
    rw [List.span_eq_takeWhile_dropWhile, List.takeWhile_append_dropWhile]

/-- Promotion moves the front of the deferred targets up and never leaves the
first list empty. -/
theorem promoteDeferredTargets_cases {mshr mshr' : Mshr} {now : Tick} {promoted : Bool}
    (h : mshr.promoteDeferredTargets now = .ok (promoted, mshr')) :
    Rearranged mshr mshr' ∧
      if promoted then mshr'.targets.list ≠ [] else mshr' = mshr ∧ mshr.waiting = [] := by
  unfold promoteDeferredTargets at h
  split at h
  case isTrue hnone =>
    cases h
    simp only [Bool.and_eq_true, List.isEmpty_iff] at hnone
    exact ⟨Rearranged.refl mshr, rfl, waiting_eq_nil.mpr hnone⟩
  case isFalse hsome =>
    simp only [bind_eq_ok, pure_eq_ok, Prod.mk.injEq] at h
    obtain ⟨deferred, hdeferred, targets, htargets, first, hfirst, rfl, rfl⟩ := h
    obtain ⟨rest, hcons⟩ := getTarget_eq_ok.mp hfirst
    have hdeferredList := (TargetList.populateFlags_spec hdeferred).1.list
    have htargetsList := (TargetList.populateFlags_spec htargets).1.list
    refine ⟨⟨⟨rfl, rfl, rfl, rfl⟩, ?_, rfl, rfl⟩, by simp_all⟩
    simp only [waiting, hdeferredList, htargetsList, List.append_assoc, promotable_append]

theorem promoteIf_rearranged {mshr mshr' : Mshr} {test : Target → Except Assertion Bool}
    (h : mshr.promoteIf test = .ok mshr') :
    Rearranged mshr mshr' ∧ (mshr.targets.list ≠ [] → mshr'.targets.list ≠ []) := by
  simp only [promoteIf, bind_eq_ok, check_eq_ok, exists_const, pure_eq_ok] at h
  obtain ⟨-, ⟨moved, left⟩, hsplit, deferred, hdeferred, rfl⟩ := h
  have hlist := (TargetList.populateFlags_spec hdeferred).1.list
  have happend := splitWhile_append hsplit
  refine ⟨⟨⟨rfl, rfl, rfl, rfl⟩, ?_, rfl, rfl⟩, by simp_all⟩
  simp [waiting, hlist, ← happend, Function.comp_def]

theorem promoteReadable_rearranged {mshr mshr' : Mshr} (h : mshr.promoteReadable = .ok mshr') :
    Rearranged mshr mshr' ∧ (mshr.targets.list ≠ [] → mshr'.targets.list ≠ []) := by
  unfold promoteReadable at h
  split at h
  · cases h
    exact ⟨Rearranged.refl mshr, id⟩
  · simp only [bind_eq_ok, check_eq_ok, exists_const] at h
    obtain ⟨-, h⟩ := h
    split at h
    · rw [pure_eq_ok] at h
      subst h
      exact ⟨Rearranged.refl mshr, id⟩
    · exact promoteIf_rearranged h

theorem promoteWritable_rearranged {mshr mshr' : Mshr} (h : mshr.promoteWritable = .ok mshr') :
    Rearranged mshr mshr' ∧ (mshr.targets.list ≠ [] → mshr'.targets.list ≠ []) := by
  unfold promoteWritable at h
  split at h
  · cases h
    exact ⟨Rearranged.refl mshr, id⟩
  · split at h
    · cases h
      exact ⟨Rearranged.refl mshr, id⟩
    · simp only [bind_eq_ok, check_eq_ok, exists_const] at h
      obtain ⟨-, h⟩ := h
      split at h
      · rw [pure_eq_ok] at h
        subst h
        exact ⟨Rearranged.refl mshr, id⟩
      · simp only [bind_eq_ok, check_eq_ok, exists_const] at h
        obtain ⟨⟨hblock, hwaiting, hservice, hpost⟩, hnonempty⟩ := promoteIf_rearranged h.2
        exact ⟨⟨⟨hblock.blkAddr, hblock.blkSize, hblock.isSecure, hblock.isUncacheable⟩,
          hwaiting, hservice, hpost⟩, hnonempty⟩

end KuiperCache.Mshr
