import KuiperCache.Mshr.ServiceOrder
import KuiperCache.Mshr.WriteMerge

/-! One fill serves everything.  When an MSHR only ever holds plain reads and
writes, a writable response drains it: nothing stays deferred. -/
namespace KuiperCache.Drain

open Checked Mshr ServiceOrder

/-- A plain read or write that is no maintenance operation. -/
def ordinary (pkt : Packet) : Bool :=
  (pkt.cmd == .readReq || pkt.cmd == .writeReq) && !pkt.req.isCacheMaintenance

/-- The events between the allocation of an MSHR and its response. -/
def Event.fills : Event → Bool
  | .allocateTarget pkt _ _ _ => ordinary pkt
  | .markInService _ => true
  | .setDownstreamPending _ => true
  | _ => false

theorem ordinary_cases {pkt : Packet} (h : ordinary pkt = true) :
    (pkt.cmd = .readReq ∨ pkt.cmd = .writeReq) ∧ pkt.req.isCacheMaintenance = false := by
  simpa [ordinary] using h

theorem ordinary_isRequest {pkt : Packet} (h : ordinary pkt = true) :
    pkt.cmd.isRequest = true := by
  obtain ⟨hread | hwrite, -⟩ := ordinary_cases h
  · rw [hread]; rfl
  · rw [hwrite]; rfl

/-- A plain packet that does not ask for a writable block is a read. -/
theorem ordinary_read {pkt : Packet} (h : ordinary pkt = true)
    (hwritable : pkt.cmd.needsWritable = false) : pkt.cmd = .readReq := by
  obtain ⟨hread | hwrite, -⟩ := ordinary_cases h
  · exact hread
  · rw [hwrite] at hwritable
    cases hwritable

/-- The state of an MSHR that waits for its fill.  The deferral rule is what
the last three fields record: nothing is deferred behind a request for a
writable block, and otherwise the first deferred target is a write. -/
structure Filling (mshr : Mshr) : Prop where
  held : mshr.targets.list ≠ []
  ordinary : ∀ target ∈ mshr.waiting, target.source = .fromCPU ∧ ordinary target.pkt = true
  forward : mshr.isForward = false
  targetsWritable : mshr.targets.needsWritable = mshr.targets.list.any Target.asksWritable
  deferredWritable :
    mshr.deferredTargets.needsWritable = mshr.deferredTargets.list.any Target.asksWritable
  repopulates : TargetList.Repopulates mshr.targets
  blkSize : mshr.targets.blkSize = mshr.blkSize
  idle : mshr.inService = false → mshr.deferredTargets.list = []
  issued : mshr.inService = true → mshr.postInvalidate = false ∧ mshr.postDowngrade = false
  modified : mshr.pendingModified = true → mshr.inService = true →
    mshr.deferredTargets.list = []
  readers : mshr.pendingModified = false → mshr.inService = true →
    mshr.targets.needsWritable = false ∧
      ∀ first rest, mshr.deferredTargets.list = first :: rest → first.asksWritable = true

theorem any_asksWritable_unmarked (list : List Target) :
    (list.map Target.unmarked).any Target.asksWritable = list.any Target.asksWritable := by
  rw [List.any_map]
  rfl

theorem Filling.targets_ordinary {mshr : Mshr} (h : Filling mshr) :
    ∀ target ∈ mshr.targets.list, target.source = .fromCPU ∧
      Drain.ordinary target.pkt = true := by
  intro target htarget
  exact h.ordinary target.unmarked (List.mem_map_of_mem (List.mem_append_left _ htarget))

theorem Filling.deferred_ordinary {mshr : Mshr} (h : Filling mshr) :
    ∀ target ∈ mshr.deferredTargets.list, target.source = .fromCPU ∧
      Drain.ordinary target.pkt = true := by
  intro target htarget
  exact h.ordinary target.unmarked (List.mem_map_of_mem (List.mem_append_right _ htarget))

theorem filling_allocate {mshr mshr' : Mshr} {blkAddr : Addr} {blkSize : Nat} {pkt : Packet}
    {whenReady : Tick} {order : Nat} {onFill : Bool} (hfree : mshr.waiting = [])
    (hpkt : ordinary pkt = true)
    (h : mshr.allocate blkAddr blkSize pkt whenReady order onFill = .ok mshr') :
    Filling mshr' := by
  have hspec := allocate_spec h
  obtain ⟨hlist, hdeferred, hwaiting⟩ := hspec.lists hfree
  obtain ⟨-, -, hblk, hwritable⟩ := TargetList.add_spec hspec.targets
  have hcpu : (firstTarget pkt whenReady order onFill).source = .fromCPU := by
    obtain ⟨hread | hwrite, -⟩ := ordinary_cases hpkt
    · simp [firstTarget, TargetList.newTarget, hread]
    · simp [firstTarget, TargetList.newTarget, hwrite]
  have hinit := TargetList.repopulates_init mshr.targets blkAddr blkSize
    (waiting_eq_nil.mp hfree).1
  constructor
  case held => simp [hlist]
  case ordinary =>
    rw [hwaiting]
    simp only [List.mem_singleton, forall_eq]
    exact ⟨hcpu, hpkt⟩
  case forward => exact hspec.isForward
  case targetsWritable =>
    rw [hlist, hwritable]
    simp [TargetList.init, TargetList.resetFlags]
  case deferredWritable =>
    rw [hdeferred, hspec.deferredTargets]
    rfl
  case repopulates => exact hinit.add hspec.targets
  case blkSize => rw [hblk, hspec.blkSize]; rfl
  case idle => exact fun _ => hdeferred
  case issued => simp [hspec.inService]
  case modified => exact fun _ _ => hdeferred
  case readers => simp [hspec.inService]

/-- The deferral rule for plain packets. -/
theorem Filling.defers {mshr : Mshr} {pkt : Packet} {deferred : Bool} (h : Filling mshr)
    (hpkt : Drain.ordinary pkt = true) (hdefers : mshr.defers pkt = .ok deferred) :
    deferred = (!mshr.deferredTargets.list.isEmpty ||
      (mshr.inService && pkt.cmd.needsWritable && !mshr.pendingModified)) := by
  simp only [Mshr.defers, bind_eq_ok] at hdefers
  obtain ⟨first, hfirst, hdefers⟩ := hdefers
  obtain ⟨rest, hcons⟩ := getTarget_eq_ok.mp hfirst
  have hmaintenance := (ordinary_cases hpkt).2
  have hmaintenanceFirst :=
    (ordinary_cases (h.targets_ordinary first (by simp [hcons])).2).2
  rw [hmaintenance, hmaintenanceFirst, Bool.false_or, Bool.false_or] at hdefers
  split at hdefers
  · rename_i hsome
    rw [pure_eq_ok] at hdefers
    rw [← hdefers, hsome, Bool.true_or]
  · rename_i hnone
    rw [Bool.not_eq_true] at hnone
    rw [hnone, Bool.false_or]
    split at hdefers
    · rename_i hservice
      obtain ⟨hinvalidate, hdowngrade⟩ := h.issued hservice
      simp only [hinvalidate, Bool.false_eq_true, ↓reduceIte, Packet.needsWritable, bind_eq_ok,
        check_eq_ok, exists_const, pure_eq_ok] at hdefers
      obtain ⟨writable, ⟨-, rfl⟩, rfl⟩ := hdefers
      simp [hservice, hdowngrade, h.forward]
    · rename_i hservice
      rw [pure_eq_ok] at hdefers
      rw [← hdefers, Bool.not_eq_true] at *
      simp [hservice]

theorem asksWritable_newTarget (pkt : Packet) (whenReady : Tick) (order : Nat)
    (mark onFill : Bool) :
    (TargetList.newTarget pkt whenReady order .fromCPU mark onFill).asksWritable =
      pkt.cmd.needsWritable := rfl

theorem Filling.ordinary_snoc {mshr mshr' : Mshr} {pkt : Packet} {whenReady : Tick}
    {order : Nat} {onFill : Bool} (h : Filling mshr) (hpkt : Drain.ordinary pkt = true)
    (hwaiting : mshr'.waiting = mshr.waiting ++ [coalescedTarget pkt whenReady order onFill]) :
    ∀ target ∈ mshr'.waiting, target.source = .fromCPU ∧ Drain.ordinary target.pkt = true := by
  intro target htarget
  rw [hwaiting, List.mem_append, List.mem_singleton] at htarget
  obtain hold | rfl := htarget
  · exact h.ordinary target hold
  · exact ⟨rfl, hpkt⟩

theorem Filling.deferTarget {mshr mshr' : Mshr} {pkt : Packet} {whenReady : Tick} {order : Nat}
    {onFill : Bool} (h : Filling mshr) (hpkt : Drain.ordinary pkt = true)
    (hpost : (mshr.inService && mshr.postInvalidate) = false)
    (hdefers : mshr.defers pkt = .ok true)
    (halloc : mshr.deferTarget pkt whenReady order onFill = .ok mshr')
    (hheld : mshr'.targets.list ≠ [])
    (hordinary : ∀ target ∈ mshr'.waiting,
      target.source = .fromCPU ∧ Drain.ordinary target.pkt = true) : Filling mshr' := by
  obtain ⟨hadd, htargets, hkept⟩ := deferTarget_spec hpost halloc
  obtain ⟨hlist, -, -, hwritable⟩ := TargetList.add_spec hadd
  have hrule := h.defers hpkt hdefers
  -- it is deferred behind others, or as the first write
  have hservice : mshr.inService = true := by
    cases hservice : mshr.inService with
    | true => rfl
    | false => simp [hservice, h.idle hservice] at hrule
  constructor
  case held => exact hheld
  case ordinary => exact hordinary
  case forward => rw [hkept.isForward, h.forward]
  case targetsWritable => rw [htargets, h.targetsWritable]
  case deferredWritable =>
    rw [hlist, hwritable, h.deferredWritable, List.any_append, List.any_cons, List.any_nil,
      Bool.or_false]
  case repopulates => rw [htargets]; exact h.repopulates
  case blkSize => rw [htargets, hkept.blkSize, h.blkSize]
  case idle => rw [hkept.inService, hservice]; simp
  case issued =>
    rw [hkept.inService, hkept.postInvalidate, hkept.postDowngrade]
    exact h.issued
  case modified =>
    rw [hkept.pendingModified]
    intro hmodified
    simp [hmodified, h.modified hmodified hservice] at hrule
  case readers =>
    rw [hkept.pendingModified, htargets]
    intro hclean _
    obtain ⟨hreads, hfirst⟩ := h.readers hclean hservice
    refine ⟨hreads, ?_⟩
    intro first rest hcons
    rw [hlist] at hcons
    cases hdeferred : mshr.deferredTargets.list with
    | nil =>
        rw [hdeferred, List.nil_append, List.cons.injEq] at hcons
        rw [← hcons.1, asksWritable_newTarget]
        simpa [hdeferred, hservice, hclean] using hrule
    | cons head tail =>
        rw [hdeferred, List.cons_append, List.cons.injEq] at hcons
        rw [← hcons.1]
        exact hfirst head tail hdeferred

theorem Filling.appendTarget {mshr mshr' : Mshr} {pkt : Packet} {whenReady : Tick} {order : Nat}
    {onFill : Bool} (h : Filling mshr) (hpkt : Drain.ordinary pkt = true)
    (hdefers : mshr.defers pkt = .ok false)
    (halloc : mshr.appendTarget pkt whenReady order onFill = .ok mshr')
    (hheld : mshr'.targets.list ≠ [])
    (hordinary : ∀ target ∈ mshr'.waiting,
      target.source = .fromCPU ∧ Drain.ordinary target.pkt = true) : Filling mshr' := by
  obtain ⟨hadd, hdeferred, hkept⟩ := appendTarget_spec halloc
  obtain ⟨hlist, -, hblk, hwritable⟩ := TargetList.add_spec hadd
  have hrule := h.defers hpkt hdefers
  have hnone := defers_eq_false hdefers
  constructor
  case held => exact hheld
  case ordinary => exact hordinary
  case forward => rw [hkept.isForward, h.forward]
  case targetsWritable =>
    rw [hlist, hwritable, h.targetsWritable, List.any_append, List.any_cons, List.any_nil,
      Bool.or_false]
  case deferredWritable => rw [hdeferred, h.deferredWritable]
  case repopulates => exact h.repopulates.add hadd
  case blkSize => rw [hblk, hkept.blkSize, h.blkSize]
  case idle => exact fun _ => by rw [hdeferred, hnone]
  case issued =>
    rw [hkept.inService, hkept.postInvalidate, hkept.postDowngrade]
    exact h.issued
  case modified => exact fun _ _ => by rw [hdeferred, hnone]
  case readers =>
    rw [hkept.pendingModified, hkept.inService]
    intro hclean hservice
    refine ⟨?_, by simp [hdeferred, hnone]⟩
    have hread : pkt.cmd.needsWritable = false := by
      simpa [hnone, hservice, hclean] using hrule
    rw [hwritable, (h.readers hclean hservice).1, asksWritable_newTarget, hread]
    rfl

/-- A plain target that arrives before the response keeps the MSHR drainable. -/
theorem Filling.allocateTarget {mshr mshr' : Mshr} {pkt : Packet} {whenReady : Tick}
    {order : Nat} {onFill : Bool} (h : Filling mshr) (hpkt : Drain.ordinary pkt = true)
    (halloc : mshr.allocateTarget pkt whenReady order onFill = .ok mshr') : Filling mshr' := by
  have hpost : (mshr.inService && mshr.postInvalidate) = false := by
    cases hservice : mshr.inService with
    | false => rfl
    | true => exact (h.issued hservice).1
  obtain ⟨hwaiting, -, hheld⟩ := allocateTarget_waiting hpost halloc
  have hordinary := h.ordinary_snoc hpkt hwaiting
  obtain ⟨-, ⟨hdefers, halloc⟩ | ⟨hdefers, halloc⟩⟩ := allocateTarget_cases halloc
  · exact h.deferTarget hpkt hpost hdefers halloc hheld hordinary
  · exact h.appendTarget hpkt hdefers halloc hheld hordinary

theorem Filling.markInService {mshr mshr' : Mshr} {pendingModified : Bool} (h : Filling mshr)
    (hmark : mshr.markInService pendingModified = .ok mshr') : Filling mshr' := by
  have hspec := markInService_spec hmark
  have hnone := h.idle hspec.pending
  constructor
  case held => exact hspec.held h.held
  case ordinary => rw [hspec.waiting]; exact h.ordinary
  case forward => rw [hspec.isForward, h.forward]
  case targetsWritable =>
    obtain htargets | htargets := hspec.targets
    · rw [htargets, h.targetsWritable]
    · rw [htargets]
      exact h.targetsWritable.trans (any_asksWritable_unmarked _).symm
  case deferredWritable => rw [hspec.deferredTargets, h.deferredWritable]
  case repopulates =>
    obtain htargets | htargets := hspec.targets
    · rw [htargets]
      exact h.repopulates
    · rw [htargets]
      exact h.repopulates.unmarked
  case blkSize =>
    obtain htargets | htargets := hspec.targets
    · rw [htargets, hspec.blkSize, h.blkSize]
    · rw [htargets, hspec.blkSize]
      exact h.blkSize
  case idle => simp [hspec.inService]
  case issued => exact fun _ => ⟨hspec.postInvalidate, hspec.postDowngrade⟩
  case modified => exact fun _ _ => by rw [hspec.deferredTargets, hnone]
  case readers =>
    intro hclean _
    refine ⟨?_, by simp [hspec.deferredTargets, hnone]⟩
    rw [hspec.pendingModified, Bool.or_eq_false_iff] at hclean
    obtain htargets | htargets := hspec.targets
    · rw [htargets, hclean.1]
    · rw [htargets]
      exact hclean.1

theorem Filling.unlocked {mshr : Mshr} (h : Filling mshr) :
    ∀ target ∈ mshr.targets.list ++ mshr.deferredTargets.list,
      target.pkt.cmd ≠ .lockedRMWReadReq := by
  intro target htarget
  obtain ⟨hread | hwrite, -⟩ :=
    ordinary_cases (h.ordinary target.unmarked (List.mem_map_of_mem htarget)).2
  · rw [← Target.unmarked_pkt, hread]
    simp
  · rw [← Target.unmarked_pkt, hwrite]
    simp

/-- Extraction takes a whole unlocked list, provided its flags can be
recomputed. -/
theorem extractServiceableTargets_all {mshr : Mshr} {resp : MemCmd} {flagged : TargetList}
    (hresp : resp ≠ .readRespWithInvalidate)
    (hlock : ∀ target ∈ mshr.targets.list, target.pkt.cmd ≠ .lockedRMWReadReq)
    (hflags : { TargetList.empty.init mshr.blkAddr mshr.blkSize with
      list := mshr.targets.list }.updateAllFlags mshr.targets.list = .ok flagged) :
    ∃ drained, mshr.extractServiceableTargets resp = .ok (flagged, drained) ∧
      flagged.list = mshr.targets.list ∧ drained.targets.list = [] ∧
      drained.deferredTargets = mshr.deferredTargets := by
  have hlist : flagged.list = mshr.targets.list := (TargetList.updateAllFlags_frame hflags).1.list
  rw [← TargetList.populateFlags_init] at hflags
  refine ⟨{ mshr with targets := { mshr.targets with list := [] }.resetFlags }, ?_, hlist, rfl,
    rfl⟩
  simp only [extractServiceableTargets, serviceable, hresp, ↓reduceIte,
    splitAtLocked_unlocked hlock, ok_bind, hflags]
  rfl

/-- With deferred targets behind it, the request in service was a read. -/
theorem Filling.deferred_facts {mshr : Mshr} (h : Filling mshr) {first : Target}
    {rest : List Target} (hcons : mshr.deferredTargets.list = first :: rest) :
    mshr.inService = true ∧ mshr.postInvalidate = false ∧ mshr.postDowngrade = false ∧
      mshr.targets.needsWritable = false ∧ mshr.deferredTargets.needsWritable = true := by
  have hservice : mshr.inService = true := by
    cases hservice : mshr.inService with
    | true => rfl
    | false => simp [h.idle hservice] at hcons
  have hclean : mshr.pendingModified = false := by
    cases hmodified : mshr.pendingModified with
    | false => rfl
    | true => simp [h.modified hmodified hservice] at hcons
  obtain ⟨hinvalidate, hdowngrade⟩ := h.issued hservice
  obtain ⟨hreads, hfirst⟩ := h.readers hclean hservice
  refine ⟨hservice, hinvalidate, hdowngrade, hreads, ?_⟩
  rw [h.deferredWritable, hcons, List.any_cons, hfirst first rest hcons, Bool.true_or]

theorem promoteIf_all {mshr : Mshr} {test : Target → Except Assertion Bool}
    (hpending : mshr.downstreamPending = false)
    (hall : ∀ target ∈ mshr.deferredTargets.list, test target = .ok true) :
    ∃ promoted, mshr.promoteIf test = .ok promoted ∧ promoted.deferredTargets.list = [] ∧
      SameBlock mshr promoted ∧ promoted.targets.list =
        mshr.targets.list ++ mshr.deferredTargets.list.map Target.unmarked := by
  have hsplit := splitWhile_all hall
  refine ⟨{ mshr with
    deferredTargets := { mshr.deferredTargets with list := [] }.resetFlags
    targets := { mshr.targets with
      list := mshr.targets.list ++ mshr.deferredTargets.list.map Target.unmarked }
    upstream := mshr.upstream ++ mshr.deferredTargets.list.flatMap Target.lowerPending },
    ?_, rfl, ⟨rfl, rfl, rfl, rfl⟩, rfl⟩
  simp only [promoteIf, hpending, hsplit, Bool.not_false, check_true, ok_bind]
  rfl

/-- A writable response moves every deferred target up. -/
theorem Filling.promoteWritable {mshr : Mshr} (h : Filling mshr)
    (hpending : mshr.downstreamPending = false) :
    ∃ promoted, mshr.promoteWritable = .ok promoted ∧
      promoted.deferredTargets.list = [] ∧ SameBlock mshr promoted ∧
      promoted.targets.list =
        mshr.targets.list ++ mshr.deferredTargets.list.map Target.unmarked := by
  cases hcons : mshr.deferredTargets.list with
  | nil =>
      refine ⟨mshr, ?_, hcons, SameBlock.refl mshr, by simp⟩
      simp [Mshr.promoteWritable, hcons]
  | cons first rest =>
      obtain ⟨hservice, hinvalidate, hdowngrade, hreads, hasks⟩ := h.deferred_facts hcons
      have hnoInvalidate : first.pkt.req.isCacheInvalidate = false :=
        Request.isCacheInvalidate_of_not_maintenance _
          (ordinary_cases (h.deferred_ordinary first (by simp [hcons])).2).2
      have hall : ∀ target ∈ first :: rest, promotesWritable target = .ok true := by
        intro target htarget
        obtain ⟨hcpu, hordinary⟩ := h.deferred_ordinary target (hcons ▸ htarget)
        have hno := Request.isCacheInvalidate_of_not_maintenance _ (ordinary_cases hordinary).2
        simp [promotesWritable, hcpu, hno, pure, Except.pure]
      obtain ⟨promoted, hpromote, hnone, hblock, hlist⟩ := promoteIf_all
        (show mshr.askWritable.downstreamPending = false from hpending) (hcons ▸ hall)
      refine ⟨promoted, ?_, hnone,
        ⟨hblock.blkAddr, hblock.blkSize, hblock.isSecure, hblock.isUncacheable⟩, hcons ▸ hlist⟩
      simp only [Mshr.promoteWritable, hcons, hasks, hservice, hinvalidate, hdowngrade,
        hnoInvalidate, hreads, Bool.not_true, Bool.not_false, Bool.false_eq_true, Bool.or_false,
        ↓reduceIte, check_true, ok_bind]
      exact hpromote

theorem filling_step (life : Lifetime) (event : Event) (next : Lifetime)
    (hevent : Event.fills event = true)
    (hinv : life.allocated = true ∧ Filling life.mshr ∧ life.mshr.waiting = life.arrived)
    (h : step life event = .ok next) :
    next.allocated = true ∧ Filling next.mshr ∧ next.mshr.waiting = next.arrived := by
  obtain ⟨hbusy, hfilling, harrived⟩ := hinv
  cases event with
  | allocateTarget pkt whenReady order onFill =>
      simp only [step, bind_eq_ok, check_eq_ok, exists_const, pure_eq_ok] at h
      obtain ⟨-, mshr, halloc, rfl⟩ := h
      have hpost : (life.mshr.inService && life.mshr.postInvalidate) = false := by
        cases hservice : life.mshr.inService with
        | false => rfl
        | true => exact (hfilling.issued hservice).1
      have hwaiting := (allocateTarget_waiting hpost halloc).1
      exact ⟨hbusy, hfilling.allocateTarget hevent halloc, by rw [hwaiting, harrived]⟩
  | markInService pendingModified =>
      simp only [step, bind_eq_ok, check_eq_ok, exists_const, pure_eq_ok] at h
      obtain ⟨-, mshr, hmark, rfl⟩ := h
      have hwaiting := (markInService_spec hmark).waiting
      exact ⟨hbusy, hfilling.markInService hmark, by rw [hwaiting, harrived]⟩
  | setDownstreamPending pending =>
      simp only [step, bind_eq_ok, check_eq_ok, exists_const, pure_eq_ok] at h
      obtain ⟨-, rfl⟩ := h
      obtain ⟨a, b, c, d, e, f, g, i, j, k, l⟩ := hfilling
      exact ⟨hbusy, ⟨a, b, c, d, e, f, g, i, j, k, l⟩, harrived⟩
  | allocate blkAddr blkSize pkt whenReady order onFill => cases hevent
  | setForward isForward => cases hevent
  | response readable writable resp now => cases hevent

/-- The flags of everything that waits can be recomputed in one list: either
nothing is deferred, or the first target is a read and the flags are settled. -/
theorem Filling.updateAllFlags {mshr : Mshr} (h : Filling mshr) (blkAddr : Addr)
    (all : List Target) (hall : all ≠ []) :
    ∃ flagged, { TargetList.empty.init blkAddr mshr.blkSize with list := all }.updateAllFlags
      (mshr.targets.list ++ mshr.deferredTargets.list.map Target.unmarked) = .ok flagged := by
  cases hdeferred : mshr.deferredTargets.list with
  | nil =>
      obtain ⟨flagged, hflagged, -⟩ := h.repopulates blkAddr all hall
      refine ⟨flagged, ?_⟩
      rw [List.map_nil, List.append_nil, ← h.blkSize]
      exact hflagged
  | cons head tail =>
      have hreads := (h.deferred_facts hdeferred).2.2.2.1
      rw [h.targetsWritable, List.any_eq_false] at hreads
      cases htargets : mshr.targets.list with
      | nil => exact absurd htargets h.held
      | cons first rest =>
          obtain ⟨hcpu, hordinary⟩ := h.targets_ordinary first (by simp [htargets])
          have hread : first.pkt.cmd = .readReq := by
            apply ordinary_read hordinary
            simpa [Target.asksWritable, hcpu] using hreads first (by simp [htargets])
          have hrequests : ∀ target ∈ rest ++ (head :: tail).map Target.unmarked,
              target.pkt.cmd.isRequest = true := by
            intro target htarget
            apply ordinary_isRequest
            rw [List.mem_append, List.mem_map] at htarget
            obtain hrest | ⟨deferred, hmem, rfl⟩ := htarget
            · exact (h.targets_ordinary target (by simp [htargets, hrest])).2
            · exact (h.deferred_ordinary deferred (hdeferred ▸ hmem)).2
          obtain ⟨settled, hsettle, hsettled⟩ := TargetList.updateFlags_read
            { TargetList.empty.init blkAddr mshr.blkSize with list := all } hcpu hread
          obtain ⟨flagged, hflagged⟩ := hsettled.updateAllFlags
            (rest ++ (head :: tail).map Target.unmarked) hrequests
          refine ⟨flagged, ?_⟩
          rw [List.cons_append, TargetList.updateAllFlags, List.foldlM_cons, hsettle]
          exact hflagged

/-- A plain MSHR drains at a writable response. -/
theorem Filling.drains {mshr : Mshr} (h : Filling mshr) {resp : MemCmd}
    (hpending : mshr.downstreamPending = false) (hresp : resp ≠ .readRespWithInvalidate) :
    ∃ promoted ready drained, mshr.promoteWritable = .ok promoted ∧
      promoted.extractServiceableTargets resp = .ok (ready, drained) ∧
      ready.list.map Target.unmarked = mshr.waiting ∧ drained.getNumTargets = 0 := by
  obtain ⟨promoted, hpromote, hnone, hblock, hlist⟩ := h.promoteWritable hpending
  have hheld : promoted.targets.list ≠ [] := by
    rw [hlist]
    simp [h.held]
  obtain ⟨flagged, hflags⟩ := h.updateAllFlags promoted.blkAddr promoted.targets.list hheld
  have hlock : ∀ target ∈ promoted.targets.list, target.pkt.cmd ≠ .lockedRMWReadReq := by
    intro target htarget
    rw [hlist, List.mem_append, List.mem_map] at htarget
    obtain hmem | ⟨deferred, hmem, rfl⟩ := htarget
    · exact h.unlocked target (List.mem_append_left _ hmem)
    · exact h.unlocked deferred (List.mem_append_right _ hmem)
  rw [← hlist, ← hblock.blkSize] at hflags
  obtain ⟨drained, hextract, hready, htargets, hdeferred⟩ :=
    extractServiceableTargets_all hresp hlock hflags
  refine ⟨promoted, flagged, drained, hpromote, hextract, ?_, ?_⟩
  · rw [hready, hlist]
    simp [waiting, Function.comp_def]
  · rw [getNumTargets, htargets, hdeferred, hnone]
    rfl

/-- One fill serves everything: an MSHR that is allocated, coalesces plain reads
and writes in any number and is marked in service anywhere among them, is
drained by promotion and extraction when a writable response arrives. -/
theorem writable_fill_drains_mshr {free : Mshr} {blkAddr : Addr} {blkSize : Nat} {pkt : Packet}
    {whenReady : Tick} {order : Nat} {allocOnFill : Bool} {events : List Event}
    {final : Lifetime} {resp : MemCmd} (hfree : free.waiting = [])
    (hpkt : ordinary pkt = true) (hevents : ∀ event ∈ events, Event.fills event = true)
    (hrun : Transition.run step
      { mshr := free, allocated := false, arrived := [], extracted := [] }
      (.allocate blkAddr blkSize pkt whenReady order allocOnFill :: events) = .ok final)
    (hpending : final.mshr.downstreamPending = false)
    (hresp : resp ≠ .readRespWithInvalidate) :
    ∃ promoted ready drained, final.mshr.promoteWritable = .ok promoted ∧
      promoted.extractServiceableTargets resp = .ok (ready, drained) ∧
      ready.list.map Target.unmarked = final.arrived ∧ drained.getNumTargets = 0 := by
  obtain ⟨first, hfirst, hrest⟩ := Transition.run_cons_eq_ok.mp hrun
  simp only [step, bind_eq_ok, check_eq_ok, exists_const, pure_eq_ok] at hfirst
  obtain ⟨-, -, mshr, halloc, rfl⟩ := hfirst
  have hwaiting := ((allocate_spec halloc).lists hfree).2.2
  obtain ⟨-, hfilling, harrived⟩ := Transition.run_invariant
    (fun event => Event.fills event = true) filling_step hevents hrest
    ⟨rfl, filling_allocate hfree hpkt halloc, hwaiting⟩
  rw [← harrived]
  exact hfilling.drains hpending hresp

/-- A read in service with a write and a read behind it, both deferred. -/
theorem writable_fill_drains_mshr_deferred :
    let packet ptr cmd := Packet.ofRequest ptr (Request.physical 0x40 4 0 0) cmd
    ∃ final, Transition.run step
        { mshr := .empty, allocated := false, arrived := [], extracted := [] }
        [.allocate 0x40 4 (packet 0 .readReq) 0 0 true, .markInService false,
          .allocateTarget (packet 1 .writeReq) 0 1 true,
          .allocateTarget (packet 2 .readReq) 0 2 true] = .ok final ∧
      final.mshr.deferredTargets.list.length = 2 ∧
      ∃ promoted ready drained, final.mshr.promoteWritable = .ok promoted ∧
        promoted.extractServiceableTargets .readResp = .ok (ready, drained) ∧
        ready.list.map Target.unmarked = final.arrived ∧ drained.getNumTargets = 0 := by
  intro packet
  obtain ⟨final, hrun, hseen⟩ := exists_ok_of_observed
    (show ((Transition.run step
        { mshr := .empty, allocated := false, arrived := [], extracted := [] }
        [.allocate 0x40 4 (packet 0 .readReq) 0 0 true, .markInService false,
          .allocateTarget (packet 1 .writeReq) 0 1 true,
          .allocateTarget (packet 2 .readReq) 0 2 true]).toOption.map fun final =>
      (final.mshr.deferredTargets.list.length, final.mshr.downstreamPending)) =
        some (2, false) by decide +kernel)
  obtain ⟨hdeferred, hpending⟩ := Prod.mk.inj hseen
  exact ⟨final, hrun, hdeferred, writable_fill_drains_mshr rfl (by decide) (by decide) hrun
    hpending (by decide)⟩

end KuiperCache.Drain
