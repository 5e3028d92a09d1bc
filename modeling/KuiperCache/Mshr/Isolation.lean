import KuiperCache.Mshr.Maintenance

/-! When maintenance stays apart.  A response that serves every target leaves room
for one maintenance target or for others; an invalidating one serves the first
target only, and what it moved up before stays with the rest. -/
namespace KuiperCache.Maintenance

open Checked Mshr

/-- Only the first target of the line may come from elsewhere than the
processor. -/
structure Tended (mshr : Mshr) : Prop where
  postInvalidate : mshr.postInvalidate = false
  sources : ∀ target ∈ mshr.waiting.tail, target.source = .fromCPU

/-- A locked read at the front keeps the MSHR in service. -/
def held (mshr : Mshr) : Prop := mshr.inService = true ∧ mshr.hasLockedRMWReadTarget = true

theorem Tended.targets_sources {mshr : Mshr} (h : Tended mshr) {first : Target}
    {rest : List Target} (hcons : mshr.targets.list = first :: rest) :
    ∀ target ∈ rest, target.source = .fromCPU := by
  intro target htarget
  refine h.sources target.unmarked ?_
  simp only [waiting, hcons, List.cons_append, List.map_cons, List.tail_cons]
  exact List.mem_map_of_mem (List.mem_append_left _ htarget)

theorem Tended.rearranged {mshr mshr' : Mshr} (h : Tended mshr) (hmoved : Rearranged mshr mshr') :
    Tended mshr' :=
  ⟨hmoved.postInvalidate.trans h.postInvalidate, hmoved.waiting ▸ h.sources⟩

/-- Serving targets leaves a suffix of the line. -/
theorem Tended.suffix {mshr mshr' : Mshr} (h : Tended mshr)
    (hpost : mshr'.postInvalidate = mshr.postInvalidate)
    (hwaiting : mshr'.waiting <:+ mshr.waiting) : Tended mshr' := by
  obtain ⟨served, happend⟩ := hwaiting
  exact ⟨hpost.trans h.postInvalidate, forall_tail_suffix (happend ▸ h.sources)⟩

theorem extractServiceableTargets_tended {mshr mshr' : Mshr} {served : TargetList}
    {resp : MemCmd} (h : Tended mshr)
    (hextract : mshr.extractServiceableTargets resp = .ok (served, mshr')) : Tended mshr' := by
  obtain ⟨ready, rest, targets, hsplit, -, htargets, rfl⟩ :=
    extractServiceableTargets_eq_ok hextract
  have hsource : ∀ target ∈ mshr.targets.list.tail, target.source = .fromCPU := by
    cases hlist : mshr.targets.list with
    | nil => simp
    | cons first rest => exact h.targets_sources hlist
  have hlist := (TargetList.populateFlags_spec htargets).1.list
  obtain ⟨front, happend⟩ := serviceable_suffix hsource hsplit
  refine h.suffix rfl ?_
  refine ⟨front.map Target.unmarked, ?_⟩
  simp only [waiting, hlist, ← happend, List.map_append, List.append_assoc]

theorem respond_tended {mshr mshr' : Mshr} {response : Response} {allocated : Bool}
    (h : Tended mshr) (hrespond : respond mshr response = .ok (allocated, mshr')) :
    Tended mshr' ∧ (allocated = false → mshr'.waiting = []) := by
  obtain ⟨-, promoted, served, after, hpromote, hextract, hcase⟩ := respond_eq_ok hrespond
  have hafter : Tended after :=
    extractServiceableTargets_tended (h.rearranged (promote_rearranged hpromote)) hextract
  split at hcase
  · obtain ⟨rfl, rfl⟩ := hcase
    exact ⟨hafter, by simp⟩
  · obtain ⟨next, hdeferred, hcase⟩ := hcase
    obtain ⟨hrearranged, hempty⟩ := promoteDeferredTargets_cases hdeferred
    have hnext := hafter.rearranged hrearranged
    cases allocated with
    | true =>
        simp only [↓reduceIte] at hcase
        subst hcase
        exact ⟨⟨hnext.postInvalidate, hnext.sources⟩, by simp⟩
    | false =>
        simp only [Bool.false_eq_true, ↓reduceIte] at hcase hempty
        obtain ⟨rfl, hwaiting⟩ := hempty
        obtain ⟨-, rfl⟩ := deallocate_eq_ok hcase
        exact ⟨⟨hnext.postInvalidate, hnext.sources⟩, fun _ => hwaiting⟩

/-- Maintenance waits on its own, except behind a locked read. -/
def Apart (mshr : Mshr) : Prop := isolated mshr.targets.list = true ∨ held mshr

section Respond

variable {mshr mshr' : Mshr} {response : Response} {allocated : Bool}

/-- How a response that has been handled leaves the MSHR. -/
structure Settled (mshr mshr' : Mshr) (response : Response) (allocated : Bool) : Prop where
  pending : allocated = true → mshr'.inService = false →
    (isolated mshr'.targets.list = true ↔ mixes mshr response = false)
  service : allocated = true → mshr'.inService = true → held mshr'
  mixed : mixes mshr response = true → allocated = true ∧ mshr'.inService = false

/-- The last part of a response settles it, given what extraction left. -/
theorem settled_of_extracted {after : Mshr}
    (hlocked : after.hasLockedRMWReadTarget = true → mixes mshr response = false ∧
      (after.inService = false → isolated after.targets.list = true))
    (hempty : after.targets.list = [] → mixes mshr response = false)
    (hleft : after.hasLockedRMWReadTarget = false → after.targets.list ≠ [] →
      (isolated (after.targets.list ++
          after.deferredTargets.list.takeWhile fun target => !target.isMaintenance) = true ↔
        mixes mshr response = false))
    (hcase : if after.hasLockedRMWReadTarget then allocated = true ∧ mshr' = after
      else ∃ next, after.promoteDeferredTargets response.now = .ok (allocated, next) ∧
        if allocated then mshr' = { next with inService := false }
        else next.deallocate = .ok mshr') : Settled mshr mshr' response allocated := by
  split at hcase
  case isTrue hfront =>
    obtain ⟨rfl, rfl⟩ := hcase
    obtain ⟨hunmixed, hisolated⟩ := hlocked hfront
    refine ⟨?_, fun _ hservice => ⟨hservice, hfront⟩, by simp [hunmixed]⟩
    intro _ hpending
    simp [hunmixed, hisolated hpending]
  case isFalse hfront =>
    rw [Bool.not_eq_true] at hfront
    obtain ⟨next, hdeferred, hcase⟩ := hcase
    cases allocated with
    | true =>
        simp only [↓reduceIte] at hcase
        subst hcase
        obtain ⟨halone, hbehind⟩ := promoteDeferredTargets_targets hdeferred
        refine ⟨?_, by simp, by simp⟩
        intro _ _
        by_cases hnone : after.targets.list = []
        · simp [halone hnone, hempty hnone]
        · rw [hbehind hnone]
          exact hleft hfront hnone
    | false =>
        obtain ⟨-, hfree⟩ := promoteDeferredTargets_cases hdeferred
        simp only [Bool.false_eq_true, ↓reduceIte] at hfree
        have hunmixed := hempty (waiting_eq_nil.mp hfree.2).1
        exact ⟨by simp, by simp, by simp [hunmixed]⟩

/-- A locked read at the front stops the response before it moves anything. -/
theorem respond_locked (happart : Apart mshr) (hfront : mshr.hasLockedRMWReadTarget = true)
    (h : respond mshr response = .ok (allocated, mshr')) :
    Settled mshr mshr' response allocated := by
  obtain ⟨hsome, promoted, served, after, hpromote, hextract, hcase⟩ := respond_eq_ok h
  have hunmixed : mixes mshr response = false := by simp [mixes, hfront]
  simp only [promote, hfront, ↓reduceIte, Except.ok.injEq] at hpromote
  subst hpromote
  obtain ⟨ready, rest, targets, hsplit, -, htargets, rfl⟩ :=
    extractServiceableTargets_eq_ok hextract
  have hlist := (TargetList.populateFlags_spec htargets).1.list
  obtain ⟨first, behind, hcons⟩ := List.exists_cons_of_ne_nil hsome
  have hcmd : first.pkt.cmd = .lockedRMWReadReq := by
    simpa [hasLockedRMWReadTarget, hcons] using hfront
  rw [hcons] at hsplit
  have hkept : targets.list = mshr.targets.list := by
    rw [hlist, hcons]
    exact serviceable_locked hcmd hsplit
  refine settled_of_extracted ?_ (fun _ => hunmixed) ?_ hcase
  · intro _
    refine ⟨hunmixed, ?_⟩
    intro hpending
    obtain hisolated | ⟨hservice, -⟩ := happart
    · simpa only [hkept] using hisolated
    · exact absurd hservice (by simpa using hpending)
  · intro hopen
    simp [hasLockedRMWReadTarget, hkept, hcons, hcmd] at hopen

/-- Any other response than an invalidating one serves the list up to a locked
read. -/
theorem respond_complete (hisolated : isolated mshr.targets.list = true)
    (hcmd : response.cmd ≠ .readRespWithInvalidate)
    (h : respond mshr response = .ok (allocated, mshr')) :
    Settled mshr mshr' response allocated := by
  obtain ⟨-, promoted, served, after, hpromote, hextract, hcase⟩ := respond_eq_ok h
  have hunmixed : mixes mshr response = false := by simp [mixes, hcmd]
  have hservice : promoted.inService = mshr.inService := (promote_rearranged hpromote).inService
  obtain ⟨ready, rest, targets, hsplit, -, htargets, rfl⟩ :=
    extractServiceableTargets_eq_ok hextract
  have hlist := (TargetList.populateFlags_spec htargets).1.list
  simp only [serviceable, hcmd, ↓reduceIte, Except.ok.injEq] at hsplit
  have hrest : targets.list = (splitAtLocked promoted.targets.list).2 := by rw [hlist, hsplit]
  obtain ⟨hsuffix, hcases⟩ := splitAtLocked_left promoted.targets.list
  refine settled_of_extracted ?_ (fun _ => hunmixed) ?_ hcase
  · intro _
    refine ⟨hunmixed, ?_⟩
    intro hpending
    -- nothing was promoted, so what is left was there before
    have hsame := promote_pending (hservice.symm.trans hpending) hpromote
    subst hsame
    simp only [hrest]
    exact isolated_suffix hisolated hsuffix
  · intro hopen hsome
    obtain hnil | hlocked := hcases
    · exact absurd (hrest.trans hnil) hsome
    · simp only [hasLockedRMWReadTarget, hrest] at hopen
      rw [hopen] at hlocked
      cases hlocked

/-- What decides whether maintenance that moved up is left with other targets. -/
theorem isolated_append_moved {first : Target} {rest up : List Target}
    (hisolated : isolated (first :: rest) = true) :
    isolated (rest ++ up.map Target.unmarked) = true ↔
      (up.any Target.isMaintenance && decide (1 < (rest ++ up).length)) = false := by
  have hrest : 1 ≤ rest.length → ∀ target ∈ rest, target.isMaintenance = false := by
    intro hsome target htarget
    refine isolated_many hisolated ?_ target (List.mem_cons_of_mem first htarget)
    rw [List.length_cons]
    omega
  rw [Bool.and_eq_false_iff, decide_eq_false_iff_not, isolated_iff]
  constructor
  · rintro (hnone | hone)
    · left
      rw [List.any_eq_false]
      intro target htarget
      rw [Bool.not_eq_true]
      exact hnone target.unmarked (List.mem_append_right rest (List.mem_map_of_mem htarget))
    · right
      rw [List.length_append, List.length_map] at hone
      rw [List.length_append]
      omega
  · intro hcases
    by_cases hshort : (rest ++ up).length ≤ 1
    · have hisolated' : isolated (rest ++ up.map Target.unmarked) = true :=
        isolated_of_length_le (by simpa using hshort)
      exact isolated_iff.mp hisolated'
    · left
      have hnone : up.any Target.isMaintenance = false := by
        obtain hnone | hlong := hcases
        · exact hnone
        · omega
      rw [List.any_eq_false] at hnone
      intro target htarget
      rw [List.mem_append] at htarget
      obtain hold | hnew := htarget
      · exact hrest (List.length_pos_of_mem hold) target hold
      · obtain ⟨before, hbefore, rfl⟩ := List.mem_map.mp hnew
        exact eq_false_of_ne_true (hnone before hbefore)

theorem mixes_invalidating {first : Target} {rest : List Target}
    (hcmd : response.cmd = .readRespWithInvalidate)
    (hfront : mshr.hasLockedRMWReadTarget = false) (hcons : mshr.targets.list = first :: rest) :
    mixes mshr response =
      (!((rest ++ (moved mshr response).map Target.unmarked).head?.any
          fun next => next.pkt.cmd == .lockedRMWReadReq) &&
        ((moved mshr response).any Target.isMaintenance &&
          decide (1 < (rest ++ moved mshr response).length))) := by
  have hhead (up : List Target) : ((rest ++ up.map Target.unmarked).head?.any
        fun next => next.pkt.cmd == .lockedRMWReadReq) =
      ((rest ++ up).head?.any fun next => next.pkt.cmd == .lockedRMWReadReq) := by
    cases rest with
    | nil => cases up <;> rfl
    | cons next behind => rfl
  rw [hhead]
  by_cases hwritable : (response.writableBlock && !response.cacheInvalidate) = true
  · have hmoved : moved mshr response = movable mshr := by simp only [moved, hwritable, ↓reduceIte]
    simp only [Bool.and_eq_true, Bool.not_eq_true'] at hwritable
    rw [hmoved]
    simp only [mixes, left, hcmd, hfront, hcons, hwritable, List.tail_cons, beq_self_eq_true,
      Bool.not_false, Bool.true_and, Bool.and_assoc]
  · have hmoved : moved mshr response = [] := by
      simp only [moved, hwritable, Bool.false_eq_true, ↓reduceIte]
    have hclosed : (response.writableBlock && !response.cacheInvalidate) = false :=
      eq_false_of_ne_true hwritable
    simp only [mixes, hmoved, List.any_nil, Bool.false_and, Bool.and_false]
    rw [Bool.and_assoc (response.cmd == .readRespWithInvalidate), hclosed]
    simp

/-- An invalidating response mixes maintenance with other targets exactly when it
moves some up that stays behind. -/
theorem respond_invalidating (htended : Tended mshr)
    (hisolated : isolated mshr.targets.list = true)
    (hfront : mshr.hasLockedRMWReadTarget = false)
    (hcmd : response.cmd = .readRespWithInvalidate)
    (h : respond mshr response = .ok (allocated, mshr')) :
    Settled mshr mshr' response allocated := by
  obtain ⟨hsome, promoted, served, after, hpromote, hextract, hcase⟩ := respond_eq_ok h
  obtain ⟨first, rest, hcons⟩ := List.exists_cons_of_ne_nil hsome
  have hrearranged := promote_rearranged hpromote
  obtain ⟨hmoved, hstops⟩ := promote_invalidating htended.postInvalidate hfront hcmd hpromote
  have hmixes := mixes_invalidating hcmd hfront hcons
  obtain ⟨ready, kept, targets, hsplit, -, htargets, rfl⟩ :=
    extractServiceableTargets_eq_ok hextract
  have hlist := (TargetList.populateFlags_spec htargets).1.list
  have hfirst : first.pkt.cmd ≠ .lockedRMWReadReq := by
    simpa [hasLockedRMWReadTarget, hcons] using hfront
  rw [hcons, List.cons_append] at hmoved
  rw [hmoved, hcmd] at hsplit
  have hkept : targets.list = rest ++ (moved mshr response).map Target.unmarked := by
    rw [hlist]
    exact serviceable_invalidating ((htended.rearranged hrearranged).targets_sources hmoved)
      hfirst hsplit
  rw [hcons] at hisolated
  refine settled_of_extracted ?_ ?_ ?_ hcase
  · intro hlocked
    rw [hasLockedRMWReadTarget] at hlocked
    simp only [hkept] at hlocked
    refine ⟨by simp only [hmixes, hlocked, Bool.not_true, Bool.false_and], ?_⟩
    intro hpending
    have hsame := promote_pending (hrearranged.inService.symm.trans hpending) hpromote
    subst hsame
    have hnone : (moved promoted response).map Target.unmarked = [] := by
      rw [hcons, List.cons.injEq] at hmoved
      exact List.self_eq_append_right.mp hmoved.2
    simp only [hkept, hnone, List.append_nil]
    exact isolated_suffix hisolated (List.suffix_cons first rest)
  · intro hempty
    simp only [hkept, List.append_eq_nil_iff, List.map_eq_nil_iff] at hempty
    simp [hmixes, hempty.2]
  · intro hopen hleft
    simp only [hasLockedRMWReadTarget, hkept] at hopen
    simp only [hmixes, hopen, Bool.not_false, Bool.true_and]
    obtain hnone | hnone := hstops
    · -- nothing moved, and what was behind the first target is no maintenance
      simp only [hkept, hnone, List.map_nil, List.append_nil] at hleft ⊢
      have hlong : 1 < (first :: rest).length := by
        simpa [List.length_pos_iff] using hleft
      have hordinary := isolated_many hisolated hlong
      simp only [List.any_nil, Bool.false_and, iff_true]
      refine isolated_iff.mpr (.inl ?_)
      intro target htarget
      rw [List.mem_append] at htarget
      obtain hold | hnew := htarget
      · exact hordinary target (List.mem_cons_of_mem first hold)
      · simpa using List.mem_takeWhile_imp hnew
    · simp only [hnone, List.append_nil, hkept]
      exact isolated_append_moved hisolated

theorem respond_settled (htended : Tended mshr) (happart : Apart mshr)
    (h : respond mshr response = .ok (allocated, mshr')) :
    Settled mshr mshr' response allocated := by
  cases hfront : mshr.hasLockedRMWReadTarget with
  | true => exact respond_locked happart hfront h
  | false =>
      have hisolated : isolated mshr.targets.list = true := by
        obtain hisolated | ⟨-, hlocked⟩ := happart
        · exact hisolated
        · rw [hfront] at hlocked
          cases hlocked
      by_cases hcmd : response.cmd = .readRespWithInvalidate
      · exact respond_invalidating htended hisolated hfront hcmd h
      · exact respond_complete hisolated hcmd h

end Respond

theorem Apart.isolated {mshr : Mshr} (h : Apart mshr) (hpending : mshr.inService = false) :
    isolated mshr.targets.list = true := by
  obtain hisolated | ⟨hservice, -⟩ := h
  · exact hisolated
  · rw [hpending] at hservice
    cases hservice

/-- A target is appended only to a list without maintenance, and is none. -/
theorem defers_ordinary {mshr : Mshr} {pkt : Packet} (h : mshr.defers pkt = .ok false) :
    pkt.req.isCacheMaintenance = false ∧
      ∃ first rest, mshr.targets.list = first :: rest ∧ first.isMaintenance = false := by
  simp only [defers, bind_eq_ok] at h
  obtain ⟨first, hfirst, h⟩ := h
  obtain ⟨rest, hcons⟩ := getTarget_eq_ok.mp hfirst
  split at h
  · simp at h
  · rename_i hnone
    simp only [Bool.or_eq_true, not_or, Bool.not_eq_true] at hnone
    exact ⟨hnone.1.1, first, rest, hcons, hnone.1.2⟩

theorem allocateTarget_apart {mshr mshr' : Mshr} {pkt : Packet} {whenReady : Tick} {order : Nat}
    {onFill : Bool} (hpost : mshr.postInvalidate = false) (happart : Apart mshr)
    (h : mshr.allocateTarget pkt whenReady order onFill = .ok mshr') : Apart mshr' := by
  obtain ⟨-, ⟨-, h⟩ | ⟨hdefers, h⟩⟩ := allocateTarget_cases h
  · obtain ⟨-, htargets, hkept⟩ := deferTarget_spec (by simp [hpost]) h
    simpa only [Apart, held, hasLockedRMWReadTarget, htargets, hkept.inService] using happart
  · obtain ⟨hadd, -, hkept⟩ := appendTarget_spec h
    obtain ⟨hpkt, first, rest, hcons, hfirst⟩ := defers_ordinary hdefers
    have hlist := (TargetList.add_spec hadd).1
    obtain hisolated | ⟨hservice, hlocked⟩ := happart
    · left
      have hordinary : ∀ target ∈ mshr.targets.list, target.isMaintenance = false := by
        obtain hnone | hone := isolated_iff.mp hisolated
        · exact hnone
        · rw [hcons, List.length_cons] at hone
          have hnil : rest = [] := List.length_eq_zero_iff.mp (by omega)
          simpa [hcons, hnil] using hfirst
      rw [hlist]
      refine isolated_iff.mpr (.inl ?_)
      intro target htarget
      rw [List.mem_append, List.mem_singleton] at htarget
      obtain hold | rfl := htarget
      · exact hordinary target hold
      · exact hpkt
    · right
      refine ⟨hkept.inService.trans hservice, ?_⟩
      simpa [hasLockedRMWReadTarget, hlist, hcons] using hlocked

theorem MarkedInService.apart {mshr mshr' : Mshr} {pendingModified : Bool}
    (h : MarkedInService mshr mshr' pendingModified) (happart : Apart mshr) : Apart mshr' := by
  have hisolated := happart.isolated h.pending
  left
  obtain hsame | hcleared := h.targets
  · rw [hsame]
    exact hisolated
  · rw [hcleared, TargetList.clearDownstreamPending, isolated_unmarked]
    exact hisolated

/-- What holds in every state of a life that has kept maintenance apart. -/
structure Calm (life : Life) : Prop where
  tended : Tended life.mshr
  free : life.allocated = false → life.mshr.waiting = []
  apart : life.allocated = true → Apart life.mshr

theorem calm_initial : Calm initial :=
  ⟨⟨rfl, by simp [initial, waiting, Mshr.empty, TargetList.empty]⟩, fun _ => rfl,
    by simp [initial]⟩

theorem Calm.sendsAlone {life : Life} (h : Calm life) : sendsAlone life = true := by
  unfold Maintenance.sendsAlone
  cases hbusy : life.allocated with
  | false => rfl
  | true =>
      cases hservice : life.mshr.inService with
      | true => rfl
      | false => simpa using (h.apart hbusy).isolated hservice

theorem Tended.allocate {mshr mshr' : Mshr} {blkAddr : Addr} {blkSize : Nat} {pkt : Packet}
    {first : Target} (h : Tended mshr) (hfree : mshr.waiting = [])
    (halloc : Allocated mshr mshr' blkAddr blkSize pkt first) : Tended mshr' := by
  refine ⟨halloc.postInvalidate.trans h.postInvalidate, ?_⟩
  simp [(halloc.lists hfree).2.2]

theorem Tended.allocateTarget {mshr mshr' : Mshr} {pkt : Packet} {whenReady : Tick} {order : Nat}
    {onFill : Bool} (h : Tended mshr)
    (halloc : mshr.allocateTarget pkt whenReady order onFill = .ok mshr') : Tended mshr' := by
  obtain ⟨hwaiting, hkept, -⟩ :=
    allocateTarget_waiting (by simp [h.postInvalidate]) halloc
  refine ⟨hkept.postInvalidate.trans h.postInvalidate, ?_⟩
  rw [hwaiting]
  exact forall_tail_snoc h.sources rfl

theorem step_calm (life : Life) (event : Event) (next : Life)
    (hcondition : keepsApart life event = true) (hcalm : Calm life)
    (h : step life event = .ok next) : Calm next := by
  obtain ⟨htended, hfree, happart⟩ := hcalm
  cases event with
  | allocate blkAddr blkSize pkt whenReady order onFill =>
      simp only [step, bind_eq_ok, check_eq_ok, exists_const, pure_eq_ok,
        Bool.not_eq_true'] at h
      obtain ⟨hidle, -, mshr, halloc, rfl⟩ := h
      have hspec := allocate_spec halloc
      refine ⟨htended.allocate (hfree hidle) hspec, by simp, ?_⟩
      intro _
      left
      rw [(hspec.lists (hfree hidle)).1]
      exact isolated_of_length_le (by simp)
  | allocateTarget pkt whenReady order onFill =>
      simp only [step, bind_eq_ok, check_eq_ok, exists_const, pure_eq_ok] at h
      obtain ⟨hbusy, mshr, halloc, rfl⟩ := h
      exact ⟨htended.allocateTarget halloc, by simp [hbusy],
        fun _ => allocateTarget_apart htended.postInvalidate (happart hbusy) halloc⟩
  | setForward isForward =>
      simp only [step, bind_eq_ok, check_eq_ok, exists_const, pure_eq_ok] at h
      obtain ⟨-, rfl⟩ := h
      exact ⟨⟨htended.postInvalidate, htended.sources⟩, hfree, happart⟩
  | setDownstreamPending pending =>
      simp only [step, bind_eq_ok, check_eq_ok, exists_const, pure_eq_ok] at h
      obtain ⟨-, rfl⟩ := h
      exact ⟨⟨htended.postInvalidate, htended.sources⟩, hfree, happart⟩
  | markInService pendingModified =>
      simp only [step, bind_eq_ok, check_eq_ok, exists_const, pure_eq_ok] at h
      obtain ⟨hbusy, mshr, hmark, rfl⟩ := h
      have hspec := markInService_spec hmark
      exact ⟨⟨hspec.postInvalidate, hspec.waiting ▸ htended.sources⟩, by simp [hbusy],
        fun _ => MarkedInService.apart hspec (happart hbusy)⟩
  | response response =>
      simp only [step, bind_eq_ok, check_eq_ok, exists_const, pure_eq_ok] at h
      obtain ⟨hbusy, ⟨allocated, mshr⟩, hrespond, rfl⟩ := h
      obtain ⟨htended', hfree'⟩ := respond_tended htended hrespond
      have hsettled := respond_settled htended (happart hbusy) hrespond
      refine ⟨htended', hfree', ?_⟩
      intro hbusy'
      simp only [keepsApart, Bool.not_eq_true'] at hcondition
      cases hservice : mshr.inService with
      | true => exact .inr (hsettled.service hbusy' hservice)
      | false => exact .inl ((hsettled.pending hbusy' hservice).mpr hcondition)

/-- A step that does not meet the condition ends with maintenance mixed with
other targets. -/
theorem step_sendsAlone (life : Life) (event : Event) (next : Life) (hcalm : Calm life)
    (h : step life event = .ok next) :
    sendsAlone next = true ↔ keepsApart life event = true := by
  refine ⟨?_, fun hcondition => (step_calm life event next hcondition hcalm h).sendsAlone⟩
  intro halone
  cases event with
  | response response =>
      simp only [step, bind_eq_ok, check_eq_ok, exists_const, pure_eq_ok] at h
      obtain ⟨hbusy, ⟨allocated, mshr⟩, hrespond, rfl⟩ := h
      have hsettled := respond_settled hcalm.tended (hcalm.apart hbusy) hrespond
      by_contra hcontra
      simp only [keepsApart, Bool.not_eq_true', Bool.not_eq_false] at hcontra
      obtain ⟨hbusy', hpending⟩ := hsettled.mixed hcontra
      have hpending' := hsettled.pending hbusy' hpending
      simp only [sendsAlone, hbusy', hpending, Bool.not_false, Bool.and_self, Bool.not_true,
        Bool.false_or] at halone
      rw [hpending'.mp halone] at hcontra
      cases hcontra
  | _ => rfl

/-- In the life of an MSHR, a request is always made from a maintenance target
that waits alone exactly when no invalidating response moves a maintenance target
up next to another one that it does not serve. -/
theorem maintenance_sent_alone_iff_kept_apart {events : List Event} {final : Life}
    (hrun : Transition.run step initial events = .ok final) :
    Transition.always step sendsAlone initial events = true ↔
      Transition.meets step keepsApart initial events = true :=
  Transition.always_iff_meets step_calm
    (fun life event next hcalm _ => step_sendsAlone life event next hcalm) hrun calm_initial rfl

/-- Memory answers a read with a writable block. -/
def writableResponse (cmd : MemCmd) : Response :=
  { cmd, cacheInvalidate := false, validBlock := true, writableBlock := true, now := 0 }

/-- A read is sent; a write and a clean are deferred behind it. -/
def cleanBehindWrite : List Event :=
  let packet ptr cmd flags :=
    Packet.ofRequest ptr { Request.physical 0x40 4 0 0 with flags } cmd
  [.allocate 0x40 4 (packet 0 .readReq 0) 0 0 true, .markInService false,
    .allocateTarget (packet 1 .writeReq 0) 0 1 true,
    .allocateTarget (packet 2 .cleanSharedReq Request.clean) 0 2 true]

/-- The invalidating response serves the read alone, after the write and the clean
have moved up: they wait together for the next request. -/
theorem clean_is_left_with_write :
    ∃ life, Transition.run step initial
        (cleanBehindWrite ++ [.response (writableResponse .readRespWithInvalidate)]) = .ok life ∧
      life.allocated = true ∧ life.mshr.inService = false ∧
      life.mshr.targets.list.map (fun target => (target.pkt.cmd, target.isMaintenance)) =
        [(.writeReq, false), (.cleanSharedReq, true)] := by
  obtain ⟨life, hrun, hseen⟩ := exists_ok_of_observed
    (show ((Transition.run step initial
      (cleanBehindWrite ++ [.response (writableResponse .readRespWithInvalidate)])).toOption.map
        fun life => (life.allocated, life.mshr.inService,
          life.mshr.targets.list.map fun target => (target.pkt.cmd, target.isMaintenance))) =
      some (true, false, [(.writeReq, false), (.cleanSharedReq, true)]) by decide +kernel)
  simp only [Prod.mk.injEq] at hseen
  exact ⟨life, hrun, hseen⟩

theorem maintenance_sent_alone_iff_kept_apart_readResp :
    Transition.always step sendsAlone initial
      (cleanBehindWrite ++ [.response (writableResponse .readResp)]) = true := by
  obtain ⟨final, hrun, -⟩ := exists_ok_of_observed
    (show ((Transition.run step initial
      (cleanBehindWrite ++ [.response (writableResponse .readResp)])).toOption.map
        fun life => life.allocated) = some false by decide +kernel)
  exact (maintenance_sent_alone_iff_kept_apart hrun).mpr (by decide +kernel)

end KuiperCache.Maintenance
