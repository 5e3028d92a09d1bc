import Mathlib.Data.List.TakeWhile
import KuiperCache.Mshr.Waiting
import KuiperCache.Mshr.Coverage

/-! Which targets a response serves.  The source walks the list once and erases
what it serves under the iterator; here the walks are loops of their own, and
the lists they leave are compared with the ones the MSHR model splits off. -/
namespace KuiperCache

open Checked

namespace Target

/-- Extraction stops at such a target and leaves it waiting. -/
def isLockedRead (target : Target) : Bool := target.pkt.cmd == .lockedRMWReadReq

def isSnoop (target : Target) : Bool := target.source == .fromSnoop

end Target

/-- The flags of a list can be recomputed if all its targets are requests inside
the line. -/
theorem TargetList.OfBlock.populateFlags {targets : TargetList} {blkAddr : Addr} {blkSize : Nat}
    (h : targets.OfBlock blkAddr blkSize)
    (hfits : ∀ target ∈ targets.list, target.Fits blkSize) :
    ∃ flagged, targets.populateFlags = .ok flagged := by
  have hinit := TargetList.ofBlock_init blkAddr blkSize
  rw [TargetList.populateFlags, h.resetFlags]
  exact TargetList.OfBlock.updateAllFlags ⟨hinit.blkAddr, hinit.blkSize, hinit.sized⟩ hfits

namespace Mshr

/-- The loop of an invalidating response: `here` starts at the iterator, and the
iterator steps over what `passed` holds. -/
def serveSnoops (passed ready : List Target) :
    List Target → Except Assertion (List Target × List Target)
  | [] => .ok (ready, passed)
  | target :: here =>
      if target.source = .fromCPU then serveSnoops (passed ++ [target]) ready here
      else do
        check (target.source == .fromSnoop) .snoopTargetExpected
        serveSnoops passed (ready ++ [target]) here

/-- The loop of any other response.  Nothing is stepped over, so the iterator
stays at the front of the list. -/
def serveUntilLocked (ready : List Target) : List Target → List Target × List Target
  | [] => (ready, [])
  | target :: here =>
      -- the target is copied before the test, and erased after it
      if target.isLockedRead then (ready ++ [target], target :: here)
      else serveUntilLocked (ready ++ [target]) here

/-- Both branches of the source, up to the flags. -/
def serve (list : List Target) (resp : MemCmd) :
    Except Assertion (List Target × List Target) :=
  if resp = .readRespWithInvalidate then
    match list with
    | [] => .error .noTargets
    | first :: rest => do
        check (first.source == .fromCPU || first.source == .fromPrefetcher)
          .cpuOrPrefetcherTargetExpected
        if first.isLockedRead then pure ([first], first :: rest)
        else serveSnoops [] [first] rest
  else .ok (serveUntilLocked [] list)

theorem splitSnoops_error {list : List Target} {reason : Assertion}
    (h : splitSnoops list = .error reason) : reason = .snoopTargetExpected := by
  induction list with
  | nil => cases h
  | cons target list ih =>
      cases hsplit : splitSnoops list with
      | error earlier =>
          rw [splitSnoops, hsplit, error_bind, Except.error.injEq] at h
          subst h
          exact ih hsplit
      | ok split =>
          rw [splitSnoops, hsplit, ok_bind] at h
          cases hsource : target.source with
          | fromCPU | fromSnoop =>
              rw [hsource] at h
              cases h
          | fromPrefetcher =>
              rw [hsource, Except.error.injEq] at h
              exact h.symm

theorem serveSnoops_eq (passed ready here : List Target) :
    serveSnoops passed ready here =
      (splitSnoops here).map fun (snoops, waiting) => (ready ++ snoops, passed ++ waiting) := by
  induction here generalizing passed ready with
  | nil => simp [serveSnoops, splitSnoops, Except.map]
  | cons target here ih =>
      cases hsplit : splitSnoops here with
      | error reason =>
          -- the source stops at the first prefetch, the split at the last: the same assertion
          have hreason := splitSnoops_error hsplit
          cases hsource : target.source <;>
            simp [serveSnoops, splitSnoops, hsource, ih, hsplit, hreason, Except.map, check]
      | ok split =>
          cases hsource : target.source <;>
            simp [serveSnoops, splitSnoops, hsource, ih, hsplit, Except.map, check]

theorem serveUntilLocked_eq (ready here : List Target) :
    serveUntilLocked ready here = (ready ++ (splitAtLocked here).1, (splitAtLocked here).2) := by
  induction here generalizing ready with
  | nil => simp [serveUntilLocked, splitAtLocked]
  | cons target here ih =>
      by_cases hlocked : target.pkt.cmd = .lockedRMWReadReq
      · simp [serveUntilLocked, splitAtLocked, Target.isLockedRead, hlocked]
      · simp [serveUntilLocked, splitAtLocked, Target.isLockedRead, hlocked, ih]

/-- The walks of the source split the list as the model does. -/
theorem serve_eq_serviceable (list : List Target) (resp : MemCmd) :
    serve list resp = serviceable list resp := by
  unfold serve serviceable
  split
  · cases list with
    | nil => rfl
    | cons first rest =>
        simp only [serveSnoops_eq, Target.isLockedRead]
        cases splitSnoops rest <;> rfl
  · rw [serveUntilLocked_eq, List.nil_append]

/-- The target at which extraction stops. -/
def stopsAt (list : List Target) (resp : MemCmd) : Option Target :=
  if resp = .readRespWithInvalidate then list.head?.filter Target.isLockedRead
  else list.find? Target.isLockedRead

theorem serveSnoops_spec {passed ready here : List Target}
    (h : ∀ target ∈ here, target.source ≠ .fromPrefetcher) :
    serveSnoops passed ready here =
      .ok (ready ++ here.filter Target.isSnoop, passed ++ here.filter fun target =>
        !target.isSnoop) := by
  induction here generalizing passed ready with
  | nil => simp [serveSnoops]
  | cons target here ih =>
      have hhere : ∀ later ∈ here, later.source ≠ .fromPrefetcher :=
        fun later hlater => h later (List.mem_cons_of_mem target hlater)
      cases hsource : target.source with
      | fromCPU => simp [serveSnoops, hsource, ih hhere, Target.isSnoop]
      | fromSnoop => simp [serveSnoops, hsource, ih hhere, Target.isSnoop, check]
      | fromPrefetcher => exact absurd hsource (h target List.mem_cons_self)

theorem serveUntilLocked_spec (ready here : List Target) :
    serveUntilLocked ready here =
      (ready ++ here.takeWhile (fun target => !target.isLockedRead) ++
          (here.find? Target.isLockedRead).toList,
        here.dropWhile fun target => !target.isLockedRead) := by
  induction here generalizing ready with
  | nil => simp [serveUntilLocked]
  | cons target here ih =>
      cases hlocked : target.isLockedRead with
      | true => simp [serveUntilLocked, hlocked]
      | false => simp [serveUntilLocked, hlocked, ih]

/-- What a response serves, and what it leaves: the targets of the list, each in
one part, but for the locked read at which extraction stops. -/
structure Split (list : List Target) (resp : MemCmd) (ready rest : List Target) : Prop where
  ready_order : ready.Sublist list
  rest_order : rest.Sublist list
  once : (ready ++ rest).Perm ((stopsAt list resp).toList ++ list)
  both : ∀ stop ∈ stopsAt list resp, stop ∈ ready ∧ stop ∈ rest

theorem split_untilLocked {list : List Target} {resp : MemCmd}
    (hresp : resp ≠ .readRespWithInvalidate) :
    Split list resp
      (list.takeWhile (fun target => !target.isLockedRead) ++ (stopsAt list resp).toList)
      (list.dropWhile fun target => !target.isLockedRead) := by
  have hstop : stopsAt list resp =
      (list.dropWhile fun target => !target.isLockedRead).head? := by
    rw [stopsAt, if_neg hresp, List.find?_eq_head?_dropWhile_not]
  -- the stop is the first target of what is left
  have hparts : list.takeWhile (fun target => !target.isLockedRead) ++
      list.dropWhile (fun target => !target.isLockedRead) = list :=
    List.takeWhile_append_dropWhile
  refine ⟨?_, List.dropWhile_sublist _, ?_, ?_⟩
  · rw [hstop, ← List.take_one]
    conv_rhs => rw [← hparts]
    exact (List.take_sublist 1 _).append_left _
  · calc
      _ = list.takeWhile (fun target => !target.isLockedRead) ++
          ((stopsAt list resp).toList ++
            list.dropWhile fun target => !target.isLockedRead) := List.append_assoc ..
      List.Perm _ ((stopsAt list resp).toList ++
          (list.takeWhile (fun target => !target.isLockedRead) ++
            list.dropWhile fun target => !target.isLockedRead)) := List.perm_append_comm_assoc ..
      _ = (stopsAt list resp).toList ++ list := by rw [hparts]
  · intro stop hmem
    refine ⟨List.mem_append_right _ (Option.mem_toList.mpr hmem), ?_⟩
    rw [hstop] at hmem
    exact List.mem_of_mem_head? hmem

theorem split_snoops {first : Target} {later : List Target}
    (hlocked : first.isLockedRead = false) :
    Split (first :: later) .readRespWithInvalidate (first :: later.filter Target.isSnoop)
      (later.filter fun target => !target.isSnoop) := by
  have hstop : stopsAt (first :: later) .readRespWithInvalidate = none := by
    simp [stopsAt, hlocked]
  refine ⟨List.filter_sublist.cons_cons first, List.filter_sublist.cons first, ?_, by simp [hstop]⟩
  rw [hstop]
  exact (List.filter_append_perm Target.isSnoop later).cons first

theorem split_locked {first : Target} {later : List Target}
    (hlocked : first.isLockedRead = true) :
    Split (first :: later) .readRespWithInvalidate [first] (first :: later) := by
  have hstop : stopsAt (first :: later) .readRespWithInvalidate = some first := by
    simp [stopsAt, hlocked]
  refine ⟨List.singleton_sublist.mpr List.mem_cons_self, List.Sublist.refl _, ?_, ?_⟩
  · rw [hstop]
    exact List.Perm.refl _
  · intro stop hmem
    obtain rfl : first = stop := by simpa [hstop] using hmem
    exact ⟨List.mem_cons_self, List.mem_cons_self⟩

/-- What an invalidating response serves. -/
def invalidatedReady (first : Target) (later : List Target) : List Target :=
  if first.isLockedRead then [first] else first :: later.filter Target.isSnoop

/-- What the targets of an invalidating response look like: the first one may not
be a snoop, and a prefetch is left alone behind a locked read only. -/
structure Invalidatable (list : List Target) : Prop where
  first : ∃ first ∈ list.head?, first.isSnoop = false
  later : list.head?.any Target.isLockedRead = true ∨
    ∀ target ∈ list.tail, target.source ≠ .fromPrefetcher

theorem serve_invalidating {first : Target} {later : List Target}
    (h : Invalidatable (first :: later)) :
    ∃ rest, serve (first :: later) .readRespWithInvalidate =
        .ok (invalidatedReady first later, rest) ∧
      Split (first :: later) .readRespWithInvalidate (invalidatedReady first later) rest := by
  have hsource : (first.source == .fromCPU || first.source == .fromPrefetcher) = true := by
    obtain ⟨head, hhead, hsnoop⟩ := h.first
    obtain rfl : first = head := by simpa using hhead
    cases hsource : first.source <;> simp_all [Target.isSnoop]
  cases hlocked : first.isLockedRead with
  | true =>
      refine ⟨first :: later, ?_, ?_⟩
      · simp [serve, hsource, hlocked, invalidatedReady, check]
      · rw [invalidatedReady, if_pos hlocked]
        exact split_locked hlocked
  | false =>
      have hlater : ∀ target ∈ later, target.source ≠ .fromPrefetcher :=
        h.later.resolve_left (by simp [hlocked])
      refine ⟨later.filter fun target => !target.isSnoop, ?_, ?_⟩
      · simp [serve, hsource, hlocked, invalidatedReady, check, serveSnoops_spec hlater]
      · rw [invalidatedReady, if_neg (by simp [hlocked])]
        exact split_snoops hlocked

/-- The walks come to an end, and split the list. -/
theorem serve_splits {list : List Target} {resp : MemCmd}
    (h : resp = .readRespWithInvalidate → Invalidatable list) :
    ∃ ready rest, serve list resp = .ok (ready, rest) ∧ Split list resp ready rest ∧
      (resp ≠ .readRespWithInvalidate →
        ready = list.takeWhile (fun target => !target.isLockedRead) ++
          (list.find? Target.isLockedRead).toList) ∧
      (resp = .readRespWithInvalidate → ∀ first later, list = first :: later →
        ready = invalidatedReady first later) := by
  by_cases hresp : resp = .readRespWithInvalidate
  · subst hresp
    have hlist := h rfl
    cases list with
    | nil => simpa using hlist.first
    | cons first later =>
        obtain ⟨rest, hserve, hsplit⟩ := serve_invalidating hlist
        refine ⟨_, rest, hserve, hsplit, fun hother => absurd rfl hother, ?_⟩
        rintro - _ _ hcons
        cases hcons
        rfl
  · have hsplit : Split list resp _ _ := split_untilLocked hresp
    have hstop : stopsAt list resp = list.find? Target.isLockedRead := if_neg hresp
    refine ⟨_, _, ?_, hsplit, fun _ => by rw [hstop], fun heq => absurd heq hresp⟩
    simp only [serve, hresp, ↓reduceIte, serveUntilLocked_spec, List.nil_append, hstop]

theorem extractServiceableTargets_total {mshr : Mshr} {ready rest : List Target} {resp : MemCmd}
    (hserve : serviceable mshr.targets.list resp = .ok (ready, rest))
    (hready : ready.Sublist mshr.targets.list) (hrest : rest.Sublist mshr.targets.list)
    (hblock : mshr.targets.OfBlock mshr.blkAddr mshr.blkSize)
    (hfits : ∀ target ∈ mshr.targets.list, target.Fits mshr.blkSize) :
    ∃ readyTargets next,
      mshr.extractServiceableTargets resp = .ok (readyTargets, next) := by
  have hinit := TargetList.ofBlock_init mshr.blkAddr mshr.blkSize
  have hreadyBlock : ({ TargetList.empty.init mshr.blkAddr mshr.blkSize with list := ready } :
      TargetList).OfBlock mshr.blkAddr mshr.blkSize := ⟨hinit.blkAddr, hinit.blkSize, hinit.sized⟩
  have hrestBlock : ({ mshr.targets with list := rest } : TargetList).OfBlock mshr.blkAddr
      mshr.blkSize := ⟨hblock.blkAddr, hblock.blkSize, hblock.sized⟩
  obtain ⟨readyTargets, hflags⟩ := hreadyBlock.populateFlags fun target htarget =>
    hfits target (hready.subset htarget)
  obtain ⟨targets, hleft⟩ := hrestBlock.populateFlags fun target htarget =>
    hfits target (hrest.subset htarget)
  refine ⟨readyTargets, { mshr with targets }, ?_⟩
  simp only [extractServiceableTargets, hserve, ok_bind, hflags, hleft]
  rfl

/-- A response takes a part of the targets and leaves the others in order; the
locked read at which it stops is in both parts. -/
theorem extraction_splits_targets {mshr : Mshr} {resp : MemCmd}
    (h : resp = .readRespWithInvalidate → Invalidatable mshr.targets.list) :
    ∃ ready rest, Split mshr.targets.list resp ready rest ∧
      (resp ≠ .readRespWithInvalidate →
        ready = mshr.targets.list.takeWhile (fun target => !target.isLockedRead) ++
          (mshr.targets.list.find? Target.isLockedRead).toList) ∧
      (resp = .readRespWithInvalidate → ∀ first later, mshr.targets.list = first :: later →
        ready = invalidatedReady first later) ∧
      (∀ readyTargets next, mshr.extractServiceableTargets resp = .ok (readyTargets, next) →
        readyTargets.list = ready ∧ next.targets.list = rest) ∧
      (mshr.targets.OfBlock mshr.blkAddr mshr.blkSize →
        (∀ target ∈ mshr.targets.list, target.Fits mshr.blkSize) →
        ∃ readyTargets next,
          mshr.extractServiceableTargets resp = .ok (readyTargets, next)) := by
  obtain ⟨ready, rest, hserve, hsplit, hplain, hinvalidating⟩ := serve_splits h
  rw [serve_eq_serviceable] at hserve
  refine ⟨ready, rest, hsplit, hplain, hinvalidating, ?_, fun hblock hfits =>
    extractServiceableTargets_total hserve hsplit.ready_order hsplit.rest_order hblock hfits⟩
  intro readyTargets next hextract
  obtain ⟨served, left, targets, hserved, hready, hleft, rfl⟩ :=
    extractServiceableTargets_eq_ok hextract
  rw [hserve, Except.ok.injEq, Prod.mk.injEq] at hserved
  exact ⟨hready.trans hserved.1.symm,
    (TargetList.populateFlags_spec hleft).1.list.trans hserved.2.symm⟩

/-- A read waits with a snoop between two writes behind it. -/
def snoopedMshr : Mshr :=
  let target (cmd : MemCmd) (order : Nat) (source : Source) :=
    { pkt := Packet.ofRequest order (Request.physical 0x40 4 0 0) cmd, readyTime := 0, order,
      source, markedPending := false, allocOnFill := true : Target }
  { Mshr.empty with
    blkAddr := 0x40
    blkSize := 64
    targets := { TargetList.empty.init 0x40 64 with
      list := [target .readReq 0 .fromCPU, target .writeReq 1 .fromCPU,
        target .readExReq 2 .fromSnoop, target .writeReq 3 .fromCPU] } }

theorem snoopedMshr_invalidatable : Invalidatable snoopedMshr.targets.list :=
  ⟨⟨_, rfl, by decide⟩, .inr (by decide)⟩

theorem extraction_splits_targets_snooped :
    ∃ readyTargets next,
      snoopedMshr.extractServiceableTargets .readRespWithInvalidate = .ok (readyTargets, next) ∧
      readyTargets.list.map Target.order = [0, 2] ∧
      (readyTargets.list ++ next.targets.list).Perm snoopedMshr.targets.list := by
  obtain ⟨ready, rest, hsplit, -, hready, hlists, htotal⟩ :=
    extraction_splits_targets fun _ : MemCmd.readRespWithInvalidate = .readRespWithInvalidate =>
      snoopedMshr_invalidatable
  obtain ⟨readyTargets, next, hextract⟩ := htotal
    ⟨rfl, rfl, (TargetList.ofBlock_init 0x40 64).sized⟩
    fun target htarget => by
      simp only [snoopedMshr, List.mem_cons, List.not_mem_nil, or_false] at htarget
      rcases htarget with rfl | rfl | rfl | rfl <;> exact ⟨by decide, by decide⟩
  obtain ⟨hreadyList, hrestList⟩ := hlists readyTargets next hextract
  refine ⟨readyTargets, next, hextract, ?_, ?_⟩
  · rw [hreadyList, hready rfl _ _ rfl]
    decide
  · rw [hreadyList, hrestList]
    exact hsplit.once

end Mshr

end KuiperCache
