import KuiperCache.Library.Transition
import KuiperCache.Mshr.WriteMerge

/-! Which bytes of the line the waiting writes cover.  The flags are kept while
targets are added and recomputed from the list; the two differ only in what a
special write at the head of the list contributes. -/
namespace KuiperCache

open Checked

namespace Target

/-- The packet lies inside a block of this size, and is a request if the list
looks at it. -/
structure Fits (blkSize : Nat) (target : Target) : Prop where
  request : target.source ≠ .fromSnoop → target.pkt.cmd.isRequest = true
  inside : (target.pkt.getOffset blkSize).toNat + target.pkt.size ≤ blkSize

/-- The byte of the block is one of the packet's. -/
def covers (blkSize : Nat) (target : Target) (byte : Nat) : Bool :=
  (target.pkt.getOffset blkSize).toNat ≤ byte &&
    byte < (target.pkt.getOffset blkSize).toNat + target.pkt.size

/-- A write that is taken into account at the head of a list only: unmasked, of
at least one byte, and with a flag that forbids merging. -/
def isSpecialWrite (target : Target) : Bool :=
  target.source == .fromCPU && target.pkt.cmd.isWrite && !target.pkt.isMaskedWrite &&
    target.pkt.req.isSet noMergeFlags && 0 < target.pkt.size

end Target

theorem fillWrites_eq_ok {bitmap filled : List Bool} {offset size : Nat}
    (h : fillWrites bitmap offset size = .ok filled) :
    offset + size ≤ bitmap.length ∧ filled.length = bitmap.length ∧
      ∀ byte, filled[byte]? = some true ↔
        bitmap[byte]? = some true ∨ (offset ≤ byte ∧ byte < offset + size) := by
  simp only [fillWrites, bind_eq_ok, check_eq_ok, pure_eq_ok, exists_const, decide_eq_true_eq] at h
  obtain ⟨hinside, rfl⟩ := h
  refine ⟨hinside, by simp; omega, ?_⟩
  intro byte
  have hfront : (bitmap.take offset).length = offset := by simp; omega
  have hfilled : (bitmap.take offset ++ List.replicate size true).length = offset + size := by
    simp [hfront]
  by_cases hbefore : byte < offset
  · rw [List.getElem?_append_left (by omega), List.getElem?_append_left (by omega),
      List.getElem?_take_of_lt hbefore]
    exact (or_iff_left (by omega)).symm
  · by_cases hin : byte < offset + size
    · rw [List.getElem?_append_left (by omega), List.getElem?_append_right (by omega),
        List.getElem?_replicate, if_pos (by omega)]
      exact iff_of_true rfl (.inr ⟨by omega, hin⟩)
    · rw [List.getElem?_append_right (by omega), hfilled, List.getElem?_drop,
        Nat.add_sub_cancel' (by omega)]
      exact (or_iff_left (by omega)).symm

theorem fillWrites_zero {bitmap filled : List Bool} {offset : Nat}
    (h : fillWrites bitmap offset 0 = .ok filled) : filled = bitmap := by
  simp only [fillWrites, bind_eq_ok, check_eq_ok, pure_eq_ok, exists_const] at h
  rw [← h.2]
  simp

theorem fillWrites_total {bitmap : List Bool} {offset size : Nat}
    (h : offset + size ≤ bitmap.length) : ∃ filled, fillWrites bitmap offset size = .ok filled := by
  simp [fillWrites, h, check]

namespace TargetList

variable {targets flagged : TargetList} {pkt : Packet} {target : Target}

/-- The bitmap has one entry for each byte of the block. -/
def Sized (targets : TargetList) : Prop := targets.writesBitmap.length = targets.blkSize

/-- What a packet does to the write flags: nothing once they are settled, a read
ends the merging, and a write fills in its bytes unless it is masked or a special
one behind other targets. -/
theorem updateWriteFlags_cases (h : targets.updateWriteFlags pkt = .ok flagged) :
    (Settled targets ∧ flagged = targets) ∨
    (targets.canMergeWrites = true ∧ targets.isWholeLineWrite = false ∧
      pkt.cmd.isWrite = false ∧ flagged = { targets with canMergeWrites := false }) ∨
    (targets.canMergeWrites = true ∧ targets.isWholeLineWrite = false ∧
      pkt.cmd.isWrite = true ∧ ∃ bitmap,
        (if !pkt.isMaskedWrite && (targets.list.isEmpty || !pkt.req.isSet noMergeFlags) then
            fillWrites targets.writesBitmap (pkt.getOffset targets.blkSize).toNat pkt.size
          else .ok targets.writesBitmap) = .ok bitmap ∧
        flagged = { targets with
          writesBitmap := bitmap, canMergeWrites := !pkt.req.isSet noMergeFlags }) := by
  cases hwhole : targets.isWholeLineWrite with
  | true =>
      have hsettled : Settled targets := .inl hwhole
      rw [hsettled.updateWriteFlags, Except.ok.injEq] at h
      exact .inl ⟨hsettled, h.symm⟩
  | false =>
      cases hmerge : targets.canMergeWrites with
      | false =>
          have hsettled : Settled targets := .inr hmerge
          rw [hsettled.updateWriteFlags, Except.ok.injEq] at h
          exact .inl ⟨hsettled, h.symm⟩
      | true =>
          rw [updateWriteFlags, hwhole, hmerge] at h
          cases hwrite : pkt.cmd.isWrite with
          | false =>
              rw [hwrite] at h
              exact .inr (.inl ⟨rfl, rfl, rfl, (Except.ok.inj h).symm⟩)
          | true =>
              simp only [hwrite, Bool.not_true, Bool.false_eq_true, ↓reduceIte, Bool.true_and,
                bind_eq_ok, pure_eq_ok] at h
              obtain ⟨bitmap, hbitmap, rfl⟩ := h
              exact .inr (.inr ⟨rfl, rfl, rfl, bitmap, hbitmap, rfl⟩)

theorem Sized.updateWriteFlags (h : targets.Sized)
    (hinside : (pkt.getOffset targets.blkSize).toNat + pkt.size ≤ targets.blkSize) :
    ∃ flagged, targets.updateWriteFlags pkt = .ok flagged := by
  rw [Sized] at h
  unfold TargetList.updateWriteFlags
  split
  · exact ⟨_, rfl⟩
  split
  · split
    · exact ⟨_, rfl⟩
    dsimp only
    split
    · obtain ⟨filled, hfilled⟩ := fillWrites_total (hinside.trans h.ge)
      rw [hfilled]
      exact ⟨_, rfl⟩
    · exact ⟨_, rfl⟩
  · exact ⟨_, rfl⟩

theorem Sized.of_updateWriteFlags (h : targets.Sized)
    (hflags : targets.updateWriteFlags pkt = .ok flagged) : flagged.Sized := by
  rw [Sized] at h ⊢
  obtain ⟨-, rfl⟩ | ⟨-, -, -, rfl⟩ | ⟨-, -, -, bitmap, hbitmap, rfl⟩ :=
    updateWriteFlags_cases hflags
  · exact h
  · exact h
  · split at hbitmap
    · exact (fillWrites_eq_ok hbitmap).2.1.trans h
    · rw [← Except.ok.inj hbitmap]
      exact h

/-- The flags of requests that the write flags do not depend on. -/
def flagTarget (targets : TargetList) (target : Target) : TargetList :=
  if target.source = .fromSnoop then targets
  else if target.source = .fromPrefetcher then
    targets.flagRequest target.pkt target.pkt.cmd.needsWritable target.allocOnFill
  else (targets.flagRequest target.pkt target.pkt.cmd.needsWritable
    target.allocOnFill).flagFromCache target.pkt

/-- A target sets its request flags, and the write flags if it is the CPU's. -/
theorem updateFlags_eq (hrequest : target.source ≠ .fromSnoop → target.pkt.cmd.isRequest = true) :
    targets.updateFlags target.pkt target.source target.allocOnFill =
      if target.source = .fromCPU then (targets.flagTarget target).updateWriteFlags target.pkt
      else .ok (targets.flagTarget target) := by
  unfold updateFlags flagTarget Packet.needsWritable
  cases hsource : target.source with
  | fromSnoop => rfl
  | fromPrefetcher =>
      rw [hrequest (by simp [hsource])]
      rfl
  | fromCPU =>
      rw [hrequest (by simp [hsource])]
      rfl

theorem flagTarget_write (targets : TargetList) (target : Target) :
    (targets.flagTarget target).writesBitmap = targets.writesBitmap ∧
      (targets.flagTarget target).canMergeWrites = targets.canMergeWrites ∧
      (targets.flagTarget target).blkSize = targets.blkSize ∧
      (targets.flagTarget target).list = targets.list := by
  unfold flagTarget
  split
  · exact ⟨rfl, rfl, rfl, rfl⟩
  split <;> exact ⟨rfl, rfl, rfl, rfl⟩

theorem flagTarget_relist (targets : TargetList) (target : Target) (all : List Target) :
    ({ targets with list := all } : TargetList).flagTarget target =
      { targets.flagTarget target with list := all } := by
  unfold flagTarget
  split
  · rfl
  split <;> rfl

/-- The write flags look at the list only to recognise a special write at its
head. -/
theorem updateWriteFlags_relist {all : List Target} (hall : all ≠ [])
    (hfirst : targets.list = [] → pkt.cmd.isWrite = true → pkt.isMaskedWrite = false →
      pkt.req.isSet noMergeFlags = true → pkt.size = 0)
    (h : targets.updateWriteFlags pkt = .ok flagged) :
    ({ targets with list := all } : TargetList).updateWriteFlags pkt =
      .ok { flagged with list := all } := by
  have hempty : all.isEmpty = false := by simpa using hall
  obtain ⟨hsettled, rfl⟩ | ⟨hmerge, hwhole, hread, rfl⟩ |
      ⟨hmerge, hwhole, hwrite, bitmap, hbitmap, rfl⟩ := updateWriteFlags_cases h
  · have hsettled' : Settled { flagged with list := all } := hsettled
    exact hsettled'.updateWriteFlags pkt
  · have hwhole' : ({ targets with list := all } : TargetList).isWholeLineWrite = false := hwhole
    have hmerge' : ({ targets with list := all } : TargetList).canMergeWrites = true := hmerge
    rw [updateWriteFlags, hwhole', hmerge', hread]
    rfl
  · have hwhole' : ({ targets with list := all } : TargetList).isWholeLineWrite = false := hwhole
    have hmerge' : ({ targets with list := all } : TargetList).canMergeWrites = true := hmerge
    have hbitmap' : (if !pkt.isMaskedWrite && (false || !pkt.req.isSet noMergeFlags) then
        fillWrites targets.writesBitmap (pkt.getOffset targets.blkSize).toNat pkt.size
      else .ok targets.writesBitmap) = .ok bitmap := by
      cases hlist : targets.list.isEmpty with
      | false =>
          rw [hlist] at hbitmap
          exact hbitmap
      | true =>
          rw [hlist] at hbitmap
          cases hmask : pkt.isMaskedWrite <;> cases hspecial : pkt.req.isSet noMergeFlags <;>
            simp only [hmask, hspecial] at hbitmap ⊢
          · exact hbitmap
          · -- a special write without bytes fills nothing
            rw [hfirst (List.isEmpty_iff.mp hlist) hwrite hmask hspecial] at hbitmap
            rw [← fillWrites_zero hbitmap]
            rfl
          · exact hbitmap
          · exact hbitmap
    rw [updateWriteFlags, hwhole', hmerge', hwrite]
    simp only [hempty, hbitmap', Bool.not_true, Bool.false_eq_true, ↓reduceIte, Bool.true_and,
      ok_bind]
    rfl

theorem updateFlags_relist {all : List Target} (hall : all ≠ [])
    (hrequest : target.source ≠ .fromSnoop → target.pkt.cmd.isRequest = true)
    (hfirst : targets.list = [] → target.isSpecialWrite = false)
    (h : targets.updateFlags target.pkt target.source target.allocOnFill = .ok flagged) :
    ({ targets with list := all } : TargetList).updateFlags target.pkt target.source
      target.allocOnFill = .ok { flagged with list := all } := by
  rw [updateFlags_eq hrequest] at h ⊢
  rw [flagTarget_relist]
  split at h
  · next hcpu =>
      rw [if_pos hcpu]
      apply updateWriteFlags_relist hall _ h
      intro hlist hwrite hmask hspecial
      rw [(flagTarget_write targets target).2.2.2] at hlist
      have hnot := hfirst hlist
      simpa [Target.isSpecialWrite, hcpu, hwrite, hmask, hspecial] using hnot
  · next hother =>
      rw [if_neg hother, ← Except.ok.inj h]

theorem add_eq_ok {added : TargetList} (h : targets.add target = .ok added) : ∃ flagged,
    targets.updateFlags target.pkt target.source target.allocOnFill = .ok flagged ∧
      added = { flagged with list := flagged.list ++ [target] } := by
  simp only [add, bind_eq_ok, pure_eq_ok] at h
  obtain ⟨flagged, hflags, rfl⟩ := h
  exact ⟨flagged, hflags, rfl⟩

/-- Recomputing the flags over the targets that were added gives what adding
them gave, unless a special write came first. -/
theorem updateAllFlags_relist {all list : List Target} {added : TargetList} (hall : all ≠ [])
    (hfits : ∀ target ∈ list, target.source ≠ .fromSnoop → target.pkt.cmd.isRequest = true)
    (hfirst : targets.list = [] → ∀ first ∈ list.head?, first.isSpecialWrite = false)
    (hrun : Transition.run add targets list = .ok added) :
    ({ targets with list := all } : TargetList).updateAllFlags list =
      .ok { added with list := all } := by
  induction list generalizing targets with
  | nil =>
      rw [Transition.run_nil, Except.ok.injEq] at hrun
      rw [hrun]
      rfl
  | cons target list ih =>
      obtain ⟨next, hadd, hrest⟩ := Transition.run_cons_eq_ok.mp hrun
      obtain ⟨flagged, hflags, rfl⟩ := add_eq_ok hadd
      have hhead := updateFlags_relist hall (hfits target (by simp))
        (fun hlist => hfirst hlist target (by simp)) hflags
      have hothers := ih (fun t ht => hfits t (by simp [ht])) (by simp) hrest
      rw [updateAllFlags, List.foldlM_cons, hhead]
      exact hothers

/-- Nothing more is merged. -/
def Closed (bitmap : List Bool) (targets : TargetList) : Prop :=
  targets.canMergeWrites = false ∧ targets.writesBitmap = bitmap

theorem Closed.updateFlags {bitmap : List Bool} (h : targets.Closed bitmap)
    (hrequest : target.source ≠ .fromSnoop → target.pkt.cmd.isRequest = true)
    (hflags : targets.updateFlags target.pkt target.source target.allocOnFill = .ok flagged) :
    flagged.Closed bitmap := by
  obtain ⟨hbitmap, hmerge, -, -⟩ := flagTarget_write targets target
  have hclosed : (targets.flagTarget target).Closed bitmap := ⟨hmerge.trans h.1, hbitmap.trans h.2⟩
  rw [updateFlags_eq hrequest] at hflags
  split at hflags
  · rw [Settled.updateWriteFlags (.inr hclosed.1), Except.ok.injEq] at hflags
    rw [← hflags]
    exact hclosed
  · rw [← Except.ok.inj hflags]
    exact hclosed

theorem Closed.updateAllFlags {bitmap : List Bool} {list : List Target} (h : targets.Closed bitmap)
    (hrequest : ∀ target ∈ list, target.source ≠ .fromSnoop → target.pkt.cmd.isRequest = true)
    (hflags : targets.updateAllFlags list = .ok flagged) : flagged.writesBitmap = bitmap := by
  induction list generalizing targets with
  | nil =>
      rw [← Except.ok.inj hflags]
      exact h.2
  | cons target list ih =>
      rw [TargetList.updateAllFlags, List.foldlM_cons, bind_eq_ok] at hflags
      obtain ⟨next, hnext, hrest⟩ := hflags
      exact ih (h.updateFlags (hrequest target (by simp)) hnext)
        (fun t ht => hrequest t (by simp [ht])) hrest

theorem Closed.run {bitmap : List Bool} {list : List Target} {added : TargetList}
    (h : targets.Closed bitmap)
    (hrequest : ∀ target ∈ list, target.source ≠ .fromSnoop → target.pkt.cmd.isRequest = true)
    (hrun : Transition.run add targets list = .ok added) : added.writesBitmap = bitmap := by
  have hclosed : added.Closed bitmap := by
    refine Transition.run_invariant
      (fun target => target.source ≠ .fromSnoop → target.pkt.cmd.isRequest = true)
      ?_ hrequest hrun h
    intro state target next hallowed hstate hadd
    obtain ⟨flagged, hflags, rfl⟩ := add_eq_ok hadd
    have hnext := hstate.updateFlags hallowed hflags
    exact ⟨hnext.1, hnext.2⟩
  exact hclosed.2

section Adding

variable {blkAddr : Addr} {blkSize : Nat} {list : List Target} {added : TargetList}

/-- A list of this block, whose bitmap has its size. -/
structure OfBlock (blkAddr : Addr) (blkSize : Nat) (targets : TargetList) : Prop where
  blkAddr : targets.blkAddr = blkAddr
  blkSize : targets.blkSize = blkSize
  sized : targets.Sized

theorem ofBlock_init (blkAddr : Addr) (blkSize : Nat) :
    (TargetList.empty.init blkAddr blkSize).OfBlock blkAddr blkSize :=
  ⟨rfl, rfl, by simp [Sized, init, resetFlags]⟩

theorem OfBlock.updateFlags (h : targets.OfBlock blkAddr blkSize) (hfits : target.Fits blkSize) :
    ∃ flagged, targets.updateFlags target.pkt target.source target.allocOnFill = .ok flagged ∧
      flagged.OfBlock blkAddr blkSize := by
  obtain ⟨hbitmap, -, hsize, -⟩ := flagTarget_write targets target
  have hsized : (targets.flagTarget target).Sized := by
    rw [Sized, hbitmap, hsize]
    exact h.sized
  have hinside : (target.pkt.getOffset (targets.flagTarget target).blkSize).toNat +
      target.pkt.size ≤ (targets.flagTarget target).blkSize := by
    rw [hsize, h.blkSize]
    exact hfits.inside
  have hflags : targets.updateFlags target.pkt target.source target.allocOnFill = _ :=
    updateFlags_eq hfits.request
  split at hflags
  · obtain ⟨flagged, hwrite⟩ := hsized.updateWriteFlags hinside
    rw [hwrite] at hflags
    obtain ⟨hframe, -⟩ := updateFlags_frame hflags
    exact ⟨flagged, hflags, hframe.blkAddr.trans h.blkAddr, hframe.blkSize.trans h.blkSize,
      hsized.of_updateWriteFlags hwrite⟩
  · obtain ⟨hframe, -⟩ := updateFlags_frame hflags
    exact ⟨_, hflags, hframe.blkAddr.trans h.blkAddr, hframe.blkSize.trans h.blkSize, hsized⟩

theorem OfBlock.add (h : targets.OfBlock blkAddr blkSize) (hfits : target.Fits blkSize) :
    ∃ added, targets.add target = .ok added ∧ added.OfBlock blkAddr blkSize := by
  obtain ⟨flagged, hflags, hblock⟩ := h.updateFlags hfits
  refine ⟨{ flagged with list := flagged.list ++ [target] }, ?_,
    hblock.blkAddr, hblock.blkSize, hblock.sized⟩
  rw [TargetList.add, hflags]
  rfl

theorem run_add_list (hrun : Transition.run TargetList.add targets list = .ok added) :
    added.list = targets.list ++ list := by
  induction list generalizing targets with
  | nil =>
      rw [Transition.run_nil, Except.ok.injEq] at hrun
      rw [hrun, List.append_nil]
  | cons target list ih =>
      obtain ⟨next, hadd, hrest⟩ := Transition.run_cons_eq_ok.mp hrun
      rw [ih hrest, (add_spec hadd).1, List.append_assoc, List.singleton_append]

theorem OfBlock.updateAllFlags (h : targets.OfBlock blkAddr blkSize)
    (hfits : ∀ target ∈ list, target.Fits blkSize) :
    ∃ flagged, targets.updateAllFlags list = .ok flagged := by
  induction list generalizing targets with
  | nil => exact ⟨targets, rfl⟩
  | cons target list ih =>
      obtain ⟨next, hnext, hblock⟩ := h.updateFlags (hfits target (by simp))
      obtain ⟨flagged, hrest⟩ := ih hblock fun t ht => hfits t (by simp [ht])
      refine ⟨flagged, ?_⟩
      rw [TargetList.updateAllFlags, List.foldlM_cons, hnext]
      exact hrest

/-- Resetting the flags forgets all but the targets and the block. -/
theorem OfBlock.resetFlags (h : targets.OfBlock blkAddr blkSize) :
    targets.resetFlags = { TargetList.empty.init blkAddr blkSize with list := targets.list } := by
  have hlength : targets.writesBitmap.length = blkSize := h.sized.trans h.blkSize
  simp [TargetList.resetFlags, init, h.blkAddr, h.blkSize, List.map_const', hlength]

/-- A list whose writes cover nothing yet. -/
structure Uncovered (targets : TargetList) : Prop where
  merges : targets.canMergeWrites = true
  bitmap : targets.writesBitmap = List.replicate targets.blkSize false

/-- What a special write adds at the head of the list, and recomputing misses. -/
theorem Uncovered.specialWrite (h : targets.Uncovered)
    (hinside : (target.pkt.getOffset targets.blkSize).toNat + target.pkt.size ≤ targets.blkSize)
    (hrequest : target.source ≠ .fromSnoop → target.pkt.cmd.isRequest = true)
    (hspecial : target.isSpecialWrite = true)
    (hflags : targets.updateFlags target.pkt target.source target.allocOnFill = .ok flagged) :
    flagged.canMergeWrites = false ∧
      (true ∈ flagged.writesBitmap ↔ targets.list = []) := by
  simp only [Target.isSpecialWrite, Bool.and_eq_true, beq_iff_eq, Bool.not_eq_true',
    decide_eq_true_eq] at hspecial
  obtain ⟨⟨⟨⟨hcpu, hwrite⟩, hmask⟩, hflag⟩, hsize⟩ := hspecial
  obtain ⟨hbitmap, hmerge, hblk, hlist⟩ := flagTarget_write targets target
  rw [updateFlags_eq hrequest, if_pos hcpu] at hflags
  obtain ⟨hsettled, -⟩ | ⟨-, -, hread, -⟩ | ⟨-, -, -, filled, hfilled, rfl⟩ :=
    updateWriteFlags_cases hflags
  · obtain hwhole | hclosed := hsettled
    · rw [isWholeLineWrite, hbitmap, h.bitmap, List.all_replicate] at hwhole
      simp at hwhole
      omega
    · rw [hmerge, h.merges] at hclosed
      cases hclosed
  · rw [hwrite] at hread
    cases hread
  · refine ⟨by simp [hflag], ?_⟩
    simp only [hbitmap, hblk, hlist, hmask, hflag, h.bitmap] at hfilled
    by_cases hempty : targets.list = []
    · rw [hempty] at hfilled
      refine iff_of_true ?_ hempty
      have hbyte := (fillWrites_eq_ok hfilled).2.2 (target.pkt.getOffset targets.blkSize).toNat
      exact List.mem_of_getElem? (hbyte.mpr (.inr ⟨le_refl _, by omega⟩))
    · have hnonempty : targets.list.isEmpty = false := by simpa using hempty
      rw [hnonempty] at hfilled
      refine iff_of_false ?_ hempty
      rw [← Except.ok.inj hfilled]
      simp

theorem bitmaps_differ {first : Target} {rest : List Target} (hfirst : first.Fits blkSize)
    (hspecial : first.isSpecialWrite = true)
    (hrequest : ∀ target ∈ first :: rest,
      target.source ≠ .fromSnoop → target.pkt.cmd.isRequest = true)
    (hrun : Transition.run TargetList.add (TargetList.empty.init blkAddr blkSize) (first :: rest) =
      .ok added)
    (hflagged : ({ TargetList.empty.init blkAddr blkSize with
      list := first :: rest } : TargetList).updateAllFlags (first :: rest) = .ok flagged) :
    flagged.writesBitmap ≠ added.writesBitmap := by
  have hrequest' : ∀ target ∈ rest,
      target.source ≠ .fromSnoop → target.pkt.cmd.isRequest = true := by
    intro target htarget
    exact hrequest target (by simp [htarget])
  have huncovered : (TargetList.empty.init blkAddr blkSize).Uncovered :=
    ⟨rfl, by simp [init, TargetList.resetFlags]⟩
  have huncovered' : ({ TargetList.empty.init blkAddr blkSize with
      list := first :: rest } : TargetList).Uncovered :=
    ⟨huncovered.merges, huncovered.bitmap⟩
  -- adding the write marks its bytes, and nothing is merged any more
  obtain ⟨next, hadd, hrest⟩ := Transition.run_cons_eq_ok.mp hrun
  obtain ⟨next, hnext, rfl⟩ := add_eq_ok hadd
  obtain ⟨hclosed, hcovered⟩ :=
    huncovered.specialWrite hfirst.inside hfirst.request hspecial hnext
  have hkept : added.writesBitmap = next.writesBitmap :=
    Closed.run (by exact ⟨hclosed, rfl⟩) hrequest' hrest
  -- recomputing leaves them out
  rw [updateAllFlags, List.foldlM_cons, bind_eq_ok] at hflagged
  obtain ⟨again, hagain, hothers⟩ := hflagged
  obtain ⟨hclosed', hcovered'⟩ :=
    huncovered'.specialWrite hfirst.inside hfirst.request hspecial hagain
  have hkept' : flagged.writesBitmap = again.writesBitmap :=
    Closed.updateAllFlags ⟨hclosed', rfl⟩ hrequest' hothers
  intro hsame
  rw [← hkept', hsame, hkept] at hcovered'
  have hnil : first :: rest = [] := hcovered'.mp (hcovered.mpr rfl)
  cases hnil

/-- Recomputing the flags of a list that was filled target by target leaves all
of them as they are exactly when no special write stands at its head. -/
theorem populate_flags_keeps_iff (blkAddr : Addr) (blkSize : Nat) (list : List Target)
    (hfits : ∀ target ∈ list, target.Fits blkSize) :
    ∃ added flagged,
      Transition.run TargetList.add (TargetList.empty.init blkAddr blkSize) list = .ok added ∧
      added.list = list ∧ added.populateFlags = .ok flagged ∧
      (flagged = added ↔ list.head?.any Target.isSpecialWrite = false) := by
  obtain ⟨added, hrun, hblock⟩ := Transition.run_total
    (fun targets target (hfit : target.Fits blkSize) (h : targets.OfBlock blkAddr blkSize) =>
      h.add hfit) hfits (ofBlock_init blkAddr blkSize)
  have hlist : added.list = list := run_add_list hrun
  have hreset : added.resetFlags = { TargetList.empty.init blkAddr blkSize with list } := by
    rw [hblock.resetFlags, hlist]
  have hrequest : ∀ target ∈ list,
      target.source ≠ .fromSnoop → target.pkt.cmd.isRequest = true := by
    intro target htarget
    exact (hfits target htarget).request
  have hinitial : ({ TargetList.empty.init blkAddr blkSize with list } : TargetList).OfBlock
      blkAddr blkSize :=
    ⟨rfl, rfl, (ofBlock_init blkAddr blkSize).sized⟩
  obtain ⟨flagged, hflagged⟩ := hinitial.updateAllFlags hfits
  refine ⟨added, flagged, hrun, hlist, by rw [populateFlags, hreset, hlist, hflagged], ?_⟩
  cases list with
  | nil =>
      rw [Transition.run_nil, Except.ok.injEq] at hrun
      refine iff_of_true ?_ rfl
      rw [← hrun]
      exact (Except.ok.inj hflagged).symm
  | cons first rest =>
      cases hspecial : first.isSpecialWrite with
      | false =>
          refine iff_of_true ?_ (by simpa using hspecial)
          have hsame := updateAllFlags_relist (List.cons_ne_nil first rest) hrequest
            (fun _ => by simpa using hspecial) hrun
          rw [hflagged, Except.ok.injEq] at hsame
          rw [hsame, ← hlist]
      | true =>
          refine iff_of_false ?_ (by simp [hspecial])
          have hne := bitmaps_differ (hfits first (by simp)) hspecial hrequest hrun hflagged
          exact fun hsame => hne (congrArg TargetList.writesBitmap hsame)

/-- A write of the CPU to a line of 64 bytes. -/
def lineWrite (addr : Addr) (size : Nat) (flags : BitVec 64) : Target :=
  { pkt := Packet.ofRequest 0 (Request.physical addr size flags 0) .writeReq,
    readyTime := 0, order := 0, source := .fromCPU, markedPending := false, allocOnFill := true }

theorem populate_flags_keeps_iff_secondSecure :
    ∃ added flagged, Transition.run TargetList.add (TargetList.empty.init 0x1000 64)
        [lineWrite 0x1000 32 0, lineWrite 0x1020 32 Request.secure] = .ok added ∧
      added.populateFlags = .ok flagged ∧ flagged = added := by
  obtain ⟨added, flagged, hrun, -, hpopulate, hsame⟩ := populate_flags_keeps_iff 0x1000 64
    [lineWrite 0x1000 32 0, lineWrite 0x1020 32 Request.secure] (by
      simp only [List.mem_cons, List.not_mem_nil, or_false, forall_eq_or_imp, forall_eq]
      exact ⟨⟨fun _ => rfl, by decide⟩, ⟨fun _ => rfl, by decide⟩⟩)
  exact ⟨added, flagged, hrun, hpopulate, hsame.mpr (by decide)⟩

/-- A secure write of the whole line is one until the flags are recomputed. -/
theorem recomputing_loses_secure_line_write :
    ∃ added flagged, Transition.run TargetList.add (TargetList.empty.init 0x1000 64)
        [lineWrite 0x1000 64 Request.secure] = .ok added ∧
      added.populateFlags = .ok flagged ∧
      added.isWholeLineWrite = true ∧ flagged.isWholeLineWrite = false := by
  obtain ⟨added, hrun, hwhole⟩ := exists_ok_of_observed
    (show (Transition.run TargetList.add (TargetList.empty.init 0x1000 64)
      [lineWrite 0x1000 64 Request.secure]).toOption.map (fun added =>
        (added.isWholeLineWrite, added.populateFlags.toOption.map isWholeLineWrite)) =
      some (true, some false) by decide +kernel)
  rw [Prod.mk.injEq] at hwhole
  obtain ⟨flagged, hpopulate, hlost⟩ := exists_ok_of_observed hwhole.2
  exact ⟨added, flagged, hrun, hpopulate, hwhole.1, hlost⟩

/-- The targets that count for the write flags. -/
def cpuTargets (list : List Target) : List Target :=
  list.filter fun target => target.source == .fromCPU

/-- The marked bytes are covered by the unmasked ones of some writes, which are
the first targets of the CPU, and all of them while merging goes on. -/
structure CoveredBy (blkSize : Nat) (writes : List Target) (targets : TargetList) : Prop where
  first : writes <+: cpuTargets targets.list
  areWrites : ∀ target ∈ writes, target.pkt.cmd.isWrite = true
  covers : ∀ byte, targets.writesBitmap[byte]? = some true →
    ∃ target ∈ writes, target.pkt.isMaskedWrite = false ∧ target.covers blkSize byte = true
  all : ¬ Settled targets → writes = cpuTargets targets.list

theorem coveredBy_init (blkAddr : Addr) (blkSize : Nat) :
    (TargetList.empty.init blkAddr blkSize).CoveredBy blkSize [] := by
  refine ⟨List.nil_prefix, by simp, ?_, fun _ => rfl⟩
  intro byte hbyte
  simp [init, TargetList.resetFlags, List.getElem?_replicate] at hbyte

/-- A marked byte was marked before, or is one of an unmasked write's. -/
theorem marked_cases {bitmap filled : List Bool} {fills : Bool} {byte : Nat}
    (hfill : (if !target.pkt.isMaskedWrite && fills then
        fillWrites bitmap (target.pkt.getOffset blkSize).toNat target.pkt.size
      else .ok bitmap) = .ok filled)
    (hbyte : filled[byte]? = some true) :
    bitmap[byte]? = some true ∨
      (target.pkt.isMaskedWrite = false ∧ target.covers blkSize byte = true) := by
  split at hfill
  · next hunmasked =>
      simp only [Bool.and_eq_true, Bool.not_eq_true'] at hunmasked
      obtain hold | hin := ((fillWrites_eq_ok hfill).2.2 byte).mp hbyte
      · exact .inl hold
      · exact .inr ⟨hunmasked.1, by simpa [Target.covers] using hin⟩
  · rw [← Except.ok.inj hfill] at hbyte
    exact .inl hbyte

/-- Targets that leave the write flags alone do not matter. -/
theorem CoveredBy.extend {writes : List Target} (h : targets.CoveredBy blkSize writes)
    (hlist : cpuTargets targets.list <+: cpuTargets added.list)
    (hbitmap : added.writesBitmap = targets.writesBitmap)
    (hall : ¬ Settled added → ¬ Settled targets ∧ cpuTargets added.list = cpuTargets targets.list) :
    added.CoveredBy blkSize writes := by
  refine ⟨h.first.trans hlist, h.areWrites, ?_, ?_⟩
  · rw [hbitmap]
    exact h.covers
  · intro hopen
    obtain ⟨hbefore, hsame⟩ := hall hopen
    rw [hsame]
    exact h.all hbefore

theorem CoveredBy.add {writes : List Target} (h : targets.CoveredBy blkSize writes)
    (hblk : targets.blkSize = blkSize)
    (hrequest : target.source ≠ .fromSnoop → target.pkt.cmd.isRequest = true)
    (hadd : targets.add target = .ok added) : ∃ writes', added.CoveredBy blkSize writes' := by
  obtain ⟨flagged, hflags, rfl⟩ := add_eq_ok hadd
  obtain ⟨hbitmap, hmerge, hsize, hlist⟩ := flagTarget_write targets target
  have hsettled : Settled (targets.flagTarget target) ↔ Settled targets := by
    rw [Settled, Settled, isWholeLineWrite, isWholeLineWrite, hbitmap, hmerge]
  rw [updateFlags_eq hrequest] at hflags
  split at hflags
  · next hcpu =>
      have hcpuList : cpuTargets (targets.list ++ [target]) =
          cpuTargets targets.list ++ [target] := by
        simp [cpuTargets, hcpu]
      obtain ⟨hclosed, rfl⟩ | ⟨-, -, -, rfl⟩ | ⟨hopen, hwhole, hwrite, bitmap, hfill, rfl⟩ :=
        updateWriteFlags_cases hflags
      · refine ⟨writes, h.extend ?_ hbitmap (fun hopen => absurd hclosed hopen)⟩
        simp [hlist, hcpuList]
      · refine ⟨writes, h.extend ?_ hbitmap (fun hopen => absurd (.inr rfl) hopen)⟩
        simp [hlist, hcpuList]
      · -- nothing was settled, so all the targets of the CPU were writes so far
        have hunsettled : ¬ Settled targets := by
          rw [← hsettled, Settled, hwhole, hopen]
          simp
        have hwrites := h.all hunsettled
        refine ⟨writes ++ [target], ?_, ?_, ?_, ?_⟩
        · simp [hlist, hcpuList, hwrites]
        · intro t ht
          obtain ht | ht := List.mem_append.mp ht
          · exact h.areWrites t ht
          · rw [List.mem_singleton.mp ht]
            exact hwrite
        · intro byte hbyte
          rw [hbitmap, hsize, hblk] at hfill
          have hcases := marked_cases hfill hbyte
          obtain hold | ⟨hmask, hcovers⟩ := hcases
          · obtain ⟨t, ht, hmask, hcovers⟩ := h.covers byte hold
            exact ⟨t, by simp [ht], hmask, hcovers⟩
          · exact ⟨target, by simp, hmask, hcovers⟩
        · intro _
          simp [hlist, hcpuList, hwrites]
  · next hother =>
      have hcpuList : cpuTargets (targets.list ++ [target]) = cpuTargets targets.list := by
        simp [cpuTargets, hother]
      obtain rfl := Except.ok.inj hflags
      refine ⟨writes, h.extend ?_ hbitmap ?_⟩
      · simp [hlist, hcpuList]
      · intro hopen
        exact ⟨fun hclosed => hopen (hsettled.mpr hclosed), by simp [hlist, hcpuList]⟩

/-- When the flags call the waiting writes a write of the whole line, the
targets of the CPU start with writes whose unmasked ones cover every byte. -/
theorem whole_line_write_is_covered (blkAddr : Addr) (blkSize : Nat) (list : List Target)
    (hfits : ∀ target ∈ list, target.Fits blkSize) :
    ∃ added,
      Transition.run TargetList.add (TargetList.empty.init blkAddr blkSize) list = .ok added ∧
      added.list = list ∧
      (added.isWholeLineWrite = true → ∃ writes, writes <+: cpuTargets list ∧
        (∀ target ∈ writes, target.pkt.cmd.isWrite = true) ∧
        ∀ byte < blkSize, ∃ target ∈ writes, target.pkt.isMaskedWrite = false ∧
          target.covers blkSize byte = true) := by
  have hstep : ∀ (targets : TargetList) (target : Target), target.Fits blkSize →
      (targets.OfBlock blkAddr blkSize ∧ ∃ writes, targets.CoveredBy blkSize writes) →
      ∃ next, targets.add target = .ok next ∧
        (next.OfBlock blkAddr blkSize ∧ ∃ writes, next.CoveredBy blkSize writes) := by
    rintro targets target hfit ⟨hblock, writes, hcovered⟩
    obtain ⟨next, hadd, hnext⟩ := hblock.add hfit
    exact ⟨next, hadd, hnext, hcovered.add hblock.blkSize hfit.request hadd⟩
  obtain ⟨added, hrun, hblock, writes, hcovered⟩ := Transition.run_total hstep hfits
    ⟨ofBlock_init blkAddr blkSize, [], coveredBy_init blkAddr blkSize⟩
  have hlist : added.list = list := run_add_list hrun
  refine ⟨added, hrun, hlist, ?_⟩
  intro hwhole
  refine ⟨writes, hlist ▸ hcovered.first, hcovered.areWrites, ?_⟩
  intro byte hbyte
  apply hcovered.covers
  have hlength : added.writesBitmap.length = blkSize := hblock.sized.trans hblock.blkSize
  rw [isWholeLineWrite, List.all_eq_true] at hwhole
  rw [List.getElem?_eq_getElem (by omega), Option.some.injEq]
  exact hwhole _ (List.getElem_mem _)

theorem whole_line_write_is_covered_halves :
    ∃ added, Transition.run TargetList.add (TargetList.empty.init 0x1000 64)
        [lineWrite 0x1000 32 0, lineWrite 0x1020 32 0] = .ok added ∧
      added.isWholeLineWrite = true ∧
      ∃ writes, writes <+: [lineWrite 0x1000 32 0, lineWrite 0x1020 32 0] ∧
        ∀ byte < 64, ∃ target ∈ writes, target.pkt.isMaskedWrite = false ∧
          target.covers 64 byte = true := by
  obtain ⟨added, hrun, -, hcovered⟩ := whole_line_write_is_covered 0x1000 64
    [lineWrite 0x1000 32 0, lineWrite 0x1020 32 0] (by
      simp only [List.mem_cons, List.not_mem_nil, or_false, forall_eq_or_imp, forall_eq]
      exact ⟨⟨fun _ => rfl, by decide⟩, ⟨fun _ => rfl, by decide⟩⟩)
  obtain ⟨added', hrun', hwhole⟩ := exists_ok_of_observed
    (show (Transition.run TargetList.add (TargetList.empty.init 0x1000 64)
      [lineWrite 0x1000 32 0, lineWrite 0x1020 32 0]).toOption.map isWholeLineWrite = some true
      by decide +kernel)
  obtain rfl := Except.ok.inj (hrun'.symm.trans hrun)
  obtain ⟨writes, hfirst, -, hbytes⟩ := hcovered hwhole
  exact ⟨added', hrun', hwhole, writes, hfirst, hbytes⟩

end Adding

end TargetList

end KuiperCache
