import KuiperCache.Mshr.Mshr

/-! Recomputing the write bitmap never writes where adding the targets did not.
This is why `populateFlags` stays inside the bitmap whenever the targets were
added without leaving it. -/
namespace KuiperCache.TargetList

open Checked

/-- No further request can change the write flags. -/
def Settled (targets : TargetList) : Prop :=
  targets.isWholeLineWrite = true ∨ targets.canMergeWrites = false

theorem Settled.updateWriteFlags {targets : TargetList} (h : Settled targets) (pkt : Packet) :
    targets.updateWriteFlags pkt = .ok targets := by
  unfold TargetList.updateWriteFlags
  obtain hwhole | hmerge := h
  · simp [hwhole]
  · simp [hmerge]

theorem Settled.updateFlags {targets : TargetList} (h : Settled targets) {target : Target}
    (hrequest : target.pkt.cmd.isRequest = true) :
    ∃ flagged, targets.updateFlags target.pkt target.source target.allocOnFill = .ok flagged ∧
      Settled flagged := by
  unfold TargetList.updateFlags Packet.needsWritable
  rw [hrequest]
  split
  · exact ⟨targets, rfl, h⟩
  · simp only [check_true, ok_bind, pure_bind]
    split
    · exact ⟨_, rfl, h⟩
    · rw [Settled.updateWriteFlags (by exact h)]
      exact ⟨_, rfl, h⟩

theorem Settled.updateAllFlags {targets : TargetList} (h : Settled targets) (list : List Target)
    (hrequest : ∀ target ∈ list, target.pkt.cmd.isRequest = true) :
    ∃ flagged, targets.updateAllFlags list = .ok flagged := by
  induction list generalizing targets with
  | nil => exact ⟨targets, rfl⟩
  | cons target rest ih =>
      obtain ⟨next, hnext, hsettled⟩ := h.updateFlags (hrequest target (by simp))
      obtain ⟨flagged, hrest⟩ := ih hsettled fun t ht => hrequest t (by simp [ht])
      refine ⟨flagged, ?_⟩
      rw [TargetList.updateAllFlags, List.foldlM_cons, hnext]
      exact hrest

theorem updateWriteFlags_read {targets : TargetList} {pkt : Packet}
    (hread : pkt.cmd.isWrite = false) :
    ∃ flagged, targets.updateWriteFlags pkt = .ok flagged ∧ Settled flagged := by
  unfold TargetList.updateWriteFlags
  split
  · rename_i hwhole
    exact ⟨targets, rfl, .inl hwhole⟩
  · split
    · simp only [hread, Bool.not_false, ↓reduceIte]
      exact ⟨_, rfl, .inr rfl⟩
    · rename_i hmerge
      exact ⟨targets, rfl, .inr (by simpa using hmerge)⟩

/-- A read settles the flags. -/
theorem updateFlags_read (targets : TargetList) {target : Target}
    (hcpu : target.source = .fromCPU) (hread : target.pkt.cmd = .readReq) :
    ∃ flagged, targets.updateFlags target.pkt target.source target.allocOnFill = .ok flagged ∧
      Settled flagged := by
  have hrequest : target.pkt.cmd.isRequest = true := by rw [hread]; rfl
  have hwrite : target.pkt.cmd.isWrite = false := by rw [hread]; rfl
  unfold TargetList.updateFlags Packet.needsWritable
  simp only [hrequest, hcpu, check_true, ok_bind, pure_bind, reduceCtorEq, ↓reduceIte]
  exact updateWriteFlags_read hwrite

/-- The recomputed flags merge writes only where the incremental ones do. -/
def Tracks (targets flagged : TargetList) : Prop :=
  flagged.canMergeWrites = true →
    targets.canMergeWrites = true ∧ targets.writesBitmap = flagged.writesBitmap

theorem updateWriteFlags_tracks (targets flagged : TargetList) {targets' : TargetList}
    {pkt : Packet} (hblk : flagged.blkSize = targets.blkSize) (hlist : flagged.list ≠ [])
    (htracks : Tracks targets flagged) (h : targets.updateWriteFlags pkt = .ok targets') :
    ∃ flagged', flagged.updateWriteFlags pkt = .ok flagged' ∧ Tracks targets' flagged' := by
  cases hmerge : flagged.canMergeWrites with
  | false =>
      have hsettled : Settled flagged := .inr hmerge
      refine ⟨flagged, hsettled.updateWriteFlags pkt, ?_⟩
      intro hcontra
      rw [hmerge] at hcontra
      cases hcontra
  | true =>
      obtain ⟨hmergeT, hbitmap⟩ := htracks hmerge
      cases hwhole : flagged.isWholeLineWrite with
      | true =>
          have hsettled : Settled flagged := .inl hwhole
          have hsettledT : Settled targets := .inl (by rw [isWholeLineWrite, hbitmap]; exact hwhole)
          rw [hsettledT.updateWriteFlags, Except.ok.injEq] at h
          subst h
          exact ⟨flagged, hsettled.updateWriteFlags pkt, htracks⟩
      | false =>
          have hwholeT : targets.isWholeLineWrite = false := by
            rw [isWholeLineWrite, hbitmap]
            exact hwhole
          have hnonempty : flagged.list.isEmpty = false := by simpa using hlist
          unfold TargetList.updateWriteFlags at h ⊢
          simp only [hwhole, hwholeT, hmerge, hmergeT, hnonempty, Bool.false_eq_true,
            ↓reduceIte, Bool.true_and, Bool.false_or] at h ⊢
          cases hwrite : pkt.cmd.isWrite with
          | false =>
              simp only [Bool.not_false, ↓reduceIte]
              exact ⟨_, rfl, fun hcontra => by cases hcontra⟩
          | true =>
              simp only [hwrite, Bool.not_true, Bool.false_eq_true, ↓reduceIte, bind_eq_ok,
                pure_eq_ok] at h ⊢
              obtain ⟨bitmap, hfill, rfl⟩ := h
              cases hcompat : !pkt.req.isSet noMergeFlags with
              | false =>
                  simp only [Bool.and_false, Bool.false_eq_true, ↓reduceIte, Except.ok.injEq,
                    exists_eq_left']
                  intro hcontra
                  cases hcontra
              | true =>
                  rw [hcompat, Bool.or_true] at hfill
                  rw [hblk, ← hbitmap]
                  exact ⟨_, ⟨bitmap, hfill, rfl⟩, fun _ => ⟨rfl, rfl⟩⟩

theorem updateFlags_tracks (targets flagged : TargetList) {targets' : TargetList}
    {target : Target} (hblk : flagged.blkSize = targets.blkSize) (hlist : flagged.list ≠ [])
    (htracks : Tracks targets flagged)
    (h : targets.updateFlags target.pkt target.source target.allocOnFill = .ok targets') :
    ∃ flagged', flagged.updateFlags target.pkt target.source target.allocOnFill = .ok flagged' ∧
      Tracks targets' flagged' := by
  unfold TargetList.updateFlags at h ⊢
  split at h
  case isTrue hsnoop =>
    cases h
    rw [if_pos hsnoop]
    exact ⟨flagged, rfl, htracks⟩
  case isFalse hsnoop =>
    rw [if_neg hsnoop]
    simp only [bind_eq_ok] at h ⊢
    obtain ⟨writable, hwritable, h⟩ := h
    split at h
    case isTrue hprefetch =>
      rw [pure_eq_ok] at h
      subst h
      refine ⟨flagged.flagRequest target.pkt writable target.allocOnFill,
        ⟨writable, hwritable, ?_⟩, htracks⟩
      rw [if_pos hprefetch]
      rfl
    case isFalse hprefetch =>
      obtain ⟨flagged', hflagged, htracks'⟩ := updateWriteFlags_tracks
        ((targets.flagRequest target.pkt writable target.allocOnFill).flagFromCache target.pkt)
        ((flagged.flagRequest target.pkt writable target.allocOnFill).flagFromCache target.pkt)
        hblk hlist htracks h
      exact ⟨flagged', ⟨writable, hwritable, by rw [if_neg hprefetch]; exact hflagged⟩, htracks'⟩

/-- Recomputing the flags of the list, as part of any nonempty list, succeeds. -/
def Repopulates (targets : TargetList) : Prop :=
  ∀ blkAddr all, all ≠ [] → ∃ flagged,
    { TargetList.empty.init blkAddr targets.blkSize with list := all }.updateAllFlags
      targets.list = .ok flagged ∧ Tracks targets flagged

theorem repopulates_init (targets : TargetList) (blkAddr : Addr) (blkSize : Nat)
    (hempty : targets.list = []) : Repopulates (targets.init blkAddr blkSize) := by
  intro blkAddr' all hall
  rw [init_list, hempty]
  exact ⟨_, rfl, fun _ => ⟨rfl, rfl⟩⟩

theorem Repopulates.add {targets added : TargetList} {target : Target}
    (h : Repopulates targets) (hadd : targets.add target = .ok added) : Repopulates added := by
  intro blkAddr all hall
  obtain ⟨hlist, -, hblk, -⟩ := add_spec hadd
  simp only [TargetList.add, bind_eq_ok, pure_eq_ok] at hadd
  obtain ⟨flags, hflags, rfl⟩ := hadd
  obtain ⟨flagged, hflagged, htracks⟩ := h blkAddr all hall
  obtain ⟨hframe, -⟩ := updateAllFlags_frame hflagged
  obtain ⟨flagged', hflagged', htracks'⟩ := updateFlags_tracks targets _ hframe.blkSize
    (by rw [hframe.list]; exact hall) htracks hflags
  refine ⟨flagged', ?_, htracks'⟩
  rw [hlist, hblk]
  simp only [updateAllFlags, List.foldlM_append, List.foldlM_cons, List.foldlM_nil] at hflagged ⊢
  rw [hflagged, ok_bind, hflagged']
  rfl

/-- Clearing marks does not matter to the flags. -/
theorem Repopulates.unmarked {targets : TargetList} (h : Repopulates targets) :
    Repopulates targets.clearDownstreamPending := by
  intro blkAddr all hall
  obtain ⟨flagged, hflagged, htracks⟩ := h blkAddr all hall
  refine ⟨flagged, ?_, htracks⟩
  simp only [updateAllFlags, clearDownstreamPending, List.foldlM_map] at hflagged ⊢
  exact hflagged

/-- A fresh list that is given targets starts its recomputation from `init`. -/
theorem populateFlags_init (blkAddr : Addr) (blkSize : Nat) (list : List Target) :
    { TargetList.empty.init blkAddr blkSize with list }.populateFlags =
      { TargetList.empty.init blkAddr blkSize with list }.updateAllFlags list := by
  simp [populateFlags, init, resetFlags]

end KuiperCache.TargetList
