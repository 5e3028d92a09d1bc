import KuiperCache.Mshr.Handshake

/-! The pairing of flags and marks.  A flag that is up is held up by exactly one
marked target; the recursion that lowers it follows the marks upwards, and every
mark it takes back is a call that finds its flag up. -/
namespace KuiperCache.Network

open Checked

variable {n : Nat}

/-- The state of the recursion.  `start` is where it began; of the MSHRs it may
reach, those visited are done with, those not visited are as they were, and every
mark taken back is a call that is still to be made. -/
structure Walk (start : Network n) (above : Fin n → Prop) (net : Network n)
    (visited : Fin n → Prop) (calls : List Nat) : Prop where
  balance : ∀ m : Fin n, above m →
    net.marks m + calls.count m.val = if (net m).downstreamPending then 1 else 0
  inReach : ∀ handle ∈ calls, ∃ m : Fin n, above m ∧ m.val = handle
  unvisited : ∀ m, ¬ visited m → net m = start m
  cleared : ∀ m, visited m → (net m).downstreamPending = false ∧
    ∀ target ∈ (net m).targets.list, target.markedPending = false
  followed : ∀ m, visited m → ∀ handle ∈ Mshr.heldUp (start m).targets.list,
    handle ∈ calls ∨ ∃ m', visited m' ∧ m'.val = handle

/-- What one level of the recursion does to its own MSHR. -/
def cleared (net : Network n) (m : Fin n) : Network n :=
  Function.update net m (net m).lowered

theorem marks_cleared (net : Network n) (m : Fin n) (handle : Nat) :
    (net.cleared m).marks handle + (Mshr.heldUp (net m).targets.list).count handle =
      net.marks handle := by
  have hupdate := net.marks_update m (net m).lowered handle
  have hlowered := (net m).lowered_marks handle
  unfold cleared
  omega

theorem cleared_self (net : Network n) (m : Fin n) :
    (net.cleared m m).downstreamPending = false ∧
      ∀ target ∈ (net.cleared m m).targets.list, target.markedPending = false := by
  unfold cleared
  rw [Function.update_self]
  refine ⟨rfl, ?_⟩
  intro target htarget
  obtain ⟨original, -, rfl⟩ := List.mem_map.mp htarget
  rfl

theorem cleared_of_ne (net : Network n) {m other : Fin n} (h : other ≠ m) :
    net.cleared m other = net other := Function.update_of_ne h _ _

theorem pendingCount_cleared (net : Network n) {m : Fin n}
    (h : (net m).downstreamPending = true) : (net.cleared m).pendingCount < net.pendingCount := by
  apply Finset.card_lt_card
  rw [Finset.ssubset_iff_of_subset]
  · refine ⟨m, by simpa using h, ?_⟩
    simp [(net.cleared_self m).1]
  · intro other hother
    by_cases hm : other = m
    · subst hm
      simp [(net.cleared_self other).1] at hother
    · simpa [net.cleared_of_ne hm] using hother

/-- One level of the recursion, its own part done and the calls left. -/
theorem clearDownstreamPending_succ {net : Network n} {m : Fin n} (depth : Nat)
    (h : (net m).downstreamPending = true) :
    net.clearDownstreamPending (depth + 1) m.val =
      (Mshr.heldUp (net m).targets.list).foldlM (clearDownstreamPending depth)
        (net.cleared m) := by
  rw [clearDownstreamPending, dif_pos m.isLt]
  simp only [Mshr.clearDownstreamPending, Mshr.quiet, Fin.eta, h, check_true, ok_bind,
    List.nil_append, Mshr.lowerPending_heldUp]
  rw [show (pure : Mshr → Except Assertion Mshr) = .ok from rfl, ok_bind]
  simp only [List.foldlM_map]
  rfl

section Recursion

variable {start : Network n} {above : Fin n → Prop}

/-- A call finds its flag up: the mark it takes back was the one that held it. -/
theorem Walk.pending {net : Network n} {visited : Fin n → Prop} {m : Fin n} {calls : List Nat}
    (h : Walk start above net visited (m.val :: calls)) (habove : above m) :
    (net m).downstreamPending = true := by
  have hbalance := h.balance m habove
  rw [List.count_cons_self] at hbalance
  by_contra hdown
  rw [if_neg hdown] at hbalance
  omega

theorem Walk.visit {net : Network n} {visited : Fin n → Prop} {m : Fin n} {calls : List Nat}
    (hclosed : ∀ m, above m → ∀ handle ∈ Mshr.heldUp (start m).targets.list,
      ∃ m' : Fin n, above m' ∧ m'.val = handle)
    (h : Walk start above net visited (m.val :: calls)) (habove : above m) :
    Walk start above (net.cleared m) (fun other => other = m ∨ visited other)
      (Mshr.heldUp (net m).targets.list ++ calls) := by
  have hpending := h.pending habove
  have hfresh : ¬ visited m := by
    intro hvisited
    rw [(h.cleared m hvisited).1] at hpending
    cases hpending
  have hstart := h.unvisited m hfresh
  constructor
  case balance =>
    intro other hother
    have hbalance := h.balance other hother
    have hmarks := net.marks_cleared m other.val
    rw [List.count_append]
    by_cases hm : other = m
    · subst hm
      rw [(net.cleared_self other).1]
      rw [hpending, List.count_cons_self] at hbalance
      simp only [↓reduceIte, Bool.false_eq_true] at hbalance ⊢
      omega
    · have hne : m.val ≠ other.val := fun hval => hm (Fin.ext hval.symm)
      rw [net.cleared_of_ne hm]
      rw [List.count_cons_of_ne hne] at hbalance
      omega
  case inReach =>
    intro handle hhandle
    obtain hown | hrest := List.mem_append.mp hhandle
    · exact hclosed m habove handle (hstart ▸ hown)
    · exact h.inReach handle (List.mem_cons_of_mem _ hrest)
  case unvisited =>
    intro other hother
    rw [not_or] at hother
    rw [net.cleared_of_ne hother.1]
    exact h.unvisited other hother.2
  case cleared =>
    intro other hother
    by_cases hm : other = m
    · subst hm
      exact net.cleared_self other
    · rw [net.cleared_of_ne hm]
      exact h.cleared other (hother.resolve_left hm)
  case followed =>
    rintro other (rfl | hvisited) handle hhandle
    · rw [hstart]
      exact .inl (List.mem_append_left _ hhandle)
    · obtain hcall | ⟨next, hnext, hval⟩ := h.followed other hvisited handle hhandle
      · obtain rfl | hcall := List.mem_cons.mp hcall
        · exact .inr ⟨m, .inl rfl, rfl⟩
        · exact .inl (List.mem_append_right _ hcall)
      · exact .inr ⟨next, .inr hnext, hval⟩

/-- Given that single calls work, so do the calls of a list, front to back. -/
theorem clears_walk {depth : Nat}
    (hcall : ∀ (net : Network n) (visited : Fin n → Prop) (m : Fin n) (rest : List Nat),
      net.pendingCount ≤ depth → above m → Walk start above net visited (m.val :: rest) →
      ∃ next visited', net.clearDownstreamPending depth m.val = .ok next ∧
        next.pendingCount ≤ net.pendingCount ∧ (∀ m, visited m → visited' m) ∧
        Walk start above next visited' rest)
    (calls : List Nat) {net : Network n} {visited : Fin n → Prop} {rest : List Nat}
    (hdepth : net.pendingCount ≤ depth) (h : Walk start above net visited (calls ++ rest)) :
    ∃ next visited', calls.foldlM (clearDownstreamPending depth) net = .ok next ∧
      next.pendingCount ≤ net.pendingCount ∧ (∀ m, visited m → visited' m) ∧
      Walk start above next visited' rest := by
  induction calls generalizing net visited with
  | nil => exact ⟨net, visited, rfl, le_rfl, fun _ hm => hm, h⟩
  | cons handle calls ih =>
      obtain ⟨m, habove, rfl⟩ := h.inReach handle (by simp)
      obtain ⟨mid, seen, hmid, hless, hgrows, hwalk⟩ := hcall net visited m _ hdepth habove h
      obtain ⟨next, visited', hnext, hless', hgrows', hwalk'⟩ := ih (hless.trans hdepth) hwalk
      refine ⟨next, visited', ?_, hless'.trans hless, fun m hm => hgrows' m (hgrows m hm), hwalk'⟩
      rw [List.foldlM_cons, hmid, ok_bind, hnext]

/-- The recursion returns: each level lowers a flag, and no level finds its flag
already down. -/
theorem clear_walk
    (hclosed : ∀ m, above m → ∀ handle ∈ Mshr.heldUp (start m).targets.list,
      ∃ m' : Fin n, above m' ∧ m'.val = handle)
    (depth : Nat) (net : Network n) (visited : Fin n → Prop) (m : Fin n) (rest : List Nat)
    (hdepth : net.pendingCount ≤ depth) (habove : above m)
    (h : Walk start above net visited (m.val :: rest)) :
    ∃ next visited', net.clearDownstreamPending depth m.val = .ok next ∧
      next.pendingCount ≤ net.pendingCount ∧ (∀ m, visited m → visited' m) ∧
      Walk start above next visited' rest := by
  have hpending := h.pending habove
  have hless := net.pendingCount_cleared hpending
  induction depth generalizing net visited m rest with
  | zero => omega
  | succ depth ih =>
      have hcalls := clears_walk
        (fun net visited m rest hdepth habove h => ih net visited m rest hdepth habove h
          (h.pending habove) (net.pendingCount_cleared (h.pending habove)))
        (Mshr.heldUp (net m).targets.list) (by omega) (h.visit hclosed habove)
      obtain ⟨next, visited', hnext, hless', hgrows, hwalk⟩ := hcalls
      refine ⟨next, visited', ?_, by omega, fun other hother => hgrows other (.inr hother), hwalk⟩
      rw [clearDownstreamPending_succ depth hpending, hnext]

end Recursion

/-- The calls of an operation that only takes marks back all succeed. -/
theorem answers_walk {start net : Network n} {visited : Fin n → Prop} {lowered : List Nat}
    {depth : Nat} (hdepth : n ≤ depth)
    (hinside : ∀ m, ∀ handle ∈ Mshr.heldUp (start m).targets.list, handle < n)
    (h : Walk start (fun _ => True) net visited lowered) :
    ∃ next visited',
      (lowered.map UpstreamCall.clearDownstreamPending).foldlM (answer depth) net = .ok next ∧
        (∀ m, visited m → visited' m) ∧ Walk start (fun _ => True) next visited' [] := by
  have hclosed : ∀ m : Fin n, True → ∀ handle ∈ Mshr.heldUp (start m).targets.list,
      ∃ m' : Fin n, True ∧ m'.val = handle := by
    intro m _ handle hhandle
    exact ⟨⟨handle, hinside m handle hhandle⟩, trivial, rfl⟩
  rw [← List.append_nil lowered] at h
  obtain ⟨next, visited', hnext, -, hgrows, hwalk⟩ := clears_walk (clear_walk hclosed depth)
    lowered (net.pendingCount_le.trans hdepth) h
  refine ⟨next, visited', ?_, hgrows, hwalk⟩
  rw [List.foldlM_map]
  exact hnext

/-- With no call left, every flag is held up by exactly one mark. -/
theorem Walk.paired {start net : Network n} {visited : Fin n → Prop}
    (h : Walk start (fun _ => True) net visited []) : net.Paired := by
  intro m
  simpa using h.balance m trivial

/-- With no call left, the recursion has been everywhere the marks led. -/
theorem Walk.visits {start net : Network n} {above visited : Fin n → Prop}
    (h : Walk start above net visited []) {m other : Fin n} (hm : visited m)
    (hvisits : start.Visits m other) : visited other := by
  induction hvisits with
  | refl => exact hm
  | tail _ hstep ih =>
      obtain ⟨target, htarget, hholds⟩ := hstep
      have hmem := List.mem_filterMap.mpr ⟨target, htarget, hholds⟩
      obtain hnone | ⟨next, hnext, hval⟩ := h.followed _ ih _ hmem
      · cases hnone
      · rwa [← Fin.ext hval]

theorem Linked.inside_of_marks {net : Network n} (h : net.Linked) {m : Fin n} {handle : Nat}
    (hmarks : 0 < (net m).marks handle) : handle < n := by
  obtain ⟨target, htarget, hholds⟩ := List.countP_pos_iff.mp hmarks
  rw [beq_iff_eq, Target.holdsUp_eq_some] at hholds
  exact h.inside m target htarget handle hholds.2

/-- The targets behind a mark are among those of the line. -/
theorem marks_of_heldUp {mshr : Mshr} {handle : Nat}
    (h : handle ∈ Mshr.heldUp mshr.targets.list) : 0 < mshr.marks handle := by
  have hcount := List.count_pos_iff.mpr h
  rw [Mshr.marks_eq]
  omega

section Operations

variable {net : Network n} {m : Fin n} {depth : Nat} {op : Mshr → Except Assertion Mshr}
  {mshr : Mshr}

theorem perform_eq {raised lowered : List Nat} (hop : op (net m).quiet = .ok mshr)
    (hhanded : Mshr.Handed (net m).quiet mshr raised lowered) :
    net.perform depth m op = (raised.map UpstreamCall.setDownstreamPending ++
      lowered.map UpstreamCall.clearDownstreamPending).foldlM (answer depth)
        (Function.update net m mshr.quiet) := by
  rw [perform, hop, ok_bind, hhanded.upstream]
  rfl

theorem marks_perform {raised lowered : List Nat}
    (hhanded : Mshr.Handed (net m).quiet mshr raised lowered) (handle : Nat) :
    marks (Function.update net m mshr.quiet) handle + lowered.count handle =
      net.marks handle + raised.count handle := by
  have hupdate := net.marks_update m mshr.quiet handle
  have hbalance := hhanded.balance handle
  simp only [Mshr.quiet_marks] at hupdate hbalance
  omega

theorem pending_perform {raised lowered : List Nat}
    (hhanded : Mshr.Handed (net m).quiet mshr raised lowered) (other : Fin n) :
    (Function.update net m mshr.quiet other).downstreamPending =
      (net other).downstreamPending := by
  by_cases hm : other = m
  · subst hm
    rw [Function.update_self]
    exact hhanded.downstreamPending
  · rw [Function.update_of_ne hm]

/-- The packet's topmost MSHR, if it has one, is not pending. -/
def FromIdle (net : Network n) (pkt : Packet) : Prop :=
  ∀ handle, pkt.findNextSenderState = some handle →
    ∃ h : handle < n, (net ⟨handle, h⟩).downstreamPending = false

theorem setDownstreamPending_paired {above : Fin n}
    (hmarks : ∀ other : Fin n, net.marks other = (if (net other).downstreamPending then 1 else 0) +
      [above.val].count other.val)
    (hidle : (net above).downstreamPending = false) :
    ∃ next, net.setDownstreamPending above.val = .ok next ∧ next.Paired := by
  let raised : Mshr := { net above with downstreamPending := true }
  refine ⟨Function.update net above raised, ?_, ?_⟩
  · simp only [setDownstreamPending, above.isLt, ↓reduceDIte, Fin.eta, hidle, Bool.not_false,
      check_true, ok_bind]
    rfl
  · intro other
    have hupdate := net.marks_update above raised other.val
    have hsame : raised.marks other.val = (net above).marks other.val := rfl
    have hother := hmarks other
    by_cases hm : other = above
    · subst hm
      have hup : raised.downstreamPending = true := rfl
      rw [hidle, if_neg Bool.false_ne_true, List.count_cons_self, List.count_nil] at hother
      rw [Function.update_self, hup, if_pos rfl]
      omega
    · have hne : above.val ≠ other.val := fun hval => hm (Fin.ext hval.symm)
      rw [Function.update_of_ne hm]
      rw [List.count_cons_of_ne hne, List.count_nil] at hother
      omega

/-- Operations that add a target raise one idle flag. -/
theorem perform_raised {handle : Option Nat} (hpaired : net.Paired)
    (hidle : ∀ raised, handle = some raised →
      ∃ h : raised < n, (net ⟨raised, h⟩).downstreamPending = false)
    (hop : op (net m).quiet = .ok mshr)
    (hhanded : Mshr.Handed (net m).quiet mshr handle.toList []) :
    ∃ next, net.perform depth m op = .ok next ∧ next.Paired := by
  rw [perform_eq hop hhanded]
  have hpending := pending_perform hhanded
  cases handle with
  | none =>
      refine ⟨_, rfl, ?_⟩
      intro other
      rw [hpending, ← hpaired other]
      simpa using marks_perform hhanded other.val
  | some raised =>
      obtain ⟨hraised, hdown⟩ := hidle raised rfl
      have hmarks : ∀ other : Fin n, marks (Function.update net m mshr.quiet) other =
          (if (Function.update net m mshr.quiet other).downstreamPending then 1 else 0) +
            [raised].count other.val := by
        intro other
        rw [hpending, ← hpaired other]
        simpa using marks_perform hhanded other.val
      obtain ⟨next, hnext, hnextPaired⟩ :=
        setDownstreamPending_paired hmarks ((hpending ⟨raised, hraised⟩).trans hdown)
      refine ⟨next, ?_, hnextPaired⟩
      simp only [Option.toList_some, List.map_cons, List.map_nil, List.append_nil,
        List.foldlM_cons, List.foldlM_nil, answer, hnext, ok_bind]
      rfl

/-- Operations that take marks back lower the flags these held up. -/
theorem perform_lowered {lowered : List Nat} (hlinked : net.Linked) (hpaired : net.Paired)
    (hdepth : n ≤ depth) (hop : op (net m).quiet = .ok mshr)
    (hhanded : Mshr.Handed (net m).quiet mshr [] lowered) :
    ∃ next, net.perform depth m op = .ok next ∧ next.Paired := by
  rw [perform_eq hop hhanded, List.map_nil, List.nil_append]
  have hbalance := hhanded.balance
  simp only [Mshr.quiet_marks, List.count_nil, Nat.add_zero] at hbalance
  have hmarks := marks_perform hhanded
  simp only [List.count_nil, Nat.add_zero] at hmarks
  have hwalk : Walk (Function.update net m mshr.quiet) (fun _ => True)
      (Function.update net m mshr.quiet) (fun _ => False) lowered := by
    constructor
    case balance =>
      intro other _
      rw [hmarks, hpaired other, pending_perform hhanded]
    case inReach =>
      intro handle hhandle
      have hcount := List.count_pos_iff.mpr hhandle
      have hheld := hbalance handle
      have hpos : 0 < (net m).marks handle := by omega
      exact ⟨⟨handle, hlinked.inside_of_marks hpos⟩, trivial, rfl⟩
    case unvisited =>
      intro other _
      rfl
    case cleared => exact fun _ hvisited => hvisited.elim
    case followed => exact fun _ hvisited => hvisited.elim
  have hinside : ∀ other, ∀ handle ∈
      Mshr.heldUp (Function.update net m mshr.quiet other).targets.list, handle < n := by
    intro other handle hhandle
    have hpos := marks_of_heldUp hhandle
    by_cases hm : other = m
    · subst hm
      rw [Function.update_self, Mshr.quiet_marks] at hpos
      have hheld := hbalance handle
      have hpos' : 0 < (net other).marks handle := by omega
      exact hlinked.inside_of_marks hpos'
    · rw [Function.update_of_ne hm] at hpos
      exact hlinked.inside_of_marks hpos
  obtain ⟨next, visited, hnext, -, hdone⟩ := answers_walk hdepth hinside hwalk
  exact ⟨next, hnext, hdone.paired⟩

end Operations

/-- The operations that take part in the handshake. -/
inductive Handshake where
  | allocate (blkAddr : Addr) (blkSize : Nat) (pkt : Packet) (whenReady : Tick) (order : Nat)
      (onFill : Bool)
  | allocateTarget (pkt : Packet) (whenReady : Tick) (order : Nat) (onFill : Bool)
  | markInService (pendingModifiedResp : Bool)
  | promoteIf (test : Target → Except Assertion Bool)
  | promoteDeferredTargets (now : Tick)

namespace Handshake

/-- The operation on its own MSHR. -/
def run : Handshake → Mshr → Except Assertion Mshr
  | .allocate blkAddr blkSize pkt whenReady order onFill, mshr =>
      mshr.allocate blkAddr blkSize pkt whenReady order onFill
  | .allocateTarget pkt whenReady order onFill, mshr =>
      mshr.allocateTarget pkt whenReady order onFill
  | .markInService pendingModifiedResp, mshr => mshr.markInService pendingModifiedResp
  | .promoteIf test, mshr => mshr.promoteIf test
  | .promoteDeferredTargets now, mshr => do
      let (_, mshr) ← mshr.promoteDeferredTargets now
      pure mshr

/-- A new packet comes from an idle MSHR; a register that is allocated anew, or
that promotes, is itself idle. -/
def Admitted (net : Network n) (m : Fin n) : Handshake → Prop
  | .allocate _ _ pkt _ _ _ => (net m).downstreamPending = false ∧ net.FromIdle pkt
  | .allocateTarget pkt _ _ _ => net.FromIdle pkt
  | .markInService _ => True
  | .promoteIf _ => (net m).downstreamPending = false
  | .promoteDeferredTargets _ => True

end Handshake

/-- Every operation of the handshake keeps the pairing, and none of its calls to
other MSHRs fails. -/
theorem perform_paired {net : Network n} (hlinked : net.Linked) (hpaired : net.Paired)
    {depth : Nat} (hdepth : n ≤ depth) {m : Fin n} {op : Handshake} (hop : op.Admitted net m)
    {mshr : Mshr} (h : op.run (net m).quiet = .ok mshr) :
    ∃ next, net.perform depth m op.run = .ok next ∧ next.Paired := by
  cases op with
  | allocate blkAddr blkSize pkt whenReady order onFill =>
      exact perform_raised hpaired hop.2 h (Mshr.allocate_handed hop.1 h)
  | allocateTarget pkt whenReady order onFill =>
      obtain hhanded | hhanded := Mshr.allocateTarget_handed h
      · exact perform_raised hpaired hop h hhanded
      · exact perform_lowered hlinked hpaired hdepth h hhanded
  | markInService pendingModified =>
      exact perform_lowered hlinked hpaired hdepth h (Mshr.markInService_handed h)
  | promoteIf test =>
      obtain ⟨moved, left, -, hhanded⟩ := Mshr.promoteIf_handed h
      exact perform_lowered hlinked hpaired hdepth h hhanded
  | promoteDeferredTargets now =>
      have h' := h
      simp only [Handshake.run, bind_eq_ok, pure_eq_ok] at h'
      obtain ⟨⟨promoted, mshr'⟩, hpromote, rfl⟩ := h'
      exact perform_lowered hlinked hpaired hdepth h
        (Mshr.promoteDeferredTargets_handed hpromote)

/-- Called from outside, the recursion stays strictly above its first MSHR, whose
own mark below is still there. -/
theorem clear_returns {net : Network n} (hlinked : net.Linked) (hpaired : net.Paired)
    {depth : Nat} (hdepth : n ≤ depth) {m : Fin n} (hpending : (net m).downstreamPending = true) :
    ∃ next, net.clearDownstreamPending depth m.val = .ok next ∧
      ∀ other, net.Visits m other →
        ∀ target ∈ (next other).targets.list, target.markedPending = false := by
  let above : Fin n → Prop := fun other => Relation.TransGen net.Feeds other m
  have hfeeds : ∀ other, ∀ handle ∈ Mshr.heldUp (net other).targets.list,
      ∃ next : Fin n, net.Feeds next other ∧ next.val = handle := by
    intro other handle hhandle
    obtain ⟨target, htarget, hholds⟩ := Mshr.mem_heldUp hhandle
    have hline := List.mem_append_left (net other).deferredTargets.list htarget
    have hstate := (Target.holdsUp_eq_some.mp hholds).2
    exact ⟨⟨handle, hlinked.inside other target hline handle hstate⟩, ⟨target, hline, hstate⟩, rfl⟩
  have hclosed : ∀ other, above other → ∀ handle ∈ Mshr.heldUp (net other).targets.list,
      ∃ next : Fin n, above next ∧ next.val = handle := by
    intro other habove handle hhandle
    obtain ⟨next, hnext, hval⟩ := hfeeds other handle hhandle
    exact ⟨next, .head hnext habove, hval⟩
  have hwalk : Walk net above (net.cleared m) (fun other => other = m)
      (Mshr.heldUp (net m).targets.list ++ []) := by
    rw [List.append_nil]
    constructor
    case balance =>
      intro other habove
      have hne : other ≠ m := by
        rintro rfl
        exact hlinked.acyclic other habove
      rw [net.marks_cleared m, hpaired other, net.cleared_of_ne hne]
    case inReach =>
      intro handle hhandle
      obtain ⟨next, hnext, hval⟩ := hfeeds m handle hhandle
      exact ⟨next, .single hnext, hval⟩
    case unvisited => exact fun other hother => net.cleared_of_ne hother
    case cleared =>
      rintro other rfl
      exact net.cleared_self other
    case followed =>
      rintro other rfl handle hhandle
      exact .inl hhandle
  have hless := net.pendingCount_cleared hpending
  have hcount := net.pendingCount_le
  obtain ⟨below, rfl⟩ : ∃ below, depth = below + 1 := ⟨depth - 1, by omega⟩
  obtain ⟨next, visited, hnext, -, hgrows, hdone⟩ :=
    clears_walk (clear_walk hclosed below) _ (by omega) hwalk
  refine ⟨next, ?_, ?_⟩
  · rw [clearDownstreamPending_succ below hpending]
    exact hnext
  · intro other hvisits
    exact (hdone.cleared other (hdone.visits (hgrows m rfl) hvisits)).2

/-- Once an MSHR that is not itself pending goes into service, no target is left
marked where the recursion has been. -/
theorem markInService_unmarks {net next : Network n} (hlinked : net.Linked)
    (hpaired : net.Paired) {depth : Nat} (hdepth : n ≤ depth) {m : Fin n}
    (hidle : (net m).downstreamPending = false) {pendingModified : Bool}
    (h : net.perform depth m (·.markInService pendingModified) = .ok next) {other : Fin n}
    (hvisits : net.Visits m other) :
    ∀ target ∈ (next other).targets.list, target.markedPending = false := by
  have h' := h
  simp only [perform, bind_eq_ok] at h'
  obtain ⟨mshr, hop, -⟩ := h'
  have hhanded := Mshr.markInService_handed hop
  have hquiet : (net m).quiet.downstreamPending = false := hidle
  have htargets := Mshr.markInService_unmarked hquiet hop
  rw [hquiet, if_neg Bool.false_ne_true, Mshr.quiet_targets] at hhanded
  rw [perform_eq hop hhanded, List.map_nil, List.nil_append] at h
  have hmarks := marks_perform hhanded
  simp only [List.count_nil, Nat.add_zero] at hmarks
  have hwalk : Walk net (fun _ => True) (Function.update net m mshr.quiet)
      (fun other => other = m) (Mshr.heldUp (net m).targets.list) := by
    constructor
    case balance =>
      intro other _
      rw [pending_perform hhanded, ← hpaired other]
      exact hmarks other.val
    case inReach =>
      intro handle hhandle
      exact ⟨⟨handle, hlinked.inside_of_marks (marks_of_heldUp hhandle)⟩, trivial, rfl⟩
    case unvisited => exact fun other hother => Function.update_of_ne hother _ _
    case cleared =>
      rintro other rfl
      rw [pending_perform hhanded, Function.update_self]
      exact ⟨hidle, htargets⟩
    case followed =>
      rintro other rfl handle hhandle
      exact .inl hhandle
  obtain ⟨final, visited, hfinal, hgrows, hdone⟩ := answers_walk hdepth
    (fun other handle hhandle => hlinked.inside_of_marks (marks_of_heldUp hhandle)) hwalk
  rw [hfinal, Except.ok.injEq] at h
  subst h
  exact (hdone.cleared other (hdone.visits (hgrows m rfl) hvisits)).2

/-- From a network in which every flag that is up has one mark and every other
none, the handshake keeps the pairing, its recursion returns, and it leaves no
mark where it has been. -/
theorem handshake_keeps_pairing {net : Network n} (hlinked : net.Linked) (hpaired : net.Paired)
    {depth : Nat} (hdepth : n ≤ depth) (m : Fin n) :
    (∀ (op : Handshake) mshr, op.Admitted net m → op.run (net m).quiet = .ok mshr →
      ∃ next, net.perform depth m op.run = .ok next ∧ next.Paired) ∧
    ((net m).downstreamPending = true →
      ∃ next, net.clearDownstreamPending depth m.val = .ok next ∧
        ∀ other, net.Visits m other →
          ∀ target ∈ (next other).targets.list, target.markedPending = false) ∧
    ((net m).downstreamPending = false → ∀ pendingModified next,
      net.perform depth m (·.markInService pendingModified) = .ok next →
        ∀ other, net.Visits m other →
          ∀ target ∈ (next other).targets.list, target.markedPending = false) := by
  refine ⟨?_, ?_, ?_⟩
  · intro op mshr hop h
    exact perform_paired hlinked hpaired hdepth hop h
  · intro hpending
    exact clear_returns hlinked hpaired hdepth hpending
  · intro hidle pendingModified next h other hvisits
    exact markInService_unmarks hlinked hpaired hdepth hidle h hvisits

/-- Packets that only go down the levels form no cycle. -/
theorem acyclic_of_rank {net : Network n} (rank : Fin n → Nat)
    (hrank : ∀ above m, net.Feeds above m → rank above < rank m) (m : Fin n) :
    ¬ Relation.TransGen net.Feeds m m := by
  have hless : ∀ above below, Relation.TransGen net.Feeds above below →
      rank above < rank below := by
    intro above below hchain
    induction hchain with
    | single hfeeds => exact hrank above _ hfeeds
    | tail _ hfeeds ih => exact ih.trans (hrank _ _ hfeeds)
  exact fun hcycle => lt_irrefl _ (hless m m hcycle)

instance (net : Network n) (above m : Fin n) : Decidable (net.Feeds above m) :=
  inferInstanceAs (Decidable (∃ target ∈ (net m).line, _))

/-- A network whose handles are all indices, numbered from the top level down. -/
theorem linked_of_order {net : Network n}
    (hinside : ∀ m, ∀ target ∈ (net m).line,
      target.pkt.findNextSenderState.all (· < n) = true)
    (horder : ∀ above m : Fin n, net.Feeds above m → above.val < m.val) : net.Linked := by
  refine ⟨?_, acyclic_of_rank Fin.val horder⟩
  intro m target htarget handle hstate
  simpa [hstate] using hinside m target htarget

/-- A read that passed through an MSHR of the cache above. -/
def readVia (handle : Nat) : Packet :=
  (Packet.ofRequest 0 (Request.physical 0x200 4 0 0) .readReq).pushSenderState (.mshr handle)

/-- An MSHR that waits with marked targets for the given MSHRs above. -/
def waitingFor (pending : Bool) (handles : List Nat) : Mshr :=
  { Mshr.empty with
    downstreamPending := pending
    targets := { TargetList.empty with
      list := handles.map fun handle =>
        TargetList.newTarget (readVia handle) 0 0 .fromCPU true true } }

/-- Three levels, the lowest of which has not sent its request. -/
def threeLevels : Network 3 :=
  ![waitingFor true [], waitingFor true [0], waitingFor false [1]]

/-- Sending the request of the lowest level lowers both flags above it. -/
theorem threeLevels_handshake : threeLevels.Linked ∧ threeLevels.Paired ∧
    ∃ next, threeLevels.perform 3 2 (Handshake.markInService false).run = .ok next ∧
      next.Paired := by
  have hlinked : threeLevels.Linked := linked_of_order (by decide) (by decide)
  have hpaired : threeLevels.Paired := by decide
  obtain ⟨mshr, hop⟩ : ∃ mshr, (Handshake.markInService false).run (threeLevels 2).quiet =
      .ok mshr := ⟨_, rfl⟩
  exact ⟨hlinked, hpaired,
    (handshake_keeps_pairing hlinked hpaired le_rfl 2).1 _ mshr trivial hop⟩

/-- The flag is up exactly when one target is marked, so it may also be down with
several. -/
def MarkedOnce (net : Network n) : Prop :=
  ∀ m : Fin n, (net m).downstreamPending = true ↔ net.marks m = 1

instance (net : Network n) : Decidable net.MarkedOnce := Fintype.decidableForallFintype

/-- Two marks under a flag that is down. -/
def markedTwice : Network 2 := ![waitingFor false [], waitingFor false [0, 0]]

/-- One mark under a flag that is up. -/
def oneMark : Network 2 := ![waitingFor true [], waitingFor false [0]]

/-- Two marks whose flag is down stop the recursion, and allocating a register
whose flag is up loses the flag but not the mark. -/
theorem literal_pairing_is_lost :
    (markedTwice.Linked ∧ markedTwice.MarkedOnce ∧ (markedTwice 1).downstreamPending = false ∧
      markedTwice.perform 2 1 (Handshake.markInService false).run =
        .error .notDownstreamPending) ∧
    (oneMark.Linked ∧ oneMark.MarkedOnce ∧
      ∃ next, oneMark.perform 2 0 (Handshake.allocate 0x200 64
          (Packet.ofRequest 0 (Request.physical 0x200 4 0 0) .readReq) 0 0 true).run = .ok next ∧
        ¬ next.MarkedOnce) := by
  have htwice : markedTwice.Linked := linked_of_order (by decide) (by decide)
  have hone : oneMark.Linked := linked_of_order (by decide) (by decide)
  refine ⟨⟨htwice, by decide, rfl, failure_eq_some.mp (by decide)⟩, hone, by decide, ?_⟩
  obtain ⟨next, hnext, hlost⟩ := exists_ok_of_observed
    (show ((oneMark.perform 2 0 (Handshake.allocate 0x200 64
      (Packet.ofRequest 0 (Request.physical 0x200 4 0 0) .readReq) 0 0 true).run).toOption.map
        fun next => decide next.MarkedOnce) = some false by decide)
  exact ⟨next, hnext, of_decide_eq_false hlost⟩

end KuiperCache.Network
