import Mathlib.Data.List.Pairwise
import Mathlib.Data.List.TakeWhile
import KuiperCache.Prefetch.Queued

/-! Asking again for a queued prefetch.  The search goes one entry past the
match, so it is the entry behind it whose priority is raised. -/
namespace KuiperCache

namespace Queued

variable {queue : List DeferredPacket} {pfi : PrefetchInfo} {priority : Int}

/-- Priorities do not increase from the front to the back. -/
def ByPriority (queue : List DeferredPacket) : Prop :=
  queue.Pairwise fun first second => second.priority ≤ first.priority

/-- No two entries have the same address and security. -/
def DistinctKeys (queue : List DeferredPacket) : Prop :=
  queue.Pairwise fun first second => first.pfInfo.sameAddr second.pfInfo = false

/-- The outcome of raising the entry with this address, and no other. -/
def RaisesMatch (queue : List DeferredPacket) (pfi : PrefetchInfo) (priority : Int)
    (outcome : Bool × List DeferredPacket) : Prop :=
  (outcome.1 = true ↔ ∃ entry ∈ queue, entry.pfInfo.sameAddr pfi = true) ∧
    (∀ front entry back, queue = front ++ entry :: back → entry.pfInfo.sameAddr pfi = true →
      outcome.2.Perm
          (front ++ { entry with priority := max entry.priority priority } :: back) ∧
        ByPriority outcome.2) ∧
    ((∀ entry ∈ queue, entry.pfInfo.sameAddr pfi = false) → outcome.2 = queue)

/-- The matching entry and the one behind it have the priority already. -/
def alreadyRaised (queue : List DeferredPacket) (pfi : PrefetchInfo) (priority : Int) : Bool :=
  ((queue.dropWhile fun entry => !entry.pfInfo.sameAddr pfi).take 2).all fun entry =>
    priority ≤ entry.priority

theorem sameAddr_comm (first second : PrefetchInfo) :
    first.sameAddr second = second.sameAddr first := by
  rw [PrefetchInfo.sameAddr, PrefetchInfo.sameAddr, BEq.comm (a := first.address),
    BEq.comm (a := first.secure)]

theorem sameAddr_of_common {first second : PrefetchInfo} (hfirst : first.sameAddr pfi = true)
    (hsecond : second.sameAddr pfi = true) : first.sameAddr second = true := by
  simp only [PrefetchInfo.sameAddr, Bool.and_eq_true, beq_iff_eq] at hfirst hsecond ⊢
  exact ⟨hfirst.1.trans hsecond.1.symm, hfirst.2.trans hsecond.2.symm⟩

/-- The first match, if there is one. -/
theorem exists_match (queue : List DeferredPacket) (pfi : PrefetchInfo) :
    (∀ entry ∈ queue, entry.pfInfo.sameAddr pfi = false) ∨
      ∃ front entry back, queue = front ++ entry :: back ∧ entry.pfInfo.sameAddr pfi = true ∧
        ∀ other ∈ front, other.pfInfo.sameAddr pfi = false := by
  induction queue with
  | nil => exact .inl (by simp)
  | cons head tail ih =>
      cases hhead : head.pfInfo.sameAddr pfi with
      | true => exact .inr ⟨[], head, tail, rfl, hhead, by simp⟩
      | false =>
          obtain hnone | ⟨front, entry, back, rfl, hentry, hfront⟩ := ih
          · exact .inl (by simpa [hhead] using hnone)
          · exact .inr ⟨head :: front, entry, back, rfl, hentry, by simpa [hhead] using hfront⟩

theorem searchQueue_none (h : ∀ entry ∈ queue, entry.pfInfo.sameAddr pfi = false) :
    searchQueue pfi queue = (false, queue, []) := by
  induction queue with
  | nil => rfl
  | cons head tail ih =>
      have hhead := h head (by simp)
      rw [searchQueue, hhead, ih fun entry hentry => h entry (by simp [hentry])]
      rfl

/-- The iterator ends behind the match. -/
theorem searchQueue_match {front back : List DeferredPacket} {entry : DeferredPacket}
    (hfront : ∀ other ∈ front, other.pfInfo.sameAddr pfi = false)
    (hentry : entry.pfInfo.sameAddr pfi = true) :
    searchQueue pfi (front ++ entry :: back) = (true, front ++ [entry], back) := by
  induction front with
  | nil =>
      rw [List.nil_append, searchQueue, hentry]
      rfl
  | cons head front ih =>
      have hhead := hfront head (by simp)
      rw [List.cons_append, searchQueue, hhead,
        ih fun other hother => hfront other (by simp [hother])]
      rfl

theorem bubble_perm (it : DeferredPacket) (before between after : List DeferredPacket) :
    (bubble it before between after).Perm (it :: (before.reverse ++ (between ++ after))) := by
  induction before generalizing between after with
  | nil => exact List.perm_middle
  | cons prev before ih =>
      rw [bubble]
      split
      · apply (ih [] (between ++ prev :: after)).trans
        rw [List.reverse_cons, List.append_assoc]
        exact (List.perm_middle.append_left before.reverse).cons it
      · simpa using ih (prev :: between) after

theorem DistinctKeys.eq_of_sameAddr (h : DistinctKeys queue) {first second : DeferredPacket}
    (hfirst : first ∈ queue) (hsecond : second ∈ queue)
    (hsame : first.pfInfo.sameAddr second.pfInfo = true) : first = second := by
  by_contra hne
  have hsymm : Std.Symm fun first second : DeferredPacket =>
      first.pfInfo.sameAddr second.pfInfo = false :=
    ⟨fun first second hother => (sameAddr_comm second.pfInfo first.pfInfo).trans hother⟩
  have hdistinct := List.Pairwise.forall h hfirst hsecond hne
  rw [hsame] at hdistinct
  cases hdistinct

section Matched

variable {front back : List DeferredPacket} {entry : DeferredPacket}

theorem alreadyRaised_match (hfront : ∀ other ∈ front, other.pfInfo.sameAddr pfi = false)
    (hentry : entry.pfInfo.sameAddr pfi = true) :
    alreadyRaised (front ++ entry :: back) pfi priority =
      ((entry :: back).take 2).all fun other => priority ≤ other.priority := by
  have hdrop : (front ++ entry :: back).dropWhile (fun other => !other.pfInfo.sameAddr pfi) =
      entry :: back := by
    rw [List.dropWhile_append_of_pos (by simpa using hfront),
      List.dropWhile_cons_of_neg (by simp [hentry])]
  rw [alreadyRaised, hdrop]

/-- A queue in which the matching entry has the priority already may stay. -/
theorem raisesMatch_self (hsorted : ByPriority (front ++ entry :: back))
    (hkeys : DistinctKeys (front ++ entry :: back)) (hentry : entry.pfInfo.sameAddr pfi = true)
    (hle : priority ≤ entry.priority) :
    RaisesMatch (front ++ entry :: back) pfi priority (true, front ++ entry :: back) := by
  refine ⟨iff_of_true rfl ⟨entry, by simp, hentry⟩, ?_, fun _ => rfl⟩
  intro front' entry' back' hsplit hentry'
  have hsame : entry' = entry := by
    apply hkeys.eq_of_sameAddr
    · rw [hsplit]
      simp
    · simp
    · exact sameAddr_of_common hentry' hentry
  subst hsame
  rw [max_eq_left hle]
  exact ⟨by rw [hsplit], hsorted⟩

/-- A raised entry behind the match is not what was asked for. -/
theorem not_raisesMatch_behind {behind : DeferredPacket}
    (hkeys : DistinctKeys (front ++ entry :: behind :: back))
    (hentry : entry.pfInfo.sameAddr pfi = true) (hlt : behind.priority < priority)
    {outcome : Bool × List DeferredPacket} (hraised : { behind with priority } ∈ outcome.2) :
    ¬ RaisesMatch (front ++ entry :: behind :: back) pfi priority outcome := by
  rintro ⟨-, hmatch, -⟩
  have hmem := ((hmatch front entry (behind :: back) rfl hentry).1.mem_iff).mp hraised
  have hself : behind.pfInfo.sameAddr behind.pfInfo = true := by simp [PrefetchInfo.sameAddr]
  have habsent : { behind with priority } ∉ front ++ entry :: behind :: back := by
    intro hin
    have hbehind := hkeys.eq_of_sameAddr hin (by simp) hself
    have hpriority := congrArg DeferredPacket.priority hbehind
    simp only at hpriority
    omega
  have hapart : entry.pfInfo.sameAddr behind.pfInfo = false :=
    (List.pairwise_cons.mp (List.pairwise_append.mp hkeys).2.1).1 behind (by simp)
  simp only [List.mem_append, List.mem_cons] at hmem habsent
  obtain hmem | hmem | hmem := hmem
  · exact habsent (.inl hmem)
  · have hinfo := congrArg DeferredPacket.pfInfo hmem
    simp only at hinfo
    rw [← hinfo, hself] at hapart
    cases hapart
  · exact habsent (.inr (.inr hmem))

end Matched

/-- In an ordered queue with distinct keys, asking again raises the matching
entry and no other exactly when there is nothing to raise. -/
theorem already_in_queue_raises_match_iff (hsorted : ByPriority queue) (hkeys : DistinctKeys queue)
    (pfi : PrefetchInfo) (priority : Int) :
    RaisesMatch queue pfi priority (alreadyInQueue queue pfi priority) ↔
      alreadyRaised queue pfi priority = true := by
  obtain hnone | ⟨front, entry, back, rfl, hentry, hfront⟩ := exists_match queue pfi
  · have hdrop : queue.dropWhile (fun entry => !entry.pfInfo.sameAddr pfi) = [] := by
      simpa [List.dropWhile_eq_nil_iff] using hnone
    rw [alreadyInQueue, searchQueue_none hnone, alreadyRaised, hdrop]
    refine iff_of_true ⟨?_, ?_, fun _ => rfl⟩ rfl
    · simpa using hnone
    · rintro front entry back rfl hentry
      rw [hnone entry (by simp)] at hentry
      cases hentry
  · rw [alreadyInQueue, searchQueue_match hfront hentry, alreadyRaised_match hfront hentry]
    cases back with
    | nil =>
        -- the match is the last entry, and nothing is raised at all
        simp only [List.take_succ_cons, List.take_nil, List.all_cons, List.all_nil, Bool.and_true,
          decide_eq_true_eq]
        constructor
        · rintro ⟨-, hmatch, -⟩
          have hperm := (hmatch front entry [] rfl hentry).1
          have hsame := List.perm_singleton.mp ((List.perm_append_left_iff front).mp hperm)
          have hpriority := congrArg DeferredPacket.priority (List.singleton_inj.mp hsame)
          simp only at hpriority
          omega
        · exact raisesMatch_self hsorted hkeys hentry
    | cons behind back =>
        have hbehind : behind.priority ≤ entry.priority :=
          (List.pairwise_cons.mp (List.pairwise_append.mp hsorted).2.1).1 behind (by simp)
        simp only [List.take_succ_cons, List.take_zero, List.all_cons, List.all_nil, Bool.and_true,
          Bool.and_eq_true, decide_eq_true_eq]
        by_cases hlt : behind.priority < priority
        · rw [if_pos hlt]
          apply iff_of_false
          · apply not_raisesMatch_behind hkeys hentry hlt
            rw [(bubble_perm _ _ _ _).mem_iff]
            exact List.mem_cons_self
          · omega
        · rw [if_neg hlt]
          have hle : priority ≤ entry.priority := by omega
          exact iff_of_true (raisesMatch_self hsorted hkeys hentry hle) ⟨hle, by omega⟩

/-- A queued prefetch that has no packet yet. -/
def waiting (address : Addr) (priority : Int) (arrival : Nat) : DeferredPacket :=
  { pfInfo := { address, secure := false }, pkt := none, priority, arrival }

def threeLines : List DeferredPacket :=
  [waiting 0x000 5 0, waiting 0x040 4 1, waiting 0x080 3 2]

theorem already_in_queue_raises_match_iff_middle :
    ByPriority threeLines ∧ DistinctKeys threeLines ∧
      RaisesMatch threeLines ⟨0x040, false⟩ 3 (alreadyInQueue threeLines ⟨0x040, false⟩ 3) := by
  have hsorted : ByPriority threeLines := by
    unfold ByPriority threeLines
    decide
  have hkeys : DistinctKeys threeLines := by
    unfold DistinctKeys threeLines
    decide
  exact ⟨hsorted, hkeys, (already_in_queue_raises_match_iff hsorted hkeys _ _).mpr (by decide)⟩

/-- Asking for the middle line with a high priority raises the last one, and
puts it in front. -/
theorem asking_again_raises_the_next :
    ByPriority threeLines ∧ DistinctKeys threeLines ∧
      alreadyInQueue threeLines ⟨0x040, false⟩ 9 =
        (true, [waiting 0x080 9 2, waiting 0x000 5 0, waiting 0x040 4 1]) ∧
      ¬ RaisesMatch threeLines ⟨0x040, false⟩ 9 (alreadyInQueue threeLines ⟨0x040, false⟩ 9) := by
  have hkeys : DistinctKeys
      ([waiting 0x000 5 0] ++ waiting 0x040 4 1 :: waiting 0x080 3 2 :: []) := by
    unfold DistinctKeys
    decide
  refine ⟨?_, hkeys, by decide, ?_⟩
  · unfold ByPriority threeLines
    decide
  · exact not_raisesMatch_behind hkeys (by decide) (by decide) (by decide)

end Queued

end KuiperCache
