import KuiperCache.Library.StableOrder
import KuiperCache.Prefetch.Queued

/-! The prefetch queue as a bounded priority queue.  Entries leave the full
queue and the issue end in the right order; a new entry is placed rightly only
at the ends of the list and behind its head. -/
namespace KuiperCache

open Checked StableOrder

/-- The entry is issued earlier: higher priority, or the same and queued earlier. -/
def DeferredPacket.Before (first second : DeferredPacket) : Prop :=
  Precedes (fun entry : DeferredPacket => -entry.priority) DeferredPacket.arrival first second

theorem DeferredPacket.before_iff {first second : DeferredPacket} : first.Before second ↔
    second.priority < first.priority ∨
      (first.priority = second.priority ∧ first.arrival < second.arrival) := by
  simp only [Before, Precedes]
  omega

namespace Queued

variable {queue : List DeferredPacket} {dpp : DeferredPacket} {queueSize : Nat}

/-- The entries stand in the order in which they are to be issued. -/
def Sorted (queue : List DeferredPacket) : Prop := queue.Pairwise DeferredPacket.Before

/-- Whether no entry has a lower priority. -/
def isLowest (queue : List DeferredPacket) (entry : DeferredPacket) : Bool :=
  queue.all fun other => entry.priority ≤ other.priority

/-- The entries that stay when a new one arrives: all of them, or all but the
first of lowest priority. -/
def survivors (queueSize : Nat) (queue : List DeferredPacket) : List DeferredPacket :=
  if queue.length == queueSize then queue.eraseP (isLowest queue) else queue

/-- The places the insertion gets right: the new priority is at most that of
the last entry that stays, or above that of every one but the head. -/
def placesRight (queueSize : Nat) (queue : List DeferredPacket) (dpp : DeferredPacket) : Bool :=
  ((survivors queueSize queue).getLast?.all fun back => dpp.priority ≤ back.priority) ||
    (survivors queueSize queue).tail.all fun entry => entry.priority < dpp.priority

/-- The walk stops at an entry behind one of another priority. -/
theorem removeLowest_stop (it : DeferredPacket) (before after : List DeferredPacket)
    (hbefore : ∀ entry ∈ before, entry.priority ≠ it.priority) :
    removeLowest it before after = before.reverse ++ after := by
  cases before with
  | nil => rfl
  | cons prev before =>
      have hne : (prev.priority == it.priority) = false := by
        simpa using hbefore prev (by simp)
      rw [removeLowest, hne]
      rfl

/-- The walk goes through a group of one priority to its first entry. -/
theorem removeLowest_group (first last : DeferredPacket) (group before after : List DeferredPacket)
    (hlast : last.priority = first.priority)
    (hgroup : ∀ entry ∈ group, entry.priority = first.priority)
    (hbefore : ∀ entry ∈ before, entry.priority ≠ first.priority) :
    removeLowest last (group ++ first :: before) after =
      before.reverse ++ (group.reverse ++ last :: after) := by
  induction group generalizing last after with
  | nil =>
      rw [List.nil_append, removeLowest, hlast, beq_self_eq_true, if_pos rfl,
        removeLowest_stop first before _ hbefore]
      rfl
  | cons entry group ih =>
      have hentry := hgroup entry (by simp)
      rw [List.cons_append, removeLowest, hentry, hlast, beq_self_eq_true, if_pos rfl,
        ih entry (last :: after) hentry fun e he => hgroup e (by simp [he])]
      simp

/-- The walk from the back ends at the first entry of the last group. -/
theorem removeFull_group {front rest : List DeferredPacket} {victim : DeferredPacket}
    (hfront : ∀ entry ∈ front, entry.priority ≠ victim.priority)
    (hrest : ∀ entry ∈ rest, entry.priority = victim.priority) :
    removeFull (front ++ victim :: rest) = .ok (front ++ rest) := by
  have hother : ∀ entry ∈ front.reverse, entry.priority ≠ victim.priority := by
    intro entry hentry
    exact hfront entry (List.mem_reverse.mp hentry)
  rw [removeFull, List.reverse_append, List.reverse_cons]
  obtain rfl | ⟨group, last, rfl⟩ := List.eq_nil_or_concat rest
  · simp [removeLowest_stop victim front.reverse [] hother]
  · have hlast : last.priority = victim.priority := hrest last (by simp)
    have hgroup : ∀ entry ∈ group.reverse, entry.priority = victim.priority := by
      intro entry hentry
      exact hrest entry (by simp [List.mem_reverse.mp hentry])
    have hwalk := removeLowest_group victim last group.reverse front.reverse [] hlast hgroup hother
    simpa using hwalk

/-- The first entry of lowest priority is the first of the last group. -/
theorem eraseP_isLowest {front rest : List DeferredPacket} {victim : DeferredPacket}
    (hfront : ∀ entry ∈ front, victim.priority < entry.priority)
    (hrest : ∀ entry ∈ rest, entry.priority = victim.priority) :
    (front ++ victim :: rest).eraseP (isLowest (front ++ victim :: rest)) = front ++ rest := by
  have hlowest : isLowest (front ++ victim :: rest) victim = true := by
    simp only [isLowest, List.all_eq_true, decide_eq_true_eq, List.mem_append, List.mem_cons]
    rintro entry (hentry | rfl | hentry)
    · exact (hfront entry hentry).le
    · exact le_refl _
    · exact (hrest entry hentry).ge
  have hnot : ∀ entry ∈ front, ¬ isLowest (front ++ victim :: rest) entry = true := by
    intro entry hentry hall
    simp only [isLowest, List.all_eq_true, decide_eq_true_eq] at hall
    have hle := hall victim (by simp)
    have hlt := hfront entry hentry
    omega
  rw [List.eraseP_append_right _ hnot, List.eraseP_cons_of_pos hlowest]

/-- What a full ordered queue loses: its oldest entry of lowest priority. -/
theorem Sorted.removeFull (h : Sorted queue) (hne : queue ≠ []) :
    ∃ front victim rest, queue = front ++ victim :: rest ∧
      (∀ entry ∈ queue, victim.priority ≤ entry.priority ∧
        (entry.priority = victim.priority → victim.arrival ≤ entry.arrival)) ∧
      Queued.removeFull queue = .ok (front ++ rest) ∧
      queue.eraseP (isLowest queue) = front ++ rest := by
  obtain ⟨front, victim, rest, rfl, hfront, hrest⟩ := exists_last_group h hne
  have hhigher : ∀ entry ∈ front, victim.priority < entry.priority := by
    intro entry hentry
    have hkey := hfront entry hentry
    omega
  have hequal : ∀ entry ∈ rest, entry.priority = victim.priority := by
    intro entry hentry
    have hkey := (hrest entry hentry).1
    omega
  refine ⟨front, victim, rest, rfl, ?_,
    removeFull_group (fun entry hentry => (hhigher entry hentry).ne') hequal,
    eraseP_isLowest hhigher hequal⟩
  intro entry hentry
  simp only [List.mem_append, List.mem_cons] at hentry
  obtain hentry | rfl | hentry := hentry
  · have hlt := hhigher entry hentry
    exact ⟨hlt.le, fun heq => by omega⟩
  · exact ⟨le_refl _, fun _ => le_refl _⟩
  · exact ⟨(hequal entry hentry).ge, fun _ => (hrest entry hentry).2.le⟩

/-- An entry behind all but the head of the queue, or in front of all. -/
theorem insertScan_right (head : DeferredPacket) (tail after : List DeferredPacket)
    (htail : ∀ entry ∈ tail, entry.priority < dpp.priority) :
    insertScan dpp (tail ++ [head]) after =
      if dpp.priority ≤ head.priority then head :: dpp :: (tail.reverse ++ after)
      else dpp :: head :: (tail.reverse ++ after) := by
  induction tail generalizing after with
  | nil => rfl
  | cons entry tail ih =>
      have hentry := htail entry (by simp)
      cases hrest : tail ++ [head] with
      | nil => simp at hrest
      | cons prev before =>
          rw [List.cons_append, hrest, insertScan, if_pos hentry, ← hrest,
            ih (entry :: after) fun e he => htail e (by simp [he])]
          simp

/-- Otherwise the new entry goes in front of one of at least its priority. -/
theorem insertScan_wrong (head : DeferredPacket) (tail after : List DeferredPacket)
    (htail : ∃ entry ∈ tail, dpp.priority ≤ entry.priority) :
    ∃ front entry back, insertScan dpp (tail ++ [head]) after = front ++ dpp :: entry :: back ∧
      entry ∈ tail ∧ dpp.priority ≤ entry.priority := by
  induction tail generalizing after with
  | nil => simp at htail
  | cons entry tail ih =>
      cases hrest : tail ++ [head] with
      | nil => simp at hrest
      | cons prev before =>
          rw [List.cons_append, hrest, insertScan]
          by_cases hentry : entry.priority < dpp.priority
          · rw [if_pos hentry, ← hrest]
            have hlater : ∃ e ∈ tail, dpp.priority ≤ e.priority := by
              obtain ⟨e, he, hle⟩ := htail
              obtain rfl | he := List.mem_cons.mp he
              · omega
              · exact ⟨e, he, hle⟩
            obtain ⟨front, e, back, hscan, he, hle⟩ := ih (entry :: after) hlater
            exact ⟨front, e, back, hscan, by simp [he], hle⟩
          · rw [if_neg hentry]
            exact ⟨_, entry, after, rfl, by simp, by omega⟩

theorem insertScan_perm (dpp : DeferredPacket) (before after : List DeferredPacket) :
    (insertScan dpp before after).Perm (dpp :: (before.reverse ++ after)) := by
  fun_induction insertScan dpp before after with
  | case1 after => rfl
  | case2 it after hle => exact List.Perm.swap dpp it after
  | case3 it after hlt => rfl
  | case4 it prev before after hlt ih => simpa using ih
  | case5 it prev before after hle =>
      have hmiddle : ((prev :: before).reverse ++ dpp :: it :: after).Perm
          (dpp :: ((prev :: before).reverse ++ it :: after)) := List.perm_middle
      simpa using hmiddle

theorem insertEntry_perm (kept : List DeferredPacket) (dpp : DeferredPacket) :
    (insertEntry kept dpp).Perm (dpp :: kept) := by
  unfold insertEntry
  split
  · next hnone => simp_all
  · split
    · exact List.perm_append_singleton dpp kept
    · simpa using insertScan_perm dpp kept.reverse []

section Placement

variable {head back : DeferredPacket} {tail kept : List DeferredPacket}

theorem Sorted.back_le (h : Sorted kept) (hback : back ∈ kept.getLast?) :
    ∀ entry ∈ kept, back.priority ≤ entry.priority := by
  intro entry hentry
  have hle := key_le_last h hback entry hentry
  omega

theorem Sorted.append (h : Sorted kept) (hnew : ∀ entry ∈ kept, entry.arrival < dpp.arrival)
    (hback : ∀ entry ∈ kept, dpp.priority ≤ entry.priority) : Sorted (kept ++ [dpp]) := by
  apply pairwise_insert
  · rw [List.append_nil]
    exact h
  · intro entry hentry
    have hle := hback entry hentry
    omega
  · simp
  · exact hnew

theorem Sorted.insertHead (h : Sorted (head :: tail)) (hnew : head.arrival < dpp.arrival)
    (htail : ∀ entry ∈ tail, entry.priority < dpp.priority) :
    Sorted (if dpp.priority ≤ head.priority then head :: dpp :: tail
      else dpp :: head :: tail) := by
  split
  · next hle =>
      have hsorted : Sorted ([head] ++ tail) := h
      have hinsert : Sorted ([head] ++ dpp :: tail) := by
        apply pairwise_insert hsorted
        · simpa using hle
        · intro entry hentry
          have hlt := htail entry hentry
          omega
        · simpa using hnew
      exact hinsert
  · next hlt =>
      have hsorted : Sorted ([] ++ head :: tail) := h
      have hinsert : Sorted ([] ++ dpp :: head :: tail) := by
        apply pairwise_insert hsorted
        · simp
        · intro entry hentry
          obtain rfl | hentry := List.mem_cons.mp hentry
          · omega
          · have htail := htail entry hentry
            omega
        · simp
      exact hinsert

/-- A new entry in front of one of at least its priority is out of order. -/
theorem not_sorted_of_overtaken {front rest : List DeferredPacket} {entry : DeferredPacket}
    (hnew : entry.arrival < dpp.arrival) (hle : dpp.priority ≤ entry.priority) :
    ¬ Sorted (front ++ dpp :: entry :: rest) := by
  intro h
  have hpair := (List.pairwise_append.mp h).2.1
  exact not_precedes_of_newer (by omega) hnew ((List.pairwise_cons.mp hpair).1 entry (by simp))

/-- Where the new entry goes is right exactly at the ends and behind the head. -/
theorem insertEntry_sorted_iff (h : Sorted kept)
    (hnew : ∀ entry ∈ kept, entry.arrival < dpp.arrival) :
    Sorted (insertEntry kept dpp) ↔
      (kept.getLast?.all (fun back => dpp.priority ≤ back.priority) ||
        kept.tail.all fun entry => entry.priority < dpp.priority) = true := by
  cases hlast : kept.getLast? with
  | none =>
      simp [insertEntry, hlast, Sorted]
  | some back =>
      rw [insertEntry, hlast]
      simp only [Option.all_some, Bool.or_eq_true, decide_eq_true_eq, List.all_eq_true]
      by_cases hback : dpp.priority ≤ back.priority
      · rw [if_pos hback]
        have happend := h.append hnew fun entry hentry => hback.trans (h.back_le hlast entry hentry)
        exact iff_of_true happend (.inl hback)
      rw [if_neg hback]
      cases kept with
      | nil => simp at hlast
      | cons head tail =>
          rw [List.reverse_cons, List.tail_cons]
          by_cases htail : ∀ entry ∈ tail, entry.priority < dpp.priority
          · have hplaced := insertScan_right head tail.reverse []
              (fun entry hentry => htail entry (List.mem_reverse.mp hentry))
            rw [List.reverse_reverse, List.append_nil] at hplaced
            rw [hplaced]
            exact iff_of_true (h.insertHead (hnew head (by simp)) htail) (.inr htail)
          · have hhigh : ∃ entry ∈ tail.reverse, dpp.priority ≤ entry.priority := by
              simpa using htail
            obtain ⟨front, entry, rest, hscan, hentry, hle⟩ := insertScan_wrong head tail.reverse []
              hhigh
            rw [hscan]
            have hmem : entry ∈ head :: tail := by simp [List.mem_reverse.mp hentry]
            apply iff_of_false (not_sorted_of_overtaken (hnew entry hmem) hle)
            rintro (hle' | hall)
            · exact hback hle'
            · exact htail hall

end Placement

/-- Which entries the queue holds after an insertion: a full queue gives up the
oldest of those of lowest priority. -/
def Admits (queueSize : Nat) (queue next : List DeferredPacket) (entry : DeferredPacket) : Prop :=
  if queue.length = queueSize then
    ∃ front victim rest, queue = front ++ victim :: rest ∧
      (∀ other ∈ queue, victim.priority ≤ other.priority ∧
        (other.priority = victim.priority → victim.arrival ≤ other.arrival)) ∧
      next.Perm (entry :: (front ++ rest))
  else next.Perm (entry :: queue)

/-- On an ordered queue the right entries stay; only the place of the new one
can be wrong. -/
theorem Sorted.addToQueue (h : Sorted queue) (hpos : 1 ≤ queueSize) (dpp : DeferredPacket) :
    Queued.addToQueue queueSize queue dpp = .ok (insertEntry (survivors queueSize queue) dpp) ∧
      Admits queueSize queue (insertEntry (survivors queueSize queue) dpp) dpp := by
  rw [Queued.addToQueue, makeRoom, survivors, Admits]
  by_cases hfull : queue.length = queueSize
  · have hne : queue ≠ [] := by
      rintro rfl
      simp at hfull
      omega
    obtain ⟨front, victim, rest, hqueue, hvictim, hremove, herase⟩ := h.removeFull hne
    rw [beq_iff_eq.mpr hfull, if_pos rfl, if_pos rfl, if_pos hfull, hremove, herase]
    exact ⟨rfl, front, victim, rest, hqueue, hvictim, insertEntry_perm (front ++ rest) dpp⟩
  · have hroom : (queue.length == queueSize) = false := by simpa using hfull
    rw [hroom, if_neg Bool.false_ne_true, if_neg Bool.false_ne_true, if_neg hfull]
    exact ⟨rfl, insertEntry_perm queue dpp⟩

theorem survivors_sublist (queueSize : Nat) (queue : List DeferredPacket) :
    (survivors queueSize queue).Sublist queue := by
  rw [survivors]
  split
  · exact List.eraseP_sublist
  · exact List.Sublist.refl queue

theorem Admits.length_le {next : List DeferredPacket} (h : Admits queueSize queue next dpp)
    (hlength : queue.length ≤ queueSize) : next.length ≤ queueSize := by
  rw [Admits] at h
  split at h
  · next hfull =>
      obtain ⟨front, victim, rest, rfl, -, hperm⟩ := h
      have hsize := hperm.length_eq
      simp only [List.length_cons, List.length_append] at hsize hlength
      omega
  · next hroom =>
      rw [h.length_eq, List.length_cons]
      omega

theorem Admits.mem {next : List DeferredPacket} {entry : DeferredPacket}
    (h : Admits queueSize queue next dpp) (hentry : entry ∈ next) :
    entry = dpp ∨ entry ∈ queue := by
  rw [Admits] at h
  split at h
  · obtain ⟨front, victim, rest, rfl, -, hperm⟩ := h
    have hmem := hperm.mem_iff.mp hentry
    simp at hmem ⊢
    tauto
  · exact List.mem_cons.mp (h.mem_iff.mp hentry)

theorem mem_removeLowest {it entry : DeferredPacket} {before after : List DeferredPacket}
    (h : entry ∈ removeLowest it before after) : entry ∈ it :: before ∨ entry ∈ after := by
  fun_induction removeLowest it before after with
  | case1 it after => exact .inr h
  | case2 it after prev before hsame ih =>
      obtain hmem | hmem := ih h
      · exact .inl (List.mem_cons_of_mem it hmem)
      · obtain rfl | hmem := List.mem_cons.mp hmem
        · exact .inl List.mem_cons_self
        · exact .inr hmem
  | case3 it after prev before hother =>
      obtain hmem | hmem := List.mem_append.mp h
      · exact .inl (List.mem_cons_of_mem it (List.mem_reverse.mp hmem))
      · exact .inr hmem

/-- Whatever the order of the queue, an insertion ends, with entries of the
queue and the new one. -/
theorem addToQueue_total (hpos : 1 ≤ queueSize) (queue : List DeferredPacket)
    (dpp : DeferredPacket) : ∃ next, addToQueue queueSize queue dpp = .ok next ∧
      ∀ entry ∈ next, entry = dpp ∨ entry ∈ queue := by
  obtain ⟨kept, hkept, hmem⟩ : ∃ kept, makeRoom queueSize queue = .ok kept ∧
      ∀ entry ∈ kept, entry ∈ queue := by
    rw [makeRoom]
    split
    · next hfull =>
        rw [beq_iff_eq] at hfull
        cases hreverse : queue.reverse with
        | nil =>
            have hnil : queue = [] := by simpa using hreverse
            subst hnil
            simp at hfull
            omega
        | cons last before =>
            refine ⟨_, by rw [removeFull, hreverse], ?_⟩
            intro entry hentry
            have hcases := mem_removeLowest hentry
            rw [← hreverse] at hcases
            simpa using hcases
    · exact ⟨queue, rfl, fun entry hentry => hentry⟩
  refine ⟨insertEntry kept dpp, by rw [addToQueue, hkept]; rfl, ?_⟩
  intro entry hentry
  obtain rfl | hentry := List.mem_cons.mp ((insertEntry_perm kept dpp).mem_iff.mp hentry)
  · exact .inl rfl
  · exact .inr (hmem entry hentry)

end Queued

/-- What is done to the prefetch queue. -/
inductive PrefetchOp where
  | addToQueue (dpp : DeferredPacket)
  | getPacket

/-- A new entry comes with the packet to issue. -/
def PrefetchOp.HasPacket : PrefetchOp → Prop
  | .addToQueue dpp => dpp.pkt.isSome = true
  | .getPacket => True

/-- The prefetcher, and how many prefetches were queued. -/
structure PrefetchRun where
  prefetcher : Queued
  arrivals : Nat

namespace PrefetchRun

open Queued

def new (queueSize : Nat) : PrefetchRun :=
  { prefetcher :=
      { queueSize, pfq := [], pfqMissingTranslation := [], issuedPrefetches := 0 },
    arrivals := 0 }

/-- The entry as it is queued now. -/
def arriving (state : PrefetchRun) (dpp : DeferredPacket) : DeferredPacket :=
  { dpp with arrival := state.arrivals }

def step (state : PrefetchRun) : PrefetchOp → Except Assertion PrefetchRun
  | .addToQueue dpp => do
      let prefetcher := state.prefetcher
      let pfq ← addToQueue prefetcher.queueSize prefetcher.pfq (state.arriving dpp)
      pure { prefetcher := { prefetcher with pfq }, arrivals := state.arrivals + 1 }
  | .getPacket => do
      let (_, prefetcher) ← state.prefetcher.getPacket
      pure { state with prefetcher }

/-- What a bounded priority queue does at one operation. -/
def IsPriorityStep (state : PrefetchRun) (op : PrefetchOp) (next : PrefetchRun) : Prop :=
  next.prefetcher.pfq.length ≤ next.prefetcher.queueSize ∧ Sorted next.prefetcher.pfq ∧
    match op with
    | .addToQueue dpp =>
        Admits state.prefetcher.queueSize state.prefetcher.pfq next.prefetcher.pfq
          (state.arriving dpp)
    | .getPacket => ∃ pkt, state.prefetcher.getPacket = .ok (pkt, next.prefetcher) ∧
        (state.prefetcher.pfq = [] → pkt = none ∧ next.prefetcher.pfq = []) ∧
        ∀ front rest, state.prefetcher.pfq = front :: rest →
          pkt = front.pkt ∧ next.prefetcher.pfq = rest ∧
          ∀ other ∈ rest, other.priority ≤ front.priority ∧
            (other.priority = front.priority → front.arrival < other.arrival)

/-- The insertion finds a place it gets right. -/
def placed (state : PrefetchRun) : PrefetchOp → Bool
  | .addToQueue dpp => placesRight state.prefetcher.queueSize state.prefetcher.pfq dpp
  | .getPacket => true

/-- The invariant of the runs whose insertions are all placed right. -/
structure Ordered (state : PrefetchRun) : Prop where
  size_pos : 1 ≤ state.prefetcher.queueSize
  bounded : state.prefetcher.pfq.length ≤ state.prefetcher.queueSize
  sorted : Sorted state.prefetcher.pfq
  arrived : ∀ entry ∈ state.prefetcher.pfq, entry.arrival < state.arrivals

variable {state next : PrefetchRun} {dpp : DeferredPacket}

theorem ordered_new {queueSize : Nat} (h : 1 ≤ queueSize) : (new queueSize).Ordered :=
  ⟨h, Nat.zero_le _, List.Pairwise.nil, by simp [new]⟩

theorem step_addToQueue (h : state.step (.addToQueue dpp) = .ok next) :
    ∃ pfq, addToQueue state.prefetcher.queueSize state.prefetcher.pfq (state.arriving dpp) =
        .ok pfq ∧
      next = { prefetcher := { state.prefetcher with pfq }, arrivals := state.arrivals + 1 } := by
  simp only [step, bind_eq_ok, pure_eq_ok] at h
  obtain ⟨pfq, hpfq, rfl⟩ := h
  exact ⟨pfq, hpfq, rfl⟩

theorem step_getPacket (h : state.step .getPacket = .ok next) :
    ∃ pkt, state.prefetcher.getPacket = .ok (pkt, next.prefetcher) ∧
      next.arrivals = state.arrivals := by
  simp only [step, bind_eq_ok, pure_eq_ok] at h
  obtain ⟨⟨pkt, prefetcher⟩, hget, rfl⟩ := h
  exact ⟨pkt, hget, rfl⟩

theorem getPacket_eq_ok {prefetcher next : Queued} {pkt : Option Packet}
    (h : prefetcher.getPacket = .ok (pkt, next)) : next.queueSize = prefetcher.queueSize ∧
      ((prefetcher.pfq = [] ∧ pkt = none ∧ next.pfq = []) ∨
        ∃ front rest, prefetcher.pfq = front :: rest ∧ pkt = front.pkt ∧ next.pfq = rest) := by
  simp only [getPacket, processMissingTranslations, ite_self] at h
  cases hpfq : prefetcher.pfq with
  | nil =>
      simp only [hpfq, pure_eq_ok, Prod.mk.injEq] at h
      obtain ⟨rfl, rfl⟩ := h
      exact ⟨rfl, .inl ⟨rfl, rfl, hpfq⟩⟩
  | cons front rest =>
      simp only [hpfq, bind_eq_ok, check_eq_ok, pure_eq_ok, Prod.mk.injEq] at h
      obtain ⟨-, -, rfl, rfl⟩ := h
      exact ⟨rfl, .inr ⟨front, rest, rfl, rfl, rfl⟩⟩

/-- On an ordered queue an insertion keeps the right entries, and their order
exactly when it finds a place it gets right. -/
theorem Ordered.addToQueue (h : state.Ordered)
    (hstep : state.step (.addToQueue dpp) = .ok next) :
    next.prefetcher.queueSize = state.prefetcher.queueSize ∧
      next.arrivals = state.arrivals + 1 ∧
      Admits state.prefetcher.queueSize state.prefetcher.pfq next.prefetcher.pfq
        (state.arriving dpp) ∧
      (Sorted next.prefetcher.pfq ↔ state.placed (.addToQueue dpp) = true) := by
  obtain ⟨pfq, hpfq, rfl⟩ := step_addToQueue hstep
  obtain ⟨hadd, hadmits⟩ := h.sorted.addToQueue h.size_pos (state.arriving dpp)
  rw [hadd, Except.ok.injEq] at hpfq
  subst hpfq
  have hkept := survivors_sublist state.prefetcher.queueSize state.prefetcher.pfq
  have hnew : ∀ entry ∈ survivors state.prefetcher.queueSize state.prefetcher.pfq,
      entry.arrival < (state.arriving dpp).arrival := by
    intro entry hentry
    exact h.arrived entry (hkept.subset hentry)
  exact ⟨rfl, rfl, hadmits, insertEntry_sorted_iff (List.Pairwise.sublist hkept h.sorted) hnew⟩

theorem Ordered.getPacket (h : state.Ordered) (hstep : state.step .getPacket = .ok next) :
    IsPriorityStep state .getPacket next ∧ next.Ordered := by
  obtain ⟨pkt, hget, harrivals⟩ := step_getPacket hstep
  have hsorted := h.sorted
  have hbounded := h.bounded
  have harrived := h.arrived
  obtain ⟨hsize, ⟨hempty, rfl, hnext⟩ | ⟨front, rest, hpfq, rfl, hnext⟩⟩ := getPacket_eq_ok hget
  · refine ⟨⟨by simp [hnext], by simp [hnext, Sorted], none, hget, ?_, ?_⟩, ?_⟩
    · exact fun _ => ⟨rfl, hnext⟩
    · simp [hempty]
    · exact ⟨hsize ▸ h.size_pos, by simp [hnext], by simp [hnext, Sorted], by simp [hnext]⟩
  · rw [hpfq] at hsorted hbounded harrived
    have hlength : next.prefetcher.pfq.length ≤ next.prefetcher.queueSize := by
      rw [hnext, hsize]
      exact (Nat.le_succ _).trans hbounded
    have htail : Sorted next.prefetcher.pfq := by
      rw [hnext]
      exact (List.pairwise_cons.mp hsorted).2
    refine ⟨⟨hlength, htail, front.pkt, hget, by simp [hpfq], ?_⟩, ?_⟩
    · intro front' rest' hsplit
      rw [hpfq, List.cons.injEq] at hsplit
      obtain ⟨rfl, rfl⟩ := hsplit
      refine ⟨rfl, hnext, ?_⟩
      intro other hother
      have hbefore := DeferredPacket.before_iff.mp ((List.pairwise_cons.mp hsorted).1 other hother)
      omega
    · refine ⟨hsize ▸ h.size_pos, hlength, htail, ?_⟩
      intro entry hentry
      rw [hnext] at hentry
      rw [harrivals]
      exact harrived entry (List.mem_cons_of_mem front hentry)

theorem Ordered.step {op : PrefetchOp} (h : state.Ordered) (hplaced : state.placed op = true)
    (hstep : state.step op = .ok next) : next.Ordered := by
  cases op with
  | getPacket => exact (h.getPacket hstep).2
  | addToQueue dpp =>
      obtain ⟨hsize, harrivals, hadmits, hsorted⟩ := h.addToQueue hstep
      refine ⟨hsize ▸ h.size_pos, ?_, hsorted.mpr hplaced, ?_⟩
      · rw [hsize]
        exact hadmits.length_le h.bounded
      · intro entry hentry
        rw [harrivals]
        obtain rfl | hentry := hadmits.mem hentry
        · exact Nat.lt_succ_self _
        · exact Nat.lt_succ_of_lt (h.arrived entry hentry)

theorem Ordered.isPriorityStep_iff {op : PrefetchOp} (h : state.Ordered)
    (hstep : state.step op = .ok next) :
    IsPriorityStep state op next ↔ state.placed op = true := by
  cases op with
  | getPacket => exact iff_of_true (h.getPacket hstep).1 rfl
  | addToQueue dpp =>
      obtain ⟨hsize, -, hadmits, hsorted⟩ := h.addToQueue hstep
      rw [IsPriorityStep, hsorted]
      constructor
      · exact fun hgood => hgood.2.1
      · exact fun hplaced => ⟨hsize ▸ hadmits.length_le h.bounded, hplaced, hadmits⟩

/-- Every queued prefetch has its packet, so none is missing when it is issued. -/
structure Supplied (state : PrefetchRun) : Prop where
  size_pos : 1 ≤ state.prefetcher.queueSize
  packets : ∀ entry ∈ state.prefetcher.pfq, entry.pkt.isSome = true

theorem Supplied.step {op : PrefetchOp} (h : state.Supplied) (hop : op.HasPacket) :
    ∃ next, state.step op = .ok next ∧ next.Supplied := by
  cases op with
  | addToQueue dpp =>
      obtain ⟨pfq, hadd, hmem⟩ :=
        addToQueue_total h.size_pos state.prefetcher.pfq (state.arriving dpp)
      rw [PrefetchRun.step, hadd]
      refine ⟨_, rfl, h.size_pos, ?_⟩
      intro entry hentry
      obtain rfl | hentry := hmem entry hentry
      · exact hop
      · exact h.packets entry hentry
  | getPacket =>
      have hpackets := h.packets
      simp only [PrefetchRun.step, Queued.getPacket, processMissingTranslations, ite_self]
      cases hpfq : state.prefetcher.pfq with
      | nil => exact ⟨_, rfl, h.size_pos, h.packets⟩
      | cons front rest =>
          rw [hpfq] at hpackets
          have hfront : front.pkt.isSome = true := hpackets front (by simp)
          simp only [hfront, check_true, ok_bind]
          exact ⟨_, rfl, h.size_pos, fun entry hentry => hpackets entry (by simp [hentry])⟩

/-- No sequence of insertions and issues fails; the queue behaves as a bounded
priority queue at every one of them exactly when all the insertions are at a
place the search gets right. -/
theorem priority_queue_iff_placed {queueSize : Nat} (hpos : 1 ≤ queueSize) {ops : List PrefetchOp}
    (hops : ∀ op ∈ ops, op.HasPacket) :
    (∃ final, Transition.run step (new queueSize) ops = .ok final) ∧
      (Transition.stepwise step IsPriorityStep (new queueSize) ops ↔
        Transition.meets step placed (new queueSize) ops = true) := by
  have hsupplied : (new queueSize).Supplied := ⟨hpos, by simp [new]⟩
  obtain ⟨final, hrun, -⟩ := Transition.run_total
    (fun state op (hop : op.HasPacket) (h : state.Supplied) => h.step hop) hops hsupplied
  refine ⟨⟨final, hrun⟩, ?_⟩
  exact Transition.stepwise_iff_meets
    (fun state op next _ hplaced (h : state.Ordered) hstep => h.step hplaced hstep)
    (fun state op next _ h hstep => h.isPriorityStep_iff hstep) hops hrun (ordered_new hpos)

/-- A prefetch of one line. -/
def linePrefetch (address : Addr) (priority : Int) : DeferredPacket :=
  { pfInfo := { address, secure := false },
    pkt := some (Packet.ofRequest 0 (Request.physical address 64 0 0) .hardPFReq),
    priority, arrival := 0 }

/-- A third priority below the first two and a fourth above them, into a queue
of three. -/
def placedOps : List PrefetchOp :=
  [.addToQueue (linePrefetch 0x000 5), .addToQueue (linePrefetch 0x040 5),
    .addToQueue (linePrefetch 0x080 1), .addToQueue (linePrefetch 0x0c0 7), .getPacket]

theorem priority_queue_iff_placed_full :
    (∃ final, Transition.run step (new 3) placedOps = .ok final) ∧
      Transition.stepwise step IsPriorityStep (new 3) placedOps := by
  have hops : ∀ op ∈ placedOps, op.HasPacket := by
    simp [placedOps, PrefetchOp.HasPacket, linePrefetch]
  have hspec := priority_queue_iff_placed (show 1 ≤ 3 by decide) hops
  exact ⟨hspec.1, hspec.2.mpr (by decide +kernel)⟩

/-- A priority between the two last ones of three is put one place too far to
the front. -/
theorem interior_priority_overtakes :
    ∃ reached next, Transition.run step (new 4)
        [.addToQueue (linePrefetch 0x000 5), .addToQueue (linePrefetch 0x040 4),
          .addToQueue (linePrefetch 0x080 1)] = .ok reached ∧
      reached.step (.addToQueue (linePrefetch 0x0c0 3)) = .ok next ∧
      next.prefetcher.pfq.map DeferredPacket.priority = [5, 3, 4, 1] ∧
      ¬ IsPriorityStep reached (.addToQueue (linePrefetch 0x0c0 3)) next := by
  obtain ⟨reached, hrun, next, hstep, hpriorities⟩ :
      ∃ reached, Transition.run step (new 4)
          [.addToQueue (linePrefetch 0x000 5), .addToQueue (linePrefetch 0x040 4),
            .addToQueue (linePrefetch 0x080 1)] = .ok reached ∧
        ∃ next, reached.step (.addToQueue (linePrefetch 0x0c0 3)) = .ok next ∧
          next.prefetcher.pfq.map DeferredPacket.priority = [5, 3, 4, 1] :=
    ⟨_, rfl, _, rfl, rfl⟩
  refine ⟨reached, next, hrun, hstep, hpriorities, ?_⟩
  rintro ⟨-, hsorted, -⟩
  have hpairs : (next.prefetcher.pfq.map DeferredPacket.priority).Pairwise (· ≥ ·) := by
    apply List.Pairwise.map DeferredPacket.priority _ hsorted
    intro first second hbefore
    have hcases := DeferredPacket.before_iff.mp hbefore
    omega
  rw [hpriorities] at hpairs
  exact absurd hpairs (by decide)

end PrefetchRun

end KuiperCache
