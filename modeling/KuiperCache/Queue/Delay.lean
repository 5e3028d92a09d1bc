import Mathlib.Data.List.TakeWhile
import KuiperCache.Library.StableOrder
import KuiperCache.Queue.Representation

/-! Delaying a ready MSHR.  The entry is meant to move behind those that are
ready before it; the search for its new place starts with the entry itself and
always ends there. -/
namespace KuiperCache.MshrQueue

open Checked StableOrder

variable {numEntries : Nat} {queue next : MshrQueue numEntries} {index : Fin numEntries}
  {now delayTicks : Tick}

/-- The entries in front of one in the ready list. -/
def ahead (queue : MshrQueue numEntries) (index : Fin numEntries) : List (Fin numEntries) :=
  queue.readyList.takeWhile (· != index)

/-- The entries behind it. -/
def behind (queue : MshrQueue numEntries) (index : Fin numEntries) : List (Fin numEntries) :=
  (queue.readyList.dropWhile (· != index)).tail

theorem dropWhile_eq_cons (h : index ∈ queue.readyList) :
    queue.readyList.dropWhile (· != index) = index :: queue.behind index := by
  have hne : queue.readyList.dropWhile (· != index) ≠ [] := by
    intro hnil
    simpa using List.dropWhile_eq_nil_iff.mp hnil index h
  obtain ⟨head, tail, hdrop⟩ := List.exists_cons_of_ne_nil hne
  have hhead := List.head?_dropWhile_not (· != index) queue.readyList
  rw [hdrop, List.head?_cons] at hhead
  have heq : head = index := by simpa using hhead
  rw [behind, hdrop, heq, List.tail_cons]

theorem readyList_split (h : index ∈ queue.readyList) :
    queue.readyList = queue.ahead index ++ index :: queue.behind index := by
  rw [← dropWhile_eq_cons h]
  exact (List.takeWhile_append_dropWhile).symm

theorem delay_total (hready : (queue.entries index).readyTime ≤ now) :
    ∃ next, queue.delay index now delayTicks = .ok next := by
  simp [delay, Mshr.delay, hready]

/-- The search ends at the entry itself, and the list does not change. -/
theorem delay_spec (hmem : index ∈ queue.readyList)
    (h : queue.delay index now delayTicks = .ok next) :
    next.readyList = queue.readyList ∧
      next.entries = Function.update queue.entries index
        { queue.entries index with readyTime := (now + delayTicks) % 2 ^ 64 } := by
  simp only [delay, Mshr.delay, bind_eq_ok, check_eq_ok, exists_const, pure_eq_ok] at h
  obtain ⟨mshr, ⟨-, rfl⟩, rfl⟩ := h
  refine ⟨?_, rfl⟩
  change SlotPool.spliceBefore queue.readyList index _ = queue.readyList
  rw [dropWhile_eq_cons hmem, List.find?_cons_of_pos, SlotPool.spliceBefore, if_pos rfl]
  simp [Queue.setEntry]

/-- What a delay should do to the ready list: the same entries, in order of
their ready times, the others in the order they had. -/
structure Reordered (queue next : MshrQueue numEntries) (index : Fin numEntries) : Prop where
  entries : next.readyList.Perm queue.readyList
  sorted : next.readyList.Pairwise fun first second =>
    (next.entries first).readyTime ≤ (next.entries second).readyTime
  others : next.readyList.filter (· != index) = queue.readyList.filter (· != index)

/-- The new ready time fits the place the entry has. -/
def staysInPlace (queue : MshrQueue numEntries) (index : Fin numEntries) (readyTime : Tick) :
    Bool :=
  ((queue.ahead index).getLast?.all fun last => (queue.entries last).readyTime ≤ readyTime) &&
    (queue.behind index).head?.all fun head => readyTime ≤ (queue.entries head).readyTime

theorem staysInPlace_iff {readyTime : Tick} : queue.staysInPlace index readyTime = true ↔
    (∀ last ∈ (queue.ahead index).getLast?, (queue.entries last).readyTime ≤ readyTime) ∧
      ∀ head ∈ (queue.behind index).head?, readyTime ≤ (queue.entries head).readyTime := by
  simp only [staysInPlace, Bool.and_eq_true, Option.all_eq_true, decide_eq_true_eq,
    Option.mem_def]

theorem not_mem_around (hnodup : queue.readyList.Nodup) (hmem : index ∈ queue.readyList) :
    index ∉ queue.ahead index ++ queue.behind index := by
  rw [readyList_split hmem] at hnodup
  exact (List.nodup_middle.mp hnodup).notMem

/-- With the list unchanged, only the two neighbours of the entry matter. -/
theorem sorted_iff_staysInPlace {readyTime : Tick} (hnodup : queue.readyList.Nodup)
    (hsorted : queue.readyList.Pairwise fun first second =>
      (queue.entries first).readyTime ≤ (queue.entries second).readyTime)
    (hmem : index ∈ queue.readyList) (hlist : next.readyList = queue.readyList)
    (hentries : next.entries =
      Function.update queue.entries index { queue.entries index with readyTime }) :
    (next.readyList.Pairwise fun first second =>
      (next.entries first).readyTime ≤ (next.entries second).readyTime) ↔
      queue.staysInPlace index readyTime = true := by
  have hsplit := readyList_split hmem
  have hother : ∀ other ∈ queue.ahead index ++ queue.behind index,
      (next.entries other).readyTime = (queue.entries other).readyTime := by
    intro other hother
    have hne : other ≠ index := by
      rintro rfl
      exact not_mem_around hnodup hmem hother
    rw [hentries, Function.update_of_ne hne]
  have hself : (next.entries index).readyTime = readyTime := by
    rw [hentries, Function.update_self]
  have haround : (queue.ahead index ++ queue.behind index).Pairwise fun first second =>
      (next.entries first).readyTime ≤ (next.entries second).readyTime := by
    have hsublist : (queue.ahead index ++ queue.behind index).Sublist queue.readyList := by
      conv => rhs; rw [hsplit]
      exact (List.Sublist.refl _).append (List.sublist_cons_self index _)
    apply List.Pairwise.imp_of_mem _ (hsorted.sublist hsublist)
    intro first second hfirst hsecond hle
    rwa [hother first hfirst, hother second hsecond]
  rw [hlist, hsplit, pairwise_le_middle_iff haround, staysInPlace_iff, hself]
  refine and_congr ?_ ?_
  · refine forall₂_congr fun last hlast => ?_
    rw [hother last (List.mem_append_left _ (List.mem_of_getLast? hlast))]
  · refine forall₂_congr fun head hhead => ?_
    rw [hother head (List.mem_append_right _ (List.mem_of_head? hhead))]

/-- The list is as it should be after a delay exactly when the entry did not
have to move. -/
theorem delay_reorders_iff_stays (hnodup : queue.readyList.Nodup)
    (hsorted : queue.readyList.Pairwise fun first second =>
      (queue.entries first).readyTime ≤ (queue.entries second).readyTime)
    (hmem : index ∈ queue.readyList) (hready : (queue.entries index).readyTime ≤ now) :
    ∃ next, queue.delay index now delayTicks = .ok next ∧
      (Reordered queue next index ↔
        queue.staysInPlace index ((now + delayTicks) % 2 ^ 64) = true) := by
  obtain ⟨next, hdelay⟩ := delay_total hready
  obtain ⟨hlist, hentries⟩ := delay_spec hmem hdelay
  have hiff := sorted_iff_staysInPlace hnodup hsorted hmem hlist hentries
  refine ⟨next, hdelay, ?_, ?_⟩
  · intro hreordered
    exact hiff.mp hreordered.sorted
  · intro hstays
    exact ⟨by rw [hlist], hiff.mpr hstays, by rw [hlist]⟩

/-- Two reads of different blocks, ready at ticks 5 and 7. -/
def twoReads : Except Assertion (MshrQueue 2) :=
  let packet ptr addr := Packet.ofRequest ptr (Request.physical addr 4 0 0) .readReq
  Transition.run perform (new 2 0 1)
    [.allocate 0x40 4 (packet 0 0x40) 5 0 true, .allocate 0x44 4 (packet 1 0x44) 7 1 true]

/-- A delay of two ticks at tick 5 leaves the first read in its place. -/
theorem delay_reorders_iff_stays_twoReads :
    ∃ queue next, twoReads = .ok queue ∧ queue.delay 0 5 2 = .ok next ∧
      Reordered queue next 0 := by
  obtain ⟨queue, hqueue, hseen⟩ := exists_ok_of_observed
    (show (twoReads.toOption.map fun queue =>
      decide (queue.readyList.Nodup ∧ (queue.readyList.Pairwise fun first second =>
        (queue.entries first).readyTime ≤ (queue.entries second).readyTime) ∧
        0 ∈ queue.readyList ∧ (queue.entries 0).readyTime ≤ 5 ∧
        queue.staysInPlace 0 7 = true)) = some true by decide +kernel)
  obtain ⟨hnodup, hsorted, hmem, hready, hstays⟩ := of_decide_eq_true hseen
  obtain ⟨next, hdelay, hiff⟩ := delay_reorders_iff_stays hnodup hsorted hmem hready
  exact ⟨queue, next, hqueue, hdelay, hiff.mpr hstays⟩

/-- The ready list with the ready times. -/
def listed (queue : MshrQueue numEntries) : List (Fin numEntries × Tick) :=
  queue.readyList.map fun index => (index, (queue.entries index).readyTime)

/-- A delay of three ticks should have moved it behind the second. -/
theorem delayed_read_stays_in_front :
    ∃ queue next, twoReads = .ok queue ∧ listed queue = [(0, 5), (1, 7)] ∧
      queue.delay 0 5 3 = .ok next ∧ listed next = [(0, 8), (1, 7)] ∧
      ¬ Reordered queue next 0 := by
  obtain ⟨queue, hqueue, hseen⟩ := exists_ok_of_observed
    (show (twoReads.toOption.map fun queue =>
      (listed queue, (queue.delay 0 5 3).toOption.map listed)) =
        some ([(0, 5), (1, 7)], some [(0, 8), (1, 7)]) by decide +kernel)
  obtain ⟨hbefore, hdelayed⟩ := Prod.mk.inj hseen
  obtain ⟨next, hdelay, hafter⟩ := exists_ok_of_observed hdelayed
  refine ⟨queue, next, hqueue, hbefore, hdelay, hafter, ?_⟩
  intro hreordered
  have hsorted : (listed next).Pairwise fun first second => first.2 ≤ second.2 :=
    List.pairwise_map.mpr hreordered.sorted
  rw [hafter] at hsorted
  exact absurd hsorted (by decide)

end KuiperCache.MshrQueue
