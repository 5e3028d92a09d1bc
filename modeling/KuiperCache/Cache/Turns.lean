import KuiperCache.Cache.Lines

/-! The order numbers.  Every target gets the next number of one counter, so the
numbers say in which order the packets came in.  The ready list is in the order of
these numbers: misses are sent first come, first served. -/
namespace KuiperCache.Turns

open Checked Cache MissTracking

variable {config : CacheConfig}

/-- What the order numbers say, when no packet waits whose identity is `bound` or
later. -/
structure InTurn (cache : Cache config) (bound : Nat) : Prop where
  below : ∀ index ∈ cache.mshrQueue.allocatedList, ∀ target ∈ targetsOf cache index,
    target.order < cache.order ∧ target.pkt.ptr < bound
  first : ∀ index ∈ cache.mshrQueue.allocatedList,
    (targetsOf cache index).head?.map Target.order = some (cache.mshrQueue.entries index).order
  line : ∀ index ∈ cache.mshrQueue.allocatedList,
    (targetsOf cache index).Pairwise fun target later => target.order < later.order
  apart : ∀ index ∈ cache.mshrQueue.allocatedList, ∀ other ∈ cache.mshrQueue.allocatedList,
    ∀ target ∈ targetsOf cache index, ∀ later ∈ targetsOf cache other,
    target.order = later.order → index = other
  arrival : ∀ index ∈ cache.mshrQueue.allocatedList, ∀ other ∈ cache.mshrQueue.allocatedList,
    ∀ target ∈ targetsOf cache index, ∀ later ∈ targetsOf cache other,
    target.order < later.order → target.pkt.ptr < later.pkt.ptr
  ready : cache.mshrQueue.readyList.Pairwise fun index later =>
    (cache.mshrQueue.entries index).order < (cache.mshrQueue.entries later).order

theorem inTurn_new (config : CacheConfig) (writeAllocator : Option WriteAllocator) :
    InTurn (Cache.new config writeAllocator) 0 := by
  refine ⟨?_, ?_, ?_, ?_, ?_, List.Pairwise.nil⟩
  all_goals
    intro index hindex
    cases hindex

theorem InTurn.mono {cache : Cache config} {bound bound' : Nat} (h : InTurn cache bound)
    (hle : bound ≤ bound') : InTurn cache bound' :=
  { h with below := fun index hindex target htarget =>
      ⟨(h.below index hindex target htarget).1,
        (h.below index hindex target htarget).2.trans_le hle⟩ }

theorem InTurn.shrunk {before after : Cache config} {bound : Nat} (h : InTurn before bound)
    (hafter : Sound after) (hshrunk : Shrunk before after) : InTurn after bound := by
  refine ⟨?_, ?_, ?_, ?_, ?_, ?_⟩
  · intro index hindex target htarget
    obtain ⟨hold, htargets, -⟩ := hshrunk.stays index hindex
    obtain ⟨horder, hptr⟩ := h.below index hold target (htargets ▸ htarget)
    exact ⟨horder.trans_le hshrunk.order, hptr⟩
  · intro index hindex
    obtain ⟨hold, htargets, horder⟩ := hshrunk.stays index hindex
    rw [htargets, horder]
    exact h.first index hold
  · intro index hindex
    obtain ⟨hold, htargets, -⟩ := hshrunk.stays index hindex
    rw [htargets]
    exact h.line index hold
  · intro index hindex other hother target htarget later hlater
    obtain ⟨hold, htargets, -⟩ := hshrunk.stays index hindex
    obtain ⟨hold', htargets', -⟩ := hshrunk.stays other hother
    exact h.apart index hold other hold' target (htargets ▸ htarget) later (htargets' ▸ hlater)
  · intro index hindex other hother target htarget later hlater
    obtain ⟨hold, htargets, -⟩ := hshrunk.stays index hindex
    obtain ⟨hold', htargets', -⟩ := hshrunk.stays other hother
    exact h.arrival index hold other hold' target (htargets ▸ htarget) later (htargets' ▸ hlater)
  · refine (h.ready.sublist hshrunk.ready).imp_of_mem ?_
    intro index later hindex hlater hlt
    rw [(hshrunk.stays index ((hafter.represents.ready.mem index).mp hindex).1).2.2,
      (hshrunk.stays later ((hafter.represents.ready.mem later).mp hlater).1).2.2]
    exact hlt

/-- The number of an entry is below the counter. -/
theorem InTurn.entry_lt {cache : Cache config} {bound : Nat} (h : InTurn cache bound)
    {index : Fin config.mshrs} (hindex : index ∈ cache.mshrQueue.allocatedList) :
    (cache.mshrQueue.entries index).order < cache.order := by
  obtain ⟨first, hhead, horder⟩ := Option.map_eq_some_iff.mp (h.first index hindex)
  rw [← horder]
  exact (h.below index hindex first (List.mem_of_head? hhead)).1

theorem InTurn.came {before after : Cache config} {bound : Nat} (h : InTurn before bound)
    (hsound : Sound before) {index : Fin config.mshrs} {mshr : Mshr} {target : Target}
    (hbound : bound ≤ target.pkt.ptr) (hcame : Came before after index mshr target) :
    InTurn after (target.pkt.ptr + 1) := by
  have hself : targetsOf after index = targetsOf before index ++ [target] := by
    rw [targetsOf, hcame.entries, Function.update_self, hcame.waiting]
  have hothers : ∀ other, other ≠ index →
      after.mshrQueue.entries other = before.mshrQueue.entries other := by
    intro other hne
    rw [hcame.entries, Function.update_of_ne hne]
  have hstays : ∀ other ∈ after.mshrQueue.allocatedList, other ≠ index →
      other ∈ before.mshrQueue.allocatedList ∧ targetsOf after other = targetsOf before other := by
    intro other hother hne
    refine ⟨((hcame.listed other).mp hother).resolve_right hne, ?_⟩
    rw [targetsOf, targetsOf, hothers other hne]
  have hnumber := hcame.numbered
  refine ⟨?_, ?_, ?_, ?_, ?_, ?_⟩
  · intro other hother waiting hwaiting
    obtain ⟨hold, hmem⟩ | ⟨-, rfl⟩ := hcame.cases hother hwaiting
    · obtain ⟨horder, hptr⟩ := h.below other hold waiting hmem
      exact ⟨horder.trans hcame.order, by omega⟩
    · exact ⟨hnumber ▸ hcame.order, Nat.lt_succ_self _⟩
  · intro other hother
    by_cases hne : other = index
    · subst hne
      rw [hself, hcame.entries, Function.update_self]
      obtain ⟨hold, -, -, horder⟩ | ⟨-, hnone, -, -, horder⟩ := hcame.place
      · have hfirst := h.first other hold
        obtain ⟨first, hhead, -⟩ := Option.map_eq_some_iff.mp hfirst
        rw [horder, ← hfirst, List.head?_append, hhead]
        rfl
      · rw [hnone, horder]
        rfl
    · obtain ⟨hold, htargets⟩ := hstays other hother hne
      rw [htargets, hothers other hne]
      exact h.first other hold
  · intro other hother
    by_cases hne : other = index
    · subst hne
      rw [hself, List.pairwise_append]
      refine ⟨?_, List.pairwise_singleton _ _, ?_⟩
      · obtain ⟨hold, -⟩ | ⟨-, hnone, -⟩ := hcame.place
        · exact h.line other hold
        · rw [hnone]
          exact List.Pairwise.nil
      · intro waiting hwaiting last hlast
        rw [List.mem_singleton] at hlast
        subst hlast
        obtain ⟨hold, -⟩ | ⟨-, hnone, -⟩ := hcame.place
        · exact hnumber ▸ (h.below other hold waiting hwaiting).1
        · rw [hnone] at hwaiting
          cases hwaiting
    · obtain ⟨hold, htargets⟩ := hstays other hother hne
      rw [htargets]
      exact h.line other hold
  · intro first hfirst second hsecond waiting hwaiting later hlater heq
    obtain ⟨hold, hmem⟩ | ⟨rfl, rfl⟩ := hcame.cases hfirst hwaiting
    · obtain ⟨hold', hmem'⟩ | ⟨rfl, rfl⟩ := hcame.cases hsecond hlater
      · exact h.apart first hold second hold' waiting hmem later hmem' heq
      · have hlt := (h.below first hold waiting hmem).1
        omega
    · obtain ⟨hold', hmem'⟩ | ⟨rfl, -⟩ := hcame.cases hsecond hlater
      · have hlt := (h.below second hold' later hmem').1
        omega
      · rfl
  · intro first hfirst second hsecond waiting hwaiting later hlater hlt
    obtain ⟨hold, hmem⟩ | ⟨-, rfl⟩ := hcame.cases hfirst hwaiting
    · obtain ⟨hold', hmem'⟩ | ⟨-, rfl⟩ := hcame.cases hsecond hlater
      · exact h.arrival first hold second hold' waiting hmem later hmem' hlt
      · exact (h.below first hold waiting hmem).2.trans_le hbound
    · obtain ⟨hold', hmem'⟩ | ⟨-, rfl⟩ := hcame.cases hsecond hlater
      · have hlt' := (h.below second hold' later hmem').1
        omega
      · exact absurd hlt (lt_irrefl _)
  · have hready : ∀ other ∈ before.mshrQueue.readyList,
        other ∈ before.mshrQueue.allocatedList :=
      fun other hother => ((hsound.represents.ready.mem other).mp hother).1
    obtain ⟨-, -, hlist, horder⟩ | ⟨hfresh, -, -, hlist, horder⟩ := hcame.place
    · have hsame : ∀ other, (after.mshrQueue.entries other).order =
          (before.mshrQueue.entries other).order := by
        intro other
        by_cases hne : other = index
        · rw [hne, hcame.entries, Function.update_self, horder]
        · rw [hothers other hne]
      rw [hlist]
      simpa only [hsame] using h.ready
    · rw [hlist, List.pairwise_append]
      refine ⟨h.ready.imp_of_mem ?_, List.pairwise_singleton _ _, ?_⟩
      · intro first second hfirst hsecond hlt
        rw [hothers first fun heq => hfresh (heq ▸ hready first hfirst),
          hothers second fun heq => hfresh (heq ▸ hready second hsecond)]
        exact hlt
      · intro first hfirst last hlast
        rw [List.mem_singleton] at hlast
        subst hlast
        rw [hothers first fun heq => hfresh (heq ▸ hready first hfirst), hcame.entries,
          Function.update_self, horder, hnumber]
        exact h.entry_lt (hready first hfirst)

/-- The order is kept, whatever packet comes in. -/
theorem inTurn_lines : Lines (fun _ _ => True) (@InTurn config) where
  mono := InTurn.mono
  shrunk := InTurn.shrunk
  came := fun h hsound hbound _ hcame => h.came hsound hbound hcame

/-- The packets handed over have identities in the order in which they came. -/
structure Arrived (system : System config) : Prop where
  turn : InTurn system.cache system.cache.nextPtr
  accepted : (system.accepted.map Packet.ptr).Pairwise (· < ·)
  below : ∀ pkt ∈ system.accepted, pkt.ptr < system.cache.nextPtr

theorem arrived_new (config : CacheConfig) (writeAllocator : Option WriteAllocator) :
    Arrived (System.new config writeAllocator) :=
  ⟨inTurn_new config writeAllocator, List.Pairwise.nil, fun pkt hpkt => by cases hpkt⟩

theorem step_arrived {system next : System config} {label : Label config} (h : Arrived system)
    (hsound : Sound system.cache) (hstep : system.step label = .ok next) : Arrived next := by
  have hturn := inTurn_lines.step h.turn hsound (fun _ _ _ _ _ _ => trivial)
    (fun _ _ _ => trivial) hstep
  have hbelow : ∀ pkt ∈ system.accepted, pkt.ptr < next.cache.nextPtr :=
    fun pkt hpkt => (h.below pkt hpkt).trans_le (step_newer hsound hstep)
  cases label with
  | recvTimingReq pkt random =>
      obtain ⟨cache, hreq, rfl⟩ := System.step_recvTimingReq hstep
      have hempty := (hsound.touched (newPtr_kept system.cache).toTouched).writeBuffer
      have hlt : system.cache.nextPtr < cache.nextPtr :=
        newer_moves.recvTimingReq newer_counts newer_adapts hempty.1 (fun _ => newer_dirties) hreq
      refine ⟨hturn, ?_, ?_⟩
      · rw [List.map_append, List.pairwise_append]
        refine ⟨h.accepted, List.pairwise_singleton _ _, ?_⟩
        intro ptr hptr last hlast
        obtain ⟨old, hold, rfl⟩ := List.mem_map.mp hptr
        rw [List.map_singleton, List.mem_singleton] at hlast
        exact hlast ▸ h.below old hold
      · intro last hlast
        rw [List.mem_append, List.mem_singleton] at hlast
        obtain hold | rfl := hlast
        · exact hbelow last hold
        · exact hlt
  | getNextQueueEntry prefetch =>
      obtain ⟨entry, cache, -, rfl⟩ := System.step_getNextQueueEntry hstep
      exact ⟨hturn, h.accepted, hbelow⟩
  | sendMSHRQueuePacket index reply random =>
      obtain ⟨waiting, cache, flight, -, rfl⟩ := System.step_sendMSHRQueuePacket hstep
      exact ⟨hturn, h.accepted, hbelow⟩
  | handleTimingRes pkt random =>
      obtain ⟨cache, -, rfl⟩ := System.step_handleTimingRes hstep
      exact ⟨hturn, h.accepted, hbelow⟩
  | recvTimingResp pkt random =>
      obtain ⟨cache, -, rfl⟩ := System.step_recvTimingResp hstep
      exact ⟨hturn, h.accepted, hbelow⟩

/-- The number of an entry is the least of its line. -/
theorem InTurn.entry_le {cache : Cache config} {bound : Nat} (h : InTurn cache bound)
    {index : Fin config.mshrs} (hindex : index ∈ cache.mshrQueue.allocatedList) {target : Target}
    (htarget : target ∈ targetsOf cache index) :
    (cache.mshrQueue.entries index).order ≤ target.order := by
  have hfirst := h.first index hindex
  have hline := h.line index hindex
  cases hlist : targetsOf cache index with
  | nil =>
      rw [hlist] at htarget
      cases htarget
  | cons first rest =>
      rw [hlist] at hfirst hline htarget
      rw [List.head?_cons, Option.map_some, Option.some.injEq] at hfirst
      rw [← hfirst]
      obtain rfl | hlater := List.mem_cons.mp htarget
      · exact le_rfl
      · exact ((List.pairwise_cons.mp hline).1 target hlater).le

/-- After any calls with any packets: packets have got their identities in the order
in which they came; the targets of an entry stand in the order of their numbers, the
numbers of all waiting targets are distinct and in the order of the identities; and
the entry chosen to be sent has a target that came before every target of every other
entry that can be sent. -/
theorem misses_are_sent_in_turn {writeAllocator : Option WriteAllocator}
    {labels : List (Label config)} {system : System config}
    (hrun : Transition.run System.step (System.new config writeAllocator) labels = .ok system) :
    (system.accepted.map Packet.ptr).Pairwise (· < ·) ∧
    (∀ index ∈ system.cache.mshrQueue.allocatedList,
      (targetsOf system.cache index).Pairwise fun target later => target.order < later.order) ∧
    (∀ index ∈ system.cache.mshrQueue.allocatedList,
      ∀ other ∈ system.cache.mshrQueue.allocatedList,
      ∀ target ∈ targetsOf system.cache index, ∀ later ∈ targetsOf system.cache other,
      (target.order = later.order → index = other) ∧
        (target.order < later.order → target.pkt.ptr < later.pkt.ptr)) ∧
    ∀ prefetch index next,
      system.cache.getNextQueueEntry prefetch = .ok (some (.miss index), next) →
      index ∈ system.cache.mshrQueue.readyList →
      ∃ first ∈ targetsOf system.cache index,
        ∀ other ∈ system.cache.mshrQueue.readyList, other ≠ index →
        ∀ target ∈ targetsOf system.cache other, first.pkt.ptr < target.pkt.ptr := by
  have hpreserved : ∀ (system : System config) (label : Label config) (next : System config),
      True → Sound system.cache ∧ Arrived system → system.step label = .ok next →
      Sound next.cache ∧ Arrived next := by
    intro system label next _ hinv hstep
    exact ⟨System.step_sound system label next hinv.1 hstep, step_arrived hinv.2 hinv.1 hstep⟩
  obtain ⟨hsound, harrived⟩ := Transition.run_invariant (fun _ => True) hpreserved
    (fun _ _ => trivial) hrun ⟨sound_new config writeAllocator, arrived_new config writeAllocator⟩
  have hturn := harrived.turn
  refine ⟨harrived.accepted, hturn.line, ?_, ?_⟩
  · intro index hindex other hother target htarget later hlater
    exact ⟨hturn.apart index hindex other hother target htarget later hlater,
      hturn.arrival index hindex other hother target htarget later hlater⟩
  · intro prefetch index next hnext hready
    have hlisted : ∀ other ∈ system.cache.mshrQueue.readyList,
        other ∈ system.cache.mshrQueue.allocatedList :=
      fun other hother => ((hsound.represents.ready.mem other).mp hother).1
    have hhead : system.cache.mshrQueue.readyList.head? = some index := by
      obtain ⟨-, hentry⟩ | ⟨pkt, taken, -, -, hstarted⟩ :=
        getNextQueueEntry_parts hsound.writeBuffer.2 hnext
      · obtain ⟨head, hhead, heq⟩ := Option.map_eq_some_iff.mp hentry.symm
        cases heq
        rwa [L0.getNext_eq_head hsound] at hhead
      · have hnone := hstarted.idle
        rw [L0.getNext_eq_head hsound, List.head?_eq_none_iff] at hnone
        rw [hnone] at hready
        cases hready
    obtain ⟨rest, hlist⟩ := List.head?_eq_some_iff.mp hhead
    have hindex := hlisted index hready
    obtain ⟨first, hfirst, horder⟩ := Option.map_eq_some_iff.mp (hturn.first index hindex)
    have hmem := List.mem_of_head? hfirst
    refine ⟨first, hmem, ?_⟩
    intro other hother hne target htarget
    have hlater : other ∈ rest := by
      rw [hlist, List.mem_cons] at hother
      exact hother.resolve_left hne
    have hsorted := hturn.ready
    rw [hlist, List.pairwise_cons] at hsorted
    have hother := hlisted other hother
    apply hturn.arrival index hindex other hother first hmem target htarget
    rw [horder]
    exact (hsorted.1 other hlater).trans_le (hturn.entry_le hother htarget)

/-- Two lines are asked for, and then the first of them again. -/
def threeReads : List (Label prefetchingParams) :=
  let read addr := Packet.ofRequest 0 (Request.physical addr 4 0 0) .readReq
  let way := prefetchingParams.geometry.firstWay
  [.recvTimingReq (read 0x24) way, .recvTimingReq (read 0x10) way, .recvTimingReq (read 0x28) way]

theorem misses_are_sent_in_turn_reads :
    ∃ system next, Transition.run System.step (System.new prefetchingParams none) threeReads =
        .ok system ∧
      system.cache.getNextQueueEntry none = .ok (some (.miss ⟨0, Nat.succ_pos 3⟩), next) ∧
      ∃ first ∈ targetsOf system.cache ⟨0, Nat.succ_pos 3⟩,
        ∀ target ∈ targetsOf system.cache ⟨1, Nat.one_lt_succ_succ 2⟩,
          first.pkt.ptr < target.pkt.ptr := by
  obtain ⟨system, hrun, hseen⟩ := exists_ok_of_observed
    (show ((Transition.run System.step (System.new prefetchingParams none)
      threeReads).toOption.map fun system =>
        ((system.cache.getNextQueueEntry none).toOption.map Prod.fst,
          system.cache.mshrQueue.readyList)) =
      some (some (some (.miss ⟨0, Nat.succ_pos 3⟩)),
        [⟨0, Nat.succ_pos 3⟩, ⟨1, Nat.one_lt_succ_succ 2⟩]) by decide +kernel)
  obtain ⟨hchosen, hready⟩ := Prod.mk.inj hseen
  obtain ⟨⟨entry, next⟩, hnext, hentry⟩ := exists_ok_of_observed hchosen
  cases hentry
  obtain ⟨-, -, -, hturn⟩ := misses_are_sent_in_turn hrun
  obtain ⟨first, hfirst, hearlier⟩ := hturn none _ next hnext (by rw [hready]; simp)
  exact ⟨system, next, hrun, hnext, first, hfirst,
    hearlier _ (by rw [hready]; simp) (by decide)⟩

end KuiperCache.Turns
