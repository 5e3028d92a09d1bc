import KuiperCache.Cache.RequestQueue

/-! The two promises of the request queue.  It should wait for a retry only after
a refusal, and it should not fall asleep over an entry that is ready.  A request
that succeeds is reported as refused, which breaks the first; one entry is sent
for each wake-up, and notifications are lost while the thread runs, which breaks
the second. -/
namespace KuiperCache.L0

open Checked Cache

variable {config : CacheConfig}

/-- The queue thread is woken only while there is nothing to send. -/
def nothingToSend (l0 : L0 config) : Event config → Bool
  | .port .. => true
  | .kernel .. => l0.thread != .runnable || l0.cache.mshrQueue.readyList.isEmpty

theorem step_waitingOnRetry (l0 : L0 config) (event : Event config) (next : L0 config)
    (h : Steady l0) (hretry : (!l0.waitingOnRetry) = true) (hstep : l0.step event = .ok next) :
    (!next.waitingOnRetry) = true ↔ nothingToSend l0 event = true := by
  cases event with
  | port pkt random =>
      rw [(reqMonitor_cases h hstep).2.1]
      simp only [nothingToSend, hretry]
  | kernel data random =>
      obtain ⟨-, -, hcases⟩ := pktQueueProcess_cases h hstep
      by_cases hthread : l0.thread = .runnable
      · rw [if_pos hthread] at hcases
        rw [hcases.1]
        simp [nothingToSend, hthread]
      · rw [if_neg hthread] at hcases
        rw [hcases.1, hretry]
        simp [nothingToSend, hthread]

/-- Memory refuses nothing, so the queue should never wait for a retry.  That is
so, in every state of a run, exactly when no wake-up finds an entry to send. -/
theorem never_waiting_iff_nothing_to_send {events : List (Event config)} {final : L0 config}
    (hrun : Transition.run step (new config) events = .ok final) :
    Transition.always step (fun l0 => !l0.waitingOnRetry) (new config) events = true ↔
      Transition.meets step nothingToSend (new config) events = true :=
  Transition.always_iff_meets (fun l0 event next _ => step_steady l0 event next)
    step_waitingOnRetry hrun (steady_new config) rfl

/-- A port delivers a read of four bytes of the given line. -/
def readsLine (line : Nat) : Event simL0Params :=
  .port (Packet.ofRequest 0 (Request.physical (BitVec.ofNat 64 (512 * line)) 4 0 0) .readReq)
    simL0Params.geometry.firstWay

/-- The queue thread gets the processor; memory would answer with zeros. -/
def queueRuns : Event simL0Params :=
  .kernel (List.replicate 512 0) simL0Params.geometry.firstWay

/-- The second miss wakes a thread that waits for a retry, and its assertion
fails, although memory answered the first miss. -/
theorem second_miss_fails_processSendEvent :
    ∃ l0, Transition.run step (new simL0Params)
        [queueRuns, readsLine 1, queueRuns, readsLine 2] = .ok l0 ∧
      l0.cache.responses.length = 1 ∧ l0.thread = .runnable ∧ l0.waitingOnRetry = true ∧
      l0.step queueRuns = .error .waitingOnRetry := by
  obtain ⟨l0, hrun, hseen⟩ := exists_ok_of_observed
    (show ((Transition.run step (new simL0Params)
      [queueRuns, readsLine 1, queueRuns, readsLine 2]).toOption.map fun l0 =>
        (l0.cache.responses.length, l0.thread, l0.waitingOnRetry, failure (l0.step queueRuns))) =
      some (1, .runnable, true, some .waitingOnRetry) by decide +kernel)
  simp only [Prod.mk.injEq, failure_eq_some] at hseen
  exact ⟨l0, hrun, hseen⟩

theorem never_waiting_iff_nothing_to_send_unsent :
    Transition.always step (fun l0 => !l0.waitingOnRetry) (new simL0Params)
      [queueRuns, readsLine 1, readsLine 2] = true := by
  obtain ⟨final, hrun, -⟩ := exists_ok_of_observed
    (show ((Transition.run step (new simL0Params)
      [queueRuns, readsLine 1, readsLine 2]).toOption.map fun l0 => l0.thread) =
      some .runnable by decide +kernel)
  exact (never_waiting_iff_nothing_to_send hrun).mpr (by decide +kernel)

end KuiperCache.L0

namespace KuiperCache

/-- The queue holds an entry that could be sent now. -/
def Queue.hasReady {Entry : Type} [QueueEntry Entry] {numEntries : Nat}
    (queue : Queue Entry numEntries) (now : Tick) : Bool :=
  queue.allocatedList.any fun index =>
    !QueueEntry.inService (queue.entries index) && decide (queue.readyTime index ≤ now)

namespace L0

open Checked Cache

variable {config : CacheConfig}

/-- The thread sleeps, unnotified, over an entry that is ready. -/
def stranded (l0 : L0 config) : Bool :=
  l0.thread == .suspended &&
    (l0.cache.mshrQueue.hasReady curTick || l0.cache.writeBuffer.hasReady curTick)

/-- Nothing is ready when the thread first falls asleep, and at most one entry
whenever it is woken. -/
def oneAtATime (l0 : L0 config) : Event config → Bool
  | .port .. => true
  | .kernel .. => match l0.thread with
      | .unstarted => l0.cache.mshrQueue.readyList.isEmpty
      | .suspended => true
      | .runnable => l0.cache.mshrQueue.readyList.length ≤ 1

/-- The ready list holds exactly the entries that are ready. -/
theorem hasReady_eq {cache : Cache config} (h : Sound cache) :
    cache.mshrQueue.hasReady curTick = !cache.mshrQueue.readyList.isEmpty := by
  rw [Bool.eq_iff_iff, Queue.hasReady, List.any_eq_true, Bool.not_eq_true',
    List.isEmpty_eq_false_iff_exists_mem]
  constructor
  · rintro ⟨index, hmem, hready⟩
    rw [Bool.and_eq_true, Bool.not_eq_true'] at hready
    exact ⟨index, (h.represents.ready.mem index).mpr ⟨hmem, hready.1⟩⟩
  · rintro ⟨index, hready⟩
    obtain ⟨hmem, hidle⟩ := (h.represents.ready.mem index).mp hready
    have hdue : cache.mshrQueue.readyTime index = curTick := h.due index hready
    refine ⟨index, hmem, ?_⟩
    rw [Bool.and_eq_true, Bool.not_eq_true', hdue]
    exact ⟨hidle, by simp⟩

theorem stranded_eq {l0 : L0 config} (h : Steady l0) :
    l0.stranded = (l0.thread == .suspended && !l0.cache.mshrQueue.readyList.isEmpty) := by
  have hbuffer : l0.cache.writeBuffer.hasReady curTick = false := by
    rw [Queue.hasReady, h.sound.writeBuffer.1]
    rfl
  rw [stranded, hasReady_eq h.sound, hbuffer, Bool.or_false]

theorem step_stranded (l0 : L0 config) (event : Event config) (next : L0 config)
    (h : Steady l0) (hawake : (!l0.stranded) = true) (hstep : l0.step event = .ok next) :
    (!next.stranded) = true ↔ oneAtATime l0 event = true := by
  rw [stranded_eq h] at hawake
  rw [stranded_eq (step_steady l0 event next h hstep)]
  cases event with
  | port pkt random =>
      obtain ⟨-, -, hquiet⟩ := reqMonitor_cases h hstep
      simp only [oneAtATime, iff_true, Bool.not_eq_true', Bool.and_eq_false_iff]
      by_cases hthread : next.thread = .suspended
      · obtain ⟨hbefore, hready⟩ := hquiet hthread
        rw [hready]
        exact .inr (by simpa [hbefore] using hawake)
      · simp [hthread]
  | kernel data random =>
      obtain ⟨-, hthread', hcases⟩ := pktQueueProcess_cases h hstep
      cases hthread : l0.thread with
      | unstarted =>
          rw [hthread, if_neg (by decide)] at hcases
          simp [oneAtATime, hthread, hthread', hcases.2]
      | suspended =>
          rw [hthread, if_neg (by decide)] at hcases
          simpa [oneAtATime, hthread, hthread', hcases.2] using hawake
      | runnable =>
          -- the entry sent is the head, so what is left is the tail
          rw [hthread, if_pos rfl] at hcases
          simp only [oneAtATime, hthread, hthread', hcases.2, beq_self_eq_true, Bool.true_and,
            Bool.not_not, List.isEmpty_iff, decide_eq_true_eq]
          rw [← List.length_eq_zero_iff, List.length_tail]
          omega

/-- No run leaves a ready entry behind, in any of its states, exactly when nothing
is ready at the start and no wake-up finds more than one entry. -/
theorem never_stranded_iff_one_at_a_time {events : List (Event config)} {final : L0 config}
    (hrun : Transition.run step (new config) events = .ok final) :
    Transition.always step (fun l0 => !l0.stranded) (new config) events = true ↔
      Transition.meets step oneAtATime (new config) events = true :=
  Transition.always_iff_meets (fun l0 event next _ => step_steady l0 event next)
    step_stranded hrun (steady_new config) rfl

/-- Two misses arrive before the thread runs: it sends one and sleeps over the
other. -/
theorem second_of_two_misses_is_stranded :
    ∃ l0, Transition.run step (new simL0Params)
        [queueRuns, readsLine 1, readsLine 2, queueRuns] = .ok l0 ∧
      l0.cache.responses.length = 1 ∧ l0.stranded = true := by
  obtain ⟨l0, hrun, hseen⟩ := exists_ok_of_observed
    (show ((Transition.run step (new simL0Params)
      [queueRuns, readsLine 1, readsLine 2, queueRuns]).toOption.map fun l0 =>
        (l0.cache.responses.length, l0.stranded)) = some (1, true) by decide +kernel)
  simp only [Prod.mk.injEq] at hseen
  exact ⟨l0, hrun, hseen⟩

theorem never_stranded_iff_one_at_a_time_single :
    Transition.always step (fun l0 => !l0.stranded) (new simL0Params)
      [queueRuns, readsLine 1, queueRuns] = true := by
  obtain ⟨final, hrun, -⟩ := exists_ok_of_observed
    (show ((Transition.run step (new simL0Params)
      [queueRuns, readsLine 1, queueRuns]).toOption.map fun l0 => l0.thread) =
      some .suspended by decide +kernel)
  exact (never_stranded_iff_one_at_a_time hrun).mpr (by decide +kernel)

end L0

end KuiperCache
