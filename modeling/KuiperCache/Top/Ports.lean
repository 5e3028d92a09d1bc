import KuiperCache.Cache.Conservation
import KuiperCache.Cache.RequestQueue
import KuiperCache.Top.Fifo

/-! The ports of the L0 cache.  A thread outside writes packets into the FIFO of a port
and `ReqMonitor` takes them out and hands them to the cache, beside the thread of the
request queue.  The threads run in any order and the update may come between any two of
them, which includes every order of the kernel. -/
namespace KuiperCache.Ports

open Checked Cache Conservation

inductive PortName where
  | load0
  | load1
  | store
deriving DecidableEq, Repr

/-- The sizes of `mLoad0Fifo`, `mLoad1Fifo` and `mStoreFifo`. -/
def depth : PortName → Nat
  | .load0 => 16
  | .load1 => 16
  | .store => 10

/-- The thread behind a port: not in `write`, asleep there on `data_read_event`, or woken. -/
inductive Writer where
  | elsewhere
  | asleep (pkt : Packet)
  | woken (pkt : Packet)

def Writer.wake : Writer → Writer
  | .asleep pkt => .woken pkt
  | writer => writer

/-- A port with its FIFO, where a null pointer is `none`.  `written` are the packets
whose `write` has returned. -/
structure CpuSidePort where
  fifo : ScFifo (Option Packet)
  writer : Writer
  monitorAsleep : Bool
  written : List Packet

/-- The L0 cache and its ports.  `handed` are the packets `ReqMonitor` has taken out,
and `accepted` the same packets with the identities they got. -/
structure Top (config : CacheConfig) where
  l0 : L0 config
  port : PortName → CpuSidePort
  handed : List (PortName × Packet)
  accepted : List Packet

/-- An assertion of the cache, one of `sc_fifo`, or a call with a null pointer. -/
inductive Failure where
  | cache (reason : Assertion)
  | readFailed
  | writeFailed
  | nullPacket
deriving DecidableEq, Repr

/-- A thread calls `write`, the kernel runs it again there, `ReqMonitor` makes one turn
of its loop, the thread of the request queue runs, or the delta cycle ends. -/
inductive Event (config : CacheConfig) where
  | write (name : PortName) (pkt : Packet)
  | resume (name : PortName)
  | monitor (name : PortName) (random : Fin config.geometry.assoc)
  | kernel (data : List UInt8) (random : Fin config.geometry.assoc)
  | update

namespace CpuSidePort

def new (name : PortName) : CpuSidePort :=
  { fifo := ScFifo.new (depth name), writer := .elsewhere, monitorAsleep := false, written := [] }

/-- `sc_fifo::write` up to its next wait. -/
def write (port : CpuSidePort) (pkt : Packet) : Except Failure CpuSidePort :=
  if port.fifo.numFree = 0 then .ok { port with writer := .asleep pkt }
  else
    match port.fifo.nbWrite (some pkt) with
    | none => .error .writeFailed
    | some fifo =>
        .ok { port with fifo, writer := .elsewhere, written := port.written ++ [pkt] }

/-- `sc_fifo::update`, and whom its notifications wake. -/
def update (port : CpuSidePort) : CpuSidePort :=
  { port with
    fifo := port.fifo.update
    writer := if port.fifo.numRead > 0 then port.writer.wake else port.writer
    monitorAsleep := port.monitorAsleep && port.fifo.numWritten == 0 }

end CpuSidePort

variable {config : CacheConfig}

def new (config : CacheConfig) : Top config :=
  { l0 := L0.new config, port := CpuSidePort.new, handed := [], accepted := [] }

def Top.setPort (top : Top config) (name : PortName) (port : CpuSidePort) : Top config :=
  { top with port := Function.update top.port name port }

/-- One turn of the loop of `ReqMonitor`. -/
def Top.reqMonitor (top : Top config) (name : PortName) (random : Fin config.geometry.assoc) :
    Except Failure (Top config) :=
  let port := top.port name
  if port.monitorAsleep then .ok top
  else if port.fifo.numAvailable = 0 then .ok (top.setPort name { port with monitorAsleep := true })
  else
    match port.fifo.nbRead with
    | none => .error .readFailed
    | some (none, _) => .error .nullPacket
    | some (some pkt, fifo) => do
        let l0 ← (top.l0.reqMonitor pkt random).mapError .cache
        pure { top.setPort name { port with fifo } with
          l0
          handed := top.handed ++ [(name, pkt)]
          accepted := top.accepted ++ [{ pkt with ptr := top.l0.cache.nextPtr }] }

/-- A thread that cannot run does nothing. -/
def step (top : Top config) : Event config → Except Failure (Top config)
  | .write name pkt =>
      match (top.port name).writer with
      | .elsewhere => do
          let port ← (top.port name).write pkt
          pure (top.setPort name port)
      | _ => .ok top
  | .resume name =>
      match (top.port name).writer with
      | .woken pkt => do
          let port ← (top.port name).write pkt
          pure (top.setPort name port)
      | _ => .ok top
  | .monitor name random => top.reqMonitor name random
  | .kernel data random => do
      let l0 ← (top.l0.pktQueueProcess data random).mapError .cache
      pure { top with l0 }
  | .update => .ok { top with port := fun name => (top.port name).update }

/-- Only allowed packets are written to the ports. -/
def writes (allowed : Packet → Bool) : Event config → Bool
  | .write _ pkt => allowed pkt
  | _ => true

/-- The packets that came through the port, in the order in which they were handed over. -/
def handedOver (handed : List (PortName × Packet)) (name : PortName) : List Packet :=
  (handed.filter fun entry => entry.1 = name).map Prod.snd

/-- Nothing written to a port is lost, and nobody sleeps who could go on. -/
structure Flows (allowed : Packet → Bool) (size : Nat) (port : CpuSidePort)
    (handed waiting : List Packet) : Prop where
  represents : port.fifo.Represents (waiting.map some)
  size : port.fifo.size = size
  written : port.written = handed ++ waiting
  waits : ∀ pkt ∈ waiting, allowed pkt = true
  pending : ∀ pkt, port.writer = .asleep pkt ∨ port.writer = .woken pkt → allowed pkt = true
  monitor : port.monitorAsleep = true → port.fifo.numAvailable = 0
  writer : ∀ pkt, port.writer = .asleep pkt → port.fifo.numFree = 0

theorem flows_new (allowed : Packet → Bool) (name : PortName) :
    Flows allowed (depth name) (CpuSidePort.new name) [] [] := by
  have hpos : 0 < depth name := by cases name <;> decide
  refine ⟨ScFifo.represents_new hpos, rfl, rfl, ?_, ?_, ?_, ?_⟩
  · intro pkt hpkt
    cases hpkt
  · rintro pkt (hwriter | hwriter) <;> cases hwriter
  · intro hasleep
    cases hasleep
  · intro pkt hwriter
    cases hwriter

variable {allowed : Packet → Bool} {size : Nat} {port : CpuSidePort}
  {handed waiting : List Packet}

/-- A packet that is written is the last one waiting, unless there is no room for it. -/
theorem Flows.write (h : Flows allowed size port handed waiting) {pkt : Packet}
    (hallowed : allowed pkt = true) :
    ∃ next waiting', port.write pkt = .ok next ∧ Flows allowed size next handed waiting' := by
  unfold CpuSidePort.write
  by_cases hfree : port.fifo.numFree = 0
  · rw [if_pos hfree]
    refine ⟨_, waiting, rfl, h.represents, h.size, h.written, h.waits, ?_, h.monitor, ?_⟩
    · rintro other (hother | hother) <;> cases hother
      exact hallowed
    · intro other _
      exact hfree
  · obtain ⟨fifo, hwrite, hrepresents, hsize, -, hstaged⟩ := h.represents.nbWrite hfree (some pkt)
    rw [if_neg hfree, hwrite]
    refine ⟨_, waiting ++ [pkt], rfl, ?_, hsize.trans h.size, ?_, ?_, ?_, ?_, ?_⟩
    · rw [List.map_append, List.map_singleton]
      exact hrepresents
    · rw [h.written, List.append_assoc]
    · intro other hother
      rw [List.mem_append, List.mem_singleton] at hother
      obtain hother | rfl := hother
      · exact h.waits other hother
      · exact hallowed
    · rintro other (hother | hother) <;> cases hother
    · intro hasleep
      have hnone := h.monitor hasleep
      have hbefore := h.represents.numAvailable
      have hafter := hrepresents.numAvailable
      rw [List.length_append, List.length_singleton] at hafter
      dsimp only
      omega
    · intro other hother
      cases hother

/-- The oldest packet that waits is the one that is read. -/
theorem Flows.read (h : Flows allowed size port handed waiting)
    (havailable : port.fifo.numAvailable ≠ 0) :
    ∃ pkt rest fifo, waiting = pkt :: rest ∧ port.fifo.nbRead = some (some pkt, fifo) ∧
      Flows allowed size { port with fifo } (handed ++ [pkt]) rest := by
  obtain ⟨val, items, fifo, hitems, hread, hrepresents, hsize, hnumRead, -⟩ :=
    h.represents.nbRead havailable
  cases waiting with
  | nil => cases hitems
  | cons pkt rest =>
      rw [List.map_cons, List.cons.injEq] at hitems
      obtain ⟨rfl, rfl⟩ := hitems
      refine ⟨pkt, rest, fifo, rfl, hread, hrepresents, hsize.trans h.size, ?_, ?_, h.pending,
        ?_, ?_⟩
      · rw [List.append_assoc, List.singleton_append]
        exact h.written
      · intro other hother
        exact h.waits other (List.mem_cons_of_mem pkt hother)
      · intro hasleep
        exact absurd (h.monitor hasleep) havailable
      · intro other hother
        have hnone := h.writer other hother
        have hbefore := h.represents.numFree
        have hafter := hrepresents.numFree
        rw [List.length_map, List.length_cons] at hbefore
        rw [List.length_map] at hafter
        dsimp only
        omega

theorem Flows.sleep (h : Flows allowed size port handed waiting)
    (hnone : port.fifo.numAvailable = 0) :
    Flows allowed size { port with monitorAsleep := true } handed waiting :=
  ⟨h.represents, h.size, h.written, h.waits, h.pending, fun _ => hnone, h.writer⟩

/-- The update wakes whoever can go on after it. -/
theorem Flows.update (h : Flows allowed size port handed waiting) :
    Flows allowed size port.update handed waiting := by
  have hrepresents := h.represents.update
  have havailable := h.represents.numAvailable
  have hroom := h.represents.numFree
  have havailable' := hrepresents.numAvailable
  have hroom' := hrepresents.numFree
  have hread : port.fifo.update.numRead = 0 := rfl
  have hstaged : port.fifo.update.numWritten = 0 := rfl
  have hsize : port.fifo.update.size = port.fifo.size := rfl
  refine ⟨hrepresents, h.size, h.written, h.waits, ?_, ?_, ?_⟩
  · intro pkt hpkt
    apply h.pending pkt
    simp only [CpuSidePort.update] at hpkt
    split at hpkt
    · cases hwriter : port.writer with
      | elsewhere => simp [hwriter, Writer.wake] at hpkt
      | asleep other => simpa [hwriter, Writer.wake] using hpkt
      | woken other => simpa [hwriter, Writer.wake] using hpkt
    · exact hpkt
  · intro hasleep
    simp only [CpuSidePort.update, Bool.and_eq_true, beq_iff_eq] at hasleep ⊢
    have hnone := h.monitor hasleep.1
    omega
  · intro pkt hwriter
    simp only [CpuSidePort.update] at hwriter ⊢
    split at hwriter
    · cases hwriter' : port.writer <;> simp [hwriter', Writer.wake] at hwriter
    · have hnone := h.writer pkt hwriter
      omega

/-- What holds of the ports, whatever the cache does. -/
structure Ported (allowed : Packet → Bool) (top : Top config) : Prop where
  flows : ∀ name, ∃ waiting,
    Flows allowed (depth name) (top.port name) (handedOver top.handed name) waiting
  identified : List.Forall₂ (fun entry pkt => ∃ ptr, pkt = { entry.2 with ptr })
    top.handed top.accepted

theorem ported_new (config : CacheConfig) (allowed : Packet → Bool) :
    Ported allowed (new config) :=
  ⟨fun name => ⟨[], flows_new allowed name⟩, .nil⟩

/-- What a step means for the cache: nothing, a request that is allowed, or a turn of
the thread of the request queue. -/
inductive Advances (allowed : Packet → Bool) (top next : Top config) : Prop where
  | outside (hl0 : next.l0 = top.l0) (haccepted : next.accepted = top.accepted)
  | request (pkt : Packet) (random : Fin config.geometry.assoc) (hallowed : allowed pkt = true)
      (hreq : top.l0.reqMonitor pkt random = .ok next.l0)
      (haccepted : next.accepted = top.accepted ++ [{ pkt with ptr := top.l0.cache.nextPtr }])
  | queue (data : List UInt8) (random : Fin config.geometry.assoc)
      (hrun : top.l0.pktQueueProcess data random = .ok next.l0)
      (haccepted : next.accepted = top.accepted)

theorem handedOver_self (handed : List (PortName × Packet)) (name : PortName) (pkt : Packet) :
    handedOver (handed ++ [(name, pkt)]) name = handedOver handed name ++ [pkt] := by
  simp [handedOver]

theorem handedOver_other (handed : List (PortName × Packet)) {name other : PortName}
    (hne : other ≠ name) (pkt : Packet) :
    handedOver (handed ++ [(name, pkt)]) other = handedOver handed other := by
  simp [handedOver, hne.symm]

theorem Ported.setPort {top : Top config} (h : Ported allowed top) {name : PortName}
    {port : CpuSidePort} {waiting : List Packet}
    (hflows : Flows allowed (depth name) port (handedOver top.handed name) waiting) :
    Ported allowed (top.setPort name port) := by
  refine ⟨?_, h.identified⟩
  intro other
  simp only [Top.setPort, Function.update_apply]
  split
  · rename_i heq
    exact heq ▸ ⟨waiting, hflows⟩
  · exact h.flows other

/-- One turn of `ReqMonitor` fails only if the cache does. -/
theorem Ported.reqMonitor {top : Top config} (h : Ported allowed top) (name : PortName)
    (random : Fin config.geometry.assoc) :
    (∃ next, top.reqMonitor name random = .ok next ∧ Ported allowed next ∧
        Advances allowed top next) ∨
      ∃ assertion, top.reqMonitor name random = .error (.cache assertion) := by
  obtain ⟨waiting, hflows⟩ := h.flows name
  unfold Top.reqMonitor
  by_cases hasleep : (top.port name).monitorAsleep = true
  · rw [if_pos hasleep]
    exact .inl ⟨top, rfl, h, .outside rfl rfl⟩
  · rw [if_neg hasleep]
    by_cases hnone : (top.port name).fifo.numAvailable = 0
    · rw [if_pos hnone]
      exact .inl ⟨_, rfl, h.setPort (hflows.sleep hnone), .outside rfl rfl⟩
    · obtain ⟨pkt, rest, fifo, hwaiting, hread, hnext⟩ := hflows.read hnone
      rw [if_neg hnone, hread]
      dsimp only
      have hallowed : allowed pkt = true := hflows.waits pkt (by simp [hwaiting])
      cases hreq : top.l0.reqMonitor pkt random with
      | error assertion => exact .inr ⟨assertion, rfl⟩
      | ok l0 =>
          refine .inl ⟨_, rfl, ⟨?_, ?_⟩, .request pkt random hallowed hreq rfl⟩
          · intro other
            simp only [Top.setPort, Function.update_apply]
            split
            · rename_i heq
              subst heq
              rw [handedOver_self]
              exact ⟨rest, hnext⟩
            · rename_i hne
              rw [handedOver_other _ hne]
              exact h.flows other
          · exact List.rel_append h.identified (.cons ⟨_, rfl⟩ .nil)

/-- Whatever comes next, the ports keep their order, or an assertion of the cache fails. -/
theorem Ported.step {top : Top config} (h : Ported allowed top) {event : Event config}
    (hevent : writes allowed event = true) :
    (∃ next, Ports.step top event = .ok next ∧ Ported allowed next ∧
        Advances allowed top next) ∨
      ∃ assertion, Ports.step top event = .error (.cache assertion) := by
  cases event with
  | write name pkt =>
      obtain ⟨waiting, hflows⟩ := h.flows name
      unfold Ports.step
      dsimp only
      split
      · obtain ⟨port, waiting', hwrite, hflows'⟩ := hflows.write hevent
        rw [hwrite]
        exact .inl ⟨_, rfl, h.setPort hflows', .outside rfl rfl⟩
      · exact .inl ⟨top, rfl, h, .outside rfl rfl⟩
  | resume name =>
      obtain ⟨waiting, hflows⟩ := h.flows name
      unfold Ports.step
      dsimp only
      split
      · rename_i pkt hwoken
        obtain ⟨port, waiting', hwrite, hflows'⟩ := hflows.write (hflows.pending pkt (.inr hwoken))
        rw [hwrite]
        exact .inl ⟨_, rfl, h.setPort hflows', .outside rfl rfl⟩
      · exact .inl ⟨top, rfl, h, .outside rfl rfl⟩
  | monitor name random => exact h.reqMonitor name random
  | kernel data random =>
      simp only [Ports.step]
      cases hrun : top.l0.pktQueueProcess data random with
      | error assertion => exact .inr ⟨assertion, rfl⟩
      | ok l0 => exact .inl ⟨_, rfl, ⟨h.flows, h.identified⟩, .queue data random hrun rfl⟩
  | update =>
      refine .inl ⟨_, rfl, ⟨?_, h.identified⟩, .outside rfl rfl⟩
      intro name
      obtain ⟨waiting, hflows⟩ := h.flows name
      exact ⟨waiting, hflows.update⟩

/-- What the cache keeps when it takes a request and when its queue runs, every run
keeps, and the ports keep their order. -/
theorem run_ported {inv : Top config → Prop}
    (preserved : ∀ top next : Top config, Advances allowed top next → inv top → inv next)
    (hnew : inv (new config)) {events : List (Event config)} {top : Top config}
    (hevents : ∀ event ∈ events, writes allowed event = true)
    (hrun : Transition.run Ports.step (new config) events = .ok top) :
    Ported allowed top ∧ inv top := by
  have hstep : ∀ (top : Top config) (event : Event config) (next : Top config),
      writes allowed event = true → Ported allowed top ∧ inv top →
      Ports.step top event = .ok next → Ported allowed next ∧ inv next := by
    intro top event next hevent hinv hstep
    obtain ⟨other, hother, hported, hadvances⟩ | ⟨assertion, hfailed⟩ := hinv.1.step hevent
    · rw [hstep, Except.ok.injEq] at hother
      subst hother
      exact ⟨hported, preserved top next hadvances hinv.2⟩
    · rw [hstep] at hfailed
      cases hfailed
  exact Transition.run_invariant (fun event => writes allowed event = true) hstep hevents hrun
    ⟨ported_new config allowed, hnew⟩

/-! Plain requests. -/

/-- The thread of the request queue answers what it takes from the MSHRs. -/
theorem pktQueueProcess_conserved {l0 next : L0 config} {accepted : List Packet}
    (hsound : l0.cache.Sound) (h : Conserved accepted [] l0.cache) {data : List UInt8}
    {random : Fin config.geometry.assoc} (hrun : l0.pktQueueProcess data random = .ok next) :
    next.cache.Sound ∧ Conserved accepted [] next.cache := by
  unfold L0.pktQueueProcess at hrun
  cases hthread : l0.thread with
  | unstarted =>
      simp only [hthread, Except.ok.injEq] at hrun
      subst hrun
      exact ⟨hsound, h⟩
  | suspended =>
      simp only [hthread, Except.ok.injEq] at hrun
      subst hrun
      exact ⟨hsound, h⟩
  | runnable =>
      simp only [hthread, L0.processSendEvent, L0.sendDeferredPacket, bind_eq_ok, check_eq_ok,
        exists_const, pure_eq_ok] at hrun
      obtain ⟨woken, ⟨-, -, ⟨entry, chosen⟩, hentry, ⟨waiting, sent⟩, hsent, rfl⟩, rfl⟩ := hrun
      have hsent' : sent.Sound ∧ Conserved accepted [] sent := by
        obtain ⟨rfl, hchosen⟩ | ⟨pkt, index, mshr, hprefetch, -⟩ :=
          getNextQueueEntry_cases hsound.writeBuffer.2 hentry
        · cases hnext : l0.cache.mshrQueue.getNext curTick with
          | none =>
              rw [hnext] at hchosen
              subst hchosen
              simp only [Option.map_none, Except.ok.injEq, Prod.mk.injEq] at hsent
              exact hsent.2 ▸ ⟨hsound, h⟩
          | some index =>
              rw [hnext] at hchosen
              subst hchosen
              simp only [Option.map_some, L0.sendPacket, bind_eq_ok, pure_eq_ok,
                Prod.mk.injEq] at hsent
              obtain ⟨⟨waiting', cache, flight⟩, hsend, -, rfl⟩ := hsent
              exact ⟨hsound.sendMSHRQueuePacket hsend, h.sendMSHRQueuePacket hsound hsend⟩
        · cases hprefetch
      obtain ⟨hsound', hconserved⟩ := hsent'
      dsimp only
      split
      · exact ⟨hsound', hconserved⟩
      · exact ⟨hsound'.schedMemSideSendEvent, hconserved.schedMemSideSendEvent⟩

theorem advances_conserved (top next : Top config)
    (hadvances : Advances (fun pkt => pkt.cmd.isPlain) top next)
    (h : top.l0.cache.Sound ∧ Conserved top.accepted [] top.l0.cache) :
    next.l0.cache.Sound ∧ Conserved next.accepted [] next.l0.cache := by
  obtain ⟨hsound, hconserved⟩ := h
  cases hadvances with
  | outside hl0 haccepted =>
      rw [hl0, haccepted]
      exact ⟨hsound, hconserved⟩
  | request pkt random hplain hreq haccepted =>
      simp only [L0.reqMonitor, bind_eq_ok, pure_eq_ok] at hreq
      obtain ⟨cache, hreq, hl0⟩ := hreq
      have hfresh := hsound.touched (newPtr_kept top.l0.cache).toTouched
      rw [haccepted, ← hl0]
      refine ⟨hfresh.recvTimingReq hreq, ?_⟩
      apply (hconserved.accept pkt).recvTimingReq hfresh hplain ?_ hreq
      exact List.mem_append_right _ (List.mem_singleton_self _)
  | queue data random hrun haccepted =>
      rw [haccepted]
      exact pktQueueProcess_conserved hsound hconserved hrun

/-- In every run of plain requests each port hands its packets over in the order in
which they were written, and holds no more than its FIFO has cells.  Nobody sleeps who
could go on: once the delta cycle ends, a sleeping monitor has nothing to read and a
sleeping writer has no room.  What was handed over is answered once or waits in one
MSHR once, and only the cache can fail. -/
theorem written_packets_are_kept_once {events : List (Event config)} {top : Top config}
    (hplain : ∀ event ∈ events, writes (fun pkt => pkt.cmd.isPlain) event = true)
    (hrun : Transition.run Ports.step (new config) events = .ok top) :
    (∀ name, ∃ waiting,
      (top.port name).fifo.contents = waiting.map some ∧
      (top.port name).written = handedOver top.handed name ++ waiting ∧
      waiting.length ≤ depth name ∧
      ((top.port name).monitorAsleep = true →
        waiting.length = (top.port name).fifo.numWritten) ∧
      ∀ pkt, (top.port name).writer = .asleep pkt →
        waiting.length + (top.port name).fifo.numRead = depth name) ∧
    List.Forall₂ (fun entry pkt => ∃ ptr, pkt = { entry.2 with ptr }) top.handed top.accepted ∧
    (top.accepted.map Packet.ptr).Nodup ∧
    (top.accepted.map Packet.ptr).Perm
      (top.l0.cache.responses.map Packet.ptr ++ heldPtrs top.l0.cache.mshrQueue) ∧
    ∀ event reason, writes (fun pkt => pkt.cmd.isPlain) event = true →
      Ports.step top event = .error reason → ∃ assertion, reason = .cache assertion := by
  obtain ⟨hported, -, hconserved⟩ := run_ported advances_conserved
    ⟨sound_new config none, conserved_new config none⟩ hplain hrun
  refine ⟨?_, hported.identified, hconserved.distinct, ?_, ?_⟩
  · intro name
    obtain ⟨waiting, hflows⟩ := hported.flows name
    have havailable := hflows.represents.numAvailable
    have hroom := hflows.represents.numFree
    rw [List.length_map] at havailable hroom
    rw [hflows.size] at hroom
    refine ⟨waiting, hflows.represents.contents, hflows.written, ?_, ?_, ?_⟩
    · omega
    · intro hasleep
      have hnone := hflows.monitor hasleep
      omega
    · intro pkt hwriter
      have hnone := hflows.writer pkt hwriter
      omega
  · simpa only [List.map_nil, List.nil_append] using hconserved.balance
  · intro event reason hevent hfailed
    obtain ⟨next, hnext, -⟩ | ⟨assertion, hcache⟩ := hported.step hevent
    · rw [hfailed] at hnext
      cases hnext
    · rw [hfailed, Except.error.injEq] at hcache
      exact ⟨assertion, hcache⟩

/-- Two loads and a store are written, each to a port whose monitor sleeps; the update
wakes them, and one load is answered while the other packets are still in their FIFOs. -/
def loadsAndStore : List (Event simL0Params) :=
  let request addr := Request.physical addr 4 0 0
  let way := simL0Params.geometry.firstWay
  [.kernel [] way, .monitor .load0 way, .monitor .store way,
    .write .load0 (Packet.ofRequest 0 (request 0x200) .readReq),
    .write .store (Packet.ofRequest 0 (request 0x204) .writeReq),
    .write .load0 (Packet.ofRequest 0 (request 0x600) .readReq),
    .update, .monitor .load0 way, .kernel (List.replicate 512 0) way]

theorem written_packets_are_kept_once_answered :
    ∃ top, Transition.run Ports.step (new simL0Params) loadsAndStore = .ok top ∧
      top.l0.cache.responses.length = 1 ∧
      (top.port .load0).written = handedOver top.handed .load0 ++
        ((top.port .load0).written.drop 1) ∧
      ∀ event reason, writes (fun pkt => pkt.cmd.isPlain) event = true →
        Ports.step top event = .error reason → ∃ assertion, reason = .cache assertion := by
  obtain ⟨top, hrun, hseen⟩ := exists_ok_of_observed
    (show ((Transition.run Ports.step (new simL0Params) loadsAndStore).toOption.map fun top =>
      (top.l0.cache.responses.length, (handedOver top.handed .load0).length)) =
      some (1, 1) by decide +kernel)
  rw [Prod.mk.injEq] at hseen
  obtain ⟨hports, -, -, -, hfails⟩ := written_packets_are_kept_once (by decide) hrun
  obtain ⟨waiting, -, hwritten, -⟩ := hports .load0
  refine ⟨top, hrun, hseen.1, ?_, hfails⟩
  rw [hwritten, ← hseen.2, List.drop_left]

end KuiperCache.Ports
