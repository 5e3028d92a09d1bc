import KuiperCache.Library.RingBuffer

/-! `sc_fifo`, the channel between a port and the thread that writes to it.  What is
written can be read, and what is read makes room, only after the update at the end of
the delta cycle. -/
namespace KuiperCache

/-- The cells `buf` are used from `ri` up to `wi`, and `free` of them are unused.  The
three counters say what was readable when the delta cycle began and what was read and
written since. -/
structure ScFifo (α : Type) where
  size : Nat
  buf : Nat → α
  free : Nat
  ri : Nat
  wi : Nat
  numReadable : Nat
  numRead : Nat
  numWritten : Nat

namespace ScFifo

variable {α : Type}

/-- `init`; the sizes used are positive. -/
def new [Inhabited α] (size : Nat) : ScFifo α :=
  { size, buf := fun _ => default, free := size, ri := 0, wi := 0
    numReadable := 0, numRead := 0, numWritten := 0 }

def numAvailable (fifo : ScFifo α) : Nat := fifo.numReadable - fifo.numRead

def numFree (fifo : ScFifo α) : Nat := fifo.size - fifo.numReadable - fifo.numWritten

/-- The value returned is `none` where the source returns false. -/
def bufWrite (fifo : ScFifo α) (val : α) : Option (ScFifo α) :=
  if fifo.free = 0 then none
  else some { fifo with
    buf := Function.update fifo.buf fifo.wi val
    wi := (fifo.wi + 1) % fifo.size
    free := fifo.free - 1 }

def bufRead [Inhabited α] (fifo : ScFifo α) : Option (α × ScFifo α) :=
  if fifo.free = fifo.size then none
  else some (fifo.buf fifo.ri, { fifo with
    buf := Function.update fifo.buf fifo.ri default
    ri := (fifo.ri + 1) % fifo.size
    free := fifo.free + 1 })

def nbWrite (fifo : ScFifo α) (val : α) : Option (ScFifo α) :=
  if fifo.numFree = 0 then none
  else (fifo.bufWrite val).map fun fifo => { fifo with numWritten := fifo.numWritten + 1 }

def nbRead [Inhabited α] (fifo : ScFifo α) : Option (α × ScFifo α) :=
  if fifo.numAvailable = 0 then none
  else fifo.bufRead.map fun (val, fifo) => (val, { fifo with numRead := fifo.numRead + 1 })

def update (fifo : ScFifo α) : ScFifo α :=
  { fifo with numReadable := fifo.size - fifo.free, numRead := 0, numWritten := 0 }

/-- What was written and not yet read. -/
def contents (fifo : ScFifo α) : List α :=
  RingBuffer.window fifo.buf fifo.size fifo.ri (fifo.size - fifo.free)

/-- The cells hold the items, the oldest one first, and the counters account for them. -/
structure Represents (fifo : ScFifo α) (items : List α) : Prop where
  start : fifo.ri < fifo.size
  filled : fifo.free + items.length = fifo.size
  window : RingBuffer.window fifo.buf fifo.size fifo.ri items.length = items
  stop : fifo.wi = (fifo.ri + items.length) % fifo.size
  staged : items.length + fifo.numRead = fifo.numReadable + fifo.numWritten
  read : fifo.numRead ≤ fifo.numReadable
  written : fifo.numReadable + fifo.numWritten ≤ fifo.size

theorem represents_new [Inhabited α] {size : Nat} (hpos : 0 < size) :
    Represents (new size : ScFifo α) [] :=
  ⟨hpos, rfl, rfl, (Nat.zero_mod size).symm, rfl, le_rfl, hpos.le⟩

variable {fifo next : ScFifo α} {items : List α}

theorem Represents.contents (h : Represents fifo items) : fifo.contents = items := by
  have hfilled := h.filled
  have hcount : fifo.size - fifo.free = items.length := by omega
  rw [ScFifo.contents, hcount, h.window]

/-- What can be read is what was not written since the last update. -/
theorem Represents.numAvailable (h : Represents fifo items) :
    fifo.numAvailable + fifo.numWritten = items.length := by
  have hstaged := h.staged
  have hread := h.read
  unfold ScFifo.numAvailable
  omega

/-- There is room for what is not filled and was not read since the last update. -/
theorem Represents.numFree (h : Represents fifo items) :
    fifo.numFree + fifo.numRead + items.length = fifo.size := by
  have hstaged := h.staged
  have hwritten := h.written
  unfold ScFifo.numFree
  omega

/-- Writing appends, and it fails only when there is no room. -/
theorem Represents.nbWrite (h : Represents fifo items) (hfree : fifo.numFree ≠ 0) (val : α) :
    ∃ next, fifo.nbWrite val = some next ∧ Represents next (items ++ [val]) ∧
      next.size = fifo.size ∧ next.numRead = fifo.numRead ∧
      next.numWritten = fifo.numWritten + 1 := by
  have hroom := h.numFree
  have hfilled := h.filled
  have hstaged := h.staged
  have hcount : items.length < fifo.size := by omega
  have hunused : fifo.free ≠ 0 := by omega
  simp only [ScFifo.nbWrite, bufWrite, if_neg hfree, if_neg hunused, Option.map_some]
  refine ⟨_, rfl, ⟨h.start, ?_, ?_, ?_, ?_, h.read, ?_⟩, rfl, rfl, rfl⟩
  · simp only [List.length_append, List.length_singleton]
    omega
  · rw [List.length_append, List.length_singleton]
    dsimp only
    rw [h.stop, RingBuffer.window_write h.start hcount, h.window]
  · rw [List.length_append, List.length_singleton, ← Nat.add_assoc]
    dsimp only
    rw [h.stop, Nat.mod_add_mod]
  · simp only [List.length_append, List.length_singleton]
    omega
  · have hwritten := h.written
    dsimp only
    omega

/-- Reading takes the oldest item, and it fails only when there is none to be read. -/
theorem Represents.nbRead [Inhabited α] (h : Represents fifo items)
    (havailable : fifo.numAvailable ≠ 0) :
    ∃ val rest next, items = val :: rest ∧ fifo.nbRead = some (val, next) ∧
      Represents next rest ∧ next.size = fifo.size ∧ next.numRead = fifo.numRead + 1 ∧
      next.numWritten = fifo.numWritten := by
  have hvisible := h.numAvailable
  cases items with
  | nil =>
      rw [List.length_nil] at hvisible
      omega
  | cons val rest =>
      have hfilled := h.filled
      have hstaged := h.staged
      have hwritten := h.written
      have hwindow := h.window
      have hstop := h.stop
      simp only [List.length_cons] at hfilled hstaged hwindow hstop hvisible
      have hused : fifo.free ≠ fifo.size := by omega
      have hfirst : fifo.buf fifo.ri = val := by
        rw [RingBuffer.window_succ] at hwindow
        exact (List.cons.inj hwindow).1
      simp only [ScFifo.nbRead, bufRead, if_neg havailable, if_neg hused, Option.map_some, hfirst]
      refine ⟨val, rest, _, rfl, rfl, ⟨?_, ?_, ?_, ?_, ?_, ?_, hwritten⟩, rfl, rfl, rfl⟩
      · exact Nat.mod_lt _ (Nat.zero_lt_of_lt h.start)
      · dsimp only
        omega
      · dsimp only
        rw [RingBuffer.window_read h.start (by omega), hwindow, List.tail_cons]
      · dsimp only
        rw [hstop, RingBuffer.next_add]
      · dsimp only
        omega
      · have havailable' := havailable
        unfold ScFifo.numAvailable at havailable'
        dsimp only
        omega

/-- After the update everything can be read, and all the room can be used. -/
theorem Represents.update (h : Represents fifo items) : Represents fifo.update items := by
  have hfilled := h.filled
  refine ⟨h.start, h.filled, h.window, h.stop, ?_, Nat.zero_le _, ?_⟩
  · simp only [ScFifo.update]
    omega
  · simp only [ScFifo.update]
    omega

end ScFifo

end KuiperCache
