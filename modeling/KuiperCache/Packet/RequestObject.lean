import KuiperCache.Library.Transition
import KuiperCache.Packet.Packet

/-! The request object with its virtual side: which of its fields are valid, the
setters that change them, and the split at a virtual address.  The size and the
byte-enable mask are written by different members. -/
namespace KuiperCache

open Checked

/-- A request with the fields that only matter before the translation.  A valid
context id is the one that is there. -/
structure RequestObject extends Request where
  vaddr : Addr
  pc : Addr
  hasSize : Bool
  hasPaddr : Bool
  hasVaddr : Bool
  hasPC : Bool
deriving DecidableEq, Repr

namespace RequestObject

def instFetch : BitVec 64 := 0x00000100

/-- The flags of the transactional and the TLB commands. -/
def memMgmtFlags : BitVec 64 := 0x0000ff0000000000

/-- The minimal constructor: no field is initialised. -/
def minimal : RequestObject :=
  { paddr := 0, size := 0, byteEnable := [], flags := 0, requestorId := 65535, taskId := 1024,
    extraData := 0, context := none, vaddr := BitVec.allOnes 64, pc := BitVec.allOnes 64,
    hasSize := false, hasPaddr := false, hasVaddr := false, hasPC := false }

def physical (paddr : Addr) (size : BitVec 32) (flags : BitVec 64) (id : Nat) : RequestObject :=
  { minimal with
    toRequest := Request.physical paddr size.toNat flags id, hasSize := true, hasPaddr := true }

/-- Set up a virtual request in an object that exists.  The mask stays as it is. -/
def setVirt (req : RequestObject) (vaddr : Addr) (size : BitVec 32) (flags : BitVec 64) (id : Nat)
    (pc : Addr) : RequestObject :=
  { req with
    vaddr, pc
    size := size.toNat
    requestorId := id
    flags := req.flags &&& instFetch ||| flags
    hasSize := true
    hasPaddr := false
    hasVaddr := true
    hasPC := true }

def setContext (req : RequestObject) (context : Int) : RequestObject :=
  { req with context := some context }

/-- The constructor for virtual requests. -/
def virtual (vaddr : Addr) (size : BitVec 32) (flags : BitVec 64) (id : Nat) (pc : Addr)
    (cid : Int) : RequestObject :=
  { (minimal.setVirt vaddr size flags id pc).setContext cid with
    byteEnable := List.replicate size.toNat true }

def createMemManagement (flags : BitVec 64) (id : Nat) : Except Assertion RequestObject := do
  let req := { minimal with flags, requestorId := id }
  check (req.isSet memMgmtFlags) .memMgmtExpected
  pure req

def setPaddr (req : RequestObject) (paddr : Addr) : RequestObject :=
  { req with paddr, hasPaddr := true }

def setByteEnable (req : RequestObject) (be : List Bool) : Except Assertion RequestObject := do
  check (be.length == req.size) .maskSizeExpected
  pure { req with byteEnable := be }

/-- Two requests as if this one had been split; sizes are 32-bit quantities. -/
def splitOnVaddr (req : RequestObject) (splitAddr : Addr) :
    Except Assertion (RequestObject × RequestObject) := do
  check req.hasVaddr .vaddrExpected
  check (!req.hasPaddr) .paddrUnexpected
  check (req.vaddr < splitAddr && splitAddr < req.vaddr + BitVec.ofNat 64 req.size)
    .splitOutOfRange
  let size1 := (splitAddr - req.vaddr).setWidth 32
  let size2 := BitVec.ofNat 32 req.size - size1
  -- the iterator `_byteEnable.begin() + req1->_size`
  check (size1.toNat ≤ req.byteEnable.length) .undefinedBehaviour
  pure ({ req with size := size1.toNat, byteEnable := req.byteEnable.take size1.toNat },
    { req with
      vaddr := splitAddr, size := size2.toNat, byteEnable := req.byteEnable.drop size1.toNat })

/-- The mask has one element for every byte, once there is a size. -/
def masked (req : RequestObject) : Bool := !req.hasSize || req.byteEnable.length == req.size

/-- The two parts lie one behind the other where the request was, and so do
their masks. -/
structure SplitInto (req first second : RequestObject) : Prop where
  start : first.vaddr = req.vaddr
  next : second.vaddr.toNat = first.vaddr.toNat + first.size
  whole : first.size + second.size = req.size
  inside : req.vaddr.toNat + req.size ≤ 2 ^ 64
  masks : first.byteEnable ++ second.byteEnable = req.byteEnable

variable {req next first second : RequestObject}

theorem masked_iff : req.masked = true ↔ (req.hasSize = true → req.byteEnable.length = req.size) := by
  rw [masked, Bool.or_eq_true, Bool.not_eq_true', beq_iff_eq, ← Bool.not_eq_true,
    ← imp_iff_not_or]

/-- The assertion of `splitOnVaddr` leaves no room for a wrap-around. -/
theorem toNat_splitAddr_sub {splitAddr : Addr} (hsize : req.size < 2 ^ 32)
    (hlow : req.vaddr < splitAddr)
    (hhigh : splitAddr < req.vaddr + BitVec.ofNat 64 req.size) :
    (splitAddr - req.vaddr).toNat = splitAddr.toNat - req.vaddr.toNat ∧
      splitAddr.toNat < req.vaddr.toNat + req.size ∧ req.vaddr.toNat + req.size ≤ 2 ^ 64 := by
  have hvaddr := req.vaddr.isLt
  have hsplit := splitAddr.isLt
  rw [BitVec.lt_def] at hlow
  rw [BitVec.lt_def, BitVec.toNat_add, BitVec.toNat_ofNat] at hhigh
  rw [BitVec.toNat_sub]
  omega

theorem splitOnVaddr_eq_ok {splitAddr : Addr} (hsize : req.size < 2 ^ 32)
    (h : req.splitOnVaddr splitAddr = .ok (first, second)) :
    SplitInto req first second ∧ first.size < 2 ^ 32 ∧ second.size < 2 ^ 32 ∧
      first.byteEnable.length = first.size := by
  simp only [splitOnVaddr, bind_eq_ok, check_eq_ok, exists_const, pure_eq_ok, Bool.and_eq_true,
    decide_eq_true_eq, Prod.mk.injEq] at h
  obtain ⟨-, -, ⟨hlow, hhigh⟩, hmask, rfl, rfl⟩ := h
  obtain ⟨hsub, hend, hinside⟩ := toNat_splitAddr_sub hsize hlow hhigh
  rw [BitVec.lt_def] at hlow
  have hfirst : ((splitAddr - req.vaddr).setWidth 32).toNat =
      splitAddr.toNat - req.vaddr.toNat := by
    rw [BitVec.toNat_setWidth, hsub, Nat.mod_eq_of_lt (by omega)]
  have hsecond : (BitVec.ofNat 32 req.size - (splitAddr - req.vaddr).setWidth 32).toNat =
      req.size - (splitAddr.toNat - req.vaddr.toNat) := by
    rw [BitVec.toNat_sub, hfirst, BitVec.toNat_ofNat]
    omega
  simp only [hfirst, hsecond] at hmask ⊢
  refine ⟨⟨rfl, ?_, ?_, hinside, List.take_append_drop _ _⟩, by omega, by omega, ?_⟩
  · show splitAddr.toNat = req.vaddr.toNat + (splitAddr.toNat - req.vaddr.toNat)
    omega
  · show splitAddr.toNat - req.vaddr.toNat + (req.size - (splitAddr.toNat - req.vaddr.toNat)) =
      req.size
    omega
  · rw [List.length_take]
    omega

/-- A request whose mask has the right length is split without leaving it. -/
theorem splitOnVaddr_avoids (hsize : req.size < 2 ^ 32) (hmask : req.byteEnable.length = req.size)
    (splitAddr : Addr) : Avoids .undefinedBehaviour (req.splitOnVaddr splitAddr) := by
  simp only [splitOnVaddr, avoids_bind, avoids_check, avoids_pure, check_eq_ok, Bool.and_eq_true,
    decide_eq_true_eq]
  refine ⟨.inr (by decide), fun _ _ => ⟨.inr (by decide), fun _ _ => ⟨.inr (by decide), ?_⟩⟩⟩
  rintro - ⟨hlow, hhigh⟩
  obtain ⟨hsub, hend, -⟩ := toNat_splitAddr_sub hsize hlow hhigh
  refine ⟨.inl ?_, by simp⟩
  rw [BitVec.toNat_setWidth, hsub, hmask]
  rw [BitVec.lt_def] at hlow
  omega

/-- The ways to build a request. -/
inductive Constructor where
  | minimal
  | physical (paddr : Addr) (size : BitVec 32) (flags : BitVec 64) (id : Nat)
  | virtual (vaddr : Addr) (size : BitVec 32) (flags : BitVec 64) (id : Nat) (pc : Addr)
      (cid : Int)
  | memManagement (flags : BitVec 64) (id : Nat)

def build : Constructor → Except Assertion RequestObject
  | .minimal => .ok minimal
  | .physical paddr size flags id => .ok (physical paddr size flags id)
  | .virtual vaddr size flags id pc cid => .ok (virtual vaddr size flags id pc cid)
  | .memManagement flags id => createMemManagement flags id

/-- What is done with a request; a copy and a split make further ones. -/
inductive Call where
  | copy
  | setVirt (vaddr : Addr) (size : BitVec 32) (flags : BitVec 64) (id : Nat) (pc : Addr)
  | setPaddr (paddr : Addr)
  | setByteEnable (be : List Bool)
  | splitOnVaddr (splitAddr : Addr)

/-- The object after the call, and the objects it made. -/
def perform (req : RequestObject) : Call → Except Assertion (RequestObject × List RequestObject)
  | .copy => .ok (req, [req])
  | .setVirt vaddr size flags id pc => .ok (req.setVirt vaddr size flags id pc, [])
  | .setPaddr paddr => .ok (req.setPaddr paddr, [])
  | .setByteEnable be => do
      let req ← req.setByteEnable be
      pure (req, [])
  | .splitOnVaddr splitAddr => do
      let (first, second) ← req.splitOnVaddr splitAddr
      pure (req, [first, second])

/-- The mask is as long as the size says, which is a 32-bit quantity. -/
structure Consistent (req : RequestObject) : Prop where
  mask : req.byteEnable.length = req.size
  size_lt : req.size < 2 ^ 32

theorem Consistent.masked (h : req.Consistent) : req.masked = true :=
  masked_iff.mpr fun _ => h.mask

theorem consistent_minimal : minimal.Consistent := ⟨rfl, by decide⟩

theorem build_consistent {constructor : Constructor} (h : build constructor = .ok req) :
    req.Consistent := by
  cases constructor with
  | minimal =>
      cases h
      exact consistent_minimal
  | physical paddr size flags id =>
      cases h
      exact ⟨List.length_replicate, size.isLt⟩
  | virtual vaddr size flags id pc cid =>
      cases h
      exact ⟨List.length_replicate, size.isLt⟩
  | memManagement flags id =>
      simp only [build, createMemManagement, bind_eq_ok, check_eq_ok, pure_eq_ok] at h
      obtain ⟨-, -, rfl⟩ := h
      exact ⟨rfl, consistent_minimal.size_lt⟩

/-- The new size is that of the mask that stays. -/
def keepsMask (req : RequestObject) : Call → Bool
  | .setVirt _ size .. => req.byteEnable.length == size.toNat
  | _ => true

/-- A call on a consistent request keeps it so, and those it makes, exactly when
it keeps the length of the mask. -/
theorem Consistent.perform {call : Call} {made : List RequestObject} (h : req.Consistent)
    (hcall : req.perform call = .ok (next, made)) :
    (∀ other ∈ made, other.Consistent) ∧
      (next.masked = true ↔ req.keepsMask call = true) ∧
      (req.keepsMask call = true → next.Consistent) := by
  cases call with
  | copy =>
      cases hcall
      exact ⟨by simpa using h, iff_of_true h.masked rfl, fun _ => h⟩
  | setVirt vaddr size flags id pc =>
      cases hcall
      refine ⟨by simp, ?_, ?_⟩
      · rw [masked_iff, keepsMask, beq_iff_eq]
        exact ⟨fun hmask => hmask rfl, fun hmask _ => hmask⟩
      · intro hmask
        exact ⟨beq_iff_eq.mp hmask, size.isLt⟩
  | setPaddr paddr =>
      cases hcall
      have hnext : (req.setPaddr paddr).Consistent := ⟨h.mask, h.size_lt⟩
      exact ⟨by simp, iff_of_true hnext.masked rfl, fun _ => hnext⟩
  | setByteEnable be =>
      simp only [RequestObject.perform, RequestObject.setByteEnable, bind_eq_ok, check_eq_ok,
        exists_const, pure_eq_ok, beq_iff_eq, Prod.mk.injEq] at hcall
      obtain ⟨changed, ⟨hlength, rfl⟩, rfl, rfl⟩ := hcall
      have hnext : { req with byteEnable := be }.Consistent := ⟨hlength, h.size_lt⟩
      exact ⟨by simp, iff_of_true hnext.masked rfl, fun _ => hnext⟩
  | splitOnVaddr splitAddr =>
      simp only [RequestObject.perform, bind_eq_ok, pure_eq_ok, Prod.mk.injEq] at hcall
      obtain ⟨⟨first, second⟩, hsplit, rfl, rfl⟩ := hcall
      obtain ⟨hinto, hfirst, hsecond, hmask⟩ := splitOnVaddr_eq_ok h.size_lt hsplit
      have hrest : second.byteEnable.length = second.size := by
        have hlength := congrArg List.length hinto.masks
        have hwhole := hinto.whole
        have hmask' := h.mask
        rw [List.length_append] at hlength
        omega
      refine ⟨?_, iff_of_true h.masked rfl, fun _ => h⟩
      intro other hother
      simp only [List.mem_cons, List.not_mem_nil, or_false] at hother
      obtain rfl | rfl := hother
      · exact ⟨hmask, hfirst⟩
      · exact ⟨hrest, hsecond⟩

theorem Consistent.perform_avoids (h : req.Consistent) (call : Call) :
    Avoids .undefinedBehaviour (req.perform call) := by
  cases call with
  | copy => exact avoids_ok _
  | setVirt vaddr size flags id pc => exact avoids_ok _
  | setPaddr paddr => exact avoids_ok _
  | setByteEnable be => simp [RequestObject.perform, RequestObject.setByteEnable]
  | splitOnVaddr splitAddr =>
      simp [RequestObject.perform, splitOnVaddr_avoids h.size_lt h.mask splitAddr]

end RequestObject

/-- All requests there are. -/
abbrev RequestPool := List RequestObject

namespace RequestPool

inductive Label where
  | build (constructor : RequestObject.Constructor)
  | call (index : Nat) (call : RequestObject.Call)

/-- A call on an object that is not there is no call. -/
def step (pool : RequestPool) : Label → Except Assertion RequestPool
  | .build constructor => do
      let req ← RequestObject.build constructor
      pure (pool ++ [req])
  | .call index call =>
      match pool[index]? with
      | none => .ok pool
      | some req => do
          let (next, made) ← req.perform call
          pure (pool.set index next ++ made)

/-- A request that is set up again keeps the length of its mask. -/
def keepsMasks (pool : RequestPool) : Label → Bool
  | .build _ => true
  | .call index call => pool[index]?.all fun req => req.keepsMask call

/-- Every mask fits its size after the call, and a split divides the request. -/
def MasksFit (pool : RequestPool) (label : Label) (next : RequestPool) : Prop :=
  (∀ req ∈ next, req.hasSize = true → req.byteEnable.length = req.size) ∧
    ∀ index splitAddr req, label = .call index (.splitOnVaddr splitAddr) →
      pool[index]? = some req →
      ∃ first second, next = pool ++ [first, second] ∧ req.SplitInto first second

variable {pool next : RequestPool} {label : Label}

/-- Every object is consistent. -/
def AllConsistent (pool : RequestPool) : Prop := ∀ req ∈ pool, req.Consistent

theorem step_call {index : Nat} {call : RequestObject.Call} {req : RequestObject}
    (hreq : pool[index]? = some req) (h : step pool (.call index call) = .ok next) :
    ∃ after made, req.perform call = .ok (after, made) ∧ next = pool.set index after ++ made := by
  simp only [step, hreq, bind_eq_ok, pure_eq_ok] at h
  obtain ⟨⟨after, made⟩, hcall, rfl⟩ := h
  exact ⟨after, made, hcall, rfl⟩

theorem mem_of_mem_called {index : Nat} {after req : RequestObject} {made : List RequestObject}
    (h : req ∈ pool.set index after ++ made) : req ∈ pool ∨ req = after ∨ req ∈ made := by
  obtain h | h := List.mem_append.mp h
  · obtain h | h := List.mem_or_eq_of_mem_set h
    · exact .inl h
    · exact .inr (.inl h)
  · exact .inr (.inr h)

theorem AllConsistent.step (h : AllConsistent pool) (hkeeps : keepsMasks pool label = true)
    (hstep : RequestPool.step pool label = .ok next) : AllConsistent next := by
  cases label with
  | build constructor =>
      simp only [RequestPool.step, bind_eq_ok, pure_eq_ok] at hstep
      obtain ⟨req, hbuild, rfl⟩ := hstep
      intro other hother
      obtain hother | hother := List.mem_append.mp hother
      · exact h other hother
      · rw [List.mem_singleton.mp hother]
        exact RequestObject.build_consistent hbuild
  | call index call =>
      cases hreq : pool[index]? with
      | none =>
          simp only [RequestPool.step, hreq, Except.ok.injEq] at hstep
          exact hstep ▸ h
      | some req =>
          obtain ⟨after, made, hcall, rfl⟩ := step_call hreq hstep
          obtain ⟨hmade, -, hafter⟩ := (h req (List.mem_of_getElem? hreq)).perform hcall
          rw [keepsMasks, hreq] at hkeeps
          intro other hother
          obtain hother | rfl | hother := mem_of_mem_called hother
          · exact h other hother
          · exact hafter hkeeps
          · exact hmade other hother

theorem AllConsistent.masksFit_iff (h : AllConsistent pool)
    (hstep : RequestPool.step pool label = .ok next) :
    MasksFit pool label next ↔ keepsMasks pool label = true := by
  constructor
  · rintro ⟨hfit, -⟩
    cases label with
    | build constructor => rfl
    | call index call =>
        rw [keepsMasks, Option.all_eq_true]
        intro req hreq
        obtain ⟨after, made, hcall, rfl⟩ := step_call hreq hstep
        obtain ⟨-, hiff, -⟩ := (h req (List.mem_of_getElem? hreq)).perform hcall
        have hindex : index < pool.length := (List.getElem?_eq_some_iff.mp hreq).1
        have hafter : after ∈ pool.set index after ++ made :=
          List.mem_append_left made (List.mem_set hindex after)
        exact hiff.mp (RequestObject.masked_iff.mpr (hfit after hafter))
  · intro hkeeps
    have hnext := h.step hkeeps hstep
    refine ⟨fun req hmem _ => (hnext req hmem).mask, ?_⟩
    rintro index splitAddr req rfl hreq
    obtain ⟨after, made, hcall, rfl⟩ := step_call hreq hstep
    simp only [RequestObject.perform, bind_eq_ok, pure_eq_ok, Prod.mk.injEq] at hcall
    obtain ⟨⟨first, second⟩, hsplit, rfl, rfl⟩ := hcall
    have hconsistent := h req (List.mem_of_getElem? hreq)
    have hsame : pool.set index req = pool := by
      obtain ⟨hindex, hget⟩ := List.getElem?_eq_some_iff.mp hreq
      rw [← hget, List.set_getElem_self]
    exact ⟨first, second, by rw [hsame],
      (RequestObject.splitOnVaddr_eq_ok hconsistent.size_lt hsplit).1⟩

theorem AllConsistent.step_avoids (h : AllConsistent pool) (label : Label) :
    Avoids .undefinedBehaviour (RequestPool.step pool label) := by
  cases label with
  | build constructor =>
      cases constructor <;> simp [RequestPool.step, RequestObject.build,
        RequestObject.createMemManagement]
  | call index call =>
      cases hreq : pool[index]? with
      | none => simp [RequestPool.step, hreq]
      | some req =>
          have hconsistent := h req (List.mem_of_getElem? hreq)
          simp [RequestPool.step, hreq, hconsistent.perform_avoids call]

/-- Whatever is built and called, every mask fits its request at every step
exactly when no request is set up again with another size; no split then reaches
beyond a mask. -/
theorem masks_fit_iff_kept (labels : List Label) :
    (Transition.meets step keepsMasks [] labels = true →
      Transition.run step [] labels ≠ .error .undefinedBehaviour) ∧
    ∀ final, Transition.run step [] labels = .ok final →
      (Transition.stepwise step MasksFit [] labels ↔
        Transition.meets step keepsMasks [] labels = true) := by
  have hempty : AllConsistent [] := by simp [AllConsistent]
  have hkept : ∀ pool label next, True → keepsMasks pool label = true → AllConsistent pool →
      step pool label = .ok next → AllConsistent next :=
    fun _ _ _ _ hkeeps h hstep => h.step hkeeps hstep
  refine ⟨fun hmeets => ?_, fun final hrun => ?_⟩
  · exact Transition.run_avoids (fun pool label next => hkept pool label next trivial)
      (fun _ label _ h => h.step_avoids label) hmeets hempty
  · exact Transition.stepwise_iff_meets hkept (fun _ _ _ _ h hstep => h.masksFit_iff hstep)
      (fun _ _ => trivial) hrun hempty

/-- Sixteen bytes in two accesses, cut in the middle. -/
example : (Transition.run step []
    [.build (.virtual 0xff8 16 0 0 0 0), .call 0 (.splitOnVaddr 0x1000)]).toOption.map
      (fun pool => pool.map fun req => (req.vaddr, req.size, req.byteEnable.length)) =
    some [(0xff8, 16, 16), (0xff8, 8, 8), (0x1000, 8, 8)] := by decide +kernel

/-- A request that is built empty and then set up has eight bytes and no mask. -/
theorem set_up_request_has_no_mask :
    ∃ pool, Transition.run step []
        [.build .minimal, .call 0 (.setVirt 0x1000 8 0 0 0)] = .ok pool ∧
      (∃ req ∈ pool, req.hasSize = true ∧ req.size = 8 ∧ req.byteEnable = []) ∧
      ¬ Transition.stepwise step MasksFit []
        [.build .minimal, .call 0 (.setVirt 0x1000 8 0 0 0)] := by
  have hrun : Transition.run step [] [.build .minimal, .call 0 (.setVirt 0x1000 8 0 0 0)] =
      .ok [RequestObject.minimal.setVirt 0x1000 8 0 0 0] := rfl
  refine ⟨_, hrun, ⟨_, List.mem_singleton_self _, rfl, rfl, rfl⟩, ?_⟩
  intro hfit
  obtain ⟨hmasks, -⟩ := ((hfit _ rfl).2 _ rfl).1
  exact absurd (hmasks _ (List.mem_singleton_self _) rfl) (by decide)

end RequestPool

end KuiperCache
