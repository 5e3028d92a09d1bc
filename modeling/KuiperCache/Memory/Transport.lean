import KuiperCache.Memory.Memory

/-! What the memory answers.  It is meant to be a bounded array of bytes that
refuses what it does not support. -/
namespace KuiperCache

open Checked Cells

namespace GenericPayload

/-- A read or write without byte enables, as wide as its data. -/
def plain (gp : GenericPayload) : Bool :=
  gp.command != .ignoreCommand && gp.byteEnablePtr == 0 && gp.streamingWidth == gp.dataLength

/-- A read or write with byte enables, or with another streaming width. -/
def unsupported (gp : GenericPayload) : Bool :=
  gp.command != .ignoreCommand && (gp.byteEnablePtr != 0 || gp.streamingWidth != gp.dataLength)

/-- The first byte behind the range, without wrap-around. -/
def bound (gp : GenericPayload) : Nat := gp.address.toNat + gp.data.length

/-- The range does not end exactly where the memory does, nor run past the last
64-bit address. -/
def regular (gp : GenericPayload) (memorySize : BitVec 64) : Bool :=
  gp.bound != memorySize.toNat && (gp.address ≥ memorySize || gp.bound < 2 ^ 64)

theorem toNat_dataLength (gp : GenericPayload) : gp.dataLength.toNat = gp.data.length := by
  rw [dataLength, BitVec.toNat_ofNat, Nat.mod_eq_of_lt gp.dataLength_lt]

theorem toNat_address_add (gp : GenericPayload) :
    (gp.address + gp.dataLength.setWidth 64).toNat = gp.bound % 2 ^ 64 := by
  have hlength := gp.dataLength_lt
  rw [BitVec.toNat_add, BitVec.toNat_setWidth, toNat_dataLength, bound,
    Nat.mod_eq_of_lt (show gp.data.length < 2 ^ 64 by omega)]

theorem regular_eq_true {gp : GenericPayload} {memorySize : BitVec 64} :
    gp.regular memorySize = true ↔
      gp.bound ≠ memorySize.toNat ∧ (memorySize.toNat ≤ gp.address.toNat ∨ gp.bound < 2 ^ 64) := by
  simp [regular, BitVec.le_def]

end GenericPayload

namespace Memory

variable {mem : Memory} {gp resp : GenericPayload}

theorem checkAddress_eq_ok :
    mem.checkAddress gp = .okResponse ↔
      gp.address.toNat < mem.memorySize.toNat ∧ gp.bound % 2 ^ 64 < mem.memorySize.toNat := by
  have hadd := gp.toNat_address_add
  unfold checkAddress
  split
  · rename_i hrange
    rw [ge_iff_le, BitVec.le_def] at hrange
    simp only [reduceCtorEq, false_iff]
    omega
  · rename_i hrange
    rw [ge_iff_le, BitVec.le_def] at hrange
    split
    · rename_i hbound
      rw [ge_iff_le, BitVec.le_def] at hbound
      simp only [reduceCtorEq, false_iff]
      omega
    · rename_i hbound
      rw [ge_iff_le, BitVec.le_def] at hbound
      simp only [true_iff]
      omega

/-- For a regular range the check is the one that is meant. -/
theorem checkAddress_of_regular (hregular : gp.regular mem.memorySize = true) :
    mem.checkAddress gp = .okResponse ↔ gp.bound ≤ mem.memorySize.toNat := by
  obtain ⟨hend, hwrap⟩ := GenericPayload.regular_eq_true.mp hregular
  have hsize := mem.memorySize.isLt
  have hbound : gp.bound = gp.address.toNat + gp.data.length := rfl
  rw [checkAddress_eq_ok]
  constructor
  · rintro ⟨haddress, hmod⟩
    have hlt : gp.bound < 2 ^ 64 := by omega
    rw [Nat.mod_eq_of_lt hlt] at hmod
    omega
  · intro hfits
    rw [Nat.mod_eq_of_lt (show gp.bound < 2 ^ 64 by omega)]
    omega

/-- And it is the one that is meant only then. -/
theorem regular_of_checkAddress
    (h : mem.checkAddress gp = .okResponse ↔ gp.bound ≤ mem.memorySize.toNat) :
    gp.regular mem.memorySize = true := by
  have hsize := mem.memorySize.isLt
  have hlength := gp.dataLength_lt
  have hbound : gp.bound = gp.address.toNat + gp.data.length := rfl
  rw [checkAddress_eq_ok] at h
  rw [GenericPayload.regular_eq_true]
  constructor
  · intro hend
    have haccepted := h.mpr (by omega)
    rw [hend, Nat.mod_eq_of_lt hsize] at haccepted
    omega
  · by_contra hwrap
    have hmod : gp.bound % 2 ^ 64 = gp.bound - 2 ^ 64 := by
      rw [Nat.mod_eq_sub_mod (by omega), Nat.mod_eq_of_lt (by omega)]
    have hfits := h.mp (by omega)
    omega

theorem store_eq_ok {address : Addr} {data : List UInt8}
    (h : address.toNat + data.length ≤ mem.memorySize.toNat) :
    mem.store address data =
      .ok { mem with memory := overwrite mem.memory address.toNat data } := by
  induction data generalizing mem address with
  | nil => rw [store, overwrite_nil]
  | cons byte data ih =>
      have hsize := mem.memorySize.isLt
      rw [List.length_cons] at h
      have hinside : address < mem.memorySize := by
        rw [BitVec.lt_def]
        omega
      have hnext : (address + 1).toNat = address.toNat + 1 := by
        rw [BitVec.toNat_add]
        exact Nat.mod_eq_of_lt (show address.toNat + 1 < 2 ^ 64 by omega)
      simp only [store, hinside, decide_true, check_true, ok_bind]
      rw [ih (by rw [hnext]; dsimp only; omega), hnext, overwrite_cons]

theorem load_eq_ok {address : Addr} {length : Nat}
    (h : address.toNat + length ≤ mem.memorySize.toNat) :
    mem.load address length = .ok (slice mem.memory address.toNat length) := by
  induction length generalizing address with
  | zero => rfl
  | succ length ih =>
      have hsize := mem.memorySize.isLt
      have hinside : address < mem.memorySize := by
        rw [BitVec.lt_def]
        omega
      have hnext : (address + 1).toNat = address.toNat + 1 := by
        rw [BitVec.toNat_add]
        exact Nat.mod_eq_of_lt (show address.toNat + 1 < 2 ^ 64 by omega)
      simp only [load, hinside, decide_true, check_true, ok_bind]
      rw [ih (by rw [hnext]; omega), hnext, slice_succ]
      rfl

/-- What is left of the payload besides its status. -/
theorem checkPayload_kept (gp : GenericPayload) :
    (checkPayload gp).command = gp.command ∧ (checkPayload gp).address = gp.address ∧
      (checkPayload gp).data = gp.data := by
  unfold checkPayload
  split
  · exact ⟨rfl, rfl, rfl⟩
  · split
    · exact ⟨rfl, rfl, rfl⟩
    · exact ⟨rfl, rfl, rfl⟩

theorem loadInto_eq_ok {gp' : GenericPayload} (h : mem.loadInto gp = .ok gp') :
    mem.load gp.address gp.data.length = .ok gp'.data ∧ gp'.command = gp.command := by
  unfold loadInto at h
  split at h
  · cases h
  · rename_i data hload
    cases h
    exact ⟨hload, rfl⟩

/-- The status is that of the address check, whatever else was found. -/
theorem bTransport_status {next : Memory} (h : mem.bTransport gp = .ok (next, resp)) :
    resp.responseStatus = mem.checkAddress gp := by
  simp only [bTransport, bind_eq_ok, pure_eq_ok, Prod.mk.injEq] at h
  obtain ⟨⟨moved, answered⟩, -, -, rfl⟩ := h
  rfl

/-- A transaction outside the range checked has no effect. -/
theorem bTransport_refused (hcommand : gp.command ≠ .ignoreCommand)
    (hrefused : mem.checkAddress gp ≠ .okResponse) :
    ∃ resp, mem.bTransport gp = .ok (mem, resp) ∧ resp.data = gp.data := by
  obtain ⟨hkept, -, hdata⟩ := checkPayload_kept gp
  refine ⟨{ checkPayload gp with responseStatus := mem.checkAddress gp }, ?_, hdata⟩
  rw [bTransport, hkept]
  cases hcmd : gp.command with
  | ignoreCommand => exact absurd hcmd hcommand
  | writeCommand =>
      simp only [if_neg hrefused]
      rfl
  | readCommand =>
      simp only [if_neg hrefused]
      rfl

theorem bTransport_write (hcommand : gp.command = .writeCommand)
    (haccepted : mem.checkAddress gp = .okResponse)
    (hfits : gp.bound ≤ mem.memorySize.toNat) :
    ∃ resp, mem.bTransport gp =
      .ok ({ mem with memory := overwrite mem.memory gp.address.toNat gp.data }, resp) := by
  obtain ⟨hkept, haddress, hdata⟩ := checkPayload_kept gp
  refine ⟨{ checkPayload gp with responseStatus := mem.checkAddress gp }, ?_⟩
  have hstore : mem.store (checkPayload gp).address (checkPayload gp).data =
      .ok { mem with memory := overwrite mem.memory gp.address.toNat gp.data } := by
    rw [haddress, hdata, store_eq_ok hfits]
  rw [bTransport, hkept, hcommand]
  simp only [if_pos haccepted, hstore]
  rfl

theorem bTransport_read (hcommand : gp.command = .readCommand)
    (haccepted : mem.checkAddress gp = .okResponse)
    (hfits : gp.bound ≤ mem.memorySize.toNat) :
    ∃ resp, mem.bTransport gp = .ok (mem, resp) ∧
      resp.data = slice mem.memory gp.address.toNat gp.data.length := by
  obtain ⟨hkept, haddress, hdata⟩ := checkPayload_kept gp
  have hload : mem.load (checkPayload gp).address (checkPayload gp).data.length =
      .ok (slice mem.memory gp.address.toNat gp.data.length) := by
    rw [haddress, hdata, load_eq_ok hfits]
  obtain ⟨filled, hfilled⟩ : ∃ filled, mem.loadInto (checkPayload gp) = .ok filled := by
    unfold loadInto
    split
    · rename_i reason herror
      rw [hload] at herror
      cases herror
    · exact ⟨_, rfl⟩
  have hfilledData := (loadInto_eq_ok hfilled).1
  rw [hload, Except.ok.injEq] at hfilledData
  refine ⟨{ filled with responseStatus := mem.checkAddress gp }, ?_, hfilledData.symm⟩
  rw [bTransport, hkept, hcommand]
  simp only [if_pos haccepted, hfilled]
  rfl

/-- Transactions one after the other, with their responses. -/
def transports (mem : Memory) :
    List GenericPayload → Except Assertion (Memory × List GenericPayload)
  | [] => .ok (mem, [])
  | gp :: gps => do
      let (mem, resp) ← mem.bTransport gp
      let (mem, resps) ← transports mem gps
      pure (mem, resp :: resps)

/-- The accepted writes among transactions and their responses, oldest first. -/
def acceptedWrites (exchanges : List (GenericPayload × GenericPayload)) :
    List (Nat × List UInt8) :=
  exchanges.filterMap fun (gp, resp) =>
    if gp.command = .writeCommand ∧ resp.responseStatus = .okResponse then
      some (gp.address.toNat, gp.data)
    else none

/-- A response of a bounded array of bytes with these contents. -/
structure Answers (memorySize : BitVec 64) (contents : Nat → UInt8) (gp resp : GenericPayload) :
    Prop where
  accepted : resp.responseStatus = .okResponse ↔ gp.bound ≤ memorySize.toNat
  read : resp.responseStatus = .okResponse → gp.command = .readCommand →
    resp.data = slice contents gp.address.toNat gp.data.length
  refused : resp.responseStatus ≠ .okResponse → resp.data = gp.data

/-- Every transaction is answered as by a bounded array that holds what the
accepted writes before it left there, and so does the memory in the end. -/
def BehavesAsArray (mem : Memory) (gps : List GenericPayload) : Prop :=
  ∃ final resps, mem.transports gps = .ok (final, resps) ∧ resps.length = gps.length ∧
    (∀ k gp resp, gps[k]? = some gp → resps[k]? = some resp →
      Answers mem.memorySize
        (latest mem.memory (acceptedWrites ((gps.take k).zip (resps.take k)))) gp resp) ∧
    final.memory = latest mem.memory (acceptedWrites (gps.zip resps))

/-- One regular transaction. -/
theorem bTransport_spec (hplain : gp.plain = true)
    (hregular : gp.regular mem.memorySize = true) :
    ∃ next resp, mem.bTransport gp = .ok (next, resp) ∧ next.memorySize = mem.memorySize ∧
      Answers mem.memorySize mem.memory gp resp ∧
      next.memory = latest mem.memory (acceptedWrites [(gp, resp)]) := by
  have hmeant := checkAddress_of_regular hregular
  have hcommand : gp.command ≠ .ignoreCommand := by
    simp only [GenericPayload.plain, Bool.and_eq_true, bne_iff_ne] at hplain
    exact hplain.1.1
  by_cases haccepted : mem.checkAddress gp = .okResponse
  · have hfits := hmeant.mp haccepted
    cases hcmd : gp.command with
    | ignoreCommand => exact absurd hcmd hcommand
    | writeCommand =>
        obtain ⟨resp, htransport⟩ := bTransport_write hcmd haccepted hfits
        have hstatus := (bTransport_status htransport).trans haccepted
        refine ⟨_, resp, htransport, rfl, ⟨by simp [hstatus, hfits], ?_, ?_⟩, ?_⟩
        · intro _ hread
          rw [hcmd] at hread
          cases hread
        · exact fun hrefused => absurd hstatus hrefused
        · simp [acceptedWrites, hcmd, hstatus, latest_cons, latest_nil]
    | readCommand =>
        obtain ⟨resp, htransport, hdata⟩ := bTransport_read hcmd haccepted hfits
        have hstatus := (bTransport_status htransport).trans haccepted
        refine ⟨mem, resp, htransport, rfl, ⟨by simp [hstatus, hfits], fun _ _ => hdata, ?_⟩, ?_⟩
        · exact fun hrefused => absurd hstatus hrefused
        · simp [acceptedWrites, hcmd, latest_nil]
  · obtain ⟨resp, htransport, hdata⟩ := bTransport_refused hcommand haccepted
    have hstatus := bTransport_status htransport
    rw [← hstatus] at haccepted hmeant
    exact ⟨mem, resp, htransport, rfl,
      ⟨hmeant, fun hok => absurd hok haccepted, fun _ => hdata⟩,
      by simp [acceptedWrites, haccepted, latest_nil]⟩

theorem acceptedWrites_cons (exchange : GenericPayload × GenericPayload)
    (exchanges : List (GenericPayload × GenericPayload)) :
    acceptedWrites (exchange :: exchanges) =
      acceptedWrites [exchange] ++ acceptedWrites exchanges := by
  rw [← List.singleton_append, acceptedWrites, List.filterMap_append]
  rfl

theorem latest_exchange {next : Memory} {exchange : GenericPayload × GenericPayload}
    (hnext : next.memory = latest mem.memory (acceptedWrites [exchange]))
    (exchanges : List (GenericPayload × GenericPayload)) :
    latest mem.memory (acceptedWrites (exchange :: exchanges)) =
      latest next.memory (acceptedWrites exchanges) := by
  rw [acceptedWrites_cons, hnext]
  generalize acceptedWrites exchanges = later
  unfold acceptedWrites
  simp only [List.filterMap_cons, List.filterMap_nil]
  split
  · rfl
  · rw [List.singleton_append, latest_cons, latest_cons, latest_nil]

theorem behavesAsArray_of_regular {gps : List GenericPayload}
    (hplain : ∀ gp ∈ gps, gp.plain = true)
    (hregular : ∀ gp ∈ gps, gp.regular mem.memorySize = true) : mem.BehavesAsArray gps := by
  induction gps generalizing mem with
  | nil =>
      refine ⟨mem, [], rfl, rfl, ?_, rfl⟩
      intro k gp resp hgp
      cases hgp
  | cons gp gps ih =>
      obtain ⟨next, resp, htransport, hsize, hanswers, hnext⟩ :=
        bTransport_spec (hplain gp (by simp)) (hregular gp (by simp))
      obtain ⟨final, resps, hrest, hlength, hresponses, hfinal⟩ :=
        ih (fun gp' hgp => hplain gp' (by simp [hgp]))
          (fun gp' hgp => hsize ▸ hregular gp' (by simp [hgp]))
      refine ⟨final, resp :: resps, ?_, by simp [hlength], ?_, ?_⟩
      · simp only [transports, htransport, hrest, ok_bind]
        rfl
      · intro k gp' resp' hgp hresp
        cases k with
        | zero =>
            rw [List.getElem?_cons_zero, Option.some.injEq] at hgp hresp
            subst hgp hresp
            exact hanswers
        | succ k =>
            rw [List.getElem?_cons_succ] at hgp hresp
            rw [List.take_succ_cons, List.take_succ_cons, List.zip_cons_cons,
              latest_exchange hnext, ← hsize]
            exact hresponses k gp' resp' hgp hresp
      · rw [List.zip_cons_cons, latest_exchange hnext, hfinal]

theorem transports_cons_eq_ok {final : Memory} {gps resps : List GenericPayload}
    (h : mem.transports (gp :: gps) = .ok (final, resps)) :
    ∃ next resp rest, mem.bTransport gp = .ok (next, resp) ∧
      next.transports gps = .ok (final, rest) ∧ resps = resp :: rest := by
  simp only [transports, bind_eq_ok, pure_eq_ok, Prod.mk.injEq] at h
  obtain ⟨⟨next, resp⟩, htransport, ⟨final', rest⟩, hrest, rfl, rfl⟩ := h
  exact ⟨next, resp, rest, htransport, hrest, rfl⟩

theorem regular_of_answers {next : Memory} {contents : Nat → UInt8}
    (htransport : mem.bTransport gp = .ok (next, resp))
    (hanswers : Answers mem.memorySize contents gp resp) : gp.regular mem.memorySize = true := by
  apply regular_of_checkAddress
  rw [← bTransport_status htransport]
  exact hanswers.accepted

theorem regular_of_behavesAsArray {gps : List GenericPayload}
    (hplain : ∀ gp ∈ gps, gp.plain = true) (h : mem.BehavesAsArray gps) :
    ∀ gp ∈ gps, gp.regular mem.memorySize = true := by
  induction gps generalizing mem with
  | nil => simp
  | cons gp gps ih =>
      obtain ⟨final, resps, hrun, hlength, hresponses, hfinal⟩ := h
      obtain ⟨next, resp, rest, htransport, hrest, rfl⟩ := transports_cons_eq_ok hrun
      have hregular := regular_of_answers htransport (hresponses 0 gp resp rfl rfl)
      obtain ⟨next', resp', htransport', hsize, -, hnext⟩ :=
        bTransport_spec (hplain gp (by simp)) hregular
      rw [htransport, Except.ok.injEq, Prod.mk.injEq] at htransport'
      obtain ⟨rfl, rfl⟩ := htransport'
      have hbehaves : next.BehavesAsArray gps := by
        refine ⟨final, rest, hrest, by simpa using hlength, ?_, ?_⟩
        · intro k gp' resp' hgp hresp
          have hanswers := hresponses (k + 1) gp' resp' hgp hresp
          rw [List.take_succ_cons, List.take_succ_cons, List.zip_cons_cons,
            latest_exchange hnext, ← hsize] at hanswers
          exact hanswers
        · rw [hfinal, List.zip_cons_cons, latest_exchange hnext]
      intro gp' hgp
      rw [List.mem_cons] at hgp
      obtain rfl | hgp := hgp
      · exact hregular
      · exact hsize ▸ ih (fun other hother => hplain other (by simp [hother])) hbehaves gp' hgp

/-- The memory behaves as a bounded array of bytes exactly on the transactions
whose range neither ends where the memory does nor wraps around. -/
theorem behaves_as_array_iff_regular (mem : Memory) (gps : List GenericPayload)
    (hplain : ∀ gp ∈ gps, gp.plain = true) :
    mem.BehavesAsArray gps ↔ ∀ gp ∈ gps, gp.regular mem.memorySize = true :=
  ⟨regular_of_behavesAsArray hplain, behavesAsArray_of_regular hplain⟩

/-- A plain access of a few bytes. -/
def access (command : TlmCommand) (address : Addr) (data : List UInt8)
    (h : data.length < 2 ^ 32) : GenericPayload :=
  { command, address, data, streamingWidth := BitVec.ofNat 32 data.length, byteEnablePtr := 0,
    responseStatus := .incompleteResponse, dataLength_lt := h }

/-- Sixteen bytes of memory, cleared. -/
def cleared : Memory := { memorySize := 16, memory := fun _ => 0 }

theorem behaves_as_array_iff_regular_overlap :
    cleared.BehavesAsArray
      [access .writeCommand 4 [1, 2, 3, 4] (by decide), access .writeCommand 6 [5] (by decide),
        access .readCommand 4 [0, 0, 0, 0] (by decide)] :=
  (behaves_as_array_iff_regular cleared _ (by decide)).mpr (by decide)

/-- The last four bytes are out of reach. -/
theorem last_bytes_are_refused :
    ¬ cleared.BehavesAsArray [access .readCommand 12 [0, 0, 0, 0] (by decide)] := by
  intro h
  have hregular := regular_of_behavesAsArray (by decide) h
    (access .readCommand 12 [0, 0, 0, 0] (by decide)) (by simp)
  exact absurd hregular (by decide)

/-- An error is reported, and neither memory nor buffer change. -/
def RefusesWithoutEffect (mem : Memory) (gp : GenericPayload) : Prop :=
  ∃ resp, mem.bTransport gp = .ok (mem, resp) ∧ resp.responseStatus ≠ .okResponse ∧
    resp.data = gp.data

theorem unsupported_refused_iff_out_of_range (mem : Memory) (gp : GenericPayload)
    (hunsupported : gp.unsupported = true) :
    mem.RefusesWithoutEffect gp ↔
      mem.memorySize ≤ gp.address ∨
        mem.memorySize ≤ gp.address + gp.dataLength.setWidth 64 := by
  have hcheck : mem.checkAddress gp ≠ .okResponse ↔ mem.memorySize ≤ gp.address ∨
      mem.memorySize ≤ gp.address + gp.dataLength.setWidth 64 := by
    rw [Ne, checkAddress_eq_ok, BitVec.le_def, BitVec.le_def, gp.toNat_address_add]
    omega
  have hcommand : gp.command ≠ .ignoreCommand := by
    simp only [GenericPayload.unsupported, Bool.and_eq_true, bne_iff_ne] at hunsupported
    exact hunsupported.1
  rw [← hcheck]
  constructor
  · rintro ⟨resp, htransport, hstatus, -⟩
    rw [← bTransport_status htransport]
    exact hstatus
  · intro hrefused
    obtain ⟨resp, htransport, hdata⟩ := bTransport_refused hcommand hrefused
    exact ⟨resp, htransport, by rw [bTransport_status htransport]; exact hrefused, hdata⟩

theorem unsupported_refused_iff_out_of_range_beyond :
    cleared.RefusesWithoutEffect (Initiator.readPayload 20 [0, 0] (by decide)) :=
  (unsupported_refused_iff_out_of_range cleared _ (by decide)).mpr (by decide)

/-- The byte enables of a read by the cache are ignored. -/
theorem byte_enabled_read_is_accepted :
    (Initiator.readPayload 4 [7, 7] (by decide)).unsupported = true ∧
      ¬ cleared.RefusesWithoutEffect (Initiator.readPayload 4 [7, 7] (by decide)) := by
  refine ⟨by decide, ?_⟩
  rintro ⟨resp, htransport, hstatus, -⟩
  rw [bTransport_status htransport] at hstatus
  exact hstatus (by decide)

/-- What the cache sends is of the unsupported kind: every write of some bytes,
and every read that is not at address zero. -/
theorem initiator_unsupported (addr : Addr) (buf : List UInt8) (h : buf.length < 2 ^ 32) :
    ((Initiator.writePayload addr buf h).unsupported = true ↔ buf ≠ []) ∧
      ((Initiator.readPayload addr buf h).unsupported = true ↔ addr ≠ 0) := by
  constructor
  · have hzero : (0 : BitVec 32) ≠ BitVec.ofNat 32 buf.length ↔ buf ≠ [] := by
      rw [Ne, ← BitVec.toNat_inj, BitVec.toNat_ofNat, Nat.mod_eq_of_lt h]
      exact not_congr (eq_comm.trans List.length_eq_zero_iff)
    simpa [GenericPayload.unsupported, Initiator.writePayload, GenericPayload.dataLength]
      using hzero
  · simp [GenericPayload.unsupported, Initiator.readPayload, GenericPayload.dataLength]

end Memory

end KuiperCache
