import Quetz.Lib.BitFields
import Quetz.UserFault

/-!
# MMIO of an RV64 Guest

In user mode a load or a store to an aperture faults, and `sst_mmio_handle_fault` performs it: it
decodes the instruction (`decode_ldst` in `qemu-overlay/linux-user/sst_mmio.c`), sends the request
through the mailbox, writes the register and moves the program counter.

`MemInsn` is the other side, a part of the loads and stores of the architecture, with their
encodings and what they do: the integer ones with an offset, and of the compressed ones `c.lw`,
`c.ld`, `c.sw` and `c.sd`. The handler recognizes exactly these, and does the same. It leaves to the
guest's own fault handler the compressed ones that address the stack, those of the floating-point
registers, and the atomic instructions.

## Main results

* `decodeLdst_isSome_iff`: the words the handler decodes are those of the instructions.
* `handleFault_riscv_iff`: which faults are serviced, and that the instruction is executed.
-/

namespace Quetz.UserMode.Riscv

open BitFields Bytes ByteMemory

/-! ### The guest -/

/-- The program counter and the integer registers; `x0` is zero. -/
structure RiscvState where
  pc : UInt64
  gpr : ℕ → BitVec 64
  zero : gpr 0 = 0

/-- Write a register; `x0` stays zero. -/
def RiscvState.setGpr (st : RiscvState) (rd : ℕ) (v : BitVec 64) : RiscvState where
  pc := st.pc
  gpr := if rd = 0 then st.gpr else Function.update st.gpr rd v
  zero := by
    split
    · exact st.zero
    · rename_i hrd
      rw [Function.update_of_ne (Ne.symm hrd), st.zero]

/-- Move the program counter. -/
def RiscvState.advance (st : RiscvState) (len : ℕ) : RiscvState :=
  { st with pc := st.pc + .ofNat len }

/-! ### The handler -/

/-- What `decode_ldst` finds out about a word. -/
structure LdSt where
  len : ℕ
  isStore : Bool
  size : ℕ
  rd : ℕ := 0
  rs2 : ℕ := 0
  isSigned : Bool := false
deriving DecidableEq, Repr

/-- `decode_ldst`; a word that is not a load or a store it knows is `none`. -/
def decodeLdst (insn : ℕ) : Option LdSt :=
  if field insn 0 2 ≠ 3 then
    let creg := 8 + field insn 2 3
    if field insn 0 2 ≠ 0 then none
    else match field insn 13 3 with
      | 2 => some { len := 2, isStore := false, size := 4, rd := creg, isSigned := true }
      | 3 => some { len := 2, isStore := false, size := 8, rd := creg }
      | 6 => some { len := 2, isStore := true, size := 4, rs2 := creg }
      | 7 => some { len := 2, isStore := true, size := 8, rs2 := creg }
      | _ => none
  else
    let rd := field insn 7 5
    let rs2 := field insn 20 5
    if field insn 0 7 = 0x03 then
      match field insn 12 3 with
      | 0 => some { len := 4, isStore := false, size := 1, rd, rs2, isSigned := true }
      | 1 => some { len := 4, isStore := false, size := 2, rd, rs2, isSigned := true }
      | 2 => some { len := 4, isStore := false, size := 4, rd, rs2, isSigned := true }
      | 3 => some { len := 4, isStore := false, size := 8, rd, rs2 }
      | 4 => some { len := 4, isStore := false, size := 1, rd, rs2 }
      | 5 => some { len := 4, isStore := false, size := 2, rd, rs2 }
      | 6 => some { len := 4, isStore := false, size := 4, rd, rs2 }
      | _ => none
    else if field insn 0 7 = 0x23 then
      match field insn 12 3 with
      | 0 => some { len := 4, isStore := true, size := 1, rd, rs2 }
      | 1 => some { len := 4, isStore := true, size := 2, rd, rs2 }
      | 2 => some { len := 4, isStore := true, size := 4, rd, rs2 }
      | 3 => some { len := 4, isStore := true, size := 8, rd, rs2 }
      | _ => none
    else none

/-- The value a load puts into its register, widened by shifts or a mask. -/
def widen (size : ℕ) (isSigned : Bool) (val : BitVec 64) : BitVec 64 :=
  if size < 8 then
    let shift := 64 - size * 8
    if isSigned then (val <<< shift).sshiftRight shift
    else val &&& ((1#64 <<< (size * 8)) - 1#64)
  else val

/-- `sst_mmio_handle_fault` for RV64. `none` is a return to QEMU, which delivers the fault to the
guest; otherwise the guest goes on in the state. -/
def handleFault {δ : Type} (port : Port δ) (host : IpcHost) (s : Apertures)
    (user : UserMemory 64) (f : Fault) (st : RiscvState) (d : δ) :
    Option (RiscvState × δ) :=
  match faultRange host s f with
  | none => none
  | some (r, c) =>
      match user.getUser .little 4 st.pc.toNat with
      | none => none
      | some insn =>
          match decodeLdst insn with
          | none => none
          | some i =>
              if i.isStore != f.isWrite || !r.fits f.guestAddr i.size then none
              else if i.isStore then
                let d := port.mmioWrite host c f.cpuIndex f.guestAddr i.size
                  (.ofBitVec (st.gpr i.rs2)) d
                some (st.advance i.len, d)
              else
                let (val, d) := port.mmioRead host c f.cpuIndex f.guestAddr i.size d
                some ((st.setGpr i.rd (widen i.size i.isSigned val.toBitVec)).advance i.len, d)

/-! ### Loads and stores -/

/-- A load or a store of an integer register with an offset: in the base encoding, or `c.lw`,
`c.ld`, `c.sw` and `c.sd`. Registers of the compressed ones are `x8` to `x15`; `lo` and `hi` are the
two parts of their offset. -/
inductive MemInsn where
  | load (width : Fin 4) (isUnsigned : Bool) (rd rs1 : Fin 32) (imm : BitVec 12)
  | store (width : Fin 4) (rs2 rs1 : Fin 32) (imm : BitVec 12)
  | cload (double : Bool) (rd rs1 : Fin 8) (lo : Fin 4) (hi : Fin 8)
  | cstore (double : Bool) (rs2 rs1 : Fin 8) (lo : Fin 4) (hi : Fin 8)
deriving DecidableEq, Repr

namespace MemInsn

/-- There is no unsigned load of a double word. -/
def Valid : MemInsn → Prop
  | load width isUnsigned .. => ¬ (width = 3 ∧ isUnsigned = true)
  | _ => True

/-- The length of the instruction. -/
def len : MemInsn → ℕ
  | load .. | store .. => 4
  | cload .. | cstore .. => 2

def isStore : MemInsn → Bool
  | load .. | cload .. => false
  | store .. | cstore .. => true

/-- The bytes that are accessed. -/
def size : MemInsn → ℕ
  | load width .. | store width .. => 2 ^ width.val
  | cload double .. | cstore double .. => if double then 8 else 4

/-- The register that is written or stored. -/
def reg : MemInsn → ℕ
  | load _ _ rd _ _ => rd
  | store _ rs2 _ _ => rs2
  | cload _ rd .. => 8 + rd
  | cstore _ rs2 .. => 8 + rs2

/-- The value of a load is extended by its sign. -/
def isSigned : MemInsn → Bool
  | load _ isUnsigned .. => !isUnsigned
  | _ => true

/-- The fields of the encoding, lowest bits first. -/
def fields : MemInsn → List (ℕ × ℕ)
  | load width isUnsigned rd rs1 imm =>
      [(7, 0x03), (5, rd), (3, width + if isUnsigned then 4 else 0), (5, rs1), (12, imm.toNat)]
  | store width rs2 rs1 imm =>
      [(7, 0x23), (5, imm.toNat % 2 ^ 5), (3, width), (5, rs1), (5, rs2), (7, imm.toNat / 2 ^ 5)]
  | cload double rd rs1 lo hi =>
      [(2, 0), (3, rd), (2, lo), (3, rs1), (3, hi), (3, if double then 3 else 2)]
  | cstore double rs2 rs1 lo hi =>
      [(2, 0), (3, rs2), (2, lo), (3, rs1), (3, hi), (3, if double then 7 else 6)]

/-- The word at the program counter begins with the instruction. -/
def EncodedIn (i : MemInsn) (insn : ℕ) : Prop := insn % 2 ^ (8 * i.len) = pack i.fields

/-- The register of the address and the offset. The offset of a compressed one is scaled, and the
parts are scattered. -/
def base : MemInsn → ℕ × BitVec 64
  | load _ _ _ rs1 imm | store _ _ rs1 imm => (rs1, imm.signExtend 64)
  | cload double _ rs1 lo hi | cstore double _ rs1 lo hi =>
      (8 + rs1, .ofNat 64 (8 * hi +
        if double then 64 * lo else 4 * (lo / 2) + 64 * (lo % 2)))

/-- The address that is accessed. -/
def address (i : MemInsn) (st : RiscvState) : UInt64 :=
  .ofBitVec (st.gpr i.base.1 + i.base.2)

/-- The register value of a load: the bytes that were read, extended to the register. -/
def extend (i : MemInsn) (val : BitVec 64) : BitVec 64 :=
  if i.isSigned then (val.setWidth (8 * i.size)).signExtend 64
  else (val.setWidth (8 * i.size)).setWidth 64

/-- The access of the instruction. -/
def request (i : MemInsn) (st : RiscvState) : MmioSyncRequest where
  cmd := if i.isStore then .mmioWriteReq else .mmioReadReq
  addr := i.address st
  size := i.size
  writeVal := if i.isStore then .ofBitVec (st.gpr i.reg) else 0

/-- The instruction, with the value its access returns. -/
def retire (i : MemInsn) (val : UInt64) (st : RiscvState) : RiscvState :=
  if i.isStore then st.advance i.len
  else (st.setGpr i.reg (i.extend val.toBitVec)).advance i.len

/-- The instruction on a memory or a device that serves requests. -/
def exec {δ : Type} (serve : MmioSyncRequest → δ → UInt64 × δ) (i : MemInsn) (st : RiscvState)
    (d : δ) : RiscvState × δ :=
  (i.retire (serve (i.request st) d).1 st, (serve (i.request st) d).2)

/-! ### The encodings -/

section

variable {i : MemInsn} {insn : ℕ} {d : LdSt}

theorem fits (i : MemInsn) : Fits i.fields := by
  cases i with
  | load width isUnsigned rd rs1 imm =>
      have := imm.isLt
      cases isUnsigned <;> simp [Fits, fields] <;> omega
  | store width rs2 rs1 imm =>
      have := imm.isLt
      simp [Fits, fields]
      omega
  | cload double rd rs1 lo hi => cases double <;> simp [Fits, fields]
  | cstore double rs2 rs1 lo hi => cases double <;> simp [Fits, fields]

theorem width_fields (i : MemInsn) : width i.fields = 8 * i.len := by
  cases i <;> rfl

/-- The fields of a word that begins with the instruction. -/
theorem EncodedIn.field_eq (h : i.EncodedIn insn) (before : List (ℕ × ℕ))
    {after : List (ℕ × ℕ)} {n v : ℕ} (hfields : i.fields = before ++ (n, v) :: after) :
    field insn (width before) n = v := by
  have hfits : Fits (before ++ (n, v) :: after) := hfields ▸ i.fits
  have hw : width before + n ≤ 8 * i.len := by
    rw [← width_fields, hfields]
    simp only [width, List.map_append, List.sum_append, List.map_cons, List.sum_cons]
    omega
  rw [← field_mod hw, h, hfields]
  exact field_pack (fun f hf => hfits f (List.mem_append_left _ hf))
    (hfits (n, v) (List.mem_append_right _ List.mem_cons_self)) after

/-- The lowest two bits tell the base encoding from the compressed one. -/
theorem EncodedIn.low (h : i.EncodedIn insn) : field insn 0 2 = if i.len = 4 then 3 else 0 := by
  have hbase : ∀ op, op < 2 ^ 7 → field insn 0 7 = op → field insn 0 2 = field op 0 2 := by
    intro op _ hop
    rw [← field_field 0 (by decide : 0 + 2 ≤ 7), hop]
  cases i with
  | load _ _ _ _ _ => exact hbase 0x03 (by decide) (h.field_eq [] rfl)
  | store _ _ _ _ => exact hbase 0x23 (by decide) (h.field_eq [] rfl)
  | cload _ _ _ _ _ | cstore _ _ _ _ _ => exact h.field_eq [] rfl

/-- Instructions of one format that are encoded in a word have the same fields. -/
theorem EncodedIn.fields_eq {j : MemInsn} (hi : i.EncodedIn insn) (hj : j.EncodedIn insn)
    (hwidths : i.fields.map Prod.fst = j.fields.map Prod.fst) : i.fields = j.fields := by
  have hlen : i.len = j.len := by
    have hw : width i.fields = width j.fields := by rw [width, width, hwidths]
    rw [width_fields, width_fields] at hw
    omega
  refine pack_inj i.fits j.fits hwidths ?_
  rw [← hi, ← hj, hlen]

/-- A word begins with at most one instruction. -/
theorem EncodedIn.unique {j : MemInsn} (hi : i.EncodedIn insn) (hj : j.EncodedIn insn) : i = j := by
  have hlow := hi.low.symm.trans hj.low
  have hfirst : ∀ {k : MemInsn} {n v : ℕ} {fs}, k.EncodedIn insn → k.fields = (n, v) :: fs →
      field insn 0 n = v := fun hk hfields => hk.field_eq [] hfields
  match i, j with
  | load w u rd rs1 imm, load w' u' rd' rs1' imm' =>
      have hfields := hi.fields_eq hj rfl
      simp only [fields, List.cons.injEq, Prod.mk.injEq, true_and, and_true] at hfields
      obtain ⟨hrd, hfunct, hrs1, himm⟩ := hfields
      have := w.isLt
      have := w'.isLt
      obtain rfl : u = u' := by
        cases u <;> cases u' <;> first | rfl | (simp at hfunct; omega)
      rw [Fin.ext hrd, Fin.ext hrs1, BitVec.eq_of_toNat_eq himm,
        Fin.ext (Nat.add_right_cancel hfunct)]
  | store w rs2 rs1 imm, store w' rs2' rs1' imm' =>
      have hfields := hi.fields_eq hj rfl
      simp only [fields, List.cons.injEq, Prod.mk.injEq, true_and, and_true] at hfields
      obtain ⟨hlo, hw, hrs1, hrs2, hhi⟩ := hfields
      obtain rfl : imm = imm' := BitVec.eq_of_toNat_eq (by omega)
      rw [Fin.ext hw, Fin.ext hrs1, Fin.ext hrs2]
  | cload dbl rd rs1 lo up, cload dbl' rd' rs1' lo' up' | cstore dbl rd rs1 lo up,
    cstore dbl' rd' rs1' lo' up' =>
      have hfields := hi.fields_eq hj rfl
      simp only [fields, List.cons.injEq, Prod.mk.injEq, true_and, and_true] at hfields
      obtain ⟨hrd, hlo, hrs1, hup, hfunct⟩ := hfields
      obtain rfl : dbl = dbl' := by
        cases dbl <;> cases dbl' <;> first | rfl | exact absurd hfunct (by decide)
      rw [Fin.ext hrd, Fin.ext hlo, Fin.ext hrs1, Fin.ext hup]
  | load .., store .. => exact absurd ((hfirst hi rfl).symm.trans (hfirst hj rfl)) (by decide)
  | store .., load .. => exact absurd ((hfirst hi rfl).symm.trans (hfirst hj rfl)) (by decide)
  | cload dbl _ _ _ _, cstore dbl' _ _ _ _ | cstore dbl _ _ _ _, cload dbl' _ _ _ _ =>
      have hfields := hi.fields_eq hj rfl
      simp only [fields, List.cons.injEq, Prod.mk.injEq, true_and, and_true] at hfields
      cases dbl <;> cases dbl' <;> exact absurd hfields.2.2.2.2 (by decide)
  | load .., cload .. | load .., cstore .. | store .., cload .. | store .., cstore ..
  | cload .., load .. | cload .., store .. | cstore .., load .. | cstore .., store .. =>
      simp [len] at hlow

/-- What the handler finds out about an instruction. -/
structure Decodes (d : LdSt) (i : MemInsn) : Prop where
  len : d.len = i.len
  isStore : d.isStore = i.isStore
  size : d.size = i.size
  reg : (if d.isStore then d.rs2 else d.rd) = i.reg
  isSigned : i.isStore = false → i.size < 8 → d.isSigned = i.isSigned

/-- The handler decodes every load and every store. -/
theorem EncodedIn.decodes (h : i.EncodedIn insn) (hv : i.Valid) :
    ∃ d, decodeLdst insn = some d ∧ Decodes d i := by
  cases i with
  | load width isUnsigned rd rs1 imm =>
      have hop : field insn 0 7 = 3 := h.field_eq [] rfl
      have hrd : field insn 7 5 = rd := h.field_eq [(7, 0x03)] rfl
      have hf : field insn 12 3 = width + if isUnsigned then 4 else 0 :=
        h.field_eq [(7, 0x03), (5, rd)] rfl
      have hlow : field insn 0 2 = 3 := by
        rw [← field_field 0 (by decide : 0 + 2 ≤ 7), hop]
        rfl
      rw [decodeLdst, if_neg (not_not.mpr hlow), if_pos hop, hf]
      match width, isUnsigned, hv with
      | 0, false, _ | 1, false, _ | 2, false, _ | 0, true, _ | 1, true, _ | 2, true, _ =>
          exact ⟨_, rfl, rfl, rfl, rfl, hrd, fun _ _ => rfl⟩
      | 3, false, _ => exact ⟨_, rfl, rfl, rfl, rfl, hrd, fun _ h8 => absurd h8 (lt_irrefl 8)⟩
      | 3, true, hv => exact absurd ⟨rfl, rfl⟩ hv
  | store width rs2 rs1 imm =>
      have hop : field insn 0 7 = 0x23 := h.field_eq [] rfl
      have hrs2 : field insn 20 5 = rs2 := h.field_eq
        [(7, 0x23), (5, imm.toNat % 2 ^ 5), (3, width), (5, rs1)] rfl
      have hf : field insn 12 3 = width :=
        h.field_eq [(7, 0x23), (5, imm.toNat % 2 ^ 5)] rfl
      have hlow : field insn 0 2 = 3 := by
        rw [← field_field 0 (by decide : 0 + 2 ≤ 7), hop]
        rfl
      rw [decodeLdst, if_neg (not_not.mpr hlow), if_neg (by rw [hop]; decide), if_pos hop, hf]
      match width with
      | 0 | 1 | 2 | 3 => exact ⟨_, rfl, rfl, rfl, rfl, hrs2, fun hstore => Bool.noConfusion hstore⟩
  | cload double rd rs1 lo hi =>
      have hq : field insn 0 2 = 0 := h.field_eq [] rfl
      have hrd : field insn 2 3 = rd := h.field_eq [(2, 0)] rfl
      have hf : field insn 13 3 = if double then 3 else 2 :=
        h.field_eq [(2, 0), (3, rd), (2, lo), (3, rs1), (3, hi)] rfl
      rw [decodeLdst, if_pos (by rw [hq]; decide), if_neg (not_not.mpr hq), hrd, hf]
      match double with
      | false => exact ⟨_, rfl, rfl, rfl, rfl, rfl, fun _ _ => rfl⟩
      | true => exact ⟨_, rfl, rfl, rfl, rfl, rfl, fun _ h8 => absurd h8 (lt_irrefl 8)⟩
  | cstore double rs2 rs1 lo hi =>
      have hq : field insn 0 2 = 0 := h.field_eq [] rfl
      have hrs2 : field insn 2 3 = rs2 := h.field_eq [(2, 0)] rfl
      have hf : field insn 13 3 = if double then 7 else 6 :=
        h.field_eq [(2, 0), (3, rs2), (2, lo), (3, rs1), (3, hi)] rfl
      rw [decodeLdst, if_pos (by rw [hq]; decide), if_neg (not_not.mpr hq), hrs2, hf]
      match double with
      | false | true => exact ⟨_, rfl, rfl, rfl, rfl, rfl, fun hstore => Bool.noConfusion hstore⟩

/-- The instruction is made of the fields of the word. -/
theorem encodedIn_of_cut (ns : List ℕ) (hcut : cut ns insn = i.fields) : i.EncodedIn insn := by
  have hsum : ns.sum = 8 * i.len := by
    have hmap : (cut ns insn).map Prod.fst = ns := by
      clear hcut
      induction ns generalizing insn with
      | nil => rfl
      | cons n ns ih => rw [cut, List.map_cons, ih]
    rw [← width_fields, ← hcut, width, hmap]
  rw [EncodedIn, ← hsum, ← pack_cut, hcut]

/-- A word with the opcode of a load. -/
theorem exists_load (width : Fin 4) (isUnsigned : Bool) (hop : field insn 0 7 = 0x03)
    (hv : ¬ (width = 3 ∧ isUnsigned = true))
    (hf : field insn 12 3 = width + if isUnsigned then 4 else 0) :
    ∃ i : MemInsn, i.Valid ∧ i.EncodedIn insn := by
  refine ⟨load width isUnsigned ⟨field insn 7 5, field_lt _ _ _⟩ ⟨field insn 15 5, field_lt _ _ _⟩
    (.ofNatLT (field insn 20 12) (field_lt _ _ _)), hv,
    encodedIn_of_cut [7, 5, 3, 5, 12] ?_⟩
  rw [← Nat.div_one insn, ← pow_zero 2, cut_shift, cut_shift, cut_shift, cut_shift, cut_shift]
  simp [fields, cut, hop, hf]

/-- A word with the opcode of a store. -/
theorem exists_store (width : Fin 4) (hop : field insn 0 7 = 0x23)
    (hf : field insn 12 3 = width) : ∃ i : MemInsn, i.Valid ∧ i.EncodedIn insn := by
  refine ⟨store width ⟨field insn 20 5, field_lt _ _ _⟩ ⟨field insn 15 5, field_lt _ _ _⟩
    (.ofNat 12 (field insn 7 5 + 2 ^ 5 * field insn 25 7)), trivial,
    encodedIn_of_cut [7, 5, 3, 5, 5, 7] ?_⟩
  rw [← Nat.div_one insn, ← pow_zero 2, cut_shift, cut_shift, cut_shift, cut_shift, cut_shift,
    cut_shift]
  have hlo := field_lt insn 7 5
  have hhi := field_lt insn 25 7
  simp [fields, cut, hop, hf]
  omega

/-- A compressed word of the first quadrant that loads or stores. -/
theorem exists_compressed (isStore double : Bool) (hq : field insn 0 2 = 0)
    (hf : field insn 13 3 = (if double then 3 else 2) + if isStore then 4 else 0) :
    ∃ i : MemInsn, i.Valid ∧ i.EncodedIn insn := by
  have hcut : cut [2, 3, 2, 3, 3, 3] insn = [(2, 0), (3, field insn 2 3), (2, field insn 5 2),
      (3, field insn 7 3), (3, field insn 10 3), (3, field insn 13 3)] := by
    rw [← Nat.div_one insn, ← pow_zero 2, cut_shift, cut_shift, cut_shift, cut_shift, cut_shift,
      cut_shift]
    simp [cut, hq]
  have hlt := field_lt insn
  cases isStore with
  | false =>
      refine ⟨cload double ⟨_, hlt 2 3⟩ ⟨_, hlt 7 3⟩ ⟨_, hlt 5 2⟩ ⟨_, hlt 10 3⟩, trivial,
        encodedIn_of_cut [2, 3, 2, 3, 3, 3] ?_⟩
      rw [hcut, hf]
      rfl
  | true =>
      refine ⟨cstore double ⟨_, hlt 2 3⟩ ⟨_, hlt 7 3⟩ ⟨_, hlt 5 2⟩ ⟨_, hlt 10 3⟩, trivial,
        encodedIn_of_cut [2, 3, 2, 3, 3, 3] ?_⟩
      rw [hcut, hf]
      cases double <;> rfl

/-- The handler decodes nothing else. -/
theorem exists_of_decodeLdst (h : decodeLdst insn = some d) :
    ∃ i : MemInsn, i.Valid ∧ i.EncodedIn insn := by
  rw [decodeLdst] at h
  split at h
  · simp only at h
    split at h
    · exact absurd h (by rintro ⟨⟩)
    rename_i hq
    have hq := not_not.mp hq
    split at h
    next hf => exact exists_compressed false false hq hf
    next hf => exact exists_compressed false true hq hf
    next hf => exact exists_compressed true false hq hf
    next hf => exact exists_compressed true true hq hf
    next => exact absurd h (by rintro ⟨⟩)
  · simp only at h
    split at h
    next hop =>
      split at h
      next hf => exact exists_load 0 false hop (by decide) hf
      next hf => exact exists_load 1 false hop (by decide) hf
      next hf => exact exists_load 2 false hop (by decide) hf
      next hf => exact exists_load 3 false hop (by decide) hf
      next hf => exact exists_load 0 true hop (by decide) hf
      next hf => exact exists_load 1 true hop (by decide) hf
      next hf => exact exists_load 2 true hop (by decide) hf
      next => exact absurd h (by rintro ⟨⟩)
    next =>
      split at h
      next hop =>
        split at h
        next hf => exact exists_store 0 hop hf
        next hf => exact exists_store 1 hop hf
        next hf => exact exists_store 2 hop hf
        next hf => exact exists_store 3 hop hf
        next => exact absurd h (by rintro ⟨⟩)
      next => exact absurd h (by rintro ⟨⟩)

/-- **The words the handler decodes are those of the instructions.** -/
theorem decodeLdst_isSome_iff :
    (decodeLdst insn).isSome = true ↔ ∃ i : MemInsn, i.Valid ∧ i.EncodedIn insn := by
  rw [Option.isSome_iff_exists]
  constructor
  · rintro ⟨d, hd⟩
    exact exists_of_decodeLdst hd
  · rintro ⟨i, hv, hi⟩
    obtain ⟨d, hd, -⟩ := hi.decodes hv
    exact ⟨d, hd⟩

theorem size_bounds (i : MemInsn) : 0 < i.size ∧ i.size ≤ 8 := by
  cases i with
  | load width _ _ _ _ | store width _ _ _ =>
      exact ⟨Nat.two_pow_pos _, Nat.pow_le_pow_right (by decide) (Nat.le_of_lt_succ width.isLt)⟩
  | cload double _ _ _ _ | cstore double _ _ _ _ =>
      cases double <;> exact ⟨by simp [size], by simp [size]⟩

/-- The handler widens a value as the load does. -/
theorem Decodes.widen_eq (h : Decodes d i) (hload : i.isStore = false) (val : BitVec 64) :
    widen d.size d.isSigned val = i.extend val := by
  obtain ⟨hpos, hmax⟩ := i.size_bounds
  rw [widen, h.size, extend]
  by_cases h8 : i.size < 8
  · rw [if_pos h8, h.isSigned hload h8, Nat.mul_comm i.size 8]
    split
    · exact sshiftRight_shiftLeft val (by omega) (by omega)
    · exact and_mask val (by omega)
  · have h8 : i.size = 8 := by omega
    rw [if_neg (by omega), h8]
    split
    · rw [BitVec.setWidth_eq, BitVec.signExtend_eq]
    · rw [BitVec.setWidth_eq, BitVec.setWidth_eq]

end

end MemInsn

/-! ### The fault -/

section

variable {δ : Type} {port : Port δ} {host : IpcHost} {abiMax : UInt64} {s : Apertures}
  {specs : List (Option (List Char))} {user : UserMemory 64} {f : Fault}
  {st : RiscvState} {d : δ} {x : RiscvState × δ}

open MemInsn

/-- The handler on an instruction. -/
theorem handleFault_of_encoded (hs : s.Well host abiMax) {r : SstMmioRange} {c insn : ℕ}
    (hrange : faultRange host s f = some (r, c))
    (hinsn : user.getUser .little 4 st.pc.toNat = some insn)
    {i : MemInsn} (hv : i.Valid) (hi : i.EncodedIn insn) (haddr : f.guestAddr = i.address st) :
    handleFault port host s user f st d =
      if i.isStore = f.isWrite ∧ r.fits f.guestAddr i.size = true then
        some (i.exec (port.serve c f.cpuIndex) st d)
      else none := by
  obtain ⟨l, hl, hdec⟩ := hi.decodes hv
  rw [handleFault, hrange]
  simp only [hinsn, hl, hdec.isStore, hdec.size, hdec.len]
  by_cases hdir : i.isStore = f.isWrite
  swap
  · rw [if_pos (by simp [hdir]), if_neg fun h => hdir h.1]
  by_cases hfits : r.fits f.guestAddr i.size = true
  swap
  · rw [if_pos (by simp [hfits]), if_neg fun h => hfits h.2]
  rw [if_neg (by simp [hdir, hfits]),
    if_pos (show i.isStore = f.isWrite ∧ r.fits f.guestAddr i.size = true from ⟨hdir, hfits⟩),
    Port.mmioWrite_of_fault hrange hs, Port.mmioRead_of_fault hrange hs]
  have hreg := hdec.reg
  rw [hdec.isStore] at hreg
  rw [exec, retire, request, ← haddr]
  cases hstore : i.isStore with
  | true =>
      rw [hstore, if_pos rfl] at hreg
      simp only [if_true, hreg]
  | false =>
      rw [hstore, if_neg Bool.false_ne_true] at hreg
      simp only [Bool.false_eq_true, if_false, hreg, ← hdec.size, hdec.widen_eq hstore]

/-- **MMIO of an RV64 guest.** A fault is serviced exactly if it is in a range of a client with a
mailbox for the thread, four bytes can be read at the instruction, it is one of these loads and
stores and of this direction, and the access ends inside the range; the guest then goes on as after
this instruction on what the client serves. -/
theorem handleFault_riscv_iff (h : registerAll host abiMax {} specs = .ok s)
    (haddr : ∀ insn i, user.getUser .little 4 st.pc.toNat = some insn → MemInsn.EncodedIn i insn →
      f.guestAddr = i.address st) :
    handleFault port host s user f st d = some x ↔
      ∃ r ∈ s.ranges, ∃ c insn i, r.client = some c ∧ f.cpuIndex < (host.vcpuCount c).toNat ∧
        f.restored = true ∧ user.getUser .little 4 st.pc.toNat = some insn ∧
        MemInsn.Valid i ∧ i.EncodedIn insn ∧ i.isStore = f.isWrite ∧
        r.base.toNat ≤ (i.address st).toNat ∧
        (i.address st).toNat + i.size ≤ r.base.toNat + r.size.toNat ∧
        x = i.exec (port.serve c f.cpuIndex) st d := by
  obtain ⟨hs, -⟩ := registerAll_well Apertures.well_start h
  constructor
  · intro hx
    have hx' := hx
    rw [handleFault] at hx
    split at hx
    · exact absurd hx (by rintro ⟨⟩)
    rename_i r c hrange
    split at hx
    · exact absurd hx (by rintro ⟨⟩)
    rename_i insn hinsn
    split at hx
    · exact absurd hx (by rintro ⟨⟩)
    rename_i l hl
    obtain ⟨i, hv, hi⟩ := exists_of_decodeLdst hl
    have hat := haddr insn i hinsn hi
    rw [handleFault_of_encoded hs hrange hinsn hv hi hat] at hx'
    obtain ⟨hr, hlo, hend, hc, hcpu, hrest⟩ := (faultRange_eq_some_iff hs).mp hrange
    split at hx'
    · rename_i hok
      have hfits := (SstMmioRange.fits_iff hlo hend).mp hok.2
      rw [hat] at hlo hfits
      exact ⟨r, hr, c, insn, i, hc, hcpu, hrest, hinsn, hv, hi, hok.1, hlo, hfits,
        (Option.some.inj hx').symm⟩
    · exact absurd hx' (by rintro ⟨⟩)
  · rintro ⟨r, hr, c, insn, i, hc, hcpu, hrest, hinsn, hv, hi, hdir, hlo, hfits, rfl⟩
    have hat := haddr insn i hinsn hi
    have hpos := i.size_bounds.1
    rw [← hat] at hlo hfits
    have hrange := (faultRange_eq_some_iff hs (f := f)).mpr ⟨hr, hlo, by omega, hc, hcpu, hrest⟩
    rw [handleFault_of_encoded hs hrange hinsn hv hi hat,
      if_pos ⟨hdir, (SstMmioRange.fits_iff hlo (by omega)).mpr hfits⟩]

/-- On a byte memory a store writes the low bytes of its register, the lowest first, and a load
extends the bytes it reads. -/
theorem exec_memory (i : MemInsn) (c v : ℕ) (mems : ℕ → Mem) :
    i.exec ((Port.memory .little).serve c v) st mems =
      if i.isStore then (st.advance i.len, Function.update mems c
        (writeSpan (mems c) (i.address st).toNat (Bytes.leBytes i.size (st.gpr i.reg).toNat)))
      else ((st.setGpr i.reg (i.extend (.ofNat 64
        (leNat (readSpan (mems c) (i.address st).toNat i.size))))).advance i.len, mems) := by
  rw [exec, retire, request, Port.memory]
  cases hstore : i.isStore with
  | true =>
      simp only [if_true, access, reduceCtorEq, if_false]
      rw [ByteOrder.bytes, UInt64.toNat_ofBitVec (a := st.gpr i.reg)]
  | false =>
      simp only [Bool.false_eq_true, if_false, access, if_true]
      rw [Function.update_eq_self]
      rfl

/-- The load of a word, `lw a0, 4(a1)`, at `0x10000`. -/
def loadWordCode : UserMemory 64 where
  byte a := if a < 0x10000 then none else [0x03, 0xa5, 0x45, 0x00][a - 0x10000]?
  bounded a ha := by
    rw [if_neg (by omega)]
    exact List.getElem?_eq_none (by simp; omega)

/-- `a1` holds the address of an aperture. -/
def loadWordState : RiscvState where
  pc := 0x10000
  gpr n := if n = 11 then 0x1000 else 0
  zero := rfl

/-- The second thread loads a negative word. -/
theorem handleFault_riscv_iff_load :
    ∃ s, registerAll oneClientEach (.ofNat (2 ^ 64 - 1)) {}
        [some "shmname=/a,base=0x1000,size=0x100".toList] = .ok s ∧
      ∃ x, handleFault (Port.memory .little) oneClientEach s loadWordCode ⟨0x1004, false, 1, true⟩
          loadWordState (fun _ a => if a = 0x1007 then 0x80 else 0) = some x ∧
        x.1.pc = 0x10004 ∧ x.1.gpr 10 = 0xffffffff80000000#64 := by
  obtain ⟨s, hs, hranges⟩ : ∃ s, registerAll oneClientEach (.ofNat (2 ^ 64 - 1)) {}
      [some "shmname=/a,base=0x1000,size=0x100".toList] = .ok s ∧
      s.ranges = [⟨"/a".toList, 0x1000, 0x100, 0, some 0⟩] := ⟨_, rfl, rfl⟩
  have hload : MemInsn.EncodedIn (.load 2 false 10 11 4) 0x0045a503 := rfl
  have hinsn : loadWordCode.getUser .little 4 loadWordState.pc.toNat = some 0x0045a503 := rfl
  refine ⟨s, hs, _, (handleFault_riscv_iff hs fun insn i hat hi => ?_).mpr ⟨_,
    hranges ▸ List.mem_cons_self, 0, _, .load 2 false 10 11 4, rfl, by decide, rfl, hinsn,
    fun hv => Bool.noConfusion hv.2, hload, rfl, by decide, by decide, rfl⟩, rfl, rfl⟩
  rw [hinsn] at hat
  rw [EncodedIn.unique hi (Option.some.inj hat ▸ hload)]
  rfl

end

end Quetz.UserMode.Riscv
