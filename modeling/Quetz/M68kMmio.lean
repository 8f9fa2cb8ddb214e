import Quetz.Lib.BitFields
import Quetz.UserFault

/-!
# MMIO of an m68k Guest

The fault handler of user mode on a big-endian m68k (`qemu-overlay/linux-user/sst_mmio_m68k.h` and
the branch of `sst_mmio_handle_fault`). It performs a `MOVE` between an aperture and a register or
an immediate, with the condition codes, and a `MOVEA`, which leaves them alone. Of an indexed
operand it takes the brief extension word only, and operands that would change an address register
it leaves to QEMU, which delivers the fault.

`MoveInsn` is the other side: these moves, with the bytes that encode them and what they do.

## Main results

* `MoveInsn.handled`, `exists_of_decode`: the handler decodes these moves and nothing else.
* `handleFault_m68k_iff`: which faults are serviced, and that the move is executed.
-/

namespace Quetz.UserMode.M68k

open BitFields Bytes ByteMemory

/-! ### The guest -/

/-- The condition codes. -/
structure Ccr where
  x : Bool := false
  n : Bool := false
  z : Bool := false
  v : Bool := false
  c : Bool := false
deriving DecidableEq, Repr

/-- The program counter, the data and the address registers, and the condition codes. -/
structure M68kState where
  pc : UInt32
  dregs : ℕ → BitVec 32
  aregs : ℕ → BitVec 32
  ccr : Ccr := {}

/-- `cpu_m68k_set_ccr`: the codes from their bits. -/
def setCcr (bits : ℕ) : Ccr where
  x := bits.testBit 4
  n := bits.testBit 3
  z := bits.testBit 2
  v := bits.testBit 1
  c := bits.testBit 0

/-! ### The handler -/

/-- `m68k_ea_extlen`: the bytes of the extension words of a memory operand. -/
def eaExtlen (mode reg : ℕ) : Option ℕ :=
  match mode with
  | 2 => some 0
  | 5 => some 2
  | 6 => some 2
  | 7 =>
      match reg with
      | 0 => some 2
      | 1 => some 4
      | 2 => some 2
      | 3 => some 2
      | _ => none
  | _ => none

/-- What `m68k_mmio_decode` finds out about an opcode word. `dreg` is a data register, an address
register from eight on, or an immediate. -/
structure Move where
  len : ℕ
  isStore : Bool
  size : ℕ
  dreg : Option ℕ
  indexOffset : ℕ := 0
deriving DecidableEq, Repr

/-- The switch over the size field: the bytes of the operand and of an immediate. -/
def moveSizes : ℕ → Option (ℕ × ℕ)
  | 1 => some (1, 2)
  | 3 => some (2, 2)
  | 2 => some (4, 4)
  | _ => none

/-- `m68k_mmio_decode`; a form that is not handled is `none`. -/
def mmioDecode (op : ℕ) : Option Move :=
  if field op 14 2 ≠ 0 then none
  else
    match moveSizes (field op 12 2) with
    | none => none
    | some (size, immBytes) =>
        let dstReg := field op 9 3
        let dstMode := field op 6 3
        let srcMode := field op 3 3
        let srcReg := field op 0 3
        let dstIsMem := decide (2 ≤ dstMode) && (dstMode != 7 || decide (dstReg ≤ 1))
        if size == 1 && (srcMode == 1 || dstMode == 1) then none
        else if (srcMode == 0 || srcMode == 1) && dstIsMem then
          (eaExtlen dstMode dstReg).map fun ext =>
            { len := 2 + ext, isStore := true, size
              dreg := some (if srcMode == 1 then 8 + srcReg else srcReg)
              indexOffset := if dstMode == 6 then 2 else 0 }
        else if srcMode == 7 && srcReg == 4 && dstIsMem then
          (eaExtlen dstMode dstReg).map fun ext =>
            { len := 2 + immBytes + ext, isStore := true, size, dreg := none
              indexOffset := if dstMode == 6 then 2 + immBytes else 0 }
        else if dstMode == 0 || dstMode == 1 then
          (eaExtlen srcMode srcReg).map fun ext =>
            { len := 2 + ext, isStore := false, size
              dreg := some (if dstMode == 1 then 8 + dstReg else dstReg)
              indexOffset := if srcMode == 6 || (srcMode == 7 && srcReg == 3) then 2 else 0 }
        else none

/-- The bits of an operand. -/
def operandMask (size : ℕ) : BitVec 32 :=
  if size ≥ 4 then 0xffffffff#32 else (1#32 <<< (size * 8)) - 1#32

/-- `m68k_mmio_move_ccr`. -/
def moveCcr (value : BitVec 32) (size : ℕ) (previousCcr : ℕ) : ℕ :=
  let mask := if size = 4 then 0xffffffff#32 else (1#32 <<< (size * 8)) - 1#32
  let value := value &&& mask
  (previousCcr &&& 0x10) ||| (if value = 0 then 0x04 else 0) |||
    (if value &&& (1#32 <<< (size * 8 - 1)) ≠ 0 then 0x08 else 0)

/-- The value of the source of a store; an immediate follows the opcode word. -/
def sourceValue (user : UserMemory 32) (st : M68kState) (i : Move) : Option (BitVec 32) :=
  match i.dreg with
  | none =>
      if i.size ≥ 4 then (user.getUser .big 4 (st.pc + 2).toNat).map (.ofNat 32)
      else (user.getUser .big 2 (st.pc + 2).toNat).map (.ofNat 32)
  | some dreg => some (if dreg < 8 then st.dregs dreg else st.aregs (dreg - 8))

/-- The extension word at `indexOffset`, if there is one, is a brief one. -/
def briefIndex (user : UserMemory 32) (st : M68kState) (i : Move) : Bool :=
  if i.indexOffset = 0 then true
  else match user.getUser .big 2 (st.pc + .ofNat i.indexOffset).toNat with
    | none => false
    | some ext => field ext 8 1 == 0

/-- The registers after a load: a part of a data register, or an address register. -/
def loadRegister (st : M68kState) (i : Move) (dreg : ℕ) (val : BitVec 32) : M68kState :=
  let mask := operandMask i.size
  if dreg < 8 then
    let value := (st.dregs dreg &&& ~~~mask) ||| (val &&& mask)
    { st with dregs := Function.update st.dregs dreg value }
  else
    let value := if i.size = 2 then (val.setWidth 16).signExtend 32 else val
    { st with aregs := Function.update st.aregs (dreg - 8) value }

/-- The condition codes after a move of a value. -/
def M68kState.moved (st : M68kState) (value : BitVec 32) (size : ℕ) : M68kState :=
  { st with ccr := setCcr (moveCcr value size (if st.ccr.x then 0x10 else 0)) }

/-- Move the program counter. -/
def M68kState.advance (st : M68kState) (len : ℕ) : M68kState :=
  { st with pc := st.pc + .ofNat len }

/-- `sst_mmio_handle_fault` for m68k. `none` is a return to QEMU, which delivers the fault to the
guest; otherwise the guest goes on in the state. -/
def handleFault {δ : Type} (port : Port δ) (host : IpcHost) (s : Apertures) (user : UserMemory 32)
    (f : Fault) (st : M68kState) (d : δ) : Option (M68kState × δ) :=
  match faultRange host s f with
  | none => none
  | some (r, c) =>
      match user.getUser .big 2 st.pc.toNat with
      | none => none
      | some op =>
          match mmioDecode op with
          | none => none
          | some i =>
              if i.isStore != f.isWrite || !r.fits f.guestAddr i.size then none
              else if !briefIndex user st i then none
              else if i.isStore then
                match sourceValue user st i with
                | none => none
                | some raw =>
                    let moved := raw &&& operandMask i.size
                    let d := port.mmioWrite host c f.cpuIndex f.guestAddr i.size
                      (.ofNat moved.toNat) d
                    some ((st.moved moved i.size).advance i.len, d)
              else
                match i.dreg with
                | none => none
                | some dreg =>
                    let (val, d) := port.mmioRead host c f.cpuIndex f.guestAddr i.size d
                    let val := val.toBitVec.setWidth 32
                    let moved := val &&& operandMask i.size
                    let st' := loadRegister st i dreg val
                    some ((if dreg < 8 then st'.moved moved i.size else st').advance i.len, d)

/-! ### The moves -/

/-- A brief extension word: the index register, its width, its scale and the displacement. -/
structure Brief where
  index : Fin 16
  isLong : Bool
  scale : Fin 4
  disp : BitVec 8

/-- The fields of the word, lowest bits first. -/
def Brief.fields (b : Brief) : List (ℕ × ℕ) :=
  [(8, b.disp.toNat), (1, 0), (2, b.scale), (1, b.isLong.toNat), (4, b.index)]

/-- An operand in memory that leaves its address register alone. -/
inductive Ea where
  | indirect (a : Fin 8)
  | displaced (a : Fin 8) (disp : BitVec 16)
  | indexed (a : Fin 8) (brief : Brief)
  | absWord (addr : BitVec 16)
  | absLong (addr : BitVec 32)
  | pcDisplaced (disp : BitVec 16)
  | pcIndexed (brief : Brief)

/-- A register, an address register from eight on. -/
def M68kState.reg (st : M68kState) (r : ℕ) : BitVec 32 :=
  if r < 8 then st.dregs r else st.aregs (r - 8)

/-- The scaled index and the displacement. -/
def Brief.offset (b : Brief) (st : M68kState) : BitVec 32 :=
  ((if b.isLong then st.reg b.index else ((st.reg b.index).setWidth 16).signExtend 32) <<<
    b.scale.val) + b.disp.signExtend 32

namespace Ea

/-- The mode and the register field of the opcode word. -/
def mode : Ea → ℕ
  | indirect _ => 2
  | displaced .. => 5
  | indexed .. => 6
  | _ => 7

def reg : Ea → ℕ
  | indirect a | displaced a _ | indexed a _ => a
  | absWord _ => 0
  | absLong _ => 1
  | pcDisplaced _ => 2
  | pcIndexed _ => 3

/-- The extension words. -/
def bytes : Ea → List UInt8
  | indirect _ => []
  | displaced _ disp | pcDisplaced disp => ByteOrder.big.bytes 2 disp.toNat
  | indexed _ brief | pcIndexed brief => ByteOrder.big.bytes 2 (pack brief.fields)
  | absWord addr => ByteOrder.big.bytes 2 addr.toNat
  | absLong addr => ByteOrder.big.bytes 4 addr.toNat

/-- The operand can be written: it is not relative to the program counter. -/
def Alterable : Ea → Prop
  | pcDisplaced _ | pcIndexed _ => False
  | _ => True

/-- The address; `extPc` is that of the extension words. -/
def address (e : Ea) (st : M68kState) (extPc : BitVec 32) : BitVec 32 :=
  match e with
  | indirect a => st.aregs a
  | displaced a disp => st.aregs a + disp.signExtend 32
  | indexed a brief => st.aregs a + brief.offset st
  | absWord addr => addr.signExtend 32
  | absLong addr => addr
  | pcDisplaced disp => extPc + disp.signExtend 32
  | pcIndexed brief => extPc + brief.offset st

end Ea

/-- The width of a move. -/
inductive MoveSize where
  | byte | word | long
deriving DecidableEq, Repr

/-- Its field in the opcode word. -/
def MoveSize.code : MoveSize → ℕ
  | byte => 1
  | word => 3
  | long => 2

def MoveSize.bytes : MoveSize → ℕ
  | byte => 1
  | word => 2
  | long => 4

/-- An immediate byte takes a word. -/
def MoveSize.immBytes : MoveSize → ℕ
  | byte | word => 2
  | long => 4

/-- A move from a register or an immediate to memory, or from memory to a register. -/
inductive MoveInsn where
  | store (size : MoveSize) (src : Fin 16) (dst : Ea)
  | storeImm (size : MoveSize) (imm : BitVec 32) (dst : Ea)
  | load (size : MoveSize) (src : Ea) (dst : Fin 16)

namespace MoveInsn

def isStore : MoveInsn → Bool
  | store .. | storeImm .. => true
  | load .. => false

def moveSize : MoveInsn → MoveSize
  | store size .. | storeImm size .. | load size .. => size

/-- The register that is moved, if it is no immediate. -/
def register : MoveInsn → Option ℕ
  | store _ r _ | load _ _ r => some r
  | storeImm .. => none

/-- The bytes that are accessed. -/
def size (i : MoveInsn) : ℕ := i.moveSize.bytes

/-- No byte is moved from or to an address register, and what is written can be written. -/
def Valid : MoveInsn → Prop
  | store size src dst => dst.Alterable ∧ ¬ (size = .byte ∧ 8 ≤ src.val)
  | storeImm size imm dst => dst.Alterable ∧ imm.toNat < 256 ^ size.immBytes
  | load size _ dst => ¬ (size = .byte ∧ 8 ≤ dst.val)

/-- The fields of the opcode word, lowest bits first. -/
def fields : MoveInsn → List (ℕ × ℕ)
  | store size src dst =>
      [(3, src % 8), (3, src / 8), (3, dst.mode), (3, dst.reg), (2, size.code), (2, 0)]
  | storeImm size _ dst =>
      [(3, 4), (3, 7), (3, dst.mode), (3, dst.reg), (2, size.code), (2, 0)]
  | load size src dst =>
      [(3, src.reg), (3, src.mode), (3, dst / 8), (3, dst % 8), (2, size.code), (2, 0)]

/-- What follows the opcode word. -/
def extension : MoveInsn → List UInt8
  | store _ _ dst => dst.bytes
  | storeImm size imm dst => ByteOrder.big.bytes size.immBytes imm.toNat ++ dst.bytes
  | load _ src _ => src.bytes

/-- The bytes of the instruction. -/
def bytes (i : MoveInsn) : List UInt8 := ByteOrder.big.bytes 2 (pack i.fields) ++ i.extension

/-- The instruction lies at the address. -/
def EncodedAt (i : MoveInsn) (user : UserMemory 32) (pc : UInt32) : Prop :=
  user.Holds pc.toNat i.bytes

/-- The address that is accessed. -/
def address (i : MoveInsn) (st : M68kState) : UInt64 :=
  match i with
  | store _ _ e | storeImm _ _ e | load _ e _ =>
      .ofNat (e.address st (st.pc.toBitVec + 2#32)).toNat

/-- The value that is stored. -/
def stored (i : MoveInsn) (st : M68kState) : ℕ :=
  match i with
  | store size src _ => (st.reg src).toNat % 256 ^ size.bytes
  | storeImm size imm _ => imm.toNat % 256 ^ size.bytes
  | load .. => 0

/-- The access of the instruction. -/
def request (i : MoveInsn) (st : M68kState) : MmioSyncRequest where
  cmd := if i.isStore then .mmioWriteReq else .mmioReadReq
  addr := i.address st
  size := i.size
  writeVal := .ofNat (i.stored st)

/-- The condition codes of a moved value: its sign, whether it is zero, and `X` as before. -/
def flags (st : M68kState) (size value : ℕ) : M68kState :=
  { st with ccr := { x := st.ccr.x, n := value.testBit (8 * size - 1), z := value == 0 } }

/-- The low bytes of a data register are replaced. -/
def replaceLow (old : BitVec 32) (size value : ℕ) : BitVec 32 :=
  .ofNat 32 (old.toNat / 256 ^ size * 256 ^ size + value)

/-- The instruction, with the value its access returns. -/
def retire (i : MoveInsn) (val : UInt64) (st : M68kState) : M68kState :=
  let value := val.toNat % 256 ^ i.size
  match i with
  | store .. | storeImm .. => (flags st i.size (i.stored st)).advance i.bytes.length
  | load _ _ dst =>
      if dst.val < 8 then
        let low := replaceLow (st.dregs dst) i.size value
        (flags { st with dregs := Function.update st.dregs dst low } i.size value).advance
          i.bytes.length
      else
        -- `MOVEA` extends a word to the register
        let full := if i.size = 2 then (BitVec.ofNat 16 value).signExtend 32 else .ofNat 32 value
        { st with aregs := Function.update st.aregs (dst - 8) full }.advance i.bytes.length

/-- The instruction on a memory or a device that serves requests. -/
def exec {δ : Type} (serve : MmioSyncRequest → δ → UInt64 × δ) (i : MoveInsn) (st : M68kState)
    (d : δ) : M68kState × δ :=
  (i.retire (serve (i.request st) d).1 st, (serve (i.request st) d).2)

/-! ### The encodings -/

section

variable {i : MoveInsn} {e : Ea} {m : Move} {op : ℕ}

theorem ea_mode_lt (e : Ea) : e.mode < 2 ^ 3 := by
  cases e <;> simp [Ea.mode]

theorem ea_reg_lt (e : Ea) : e.reg < 2 ^ 3 := by
  cases e <;> simp [Ea.reg]

theorem ea_mode_cases (e : Ea) : e.mode = 2 ∨ e.mode = 5 ∨ e.mode = 6 ∨ e.mode = 7 := by
  cases e <;> simp [Ea.mode]

/-- The handler knows the length of every operand. -/
theorem eaExtlen_ea (e : Ea) : eaExtlen e.mode e.reg = some e.bytes.length := by
  cases e <;> simp [Ea.mode, Ea.reg, Ea.bytes, eaExtlen]

/-- An operand with an index register has a brief extension word. -/
theorem ea_brief (h : e.mode = 6 ∨ e.mode = 7 ∧ e.reg = 3) :
    ∃ brief : Brief, e.bytes = ByteOrder.big.bytes 2 (pack brief.fields) := by
  cases e with
  | indexed _ brief | pcIndexed brief => exact ⟨brief, rfl⟩
  | indirect _ | displaced _ _ | absWord _ | absLong _ | pcDisplaced _ =>
      simp [Ea.mode, Ea.reg] at h

/-- The test for an operand that can be written. -/
theorem alterable_iff :
    e.Alterable ↔ (decide (2 ≤ e.mode) && (e.mode != 7 || decide (e.reg ≤ 1))) = true := by
  cases e <;> simp [Ea.Alterable, Ea.mode, Ea.reg]

theorem fits (i : MoveInsn) : Fits i.fields := by
  have hsize : ∀ size : MoveSize, size.code < 2 ^ 2 := fun size => by cases size <;> decide
  have hmode := ea_mode_lt
  have hreg := ea_reg_lt
  cases i with
  | store size src dst =>
      simp only [Fits, fields, List.forall_mem_cons]
      exact ⟨by omega, by omega, hmode _, hreg _, hsize _, by decide, by simp⟩
  | storeImm size imm dst =>
      simp only [Fits, fields, List.forall_mem_cons]
      exact ⟨by decide, by decide, hmode _, hreg _, hsize _, by decide, by simp⟩
  | load size src dst =>
      simp only [Fits, fields, List.forall_mem_cons]
      exact ⟨hreg _, hmode _, by omega, by omega, hsize _, by decide, by simp⟩

/-- The fields of an opcode word. -/
theorem field_opcode {srcReg srcMode dstMode dstReg code : ℕ} (hfields : i.fields =
      [(3, srcReg), (3, srcMode), (3, dstMode), (3, dstReg), (2, code), (2, 0)]) :
    field (pack i.fields) 0 3 = srcReg ∧ field (pack i.fields) 3 3 = srcMode ∧
      field (pack i.fields) 6 3 = dstMode ∧ field (pack i.fields) 9 3 = dstReg ∧
      field (pack i.fields) 12 2 = code ∧ field (pack i.fields) 14 2 = 0 := by
  have hpart : ∀ (before after : List (ℕ × ℕ)) (n v : ℕ), i.fields = before ++ (n, v) :: after →
      field (pack i.fields) (width before) n = v := by
    intro before after n v h
    have hfits : Fits (before ++ (n, v) :: after) := h ▸ i.fits
    rw [h]
    exact field_pack (fun f hf => hfits f (List.mem_append_left _ hf))
      (hfits (n, v) (List.mem_append_right _ List.mem_cons_self)) after
  exact ⟨hpart [] _ 3 _ hfields, hpart [_] _ 3 _ hfields, hpart [_, _] _ 3 _ hfields,
    hpart [_, _, _] _ 3 _ hfields, hpart [_, _, _, _] _ 2 _ hfields,
    hpart [_, _, _, _, _] [] 2 _ hfields⟩

theorem moveSizes_code (size : MoveSize) :
    moveSizes size.code = some (size.bytes, size.immBytes) := by
  cases size <;> rfl

/-- What the handler finds out about a move. -/
structure Decodes (m : Move) (i : MoveInsn) : Prop where
  len : m.len = i.bytes.length
  isStore : m.isStore = i.isStore
  size : m.size = i.size
  dreg : m.dreg = i.register
  index : m.indexOffset = 0 ∨ ∃ (front : List UInt8) (brief : Brief),
    i.bytes = front ++ ByteOrder.big.bytes 2 (pack brief.fields) ∧ front.length = m.indexOffset

theorem register_code (r : Fin 16) :
    (if r.val / 8 == 1 then 8 + r.val % 8 else r.val % 8) = r.val := by
  split
  next h =>
    rw [beq_iff_eq] at h
    omega
  next h =>
    rw [beq_iff_eq] at h
    omega

/-- The handler decodes every move. -/
theorem handled (hv : i.Valid) : ∃ m, mmioDecode (pack i.fields) = some m ∧ Decodes m i := by
  have hlen : i.bytes.length = 2 + i.extension.length := by
    rw [bytes, List.length_append, ByteOrder.length_bytes]
  cases i with
  | store size src dst =>
      obtain ⟨halt, hbyte⟩ := hv
      obtain ⟨h0, h3, h6, h9, h12, h14⟩ := field_opcode (i := store size src dst) rfl
      have hmode := ea_mode_cases dst
      have hguard : (size.bytes == 1 && (src.val / 8 == 1 || dst.mode == 1)) = false := by
        have hne : dst.mode ≠ 1 := by omega
        cases size with
        | byte => simpa [MoveSize.bytes, hne] using fun h : src.val / 8 = 1 => hbyte ⟨rfl, by omega⟩
        | word | long => rfl
      have hsrc : (src.val / 8 == 0 || src.val / 8 == 1) = true := by
        simp only [Bool.or_eq_true, beq_iff_eq]
        omega
      rw [mmioDecode, if_neg (not_not.mpr h14), h12, moveSizes_code]
      simp only [h0, h3, h6, h9, hguard, hsrc, alterable_iff.mp halt, eaExtlen_ea,
        Bool.false_eq_true, if_false, Bool.and_self, if_true, Option.map_some]
      refine ⟨_, rfl, hlen.symm, rfl, rfl, congrArg some (register_code src), ?_⟩
      by_cases hindex : dst.mode = 6
      · obtain ⟨brief, hbrief⟩ := ea_brief (.inl hindex)
        refine .inr ⟨ByteOrder.big.bytes 2 (pack (store size src dst).fields), brief, ?_, ?_⟩
        · rw [bytes, extension, hbrief]
        · rw [ByteOrder.length_bytes, hindex]
          rfl
      · exact .inl (by simp [hindex])
  | storeImm size imm dst =>
      obtain ⟨halt, -⟩ := hv
      obtain ⟨h0, h3, h6, h9, h12, h14⟩ := field_opcode (i := storeImm size imm dst) rfl
      have hmode := ea_mode_cases dst
      have hne : (dst.mode == 1) = false := beq_eq_false_iff_ne.mpr (by omega)
      rw [mmioDecode, if_neg (not_not.mpr h14), h12, moveSizes_code]
      simp only [h0, h3, h6, h9, hne, alterable_iff.mp halt, eaExtlen_ea, Bool.false_eq_true,
        if_false, Nat.reduceBEq, Bool.or_self, Bool.false_and, Bool.and_false, Bool.and_self,
        if_true, Option.map_some]
      refine ⟨_, rfl, ?_, rfl, rfl, rfl, ?_⟩
      · rw [hlen, extension, List.length_append, ByteOrder.length_bytes, Nat.add_assoc]
      by_cases hindex : dst.mode = 6
      · obtain ⟨brief, hbrief⟩ := ea_brief (.inl hindex)
        refine .inr ⟨ByteOrder.big.bytes 2 (pack (storeImm size imm dst).fields) ++
          ByteOrder.big.bytes size.immBytes imm.toNat, brief, ?_, ?_⟩
        · rw [bytes, extension, hbrief, List.append_assoc]
        · rw [List.length_append, ByteOrder.length_bytes, ByteOrder.length_bytes, hindex]
          rfl
      · exact .inl (by simp [hindex])
  | load size src dst =>
      obtain ⟨h0, h3, h6, h9, h12, h14⟩ := field_opcode (i := load size src dst) rfl
      have hmode := ea_mode_cases src
      have hne : src.mode ≠ 1 ∧ src.mode ≠ 0 := by omega
      have hguard : (size.bytes == 1 && dst.val / 8 == 1) = false := by
        cases size with
        | byte => simpa [MoveSize.bytes] using fun h : dst.val / 8 = 1 => hv ⟨rfl, by omega⟩
        | word | long => rfl
      have himm : (src.mode == 7 && src.reg == 4) = false := by
        cases src <;> simp [Ea.mode, Ea.reg]
      have hdst : (dst.val / 8 == 0 || dst.val / 8 == 1) = true := by
        simp only [Bool.or_eq_true, beq_iff_eq]
        omega
      rw [mmioDecode, if_neg (not_not.mpr h14), h12, moveSizes_code]
      simp only [h0, h3, h6, h9, hguard, himm, hdst, eaExtlen_ea, Bool.false_eq_true, if_false,
        beq_eq_false_iff_ne.mpr hne.1, beq_eq_false_iff_ne.mpr hne.2, Bool.or_self,
        Bool.false_or, Bool.false_and, if_true, Option.map_some]
      refine ⟨_, rfl, hlen.symm, rfl, rfl, congrArg some (register_code dst), ?_⟩
      by_cases hindex : src.mode = 6 ∨ src.mode = 7 ∧ src.reg = 3
      · obtain ⟨brief, hbrief⟩ := ea_brief hindex
        refine .inr ⟨ByteOrder.big.bytes 2 (pack (load size src dst).fields), brief, ?_, ?_⟩
        · rw [bytes, extension, hbrief]
        · show _ = if (src.mode == 6 || src.mode == 7 && src.reg == 3) = true then 2 else 0
          rw [ByteOrder.length_bytes, if_pos (by simpa using hindex)]
      · exact .inl (if_neg (by simpa using hindex))

/-- A word without the bit of the full format is a brief extension word. -/
theorem exists_brief {w : ℕ} (hw : w < 2 ^ 16) (hbit : field w 8 1 = 0) :
    ∃ brief : Brief, pack brief.fields = w := by
  have hcut : cut [8, 1, 2, 1, 4] w = [(8, field w 0 8), (1, 0), (2, field w 9 2),
      (1, field w 11 1), (4, field w 12 4)] := by
    rw [← Nat.div_one w, ← pow_zero 2, cut_shift, cut_shift, cut_shift, cut_shift, cut_shift]
    simp [cut, hbit]
  have hlong : (field w 11 1 == 1).toNat = field w 11 1 := by
    have := field_lt w 11 1
    cases hb : field w 11 1 == 1 with
    | true => exact (beq_iff_eq.mp hb).symm
    | false =>
        rw [beq_eq_false_iff_ne] at hb
        simp only [Bool.toNat_false]
        omega
  refine ⟨⟨⟨field w 12 4, field_lt w 12 4⟩, field w 11 1 == 1, ⟨field w 9 2, field_lt w 9 2⟩,
    .ofNatLT (field w 0 8) (field_lt w 0 8)⟩, ?_⟩
  have hpack : pack (cut [8, 1, 2, 1, 4] w) = w := (pack_cut _ w).trans (Nat.mod_eq_of_lt hw)
  rw [hcut] at hpack
  rw [Brief.fields, hlong]
  exact hpack

/-- A mode that the handler knows, with the extension words that follow, is an operand. -/
theorem exists_ea {mode reg : ℕ} (bs : List UInt8) (hreg : reg < 2 ^ 3)
    (h : eaExtlen mode reg = some bs.length)
    (hindex : mode = 6 ∨ mode = 7 ∧ reg = 3 → field (ByteOrder.big.value bs) 8 1 = 0) :
    ∃ e : Ea, e.mode = mode ∧ e.reg = reg ∧ e.bytes = bs := by
  have hword : ∀ {n : ℕ}, bs.length = n → ∃ w : BitVec (8 * n),
      ByteOrder.big.bytes n w.toNat = bs := by
    rintro n rfl
    have hlt : ByteOrder.big.value bs < 2 ^ (8 * bs.length) := by
      rw [Nat.pow_mul]
      exact ByteOrder.value_lt .big bs
    exact ⟨.ofNatLT _ hlt, by rw [BitVec.toNat_ofNatLT, ByteOrder.bytes_value]⟩
  have hbrief : bs.length = 2 → (mode = 6 ∨ mode = 7 ∧ reg = 3) →
      ∃ brief : Brief, ByteOrder.big.bytes 2 (pack brief.fields) = bs := by
    intro hlen hm
    have hlt := ByteOrder.value_lt .big bs
    rw [hlen] at hlt
    obtain ⟨brief, hw⟩ := exists_brief hlt (hindex hm)
    exact ⟨brief, by rw [hw, ← hlen, ByteOrder.bytes_value]⟩
  unfold eaExtlen at h
  split at h
  · exact ⟨.indirect ⟨reg, hreg⟩, rfl, rfl,
      (List.eq_nil_of_length_eq_zero (Option.some.inj h).symm).symm⟩
  · obtain ⟨w, hw⟩ := hword (Option.some.inj h).symm
    exact ⟨.displaced ⟨reg, hreg⟩ w, rfl, rfl, hw⟩
  · obtain ⟨brief, hb⟩ := hbrief (Option.some.inj h).symm (.inl rfl)
    exact ⟨.indexed ⟨reg, hreg⟩ brief, rfl, rfl, hb⟩
  · split at h
    · obtain ⟨w, hw⟩ := hword (Option.some.inj h).symm
      exact ⟨.absWord w, rfl, rfl, hw⟩
    · obtain ⟨w, hw⟩ := hword (Option.some.inj h).symm
      exact ⟨.absLong w, rfl, rfl, hw⟩
    · obtain ⟨w, hw⟩ := hword (Option.some.inj h).symm
      exact ⟨.pcDisplaced w, rfl, rfl, hw⟩
    · obtain ⟨brief, hb⟩ := hbrief (Option.some.inj h).symm (.inr ⟨rfl, rfl⟩)
      exact ⟨.pcIndexed brief, rfl, rfl, hb⟩
    · exact absurd h (by rintro ⟨⟩)
  · exact absurd h (by rintro ⟨⟩)

/-- A size field the handler knows. -/
theorem exists_moveSize {code size immBytes : ℕ} (h : moveSizes code = some (size, immBytes)) :
    ∃ sz : MoveSize, sz.code = code ∧ sz.bytes = size ∧ sz.immBytes = immBytes := by
  unfold moveSizes at h
  split at h
  · obtain ⟨rfl, rfl⟩ := Prod.mk.inj (Option.some.inj h)
    exact ⟨.byte, rfl, rfl, rfl⟩
  · obtain ⟨rfl, rfl⟩ := Prod.mk.inj (Option.some.inj h)
    exact ⟨.word, rfl, rfl, rfl⟩
  · obtain ⟨rfl, rfl⟩ := Prod.mk.inj (Option.some.inj h)
    exact ⟨.long, rfl, rfl, rfl⟩
  · exact absurd h (by rintro ⟨⟩)

/-- One extension word follows the opcode of an indexed operand. -/
theorem eaExtlen_indexed {mode reg n : ℕ} (h : eaExtlen mode reg = some n)
    (hm : mode = 6 ∨ mode = 7 ∧ reg = 3) : n = 2 := by
  obtain rfl | ⟨rfl, rfl⟩ := hm
  · exact (Option.some.inj h).symm
  · exact (Option.some.inj h).symm

/-- The extension word lies behind the opcode word, inside the instruction. -/
theorem decode_index (h : mmioDecode op = some m) :
    2 ≤ m.len ∧ (m.indexOffset = 0 ∨ 2 ≤ m.indexOffset ∧ m.indexOffset + 2 ≤ m.len) := by
  rw [mmioDecode] at h
  split at h
  · exact absurd h (by rintro ⟨⟩)
  split at h
  · exact absurd h (by rintro ⟨⟩)
  simp only at h
  split at h
  · exact absurd h (by rintro ⟨⟩)
  split at h
  · obtain ⟨ext, hext, rfl⟩ := Option.map_eq_some_iff.mp h
    by_cases h6 : field op 6 3 = 6
    · obtain rfl := eaExtlen_indexed hext (.inl h6)
      simp [h6]
    · simp [h6]
  split at h
  · obtain ⟨ext, hext, rfl⟩ := Option.map_eq_some_iff.mp h
    by_cases h6 : field op 6 3 = 6
    · obtain rfl := eaExtlen_indexed hext (.inl h6)
      simp [h6]
    · exact ⟨(Nat.le_add_right _ _).trans (Nat.le_add_right _ _), .inl (if_neg (by simpa using h6))⟩
  split at h
  · obtain ⟨ext, hext, rfl⟩ := Option.map_eq_some_iff.mp h
    by_cases h6 : field op 3 3 = 6 ∨ field op 3 3 = 7 ∧ field op 0 3 = 3
    · obtain rfl := eaExtlen_indexed hext h6
      simp [h6]
    · exact ⟨Nat.le_add_right _ _, .inl (if_neg (by simpa using h6))⟩
  · exact absurd h (by rintro ⟨⟩)

/-- The handler decodes nothing else. -/
theorem exists_of_decode (h : mmioDecode op = some m) (hop : op < 2 ^ 16) (bs : List UInt8)
    (hlen : m.len = 2 + bs.length) (hindex : m.indexOffset ≠ 0 →
      field (ByteOrder.big.value ((bs.drop (m.indexOffset - 2)).take 2)) 8 1 = 0) :
    ∃ i : MoveInsn, i.Valid ∧ pack i.fields = op ∧ i.extension = bs := by
  have hpack : pack [(3, field op 0 3), (3, field op 3 3), (3, field op 6 3), (3, field op 9 3),
      (2, field op 12 2), (2, field op 14 2)] = op := by
    have hcut : cut [3, 3, 3, 3, 2, 2] op = [(3, field op 0 3), (3, field op 3 3),
        (3, field op 6 3), (3, field op 9 3), (2, field op 12 2), (2, field op 14 2)] := by
      rw [← Nat.div_one op, ← pow_zero 2, cut_shift, cut_shift, cut_shift, cut_shift, cut_shift,
        cut_shift]
      simp [cut]
    rw [← hcut, pack_cut]
    exact Nat.mod_eq_of_lt hop
  have hsreg := field_lt op 0 3
  have hdreg := field_lt op 9 3
  rw [mmioDecode] at h
  split at h
  · exact absurd h (by rintro ⟨⟩)
  rename_i h14
  rw [not_not.mp h14] at hpack
  split at h
  · exact absurd h (by rintro ⟨⟩)
  rename_i size immBytes hsizes
  obtain ⟨sz, hcode, rfl, rfl⟩ := exists_moveSize hsizes
  rw [← hcode] at hpack
  -- from here on the word is known by its fields only
  clear hop hsizes hcode h14
  generalize field op 0 3 = srcReg, field op 3 3 = srcMode, field op 6 3 = dstMode,
    field op 9 3 = dstReg at *
  simp only at h
  split at h
  · exact absurd h (by rintro ⟨⟩)
  rename_i hguard
  have hbyte : sz = .byte → srcMode ≠ 1 ∧ dstMode ≠ 1 := by
    rintro rfl
    simpa [MoveSize.bytes] using hguard
  split at h
  · rename_i hstore
    obtain ⟨ext, hext, rfl⟩ := Option.map_eq_some_iff.mp h
    simp only [Bool.and_eq_true, Bool.or_eq_true, beq_iff_eq] at hstore
    obtain ⟨hsrc, hmem⟩ := hstore
    simp only at hlen hindex
    obtain rfl : ext = bs.length := Nat.add_left_cancel hlen
    obtain ⟨dst, rfl, rfl, rfl⟩ := exists_ea bs hdreg hext fun hm => by
      have h6 : dstMode = 6 := hm.resolve_right fun h7 => by simp [h7] at hmem
      have h2 := eaExtlen_indexed hext hm
      simpa [h6, ← h2] using hindex (by simp [h6])
    refine ⟨store sz ⟨8 * srcMode + srcReg, by omega⟩ dst,
      ⟨alterable_iff.mpr (by simpa using hmem), ?_⟩, ?_, rfl⟩
    · rintro ⟨rfl, h8⟩
      have := (hbyte rfl).1
      simp only at h8
      omega
    · rw [fields, ← hpack]
      congr 4
      · simp only
        omega
      · simp only
        omega
  split at h
  · rename_i hstore
    obtain ⟨ext, hext, rfl⟩ := Option.map_eq_some_iff.mp h
    simp only [Bool.and_eq_true, Bool.or_eq_true, beq_iff_eq] at hstore
    obtain ⟨⟨rfl, rfl⟩, hmem⟩ := hstore
    simp only at hlen hindex
    have htake : (bs.take sz.immBytes).length = sz.immBytes := by
      rw [List.length_take]
      omega
    have hdrop : (bs.drop sz.immBytes).length = ext := by
      rw [List.length_drop]
      omega
    obtain ⟨dst, rfl, rfl, hdst⟩ := exists_ea (bs.drop sz.immBytes) hdreg
      (hdrop.symm ▸ hext) fun hm => by
        have h6 : dstMode = 6 := hm.resolve_right fun h7 => by simp [h7] at hmem
        have h2 := eaExtlen_indexed hext hm
        rw [if_pos (by simpa using h6)] at hindex
        have hbit := hindex (by omega)
        rwa [Nat.add_sub_cancel_left, List.take_of_length_le (by omega)] at hbit
    have himm := ByteOrder.value_lt .big (bs.take sz.immBytes)
    rw [htake] at himm
    have himm32 : ByteOrder.big.value (bs.take sz.immBytes) < 2 ^ 32 :=
      himm.trans_le (by cases sz <;> simp [MoveSize.immBytes])
    refine ⟨storeImm sz (.ofNatLT _ himm32) dst, ⟨alterable_iff.mpr (by simpa using hmem), ?_⟩,
      hpack, ?_⟩
    · rwa [BitVec.toNat_ofNatLT]
    · have hbytes := ByteOrder.bytes_value .big (bs.take sz.immBytes)
      rw [htake] at hbytes
      rw [extension, BitVec.toNat_ofNatLT, hbytes, hdst, List.take_append_drop]
  split at h
  · rename_i hload
    obtain ⟨ext, hext, rfl⟩ := Option.map_eq_some_iff.mp h
    simp only [Bool.or_eq_true, beq_iff_eq] at hload
    simp only at hlen hindex
    obtain rfl : ext = bs.length := Nat.add_left_cancel hlen
    obtain ⟨src, rfl, rfl, rfl⟩ := exists_ea bs hsreg hext fun hm => by
      have h2 := eaExtlen_indexed hext hm
      simpa [hm, ← h2] using hindex (by simp [hm])
    refine ⟨load sz src ⟨8 * dstMode + dstReg, by omega⟩, ?_, ?_, rfl⟩
    · rintro ⟨rfl, h8⟩
      have := (hbyte rfl).2
      simp only at h8
      omega
    · rw [fields, ← hpack]
      congr 6
      · simp only
        omega
      · simp only
        omega
  · exact absurd h (by rintro ⟨⟩)

/-- Numbers with the same bytes. -/
theorem bytes_inj {n v v' : ℕ} (hv : v < 256 ^ n) (hv' : v' < 256 ^ n)
    (h : ByteOrder.big.bytes n v = ByteOrder.big.bytes n v') : v = v' := by
  have hvalue := congrArg ByteOrder.big.value h
  rwa [ByteOrder.value_bytes, ByteOrder.value_bytes, Nat.mod_eq_of_lt hv,
    Nat.mod_eq_of_lt hv'] at hvalue

theorem brief_fits (b : Brief) : Fits b.fields := by
  have hdisp := b.disp.isLt
  have hlong := Bool.toNat_lt b.isLong
  simp only [Fits, Brief.fields, List.forall_mem_cons]
  exact ⟨hdisp, by decide, b.scale.isLt, hlong, b.index.isLt, by simp⟩

theorem brief_inj {b b' : Brief} (h : ByteOrder.big.bytes 2 (pack b.fields) =
    ByteOrder.big.bytes 2 (pack b'.fields)) : b = b' := by
  have hlt : ∀ b : Brief, pack b.fields < 2 ^ 16 := fun b => pack_lt (brief_fits b)
  have hfields : b.fields = b'.fields :=
    pack_inj (brief_fits b) (brief_fits b') rfl (bytes_inj (n := 2) (hlt b) (hlt b') h)
  obtain ⟨index, isLong, scale, disp⟩ := b
  obtain ⟨index', isLong', scale', disp'⟩ := b'
  simp only [Brief.fields, List.cons.injEq, Prod.mk.injEq, true_and, and_true] at hfields
  obtain ⟨hdisp, hscale, hlong, hindex⟩ := hfields
  obtain rfl : isLong = isLong' := by
    cases isLong <;> cases isLong' <;> first | rfl | exact absurd hlong (by decide)
  rw [BitVec.eq_of_toNat_eq hdisp, Fin.ext hscale, Fin.ext hindex]

/-- An operand is known by its mode, its register field and its extension words. -/
theorem ea_inj {e e' : Ea} (hmode : e.mode = e'.mode) (hreg : e.reg = e'.reg)
    (hbytes : e.bytes = e'.bytes) : e = e' := by
  have hword : ∀ {n : ℕ} {w w' : BitVec (8 * n)},
      ByteOrder.big.bytes n w.toNat = ByteOrder.big.bytes n w'.toNat → w = w' := by
    intro n w w' h
    have hlt := w.isLt
    have hlt' := w'.isLt
    rw [Nat.pow_mul] at hlt hlt'
    exact BitVec.eq_of_toNat_eq (bytes_inj hlt hlt' h)
  cases e with
  | indirect a =>
      cases e' with
      | indirect a' => rw [Fin.ext hreg]
      | _ => simp [Ea.mode] at hmode
  | displaced a w =>
      cases e' with
      | displaced a' w' => rw [Fin.ext hreg, hword (n := 2) hbytes]
      | _ => simp [Ea.mode] at hmode
  | indexed a b =>
      cases e' with
      | indexed a' b' => rw [Fin.ext hreg, brief_inj hbytes]
      | _ => simp [Ea.mode] at hmode
  | absWord w =>
      cases e' with
      | absWord w' => rw [hword (n := 2) hbytes]
      | _ => simp [Ea.mode, Ea.reg] at hmode hreg
  | absLong w =>
      cases e' with
      | absLong w' => rw [hword (n := 4) hbytes]
      | _ => simp [Ea.mode, Ea.reg] at hmode hreg
  | pcDisplaced w =>
      cases e' with
      | pcDisplaced w' => rw [hword (n := 2) hbytes]
      | _ => simp [Ea.mode, Ea.reg] at hmode hreg
  | pcIndexed b =>
      cases e' with
      | pcIndexed b' => rw [brief_inj hbytes]
      | _ => simp [Ea.mode, Ea.reg] at hmode hreg

/-- A move is known by its bytes. -/
theorem insn_inj {j : MoveInsn} (hi : i.Valid) (hj : j.Valid) (hfields : i.fields = j.fields)
    (hext : i.extension = j.extension) : i = j := by
  have hcode : ∀ {size size' : MoveSize}, size.code = size'.code → size = size' := by
    intro size size' h
    cases size <;> cases size' <;> first | rfl | exact absurd h (by decide)
  cases i with
  | store size src dst =>
      cases j with
      | store size' src' dst' =>
          simp only [fields, List.cons.injEq, Prod.mk.injEq, true_and, and_true] at hfields
          obtain ⟨hlo, hhi, hmode, hreg, hsize⟩ := hfields
          rw [hcode hsize, ea_inj hmode hreg hext, Fin.ext (a := src) (b := src') (by omega)]
      | storeImm size' imm' dst' =>
          simp only [fields, List.cons.injEq, Prod.mk.injEq, true_and] at hfields
          omega
      | load size' src' dst' =>
          have := ea_mode_cases dst
          simp only [fields, List.cons.injEq, Prod.mk.injEq, true_and] at hfields
          omega
  | storeImm size imm dst =>
      cases j with
      | storeImm size' imm' dst' =>
          simp only [fields, List.cons.injEq, Prod.mk.injEq, true_and, and_true] at hfields
          obtain ⟨hmode, hreg, hsize⟩ := hfields
          obtain rfl := hcode hsize
          have hparts := List.append_inj hext (by
            rw [ByteOrder.length_bytes, ByteOrder.length_bytes])
          rw [BitVec.eq_of_toNat_eq (bytes_inj hi.2 hj.2 hparts.1), ea_inj hmode hreg hparts.2]
      | store size' src' dst' =>
          simp only [fields, List.cons.injEq, Prod.mk.injEq, true_and] at hfields
          omega
      | load size' src' dst' =>
          have := ea_mode_cases dst
          simp only [fields, List.cons.injEq, Prod.mk.injEq, true_and] at hfields
          omega
  | load size src dst =>
      have := ea_mode_cases src
      cases j with
      | load size' src' dst' =>
          simp only [fields, List.cons.injEq, Prod.mk.injEq, true_and, and_true] at hfields
          obtain ⟨hreg, hmode, hlo, hhi, hsize⟩ := hfields
          rw [hcode hsize, ea_inj hmode hreg hext, Fin.ext (a := dst) (b := dst') (by omega)]
      | store size' src' dst' =>
          simp only [fields, List.cons.injEq, Prod.mk.injEq, true_and] at hfields
          omega
      | storeImm size' imm' dst' =>
          have := ea_mode_cases dst'
          simp only [fields, List.cons.injEq, Prod.mk.injEq, true_and] at hfields
          omega

/-! ### Values -/

theorem operandMask_bytes (size : MoveSize) :
    operandMask size.bytes = BitVec.ofNat 32 (2 ^ (8 * size.bytes) - 1) := by
  cases size <;> rfl

theorem pow_bytes (size : MoveSize) :
    256 ^ size.bytes = 2 ^ (8 * size.bytes) ∧ 256 ^ size.bytes ≤ 2 ^ 32 := by
  cases size <;> simp [MoveSize.bytes]

/-- The value of an operand. -/
theorem and_operandMask (size : MoveSize) (value : BitVec 32) :
    value &&& operandMask size.bytes = BitVec.ofNat 32 (value.toNat % 256 ^ size.bytes) := by
  rw [operandMask_bytes, and_lowMask, (pow_bytes size).1]

theorem toNat_and_operandMask (size : MoveSize) (value : BitVec 32) :
    (value &&& operandMask size.bytes).toNat = value.toNat % 256 ^ size.bytes := by
  have hlt : value.toNat % 256 ^ size.bytes < 256 ^ size.bytes :=
    Nat.mod_lt _ (Nat.pow_pos (by decide))
  rw [and_operandMask, BitVec.toNat_ofNat, Nat.mod_eq_of_lt (hlt.trans_le (pow_bytes size).2)]

/-- The part of a data register that a load replaces. -/
theorem replaceLow_eq (size : MoveSize) (old val : BitVec 32) :
    (old &&& ~~~operandMask size.bytes) ||| (val &&& operandMask size.bytes) =
      replaceLow old size.bytes (val.toNat % 256 ^ size.bytes) := by
  rw [operandMask_bytes, merge_lowMask, replaceLow, (pow_bytes size).1]

/-- The bits of the condition codes are the codes. -/
theorem setCcr_bits (x n z : Bool) :
    setCcr (((if x then 0x10 else 0) &&& 0x10) ||| (if z then 0x04 else 0) |||
      (if n then 0x08 else 0)) = { x, n, z } := by
  cases x <;> cases n <;> cases z <;> rfl

/-- The condition codes of the handler are those of the move. -/
theorem setCcr_moveCcr (size : MoveSize) (value : BitVec 32) (x : Bool) :
    setCcr (moveCcr value size.bytes (if x then 0x10 else 0)) =
      { x, n := (value.toNat % 256 ^ size.bytes).testBit (8 * size.bytes - 1)
        z := value.toNat % 256 ^ size.bytes == 0 } := by
  have hmask : (if size.bytes = 4 then 0xffffffff#32 else (1#32 <<< (size.bytes * 8)) - 1#32) =
      operandMask size.bytes := by
    cases size <;> rfl
  have hzero : value &&& operandMask size.bytes = 0 ↔
      (value.toNat % 256 ^ size.bytes == 0) = true := by
    rw [← BitVec.toNat_inj, toNat_and_operandMask, beq_iff_eq]
    rfl
  have hsign : (value &&& operandMask size.bytes) &&& (1#32 <<< (size.bytes * 8 - 1)) ≠ 0 ↔
      (value.toNat % 256 ^ size.bytes).testBit (8 * size.bytes - 1) = true := by
    have htwo : 1#32 <<< (size.bytes * 8 - 1) = BitVec.twoPow 32 (8 * size.bytes - 1) := by
      rw [Nat.mul_comm]
      rfl
    have hne : BitVec.twoPow 32 (8 * size.bytes - 1) ≠ 0 := by
      cases size <;> decide
    rw [htwo, BitVec.and_twoPow, ← toNat_and_operandMask, ← BitVec.testBit_toNat]
    split
    next h => exact iff_of_true hne h
    next h => exact iff_of_false (fun h0 => h0 rfl) h
  rw [moveCcr, hmask, ← setCcr_bits]
  simp only [hzero, hsign]

end

end MoveInsn

/-! ### The fault -/

section

variable {δ : Type} {port : Port δ} {host : IpcHost} {abiMax : UInt64} {s : Apertures}
  {specs : List (Option (List Char))} {user : UserMemory 32} {f : Fault} {st : M68kState} {d : δ}
  {x : M68kState × δ} {i : MoveInsn} {m : Move}

open MoveInsn

theorem opcode_lt (i : MoveInsn) : pack i.fields < 2 ^ 16 := by
  have h := pack_lt i.fits
  have hw : width i.fields = 16 := by cases i <;> rfl
  rwa [hw] at h

/-- Addresses inside the instruction. -/
theorem pc_add (h : i.EncodedAt user st.pc) {n : ℕ} (hn : n < i.bytes.length) :
    (st.pc + .ofNat n).toNat = st.pc.toNat + n := by
  have hle := UserMemory.Holds.le h (List.ne_nil_of_length_pos (Nat.zero_lt_of_lt hn))
  rw [UInt32.toNat_add, UInt32.toNat_ofNat', Nat.add_mod_mod, Nat.mod_eq_of_lt (by omega)]

/-- A part of the instruction, as the handler reads it. -/
theorem getUser_part (h : i.EncodedAt user st.pc) (front bs : List UInt8) {back : List UInt8}
    (hbytes : i.bytes = front ++ bs ++ back) (hne : bs ≠ []) :
    user.getUser .big bs.length (st.pc + .ofNat front.length).toNat =
      some (ByteOrder.big.value bs) := by
  have hpos := List.length_pos_iff.mpr hne
  rw [pc_add h (by rw [hbytes]; simp only [List.length_append]; omega)]
  rw [EncodedAt, hbytes, UserMemory.holds_append, UserMemory.holds_append] at h
  exact UserMemory.getUser_of_holds h.1.2

/-- A number in the instruction, as the handler reads it. -/
theorem getUser_number (h : i.EncodedAt user st.pc) (front back : List UInt8) {n v : ℕ}
    (hbytes : i.bytes = front ++ ByteOrder.big.bytes n v ++ back)
    (hn : 0 < n) (hv : v < 256 ^ n) :
    user.getUser .big n (st.pc + .ofNat front.length).toNat = some v := by
  have hlen := ByteOrder.length_bytes .big n v
  have hpart := getUser_part h front _ hbytes (List.ne_nil_of_length_pos (hlen.symm ▸ hn))
  rwa [hlen, ByteOrder.value_bytes, Nat.mod_eq_of_lt hv] at hpart

/-- The handler reads the opcode word. -/
theorem getUser_opcode (h : i.EncodedAt user st.pc) :
    user.getUser .big 2 st.pc.toNat = some (pack i.fields) := by
  have hnum := getUser_number (n := 2) h [] _ rfl (by decide) (opcode_lt i)
  simpa using hnum

/-- At most one move lies at an address. -/
theorem EncodedAt.unique {j : MoveInsn} (hi : i.EncodedAt user st.pc) (hiv : i.Valid)
    (hj : j.EncodedAt user st.pc) (hjv : j.Valid) : i = j := by
  have hop : pack i.fields = pack j.fields :=
    Option.some.inj ((getUser_opcode hi).symm.trans (getUser_opcode hj))
  have hwidths : i.fields.map Prod.fst = j.fields.map Prod.fst := by
    cases i <;> cases j <;> rfl
  have hfields := pack_inj i.fits j.fits hwidths hop
  obtain ⟨m, hm, hdec⟩ := handled hiv
  obtain ⟨m', hm', hdec'⟩ := handled hjv
  rw [hop, hm', Option.some.injEq] at hm
  have hbytes := UserMemory.Holds.unique hi hj (by rw [← hdec.len, ← hdec'.len, hm])
  refine insn_inj hiv hjv hfields (List.append_inj hbytes ?_).2
  rw [ByteOrder.length_bytes, ByteOrder.length_bytes]

/-- The handler accepts the extension word. -/
theorem briefIndex_of_encoded (h : i.EncodedAt user st.pc) (hm : Decodes m i) :
    briefIndex user st m = true := by
  obtain hzero | ⟨front, brief, hbytes, hfront⟩ := hm.index
  · rw [briefIndex, if_pos hzero]
  · have hlt : pack brief.fields < 2 ^ 16 := pack_lt (brief_fits brief)
    have hdisp : Fits [(8, brief.disp.toNat)] := fun g hg => brief_fits brief g
      (by rw [List.mem_singleton.mp hg]; exact List.mem_cons_self)
    have hbit : field (pack brief.fields) 8 1 = 0 := field_pack hdisp (by decide) _
    have hread := getUser_number h front [] (by rw [hbytes, List.append_nil]) (by decide) hlt
    rw [hfront] at hread
    rw [briefIndex]
    split
    · rfl
    · rw [hread]
      simp [hbit]

/-- The handler finds the value of the source. -/
theorem sourceValue_of_encoded (h : i.EncodedAt user st.pc) (hv : i.Valid) (hm : Decodes m i)
    (hstore : i.isStore = true) :
    ∃ raw, sourceValue user st m = some raw ∧ raw.toNat % 256 ^ i.size = i.stored st := by
  rw [sourceValue, hm.dreg, hm.size]
  cases i with
  | store size src dst => exact ⟨_, rfl, rfl⟩
  | storeImm size imm dst =>
      have hread := getUser_number h (ByteOrder.big.bytes 2 (pack (storeImm size imm dst).fields)) _
        (List.append_assoc _ _ _).symm (by cases size <;> decide) hv.2
      rw [ByteOrder.length_bytes] at hread
      refine ⟨imm, ?_, rfl⟩
      have himm : BitVec.ofNat 32 imm.toNat = imm := by simp
      cases size with
      | byte | word | long =>
          exact (congrArg (Option.map (BitVec.ofNat 32)) hread).trans (congrArg some himm)
  | load _ _ _ => exact Bool.noConfusion hstore

/-- The condition codes after a move of the low bytes of a value. -/
theorem moved_eq (size : MoveSize) (value : BitVec 32) :
    st.moved (value &&& operandMask size.bytes) size.bytes =
      flags st size.bytes (value.toNat % 256 ^ size.bytes) := by
  rw [M68kState.moved, flags, setCcr_moveCcr, toNat_and_operandMask, Nat.mod_mod]

/-- The low bytes of a response, as the handler keeps it. -/
theorem response_mod (size : MoveSize) (val : UInt64) :
    (val.toBitVec.setWidth 32).toNat % 256 ^ size.bytes = val.toNat % 256 ^ size.bytes := by
  have hdvd : 256 ^ size.bytes ∣ 2 ^ 32 := by cases size <;> decide
  rw [BitVec.toNat_setWidth, Nat.mod_mod_of_dvd _ hdvd]
  rfl

/-- The value of an address register after a load. -/
theorem movea_eq {size : MoveSize} (hsize : size ≠ .byte) (val : UInt64) :
    (if size.bytes = 2 then ((val.toBitVec.setWidth 32).setWidth 16).signExtend 32
      else val.toBitVec.setWidth 32) =
      if size.bytes = 2 then (BitVec.ofNat 16 (val.toNat % 256 ^ size.bytes)).signExtend 32
      else .ofNat 32 (val.toNat % 256 ^ size.bytes) := by
  have hval : val.toNat = val.toBitVec.toNat := rfl
  cases size with
  | byte => exact absurd rfl hsize
  | word =>
      show ((val.toBitVec.setWidth 32).setWidth 16).signExtend 32 =
        (BitVec.ofNat 16 (val.toNat % 256 ^ 2)).signExtend 32
      congr 1
      refine BitVec.eq_of_toNat_eq ?_
      simp only [BitVec.toNat_setWidth, BitVec.toNat_ofNat, hval]
      omega
  | long =>
      rw [if_neg (by decide), if_neg (by decide)]
      refine BitVec.eq_of_toNat_eq ?_
      simp only [BitVec.toNat_setWidth, BitVec.toNat_ofNat, MoveSize.bytes, hval]
      omega

/-- The registers and the condition codes after a load. -/
theorem loaded_eq {size : MoveSize} {src : Ea} {dst : Fin 16} (hv : (load size src dst).Valid)
    (hm : Decodes m (load size src dst)) (val : UInt64) :
    (let val' := val.toBitVec.setWidth 32
      let st' := loadRegister st m dst val'
      (if dst.val < 8 then st'.moved (val' &&& operandMask m.size) m.size else st').advance m.len) =
      (load size src dst).retire val st := by
  have hsize : m.size = size.bytes := hm.size
  have hmod := response_mod size val
  rw [retire]
  simp only [hsize, hm.len, MoveInsn.size, moveSize, loadRegister]
  by_cases hd : dst.val < 8
  · rw [if_pos hd, if_pos hd, if_pos hd, moved_eq, replaceLow_eq, hmod]
  · rw [if_neg hd, if_neg hd, if_neg hd]
    rw [movea_eq fun hbyte => hv ⟨hbyte, not_lt.mp hd⟩]
    rfl

theorem retire_store (hstore : i.isStore = true) (val : UInt64) :
    i.retire val st = (flags st i.size (i.stored st)).advance i.bytes.length := by
  cases i with
  | store _ _ _ | storeImm _ _ _ => rfl
  | load _ _ _ => exact Bool.noConfusion hstore

/-- The handler on a move. -/
theorem handleFault_of_encoded (hs : s.Well host abiMax) {r : SstMmioRange} {c : ℕ}
    (hrange : faultRange host s f = some (r, c)) (hv : i.Valid) (hi : i.EncodedAt user st.pc)
    (haddr : f.guestAddr = i.address st) :
    handleFault port host s user f st d =
      if i.isStore = f.isWrite ∧ r.fits f.guestAddr i.size = true then
        some (i.exec (port.serve c f.cpuIndex) st d)
      else none := by
  obtain ⟨m, hdec, hm⟩ := handled hv
  rw [handleFault, hrange]
  simp only [getUser_opcode hi, hdec, hm.isStore, hm.size]
  by_cases hdir : i.isStore = f.isWrite
  swap
  · rw [if_pos (by simp [hdir]), if_neg fun h => hdir h.1]
  by_cases hfits : r.fits f.guestAddr i.size = true
  swap
  · rw [if_pos (by simp [hfits]), if_neg fun h => hfits h.2]
  rw [if_neg (by simp [hdir, hfits]), if_neg (by simp [briefIndex_of_encoded hi hm]),
    if_pos (show i.isStore = f.isWrite ∧ r.fits f.guestAddr i.size = true from ⟨hdir, hfits⟩),
    exec, request, ← haddr]
  cases hstore : i.isStore with
  | true =>
      obtain ⟨raw, hraw, hstored⟩ := sourceValue_of_encoded hi hv hm hstore
      have hsize : i.size = i.moveSize.bytes := rfl
      simp only [if_true, hraw, Port.mmioWrite_of_fault hrange hs, hm.len]
      rw [retire_store hstore, hsize, moved_eq, toNat_and_operandMask, ← hsize, hstored]
  | false =>
      cases i with
      | store _ _ _ | storeImm _ _ _ => exact Bool.noConfusion hstore
      | load size src dst =>
          have hdreg : m.dreg = some dst.val := hm.dreg
          simp only [Bool.false_eq_true, if_false, hdreg, Port.mmioRead_of_fault hrange hs,
            ← hm.size, loaded_eq hv hm]
          rfl

/-- What the handler accepts is a move, if the guest could fetch all of it. -/
theorem exists_of_accepted {op : ℕ} (hop : user.getUser .big 2 st.pc.toNat = some op)
    (hdec : mmioDecode op = some m) (hbrief : briefIndex user st m = true) {bs : List UInt8}
    (hbs : user.bytes m.len st.pc.toNat = some bs) :
    ∃ i : MoveInsn, i.Valid ∧ i.EncodedAt user st.pc := by
  obtain ⟨hlen, hholds⟩ := UserMemory.bytes_eq_some_iff.mp hbs
  obtain ⟨hlen2, hoffset⟩ := decode_index hdec
  have htake : (bs.take 2).length = 2 := by
    rw [List.length_take]
    omega
  have hword := hholds.getUser_part (o := .big) (by omega : 0 + 2 ≤ bs.length)
  rw [Nat.add_zero, hop, List.drop_zero, Option.some.injEq] at hword
  subst hword
  have hlt := ByteOrder.value_lt .big (bs.take 2)
  rw [htake] at hlt
  obtain ⟨i, hv, hpack, hext⟩ := exists_of_decode hdec hlt (bs.drop 2)
    (by rw [List.length_drop]; omega) fun hne => by
      obtain ⟨hoff, hend⟩ := hoffset.resolve_left hne
      have hle := hholds.le (List.ne_nil_of_length_pos (by omega))
      have hpc : (st.pc + .ofNat m.indexOffset).toNat = st.pc.toNat + m.indexOffset := by
        rw [UInt32.toNat_add, UInt32.toNat_ofNat', Nat.add_mod_mod, Nat.mod_eq_of_lt (by omega)]
      rw [briefIndex, if_neg hne, hpc, hholds.getUser_part (by omega), beq_iff_eq] at hbrief
      rw [List.drop_drop, Nat.add_sub_cancel' hoff]
      exact hbrief
  refine ⟨i, hv, ?_⟩
  have hbytes : i.bytes = bs := by
    have hop := ByteOrder.bytes_value .big (bs.take 2)
    rw [htake] at hop
    rw [MoveInsn.bytes, hpack, hext, hop, List.take_append_drop]
  rw [EncodedAt, hbytes]
  exact hholds

/-- **MMIO of an m68k guest.** A fault is serviced exactly if it is in a range of a client with a
mailbox for the thread, the instruction is one of these moves and of this direction, and the access
ends inside the range; the guest then goes on as after this move on what the client serves. -/
theorem handleFault_m68k_iff (h : registerAll host abiMax {} specs = .ok s)
    (haddr : ∀ i, MoveInsn.Valid i → i.EncodedAt user st.pc → f.guestAddr = i.address st)
    (hfetch : ∀ op m, user.getUser .big 2 st.pc.toNat = some op → mmioDecode op = some m →
      ∃ bs, user.bytes m.len st.pc.toNat = some bs) :
    handleFault port host s user f st d = some x ↔
      ∃ r ∈ s.ranges, ∃ c i, r.client = some c ∧ f.cpuIndex < (host.vcpuCount c).toNat ∧
        f.restored = true ∧ MoveInsn.Valid i ∧ i.EncodedAt user st.pc ∧ i.isStore = f.isWrite ∧
        r.base.toNat ≤ (i.address st).toNat ∧
        (i.address st).toNat + i.size ≤ r.base.toNat + r.size.toNat ∧
        x = i.exec (port.serve c f.cpuIndex) st d := by
  obtain ⟨hs, -⟩ := registerAll_well Apertures.well_start h
  constructor
  · intro hx
    have hx' := hx
    rw [handleFault] at hx
    split at hx
    · exact absurd hx (by rintro ⟨⟩)
    rename_i r c hrange
    split at hx
    · exact absurd hx (by rintro ⟨⟩)
    rename_i op hop
    split at hx
    · exact absurd hx (by rintro ⟨⟩)
    rename_i m hdec
    split at hx
    · exact absurd hx (by rintro ⟨⟩)
    split at hx
    · exact absurd hx (by rintro ⟨⟩)
    rename_i hbrief
    obtain ⟨bs, hbs⟩ := hfetch op m hop hdec
    obtain ⟨i, hv, hi⟩ := exists_of_accepted hop hdec (by simpa using hbrief) hbs
    have hat := haddr i hv hi
    rw [handleFault_of_encoded hs hrange hv hi hat] at hx'
    obtain ⟨hr, hlo, hend, hc, hcpu, hrest⟩ := (faultRange_eq_some_iff hs).mp hrange
    split at hx'
    · rename_i hok
      have hfits := (SstMmioRange.fits_iff hlo hend).mp hok.2
      rw [hat] at hlo hfits
      exact ⟨r, hr, c, i, hc, hcpu, hrest, hv, hi, hok.1, hlo, hfits, (Option.some.inj hx').symm⟩
    · exact absurd hx' (by rintro ⟨⟩)
  · rintro ⟨r, hr, c, i, hc, hcpu, hrest, hv, hi, hdir, hlo, hfits, rfl⟩
    have hat := haddr i hv hi
    have hpos : 0 < i.size := by
      rw [MoveInsn.size]
      cases i.moveSize <;> decide
    rw [← hat] at hlo hfits
    have hrange := (faultRange_eq_some_iff hs (f := f)).mpr ⟨hr, hlo, by omega, hc, hcpu, hrest⟩
    rw [handleFault_of_encoded hs hrange hv hi hat,
      if_pos ⟨hdir, (SstMmioRange.fits_iff hlo (by omega)).mpr hfits⟩]

/-- `move.w d1, 4(a0)` at `0x1000`. -/
def storeWordInsn : MoveInsn := .store .word 1 (.displaced 0 4)

def storeWordCode : UserMemory 32 where
  byte a := if a < 0x1000 then none else [0x31, 0x41, 0x00, 0x04][a - 0x1000]?
  bounded a ha := by
    rw [if_neg (by omega)]
    exact List.getElem?_eq_none (by simp; omega)

/-- `a0` holds the address of an aperture, and `X` is set. -/
def storeWordState : M68kState where
  pc := 0x1000
  dregs n := if n = 1 then 0xabcd8001 else 0
  aregs n := if n = 0 then 0x80000000 else 0
  ccr := { x := true, c := true }

/-- The low word is stored, the highest byte first, and it is negative. -/
theorem handleFault_m68k_iff_store :
    ∃ s, registerAll oneClientEach (.ofNat (2 ^ 32 - 1)) {}
        [some "shmname=/a,base=0x80000000,size=0x100".toList] = .ok s ∧
      ∃ x, handleFault (Port.memory .big) oneClientEach s storeWordCode ⟨0x80000004, true, 0, true⟩
          storeWordState (fun _ _ => 0) = some x ∧
        x.1.ccr = { x := true, n := true } ∧ x.1.pc = 0x1004 ∧
        x.2 0 0x80000004 = 0x80 ∧ x.2 0 0x80000005 = 0x01 := by
  obtain ⟨s, hs, hranges⟩ : ∃ s, registerAll oneClientEach (.ofNat (2 ^ 32 - 1)) {}
      [some "shmname=/a,base=0x80000000,size=0x100".toList] = .ok s ∧
      s.ranges = [⟨"/a".toList, 0x80000000, 0x100, 0, some 0⟩] := ⟨_, rfl, rfl⟩
  have hv : storeWordInsn.Valid := ⟨trivial, fun h => absurd h.2 (by decide)⟩
  have hi : storeWordInsn.EncodedAt storeWordCode storeWordState.pc := by
    have hbytes : storeWordCode.bytes 4 0x1000 = some storeWordInsn.bytes := rfl
    exact (UserMemory.bytes_eq_some_iff.mp hbytes).2
  refine ⟨s, hs, _, (handleFault_m68k_iff hs (fun i hiv hi' => ?_) fun op m hop hm => ?_).mpr ⟨_,
    hranges ▸ List.mem_cons_self, 0, storeWordInsn, rfl, by decide, rfl, hv, hi, rfl, by decide,
    by decide, rfl⟩, rfl, rfl, rfl, rfl⟩
  · rw [EncodedAt.unique hi' hiv hi hv]
    rfl
  · rw [getUser_opcode hi, Option.some.injEq] at hop
    obtain ⟨m', hm', hdec⟩ := handled hv
    rw [← hop, hm', Option.some.injEq] at hm
    rw [← hm, hdec.len]
    exact ⟨_, rfl⟩

end

end Quetz.UserMode.M68k
