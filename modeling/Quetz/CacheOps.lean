import Quetz.CacheInvariant
import Quetz.MmioSync

/-!
# Cache Maintenance Instructions

The plugin decodes the cache instructions of the guest (`decodeColdFireCacheOp`,
`src/qemu_plugin/coldfire_cache_ops.h`) and hands each one it knows to the simulator through the
mailbox (`cb_cache_op`, `src/qemu_plugin/instrument.cpp`). The simulator opens a `movec` or a `push`
on the window cache of the vCPU and stops when the cache refuses it.

Both sides check the opcode of a CPUSHL, but only `push` also checks the cache selector.

## Main results

* `decode_encoding`: the callback decodes the instruction it was registered for.
* `cpushl_accepted_iff`: the cache accepts a decoded CPUSHL exactly when it selects a cache, and
  every word the cache accepts is decoded.
* `handleMmioSyncCommand_cpushl_none`: a CPUSHL that selects no cache stops the simulation.
-/

namespace Quetz

open QuetzCpu WindowDataCache

/-! ### The plugin -/

/-- A decoded instruction word. -/
structure ColdFireCacheOp where
  valid : Bool := false
  /-- The mailbox size: 0 MOVEC, 1 CPUSHL. -/
  kind : ℕ := 0
  /-- The mailbox address of a MOVEC: CACR or the ACR number. -/
  control : BitVec 16 := 0
  instruction : BitVec 16 := 0
  /-- The register operand: d0-d7, a0-a7 in encoding order. -/
  source : ℕ := 0
deriving DecidableEq, Repr

/-- The big-endian word of two bytes. -/
def wordOf (high low : UInt8) : BitVec 16 :=
  (high.toBitVec.setWidth 16 <<< 8) ||| low.toBitVec.setWidth 16

def decodeColdFireCacheOp : List UInt8 → ColdFireCacheOp
  | high :: low :: rest =>
    let instruction := wordOf high low
    if instruction = 0x4e7b ∧ 2 ≤ rest.length then
      let ext := wordOf (rest.getD 0 0) (rest.getD 1 0)
      let control := ext &&& 0x0fff
      { instruction, control, source := (ext >>> 12).toNat,
        valid := decide (control = 0x002 ∨ 0x004 ≤ control ∧ control ≤ 0x007) }
    else if instruction &&& 0xff38 = 0xf428 then
      -- ColdFire uses a set/way operand, not the 68040 physical address.
      { instruction, valid := true, kind := 1, source := 8 + (instruction &&& 7).toNat }
    else { instruction }
  | _ => {}

/-- The four bytes that the callback of an instruction is registered with. -/
def encodingOf (bytes : List UInt8) : List UInt8 := (bytes ++ [0, 0, 0, 0]).take 4

/-- The request of the callback; `registers` are d0-d7 and a0-a7. -/
def cacheOpRequest (op : ColdFireCacheOp) (registers : ℕ → UInt32) : MmioSyncRequest where
  cmd := .cacheOp
  addr := if op.kind = 0 then .ofBitVec (op.control.setWidth 64)
    else (registers op.source).toUInt64
  size := op.kind
  writeVal := if op.kind = 0 then (registers op.source).toUInt64
    else .ofBitVec (op.instruction.setWidth 64)

/-- Every word has its two bytes. -/
theorem exists_wordOf (instruction : BitVec 16) : ∃ high low, wordOf high low = instruction := by
  refine ⟨.ofBitVec ((instruction >>> 8).setWidth 8), .ofBitVec (instruction.setWidth 8), ?_⟩
  rw [wordOf]
  ext i hi
  simp
  grind

/-- The cache selector of an instruction lies in its second byte. -/
theorem selector_eq_zero_iff (high low : UInt8) :
    wordOf high low &&& 0xc0 = 0 ↔ low &&& 0xc0 = 0 := by
  have hmask : ∀ i (hi : i < 16), 8 ≤ i → (0xc0 : BitVec 16)[i] = false := by decide
  have hword : wordOf high low &&& 0xc0 = low.toBitVec.setWidth 16 &&& 0xc0 := by
    rw [wordOf]
    ext i hi
    simp
    grind
  have hlow : ∀ b : BitVec 8, b.setWidth 16 &&& 0xc0 = 0 ↔ b &&& 0xc0 = 0 := by decide
  rw [hword, hlow, ← UInt8.toBitVec_inj]
  rfl

section

variable {bytes : List UInt8} {high low : UInt8} {rest : List UInt8}

/-- A CPUSHL is decoded by its first word. -/
theorem decode_of_cpushl (h : wordOf high low &&& 0xff38 = 0xf428) :
    decodeColdFireCacheOp (high :: low :: rest) =
      { instruction := wordOf high low, valid := true, kind := 1,
        source := 8 + (wordOf high low &&& 7).toNat } := by
  have hmovec : ¬(wordOf high low = 0x4e7b ∧ 2 ≤ rest.length) := by
    rintro ⟨heq, -⟩
    rw [heq] at h
    exact absurd h (by decide)
  rw [decodeColdFireCacheOp, if_neg hmovec, if_pos h]

/-- What a buffer decoded as a CPUSHL begins with. -/
theorem cpushl_of_decode (hvalid : (decodeColdFireCacheOp bytes).valid = true)
    (hkind : (decodeColdFireCacheOp bytes).kind = 1) : ∃ high low rest,
      bytes = high :: low :: rest ∧ wordOf high low &&& 0xff38 = 0xf428 := by
  match bytes with
  | [] => cases hvalid
  | [_] => cases hvalid
  | high :: low :: rest =>
    refine ⟨high, low, rest, rfl, ?_⟩
    by_contra hne
    simp only [decodeColdFireCacheOp, if_neg hne] at hvalid hkind
    split_ifs at hvalid hkind

/-- The callback decodes the instruction it was registered for. -/
theorem decode_encoding (h : (decodeColdFireCacheOp bytes).valid = true) :
    decodeColdFireCacheOp (encodingOf bytes) = decodeColdFireCacheOp bytes := by
  match bytes with
  | [] => cases h
  | [_] => cases h
  | [high, low] | [high, low, _] =>
    -- Without an extension word only a CPUSHL is valid.
    have hop : wordOf high low &&& 0xff38 = 0xf428 := by
      by_contra hne
      rw [decodeColdFireCacheOp, if_neg (by simp), if_neg hne] at h
      cases h
    exact (decode_of_cpushl hop).trans (decode_of_cpushl hop).symm
  | high :: low :: extHigh :: extLow :: rest => simp [encodingOf, decodeColdFireCacheOp]

end

/-! ### The simulator -/

/-- The four data bytes of a cache command carry the low word of the value. -/
theorem foldl_valueBytes (value : UInt64) :
    (List.range 4).foldl (fun (word : BitVec 32) i => word |||
      (((value >>> .ofNat (8 * i)).toUInt8.toBitVec.setWidth 32) <<< (8 * i))) 0 =
        value.toBitVec.setWidth 32 := by
  simp only [List.range, List.range.loop, List.foldl]
  ext i hi
  simp
  grind

/-- The call on the window cache that a CPUSHL of the plugin becomes. -/
theorem openCache_cpushl (c : CpuConfig) (w : QuetzCpu) {op : ColdFireCacheOp} (hkind : op.kind = 1)
    (registers : ℕ → UInt32) : openCache (commandOf c w (cacheOpRequest op registers)) =
      .ok fun cache => cache.push op.instruction (registers op.source).toBitVec := by
  have hcmd : (commandOf c w (cacheOpRequest op registers)).cmd = .cacheOp := rfl
  have hsize : (commandOf c w (cacheOpRequest op registers)).size = 1 := hkind
  have haddr : (commandOf c w (cacheOpRequest op registers)).addr =
      (registers op.source).toUInt64 := by simp [commandOf, cacheOpRequest, hkind]
  have hsmall : ¬(registers op.source).toUInt64 > 0xffffffff := by
    rw [gt_iff_lt, UInt64.lt_iff_toNat_lt, UInt32.toNat_toUInt64]
    have := (registers op.source).toNat_lt
    exact Nat.not_lt.mpr (Nat.le_of_lt_succ this)
  have hdata (i : ℕ) (hi : i < 4) :
      (commandOf c w (cacheOpRequest op registers)).data.getD i 0 =
        ((UInt64.ofBitVec (op.instruction.setWidth 64)) >>> .ofNat (8 * i)).toUInt8 := by
    have hlen : i < cmdDataBytes := hi.trans (by decide)
    simp [commandOf, cacheOpRequest, hkind, hi, hlen, List.getD_eq_getElem?_getD]
  have hvalue : (List.range 4).foldl (fun (value : BitVec 32) i => value |||
      ((((commandOf c w (cacheOpRequest op registers)).data.getD i 0).toBitVec.setWidth 32) <<<
        (8 * i))) 0 = (op.instruction.setWidth 64).setWidth 32 := by
    rw [← foldl_valueBytes (.ofBitVec (op.instruction.setWidth 64))]
    refine List.foldl_ext _ _ _ fun value i hi => ?_
    rw [hdata i (List.mem_range.mp hi)]
  have hword : ((op.instruction.setWidth 64).setWidth 32).setWidth 16 = op.instruction := by
    ext i hi
    simp
  have hoperand : (registers op.source).toUInt64.toBitVec.setWidth 32 =
      (registers op.source).toBitVec := by
    simp
  simp only [openCache, hcmd, hsize, haddr, if_neg hsmall, hvalue, hword, hoperand]
  rfl

/-- The mailbox command of a decoded instruction opens a transaction on the cache. -/
def Accepts (cache : WindowDataCache) (cmd : QuetzCommand) : Prop :=
  ∃ f cache', openCache cmd = .ok f ∧ f cache = .ok cache'

/-- An idle cache accepts, of the decoded instructions, exactly those that select a cache. -/
theorem accepts_cpushl_iff {bytes : List UInt8}
    (hvalid : (decodeColdFireCacheOp bytes).valid = true)
    (hkind : (decodeColdFireCacheOp bytes).kind = 1) {cache : WindowDataCache}
    (hidle : cache.active = false) (c : CpuConfig) (w : QuetzCpu) (registers : ℕ → UInt32) :
    Accepts cache (commandOf c w (cacheOpRequest (decodeColdFireCacheOp bytes) registers)) ↔
      bytes.getD 1 0 &&& 0xc0 ≠ 0 := by
  have hopen := openCache_cpushl c w hkind registers
  obtain ⟨high, low, rest, rfl, hop⟩ := cpushl_of_decode hvalid hkind
  have hselector : (high :: low :: rest).getD 1 0 &&& 0xc0 ≠ 0 ↔ wordOf high low &&& 0xc0 ≠ 0 :=
    not_congr (selector_eq_zero_iff high low).symm
  rw [decode_of_cpushl hop] at hopen ⊢
  rw [hselector]
  constructor
  · rintro ⟨f, cache', hf, hpush⟩
    obtain rfl := Except.ok.inj (hopen.symm.trans hf)
    obtain ⟨-, ⟨-, hselect⟩, -⟩ := push_eq_ok.mp hpush
    exact hselect
  · intro hselect
    exact ⟨_, _, hopen, push_eq_ok.mpr ⟨hidle, ⟨hop, hselect⟩, rfl⟩⟩

/-- **The decoder and the cache agree exactly on the instructions that select a cache**: the
mailbox command of a decoded CPUSHL is accepted by an idle cache if and only if the selector in its
second byte is not empty, and every word that the cache accepts is decoded as a CPUSHL. -/
theorem cpushl_accepted_iff (cache : WindowDataCache) (bytes : List UInt8) (c : CpuConfig)
    (w : QuetzCpu) (registers : ℕ → UInt32) :
    ((decodeColdFireCacheOp bytes).valid = true → (decodeColdFireCacheOp bytes).kind = 1 →
      cache.active = false →
        (Accepts cache (commandOf c w (cacheOpRequest (decodeColdFireCacheOp bytes) registers)) ↔
          bytes.getD 1 0 &&& 0xc0 ≠ 0)) ∧
    ∀ (cache' : WindowDataCache) instruction operand,
      cache.push instruction operand = .ok cache' →
        ∃ high low, wordOf high low = instruction ∧ ∀ rest,
          (decodeColdFireCacheOp (high :: low :: rest)).valid = true ∧
          (decodeColdFireCacheOp (high :: low :: rest)).kind = 1 ∧
          (decodeColdFireCacheOp (high :: low :: rest)).instruction = instruction := by
  constructor
  · intro hvalid hkind hidle
    exact accepts_cpushl_iff hvalid hkind hidle c w registers
  · intro cache' instruction operand hpush
    obtain ⟨high, low, rfl⟩ := exists_wordOf instruction
    obtain ⟨-, ⟨hop, -⟩, -⟩ := push_eq_ok.mp hpush
    refine ⟨high, low, rfl, fun rest => ?_⟩
    rw [decode_of_cpushl hop]
    exact ⟨rfl, rfl, rfl⟩

/-- A CPUSHL of the data cache through `a0`, and one that selects no cache. -/
theorem cpushl_accepted_iff_data :
    Accepts {} (commandOf {} {} (cacheOpRequest (decodeColdFireCacheOp [0xf4, 0x68]) fun _ => 0)) ∧
    ¬Accepts {} (commandOf {} {}
      (cacheOpRequest (decodeColdFireCacheOp [0xf4, 0x28]) fun _ => 0)) :=
  ⟨((cpushl_accepted_iff {} [0xf4, 0x68] {} {} fun _ => 0).1 (by decide)
    (by decide) rfl).mpr (by decide),
    fun h => ((cpushl_accepted_iff {} [0xf4, 0x28] {} {} fun _ => 0).1 (by decide)
      (by decide) rfl).mp
      h (by decide)⟩

/-- Not every instruction that the plugin decodes is accepted. -/
theorem cpushl_none_refused : ¬∀ bytes, (decodeColdFireCacheOp bytes).valid = true →
    (decodeColdFireCacheOp bytes).kind = 1 → ∀ cache : WindowDataCache, cache.active = false →
      ∀ c w registers,
        Accepts cache (commandOf c w (cacheOpRequest (decodeColdFireCacheOp bytes) registers)) := by
  intro h
  have haccept := h [0xf4, 0x28] (by decide) (by decide) {} rfl {} {} fun _ => 0
  exact (accepts_cpushl_iff (by decide) (by decide) rfl {} {} fun _ => 0).mp haccept (by decide)

/-- A CPUSHL that selects no cache stops the simulation. -/
theorem handleMmioSyncCommand_cpushl_none {c : CpuConfig} {w : QuetzCpu} {vcpu : ℕ}
    (hvcpu : vcpu < c.vcpuCount) (hcache : c.sstWindowCache = true) (hmmio : c.hasMmio vcpu = true)
    {st : BankState} (hst : w.bank.states[vcpu]? = some st) {bytes : List UInt8}
    (hkind : (decodeColdFireCacheOp bytes).kind = 1)
    (hnone : (decodeColdFireCacheOp bytes).instruction &&& 0xc0 = 0) (registers : ℕ → UInt32) :
    handleMmioSyncCommand c vcpu
        (commandOf c w (cacheOpRequest (decodeColdFireCacheOp bytes) registers)) w =
      .error (.windowCache vcpu (.invalidArgument "invalid ColdFire CPUSHL instruction")) := by
  have hopen := openCache_cpushl c w hkind registers
  have hcmd : (commandOf c w (cacheOpRequest (decodeColdFireCacheOp bytes) registers)).cmd =
      .cacheOp := rfl
  rw [handleMmioSyncCommand, if_neg (Nat.not_le.mpr hvcpu), if_pos (.inl hcmd), handleCacheCommand,
    if_neg (by simp [hcache, hmmio]), hopen]
  simp only [WindowCacheBank.onCache, hst, push, hnone]
  simp

end Quetz
