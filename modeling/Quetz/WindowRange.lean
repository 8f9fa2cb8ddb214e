import Quetz.MmioSync
import Quetz.PluginTrace

/-!
# The Range of the Window

The deck exports the first and the last address of the SST window. `QuetzConfig::fromParams`
(`src/quetz_config.cc`) alone parses them and keeps a base and a size, so that "the aperture and
the mailbox can never disagree"; `QemuLauncher` hands both numbers to the plugin.

`windowBigEndian` and the handler of the plugin then compare an address with `base + size` in 64
bits. If the window ends at the last address, that sum is `0` and no address is below it; if it is
the whole address space, the size itself is `0` and `fromParams` takes the window for absent.

## Main results

* `window_test_iff`: what the comparison with `base + size` means for an inclusive end.
* `windowMembership_iff`: when both tests mean "in the window".
* `Plugin.reported_outside`: no access to the window is in the trace.
-/

namespace Quetz

/-! ### The configuration -/

/-- The part of `fromParams` that reads the window; the numbers are those of the environment. -/
def windowFromParams (winStart winEnd : Option UInt64) (c : CpuConfig) : Except String CpuConfig :=
  let c := match winStart, winEnd with
    | some ws, some we =>
        let c := { c with sstWindowBase := ws }
        if we ≥ c.sstWindowBase then { c with sstWindowSize := we - c.sstWindowBase + 1 } else c
    | _, _ => c
  if c.windowBigEndian && c.sstWindowSize == 0 then
    .error ("window_big_endian=1 but no SST window is configured " ++
      "(QUETZ_SST_WIN_START/END not set) — nothing to apply it to.\n")
  else .ok c

namespace Plugin

/-- The window in the arguments of the plugin; without them the plugin keeps its zeros. -/
def windowArgs (c : CpuConfig) (p : PluginConfig) : PluginConfig :=
  if c.sstWindowSize ≠ 0 then
    { p with sstWinBase := c.sstWindowBase, sstWinSize := c.sstWindowSize }
  else { p with sstWinBase := 0, sstWinSize := 0 }

variable (p : PluginConfig)

/-- The first test of the handler: the doorbell range. -/
def inMmioRange (vaddr : UInt64) : Bool :=
  p.mmioSyncSize != 0 && decide (p.mmioSyncBase ≤ vaddr) &&
    decide (vaddr < p.mmioSyncBase + p.mmioSyncSize)

/-- The second test of the handler: the window. -/
def inWindowRange (vaddr : UInt64) : Bool :=
  p.sstWinSize != 0 && decide (p.sstWinBase ≤ vaddr) &&
    decide (vaddr < p.sstWinBase + p.sstWinSize)

theorem isSync_eq (vaddr : UInt64) :
    isSync p vaddr = (inMmioRange p vaddr || inWindowRange p vaddr) := rfl

/-- An access to the address adds nothing to the trace of any vCPU. -/
def Suppressed (vaddr : UInt64) : Prop :=
  ∀ v < p.configuredVcpus, ∀ (info : MemInfo) (pc : UInt64) (cls : InsnClass) (s : PluginState),
    ∃ s', handle p v info vaddr pc cls s = .ok s' ∧ published s' v = published s v

variable {p} {vaddr : UInt64}

/-- What a traced access adds. -/
theorem published_access (cmd : QuetzCommand) (v : ℕ) (s : PluginState) :
    published (writeMessage v cmd (flushed v s)) v = published s v ++ expand [cmd] := by
  rw [← flushed_published v s]
  simp only [published, writeMessage, Function.update_self, flushed_count, expand_append,
    List.replicate_zero, List.append_nil]

/-- An access is suppressed if one of the two tests succeeds, and is traced otherwise. -/
theorem suppressed_iff_isSync (hmax : p.configuredVcpus ≤ pluginMaxVcpus)
    (hpos : 0 < p.configuredVcpus) : Suppressed p vaddr ↔ isSync p vaddr = true := by
  constructor
  · intro h
    by_contra hsync
    obtain ⟨s', hs', hsame⟩ := h 0 hpos ⟨false, 0, .u8 0⟩ 0 .intMem {}
    rw [handle_eq hmax hpos, if_neg hsync] at hs'
    obtain rfl := Except.ok.inj hs'
    rw [published_access, expand_access (Or.inl rfl)] at hsame
    exact absurd hsame (by simp [published, expand])
  · intro hsync v hv info pc cls s
    refine ⟨flushed v s, ?_, flushed_published v s⟩
    rw [handle_eq hmax hv, if_pos hsync]

end Plugin

/-! ### The two tests -/

/-- The last address. -/
def lastAddress : UInt64 := 0xffffffffffffffff

variable {start fin addr : UInt64}

/-- The address after the last one is `0`. -/
theorem lt_succ_iff : addr < fin + 1 ↔ addr ≤ fin ∧ fin ≠ lastAddress := by
  have hfin := fin.toNat_lt
  have hlast : fin ≠ lastAddress ↔ fin.toNat ≠ 2 ^ 64 - 1 := not_congr UInt64.toNat_inj.symm
  rw [hlast, UInt64.lt_iff_toNat_lt, UInt64.le_iff_toNat_le, UInt64.toNat_add]
  have hone : (1 : UInt64).toNat = 1 := rfl
  rw [hone]
  omega

/-- The comparison with base and size, for a window given by its inclusive end. -/
theorem window_test_iff (hle : start ≤ fin) :
    (fin - start + 1 != 0 && decide (start ≤ addr) && decide (addr < start + (fin - start + 1))) =
      true ↔ (start ≤ addr ∧ addr ≤ fin) ∧ fin ≠ lastAddress := by
  have hsum : start + (fin - start + 1) = fin + 1 := by
    rw [← UInt64.add_assoc, UInt64.add_comm start, UInt64.sub_add_cancel]
  rw [hsum, Bool.and_eq_true, Bool.and_eq_true, bne_iff_ne, decide_eq_true_eq, decide_eq_true_eq,
    lt_succ_iff]
  constructor
  · rintro ⟨⟨-, hlo⟩, hhi, hlast⟩
    exact ⟨⟨hlo, hhi⟩, hlast⟩
  · rintro ⟨⟨hlo, hhi⟩, hlast⟩
    refine ⟨⟨fun hzero => ?_, hlo⟩, hhi, hlast⟩
    have hend : start < fin + 1 := lt_succ_iff.mpr ⟨hle, hlast⟩
    rw [← hsum, hzero, UInt64.add_zero] at hend
    exact absurd hend (UInt64.lt_irrefl start)

/-- The configuration of a window. -/
theorem windowFromParams_eq (hle : start ≤ fin) {c c' : CpuConfig}
    (h : windowFromParams (some start) (some fin) c = .ok c') :
    c' = { c with sstWindowBase := start, sstWindowSize := fin - start + 1 } := by
  rw [windowFromParams] at h
  dsimp only at h
  rw [if_pos (ge_iff_le.mpr hle)] at h
  split_ifs at h
  exact (Except.ok.inj h).symm

/-- A window that is not the whole address space is accepted. -/
theorem windowFromParams_ok (hle : start ≤ fin) (hsize : fin - start + 1 ≠ 0) (c : CpuConfig) :
    windowFromParams (some start) (some fin) c =
      .ok { c with sstWindowBase := start, sstWindowSize := fin - start + 1 } := by
  rw [windowFromParams]
  dsimp only
  rw [if_pos (ge_iff_le.mpr hle), if_neg]
  simp [hsize]

/-- The size of a window with a last address is not zero. -/
theorem window_size_ne_zero (hle : start ≤ fin) (hpart : fin ≠ lastAddress ∨ addr < start) :
    fin - start + 1 ≠ 0 := by
  intro hzero
  have hnat := congrArg UInt64.toNat hzero
  have hfin := fin.toNat_lt
  have hone : (1 : UInt64).toNat = 1 := rfl
  rw [UInt64.toNat_add, UInt64.toNat_sub_of_le _ _ hle, hone, UInt64.toNat_zero] at hnat
  rw [UInt64.le_iff_toNat_le] at hle
  rcases hpart with hlast | hbelow
  · have hne : fin.toNat ≠ 2 ^ 64 - 1 := fun h => hlast (UInt64.toNat_inj.mp h)
    omega
  · rw [UInt64.lt_iff_toNat_lt] at hbelow
    omega

/-- `windowBigEndian` for a big-endian window without a window cache. -/
theorem windowBigEndian_iff (hle : start ≤ fin) {c : CpuConfig} (hcache : c.sstWindowCache = false)
    (cpu : QuetzCpu) : QuetzCpu.windowBigEndian
      { c with windowBigEndian := true, sstWindowBase := start, sstWindowSize := fin - start + 1 }
      cpu addr = true ↔ (start ≤ addr ∧ addr ≤ fin) ∧ fin ≠ lastAddress := by
  rw [← window_test_iff hle, QuetzCpu.windowBigEndian, hcache]
  exact Iff.rfl

namespace Plugin

variable {p : PluginConfig} {c : CpuConfig}

/-- The window test of the handler. -/
theorem inWindowRange_iff (hle : start ≤ fin) (hbase : c.sstWindowBase = start)
    (hsize : c.sstWindowSize = fin - start + 1) :
    inWindowRange (windowArgs c p) addr = true ↔
      (start ≤ addr ∧ addr ≤ fin) ∧ fin ≠ lastAddress := by
  rw [← window_test_iff hle, windowArgs, hbase, hsize]
  by_cases hzero : fin - start + 1 = 0
  · rw [if_neg (not_not_intro hzero), hzero]
    exact Iff.rfl
  · rw [if_pos hzero]
    exact Iff.rfl

/-- The window has no part in the first test. -/
theorem inMmioRange_windowArgs (c : CpuConfig) (p : PluginConfig) (addr : UInt64) :
    inMmioRange (windowArgs c p) addr = inMmioRange p addr := by
  rw [windowArgs]
  split_ifs <;> rfl

theorem configuredVcpus_windowArgs (c : CpuConfig) (p : PluginConfig) :
    (windowArgs c p).configuredVcpus = p.configuredVcpus := by
  rw [windowArgs]
  split_ifs <;> rfl

/-- What the plugin of a window suppresses. -/
theorem suppressed_iff (hmax : p.configuredVcpus ≤ pluginMaxVcpus) (hpos : 0 < p.configuredVcpus)
    (hle : start ≤ fin) (hbase : c.sstWindowBase = start)
    (hsize : c.sstWindowSize = fin - start + 1) : Suppressed (windowArgs c p) addr ↔
      inMmioRange p addr = true ∨ (start ≤ addr ∧ addr ≤ fin) ∧ fin ≠ lastAddress := by
  rw [suppressed_iff_isSync (by rw [configuredVcpus_windowArgs]; exact hmax)
    (by rw [configuredVcpus_windowArgs]; exact hpos), isSync_eq, Bool.or_eq_true,
    inMmioRange_windowArgs, inWindowRange_iff hle hbase hsize]

/-- A callback traces no access to either range. -/
theorem observe_access (p : PluginConfig) (v : ℕ) (o : Observed) (cb : PluginCallback)
    {cmd : QuetzCommand} (hcmd : .access cmd ∈ (observe p v o cb).trace) :
    .access cmd ∈ o.trace ∨ isSync p cmd.addr = false := by
  cases cb with
  | emitNop u pc cls =>
      rw [observe] at hcmd
      split_ifs at hcmd
      · exact Or.inl (by simpa using hcmd)
      · exact Or.inl hcmd
  | execDelayed u pc cls =>
      rw [observe] at hcmd
      split_ifs at hcmd
      · exact Or.inl hcmd
      · exact Or.inl (by simpa using hcmd)
      · exact Or.inl hcmd
  | mem u info vaddr pc cls =>
      rw [observe] at hcmd
      split_ifs at hcmd with htraced
      · rcases List.mem_append.mp hcmd with hold | hnew
        · exact Or.inl hold
        · obtain rfl := TraceItem.access.inj (List.mem_singleton.mp hnew)
          exact Or.inr htraced.2
      · exact Or.inl hcmd
  | cacheOp u => exact Or.inl hcmd
  | atexit n =>
      rw [observe] at hcmd
      by_cases hv : v < (if n = 0 then 1 else n)
      · rw [if_pos hv] at hcmd
        exact Or.inl (by simpa using hcmd)
      · rw [if_neg hv] at hcmd
        exact Or.inl hcmd

theorem reported_not_sync (p : PluginConfig) (v : ℕ) (cbs : List PluginCallback)
    {cmd : QuetzCommand} (hcmd : .access cmd ∈ reported p v cbs) : isSync p cmd.addr = false := by
  suffices hrun : ∀ o : Observed, .access cmd ∈ (cbs.foldl (observe p v) o).trace →
      .access cmd ∈ o.trace ∨ isSync p cmd.addr = false by
    rcases hrun {} hcmd with hstart | hnot
    · exact absurd hstart List.not_mem_nil
    · exact hnot
  clear hcmd
  induction cbs with
  | nil => exact fun o ho => Or.inl ho
  | cons cb cbs ih =>
      intro o ho
      rcases ih _ ho with hstep | hnot
      · exact observe_access p v o cb hstep
      · exact Or.inr hnot

/-- The accesses of a trace lie outside the window, whatever callbacks come. -/
theorem reported_outside (hle : start ≤ fin) (hlast : fin ≠ lastAddress)
    (hbase : c.sstWindowBase = start) (hsize : c.sstWindowSize = fin - start + 1) (v : ℕ)
    (cbs : List PluginCallback) {cmd : QuetzCommand}
    (hcmd : .access cmd ∈ reported (windowArgs c p) v cbs) :
    ¬(start ≤ cmd.addr ∧ cmd.addr ≤ fin) := by
  intro hin
  have hsync := reported_not_sync _ v cbs hcmd
  rw [isSync_eq, (inWindowRange_iff hle hbase hsize).mpr ⟨hin, hlast⟩, Bool.or_true] at hsync
  exact Bool.noConfusion hsync

end Plugin

/-! ### Membership -/

/-- Both sides take an address for one of the window exactly when it lies between its first and
its last address. -/
structure WindowMembership (c : CpuConfig) (p : PluginConfig) (start fin addr : UInt64) : Prop where
  /-- The configuration of a big-endian window is accepted, and `windowBigEndian` holds exactly of
  its addresses. -/
  bigEndian : ∃ c', windowFromParams (some start) (some fin) { c with windowBigEndian := true } =
    .ok c' ∧ ∀ cpu, QuetzCpu.windowBigEndian c' cpu addr = true ↔ start ≤ addr ∧ addr ≤ fin
  /-- An access is suppressed exactly if it is one to the doorbell range or to the window. -/
  suppressed : ∀ c', windowFromParams (some start) (some fin) c = .ok c' →
    (Plugin.Suppressed (Plugin.windowArgs c' p) addr ↔
      Plugin.inMmioRange p addr = true ∨ start ≤ addr ∧ addr ≤ fin)

/-- **Membership of the window**: both tests mean "between the first and the last address" exactly
if the address after the window exists, or the address is below it anyway. -/
theorem windowMembership_iff {c : CpuConfig} {p : PluginConfig} (hcache : c.sstWindowCache = false)
    (hmax : p.configuredVcpus ≤ pluginMaxVcpus) (hpos : 0 < p.configuredVcpus) (hle : start ≤ fin) :
    WindowMembership c p start fin addr ↔ fin ≠ lastAddress ∨ addr < start := by
  constructor
  · intro h
    by_contra hwrap
    obtain ⟨hlast, hlo⟩ := not_or.mp hwrap
    obtain ⟨c', hc', hbig⟩ := h.bigEndian
    obtain rfl := windowFromParams_eq hle hc'
    have hhi : addr ≤ fin := by
      rw [not_not.mp hlast, UInt64.le_iff_toNat_le]
      exact Nat.le_of_lt_succ addr.toNat_lt
    have htest := (hbig {}).mpr ⟨UInt64.not_lt.mp hlo, hhi⟩
    exact hlast ((windowBigEndian_iff hle hcache {}).mp htest).2
  · intro h
    have hin : (start ≤ addr ∧ addr ≤ fin) ∧ fin ≠ lastAddress ↔ start ≤ addr ∧ addr ≤ fin := by
      refine ⟨And.left, fun hin => ⟨hin, ?_⟩⟩
      rcases h with hlast | hbelow
      · exact hlast
      · exact absurd hbelow (UInt64.not_lt.mpr hin.1)
    refine ⟨⟨_, windowFromParams_ok hle (window_size_ne_zero hle h) _, fun cpu => ?_⟩,
      fun c' hc' => ?_⟩
    · rw [windowBigEndian_iff hle hcache, hin]
    · obtain rfl := windowFromParams_eq hle hc'
      rw [Plugin.suppressed_iff hmax hpos hle rfl rfl, hin]

/-- An address of a window in the middle of the address space. -/
theorem windowMembership_middle : WindowMembership {} {} 0x71000000 0x7100ffff 0x7100ffff :=
  (windowMembership_iff rfl (by decide) (by decide) (by decide)).mpr (Or.inl (by decide))

/-- The first address of a window that ends at the last address is not in it. -/
theorem last_window_not_member :
    ¬WindowMembership {} {} 0xffffffffffff0000 0xffffffffffffffff 0xffffffffffff0000 := by
  rintro ⟨⟨c', hc', hbig⟩, -⟩
  obtain rfl := windowFromParams_eq (by decide) hc'
  have htest := (hbig {}).mpr ⟨by decide, by decide⟩
  exact absurd htest (by decide)

end Quetz
