import Mathlib.Data.List.Perm.Basic
import Quetz.Lib.Lookup
import Quetz.LaunchCommand
import Quetz.PluginTrace

/-!
# The Installation of the Plugin

`qemu_plugin_install` (`src/qemu_plugin/plugin_main.cpp`) selects the classifier and the handler of
the target, reads its arguments, and attaches to the trace rings. The selection goes through a
registry that static initializers fill, in an order the program does not fix; it takes the longest
prefix of the target's name, and the empty prefix if there is no other.

## Main results

* `findByPrefix_eq_some_iff`, `findByPrefix_perm`: the longest prefix is selected, in any order of
  the registrations.
* `install_eq_ok_iff`: which arguments and which topologies the plugin accepts.
-/

namespace Quetz

open CxxString

/-! ### The registry -/

section

variable {α : Type}

/-- The loop of `Registry::findByPrefix`: the best factory so far and the length of its prefix. -/
def bestPrefix (target : List Char) (best : Option α × ℕ) (e : List Char × α) : Option α × ℕ :=
  if e.1.isEmpty then best
  else if e.1.isPrefixOf target && decide (e.1.length > best.2) then (some e.2, e.1.length)
  else best

/-- `Registry::findByPrefix`: the longest prefix, or else the first empty one. -/
def findByPrefix (entries : List (List Char × α)) (target : List Char) : Option α :=
  match (entries.foldl (bestPrefix target) (none, 0)).1 with
  | some factory => some factory
  | none => (entries.find? fun e => e.1.isEmpty).map Prod.snd

variable {entries entries' : List (List Char × α)} {target : List Char} {factory : α}

/-- The loop finds the longest entry with a prefix that is not empty. -/
theorem foldl_bestPrefix (entries : List (List Char × α)) (target : List Char)
    (best : Option (List Char × α)) (hbest : ∀ e ∈ best, e.1 ≠ []) :
    entries.foldl (bestPrefix target) (best.map Prod.snd, (best.map (·.1.length)).getD 0) =
      let found := Lookup.longest (fun e => e.1.length)
        (fun e => !e.1.isEmpty && e.1.isPrefixOf target) best entries
      (found.map Prod.snd, (found.map (·.1.length)).getD 0) := by
  induction entries generalizing best with
  | nil => rfl
  | cons e entries ih =>
      rw [List.foldl_cons, Lookup.longest, bestPrefix]
      by_cases hempty : e.1 = []
      · simp only [hempty, List.isEmpty_nil, if_true, Bool.not_true, Bool.false_and,
          Bool.false_eq_true, if_false]
        exact ih best hbest
      have hlong : decide (e.1.length > (best.map (·.1.length)).getD 0) =
          best.all fun b => decide (b.1.length < e.1.length) := by
        cases best with
        | none => simpa using List.length_pos_iff.mpr hempty
        | some b => rfl
      simp only [List.isEmpty_eq_false_iff.mpr hempty, Bool.false_eq_true, if_false, hlong,
        Bool.not_false, Bool.true_and]
      split
      · exact ih (some e) (by simpa using hempty)
      · exact ih best hbest

/-- Prefixes of one name with one length are the same. -/
theorem eq_of_length_eq (hkeys : (entries.map Prod.fst).Nodup) {e e' : List Char × α}
    (he : e ∈ entries) (he' : e' ∈ entries) (hp : e.1 <+: target) (hp' : e'.1 <+: target)
    (hlen : e.1.length = e'.1.length) : e = e' := by
  refine List.inj_on_of_nodup_map hkeys he he' ?_
  rw [List.prefix_iff_eq_take.mp hp, List.prefix_iff_eq_take.mp hp', hlen]

/-- **The longest prefix is selected.** The empty prefix is one of every name. -/
theorem findByPrefix_eq_some_iff (hkeys : (entries.map Prod.fst).Nodup) :
    findByPrefix entries target = some factory ↔ ∃ key, (key, factory) ∈ entries ∧
      key <+: target ∧ ∀ e ∈ entries, e.1 <+: target → e.1.length ≤ key.length := by
  have hmatch : ∀ e : List Char × α, (!e.1.isEmpty && e.1.isPrefixOf target) = true ↔
      e.1 ≠ [] ∧ e.1 <+: target := by
    intro e
    simp
  have hlongest : ∀ {e}, Lookup.longest (fun e => e.1.length)
      (fun e => !e.1.isEmpty && e.1.isPrefixOf target) none entries = some e ↔
      e ∈ entries ∧ (e.1 ≠ [] ∧ e.1 <+: target) ∧
        ∀ b ∈ entries, (b.1 ≠ [] ∧ b.1 <+: target) → b.1.length ≤ e.1.length := by
    intro e
    rw [Lookup.longest_eq_some_iff fun a ha b hb hpa hpb hlen => eq_of_length_eq hkeys ha hb
      ((hmatch a).mp hpa).2 ((hmatch b).mp hpb).2 hlen]
    simp only [hmatch]
  have hfold := foldl_bestPrefix entries target none (by simp)
  simp only [Option.map_none, Option.getD_none] at hfold
  rw [findByPrefix, hfold]
  cases hfound : Lookup.longest (fun e : List Char × α => e.1.length)
      (fun e => !e.1.isEmpty && e.1.isPrefixOf target) none entries with
  | some e =>
      obtain ⟨hmem, ⟨hne, hpre⟩, hmax⟩ := hlongest.mp hfound
      have hall : ∀ b ∈ entries, b.1 <+: target → b.1.length ≤ e.1.length := by
        intro b hb hbp
        by_cases hb0 : b.1 = []
        · simp [hb0]
        · exact hmax b hb ⟨hb0, hbp⟩
      simp only [Option.map_some, Option.some.injEq]
      constructor
      · rintro rfl
        exact ⟨e.1, hmem, hpre, hall⟩
      · rintro ⟨key, hkey, hkp, hkmax⟩
        have := eq_of_length_eq hkeys hmem hkey hpre hkp
          (Nat.le_antisymm (hkmax e hmem hpre) (hall _ hkey hkp))
        rw [this]
  | none =>
      simp only [Option.map_none]
      have hnone : ∀ e ∈ entries, e.1 <+: target → e.1 = [] := by
        intro e he hp
        by_contra hne
        exact Lookup.longest_ne_none (.inr ⟨e, he, (hmatch e).mpr ⟨hne, hp⟩⟩) hfound
      rw [Option.map_eq_some_iff]
      constructor
      · rintro ⟨e, hfind, rfl⟩
        have hmem := List.mem_of_find?_eq_some hfind
        have hempty : e.1 = [] := by simpa using List.find?_some hfind
        refine ⟨e.1, hmem, hempty ▸ List.nil_prefix, fun b hb hbp => ?_⟩
        rw [hnone b hb hbp, hempty]
      · rintro ⟨key, hkey, hkp, -⟩
        obtain rfl : key = [] := hnone _ hkey hkp
        have hsome : (entries.find? fun e => e.1.isEmpty).isSome := by
          rw [List.find?_isSome]
          exact ⟨_, hkey, rfl⟩
        obtain ⟨e, he⟩ := Option.isSome_iff_exists.mp hsome
        have hempty : e.1 = [] := by simpa using List.find?_some he
        have heq := List.inj_on_of_nodup_map hkeys (List.mem_of_find?_eq_some he) hkey hempty
        exact ⟨e, he, by rw [heq]⟩

/-- The order of the registrations does not matter. -/
theorem findByPrefix_perm (hkeys : (entries.map Prod.fst).Nodup) (hperm : entries.Perm entries') :
    findByPrefix entries target = findByPrefix entries' target := by
  ext factory
  rw [findByPrefix_eq_some_iff hkeys,
    findByPrefix_eq_some_iff ((hperm.map Prod.fst).nodup_iff.mp hkeys)]
  simp only [hperm.mem_iff]

end

/-! ### The arguments -/

/-- The classifiers that are registered. -/
inductive InsnClassifier where
  | riscv | aarch64 | generic
deriving DecidableEq, Repr

def InsnClassifier.usesPreciseMemCallbacks : InsnClassifier → Bool
  | riscv | aarch64 => true
  | generic => false

/-- The registered classifiers and the registered handler. -/
def classifiers : List (List Char × InsnClassifier) :=
  [("riscv".toList, .riscv), ("aarch64".toList, .aarch64), ("".toList, .generic)]

def memHandlers : List (List Char × Unit) := [("".toList, ())]

/-- What QEMU tells the plugin about the guest. -/
structure QemuInfo where
  targetName : Option (List Char)
  systemEmulation : Bool
  smpVcpus : ℤ

/-- The arguments of the plugin. -/
structure PluginArgs where
  shmemName : List Char := []
  detailed : Bool := false
  cacheOps : Bool := false
  mmioSyncBase : UInt64 := 0
  mmioSyncSize : UInt64 := 0
  sstWinBase : UInt64 := 0
  sstWinSize : UInt64 := 0

/-- One argument; the ones the plugin does not know are skipped. -/
def readArg (a : PluginArgs) (arg : List Char) : PluginArgs :=
  if "shmname=".toList.isPrefixOf arg then { a with shmemName := arg.drop 8 }
  else if arg == "cache_ops=1".toList then { a with cacheOps := true }
  else if "detailed=".toList.isPrefixOf arg then
    { a with detailed := (arg.drop 9).head? == some '1' }
  else if "mmio_base=".toList.isPrefixOf arg then
    { a with mmioSyncBase := Launch.strtoull (arg.drop 10) }
  else if "mmio_size=".toList.isPrefixOf arg then
    { a with mmioSyncSize := Launch.strtoull (arg.drop 10) }
  else if "win_base=".toList.isPrefixOf arg then
    { a with sstWinBase := Launch.strtoull (arg.drop 9) }
  else if "win_size=".toList.isPrefixOf arg then
    { a with sstWinSize := Launch.strtoull (arg.drop 9) }
  else a

def readArgs (args : List (List Char)) : PluginArgs := args.foldl readArg {}

/-! ### The installation -/

/-- The plugin after its installation. -/
structure Installed where
  args : PluginArgs
  systemMode : Bool
  classifier : InsnClassifier
  configuredVcpus : UInt32
  warning : Option String := none

/-- The warning for detailed tracking without a decoder. -/
def detailedWarning (target : List Char) : String :=
  "[qemu_sst_plugin] WARNING: detailed instruction tracking requested but ISA '" ++
    String.ofList target ++ "' has no instruction decoder.\n" ++
    "  All non-memory instructions will be reported as OTHER.\n" ++
    "  Register a decoder via QUETZ_REGISTER_CLASSIFIER.\n"

/-- The checks of `cache_ops=1`. -/
def cacheOpsCheck (version : ℕ) (target : List Char) (systemMode : Bool) (a : PluginArgs) :
    Except String Unit :=
  if a.cacheOps && (target != "m68k".toList || !systemMode || a.sstWinSize == 0) then
    .error ("[qemu_sst_plugin] ERROR: cache_ops=1 requires " ++
      "ColdFire system mode and an SST-backed window.\n")
  else if version < 3 && a.cacheOps then
    .error ("[qemu_sst_plugin] ERROR: cache_ops=1 requires " ++
      "QEMU plugin API version 3 or newer.\n")
  else .ok ()

/-- The number of trace rings fits the plugin and the machine. -/
def topologyCheck (info : Option QemuInfo) (systemMode : Bool) (configured : UInt32) :
    Except String Unit :=
  if configured = 0 ∨ configured.toNat > pluginMaxVcpus ∨
      (systemMode && info.any fun q => q.smpVcpus != (configured.toNat : ℤ)) then
    .error ("[qemu_sst_plugin] ERROR: configured trace-ring count " ++ toString configured ++
      " does not match the QEMU vCPU topology.\n")
  else .ok ()

/-- `qemu_plugin_install`. `attach` gives the number of trace rings of a shared memory, if it can be
attached; a failure is the text that is written before the plugin returns `1`. -/
def install (version : ℕ) (registered : List (List Char × InsnClassifier))
    (handlers : List (List Char × Unit)) (attach : List Char → Option UInt32)
    (info : Option QemuInfo) (argv : List (List Char)) : Except String Installed :=
  let target := (info.bind (·.targetName)).getD []
  let systemMode := info.any (·.systemEmulation)
  match findByPrefix registered target, findByPrefix handlers target with
  | some classifier, some _ => do
      let a := readArgs argv
      cacheOpsCheck version target systemMode a
      let warning := if a.detailed && !classifier.usesPreciseMemCallbacks then
        some (detailedWarning target) else none
      if a.shmemName.isEmpty then
        .error "[qemu_sst_plugin] ERROR: no 'shmname=<name>' argument.\n"
      else match attach a.shmemName with
        | none => .error ("[qemu_sst_plugin] ERROR: failed to attach to shmem '" ++
            String.ofList a.shmemName ++ "'.\n")
        | some configured => do
            topologyCheck info systemMode configured
            .ok { args := a, systemMode, classifier, configuredVcpus := configured, warning }
  | _, _ => .error ("[qemu_sst_plugin] ERROR: no classifier/handler for target '" ++
      String.ofList target ++ "'.\n")

/-- The configuration the callbacks work with. -/
def Installed.config (i : Installed) (version : ℕ) : PluginConfig where
  configuredVcpus := i.configuredVcpus.toNat
  mmioSyncBase := i.args.mmioSyncBase
  mmioSyncSize := i.args.mmioSyncSize
  sstWinBase := i.args.sstWinBase
  sstWinSize := i.args.sstWinSize
  usesPreciseMemCallbacks := i.classifier.usesPreciseMemCallbacks
  pluginVersion := version

/-! ### What is accepted -/

section

variable {version : ℕ} {registered : List (List Char × InsnClassifier)}
  {handlers : List (List Char × Unit)} {attach : List Char → Option UInt32}
  {info : Option QemuInfo} {argv : List (List Char)} {target : List Char} {i : Installed}

/-- The classifier of a target. -/
def classifierOf (target : List Char) : InsnClassifier :=
  if "riscv".toList.isPrefixOf target then .riscv
  else if "aarch64".toList.isPrefixOf target then .aarch64
  else .generic

/-- Every target has a classifier, in any order of the registrations. -/
theorem findByPrefix_classifiers (hreg : registered.Perm classifiers) (target : List Char) :
    findByPrefix registered target = some (classifierOf target) := by
  have hnodup : (classifiers.map Prod.fst).Nodup := by decide
  rw [← findByPrefix_perm hnodup hreg.symm, findByPrefix_eq_some_iff hnodup]
  have hboth : ¬ ("riscv".toList <+: target ∧ "aarch64".toList <+: target) := by
    rintro ⟨⟨a, ha⟩, ⟨b, hb⟩⟩
    rw [← ha] at hb
    exact absurd (List.cons.inj hb).1 (by decide)
  rw [classifierOf]
  split
  next hr =>
    rw [List.isPrefixOf_iff_prefix] at hr
    refine ⟨_, List.mem_cons_self, hr, ?_⟩
    simp only [classifiers, List.forall_mem_cons]
    exact ⟨fun _ => le_rfl, fun ha => absurd ⟨hr, ha⟩ hboth, fun _ => Nat.zero_le _, by simp⟩
  next hr =>
    split
    next ha =>
      rw [List.isPrefixOf_iff_prefix] at ha
      refine ⟨_, List.mem_cons_of_mem _ List.mem_cons_self, ha, ?_⟩
      simp only [classifiers, List.forall_mem_cons]
      exact ⟨fun hr => absurd ⟨hr, ha⟩ hboth, fun _ => le_rfl, fun _ => Nat.zero_le _, by simp⟩
    next ha =>
      rw [List.isPrefixOf_iff_prefix] at hr ha
      refine ⟨[], by simp [classifiers], List.nil_prefix, ?_⟩
      simp only [classifiers, List.forall_mem_cons]
      exact ⟨fun h => absurd h hr, fun h => absurd h ha, fun _ => le_rfl, by simp⟩

theorem findByPrefix_memHandlers (hreg : handlers.Perm memHandlers) (target : List Char) :
    findByPrefix handlers target = some () := by
  have hnodup : (memHandlers.map Prod.fst).Nodup := by decide
  rw [← findByPrefix_perm hnodup hreg.symm, findByPrefix_eq_some_iff hnodup]
  exact ⟨[], List.mem_cons_self, List.nil_prefix, by simp [memHandlers]⟩

/-- Cache operations need a ColdFire in system mode, a window and a recent plugin API. -/
theorem cacheOpsCheck_eq_ok_iff {systemMode : Bool} {a : PluginArgs} :
    cacheOpsCheck version target systemMode a = .ok () ↔ (a.cacheOps = true →
      target = "m68k".toList ∧ systemMode = true ∧ a.sstWinSize ≠ 0 ∧ 3 ≤ version) := by
  rw [cacheOpsCheck]
  cases a.cacheOps with
  | false => simp
  | true =>
      simp only [Bool.true_and, forall_true_left]
      split
      next h =>
        refine iff_of_false (by rintro ⟨⟩) ?_
        rintro ⟨rfl, rfl, hsize, -⟩
        simp [hsize] at h
      next h =>
        simp only [Bool.or_eq_true, bne_iff_ne, Bool.not_eq_true', beq_iff_eq, not_or, not_not,
          Bool.not_eq_false] at h
        split
        next hv =>
          refine iff_of_false (by rintro ⟨⟩) ?_
          rintro ⟨-, -, -, hversion⟩
          simp at hv
          omega
        next hv =>
          refine iff_of_true rfl ⟨h.1.1, h.1.2, h.2, ?_⟩
          simp at hv
          omega

theorem topologyCheck_eq_ok_iff {systemMode : Bool} {configured : UInt32} :
    topologyCheck info systemMode configured = .ok () ↔ 0 < configured.toNat ∧
      configured.toNat ≤ pluginMaxVcpus ∧
        (systemMode = true → ∀ q ∈ info, q.smpVcpus = configured.toNat) := by
  have hzero : configured = 0 ↔ configured.toNat = 0 :=
    ⟨fun h => h ▸ rfl, fun h => UInt32.toNat_inj.mp h⟩
  have hsmp : (systemMode && info.any fun q => q.smpVcpus != (configured.toNat : ℤ)) = true ↔
      ¬ (systemMode = true → ∀ q ∈ info, q.smpVcpus = configured.toNat) := by
    cases info <;> cases systemMode <;> simp
  rw [topologyCheck]
  split
  next h =>
    rw [hzero, hsmp] at h
    refine iff_of_false (by rintro ⟨⟩) ?_
    rintro ⟨hpos, hmax, hall⟩
    obtain h0 | hgt | hne := h
    · omega
    · omega
    · exact hne hall
  next h =>
    rw [hzero, hsmp, not_or, not_or, not_not] at h
    exact iff_of_true rfl ⟨Nat.pos_of_ne_zero h.1, not_lt.mp h.2.1, h.2.2⟩

/-- An installed plugin has a ring for each vCPU it was configured for, and room for them. -/
theorem vcpus_of_install
    (h : install version registered handlers attach info argv = .ok i) :
    0 < i.configuredVcpus.toNat ∧ i.configuredVcpus.toNat ≤ pluginMaxVcpus := by
  rw [install] at h
  simp only at h
  split at h
  · obtain ⟨_, -, h⟩ := bind_eq_ok_iff.mp h
    split at h
    · exact absurd h (by rintro ⟨⟩)
    split at h
    · exact absurd h (by rintro ⟨⟩)
    obtain ⟨_, htop, h⟩ := bind_eq_ok_iff.mp h
    obtain rfl := Except.ok.inj h
    obtain ⟨hpos, hmax, -⟩ := topologyCheck_eq_ok_iff.mp htop
    exact ⟨hpos, hmax⟩
  · exact absurd h (by rintro ⟨⟩)

/-- **What the plugin accepts.** In any order of the registrations the classifier is that of the
name of the target. The rest is decided by the arguments and the shared memory they name. -/
theorem install_eq_ok_iff (hreg : registered.Perm classifiers)
    (hhandlers : handlers.Perm memHandlers) :
    install version registered handlers attach info argv = .ok i ↔
      i.args = readArgs argv ∧ i.systemMode = info.any (·.systemEmulation) ∧
      i.classifier = classifierOf ((info.bind (·.targetName)).getD []) ∧
      i.args.shmemName ≠ [] ∧ attach i.args.shmemName = some i.configuredVcpus ∧
      0 < i.configuredVcpus.toNat ∧ i.configuredVcpus.toNat ≤ pluginMaxVcpus ∧
      (i.systemMode = true → ∀ q ∈ info, q.smpVcpus = i.configuredVcpus.toNat) ∧
      (i.args.cacheOps = true → (info.bind (·.targetName)).getD [] = "m68k".toList ∧
        i.systemMode = true ∧ i.args.sstWinSize ≠ 0 ∧ 3 ≤ version) ∧
      i.warning = if i.args.detailed && !i.classifier.usesPreciseMemCallbacks then
        some (detailedWarning ((info.bind (·.targetName)).getD [])) else none := by
  rw [install, findByPrefix_classifiers hreg, findByPrefix_memHandlers hhandlers]
  simp only
  constructor
  · intro h
    obtain ⟨_, hcache, h⟩ := bind_eq_ok_iff.mp h
    split at h
    · exact absurd h (by rintro ⟨⟩)
    rename_i hname
    split at h
    · exact absurd h (by rintro ⟨⟩)
    rename_i configured hattach
    obtain ⟨_, htop, h⟩ := bind_eq_ok_iff.mp h
    obtain rfl := Except.ok.inj h
    obtain ⟨hpos, hmax, hsmp⟩ := topologyCheck_eq_ok_iff.mp htop
    exact ⟨rfl, rfl, rfl, by simpa using hname, hattach, hpos, hmax, hsmp,
      cacheOpsCheck_eq_ok_iff.mp hcache, rfl⟩
  · rintro ⟨hargs, hmode, hcls, hname, hattach, hpos, hmax, hsmp, hcache, hwarn⟩
    obtain ⟨a, systemMode, classifier, configured, warning⟩ := i
    obtain rfl : a = readArgs argv := hargs
    obtain rfl : systemMode = _ := hmode
    obtain rfl : classifier = _ := hcls
    refine bind_eq_ok_iff.mpr ⟨(), cacheOpsCheck_eq_ok_iff.mpr hcache, ?_⟩
    rw [if_neg (by simpa using hname), hattach]
    refine bind_eq_ok_iff.mpr ⟨(), topologyCheck_eq_ok_iff.mpr ⟨hpos, hmax, hsmp⟩, ?_⟩
    exact congrArg (fun w => Except.ok (⟨_, _, _, _, w⟩ : Installed)) hwarn.symm

/-- A RISC-V guest of two vCPUs, whatever the order of the static initializers. -/
theorem install_eq_ok_iff_riscv :
    install 4 classifiers.reverse memHandlers (fun _ => some 2)
        (some ⟨some "riscv64".toList, true, 2⟩)
        ["shmname=/a".toList, "mmio_base=0x1000".toList, "mmio_size=256".toList] =
      .ok ⟨⟨"/a".toList, false, false, 0x1000, 0x100, 0, 0⟩, true, .riscv, 2, none⟩ := by
  refine (install_eq_ok_iff (List.reverse_perm _) (.refl _)).mpr
    ⟨rfl, rfl, rfl, List.cons_ne_nil _ _, rfl, by decide, by decide, ?_, ?_, rfl⟩
  · rintro - q hq
    rw [← Option.some.inj hq]
    rfl
  · exact fun hcache => Bool.noConfusion hcache

end

end Quetz
