import Quetz.LaunchContract
import Quetz.NativeRam

/-!
# The Command Line of QEMU

`QemuLauncher::spawn` (`src/quetz_launcher.cc`) puts the extra arguments of QEMU behind the program,
adds `-cpu cfv4e` for the ColdFire adapter unless they select a CPU, and appends the plugin, the
devices, the loader, the executable and the arguments of the application.

Its test for a CPU looks at every element, also at those the gate skips as values. The two agree on
a list that the gate accepts: no value the contract allows begins with a dash, if the name of the
machine does not. What comes behind the extra arguments no one checks, and QEMU reads it the same.

## Main results

* `explicitCpu_iff`: on an accepted list, the test finds the selections the gate reads.
* `reads_commandLine_iff`: the command line is read as the options and then what is appended.
* `coldFire_launch_pins_model`: what an accepted list says, alone and in the command line.
-/

namespace Quetz.Launch

open CxxString

/-! ### The launcher -/

/-- The configuration of a launch. -/
structure LaunchConfig where
  vcpuCount : UInt32 := 1
  architectureAdapter : List Char := []
  platformMachine : List Char := []
  cacheNativeRegions : List QuetzNativeRamRegion := []
  sstWindowCache : Bool := false
  sstWindowBase : UInt64 := 0
  sstWindowSize : UInt64 := 0
  systemMode : Bool := false
  systemModeLoader : List Char := "-kernel".toList
  qemuBin : List Char := "qemu-riscv64".toList
  qemuPlugin : List Char := []
  executable : List Char
  appArgs : List (List Char) := []
  qemuExtraArgs : List (List Char) := []

/-- What a launch finds around it: the directory the plugin is installed in, whether a file can be
read, and the environment. -/
structure LaunchEnv where
  qemuPluginInstallDir : String
  access : List Char → Bool
  getenv : String → Option (List Char)

def coldfireV4e : List Char := "coldfire-v4e".toList

/-- The checks at the end of `QuetzConfig::fromParams`. -/
def adapterFromParams (cfg : LaunchConfig) : Except String Unit :=
  if !cfg.architectureAdapter.isEmpty && cfg.architectureAdapter != coldfireV4e then
    .error ("Unsupported architecture_adapter: " ++ String.ofList cfg.architectureAdapter ++ "\n")
  else if (cfg.sstWindowCache || (cfg.systemMode && decide (cfg.vcpuCount > 1))) &&
      cfg.architectureAdapter != coldfireV4e then
    .error "Cache/system multicore requires architecture_adapter=coldfire-v4e.\n"
  else if !cfg.cacheNativeRegions.isEmpty && !cfg.sstWindowCache then
    .error "cache_native_regions requires sst_window_cache=1.\n"
  else if cfg.architectureAdapter == coldfireV4e then
    if !cfg.systemMode then .error "ColdFire adapter requires system mode.\n"
    else match coldFireLaunchError cfg.qemuExtraArgs cfg.vcpuCount cfg.platformMachine with
      | some error => .error (error ++ "\n")
      | none => .ok ()
  else .ok ()

/-- `multicoreLaunchError`; it does not use its second argument, whether there is a cache. -/
def multicoreLaunchError (vcpus : UInt32) (_ : Bool) (args : List (List Char))
    (machine : List Char) : Option String :=
  if vcpus != 2 then some "system multicore requires exactly two CPUs"
  else coldFireLaunchError args vcpus machine

def windowCacheLaunchError (args : List (List Char)) (vcpus : UInt32) (machine : List Char) :
    Option String :=
  coldFireLaunchError args vcpus machine

/-- `fatal` with the message of a gate, if it has one. -/
def fatalOn (label : String) : Option String → Except String Unit
  | some error => .error (label ++ ": " ++ error ++ ".\n")
  | none => .ok ()

/-- The gates `spawn` passes first. -/
def spawnGates (cfg : LaunchConfig) : Except String Unit := do
  if cfg.systemMode && decide (cfg.vcpuCount > 1) then
    fatalOn "system multicore" (multicoreLaunchError cfg.vcpuCount cfg.sstWindowCache
      cfg.qemuExtraArgs cfg.platformMachine)
  if cfg.sstWindowCache then
    fatalOn "sst_window_cache=1" (windowCacheLaunchError cfg.qemuExtraArgs cfg.vcpuCount
      cfg.platformMachine)

/-- The plugin of the configuration, or the one installed. -/
def resolvePlugin (env : LaunchEnv) (cfg : LaunchConfig) : Except String (List Char) :=
  if cfg.qemuPlugin.isEmpty then
    let libexec := (env.qemuPluginInstallDir ++ "/libqemu_sst_plugin.so").toList
    if env.access libexec then .ok libexec
    else .error ("qemu_plugin path not specified and could not find libqemu_sst_plugin.so in " ++
      env.qemuPluginInstallDir ++ ".\n")
  else .ok cfg.qemuPlugin

/-- `strtoull` with base 0: no number is `0`, and one that is too large the largest. -/
def strtoull (text : List Char) : UInt64 :=
  match stoull text with
  | .ok (value, _) => .ofNat value
  | .error .invalidArgument => 0
  | .error .outOfRange => .ofNat (2 ^ 64 - 1)

/-- `0x%PRIx64`. -/
def hex (v : UInt64) : List Char := "0x".toList ++ Nat.toDigits 16 v.toNat

/-- The base and the size of the doorbell range, if the environment gives one. -/
def mmioRange (env : LaunchEnv) : Option (UInt64 × UInt64) :=
  match env.getenv "QUETZ_MMIO_PAYLOAD", env.getenv "QUETZ_MMIO_START",
      env.getenv "QUETZ_MMIO_END" with
  | some payload, some mmioStart, some mmioEnd =>
      if payload.head? = some '1' then
        let base := strtoull mmioStart
        let last := strtoull mmioEnd
        some (base, if last ≥ base then last - base + 1 else 0)
      else none
  | _, _, _ => none

/-- The argument of `-plugin`. -/
def pluginArg (env : LaunchEnv) (cfg : LaunchConfig) (shmemRegionName : List Char)
    (detailedTracking : Bool) (plugin : List Char) : List Char :=
  plugin ++ ",shmname=".toList ++ shmemRegionName ++
    (if detailedTracking then ",detailed=1".toList else []) ++
    (if cfg.sstWindowCache then ",cache_ops=1".toList else []) ++
    (match mmioRange env with
      | some (base, size) => ",mmio_base=".toList ++ hex base ++ ",mmio_size=".toList ++ hex size
      | none => []) ++
    (if cfg.sstWindowSize ≠ 0 then
      ",win_base=".toList ++ hex cfg.sstWindowBase ++ ",win_size=".toList ++ hex cfg.sstWindowSize
    else [])

/-- The test `explicit_cpu`. -/
def explicitCpu (args : List (List Char)) : Bool :=
  args.any fun arg => arg == "-cpu".toList || arg == "--cpu".toList ||
    "-cpu=".toList.isPrefixOf arg || "--cpu=".toList.isPrefixOf arg

/-- The CPU `spawn` selects itself. -/
def adapterCpu (cfg : LaunchConfig) : List (List Char) :=
  if cfg.architectureAdapter == coldfireV4e && !explicitCpu cfg.qemuExtraArgs then
    ["-cpu".toList, "cfv4e".toList]
  else []

/-- The range of an aperture; `snprintf` has room for 255 characters. -/
def aperture (shmemRegionName : List Char) (base size : UInt64) : List Char :=
  "shmname=".toList ++ shmemRegionName ++ ",base=".toList ++ hex base ++ ",size=".toList ++ hex size

/-- One aperture of the bridge device. -/
def bridge (cfg : LaunchConfig) (shmemRegionName : List Char) (base size : UInt64) : List Char :=
  ("sst-mmio-bridge,".toList ++ aperture shmemRegionName base size ++
      ",vcpu_id=0".toList).take 255 ++
    if cfg.vcpuCount > 1 then ",per-vcpu=on".toList else []

/-- The interrupt properties of the doorbell aperture, as the environment has them. -/
def irqProperties (env : LaunchEnv) : List Char :=
  let property (key : List Char) (value : Option (List Char)) : List Char :=
    match value with
    | some value => if value.isEmpty then [] else key ++ value
    | none => []
  match env.getenv "QUETZ_IRQ_LINES" with
  | some lines =>
      if strtoull lines > 0 then
        ",irq-count=".toList ++ lines ++
          property ",irq-poll-ns=".toList (env.getenv "QUETZ_IRQ_POLL_NS") ++
          property ",intc-type=".toList (env.getenv "QUETZ_IRQ_INTC_TYPE")
      else []
  | none => []

/-- The elements for the doorbell range. -/
def mmioElements (env : LaunchEnv) (cfg : LaunchConfig) (shmemRegionName : List Char) :
    List (List Char) :=
  match mmioRange env with
  | some (base, size) =>
      if size = 0 then []
      else if cfg.systemMode then
        ["-device".toList, bridge cfg shmemRegionName base size ++ irqProperties env]
      else ["-sst-mmio-range".toList, (aperture shmemRegionName base size).take 255]
  | none => []

/-- What `spawn` appends to the options that select the model. -/
def appended (env : LaunchEnv) (cfg : LaunchConfig) (shmemRegionName : List Char)
    (detailedTracking : Bool) (plugin : List Char) : List (List Char) :=
  ["-plugin".toList, pluginArg env cfg shmemRegionName detailedTracking plugin] ++
    mmioElements env cfg shmemRegionName ++
    (if cfg.sstWindowSize ≠ 0 then
      ["-device".toList, bridge cfg shmemRegionName cfg.sstWindowBase cfg.sstWindowSize]
    else []) ++
    (if cfg.systemMode && !cfg.systemModeLoader.isEmpty then [cfg.systemModeLoader] else []) ++
    [cfg.executable] ++ cfg.appArgs

/-- `spawn` up to the fork: the command line, or the message it stops with. -/
def spawn (env : LaunchEnv) (cfg : LaunchConfig) (shmemRegionName : List Char)
    (detailedTracking : Bool) : Except String (List (List Char)) := do
  spawnGates cfg
  let plugin ← resolvePlugin env cfg
  if cfg.sstWindowSize ≠ 0 ∧ !cfg.systemMode then
    .error ("QUETZ_SST_WIN_START/END is only supported in system mode " ++
      "(the window is an sst-mmio-bridge device aperture).\n")
  else .ok (cfg.qemuBin :: (cfg.qemuExtraArgs ++ adapterCpu cfg ++
    appended env cfg shmemRegionName detailedTracking plugin))

/-! ### Two scanners, one reading -/

section

variable {arg key machineName : List Char} {args ns : List (List Char)} {items : List Item}
  {o : ModelOption} {vcpus : UInt32}

/-- An element has a key without `=` exactly if it is the key, alone or with a value. -/
theorem keyOf_eq_iff (hkey : '=' ∉ key) : keyOf arg = key ↔ arg = key ∨ key ++ ['='] <+: arg := by
  constructor
  · rintro rfl
    cases hfind : find arg '=' 0 with
    | none => exact Or.inl (keyOf_of_not_mem (find_eq_none_iff.mp hfind)).symm
    | some equal =>
        refine Or.inr ⟨substr arg (equal + 1) none, ?_⟩
        rw [← List.append_cons]
        exact (eq_of_find hfind).symm
  · rintro (rfl | ⟨value, rfl⟩)
    · exact keyOf_of_not_mem hkey
    · rw [← List.append_cons, keyOf_append hkey]

/-- The test `explicit_cpu` looks for the key of the option in every element. -/
theorem explicitCpu_iff_spells :
    explicitCpu args = true ↔ ∃ arg ∈ args, Spells (names .cpu) (keyOf arg) := by
  rw [explicitCpu, List.any_eq_true]
  refine exists_congr fun arg => and_congr_right fun _ => ?_
  have hone : keyOf arg = "-cpu".toList ↔ _ := keyOf_eq_iff (by decide)
  have htwo : keyOf arg = '-' :: "-cpu".toList ↔ _ := keyOf_eq_iff (by decide)
  simp only [Spells, names, List.mem_singleton, exists_eq_left, hone, htwo, Bool.or_eq_true,
    beq_iff_eq, List.isPrefixOf_iff_prefix]
  exact or_assoc.trans or_or_or_comm

/-- The key of an option begins with a dash, and the element with it. -/
theorem head_of_spells (hns : ∀ n ∈ ns, ∃ c t, n = '-' :: c :: t ∧ c ≠ '-')
    (h : Spells ns (keyOf arg)) : arg.head? = some '-' := by
  obtain ⟨n, hn, hkey⟩ := h
  obtain ⟨c, t, rfl, -⟩ := hns n hn
  obtain ⟨rest, harg⟩ : keyOf arg <+: arg := List.takeWhile_prefix _
  rw [← harg]
  obtain hkey | hkey := hkey <;> rw [hkey] <;> rfl

/-- No value the contract allows begins with a dash. -/
theorem Contract.head_ne (h : Contract vcpus machineName items)
    (hdash : machineName.head? ≠ some '-') {value : List Char} (hvalue : value ∈ valuesOf o items) :
    value.head? ≠ some '-' := by
  have hallowed := h.allowed o value hvalue
  cases o with
  | machine =>
      intro hhead
      obtain ⟨rest, rfl⟩ := List.head?_eq_some_iff.mp hhead
      rw [← hallowed.1, List.takeWhile_cons_of_pos (by decide)] at hdash
      exact hdash rfl
  | cpu =>
      rw [hallowed]
      decide
  | smp =>
      rw [hallowed]
      obtain hcpus | hcpus := h.cpus <;> rw [hcpus] <;> decide
  | accel =>
      obtain hvalue | ⟨-, hvalue⟩ := hallowed <;> rw [hvalue] <;> decide

/-- An element is the key of an option, its value, or no option. -/
inductive Item.Has : Item → List Char → Prop
  | key {o : ModelOption} {value arg : List Char} (hkey : Spells (names o) (keyOf arg)) :
      Item.Has (.model o value) arg
  | value (o : ModelOption) (value : List Char) : Item.Has (.model o value) value
  | other {arg : List Char} (harg : ∀ o, ¬Spells (names o) (keyOf arg)) : Item.Has (.other arg) arg

/-- Every element has a part in one of the items. -/
theorem Reads.exists_has (h : Reads args items) (harg : arg ∈ args) :
    ∃ item ∈ items, item.Has arg := by
  induction h with
  | nil => cases harg
  | joined hkey h ih =>
      rw [List.exists_mem_cons_iff]
      obtain rfl | harg := List.mem_cons.mp harg
      · exact Or.inl (.key (by rwa [keyOf_append hkey.not_mem]))
      · exact Or.inr (ih harg)
  | separate hkey h ih =>
      rw [List.exists_mem_cons_iff]
      obtain rfl | harg := List.mem_cons.mp harg
      · exact Or.inl (.key (by rwa [keyOf_of_not_mem hkey.not_mem]))
      obtain rfl | harg := List.mem_cons.mp harg
      · exact Or.inl (.value _ _)
      · exact Or.inr (ih harg)
  | other hkey h ih =>
      rw [List.exists_mem_cons_iff]
      obtain rfl | harg := List.mem_cons.mp harg
      · exact Or.inl (.other hkey)
      · exact Or.inr (ih harg)

/-- An option that is read has its key in the list. -/
theorem Reads.exists_key (h : Reads args items) (ho : valuesOf o items ≠ []) :
    ∃ arg ∈ args, Spells (names o) (keyOf arg) := by
  induction h with
  | nil => exact absurd rfl ho
  | @joined o' key value rest items hkey h ih =>
      by_cases hsame : o' = o
      · subst hsame
        exact ⟨_, List.mem_cons_self, by rwa [keyOf_append hkey.not_mem]⟩
      · rw [valuesOf, if_neg hsame] at ho
        obtain ⟨arg, harg, hspells⟩ := ih ho
        exact ⟨arg, List.mem_cons_of_mem _ harg, hspells⟩
  | @separate o' key value rest items hkey h ih =>
      by_cases hsame : o' = o
      · subst hsame
        exact ⟨_, List.mem_cons_self, by rwa [keyOf_of_not_mem hkey.not_mem]⟩
      · rw [valuesOf, if_neg hsame] at ho
        obtain ⟨arg, harg, hspells⟩ := ih ho
        exact ⟨arg, List.mem_cons_of_mem _ (List.mem_cons_of_mem _ harg), hspells⟩
  | other hkey h ih =>
      obtain ⟨arg, harg, hspells⟩ := ih ho
      exact ⟨arg, List.mem_cons_of_mem _ harg, hspells⟩

/-- **The two scanners agree**: on an accepted list the test finds a CPU exactly if one is read. -/
theorem explicitCpu_iff (hread : Reads args items) (h : Contract vcpus machineName items)
    (hdash : machineName.head? ≠ some '-') :
    explicitCpu args = true ↔ valuesOf .cpu items ≠ [] := by
  rw [explicitCpu_iff_spells]
  constructor
  · rintro ⟨arg, harg, hspells⟩
    obtain ⟨item, hitem, hhas⟩ := hread.exists_has harg
    cases hhas with
    | key hkey =>
        obtain rfl := hspells.unique hkey
        exact List.ne_nil_of_mem (mem_valuesOf.mpr hitem)
    | value o value =>
        exact absurd (head_of_spells (names_dash _) hspells)
          (h.head_ne hdash (mem_valuesOf.mpr hitem))
    | other hother => exact absurd hspells (hother _)
  · exact hread.exists_key

/-- No element of an accepted list overrides the model, not even as a value. -/
theorem Contract.not_override (h : Contract vcpus machineName items) (hread : Reads args items)
    (hdash : machineName.head? ≠ some '-') (harg : arg ∈ args) :
    ¬Spells overrides (keyOf arg) := by
  obtain ⟨item, hitem, hhas⟩ := hread.exists_has harg
  cases hhas with
  | key hkey => exact hkey.not_override
  | value o value =>
      exact fun hspells => h.head_ne hdash (mem_valuesOf.mpr hitem)
        (head_of_spells overrides_dash hspells)
  | other => exact h.no_override arg hitem

/-- An option of an accepted list is absent, or there once. -/
theorem Contract.values_cases (h : Contract vcpus machineName items) (o : ModelOption) :
    valuesOf o items = [] ∨
      ∃ value, valuesOf o items = [value] ∧ Allowed vcpus machineName o value := by
  have hallowed := h.allowed o
  have honce := h.once o
  match hvalues : valuesOf o items with
  | [] => exact Or.inl rfl
  | [value] => exact Or.inr ⟨value, rfl, hallowed value (by rw [hvalues]; exact List.mem_cons_self)⟩
  | _ :: _ :: _ =>
      rw [hvalues] at honce
      simp at honce

end

/-! ### The command line -/

section

variable {machineName : List Char} {args before after inserted : List (List Char)}
  {items : List Item} {o : ModelOption} {vcpus : UInt32} {env : LaunchEnv} {cfg : LaunchConfig}
  {shmemRegionName : List Char} {detailedTracking : Bool} {argv : List (List Char)}

/-- The CPU `spawn` adds is read behind a complete list. -/
theorem reads_cpu : Reads ["-cpu".toList, "cfv4e".toList] [.model .cpu "cfv4e".toList] :=
  .separate ⟨_, List.mem_cons_self, Or.inl rfl⟩ .nil

/-- **The options of the command line select one CPU**, and of the rest what the list selects. -/
theorem reads_options (hread : Reads cfg.qemuExtraArgs items)
    (h : Contract vcpus machineName items) (hdash : machineName.head? ≠ some '-')
    (hadapter : cfg.architectureAdapter = coldfireV4e) :
    ∃ options, Reads (cfg.qemuExtraArgs ++ adapterCpu cfg) options ∧
      valuesOf .cpu options = ["cfv4e".toList] ∧
      ∀ o ≠ .cpu, valuesOf o options = valuesOf o items := by
  have hexplicit := explicitCpu_iff hread h hdash
  rw [adapterCpu, hadapter, beq_self_eq_true, Bool.true_and]
  obtain hnone | ⟨value, hvalues, rfl⟩ := h.values_cases .cpu
  · rw [if_pos (by rw [Bool.not_eq_true', ← Bool.not_eq_true, hexplicit, not_not]; exact hnone)]
    refine ⟨_, hread.append_iff.mpr ⟨_, rfl, reads_cpu⟩, ?_, fun o ho => ?_⟩
    · rw [valuesOf_append, hnone]
      rfl
    · rw [valuesOf_append, valuesOf, if_neg (Ne.symm ho)]
      exact List.append_nil _
  · have hsome : explicitCpu cfg.qemuExtraArgs = true := by
      rw [hexplicit, hvalues]
      exact List.cons_ne_nil _ _
    rw [hsome, if_neg (by decide), List.append_nil]
    exact ⟨items, hread, hvalues, fun _ _ => rfl⟩

/-- The command line `spawn` builds. -/
theorem spawn_eq_ok (h : spawn env cfg shmemRegionName detailedTracking = .ok argv) :
    ∃ plugin, resolvePlugin env cfg = .ok plugin ∧
      argv = cfg.qemuBin :: (cfg.qemuExtraArgs ++ adapterCpu cfg ++
        appended env cfg shmemRegionName detailedTracking plugin) := by
  obtain ⟨_, -, h⟩ := bind_eq_ok_iff.mp h
  obtain ⟨plugin, hplugin, h⟩ := bind_eq_ok_iff.mp h
  split_ifs at h with hwindow
  exact ⟨plugin, hplugin, (Except.ok.inj h).symm⟩

/-- An option that is there already cannot be added to an accepted list. -/
theorem repeated_option_rejected (hargs : Reads (before ++ after) items)
    (hbefore : ∃ items, Reads before items) {value : List Char}
    (hinserted : Reads inserted [.model o value]) (ho : valuesOf o items ≠ []) :
    coldFireLaunchError (before ++ inserted ++ after) vcpus machineName ≠ none := by
  intro haccepted
  obtain ⟨all, hall, h⟩ := coldFireLaunchError_eq_none_iff.mp haccepted
  obtain ⟨first, hfirst⟩ := hbefore
  obtain ⟨last, rfl, hlast⟩ := hfirst.append_iff.mp hargs
  rw [List.append_assoc, hfirst.append_iff] at hall
  obtain ⟨_, rfl, hrest⟩ := hall
  obtain ⟨last', rfl, hlast'⟩ := hinserted.append_iff.mp hrest
  obtain rfl := hlast.unique hlast'
  have honce := h.once o
  rw [valuesOf_append] at ho honce
  have hpos := List.length_pos_iff.mpr ho
  simp only [List.length_append, List.singleton_append, valuesOf, if_true, List.length_cons]
    at honce hpos
  omega

/-- The list is read completely and gives the option these values. -/
def Selects (args : List (List Char)) (o : ModelOption) (values : List (List Char)) : Prop :=
  ∃ items, Reads args items ∧ valuesOf o items = values

theorem Selects.unique {values values' : List (List Char)} (h : Selects args o values)
    (h' : Selects args o values') : values = values' := by
  obtain ⟨items, hread, rfl⟩ := h
  obtain ⟨items', hread', rfl⟩ := h'
  rw [hread'.unique hread]

/-- The selections of two lists, the first one complete. -/
theorem selects_append_iff (hread : Reads before items) {values : List (List Char)} :
    Selects (before ++ after) o values ↔
      ∃ more, Selects after o more ∧ values = valuesOf o items ++ more := by
  constructor
  · rintro ⟨all, hall, rfl⟩
    obtain ⟨tail, rfl, htail⟩ := hread.append_iff.mp hall
    exact ⟨_, ⟨tail, htail, rfl⟩, valuesOf_append _ _ _⟩
  · rintro ⟨_, ⟨tail, htail, rfl⟩, rfl⟩
    exact ⟨_, hread.append_iff.mpr ⟨tail, rfl, htail⟩, valuesOf_append _ _ _⟩

/-- **An accepted list pins the model**: it has one reading, which selects the machine of the
descriptor and nothing else that changes it. In the command line the options select one CPU; a
second selection can come only from what `spawn` appends to them. -/
theorem coldFire_launch_pins_model (args : List (List Char)) (vcpus : UInt32)
    (machineName : List Char) (hdash : machineName.head? ≠ some '-')
    (h : coldFireLaunchError args vcpus machineName = none) :
    (∃! items, Reads args items) ∧
      (∃ value, Selects args .machine [value] ∧ IsMachine machineName value) ∧
      (Selects args .cpu [] ∨ Selects args .cpu ["cfv4e".toList]) ∧
      (Selects args .smp [] ∨ Selects args .smp [toDecimal vcpus]) ∧
      (Selects args .accel [] ∨
        ∃ value, Selects args .accel [value] ∧ SingleThread vcpus value) ∧
      (∀ arg ∈ args, ¬Spells overrides (keyOf arg)) ∧
      (vcpus = 2 → ¬Selects args .smp [] ∧ ¬Selects args .accel []) ∧
      (∀ (env : LaunchEnv) (cfg : LaunchConfig) (shmemRegionName : List Char)
        (detailedTracking : Bool) (argv : List (List Char)),
        cfg.qemuExtraArgs = args → cfg.architectureAdapter = coldfireV4e →
        spawn env cfg shmemRegionName detailedTracking = .ok argv →
        ∃ plugin, resolvePlugin env cfg = .ok plugin ∧
          argv = cfg.qemuBin :: (args ++ adapterCpu cfg ++
            appended env cfg shmemRegionName detailedTracking plugin) ∧
          Selects (args ++ adapterCpu cfg) .cpu ["cfv4e".toList] ∧
          ∀ values, Selects argv.tail .cpu values ↔
            ∃ more, Selects (appended env cfg shmemRegionName detailedTracking plugin) .cpu more ∧
              values = "cfv4e".toList :: more) ∧
      ∀ (before after inserted : List (List Char)) (o : ModelOption) (value : List Char),
        args = before ++ after → (∃ items, Reads before items) →
        Reads inserted [.model o value] → ¬Selects args o [] →
        coldFireLaunchError (before ++ inserted ++ after) vcpus machineName ≠ none := by
  obtain ⟨items, hread, hcontract⟩ := coldFireLaunchError_eq_none_iff.mp h
  have hselects : ∀ {o values}, valuesOf o items = values → Selects args o values := by
    intro o values hvalues
    exact ⟨items, hread, hvalues⟩
  have habsent : ∀ {o}, ¬Selects args o [] ↔ valuesOf o items ≠ [] := by
    intro o
    exact not_congr ⟨fun habsent => (hselects rfl).unique habsent, hselects⟩
  refine ⟨⟨items, hread, fun _ => hread.unique⟩, ?_, ?_, ?_, ?_,
    fun arg harg => hcontract.not_override hread hdash harg, fun htwo => ?_, ?_, ?_⟩
  · obtain hnone | ⟨value, hvalue, hmachine⟩ := hcontract.values_cases .machine
    · exact absurd hnone hcontract.machine
    · exact ⟨value, hselects hvalue, hmachine⟩
  · obtain hnone | ⟨value, hvalue, rfl⟩ := hcontract.values_cases .cpu
    · exact Or.inl (hselects hnone)
    · exact Or.inr (hselects hvalue)
  · obtain hnone | ⟨value, hvalue, rfl⟩ := hcontract.values_cases .smp
    · exact Or.inl (hselects hnone)
    · exact Or.inr (hselects hvalue)
  · obtain hnone | ⟨value, hvalue, hsingle⟩ := hcontract.values_cases .accel
    · exact Or.inl (hselects hnone)
    · exact Or.inr ⟨value, hselects hvalue, hsingle⟩
  · exact ⟨habsent.mpr (hcontract.two htwo).1, habsent.mpr (hcontract.two htwo).2⟩
  · rintro env cfg shmemRegionName detailedTracking argv rfl hadapter hspawn
    obtain ⟨plugin, hplugin, rfl⟩ := spawn_eq_ok hspawn
    obtain ⟨options, hoptions, hcpu, -⟩ := reads_options hread hcontract hdash hadapter
    refine ⟨plugin, hplugin, rfl, ⟨options, hoptions, hcpu⟩, fun values => ?_⟩
    rw [List.tail_cons, selects_append_iff hoptions, hcpu]
    rfl
  · rintro before after inserted o value rfl hbefore hinserted hpresent
    exact repeated_option_rejected hread hbefore hinserted (habsent.mp hpresent)

end

/-- Two CPUs, the options in the form with `=`. -/
theorem coldFire_launch_pins_model_two :
    "example-v4e".toList.head? ≠ some '-' ∧
      ∃ value, Selects ["--machine=example-v4e".toList, "-smp=2".toList,
        "-accel=tcg,thread=single".toList, "-cpu=cfv4e".toList] .machine [value] ∧
        IsMachine "example-v4e".toList value := by
  have hdash : "example-v4e".toList.head? ≠ some '-' := by decide
  have haccepted : coldFireLaunchError ["--machine=example-v4e".toList, "-smp=2".toList,
      "-accel=tcg,thread=single".toList, "-cpu=cfv4e".toList] 2 "example-v4e".toList = none := by
    decide +kernel
  exact ⟨hdash, (coldFire_launch_pins_model _ _ _ hdash haccepted).2.1⟩

/-- A launch whose application takes arguments that QEMU reads as well. -/
def cpuArgument : LaunchConfig where
  architectureAdapter := coldfireV4e
  platformMachine := "example-v4e".toList
  systemMode := true
  qemuBin := "qemu-system-m68k".toList
  qemuPlugin := "plugin.so".toList
  executable := "app.elf".toList
  appArgs := ["-cpu".toList, "m5208".toList]
  qemuExtraArgs := ["-M".toList, "example-v4e".toList]

/-- The gate does not see the arguments of the application: the command line selects two CPUs. -/
theorem application_selects_cpu :
    cpuArgument.platformMachine.head? ≠ some '-' ∧ adapterFromParams cpuArgument = .ok () ∧
      coldFireLaunchError cpuArgument.qemuExtraArgs cpuArgument.vcpuCount
        cpuArgument.platformMachine = none ∧
      ∃ argv, spawn ⟨"/usr/libexec", fun _ => false, fun _ => none⟩ cpuArgument "shm".toList false =
          .ok argv ∧
        Selects argv.tail .cpu ["cfv4e".toList, "m5208".toList] ∧
        ¬Selects argv.tail .cpu ["cfv4e".toList] := by
  have hmachine : Spells (names .machine) "-M".toList := by decide
  have hcpu : Spells (names .cpu) "-cpu".toList := by decide
  have hother : ∀ arg ∈ ["-plugin".toList, "plugin.so,shmname=shm".toList, "-kernel".toList,
      "app.elf".toList], ∀ o, ¬Spells (names o) (keyOf arg) := by
    intro arg harg o
    cases o <;> revert arg <;> decide
  have hselects : Selects ["-M".toList, "example-v4e".toList, "-cpu".toList, "cfv4e".toList,
      "-plugin".toList, "plugin.so,shmname=shm".toList, "-kernel".toList, "app.elf".toList,
      "-cpu".toList, "m5208".toList] .cpu ["cfv4e".toList, "m5208".toList] :=
    ⟨_, .separate hmachine <| .separate hcpu <| .other (hother _ (by decide)) <|
      .other (hother _ (by decide)) <| .other (hother _ (by decide)) <|
      .other (hother _ (by decide)) <| .separate hcpu .nil, rfl⟩
  have haccepted : coldFireLaunchError cpuArgument.qemuExtraArgs cpuArgument.vcpuCount
      cpuArgument.platformMachine = none := by
    decide +kernel
  refine ⟨by decide, ?_, haccepted, _, rfl, hselects, fun hone => ?_⟩
  · rw [adapterFromParams, haccepted]
    rfl
  · exact absurd (hselects.unique hone) (by decide)

end Quetz.Launch
