import Quetz.PluginInstall
import Quetz.UserApertures

/-!
# The Doorbell Range on Both Sides

The launcher prints the doorbell range twice: into the argument of the plugin, which keeps its
accesses off the trace rings, and, in user mode, into the range QEMU services through the mailbox.
Both sides read the text back with parsers of their own. If they disagreed about an address, its
accesses would be delivered twice or not at all.

QEMU cuts the argument of `-plugin` at commas before the plugin reads it. The cut is given here by
its parts: no part has a comma, and together they are the argument.

## Main results

* `readArgs_pluginArg`: the plugin reads the ranges that were printed.
* `doorbell_ranges_agree`: in user mode the addresses QEMU services are those the plugin skips.
-/

namespace Quetz.Launch

open CxxString UserMode

/-! ### Printed parts -/

section

variable {parts parts' : List (List Char)} {v : UInt64} {name text : List Char} {r : SstMmioRange}
  {a : PluginArgs}

/-- A text is cut at commas in one way. -/
theorem parts_inj (h : ∀ p ∈ parts, ',' ∉ p) (h' : ∀ p ∈ parts', ',' ∉ p)
    (heq : parts.flatMap (List.cons ',') = parts'.flatMap (List.cons ',')) : parts = parts' := by
  have hsplit : ∀ {ps : List (List Char)}, (∀ p ∈ ps, ',' ∉ p) → ∀ q, ',' ∉ q →
      (q ++ ps.flatMap (List.cons ',')).splitOn ',' = q :: ps := by
    intro ps hps
    induction ps with
    | nil =>
        intro q hq
        rw [List.flatMap_nil, List.append_nil]
        exact List.splitOn_eq_singleton hq
    | cons p ps ih =>
        intro q hq
        rw [List.flatMap_cons, List.cons_append,
          List.splitOn_append_cons_self_of_not_mem hq,
          ih (fun p' hp' => hps p' (List.mem_cons_of_mem _ hp')) p (hps p List.mem_cons_self)]
  have hparts := hsplit h [] List.not_mem_nil
  rw [heq, hsplit h' [] List.not_mem_nil] at hparts
  exact (List.cons.inj hparts).2.symm

theorem hex_eq (v : UInt64) : hex v = '0' :: 'x' :: Nat.toDigits 16 v.toNat := rfl

/-- No digit of a printed number is a comma. -/
theorem comma_not_mem_hex (v : UInt64) : ',' ∉ hex v := by
  have hall := (toDigits_spec (by decide) le_rfl v.toNat).1
  rw [hex_eq, List.mem_cons, List.mem_cons, not_or, not_or]
  refine ⟨by decide, by decide, fun hmem => ?_⟩
  exact ne_of_isDigit (List.all_eq_true.mp hall _ hmem) rfl rfl

/-- The plugin reads a printed number. -/
theorem strtoull_hex (v : UInt64) : strtoull (hex v) = v := by
  rw [strtoull, hex_eq, stoull_hex v.toNat_lt]
  exact UInt64.ofNat_toNat

/-- QEMU reads a printed number. -/
theorem rangeNumber_hex (v : UInt64) : rangeNumber (hex v) = .ok v := by
  have hhead : ¬ (hex v = [] ∨ (hex v).head? = some '-') := by
    rw [hex_eq]
    simp
  rw [rangeNumber, if_neg hhead, hex_eq, stoull_hex v.toNat_lt]
  simp

end

/-! ### The argument of the plugin -/

section

variable {env : LaunchEnv} {cfg : LaunchConfig} {shmemRegionName plugin : List Char}
  {detailedTracking : Bool} {args : List (List Char)}

/-- The arguments the launcher prints for the plugin. -/
def pluginParts (env : LaunchEnv) (cfg : LaunchConfig) (shmemRegionName : List Char)
    (detailedTracking : Bool) : List (List Char) :=
  ["shmname=".toList ++ shmemRegionName] ++
    (if detailedTracking then ["detailed=1".toList] else []) ++
    (if cfg.sstWindowCache then ["cache_ops=1".toList] else []) ++
    (match mmioRange env with
      | some (base, size) => ["mmio_base=".toList ++ hex base, "mmio_size=".toList ++ hex size]
      | none => []) ++
    (if cfg.sstWindowSize ≠ 0 then
      ["win_base=".toList ++ hex cfg.sstWindowBase, "win_size=".toList ++ hex cfg.sstWindowSize]
    else [])

/-- Two printed numbers, each after a comma. -/
theorem flatMap_two (key key' : List Char) (v w : UInt64) :
    [key ++ hex v, key' ++ hex w].flatMap (List.cons ',') =
      (',' :: key) ++ hex v ++ (',' :: key') ++ hex w := by
  rw [List.flatMap_cons, List.flatMap_cons, List.flatMap_nil, List.append_nil]
  simp only [List.cons_append, List.append_assoc]

/-- The argument is the path of the plugin and these parts. -/
theorem pluginArg_eq : pluginArg env cfg shmemRegionName detailedTracking plugin =
    plugin ++ (pluginParts env cfg shmemRegionName detailedTracking).flatMap (List.cons ',') := by
  have hname : ["shmname=".toList ++ shmemRegionName].flatMap (List.cons ',') =
      ",shmname=".toList ++ shmemRegionName := List.append_nil _
  have hdetailed : (if detailedTracking = true then ["detailed=1".toList] else []).flatMap
      (List.cons ',') = if detailedTracking = true then ",detailed=1".toList else [] := by
    split <;> rfl
  have hcache : (if cfg.sstWindowCache = true then ["cache_ops=1".toList] else []).flatMap
      (List.cons ',') = if cfg.sstWindowCache = true then ",cache_ops=1".toList else [] := by
    split <;> rfl
  have hwin : (if cfg.sstWindowSize ≠ 0 then
      ["win_base=".toList ++ hex cfg.sstWindowBase, "win_size=".toList ++ hex cfg.sstWindowSize]
      else []).flatMap (List.cons ',') = if cfg.sstWindowSize ≠ 0 then
      ",win_base=".toList ++ hex cfg.sstWindowBase ++ ",win_size=".toList ++ hex cfg.sstWindowSize
      else [] := by
    split
    · exact flatMap_two _ _ _ _
    · rfl
  rw [pluginArg, pluginParts, List.flatMap_append, List.flatMap_append, List.flatMap_append,
    List.flatMap_append, hname, hdetailed, hcache, hwin]
  rcases mmioRange env with _ | ⟨base, size⟩
  · dsimp only
    rw [List.flatMap_nil]
    simp only [List.append_assoc]
  · have hrange : ["mmio_base=".toList ++ hex base, "mmio_size=".toList ++ hex size].flatMap
        (List.cons ',') = ",mmio_base=".toList ++ hex base ++ ",mmio_size=".toList ++ hex size :=
      flatMap_two _ _ _ _
    dsimp only
    rw [hrange]
    simp only [List.append_assoc]

theorem comma_not_mem_parts (hname : ',' ∉ shmemRegionName) :
    ∀ p ∈ pluginParts env cfg shmemRegionName detailedTracking, ',' ∉ p := by
  have hkey : ∀ (key : List Char) (v : UInt64), ',' ∉ key → ',' ∉ key ++ hex v := fun key v hk => by
    rw [List.mem_append, not_or]
    exact ⟨hk, comma_not_mem_hex v⟩
  intro p hp
  simp only [pluginParts, List.mem_append] at hp
  obtain (((hp | hp) | hp) | hp) | hp := hp
  · rw [List.mem_singleton.mp hp, List.mem_append, not_or]
    exact ⟨by decide, hname⟩
  · split at hp
    · rw [List.mem_singleton.mp hp]
      decide
    · exact absurd hp List.not_mem_nil
  · split at hp
    · rw [List.mem_singleton.mp hp]
      decide
    · exact absurd hp List.not_mem_nil
  · split at hp
    · simp only [List.mem_cons, List.not_mem_nil, or_false] at hp
      obtain rfl | rfl := hp
      · exact hkey _ _ (by decide)
      · exact hkey _ _ (by decide)
    · exact absurd hp List.not_mem_nil
  · split at hp
    · simp only [List.mem_cons, List.not_mem_nil, or_false] at hp
      obtain rfl | rfl := hp
      · exact hkey _ _ (by decide)
      · exact hkey _ _ (by decide)
    · exact absurd hp List.not_mem_nil

/-- **The plugin reads the ranges that were printed.** -/
theorem readArgs_pluginArg (hname : ',' ∉ shmemRegionName) (hparts : ∀ p ∈ args, ',' ∉ p)
    (hargs : pluginArg env cfg shmemRegionName detailedTracking plugin =
      plugin ++ args.flatMap (List.cons ',')) :
    readArgs args =
      { shmemName := shmemRegionName, detailed := detailedTracking, cacheOps := cfg.sstWindowCache
        mmioSyncBase := ((mmioRange env).map Prod.fst).getD 0
        mmioSyncSize := ((mmioRange env).map Prod.snd).getD 0
        sstWinBase := if cfg.sstWindowSize ≠ 0 then cfg.sstWindowBase else 0
        sstWinSize := cfg.sstWindowSize } := by
  rw [pluginArg_eq] at hargs
  obtain rfl := parts_inj (comma_not_mem_parts hname) hparts (List.append_cancel_left hargs)
  have hshm : ∀ a, readArg a ("shmname=".toList ++ shmemRegionName) =
      { a with shmemName := shmemRegionName } := fun a => rfl
  have hmmio : ∀ a v w, readArg (readArg a ("mmio_base=".toList ++ hex v))
      ("mmio_size=".toList ++ hex w) = { a with mmioSyncBase := v, mmioSyncSize := w } := by
    intro a v w
    have hv := strtoull_hex v
    have hw := strtoull_hex w
    show { a with mmioSyncBase := strtoull (hex v), mmioSyncSize := strtoull (hex w) } = _
    rw [hv, hw]
  have hwin : ∀ a v w, readArg (readArg a ("win_base=".toList ++ hex v))
      ("win_size=".toList ++ hex w) = { a with sstWinBase := v, sstWinSize := w } := by
    intro a v w
    have hv := strtoull_hex v
    have hw := strtoull_hex w
    show { a with sstWinBase := strtoull (hex v), sstWinSize := strtoull (hex w) } = _
    rw [hv, hw]
  rw [readArgs, pluginParts, List.foldl_append, List.foldl_append, List.foldl_append,
    List.foldl_append, List.foldl_cons, List.foldl_nil, hshm]
  have hfirst : ∀ a, List.foldl readArg (List.foldl readArg a
      (if detailedTracking = true then ["detailed=1".toList] else []))
      (if cfg.sstWindowCache = true then ["cache_ops=1".toList] else []) =
      { a with detailed := detailedTracking || a.detailed
               cacheOps := cfg.sstWindowCache || a.cacheOps } := by
    intro a
    cases detailedTracking <;> cases cfg.sstWindowCache <;> rfl
  rw [hfirst]
  have hmid : ∀ a : PluginArgs, (match mmioRange env with
      | some (base, size) => ["mmio_base=".toList ++ hex base, "mmio_size=".toList ++ hex size]
      | none => []).foldl readArg a =
      { a with mmioSyncBase := ((mmioRange env).map Prod.fst).getD a.mmioSyncBase
               mmioSyncSize := ((mmioRange env).map Prod.snd).getD a.mmioSyncSize } := by
    intro a
    cases mmioRange env with
    | none => rfl
    | some range => exact hmmio a range.1 range.2
  rw [hmid]
  split
  next hsize =>
    rw [List.foldl_cons, List.foldl_cons, List.foldl_nil, hwin, Bool.or_false, Bool.or_false]
  next hsize =>
    rw [List.foldl_nil, Bool.or_false, Bool.or_false, not_not.mp hsize]

end

/-! ### The range of user mode -/

section

variable {env : LaunchEnv} {cfg : LaunchConfig} {shmemRegionName plugin : List Char}
  {detailedTracking : Bool} {args argv : List (List Char)} {base size abiMax : UInt64} {c : ℕ}
  {host : IpcHost}

theorem aperture_eq : aperture shmemRegionName base size = "shmname=".toList ++ shmemRegionName ++
    (',' :: "base=".toList) ++ hex base ++ (',' :: "size=".toList) ++ hex size := rfl

/-- QEMU reads the range that was printed. -/
theorem specifies_aperture (hname : ',' ∉ shmemRegionName)
    (hlen : shmemRegionName.length < 256) (client : Option ℕ) :
    Specifies (some (aperture shmemRegionName base size))
      { shmname := shmemRegionName, base, size, client } := by
  have htokens : tokens (aperture shmemRegionName base size) =
      ["shmname=".toList ++ shmemRegionName, "base=".toList ++ hex base,
        "size=".toList ++ hex size] := by
    have hcut : aperture shmemRegionName base size = ("shmname=".toList ++ shmemRegionName) ++
        ',' :: (("base=".toList ++ hex base) ++ ',' :: ("size=".toList ++ hex size)) := by
      rw [aperture_eq]
      simp only [List.append_assoc, List.cons_append]
    have hnot : ∀ (key : List Char) (v : UInt64), ',' ∉ key → ',' ∉ key ++ hex v := by
      intro key v hk
      rw [List.mem_append, not_or]
      exact ⟨hk, comma_not_mem_hex v⟩
    rw [tokens, hcut, List.splitOn_append_cons_self_of_not_mem,
      List.splitOn_append_cons_self_of_not_mem (hnot _ _ (by decide)),
      List.splitOn_eq_singleton (hnot _ _ (by decide))]
    · rfl
    · rw [List.mem_append, not_or]
      exact ⟨by decide, hname⟩
  have hset : ∀ r : SstMmioRange, setField r ("shmname=".toList ++ shmemRegionName) =
      .ok { r with shmname := shmemRegionName } := by
    intro r
    have hkey : "shmname=".toList.isPrefixOf ("shmname=".toList ++ shmemRegionName) = true := rfl
    have hdrop : ("shmname=".toList ++ shmemRegionName).drop 8 = shmemRegionName := rfl
    rw [setField, if_pos hkey, hdrop, if_neg (not_le.mpr hlen)]
  have hbase : ∀ r : SstMmioRange, setField r ("base=".toList ++ hex base) =
      .ok { r with base } := by
    intro r
    show (rangeNumber (hex base) >>= fun n => .ok { r with base := n }) = _
    rw [rangeNumber_hex]
    rfl
  have hsize : ∀ r : SstMmioRange, setField r ("size=".toList ++ hex size) =
      .ok { r with size } := by
    intro r
    show (rangeNumber (hex size) >>= fun n => .ok { r with size := n }) = _
    rw [rangeNumber_hex]
    rfl
  refine ⟨_, rfl, ?_⟩
  rw [htokens]
  refine bind_eq_ok_iff.mpr ⟨_, hset _, bind_eq_ok_iff.mpr ⟨_, hbase _,
    bind_eq_ok_iff.mpr ⟨_, hsize _, rfl⟩⟩⟩

/-- The plugin skips an address of the doorbell range, if its end does not wrap. -/
theorem isSync_iff (p : PluginConfig) (hwin : p.sstWinSize = 0)
    (hend : p.mmioSyncBase.toNat + p.mmioSyncSize.toNat < 2 ^ 64) (addr : UInt64) :
    Plugin.isSync p addr = true ↔ p.mmioSyncBase.toNat ≤ addr.toNat ∧
      addr.toNat < p.mmioSyncBase.toNat + p.mmioSyncSize.toNat := by
  have hsum : (p.mmioSyncBase + p.mmioSyncSize).toNat =
      p.mmioSyncBase.toNat + p.mmioSyncSize.toNat := by
    rw [UInt64.toNat_add, Nat.mod_eq_of_lt hend]
  have hzero : p.mmioSyncSize = 0 ↔ p.mmioSyncSize.toNat = 0 :=
    ⟨fun h => h ▸ rfl, fun h => UInt64.toNat_inj.mp h⟩
  simp only [Plugin.isSync, hwin, bne_self_eq_false, Bool.false_and, Bool.or_false,
    Bool.and_eq_true, bne_iff_ne, ne_eq, hzero, decide_eq_true_iff, UInt64.le_iff_toNat_le,
    UInt64.lt_iff_toNat_lt, hsum]
  omega

/-- **The doorbell range on both sides.** When the launcher of a user-mode guest gives a range, it
passes it to QEMU, and QEMU and the plugin agree about every address: the addresses whose accesses
QEMU services through the mailbox are those whose accesses the plugin keeps off the trace rings. -/
theorem doorbell_ranges_agree
    (hspawn : spawn env cfg shmemRegionName detailedTracking = .ok argv)
    (huser : cfg.systemMode = false) (hrange : mmioRange env = some (base, size)) (hpos : size ≠ 0)
    (hend : base.toNat + size.toNat ≤ abiMax.toNat) (hne : shmemRegionName ≠ [])
    (hname : ',' ∉ shmemRegionName)
    (hroom : (aperture shmemRegionName base size).length ≤ 255)
    (hattach : host.attach 0 shmemRegionName = some c) (husable : host.Usable c) (version : ℕ) :
    ∃ spec plugin s, ["-sst-mmio-range".toList, spec] <:+: argv ∧
      ["-plugin".toList, pluginArg env cfg shmemRegionName detailedTracking plugin] <:+: argv ∧
      registerAll host abiMax {} [some spec] = .ok s ∧
      ∀ args : List (List Char), (∀ p ∈ args, ',' ∉ p) →
        pluginArg env cfg shmemRegionName detailedTracking plugin =
          plugin ++ args.flatMap (List.cons ',') →
        ∀ i : Installed, i.args = readArgs args → i.args.shmemName = shmemRegionName ∧
          ∀ addr, (s.findRange addr).isSome = Plugin.isSync (i.config version) addr := by
  have hlen : shmemRegionName.length < 256 := by
    have hle : shmemRegionName.length ≤ (aperture shmemRegionName base size).length := by
      rw [aperture_eq, List.append_assoc, List.append_assoc, List.append_assoc, List.append_assoc,
        List.length_append, List.length_append]
      omega
    omega
  obtain ⟨plugin, -, rfl⟩ := spawn_eq_ok hspawn
  obtain ⟨rest, hargv⟩ : ∃ rest, appended env cfg shmemRegionName detailedTracking plugin =
      ["-plugin".toList, pluginArg env cfg shmemRegionName detailedTracking plugin] ++
        (mmioElements env cfg shmemRegionName ++ rest) :=
    ⟨_, by rw [appended, List.append_assoc, List.append_assoc, List.append_assoc,
      List.append_assoc]⟩
  have hwin : cfg.sstWindowSize = 0 := by
    obtain ⟨_, -, h⟩ := bind_eq_ok_iff.mp hspawn
    obtain ⟨_, -, h⟩ := bind_eq_ok_iff.mp h
    split_ifs at h with hwindow
    by_contra hsize
    exact hwindow ⟨hsize, by rw [huser]; rfl⟩
  have helements : mmioElements env cfg shmemRegionName =
      ["-sst-mmio-range".toList, aperture shmemRegionName base size] := by
    rw [mmioElements, hrange]
    simp only [hpos, huser, if_false, Bool.false_eq_true]
    rw [List.take_of_length_le hroom]
  let r : SstMmioRange := { shmname := shmemRegionName, base, size, client := some c }
  have hsize : 0 < size.toNat := Nat.pos_of_ne_zero fun h => hpos (UInt64.toNat_inj.mp h)
  have hsizemax : size.toNat ≤ abiMax.toNat := by omega
  have hinside : r.malformed abiMax = false :=
    SstMmioRange.malformed_eq_false_iff.mpr ⟨hne, hpos, hsizemax, hend.trans (Nat.le_succ _)⟩
  have hadds : ({} : Apertures).Adds host abiMax (some (aperture shmemRegionName base size))
      ⟨[r], [shmemRegionName]⟩ r c :=
    ⟨by decide, specifies_aperture hname hlen _, ⟨hinside, rfl⟩, by simp, ⟨rfl, husable⟩, rfl,
      .inr ⟨by simp, hattach, rfl⟩⟩
  have hregister := (registerRange_eq_ok_iff Apertures.well_start).mpr ⟨r, c, hadds⟩
  refine ⟨_, plugin, ⟨[r], [shmemRegionName]⟩, ?_, ?_,
    bind_eq_ok_iff.mpr ⟨_, hregister, rfl⟩, fun args hparts hargs i hi => ?_⟩
  · rw [hargv, helements]
    exact ⟨cfg.qemuBin :: (cfg.qemuExtraArgs ++ adapterCpu cfg ++ ["-plugin".toList,
      pluginArg env cfg shmemRegionName detailedTracking plugin]), rest, by
        simp only [List.append_assoc, List.cons_append]⟩
  · rw [hargv]
    exact ⟨cfg.qemuBin :: (cfg.qemuExtraArgs ++ adapterCpu cfg),
      mmioElements env cfg shmemRegionName ++ rest, by
        simp only [List.append_assoc, List.cons_append]⟩
  · have hread := readArgs_pluginArg hname hparts hargs
    rw [hrange, hwin] at hread
    have hargs' : i.args = { shmemName := shmemRegionName, detailed := detailedTracking
                             cacheOps := cfg.sstWindowCache, mmioSyncBase := base
                             mmioSyncSize := size } := hi.trans hread
    refine ⟨by rw [hargs'], fun addr => ?_⟩
    have habi := abiMax.toNat_lt
    have hbase : (i.config version).mmioSyncBase = base := by rw [Installed.config, hargs']
    have hsize' : (i.config version).mmioSyncSize = size := by rw [Installed.config, hargs']
    have hwin' : (i.config version).sstWinSize = 0 := by rw [Installed.config, hargs']
    rw [Bool.eq_iff_iff, isSync_iff _ hwin' (by rw [hbase, hsize']; omega), hbase, hsize']
    have hfind : (Apertures.findRange ⟨[r], [shmemRegionName]⟩ addr).isSome = r.covers addr := by
      rw [Apertures.findRange, List.find?_cons, List.find?_nil]
      cases r.covers addr with
      | true => rfl
      | false => rfl
    rw [hfind]
    exact SstMmioRange.covers_iff

/-- An environment with a doorbell page. -/
def doorbellEnv : LaunchEnv where
  qemuPluginInstallDir := "/lib"
  access _ := true
  getenv key :=
    if key = "QUETZ_MMIO_PAYLOAD" then some "1".toList
    else if key = "QUETZ_MMIO_START" then some "0x10000000".toList
    else if key = "QUETZ_MMIO_END" then some "0x10000fff".toList
    else none

/-- A user-mode guest with a doorbell page. -/
theorem doorbell_ranges_agree_page :
    ∃ argv spec s, spawn doorbellEnv { executable := "a.out".toList } "/shm".toList false =
        .ok argv ∧
      ["-sst-mmio-range".toList, spec] <:+: argv ∧
      registerAll oneClientEach (.ofNat (2 ^ 64 - 1)) {} [some spec] = .ok s := by
  obtain ⟨argv, hargv⟩ : ∃ argv,
      spawn doorbellEnv { executable := "a.out".toList } "/shm".toList false = .ok argv := ⟨_, rfl⟩
  have hend : (0x10000000 : UInt64).toNat + (0x1000 : UInt64).toNat ≤
      (UInt64.ofNat (2 ^ 64 - 1)).toNat := by decide
  have hname : (',' : Char) ∉ "/shm".toList := by decide
  have hroom : (aperture "/shm".toList 0x10000000 0x1000).length ≤ 255 := by decide
  have hattach : oneClientEach.attach 0 "/shm".toList = some 0 := rfl
  have husable : oneClientEach.Usable 0 := by
    rw [IpcHost.Usable]
    decide
  obtain ⟨spec, -, s, hspec, -, hs, -⟩ := doorbell_ranges_agree hargv rfl rfl (by decide) hend
    (by decide) hname hroom hattach husable 4
  exact ⟨argv, spec, s, hargv, hspec, hs⟩

end

end Quetz.Launch
