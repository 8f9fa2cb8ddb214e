import Quetz.CacheTermination
import Quetz.NativeRegions

/-!
# The Service Loop on Native RAM

`serviceWindowCache` serves the backing requests of a cache from native RAM where a registered
region has their address. The regions of native RAM are regions of the cache, and the regions of a
cache do not overlap, so the region that has the first address of a request has all of it. The
checks of the loop that a request does not cross the end of its region, and that a write-back
brings all its bytes, never fail.

On native RAM the loop goes on until the transaction is over, which is after four requests.

## Main results

* `nativeAccess_copies`: a copy stays inside its region.
* `native_copies_in_region`: no check of the loop fails, and native RAM changes inside its regions.
* `transactions_end`: every transaction ends, and so does the loop.
-/

namespace Quetz

open ByteMemory WindowDataCache WindowCacheBank

namespace QuetzCpu

/-! ### One copy -/

/-- The exception of a request that leaves its region. -/
def crossing : Exn := .runtimeError "cache backing access crosses native RAM boundary"

/-- The exception of a write-back with a wrong number of bytes. -/
def badWriteback : Exn := .runtimeError "invalid native cache writeback size"

/-- The exception of a region without memory. -/
def badBacking : Exn := .runtimeError "invalid registered native RAM backing"

/-- The regions of native RAM are regions of a cache. -/
def Backed (native : List NativeRamRegion) (rs : List Region) : Prop :=
  ∀ r ∈ native, ⟨r.base, r.size⟩ ∈ rs

/-- The region `i` of native RAM has all addresses of the action. -/
structure Covers (native : List NativeRamRegion) (a : Action) (i : ℕ) (region : NativeRamRegion) :
    Prop where
  getElem : native[i]? = some region
  base_le : region.base ≤ a.address
  le_end : a.address + a.size ≤ region.base + region.size

/-- What an action on native RAM hands back, and the memory after it. -/
inductive Copies (native : List NativeRamRegion) (a : Action) :
    List UInt8 × List NativeRamRegion → Prop
  | read {i : ℕ} {region : NativeRamRegion} {mem : ℕ → UInt8} (hin : Covers native a i region)
      (hmem : region.backing = some mem) (hkind : a.kind = .read) :
      Copies native a (readSpan mem (a.address - region.base) a.size, native)
  | write {i : ℕ} {region : NativeRamRegion} {mem : ℕ → UInt8} (hin : Covers native a i region)
      (hmem : region.backing = some mem) (hkind : a.kind = .write)
      (hlen : a.bytes.length = a.size) :
      Copies native a ([], native.set i
        { region with backing := some (writeSpan mem (a.address - region.base) a.bytes) })

section

variable {native native' : List NativeRamRegion} {rs : List Region} {a : Action}

/-- Regions that share an address are the same. -/
theorem eq_of_mem_both (hapart : rs.Pairwise Apart) {r r' : Region} (hr : r ∈ rs) (hr' : r' ∈ rs)
    {x : ℕ} (hx : r.base ≤ x ∧ x < r.base + r.size) (hx' : r'.base ≤ x ∧ x < r'.base + r'.size) :
    r = r' := by
  by_contra hne
  have h := hapart.forall hr hr' hne
  exact h ⟨hx'.1.trans_lt hx.2, hx.1.trans_lt hx'.2⟩

/-- **A request stays inside the region of its first address.** -/
theorem covers_of_find (hapart : rs.Pairwise Apart) (hback : Backed native rs)
    (ha : ActionOk rs a) {i : ℕ} {region : NativeRamRegion} (hi : native[i]? = some region)
    (hlo : region.base ≤ a.address) (hhi : a.address - region.base < region.size) :
    Covers native a i region := by
  obtain ⟨r, hr, hbase, hend⟩ := ha.within
  have hsize := ha.size_pos
  have hregion := hback region (List.mem_of_getElem? hi)
  have heq := eq_of_mem_both (x := a.address) hapart hr hregion (by omega) (by
    dsimp only
    omega)
  rw [heq] at hend
  exact ⟨hi, hlo, hend⟩

/-- An action on native RAM is a copy inside one region, unless the region has no memory; an action
on no region is left to the memory system. -/
theorem nativeAccess_copies (hapart : rs.Pairwise Apart) (hback : Backed native rs)
    (ha : ActionOk rs a) (hkind : a.kind ≠ .done) :
    nativeAccess native a = .ok none ∨
      (∃ r, nativeAccess native a = .ok (some r) ∧ Copies native a r) ∨
      nativeAccess native a = .error badBacking ∧ ∃ r ∈ native, r.backing = none := by
  rw [nativeAccess]
  cases hfind : native.findIdx? _ with
  | none => exact .inl rfl
  | some i =>
      obtain ⟨hlt, hp, -⟩ := List.findIdx?_eq_some_iff_getElem.mp hfind
      rw [Bool.and_eq_true, decide_eq_true_eq, decide_eq_true_eq] at hp
      have hi : native[i]? = some native[i] := List.getElem?_eq_getElem hlt
      have hin := covers_of_find hapart hback ha hi hp.1 hp.2
      have hend := hin.le_end
      have hroom : ¬a.size > native[i].size - (a.address - native[i].base) := by
        have := hp.1
        omega
      dsimp only
      rw [hi]
      dsimp only
      rw [if_neg hroom]
      cases hmem : native[i].backing with
      | none => exact .inr (.inr ⟨rfl, _, List.getElem_mem hlt, hmem⟩)
      | some mem =>
          refine .inr (.inl ?_)
          dsimp only
          by_cases hread : a.kind = .read
          · rw [if_pos hread]
            exact ⟨_, rfl, .read hin hmem hread⟩
          · have hwrite : a.kind = .write := by
              cases hk : a.kind with
              | done => exact absurd hk hkind
              | read => exact absurd hk hread
              | write => rfl
            have hlen := ha.length hwrite
            rw [if_neg hread, if_neg (not_not.mpr hlen)]
            exact ⟨_, rfl, .write hin hmem hwrite hlen⟩

/-- A read on native RAM hands back the bytes that the action asks for. -/
theorem length_nativeAccess {r : List UInt8 × List NativeRamRegion}
    (h : nativeAccess native a = .ok (some r)) (hread : a.kind = .read) : r.1.length = a.size := by
  rw [nativeAccess] at h
  split at h
  · cases h
  split at h
  · cases h
  dsimp only at h
  split_ifs at h
  split at h
  · cases h
  · obtain rfl := Option.some.inj (Except.ok.inj h)
    exact length_readSpan ..

/-! ### Native RAM outside its regions -/

/-- The regions are the same, and their memory differs inside them at most. -/
structure KeepsOutside (native native' : List NativeRamRegion) : Prop where
  length : native'.length = native.length
  region : ∀ (i : ℕ) (r r' : NativeRamRegion), native[i]? = some r → native'[i]? = some r' →
    r'.base = r.base ∧ r'.size = r.size ∧ (r'.backing = none ↔ r.backing = none) ∧
      ∀ mem mem', r.backing = some mem → r'.backing = some mem' → ∀ x, r.size ≤ x → mem' x = mem x

theorem KeepsOutside.refl (native : List NativeRamRegion) : KeepsOutside native native := by
  refine ⟨rfl, fun i r r' hr hr' => ?_⟩
  obtain rfl := Option.some.inj (hr.symm.trans hr')
  refine ⟨rfl, rfl, Iff.rfl, fun mem mem' hmem hmem' x _ => ?_⟩
  rw [Option.some.inj (hmem.symm.trans hmem')]

/-- A region of the later state was there before. -/
theorem KeepsOutside.before (h : KeepsOutside native native') {i : ℕ} {r' : NativeRamRegion}
    (hi : native'[i]? = some r') : ∃ r, native[i]? = some r := by
  obtain ⟨hlt, -⟩ := List.getElem?_eq_some_iff.mp hi
  exact ⟨_, List.getElem?_eq_getElem (h.length ▸ hlt)⟩

theorem KeepsOutside.trans {native'' : List NativeRamRegion} (h : KeepsOutside native native')
    (h' : KeepsOutside native' native'') : KeepsOutside native native'' := by
  refine ⟨h'.length.trans h.length, fun i r r'' hr hr'' => ?_⟩
  obtain ⟨r', hr'⟩ := h'.before hr''
  obtain ⟨hbase, hsize, hnone, hmem⟩ := h.region i r r' hr hr'
  obtain ⟨hbase', hsize', hnone', hmem'⟩ := h'.region i r' r'' hr' hr''
  refine ⟨hbase'.trans hbase, hsize'.trans hsize, hnone'.trans hnone, ?_⟩
  intro mem mem'' hm hm'' x hx
  obtain ⟨mem', hm'⟩ := Option.ne_none_iff_exists'.mp fun h =>
    Option.some_ne_none mem (hm.symm.trans (hnone.mp h))
  exact (hmem' mem' mem'' hm' hm'' x (hsize ▸ hx)).trans (hmem mem mem' hm hm' x hx)

/-- A copy changes native RAM inside the region it goes to. -/
theorem Copies.keepsOutside {r : List UInt8 × List NativeRamRegion} (h : Copies native a r) :
    KeepsOutside native r.2 := by
  cases h with
  | read => exact .refl native
  | @write i region mem hin hmem hkind hlen =>
      refine ⟨List.length_set, fun j s s' hs hs' => ?_⟩
      by_cases hij : i = j
      · subst hij
        obtain rfl := Option.some.inj (hin.getElem.symm.trans hs)
        obtain ⟨hlt, -⟩ := List.getElem?_eq_some_iff.mp hs
        rw [List.getElem?_set_self hlt] at hs'
        obtain rfl := Option.some.inj hs'
        refine ⟨rfl, rfl, by simp [hmem], fun m m' hm hm' x hx => ?_⟩
        obtain rfl := Option.some.inj (hmem.symm.trans hm)
        obtain rfl := Option.some.inj hm'
        have hbase := hin.base_le
        have hend := hin.le_end
        exact writeSpan_of_ge mem _ (by omega)
      · rw [List.getElem?_set_ne hij] at hs'
        exact (KeepsOutside.refl native).region j s s' hs hs'

/-- Regions stay those of a cache. -/
theorem KeepsOutside.backed (h : KeepsOutside native native') (hback : Backed native rs) :
    Backed native' rs := by
  intro r' hr'
  obtain ⟨i, hi⟩ := List.mem_iff_getElem?.mp hr'
  obtain ⟨r, hr⟩ := h.before hi
  obtain ⟨hbase, hsize, -⟩ := h.region i r r' hr hi
  rw [hbase, hsize]
  exact hback _ (List.mem_of_getElem? hr)

end

/-! ### The loop -/

/-- The exceptions of the checks of the loop. -/
def checks : List Exn := [crossing, badWriteback, badBacking]

section

variable {c : WindowDataCache}

theorem next_not_check {e : Exn} (h : c.next = .error e) : e ∉ checks := by
  rw [next] at h
  split_ifs at h
  obtain rfl := Except.error.inj h
  decide

theorem complete_not_check {bs : List UInt8} {e : Exn} (h : c.complete bs = .error e) :
    e ∉ checks := by
  rw [WindowDataCache.complete] at h
  by_cases hact : c.active = false
  · rw [if_pos hact] at h
    obtain rfl := Except.error.inj h
    decide
  rw [if_neg hact] at h
  cases hp : c.pending with
  | none =>
      simp only [hp] at h
      obtain rfl := Except.error.inj h
      decide
  | fill | bypassRead =>
      simp only [hp] at h
      split_ifs at h
      obtain rfl := Except.error.inj h
      decide
  | push | evict | bypassWrite | writeThrough =>
      simp only [hp] at h
      cases h

end

/-- One round of the loop: its result, or the state of the next round. -/
def serviceRound (vcpu : ℕ) (w : QuetzCpu) : Except CpuFatal QuetzCpu ⊕ QuetzCpu :=
  match w.bank.states[vcpu]? with
  | none => .inl (.error (.windowCache vcpu WindowCacheBank.rangeError))
  | some st =>
    match st.cache.next with
    | .error e => .inl (.error (.windowCache vcpu e))
    | .ok (cache, action) =>
      let bank := w.bank.setState vcpu { st with cache := cache }
      if action.kind = .done then
        .inl (.ok { w with
          bank := bank
          host := w.host.postResponse vcpu (bigEndianValue action.bytes) })
      else
        match nativeAccess w.native action with
        | .error e => .inl (.error (.windowCache vcpu e))
        | .ok (some (bytes, native)) =>
          match bank.onCache vcpu fun cache => cache.complete bytes with
          | .error e _ => .inl (.error (.windowCache vcpu e))
          | .ok _ bank => .inr { w with bank := bank, native := native }
        | .ok none =>
          match bank.issued vcpu w.host.nextId (action.kind = .read) with
          | .error e _ => .inl (.error (.windowCache vcpu e))
          | .ok _ bank => .inl (.ok { w with
              bank := bank
              host := w.host.send vcpu .mmio (actionBody action) })

/-- The loop is its rounds. -/
theorem serviceWindowCache_succ (v n : ℕ) (w : QuetzCpu) : serviceWindowCache v (n + 1) w =
    match serviceRound v w with
    | .inl r => r
    | .inr w' => serviceWindowCache v n w' := by
  rw [serviceWindowCache, serviceRound]
  cases w.bank.states[v]? with
  | none => rfl
  | some st =>
      dsimp only
      cases st.cache.next with
      | error e => rfl
      | ok r =>
          obtain ⟨cache, action⟩ := r
          dsimp only
          by_cases hkind : action.kind = .done
          · rw [if_pos hkind, if_pos hkind]
          rw [if_neg hkind, if_neg hkind]
          cases nativeAccess w.native action with
          | error e => rfl
          | ok res =>
              cases res with
              | some res =>
                  dsimp only
                  cases onCache _ v _ with
                  | error e b => rfl
                  | ok u b => rfl
              | none =>
                  dsimp only
                  cases issued _ v _ _ with
                  | error e b => rfl
                  | ok u b => rfl

/-- What a round does, for a cache of the bank that keeps its invariant. -/
inductive Round (v : ℕ) (w : QuetzCpu) (st : BankState) :
    Except CpuFatal QuetzCpu ⊕ QuetzCpu → Prop
  | refused {e : Exn} (he : Backed w.native st.cache.regions →
      e ∉ checks ∨ ∃ r ∈ w.native, r.backing = none) :
      Round v w st (.inl (.error (.windowCache v e)))
  | ended {w' : QuetzCpu} (hnative : w'.native = w.native) : Round v w st (.inl (.ok w'))
  | copied {cache cache' : WindowDataCache} {action : Action}
      {r : List UInt8 × List NativeRamRegion} (hnext : st.cache.next = .ok (cache, action))
      (hkind : action.kind ≠ .done) (hlen : action.kind = .read → r.1.length = action.size)
      (hcopy : Backed w.native st.cache.regions → Copies w.native action r)
      (hcomplete : cache.complete r.1 = .ok cache') {w' : QuetzCpu} (hnative : w'.native = r.2)
      (hst : w'.bank.states[v]? = some { st with cache := cache' }) : Round v w st (.inr w')

section

variable {v : ℕ} {w : QuetzCpu} {st : BankState}

/-- A round does one of these. -/
theorem serviceRound_spec (hst : w.bank.states[v]? = some st) (hinv : Inv st.cache) :
    Round v w st (serviceRound v w) := by
  rw [serviceRound, hst]
  dsimp only
  cases hn : st.cache.next with
  | error e => exact .refused fun _ => .inl (next_not_check hn)
  | ok r =>
      obtain ⟨cache, action⟩ := r
      dsimp only
      by_cases hkind : action.kind = .done
      · rw [if_pos hkind]
        exact .ended rfl
      rw [if_neg hkind]
      have hst' : (w.bank.setState v { st with cache := cache }).states[v]? =
        some { st with cache := cache } := setState_self hst
      have hcopies (hback : Backed w.native st.cache.regions) :=
        nativeAccess_copies hinv.apart hback (next_actionOk hinv hn hkind) hkind
      cases haccess : nativeAccess w.native action with
      | error e =>
          refine .refused fun hback => .inr ?_
          rcases hcopies hback with h | ⟨r, h, -⟩ | ⟨-, r, hr, hmem⟩
          · cases haccess.symm.trans h
          · cases haccess.symm.trans h
          · exact ⟨r, hr, hmem⟩
      | ok res =>
          cases res with
          | none =>
              dsimp only
              rw [issued, hst']
              dsimp only
              split_ifs
              · exact .refused fun _ => .inl (by decide)
              · exact .ended rfl
          | some r =>
              dsimp only
              rw [onCache, hst']
              dsimp only
              cases hcomp : cache.complete r.1 with
              | error e => exact .refused fun _ => .inl (complete_not_check hcomp)
              | ok cache' =>
                  refine .copied hn hkind (length_nativeAccess haccess) (fun hback => ?_) hcomp rfl
                    (setState_self hst')
                  rcases hcopies hback with h | ⟨r', h, hcopy⟩ | ⟨h, -⟩
                  · cases haccess.symm.trans h
                  · cases haccess.symm.trans h
                    exact hcopy
                  · cases haccess.symm.trans h

/-- An answered request leaves the regions of the cache. -/
theorem round_regions (hinv : Inv st.cache) {cache cache' : WindowDataCache} {action : Action}
    {bs : List UInt8} (hnext : st.cache.next = .ok (cache, action))
    (hcomplete : cache.complete bs = .ok cache') : cache'.regions = st.cache.regions := by
  obtain ⟨-, hcomp⟩ := complete_ok hcomplete
  rw [← next_regions hinv hnext]
  cases hcomp <;> rfl

/-- **The checks of the loop never fail**, and native RAM changes inside its regions at most. -/
theorem serviceWindowCache_native : ∀ (n : ℕ) {w : QuetzCpu} {st : BankState},
    w.bank.states[v]? = some st → Inv st.cache → Backed w.native st.cache.regions →
    (∀ r ∈ w.native, r.backing ≠ none) →
      match serviceWindowCache v n w with
      | .ok w' => KeepsOutside w.native w'.native
      | .error e => ∀ x ∈ checks, e ≠ .windowCache v x := by
  intro n
  induction n with
  | zero => exact fun _ _ _ _ x _ => by simp
  | succ n ih =>
      intro w st hst hinv hback hbacking
      rw [serviceWindowCache_succ]
      have hround := serviceRound_spec hst hinv
      cases hr : serviceRound v w with
      | inl r =>
          rw [hr] at hround
          cases hround with
          | refused he =>
              rintro x hx heq
              rcases he hback with he | ⟨r, hr, hmem⟩
              · exact he ((CpuFatal.windowCache.inj heq).2 ▸ hx)
              · exact hbacking r hr hmem
          | @ended w' hnative =>
              dsimp only
              rw [hnative]
              exact .refl _
      | inr w' =>
          rw [hr] at hround
          cases hround with
          | @copied cache cache' action r hnext hkind hlen hcopy hcomplete _ hnative hst' =>
              have hkeeps := (hcopy hback).keepsOutside
              rw [← hnative] at hkeeps
              have hbacking' : ∀ r ∈ w'.native, r.backing ≠ none := by
                intro r hr hnone
                obtain ⟨i, hi⟩ := List.mem_iff_getElem?.mp hr
                obtain ⟨first, hi'⟩ := hkeeps.before hi
                obtain ⟨-, -, hiff, -⟩ := hkeeps.region i first r hi' hi
                exact hbacking _ (List.mem_of_getElem? hi') (hiff.mp hnone)
              have hrest := ih hst' ((hinv.next hnext).complete hcomplete) (by
                rw [round_regions hinv hnext hcomplete]
                exact hkeeps.backed hback) hbacking'
              revert hrest
              dsimp only
              cases serviceWindowCache v n w' with
              | error e => exact id
              | ok w'' => exact hkeeps.trans

/-- A round that goes on brings the transaction closer to its end. -/
theorem serviceRound_progress (hst : w.bank.states[v]? = some st) (hopen : Open st.cache) :
    match serviceRound v w with
    | .inl r => r ≠ .error (.unfinished v)
    | .inr w' => ∃ st', w'.bank.states[v]? = some st' ∧ Open st'.cache ∧
        st'.cache.requestsLeft < st.cache.requestsLeft := by
  have hround := serviceRound_spec hst hopen.inv
  cases hr : serviceRound v w with
  | inl r =>
      rw [hr] at hround
      cases hround <;> simp
  | inr w' =>
      rw [hr] at hround
      cases hround with
      | @copied cache cache' action r hnext hkind hlen hcopy hcomplete _ hnative hst' =>
          refine ⟨_, hst', ?_⟩
          obtain ⟨d, a, hn, ⟨hdone, -⟩ | ⟨-, hd⟩⟩ := requestsLeft_lt hopen
          · obtain ⟨rfl, rfl⟩ := Prod.mk.inj (Except.ok.inj (hnext.symm.trans hn))
            exact absurd hdone hkind
          · obtain ⟨rfl, rfl⟩ := Prod.mk.inj (Except.ok.inj (hnext.symm.trans hn))
            obtain ⟨e, he, hopen', hlt⟩ := hd r.1 hlen
            obtain rfl := Except.ok.inj (hcomplete.symm.trans he)
            exact ⟨hopen', hlt⟩

/-- **The loop ends**, whatever native RAM there is: its bound on the rounds is never reached. -/
theorem serviceWindowCache_ends : ∀ (m : ℕ) {w : QuetzCpu} {st : BankState},
    w.bank.states[v]? = some st → Open st.cache → st.cache.requestsLeft ≤ m → ∀ n, m < n →
      serviceWindowCache v n w = serviceWindowCache v (m + 1) w ∧
        serviceWindowCache v n w ≠ .error (.unfinished v) := by
  intro m
  induction m with
  | zero =>
      intro w st hst hopen hm n hn
      obtain ⟨n, rfl⟩ := Nat.exists_eq_succ_of_ne_zero (Nat.ne_of_gt hn)
      have hprogress := serviceRound_progress hst hopen
      rw [serviceWindowCache_succ, serviceWindowCache_succ]
      cases hr : serviceRound v w with
      | inl r =>
          rw [hr] at hprogress
          exact ⟨rfl, hprogress⟩
      | inr w' =>
          rw [hr] at hprogress
          obtain ⟨st', -, -, hlt⟩ := hprogress
          exact absurd (Nat.lt_of_lt_of_le hlt hm) (Nat.not_lt_zero _)
  | succ m ih =>
      intro w st hst hopen hm n hn
      obtain ⟨n, rfl⟩ := Nat.exists_eq_succ_of_ne_zero (Nat.ne_of_gt (Nat.zero_lt_of_lt hn))
      have hprogress := serviceRound_progress hst hopen
      rw [serviceWindowCache_succ, serviceWindowCache_succ]
      cases hr : serviceRound v w with
      | inl r =>
          rw [hr] at hprogress
          exact ⟨rfl, hprogress⟩
      | inr w' =>
          rw [hr] at hprogress
          obtain ⟨st', hst', hopen', hlt⟩ := hprogress
          exact ih hst' hopen' (Nat.le_of_lt_succ (Nat.lt_of_lt_of_le hlt hm)) n
            (Nat.lt_of_succ_lt_succ hn)

end

/-! ### Registered native RAM -/

/-- Native RAM is what `quetz_native_ram` returns for the registered regions. -/
structure Registered (shared : UInt64) (d : QuetzSharedData) (native : List NativeRamRegion) :
    Prop where
  length : native.length = d.nativeRegionCount.toNat
  region : ∀ (i : ℕ) (r : NativeRamRegion), native[i]? = some r →
    r.base = (d.nativeRegions i).base.toNat ∧ r.size = (d.nativeRegions i).size.toNat ∧
      (r.backing = none ↔ quetzNativeRam shared d (.ofNat i) = none)

/-- Every registered region has memory. -/
theorem Registered.backing {shared : UInt64} {d : QuetzSharedData} {native : List NativeRamRegion}
    (h : Registered shared d native) (hvalid : quetzNativeRegionsValid shared d = true) :
    ∀ r ∈ native, r.backing ≠ none := by
  intro r hr hnone
  obtain ⟨i, hi⟩ := List.mem_iff_getElem?.mp hr
  obtain ⟨hlt, -⟩ := List.getElem?_eq_some_iff.mp hi
  obtain ⟨-, -, hbacking⟩ := h.region i r hi
  have hcount : i < d.nativeRegionCount.toNat := h.length ▸ hlt
  have hregion := hbacking.mp hnone
  have hsmall : (UInt32.ofNat i).toNat = i := by
    have := d.nativeRegionCount.toNat_lt
    rw [UInt32.toNat_ofNat']
    omega
  rw [quetzNativeRam, if_neg] at hregion
  · cases hregion
  · rw [hvalid, ge_iff_le, UInt32.le_iff_toNat_le, hsmall]
    simpa using hcount

/-- **Every backing request stays inside registered memory.** In every reachable state of a cache,
a request has at least one byte and lies in one region, and a write brings all its bytes. If the
regions of native RAM are registered ones that the cache was given, a copy stays in its region, the
checks of the service loop never fail, and the loop changes native RAM inside its regions only. -/
theorem native_copies_in_region (calls : List Call) :
    (∀ c' a, (after calls).cache.next = .ok (c', a) → a.kind ≠ .done →
      1 ≤ a.size ∧ (∃ r ∈ (after calls).cache.regions,
        r.base ≤ a.address ∧ a.address + a.size ≤ r.base + r.size) ∧
      (a.kind = .write → a.bytes.length = a.size)) ∧
    ∀ shared d₀ regions count d (w : QuetzCpu) v st,
      quetzConfigureNativeRegions shared d₀ regions count = (true, d) →
      Registered shared d w.native →
      w.bank.states[v]? = some st → st.cache = (after calls).cache →
      (∀ i < d.nativeRegionCount.toNat, ⟨(d.nativeRegions i).base.toNat,
        (d.nativeRegions i).size.toNat⟩ ∈ st.cache.regions) →
      (∀ c' a, st.cache.next = .ok (c', a) → a.kind ≠ .done →
        nativeAccess w.native a = .ok none ∨
          ∃ r, nativeAccess w.native a = .ok (some r) ∧ Copies w.native a r) ∧
      ∀ n, match serviceWindowCache v n w with
        | .ok w' => KeepsOutside w.native w'.native
        | .error e => e ≠ .windowCache v crossing ∧ e ≠ .windowCache v badWriteback ∧
            e ≠ .windowCache v badBacking := by
  have hinv := (ok_after calls).inv
  constructor
  · intro c' a hn hkind
    obtain ⟨hpos, hwithin, hlen⟩ := next_actionOk hinv hn hkind
    exact ⟨hpos, hwithin, hlen⟩
  · intro shared d₀ regions count d w v st hconfigure hregistered hst hcache hregions
    rw [← hcache] at hinv
    have hback : Backed w.native st.cache.regions := by
      intro r hr
      obtain ⟨i, hi⟩ := List.mem_iff_getElem?.mp hr
      obtain ⟨hlt, -⟩ := List.getElem?_eq_some_iff.mp hi
      obtain ⟨hbase, hsize, -⟩ := hregistered.region i r hi
      rw [hbase, hsize]
      exact hregions i (hregistered.length ▸ hlt)
    have hbacking := hregistered.backing (quetzNativeRegionsValid_of_configure hconfigure)
    refine ⟨fun c' a hn hkind => ?_, fun n => ?_⟩
    · obtain h | h | ⟨-, r, hr, hnone⟩ :=
        nativeAccess_copies hinv.apart hback (next_actionOk hinv hn hkind) hkind
      · exact .inl h
      · exact .inr h
      · exact absurd hnone (hbacking r hr)
    · have hloop := serviceWindowCache_native n hst hinv hback hbacking
      cases hrun : serviceWindowCache v n w with
      | ok w' =>
          rw [hrun] at hloop
          exact hloop
      | error e =>
          rw [hrun] at hloop
          exact ⟨hloop _ (by decide), hloop _ (by decide), hloop _ (by decide)⟩

/-- A cache with an open read of the one region of native RAM. -/
def readingCpu : QuetzCpu where
  bank := { states := [{ cache := (after [.addRegion 4096 4096, .access 4096 4 false []]).cache }] }
  native := [{ base := 4096, size := 4096, backing := some fun _ => 7 }]

/-- The region of that cache. -/
def readingRegions : ℕ → QuetzNativeRamRegion := fun _ => { base := 4096, size := 4096 }

theorem registrable_reading : Registrable (some readingRegions) 1 := by
  refine ⟨by decide, fun _ => rfl, fun i _ => ?_, fun i hi j hj => ?_⟩
  · have hadmissible : ({ base := 4096, size := 4096 } : QuetzNativeRamRegion).Admissible := by
      constructor <;> decide
    exact hadmissible
  · have hone : (1 : UInt32).toNat = 1 := rfl
    omega

/-- The read of the one region is served, and the checks of the loop hold. -/
theorem native_copies_in_region_read :
    match serviceWindowCache 0 5 readingCpu with
    | .ok w' => KeepsOutside readingCpu.native w'.native
    | .error e => e ≠ .windowCache 0 crossing ∧ e ≠ .windowCache 0 badWriteback ∧
        e ≠ .windowCache 0 badBacking := by
  have hvalid : quetzNativeRegionsValid 0x7000 (configured 0x7000 {} (some readingRegions) 1) =
    true := (quetzNativeRegionsValid_configured (by decide) fun _ => rfl).mpr registrable_reading
  have hregion : (configured 0x7000 {} (some readingRegions) 1).nativeRegions 0 =
    placed 0x7000 (readingRegions 0) 0 := rfl
  refine ((native_copies_in_region [.addRegion 4096 4096, .access 4096 4 false []]).2 0x7000 {}
    (some readingRegions) 1 (configured 0x7000 {} (some readingRegions) 1) readingCpu 0 _
    (quetzConfigureNativeRegions_of_registrable registrable_reading) ?_ rfl rfl ?_).2 5
  · refine ⟨rfl, fun i r hi => ?_⟩
    cases i with
    | zero =>
        obtain rfl := Option.some.inj hi
        rw [hregion, placed_base, placed_size]
        refine ⟨rfl, rfl, iff_of_false (by simp) ?_⟩
        rw [quetzNativeRam, hvalid]
        simp [configured]
    | succ i => cases hi
  · intro i hi
    have hzero : i = 0 := Nat.lt_one_iff.mp hi
    subst hzero
    rw [hregion, placed_base, placed_size]
    decide

/-- **Every transaction ends.** On every reachable cache, an accepted access makes at most four
requests, an accepted CPUSHL one and a control write none, nothing throws on the way, and the cache
is idle afterwards. The service loop ends whenever it is entered, after at most five rounds. -/
theorem transactions_end (calls : List Call) {answer : ℕ → Action → List UInt8}
    (hanswer : Answers answer) :
    (∀ address size write bytes d, (after calls).cache.access address size write bytes = .ok d →
      Ends answer 4 d) ∧
    (∀ instruction operand d, (after calls).cache.push instruction operand = .ok d →
      Ends answer 1 d) ∧
    (∀ reg value d, (after calls).cache.movec reg value = .ok d → Ends answer 0 d) ∧
    ∀ (w : QuetzCpu) v st, w.bank.states[v]? = some st → st.cache = (after calls).cache →
      st.cache.active = true → st.cache.pending = .none → ∀ n, 4 < n →
        serviceWindowCache v n w = serviceWindowCache v 5 w ∧
          serviceWindowCache v n w ≠ .error (.unfinished v) := by
  have hinv := (ok_after calls).inv
  refine ⟨fun address size write bytes d hd => ?_, fun instruction operand d hd => ?_,
    fun reg value d hd => ?_, fun w v st hst hcache hact hpend n hn => ?_⟩
  · obtain ⟨hopen, hleft⟩ := open_access hinv hd
    exact drive_spec hanswer 4 d hopen hleft
  · obtain ⟨hopen, hleft⟩ := open_push hinv hd
    exact drive_spec hanswer 1 d hopen hleft
  · obtain ⟨hopen, hleft⟩ := open_movec hinv hd
    exact drive_spec hanswer 0 d hopen hleft
  · have hdiscipline := discipline_after calls
    rw [← hcache] at hinv hdiscipline
    refine serviceWindowCache_ends 4 hst ⟨hinv, hact, hpend, hdiscipline.push_empty⟩ ?_ n hn
    have hsmall := accessRequests_le (hinv.accessOk hact).small
    rw [requestsLeft]
    split_ifs
    · exact Nat.le_of_ble_eq_true rfl
    · exact hsmall

/-- A read of an empty cache whose fill is answered with zeros. -/
theorem transactions_end_read :
    Ends (fun _ a => List.replicate a.size 0) 4
      (after [.addRegion 4096 4096, .access 4096 4 false []]).cache := by
  have hanswer : Answers fun _ a => List.replicate a.size 0 := fun _ _ _ => List.length_replicate
  exact (transactions_end [.addRegion 4096 4096] hanswer).1 4096 4 false [] _ rfl

end QuetzCpu

end Quetz
