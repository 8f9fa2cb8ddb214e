import Quetz.PlainWindow

/-!
# The Disabled Window Cache

With `CACR.DEC` clear every access of the window cache bypasses the lines. The cached path cuts
the access at the lines of 16 bytes, collects the pieces in the buffer of the cache and packs the
result in `serviceWindowCache`; it shares no code with the plain path, and it has the same effect.

`Copying` is the invariant of an open access: the buffer holds the bytes read so far, or the
memory the bytes written so far. One answer moves it by one piece (`Copying.complete`), and at the
end it is the specification (`Copying.finished`).

## Main results

* `disabled_implements`: the path through a disabled cache implements the specification.
* `disabled_cache_is_plain`: both paths post the same values and leave the same memory, and no
  line, tag or replacement counter of a cache changes.
-/

namespace Quetz

open ByteMemory WindowDataCache WindowCacheBank QuetzCpu WindowWorld

namespace WindowDataCache

/-! ### The bypass -/

/-- The cache after it asked for the next piece of a bypassing access. -/
def asked (c : WindowDataCache) : WindowDataCache :=
  { c.aim with pending := if c.write then .bypassWrite else .bypassRead }

/-- The request for the next piece of a bypassing access. -/
def demand (c : WindowDataCache) : Action :=
  if c.write then ⟨.write, c.address + c.offset, c.aim.pendingSize, c.aim.chunk⟩
  else ⟨.read, c.address + c.offset, c.aim.pendingSize, []⟩

variable {c : WindowDataCache}

/-- A disabled cache bypasses its lines, whatever they hold. -/
theorem pass_off (hoff : c.cacr &&& DEC = 0) : c.aim.pass = .inl (c.asked, c.demand) := by
  have hmode : c.aim.mode (c.aim.address + c.aim.offset) = 2 := by
    rw [mode]
    exact if_pos hoff
  rw [pass]
  dsimp only
  rw [hmode, if_pos (Or.inl le_rfl)]
  cases hw : c.write with
  | true =>
      have hw' : c.aim.write = true := hw
      rw [if_pos hw', asked, demand, hw]
      rfl
  | false =>
      have hw' : ¬c.aim.write = true := by
        rw [show c.aim.write = c.write from rfl, hw]
        exact Bool.false_ne_true
      rw [if_neg hw', asked, demand, hw]
      rfl

/-- The next action of a bypassing access. -/
theorem next_off (hoff : c.cacr &&& DEC = 0) (hact : c.active = true)
    (hpush : c.pushing = false) (hpend : c.pending = .none) :
    c.next = .ok (if c.offset < c.count then (c.asked, c.demand) else c.finish) := by
  refine next_eq_ok.mpr ⟨hact, hpend, ?_⟩
  have hnp : ¬c.pushing = true := by simp [hpush]
  rw [if_neg hnp]
  by_cases ho : c.offset < c.count
  · obtain ⟨n, hn⟩ := Nat.exists_eq_succ_of_ne_zero (Nat.sub_ne_zero_of_lt ho)
    rw [if_pos ho, hn, nextAccess, if_pos ho, pass_off hoff]
  · rw [if_neg ho, Nat.sub_eq_zero_of_le (Nat.le_of_not_lt ho), nextAccess]

/-- An access of a disabled cache: the buffer holds what was read so far, or the memory what was
written so far. -/
structure Copying (m : Mem) (req : MmioSyncRequest) (c : WindowDataCache) (mem : Mem) : Prop where
  off : c.cacr &&& DEC = 0
  active : c.active = true
  pushing : c.pushing = false
  address : c.address = req.addr.toNat
  count : c.count = req.size
  write : c.write = decide (req.cmd = .mmioWriteReq)
  reading : req.cmd ≠ .mmioWriteReq →
    mem = m ∧ c.bytes.take c.offset = readSpan m req.addr.toNat c.offset
  writing : req.cmd = .mmioWriteReq → c.bytes = windowBytes req ∧
    mem = writeSpan m req.addr.toNat (c.bytes.take c.offset)

variable {m mem : Mem} {req : MmioSyncRequest}

/-- A finished access has the specified effect. -/
theorem Copying.finished (h : Copying m req c mem)
    (hcmd : req.cmd = .mmioReadReq ∨ req.cmd = .mmioWriteReq) (hinv : Inv c)
    (hend : ¬c.offset < c.count) :
    (windowEffect m req) = (bigEndianValue c.finish.2.bytes, mem) := by
  obtain ⟨hle, hlen, -, -⟩ := hinv.accessOk h.active
  have hoff : c.offset = req.size := by
    have := h.count
    omega
  have hall : c.bytes.take c.offset = c.bytes := by
    rw [List.take_of_length_le]
    omega
  rcases hcmd with hr | hw
  · obtain ⟨hmem, hbytes⟩ := h.reading (by simp [hr])
    have hwrite : c.write = false := by simp [h.write, hr]
    rw [hall, hoff] at hbytes
    rw [windowEffect, if_pos hr, finish, hwrite, hmem, hbytes]
    rfl
  · obtain ⟨hbytes, hmem⟩ := h.writing hw
    have hwrite : c.write = true := by simp [h.write, hw]
    rw [hall, hbytes] at hmem
    rw [windowEffect, if_neg (by simp [hw]), finish, hwrite, hmem]
    rfl

/-- **One piece.** The answer to the request for a piece moves the access by that piece and
leaves the lines alone. -/
theorem Copying.complete (h : Copying m req c mem) (hinv : Inv c.asked)
    (ho : c.offset < c.count) :
    ∃ d, c.asked.complete (respData ((actionBody c.demand).answer mem)) = .ok d ∧
      Copying m req d ((actionBody c.demand).perform mem) ∧ d.pending = .none ∧
      c.offset < d.offset ∧ d.count = c.count ∧ d.lines = c.lines ∧
      d.replacement = c.replacement ∧ d.regions = c.regions := by
  have hacc : AccessOk c.regions c.address c.count c.offset c.bytes := hinv.accessOk h.active
  obtain ⟨r, hr, -, hend⟩ := hacc.within (by omega)
  have hbelow := (hinv.regionsOk r hr).below
  obtain ⟨hpos, hfits, -, -⟩ := (aimed_aim c).bounds ho
  have hfits : c.offset + c.aim.pendingSize ≤ c.count := hfits
  have haddr : (UInt64.ofNat (req.addr.toNat + c.offset)).toNat = req.addr.toNat + c.offset := by
    refine UInt64.toNat_ofNat_of_lt' ?_
    have : UInt64.size = 2 ^ 64 := rfl
    have := h.address
    omega
  have hlen := hacc.length
  by_cases hw : req.cmd = .mmioWriteReq
  · have hwrite : c.write = true := by simp [h.write, hw]
    obtain ⟨hbytes, hmem⟩ := h.writing hw
    have hchunk : c.aim.chunk = (c.bytes.drop c.offset).take c.aim.pendingSize := rfl
    refine ⟨{ c.aim with offset := c.offset + c.aim.pendingSize, pending := .none }, ?_, ?_, rfl,
      Nat.lt_add_of_pos_right hpos, rfl, rfl, rfl, rfl⟩
    · have hact : c.asked.active = true := h.active
      have hpend : c.asked.pending = .bypassWrite := by simp [asked, hwrite]
      rw [WindowDataCache.complete, if_neg (by simp [hact]), hpend]
      rfl
    · refine ⟨h.off, h.active, h.pushing, h.address, h.count, h.write, fun hn => absurd hw hn,
        fun _ => ⟨hbytes, ?_⟩⟩
      have htake : (c.bytes.take c.offset).length = c.offset := by
        rw [List.length_take]
        omega
      have hjoin : c.bytes.take (c.offset + c.aim.pendingSize) =
          c.bytes.take c.offset ++ c.aim.chunk := by
        rw [hchunk, List.take_add]
      have happend := writeSpan_append m req.addr.toNat (c.bytes.take c.offset) c.aim.chunk
      rw [htake] at happend
      have hbody : actionBody c.demand =
          .write (.ofNat (c.address + c.offset)) c.aim.pendingSize c.aim.chunk := by
        simp [actionBody, demand, hwrite]
      rw [hbody, Body.perform, h.address, haddr, hmem, happend, ← hjoin]
      rfl
  · have hwrite : c.write = false := by simp [h.write, hw]
    obtain ⟨hmem, hbytes⟩ := h.reading hw
    have hbody : actionBody c.demand =
        .read (.ofNat (c.address + c.offset)) c.aim.pendingSize := by
      simp [actionBody, demand, hwrite]
    have hdata : respData ((actionBody c.demand).answer mem) =
        readSpan m (req.addr.toNat + c.offset) c.aim.pendingSize := by
      rw [hbody, Body.answer, h.address, haddr, hmem]
      rfl
    rw [hdata, hbody]
    refine ⟨{ c.aim with
        bytes := overwrite c.bytes c.offset
          (readSpan m (req.addr.toNat + c.offset) c.aim.pendingSize)
        offset := c.offset + c.aim.pendingSize, pending := .none }, ?_, ?_, rfl,
      Nat.lt_add_of_pos_right hpos, rfl, rfl, rfl, rfl⟩
    · have hact : c.asked.active = true := h.active
      have hpend : c.asked.pending = .bypassRead := by simp [asked, hwrite]
      have hsize : (readSpan m (req.addr.toNat + c.offset) c.aim.pendingSize).length =
          c.asked.pendingSize := length_readSpan ..
      rw [WindowDataCache.complete, if_neg (by simp [hact]), hpend]
      dsimp only
      rw [if_neg (not_not.mpr hsize)]
      rfl
    · refine ⟨h.off, h.active, h.pushing, h.address, h.count, h.write,
        fun _ => ⟨hmem, ?_⟩, fun hn => absurd hn hw⟩
      have hfill : ((overwrite c.bytes c.offset
          (readSpan m (req.addr.toNat + c.offset) c.aim.pendingSize))).take
            (c.offset + c.aim.pendingSize) = c.bytes.take c.offset ++
          readSpan m (req.addr.toNat + c.offset) c.aim.pendingSize := by
        have hover := @take_overwrite _ c.bytes
          (readSpan m (req.addr.toNat + c.offset) c.aim.pendingSize) c.offset (by omega)
        rwa [length_readSpan] at hover
      show ((overwrite c.bytes c.offset _)).take (c.offset + c.aim.pendingSize) = _
      rw [hfill, hbytes, ← readSpan_add]

end WindowDataCache

/-! ### The bank -/

namespace WindowCacheBank

/-- The lines and the replacement counter of every cache. -/
def linesOf (b : WindowCacheBank) (v : ℕ) : Option ((Slot → Line) × Fin ways) :=
  (b.states[v]?).map fun st => (st.cache.lines, st.cache.replacement)

variable {b b' : WindowCacheBank} {v : ℕ} {st st' : BankState}

theorem linesOf_set (hst : b.states[v]? = some st) (hb' : b'.states = b.states.set v st')
    (hlines : st'.cache.lines = st.cache.lines)
    (hrepl : st'.cache.replacement = st.cache.replacement) : b'.linesOf = b.linesOf := by
  funext u
  rw [linesOf, linesOf, hb']
  by_cases huv : u = v
  · subst huv
    have hset : (b.states.set u st')[u]? = some st' := setState_self hst
    rw [hset, hst, Option.map_some, Option.map_some, hlines, hrepl]
  · rw [List.getElem?_set_ne (Ne.symm huv)]

/-- A bank with nothing outstanding has no request. -/
theorem BankInv.lookup_eq_none (h : BankInv b)
    (hout : ∀ (u : ℕ) (st : BankState), b.states[u]? = some st → st.outstanding = false) (id : ℕ) :
    b.pending.lookup id = none := by
  cases hp : b.pending.lookup id with
  | none => rfl
  | some p =>
      have hlt := h.inRange id p hp
      have hst : b.states[p.vcpu]? = some b.states[p.vcpu] := List.getElem?_eq_getElem hlt
      have howned := (h.owned p.vcpu _ hst).mpr ⟨id, p, hp, rfl⟩
      rw [hout p.vcpu _ hst] at howned
      cases howned

/-- An idle cache has no request outstanding. -/
theorem BankInv.outstanding_of_idle (h : BankInv b) (hst : b.states[v]? = some st)
    (hidle : st.cache.active = false) : st.outstanding = false := by
  by_contra hout
  rw [Bool.not_eq_false] at hout
  have hact := (h.waiting v st hst hout).1
  simp [hidle] at hact

/-- Registering the request of a waiting cache. -/
theorem issued_of_waiting {id : ℕ} (read : Bool) (hst : b.states[v]? = some st)
    (hact : st.cache.active = true) (hout : st.outstanding = false) (hid : id ∉ b.pending) :
    b.issued v id read = .ok () (setState { b with pending := b.pending.insert id ⟨v, read⟩ } v
      { st with outstanding := true }) := by
  rw [issued, hst]
  exact if_neg (by simp [hact, hout, hid])

end WindowCacheBank

namespace WindowWorld

variable {c : CpuConfig} {w w' : WindowWorld} {v : ℕ} {req : MmioSyncRequest} {m : Mem} {p : Posts}
  {L : ℕ → Option ((Slot → Line) × Fin ways)}

/-! ### The disabled caches -/

/-- Every vCPU has a cache over the window whose controls leave it disabled, and native RAM is
somewhere else; the lines and counters are `L`. -/
structure CacheOff (c : CpuConfig) (L : ℕ → Option ((Slot → Line) × Fin ways))
    (b : WindowCacheBank) (native : List NativeRamRegion) : Prop where
  inv : BankInv b
  length : b.states.length = c.vcpuCount
  off : ∀ (v : ℕ) (st : BankState), b.states[v]? = some st → st.cache.cacr &&& DEC = 0
  region : ∀ (v : ℕ) (st : BankState), b.states[v]? = some st → window c ∈ st.cache.regions
  native : ∀ r ∈ native, Apart (window c) ⟨r.base, r.size⟩
  lines : b.linesOf = L

variable {b b' : WindowCacheBank} {native : List NativeRamRegion} {st st' : BankState}

/-- Replacing one cache by a disabled one with the same lines. -/
theorem CacheOff.set (h : CacheOff c L b native) (hst : b.states[v]? = some st)
    (hb' : b'.states = b.states.set v st') (hinv : BankInv b')
    (hoff : st'.cache.cacr &&& DEC = 0) (hregions : st'.cache.regions = st.cache.regions)
    (hlines : st'.cache.lines = st.cache.lines)
    (hrepl : st'.cache.replacement = st.cache.replacement) : CacheOff c L b' native := by
  have hcases : ∀ (u : ℕ) (s : BankState), b'.states[u]? = some s →
      u = v ∧ s = st' ∨ u ≠ v ∧ b.states[u]? = some s := by
    intro u s hs
    rw [hb'] at hs
    exact setState_cases hst hs
  refine ⟨hinv, ?_, fun u s hs => ?_, fun u s hs => ?_, h.native,
    (linesOf_set hst hb' hlines hrepl).trans h.lines⟩
  · rw [hb', List.length_set, h.length]
  · rcases hcases u s hs with ⟨-, rfl⟩ | ⟨-, hs⟩
    · exact hoff
    · exact h.off u s hs
  · rcases hcases u s hs with ⟨-, rfl⟩ | ⟨-, hs⟩
    · rw [hregions]
      exact h.region v st hst
    · exact h.region u s hs

/-- Every vCPU has a cache. -/
theorem CacheOff.state (h : CacheOff c L b native) (hv : v < c.vcpuCount) :
    ∃ st, b.states[v]? = some st := by
  have hlt : v < b.states.length := by rw [h.length]; exact hv
  exact ⟨_, List.getElem?_eq_getElem hlt⟩

/-- The window lies below `2 ^ 32`. -/
theorem CacheOff.fits (h : CacheOff c L b native) (hv : v < c.vcpuCount) :
    (window c).base + (window c).size ≤ 2 ^ 32 := by
  obtain ⟨st, hst⟩ := h.state hv
  exact ((h.inv.caches v st hst).regionsOk _ (h.region v st hst)).below

theorem InWindow.within (hin : InWindow c v req) (h : CacheOff c L b native)
    (hst : b.states[v]? = some st) : Within st.cache.regions req.addr.toNat req.size :=
  ⟨window c, h.region v st hst, hin.above, hin.below⟩

/-- Every cache contains the addresses of the window. -/
theorem CacheOff.contains {u : ℕ} (h : CacheOff c L b native) (hin : InWindow c v req)
    (hst : b.states[u]? = some st) : st.cache.contains req.addr.toNat = true := by
  have hpos := hin.pos
  have hbelow := hin.below
  rw [WindowDataCache.contains,
    regionFor_eq (h.inv.caches u st hst) (h.region u st hst) hin.above (by omega)]
  rfl

/-- No native RAM answers for an address of the window. -/
theorem CacheOff.nativeAccess (h : CacheOff c L b native) {a : Action}
    (hlo : (window c).base ≤ a.address) (hhi : a.address < (window c).base + (window c).size) :
    QuetzCpu.nativeAccess native a = .ok none := by
  have hnone : native.findIdx? (fun r => decide (r.base ≤ a.address) &&
      decide (a.address - r.base < r.size)) = none := by
    rw [List.findIdx?_eq_none_iff]
    intro r hr
    have hapart := h.native r hr
    simp only [Apart] at hapart
    simp only [Bool.and_eq_false_iff, decide_eq_false_iff_not]
    omega
  rw [QuetzCpu.nativeAccess, hnone]

/-- The path through the caches between two requests. -/
structure DisabledIdle (c : CpuConfig) (L : ℕ → Option ((Slot → Line) × Fin ways)) (m : Mem)
    (p : Posts) (w : WindowWorld) : Prop where
  off : CacheOff c L w.cpu.bank w.cpu.native
  idle : ∀ (u : ℕ) (st : BankState), w.cpu.bank.states[u]? = some st → st.cache.active = false
  rest : w.AtRest
  mem : w.mem = m
  posts : w.cpu.host.posts = p

/-- What holds while one vCPU has an open access: the other caches are idle, the mailboxes are
empty and the reset of the vCPU is known. -/
structure Held (c : CpuConfig) (L : ℕ → Option ((Slot → Line) × Fin ways)) (p : Posts) (v : ℕ)
    (cpu : QuetzCpu) : Prop where
  off : CacheOff c L cpu.bank cpu.native
  others : ∀ (u : ℕ) (st : BankState), u ≠ v → cpu.bank.states[u]? = some st →
    st.cache.active = false
  mailbox : ∀ u, cpu.mailbox u = none
  epoch : cpu.cpuResetEpoch v = cpu.cacheResetEpochs v
  posts : cpu.host.posts = p

/-- The path through the caches while the memory has a piece of the access. -/
structure DisabledBusy (c : CpuConfig) (L : ℕ → Option ((Slot → Line) × Fin ways)) (m : Mem)
    (p : Posts) (v : ℕ) (req : MmioSyncRequest) (n : ℕ) (w : WindowWorld) : Prop where
  held : Held c L p v w.cpu
  inWindow : InWindow c v req
  sent : ∃ cache id, Copying m req cache w.mem ∧ cache.offset < cache.count ∧
    n = cache.count - cache.offset ∧ w.cpu.bank.states[v]? = some ⟨cache.asked, true⟩ ∧
    w.cpu.bank.pending.lookup id = some ⟨v, decide (cache.demand.kind = .read)⟩ ∧
    w.cpu.host.inFlight = [⟨id, v, .mmio, actionBody cache.demand⟩]

/-- With one access open nothing else is outstanding. -/
theorem Held.lookup_eq_none {cpu : QuetzCpu} {cache : WindowDataCache} (h : Held c L p v cpu)
    (hst : cpu.bank.states[v]? = some ⟨cache, false⟩) (id : ℕ) :
    cpu.bank.pending.lookup id = none := by
  refine h.off.inv.lookup_eq_none (fun u st hu => ?_) id
  by_cases huv : u = v
  · subst huv
    rw [hst] at hu
    cases hu
    rfl
  · exact h.off.inv.outstanding_of_idle hu (h.others u st huv hu)

/-- Replacing the cache of the open access. -/
theorem Held.set {cpu : QuetzCpu} (h : Held c L p v cpu) (st' : BankState)
    (hst : cpu.bank.states[v]? = some st)
    (hb' : b'.states = cpu.bank.states.set v st') (hinv : BankInv b')
    (hoff : st'.cache.cacr &&& DEC = 0) (hregions : st'.cache.regions = st.cache.regions)
    (hlines : st'.cache.lines = st.cache.lines)
    (hrepl : st'.cache.replacement = st.cache.replacement) :
    Held c L p v { cpu with bank := b' } := by
  refine ⟨h.off.set hst hb' hinv hoff hregions hlines hrepl, fun u s huv hs => ?_, h.mailbox,
    h.epoch, h.posts⟩
  refine h.others u s huv ?_
  rwa [hb', List.getElem?_set_ne (Ne.symm huv)] at hs

/-- **Servicing an open access** either sends the next piece or posts the specified value. -/
theorem Held.service {cpu : QuetzCpu} {cache : WindowDataCache} {mem : Mem}
    (h : Held c L p v cpu) (hin : InWindow c v req) (hcopy : Copying m req cache mem)
    (hpend : cache.pending = .none) (hst : cpu.bank.states[v]? = some ⟨cache, false⟩)
    (hempty : cpu.host.inFlight = []) (k : ℕ) :
    ∃ cpu', serviceWindowCache v (k + 1) cpu = .ok cpu' ∧
      (¬cache.offset < cache.count ∧
          DisabledIdle c L (windowEffect m req).2 (p ++ [(v, (windowEffect m req).1)])
            ⟨cpu', mem⟩ ∨
        DisabledBusy c L m p v req (cache.count - cache.offset) ⟨cpu', mem⟩) := by
  have hcache : Inv cache := h.off.inv.caches v _ hst
  have hnext := next_off hcopy.off hcopy.active hcopy.pushing hpend
  rw [serviceWindowCache, hst]
  simp only [hnext]
  by_cases ho : cache.offset < cache.count
  · rw [if_pos ho] at hnext ⊢
    have hasked : Inv cache.asked := hcache.next hnext
    have hkind : cache.demand.kind ≠ .done := by
      rw [demand]
      split_ifs <;> simp
    have haddr : cache.demand.address = req.addr.toNat + cache.offset := by
      rw [← hcopy.address]
      rw [demand]
      split_ifs <;> rfl
    have hcount := hcopy.count
    have habove := hin.above
    have hbelow := hin.below
    have hnative := @CacheOff.nativeAccess _ _ _ _ h.off cache.demand (by omega) (by omega)
    have hself : (cpu.bank.setState v ⟨cache.asked, false⟩).states[v]? =
        some ⟨cache.asked, false⟩ := setState_self hst
    have hid : cpu.host.nextId ∉ (cpu.bank.setState v ⟨cache.asked, false⟩).pending :=
      AList.lookup_eq_none.mp (h.lookup_eq_none hst _)
    have hpend' : cache.asked.pending ≠ .none := by
      simp only [asked]
      split_ifs <;> simp
    have hset := h.off.inv.setCache hst rfl hasked
    have hins := @BankInv.insert _ hset v cpu.host.nextId (decide (cache.demand.kind = .read)) _
      hself hcopy.active hpend' rfl hid
    have hissued := issued_of_waiting (decide (cache.demand.kind = .read)) hself hcopy.active rfl
      hid
    simp only [if_neg hkind, hnative, hissued]
    refine ⟨_, rfl, Or.inr ⟨?_, hin, cache, cpu.host.nextId, hcopy, ho, rfl, ?_, ?_, ?_⟩⟩
    · have hstates : ((cpu.bank.states.set v ⟨cache.asked, false⟩).set v ⟨cache.asked, true⟩) =
          cpu.bank.states.set v ⟨cache.asked, true⟩ := List.set_set ..
      have hheld := h.set ⟨cache.asked, true⟩ hst hstates hins hcopy.off rfl rfl rfl
      exact ⟨hheld.off, hheld.others, h.mailbox, h.epoch, h.posts⟩
    · exact setState_self hself
    · exact AList.lookup_insert _
    · simp [Host.send, hempty]
  · rw [if_neg ho] at hnext ⊢
    have hfinish : Inv cache.finish.1 := hcache.next hnext
    have hset := h.off.inv.setCache hst rfl hfinish
    have heffect := hcopy.finished hin.command hcache ho
    have hkind : cache.finish.2.kind = .done := rfl
    simp only [if_pos hkind]
    refine ⟨_, rfl, Or.inl ⟨ho, h.off.set hst rfl hset hcopy.off rfl rfl rfl, ?_,
      ⟨h.mailbox, hempty⟩, ?_, ?_⟩⟩
    · intro u s hs
      rcases setState_cases hst hs with ⟨-, rfl⟩ | ⟨huv, hs⟩
      · rfl
      · exact h.others u s huv hs
    · rw [heffect]
    · rw [heffect, ← h.posts]
      rfl

/-- The answer to a piece: the access goes on or is over. -/
theorem DisabledBusy.answered {n : ℕ} (h : DisabledBusy c L m p v req n w) :
    ∃ w', w.step c .answer = .ok w' ∧
      (DisabledIdle c L (windowEffect m req).2 (p ++ [(v, (windowEffect m req).1)]) w' ∨
        ∃ n' < n, DisabledBusy c L m p v req n' w') := by
  obtain ⟨cache, id, hcopy, ho, rfl, hst, hlook, hsent⟩ := h.sent
  have hasked := h.held.off.inv.caches v _ hst
  obtain ⟨d, hcomp, hcopy', hpend, hlt, hcount, hlines, hrepl, hregions⟩ :=
    hcopy.complete hasked ho
  have hread : isReadResp ((actionBody cache.demand).answer w.mem) =
      decide (cache.demand.kind = .read) := by
    rw [demand]
    split_ifs <;> rfl
  have hfit : unfitResponse v ⟨v, decide (cache.demand.kind = .read)⟩
      ((actionBody cache.demand).answer w.mem) false = false := by
    rw [demand]
    cases cache.write <;> simp [unfitResponse, actionBody, Body.answer, isReadResp, isWriteResp]
  have hbank : w.cpu.bank.complete id v (isReadResp ((actionBody cache.demand).answer w.mem))
      (respData ((actionBody cache.demand).answer w.mem)) =
      .ok () (setState { w.cpu.bank with pending := w.cpu.bank.pending.erase id } v
        ⟨d, false⟩) := by
    rw [hread, WindowCacheBank.complete, if_neg (not_not.mpr hlook), hst]
    simp only [hcomp]
  have hinv := h.held.off.inv.erase hst hlook (hasked.complete hcomp)
  have hheld := h.held.set ⟨d, false⟩ hst rfl hinv hcopy'.off hregions hlines hrepl
  have hself : (setState { w.cpu.bank with pending := w.cpu.bank.pending.erase id } v
      ⟨d, false⟩).states[v]? = some ⟨d, false⟩ := setState_self hst
  have hempty : (w.cpu.host.take 0).inFlight = [] := by simp [Host.take, hsent]
  have hheld' : Held c L p v { w.cpu with
      host := w.cpu.host.take 0
      bank := setState { w.cpu.bank with pending := w.cpu.bank.pending.erase id } v
        ⟨d, false⟩ } := ⟨hheld.off, hheld.others, hheld.mailbox, hheld.epoch, hheld.posts⟩
  obtain ⟨cpu', hservice, hend⟩ := hheld'.service h.inWindow hcopy' hpend hself hempty 27
  refine ⟨⟨cpu', (actionBody cache.demand).perform w.mem⟩, ?_, ?_⟩
  · rw [step, hsent]
    simp only [completeMmioSyncResponse, hlook, completeCacheResponse, hfit, hbank]
    rw [if_neg Bool.false_ne_true, serviceRounds, hservice]
    rfl
  · rcases hend with ⟨-, hidle⟩ | hbusy
    · exact Or.inl hidle
    · exact Or.inr ⟨d.count - d.offset, by omega, hbusy⟩

/-! ### Polls -/

/-- A poll resets at most the controls of an idle cache, which stays disabled. -/
theorem CacheOff.pollReset {cpu : QuetzCpu} {u : ℕ} (h : CacheOff c L cpu.bank cpu.native)
    (hu : u < c.vcpuCount)
    (hidle : ∀ st, cpu.bank.states[u]? = some st → st.cache.active = false) :
    ∃ bank epochs, QuetzCpu.pollReset c u cpu =
        .ok { cpu with bank := bank, cacheResetEpochs := epochs } ∧
      CacheOff c L bank cpu.native ∧ bank.pending = cpu.bank.pending ∧
      (∀ x, x ≠ u → bank.states[x]? = cpu.bank.states[x]?) ∧
      (∀ st, bank.states[u]? = some st → st.cache.active = false) ∧
      (∀ x, x ≠ u → epochs x = cpu.cacheResetEpochs x) ∧
      (c.sstWindowCache = true → cpu.cpuResetEpoch u = epochs u) := by
  rw [QuetzCpu.pollReset]
  by_cases hnew : c.sstWindowCache = true ∧ cpu.cpuResetEpoch u ≠ cpu.cacheResetEpochs u
  · obtain ⟨st, hst⟩ := h.state hu
    have hact := hidle st hst
    have hout := h.inv.outstanding_of_idle hst hact
    have hreset : st.cache.reset = .ok { st.cache with cacr := 0, acr := fun _ => 0 } := by
      rw [WindowDataCache.reset, if_neg (by simp [hact])]
    have hcore : cpu.bank.resetCore u = .ok () (cpu.bank.setState u
        { st with cache := { st.cache with cacr := 0, acr := fun _ => 0 } }) := by
      rw [resetCore, hst]
      simp only [hact, hout, onCache, hst, hreset]
      rfl
    rw [if_pos hnew, hcore]
    have hinv := h.inv.setCache hst hout ((h.inv.caches u st hst).reset hreset)
    refine ⟨_, _, rfl, h.set hst rfl hinv BitVec.zero_and rfl rfl rfl, rfl,
      fun x hx => setState_of_ne _ hx,
      fun s hs => ?_, fun x hx => Function.update_of_ne hx _ _, fun _ => ?_⟩
    · rw [setState_self hst] at hs
      cases hs
      exact hact
    · rw [Function.update_self]
  · rw [if_neg hnew]
    refine ⟨cpu.bank, cpu.cacheResetEpochs, rfl, h, rfl, fun _ _ => rfl, hidle, fun _ _ => rfl,
      fun hcache => ?_⟩
    by_contra hne
    exact hnew ⟨hcache, hne⟩

/-- The window is most significant byte first, as the first cache has it. -/
theorem CacheOff.bigEndian {cpu : QuetzCpu} (h : CacheOff c L cpu.bank cpu.native)
    (hcache : c.sstWindowCache = true) (hbe : c.windowBigEndian = true) (hin : InWindow c v req) :
    windowBigEndian c cpu req.addr = true := by
  obtain ⟨st, hst⟩ := h.state (Nat.zero_lt_of_lt hin.vcpu)
  have hcontains := h.contains hin hst
  rw [windowBigEndian, if_pos hcache, hbe, cacheContains, hst]
  simpa using hcontains

/-- The access a command opens. -/
theorem CacheOff.openCache {cpu : QuetzCpu} (h : CacheOff c L b native) (hin : InWindow c v req)
    (hst : b.states[v]? = some st) (hidle : st.cache.active = false)
    (hbig : windowBigEndian c cpu req.addr = true) :
    ∃ f cache, QuetzCpu.openCache (commandOf c cpu req) = .ok f ∧ f st.cache = .ok cache ∧
      cache.Inv ∧ cache.pending = .none ∧ cache.offset < cache.count ∧
      cache.regions = st.cache.regions ∧
      cache.lines = st.cache.lines ∧ cache.replacement = st.cache.replacement ∧
      ∀ m, Copying m req cache m := by
  have hsmall := hin.small
  have hinv := h.inv.caches v st hst
  have hwithin := hin.within h hst
  have hoff := h.off v st hst
  have hsize : ¬(commandOf c cpu req).size > cmdDataBytes := by
    rw [show (commandOf c cpu req).size = req.size from rfl, cmdDataBytes]
    omega
  have hcmd : (commandOf c cpu req).cmd = req.cmd := rfl
  rcases hin.command with hr | hw
  · have haccess := access_of_within hinv hidle false [] hin.pos hin.small hwithin (by simp)
    refine ⟨fun cache => cache.access req.addr.toNat req.size false [], _, ?_, haccess,
      hinv.access haccess, rfl, hin.pos, rfl, rfl, rfl, fun m => ?_⟩
    · simp only [QuetzCpu.openCache, hcmd, hr, if_neg hsize]
      rfl
    · refine ⟨hoff, rfl, rfl, rfl, rfl, ?_, fun _ => ⟨rfl, rfl⟩, fun hw => ?_⟩
      · simp [opened, hr]
      · rw [hr] at hw
        cases hw
  · have hdata := hin.data hbig hw
    have haccess := access_of_within hinv hidle true (windowBytes req) hin.pos hin.small hwithin
      (by simp)
    refine ⟨fun cache => cache.access req.addr.toNat req.size true (windowBytes req), _, ?_,
      haccess, hinv.access haccess, rfl, hin.pos, rfl, rfl, rfl, fun m => ?_⟩
    · simp only [QuetzCpu.openCache, hcmd, hw, if_neg hsize]
      rw [show (commandOf c cpu req).size = req.size from rfl, hdata]
      rfl
    · refine ⟨hoff, rfl, rfl, rfl, rfl, ?_, fun hn => absurd hw hn, fun _ => ⟨rfl, ?_⟩⟩
      · simp [opened, hw]
      · simp [opened]

/-- A poll takes the published access and opens it. -/
theorem DisabledIdle.taken (hcache : c.sstWindowCache = true) (hbe : c.windowBigEndian = true)
    (hmmio : ∀ v < c.vcpuCount, c.hasMmio v = true) (h : DisabledIdle c L m p w)
    (hin : InWindow c v req) : ∃ cpu n, pollVcpu c v (w.publish v req).cpu = .ok cpu ∧
      DisabledBusy c L m p v req n { w with cpu := cpu } := by
  have hpub : CacheOff c L (w.publish v req).cpu.bank (w.publish v req).cpu.native := h.off
  obtain ⟨bank, epochs, hreset, hoff, -, hothers, hidle, -, hepoch⟩ :=
    hpub.pollReset hin.vcpu (h.idle v)
  obtain ⟨st, hst⟩ := hoff.state hin.vcpu
  have hout := hoff.inv.outstanding_of_idle hst (hidle st hst)
  have hflight : (w.publish v req).cpu.host.inFlight = [] := h.rest.2
  have hmail := publish_taken v req h.rest.1
  have hposts : (w.publish v req).cpu.host.posts = p := h.posts
  have hrest : ∀ (u : ℕ) (st : BankState), u ≠ v → bank.states[u]? = some st →
      st.cache.active = false := by
    intro u s huv hs
    rw [hothers u huv] at hs
    exact h.idle u s hs
  rw [pollVcpu, hreset]
  simp only [publish_mailbox]
  generalize (w.publish v req).cpu = cpu at *
  have hbig : windowBigEndian c { cpu with bank := bank, cacheResetEpochs := epochs } req.addr =
      true := CacheOff.bigEndian hoff hcache hbe hin
  obtain ⟨f, cache, hf, hopen, hinv, hpend, ho, hregions, hlines, hrepl, hcopy⟩ :=
    hoff.openCache hin hst (hidle st hst) hbig
  generalize hcommand : commandOf c { cpu with bank := bank, cacheResetEpochs := epochs } req =
    cmd at hf
  have haddr : cmd.addr = req.addr := by rw [← hcommand]; rfl
  have hcontains : cacheContains { cpu with
      bank := bank, cacheResetEpochs := epochs
      mailbox := Function.update cpu.mailbox v none
      taken := Function.update cpu.taken v (cpu.taken v + 1) } v cmd.addr = true := by
    rw [cacheContains, hst, haddr]
    simpa using hoff.contains hin hst
  have hcache' : bank.onCache v f = .ok () (bank.setState v ⟨cache, false⟩) := by
    rw [onCache, hst]
    simp only [hopen, hout]
  have hset : BankInv (bank.setState v ⟨cache, false⟩) := by
    have hset := hoff.inv.setCache hst hout hinv
    rwa [hout] at hset
  have hheld : Held c L p v { cpu with
      bank := bank.setState v ⟨cache, false⟩, cacheResetEpochs := epochs
      mailbox := Function.update cpu.mailbox v none
      taken := Function.update cpu.taken v (cpu.taken v + 1) } := by
    refine ⟨hoff.set hst rfl hset (hcopy m).off hregions hlines hrepl, fun u s huv hs => ?_, hmail,
      hepoch hcache, hposts⟩
    rw [setState_of_ne _ huv] at hs
    exact hrest u s huv hs
  obtain ⟨cpu', hservice, hend⟩ :=
    hheld.service hin (hcopy m) hpend (setState_self hst) hflight 27
  refine ⟨cpu', cache.count - cache.offset, ?_, ?_⟩
  · rw [handleMmioSyncCommand, if_neg (Nat.not_le.mpr hin.vcpu), hcontains,
      if_pos (by simp [hcache]), handleCacheCommand, if_neg (by simp [hcache, hmmio v hin.vcpu]),
      hf]
    simp only [hcache', serviceRounds, hservice]
  · rw [← h.mem] at hend ⊢
    rcases hend with ⟨hend, -⟩ | hbusy
    · exact absurd ho hend
    · exact hbusy

/-- The reset part of a poll between two requests, whatever is in the mailboxes. -/
theorem DisabledIdle.pollReset {u : ℕ} (h : DisabledIdle c L m p w) (hu : u < c.vcpuCount)
    (mailbox : ℕ → Option MmioSyncRequest) : ∃ w' : WindowWorld,
      QuetzCpu.pollReset c u { w.cpu with mailbox := mailbox } =
        .ok { w'.cpu with mailbox := mailbox } ∧
      w'.mem = w.mem ∧ w'.cpu.mailbox = w.cpu.mailbox ∧ DisabledIdle c L m p w' := by
  have hoff : CacheOff c L { w.cpu with mailbox := mailbox }.bank w.cpu.native := h.off
  obtain ⟨bank, epochs, hreset, hoff', -, hothers, hidle, -, -⟩ := hoff.pollReset hu (h.idle u)
  refine ⟨⟨{ w.cpu with bank := bank, cacheResetEpochs := epochs }, w.mem⟩, hreset, rfl, rfl, hoff',
    fun x st hst => ?_, h.rest, h.mem, h.posts⟩
  by_cases hxu : x = u
  · subst hxu
    exact hidle st hst
  · refine h.idle x st ?_
    rw [← hst]
    exact (hothers x hxu).symm

/-- A poll during an access. -/
theorem DisabledBusy.pollReset {u n : ℕ} (h : DisabledBusy c L m p v req n w)
    (hu : u < c.vcpuCount) : ∃ cpu, QuetzCpu.pollReset c u w.cpu = .ok cpu ∧
      DisabledBusy c L m p v req n { w with cpu := cpu } := by
  by_cases huv : u = v
  · subst huv
    refine ⟨w.cpu, ?_, h⟩
    rw [QuetzCpu.pollReset, if_neg fun hnew => hnew.2 h.held.epoch]
  · obtain ⟨bank, epochs, hreset, hoff, hpend, hothers, hidle, hepochs, -⟩ :=
      h.held.off.pollReset hu fun st hst => h.held.others u st huv hst
    obtain ⟨cache, id, hcopy, ho, hn, hst, hlook, hsent⟩ := h.sent
    refine ⟨_, hreset, ⟨hoff, fun x s hxv hs => ?_, h.held.mailbox, ?_, h.held.posts⟩, h.inWindow,
      cache, id, hcopy, ho, hn, ?_, ?_, hsent⟩
    · by_cases hxu : x = u
      · subst hxu
        exact hidle s hs
      · rw [hothers x hxu] at hs
        exact h.held.others x s hxv hs
    · exact h.held.epoch.trans (hepochs v (Ne.symm huv)).symm
    · rw [hothers v (Ne.symm huv), hst]
    · rw [hpend, hlook]

/-- The path through a disabled cache implements the window. -/
theorem disabled_implements (hcache : c.sstWindowCache = true) (hbe : c.windowBigEndian = true)
    (hmmio : ∀ v < c.vcpuCount, c.hasMmio v = true) :
    Implements c (DisabledIdle c L) (DisabledBusy c L) where
  atRest h := h.rest
  effect h := ⟨h.mem, h.posts⟩
  inFlight h := by
    obtain ⟨cache, id, -, -, -, -, -, hsent⟩ := h.sent
    simp [hsent]
  idle {m p w} u hu h := by
    obtain ⟨w', hreset, hmem, hmail, hidle⟩ := h.pollReset hu w.cpu.mailbox
    have hreset : QuetzCpu.pollReset c u w.cpu = .ok w'.cpu := by
      rw [← hmail] at hreset
      rw [show w.cpu = { w.cpu with mailbox := w'.cpu.mailbox } by rw [hmail]]
      exact hreset
    refine ⟨w'.cpu, ?_, hmem ▸ hidle⟩
    rw [pollVcpu, hreset]
    simp only [hidle.rest.1 u]
  passed {m p v req w} u hu h huv := by
    obtain ⟨w', hreset, hmem, hmail, hidle⟩ := h.pollReset hu (w.publish v req).cpu.mailbox
    have hreset : QuetzCpu.pollReset c u (w.publish v req).cpu = .ok (w'.publish v req).cpu := by
      have hsame : { w'.cpu with mailbox := (w.publish v req).cpu.mailbox } =
          (w'.publish v req).cpu := by simp only [publish, hmail]
      rw [hsame] at hreset
      exact hreset
    refine ⟨w', ?_, hmem, hidle⟩
    rw [pollVcpu, hreset]
    simp only [publish_mailbox_of_ne req w' huv, hidle.rest.1 u]
  taken h hin := h.taken hcache hbe hmmio hin
  busy {m p v req n w} u hu h := by
    obtain ⟨cpu, hreset, hbusy⟩ := h.pollReset hu
    refine ⟨cpu, ?_, hbusy⟩
    have hmail : cpu.mailbox u = none := hbusy.held.mailbox u
    rw [pollVcpu, hreset]
    simp only [hmail]
  answered h := h.answered

/-! ### Both paths -/

/-- The window caches are disabled, between two requests. Their lines are arbitrary. -/
def Disabled (c : CpuConfig) (w : WindowWorld) : Prop :=
  DisabledIdle c w.cpu.bank.linesOf w.mem w.cpu.host.posts w

/-- The window has no cache, between two requests. -/
def Plain (c : CpuConfig) (w : WindowWorld) : Prop := PlainIdle c w.mem w.cpu.host.posts w

/-- **The disabled window cache is the plain window.** Every sequence of reads and writes inside
the window is served on both paths. Whatever the schedules of the two runs, both post the same
values in the same order, one for each access, and leave the same memory, and the lines, the tags
and the replacement counters of the caches are those of the beginning. -/
theorem disabled_cache_is_plain (hcache : c.sstWindowCache = true)
    (hbe : c.windowBigEndian = true) (hmmio : ∀ v < c.vcpuCount, c.hasMmio v = true)
    {reqs : List (ℕ × MmioSyncRequest)} (hreqs : ∀ r ∈ reqs, InWindow c r.1 r.2)
    {w₁ w₂ : WindowWorld} (h₁ : w₁.Disabled c) (h₂ : w₂.Plain { c with sstWindowCache := false })
    (hmem : w₁.mem = w₂.mem) :
    (∃ w₁', Serves c reqs w₁ w₁') ∧
    (∃ w₂', Serves { c with sstWindowCache := false } reqs w₂ w₂') ∧
    ∀ w₁' w₂', Serves c reqs w₁ w₁' → Serves { c with sstWindowCache := false } reqs w₂ w₂' →
      w₁'.mem = w₂'.mem ∧ w₁'.cpu.bank.linesOf = w₁.cpu.bank.linesOf ∧
      ∃ posts : Posts, posts.map Prod.fst = reqs.map Prod.fst ∧
        w₁'.cpu.host.posts = w₁.cpu.host.posts ++ posts ∧
        w₂'.cpu.host.posts = w₂.cpu.host.posts ++ posts := by
  have himpl₁ := @disabled_implements c w₁.cpu.bank.linesOf hcache hbe hmmio
  have himpl₂ := @plain_implements { c with sstWindowCache := false } rfl hbe hmmio
  have hreqs' : ∀ r ∈ reqs, InWindow { c with sstWindowCache := false } r.1 r.2 := by
    intro r hr
    obtain ⟨hv, hcmd, hpos, hsmall, habove, hbelow⟩ := hreqs r hr
    exact ⟨hv, hcmd, hpos, hsmall, habove, hbelow⟩
  refine ⟨himpl₁.exists_serves reqs hreqs h₁, himpl₂.exists_serves reqs hreqs' h₂, ?_⟩
  intro w₁' w₂' hserves₁ hserves₂
  have hend₁ := himpl₁.serves hserves₁ hreqs h₁
  have hend₂ := himpl₂.serves hserves₂ hreqs' h₂
  refine ⟨?_, hend₁.off.lines, (windowEffects w₁.mem reqs).1, windowEffects_vcpus reqs w₁.mem,
    hend₁.posts, ?_⟩
  · rw [hend₁.mem, hend₂.mem, hmem]
  · rw [hend₂.posts, hmem]

/-- A window of four lines and two vCPUs. -/
def windowConfig : CpuConfig where
  vcpuCount := 2
  sstWindowCache := true
  windowBigEndian := true
  sstWindowBase := 4096
  sstWindowSize := 64

/-- The first vCPU fills a line in copyback mode, writes to it and disables its cache. -/
def staleSteps : List Step :=
  [.movec 0 2 0x82000000, .next 0, .access 0 4096 4 true [1, 2, 3, 4], .next 0, .issued 0 10 true,
    .complete 10 0 true (List.replicate 16 0xaa), .next 0, .movec 0 2 0, .next 0]

/-- A disabled cache with a dirty line. -/
def staleWorld : WindowWorld := ⟨{ bank := smallBank.run staleSteps }, fun a => .ofNat a⟩

/-- The same memory without a cache. -/
def plainWorld : WindowWorld := ⟨{}, fun a => .ofNat a⟩

/-- A write across a line and a read that overlaps it, of different widths. -/
def straddling : List (ℕ × MmioSyncRequest) :=
  [(0, ⟨.mmioWriteReq, 4109, 7, 0x11223344556677⟩), (1, ⟨.mmioReadReq, 4106, 8, 0⟩)]

theorem staleWorld_disabled : staleWorld.Disabled windowConfig := by
  have hinv : BankInv (smallBank.run staleSteps) := by
    obtain ⟨n, c, hu⟩ := Configured.uniform
      (.configure 2 4096 64 rfl : Configured smallBank)
    exact hu.bankInv.run staleSteps (by decide +kernel)
  have hall : ∀ st ∈ (smallBank.run staleSteps).states, st.cache.active = false ∧
      st.cache.cacr &&& DEC = 0 ∧ window windowConfig ∈ st.cache.regions := by
    decide +kernel
  have hget : ∀ (v : ℕ) (st : BankState), (smallBank.run staleSteps).states[v]? = some st →
      st ∈ (smallBank.run staleSteps).states := fun v st hst => List.mem_of_getElem? hst
  refine ⟨⟨hinv, by decide +kernel, fun v st hst => (hall st (hget v st hst)).2.1,
    fun v st hst => (hall st (hget v st hst)).2.2, by simp [staleWorld], rfl⟩,
    fun v st hst => (hall st (hget v st hst)).1, ⟨fun _ => rfl, rfl⟩, rfl, rfl⟩

theorem disabled_cache_is_plain_straddling :
    ∃ w₁ w₂, Serves windowConfig straddling staleWorld w₁ ∧
      Serves { windowConfig with sstWindowCache := false } straddling plainWorld w₂ ∧
      w₁.mem = w₂.mem ∧ w₁.cpu.host.posts = w₂.cpu.host.posts ∧
      w₁.cpu.bank.linesOf = staleWorld.cpu.bank.linesOf := by
  have hreqs : ∀ r ∈ straddling, InWindow windowConfig r.1 r.2 := by
    intro r hr
    simp only [straddling, List.mem_cons, List.not_mem_nil, or_false] at hr
    rcases hr with rfl | rfl
    · exact ⟨by decide, by decide, by decide, by decide, by decide, by decide⟩
    · exact ⟨by decide, by decide, by decide, by decide, by decide, by decide⟩
  have hplain : plainWorld.Plain { windowConfig with sstWindowCache := false } :=
    ⟨⟨rfl, by decide, by simp [plainWorld], by simp [plainWorld]⟩, ⟨fun _ => rfl, rfl⟩, rfl, rfl⟩
  obtain ⟨⟨w₁, hserves₁⟩, ⟨w₂, hserves₂⟩, hsame⟩ := disabled_cache_is_plain rfl rfl
    (fun _ _ => rfl) hreqs staleWorld_disabled hplain rfl
  obtain ⟨hmem, hlines, posts, -, hposts₁, hposts₂⟩ := hsame w₁ w₂ hserves₁ hserves₂
  exact ⟨w₁, w₂, hserves₁, hserves₂, hmem, hposts₁.trans hposts₂.symm, hlines⟩

end WindowWorld

end Quetz
