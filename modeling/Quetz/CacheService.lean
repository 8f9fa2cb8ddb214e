import Quetz.CacheTransparency
import Quetz.MmioSync
import Quetz.PortBalance

/-!
# The Service Loop of the Window Cache

`serviceWindowCache` asks the cache of a vCPU for backing requests, answers those on native RAM
itself and stops at the first other one, or at the end of the transaction. Whatever native RAM
answers, the loop ends (`rounds_lt`), and it either posts one response and leaves the cache idle
or sends one request and leaves the cache waiting for it (`Serviced`).

## Main results

* `rounds_lt`: an answered request brings the transaction closer to its end.
* `serviceWindowCache_serviced`: what the loop does, and that it ends.
-/

namespace Quetz

open WindowDataCache WindowCacheBank

namespace WindowDataCache

variable {c : WindowDataCache}

/-! ### The transaction ends -/

/-- A bound on the backing requests of the open transaction. -/
def rounds (c : WindowDataCache) : ℕ := if c.pushing then 27 else c.work

/-- An access has at most eight bytes. -/
theorem work_lt (h : Inv c) (hact : c.active = true) : c.work < 27 := by
  have hsmall := (h.accessOk hact).small
  have hstage := c.stage_le
  simp only [work]
  omega

/-- An open transaction ends within the rounds of the service loop. -/
theorem rounds_lt_serviceRounds (h : Inv c) (hact : c.active = true) :
    c.rounds < QuetzCpu.serviceRounds := by
  have hwork := work_lt h hact
  unfold rounds QuetzCpu.serviceRounds
  split_ifs <;> omega

/-- Only a push answer changes what kind of transaction is open, and no answer closes it. -/
theorem Completes.kind {d : WindowDataCache} {bs : List UInt8} (hc : Completes c bs d) :
    d.active = c.active ∧ (c.pushing = false → d.pushing = false) ∧ d.pending = .none := by
  cases hc with
  | push hp => exact ⟨rfl, fun _ => rfl, rfl⟩
  | _ => exact ⟨rfl, fun h => h, rfl⟩

/-- A request of the access loop, once answered, leaves less work. -/
theorem nextAccess_work (h : Inv c) (hl : Looping c) {d : WindowDataCache} {bs : List UInt8}
    (hkind : (nextAccess (c.count - c.offset) c).2.kind ≠ .done)
    (hd : (nextAccess (c.count - c.offset) c).1.complete bs = .ok d) :
    d.pushing = false ∧ d.work < c.work := by
  refine nextAccess_induct (P := fun e => Inv e ∧ Looping e ∧ e.work ≤ c.work)
    (Q := fun r => r.2.kind ≠ .done → ∀ d, r.1.complete bs = .ok d →
      d.pushing = false ∧ d.work < c.work) ?_ ?_ ?_ _ c ⟨h, hl, le_rfl⟩ le_rfl hkind d hd
  · rintro e - - hdone
    exact absurd rfl hdone
  · rintro e ⟨e', a⟩ ⟨he, hle, hwork⟩ ho hr - d hd
    have hlt := hr.complete_work (he.aim hle.pending) hle.aim (aimed_aim e) ho hd
    have hpush : e'.pushing = false := by
      cases hr <;> exact hle.pushing
    exact ⟨(complete_ok hd).2.kind.2.1 hpush, Nat.lt_of_lt_of_le hlt hwork⟩
  · rintro e e' ⟨he, hle, hwork⟩ ho hr
    obtain ⟨he', hle', hcount, hoff⟩ := (he.aim hle.pending).pass_hit hle.aim (aimed_aim e) ho hr
    have hend : e'.offset ≤ e.count := by
      rw [← show e'.count = e.count from hcount]
      exact (he'.accessOk hle'.active).offset_le
    exact ⟨⟨he', hle', Nat.le_trans (Nat.le_of_lt (work_advance hcount hoff hend)) hwork⟩,
      hcount, hoff⟩

/-- An answered request brings the transaction closer to its end. -/
theorem rounds_lt (h : Inv c) {c' d : WindowDataCache} {a : Action} {bs : List UInt8}
    (hn : c.next = .ok (c', a)) (hkind : a.kind ≠ .done) (hd : c'.complete bs = .ok d) :
    d.rounds < c.rounds := by
  have hinv : Inv d := (h.next hn).complete hd
  obtain ⟨hact, hpend, heq⟩ := next_eq_ok.mp hn
  cases hpush : c.pushing with
  | true =>
      rw [if_pos hpush, nextPush] at heq
      dsimp only at heq
      by_cases hdirty : ((c.lines c.pendingSlot).valid && (c.lines c.pendingSlot).dirty) = true
      · rw [if_pos hdirty] at heq
        obtain ⟨rfl, rfl⟩ := Prod.mk.inj heq
        obtain ⟨hact', hcomp⟩ := complete_ok hd
        have hwork := work_lt hinv (by rw [hcomp.kind.1]; exact hact')
        cases hcomp with
        | push hp =>
            rw [rounds, rounds, if_pos hpush]
            exact hwork
        | _ hp => cases hp
      · rw [if_neg hdirty] at heq
        obtain ⟨rfl, rfl⟩ := Prod.mk.inj heq
        exact absurd rfl hkind
  | false =>
      rw [if_neg (by simp [hpush])] at heq
      obtain ⟨rfl, rfl⟩ := Prod.ext_iff.mp heq
      obtain ⟨hd', hwork⟩ := nextAccess_work h ⟨hact, hpush, hpend⟩ hkind hd
      rw [rounds, rounds, if_neg (by simp [hd']), if_neg (by simp [hpush])]
      exact hwork

/-! ### Which request the loop stops at -/

/-- What `next` leaves: an idle cache after `done`, a waiting one otherwise. -/
theorem next_kind (h : Inv c) {c' : WindowDataCache} {a : Action} (hn : c.next = .ok (c', a)) :
    (a.kind = .done → c'.active = false) ∧
      (a.kind ≠ .done → c'.active = true ∧ c'.pending ≠ .none) := by
  obtain ⟨hact, hpend, heq⟩ := next_eq_ok.mp hn
  cases hpush : c.pushing with
  | true =>
      rw [if_pos hpush, nextPush] at heq
      dsimp only at heq
      split_ifs at heq
      · obtain ⟨rfl, rfl⟩ := Prod.mk.inj heq
        exact ⟨fun hk => (by cases hk), fun _ => ⟨hact, by simp⟩⟩
      all_goals
        obtain ⟨rfl, rfl⟩ := Prod.mk.inj heq
        exact ⟨fun _ => rfl, fun hk => absurd rfl hk⟩
  | false =>
      rw [if_neg (by simp [hpush])] at heq
      obtain ⟨rfl, rfl⟩ := Prod.ext_iff.mp heq
      refine nextAccess_induct (P := fun e => Inv e ∧ Looping e)
        (Q := fun r => (r.2.kind = .done → r.1.active = false) ∧
          (r.2.kind ≠ .done → r.1.active = true ∧ r.1.pending ≠ .none)) ?_ ?_ ?_ _ c
        ⟨h, hact, hpush, hpend⟩ le_rfl
      · rintro e - -
        exact ⟨fun _ => rfl, fun hk => absurd rfl hk⟩
      · rintro e ⟨e', a⟩ ⟨he, hle⟩ - hr
        have hacte := hle.active
        cases hr <;> exact ⟨fun hk => (by cases hk), fun _ => ⟨hacte, by simp⟩⟩
      · rintro e e' ⟨he, hle⟩ ho hr
        obtain ⟨he', hle', hcount, hoff⟩ :=
          (he.aim hle.pending).pass_hit hle.aim (aimed_aim e) ho hr
        exact ⟨⟨he', hle'⟩, hcount, hoff⟩

/-! ### The error of a second transaction -/

/-- The exception of a transaction opened during another one. -/
def overlapping : Exn := .logicError "overlapping window cache transactions"

/-- `next` never complains about an open transaction. -/
theorem next_ne_overlapping : c.next ≠ .error overlapping := by
  rw [next]
  split_ifs <;> simp [overlapping]

/-- Neither does `complete`. -/
theorem complete_ne_overlapping (bs : List UInt8) : c.complete bs ≠ .error overlapping := by
  rw [complete]
  by_cases hact : c.active = false
  · rw [if_pos hact]
    simp [overlapping]
  rw [if_neg hact]
  dsimp only
  cases c.pending with
  | fill =>
      dsimp only
      split_ifs <;> simp [overlapping]
  | bypassRead =>
      dsimp only
      split_ifs <;> simp [overlapping]
  | _ => simp [overlapping]

/-- An idle cache opens a transaction. -/
theorem start_ne_overlapping (hidle : c.active = false) (f : WindowDataCache → WindowDataCache) :
    c.start.map f ≠ .error overlapping := by
  rw [start_of_idle hidle]
  exact fun h => by cases h

/-- An access of an idle cache. -/
theorem access_ne_overlapping (hidle : c.active = false) (a n : ℕ) (w : Bool)
    (bs : List UInt8) : c.access a n w bs ≠ .error overlapping := by
  rw [access]
  cases c.regionFor a with
  | none => simp [overlapping]
  | some region =>
      dsimp only
      by_cases hbad : n = 0 ∨ n > 8 ∨ n > region.size - (a - region.base) ∨
          (w = true ∧ bs.length ≠ n)
      · rw [if_pos hbad]
        simp [overlapping]
      · rw [if_neg hbad]
        exact start_ne_overlapping hidle _

/-- A MOVEC on an idle cache. -/
theorem movec_ne_overlapping (hidle : c.active = false) (reg : ℕ) (value : BitVec 32) :
    c.movec reg value ≠ .error overlapping := by
  rw [movec]
  split_ifs
  · simp [overlapping]
  · simp [overlapping]
  · simp [overlapping]
  · exact start_ne_overlapping hidle _

/-- A push on an idle cache. -/
theorem push_ne_overlapping (hidle : c.active = false) (i : BitVec 16) (o : BitVec 32) :
    c.push i o ≠ .error overlapping := by
  rw [push]
  split_ifs
  · simp [overlapping]
  · exact start_ne_overlapping hidle _

/-- An idle cache takes every command, or refuses it for another reason. -/
theorem openCache_ne_overlapping {cmd : QuetzCommand}
    {f : WindowDataCache → Except Exn WindowDataCache} (hf : QuetzCpu.openCache cmd = .ok f)
    (hidle : c.active = false) : f c ≠ .error overlapping := by
  rw [QuetzCpu.openCache] at hf
  cases hcmd : cmd.cmd with
  | cacheOp =>
      simp only [hcmd] at hf
      split_ifs at hf
      · cases hf
        exact movec_ne_overlapping hidle _ _
      · cases hf
        exact push_ne_overlapping hidle _ _
  | mmioReadReq =>
      simp only [hcmd] at hf
      split_ifs at hf
      cases hf
      exact access_ne_overlapping hidle _ _ _ _
  | mmioWriteReq =>
      simp only [hcmd] at hf
      split_ifs at hf
      cases hf
      exact access_ne_overlapping hidle _ _ _ _
  | _ =>
      simp only [hcmd] at hf
      cases hf

/-- An accepted command opens a transaction. -/
theorem openCache_opens {cmd : QuetzCommand} {d : WindowDataCache}
    {f : WindowDataCache → Except Exn WindowDataCache} (hf : QuetzCpu.openCache cmd = .ok f)
    (h : Inv c) (hd : f c = .ok d) :
    c.active = false ∧ Inv d ∧ d.active = true ∧ d.pending = .none := by
  have haccess : ∀ a n w bs, c.access a n w bs = .ok d →
      c.active = false ∧ Inv d ∧ d.active = true ∧ d.pending = .none := by
    intro a n w bs hd
    have hinv := h.access hd
    obtain ⟨hidle, -, -, -, -, rfl⟩ := access_ok hd
    exact ⟨hidle, hinv, rfl, rfl⟩
  rw [QuetzCpu.openCache] at hf
  cases hcmd : cmd.cmd with
  | cacheOp =>
      simp only [hcmd] at hf
      split_ifs at hf
      · cases hf
        have hinv := h.movec hd
        obtain ⟨hidle, -, rfl⟩ := movec_eq_ok.mp hd
        refine ⟨hidle, hinv, ?_, ?_⟩
        · rw [control]
          split_ifs <;> rfl
        · rw [control]
          split_ifs <;> rfl
      · cases hf
        have hinv := h.push hd
        obtain ⟨hidle, -, rfl⟩ := push_eq_ok.mp hd
        refine ⟨hidle, hinv, ?_, ?_⟩
        · rw [select]
          split_ifs <;> rfl
        · rw [select]
          split_ifs <;> rfl
  | mmioReadReq =>
      simp only [hcmd] at hf
      split_ifs at hf
      cases hf
      exact haccess _ _ _ _ hd
  | mmioWriteReq =>
      simp only [hcmd] at hf
      split_ifs at hf
      cases hf
      exact haccess _ _ _ _ hd
  | _ =>
      simp only [hcmd] at hf
      cases hf

end WindowDataCache

/-- The errors of a second command of a blocked vCPU; a loop without end counts as one. -/
def CpuFatal.Nested : CpuFatal → Prop
  | .port e => e.Nested
  | .windowCache _ e => e = overlapping
  | .unfinished _ => True
  | _ => False

namespace QuetzCpu

/-! ### The loop -/

/-- The state after servicing the cache of `v`: the response is posted and the cache idle, or a
request is on the link and the cache waits for it. -/
inductive Serviced (v : ℕ) (w : QuetzCpu) : QuetzCpu → Prop
  | done (value : UInt64) (st : BankState) (bank : WindowCacheBank)
      (native : List NativeRamRegion) (hinv : BankInv bank)
      (hpend : bank.pending = w.bank.pending) (hst : bank.states[v]? = some st)
      (hidle : st.cache.active = false) (hout : st.outstanding = false)
      (hothers : ∀ u, u ≠ v → bank.states[u]? = w.bank.states[u]?) :
      Serviced v w { w with
        host := w.host.postResponse v value, bank := bank, native := native }
  | waits (body : Body) (read : Bool) (st : BankState) (bank : WindowCacheBank)
      (native : List NativeRamRegion) (hinv : BankInv bank)
      (hpend : bank.pending = w.bank.pending.insert w.host.nextId ⟨v, read⟩)
      (hst : bank.states[v]? = some st) (hact : st.cache.active = true)
      (hout : st.outstanding = true)
      (hothers : ∀ u, u ≠ v → bank.states[u]? = w.bank.states[u]?) :
      Serviced v w { w with
        host := w.host.send v .mmio body, bank := bank, native := native }

/-- Servicing that continues after changes to the cache of `v` and to native RAM. -/
theorem Serviced.after {v : ℕ} {w w' : QuetzCpu} {bank : WindowCacheBank}
    {native : List NativeRamRegion}
    (hs : Serviced v { w with bank := bank, native := native } w')
    (hpend : bank.pending = w.bank.pending)
    (hothers : ∀ u, u ≠ v → bank.states[u]? = w.bank.states[u]?) : Serviced v w w' := by
  cases hs with
  | done value st bank' native' hinv hpend' hst hidle hout hothers' =>
      exact .done value st bank' native' hinv (hpend'.trans hpend) hst hidle hout
        fun u hu => (hothers' u hu).trans (hothers u hu)
  | waits body read st bank' native' hinv hpend' hst hact hout hothers' =>
      refine .waits body read st bank' native' hinv ?_ hst hact hout
        fun u hu => (hothers' u hu).trans (hothers u hu)
      rw [hpend', hpend]

/-- The native copy has no transactions. -/
theorem nativeAccess_ne_overlapping (native : List NativeRamRegion) (action : Action) :
    nativeAccess native action ≠ .error overlapping := by
  rw [nativeAccess]
  cases native.findIdx? _ with
  | none => simp
  | some i =>
      dsimp only
      cases native[i]? with
      | none => simp
      | some region =>
          dsimp only
          by_cases hcross : action.size > region.size - (action.address - region.base)
          · rw [if_pos hcross]
            simp [overlapping]
          rw [if_neg hcross]
          cases region.backing with
          | none => simp [overlapping]
          | some mem =>
              dsimp only
              split_ifs <;> simp [overlapping]

/-- The loop ends, without the error of a second transaction. -/
theorem serviceWindowCache_serviced (v n : ℕ) {w : QuetzCpu} {st : BankState}
    (hb : BankInv w.bank) (hst : w.bank.states[v]? = some st) (hact : st.cache.active = true)
    (hpend : st.cache.pending = .none) (hout : st.outstanding = false)
    (hid : w.host.nextId ∉ w.bank.pending) (hn : st.cache.rounds < n) :
    match serviceWindowCache v n w with
    | .ok w' => Serviced v w w'
    | .error e => ¬e.Nested := by
  induction n generalizing w st with
  | zero => exact absurd hn (Nat.not_lt_zero _)
  | succ n ih =>
      rw [serviceWindowCache, hst]
      dsimp only
      cases hnext : st.cache.next with
      | error e =>
          intro he
          have he : e = overlapping := he
          exact next_ne_overlapping (he ▸ hnext)
      | ok r =>
          obtain ⟨cache, action⟩ := r
          have hcache := hb.caches v st hst
          have hbank := hb.setCache hst hout (hcache.next hnext)
          obtain ⟨hdone, hwaits⟩ := next_kind hcache hnext
          have hst₁ : (w.bank.setState v { st with cache := cache }).states[v]? =
              some { st with cache := cache } := setState_self hst
          have hothers₁ : ∀ u, u ≠ v →
              (w.bank.setState v { st with cache := cache }).states[u]? = w.bank.states[u]? :=
            fun u hu => setState_of_ne _ hu
          dsimp only
          by_cases hkind : action.kind = .done
          · rw [if_pos hkind]
            exact .done _ _ _ w.native hbank rfl hst₁ (hdone hkind) hout hothers₁
          rw [if_neg hkind]
          obtain ⟨hact₁, hpend₁⟩ := hwaits hkind
          cases hnative : nativeAccess w.native action with
          | error e =>
              intro he
              have he : e = overlapping := he
              exact nativeAccess_ne_overlapping _ _ (he ▸ hnative)
          | ok res =>
              cases res with
              | some res =>
                  obtain ⟨bytes, native⟩ := res
                  dsimp only
                  rw [onCache, hst₁]
                  dsimp only
                  cases hcomp : cache.complete bytes with
                  | error e =>
                      intro he
                      have he : e = overlapping := he
                      exact complete_ne_overlapping _ (he ▸ hcomp)
                  | ok d =>
                      obtain ⟨hcact, hckind⟩ := complete_ok hcomp
                      have hbank₂ := hbank.setCache hst₁ hout ((hcache.next hnext).complete hcomp)
                      have hst₂ : ((w.bank.setState v { st with cache := cache }).setState v
                          { st with cache := d }).states[v]? = some { st with cache := d } :=
                        setState_self hst₁
                      have hstep := ih (w := { w with
                          bank := (w.bank.setState v { st with cache := cache }).setState v
                            { st with cache := d }
                          native := native })
                        hbank₂ hst₂
                        (hckind.kind.1.trans hcact) hckind.kind.2.2 hout hid
                        (Nat.lt_of_lt_of_le (rounds_lt hcache hnext hkind hcomp)
                          (Nat.le_of_lt_succ hn))
                      revert hstep
                      dsimp only
                      cases serviceWindowCache v n _ with
                      | error e => exact fun he => he
                      | ok w' =>
                          intro hs
                          refine hs.after rfl fun u hu => ?_
                          rw [setState_of_ne _ hu, hothers₁ u hu]
              | none =>
                  dsimp only
                  rw [issued, hst₁]
                  dsimp only
                  rw [if_neg (by simp [hact₁, hout, hid])]
                  have hins := @BankInv.insert _ hbank v w.host.nextId
                    (decide (action.kind = .read)) _ hst₁ hact₁ hpend₁ hout hid
                  refine .waits _ (decide (action.kind = .read)) _ _ w.native hins rfl
                    (setState_self hst₁) hact₁ rfl fun u hu => ?_
                  rw [setState_of_ne _ hu]
                  exact hothers₁ u hu

end QuetzCpu

end Quetz
