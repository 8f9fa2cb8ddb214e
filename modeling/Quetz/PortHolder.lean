import Quetz.PortBalance

/-!
# Whose Request It Is

A port keeps the requests it sent in `flushToVcpu` and `pending` until they are answered.
`holder` is the vCPU a request is kept for. An operation of the port changes nothing about the
requests in flight before it, and keeps every request it sends for the vCPU on whose link it
sends it (`Registers`).

## Main results

* `process_registers` / `handleCommand_registers` / `handleResponse_registers`: the entry points.
* `async_of_owed_eq_zero`: what a port keeps for a vCPU it owes nothing are async doorbells.
-/

namespace Quetz

namespace Host

/-- From `h` to `h'` only requests in `mine` are answered; nobody else sees more than new
requests. -/
structure Turns (mine : ℕ → Prop) (h h' : Host) : Prop where
  nextId : h.nextId ≤ h'.nextId
  old : ∀ r ∈ h'.inFlight, r ∈ h.inFlight ∨ h.nextId ≤ r.id
  kept : ∀ r ∈ h.inFlight, ¬mine r.id → r ∈ h'.inFlight
  count : ∀ q : Request → Bool, (∀ r : Request, h.nextId ≤ r.id → q r = false) →
    (∀ r ∈ h.inFlight, mine r.id → q r = false) → h'.inFlight.countP q = h.inFlight.countP q

variable {h h' : Host} {mine : ℕ → Prop}

/-- Where requests are only sent, nobody's request is answered. -/
theorem Grows.turns (hg : Grows h h') : Turns mine h h' := by
  obtain ⟨news, heq, hge⟩ := hg.inFlight
  refine ⟨hg.nextId, fun r hr => ?_, fun r hr _ => ?_, fun q hq _ => countP_grows hg q hq⟩
  · rw [heq] at hr
    rcases List.mem_append.mp hr with hr | hr
    · exact Or.inl hr
    · exact Or.inr (hge r hr)
  · rw [heq]
    exact List.mem_append_left _ hr

/-- One request is answered, and then requests are sent. -/
theorem Ok.turns_take (hok : h.Ok) {i : ℕ} {r : Request} (hi : h.inFlight[i]? = some r)
    (hmine : mine r.id) (hg : Grows (h.take i) h') : Turns mine h h' := by
  have hturns : Turns mine (h.take i) h' := hg.turns
  refine ⟨hturns.nextId, fun r' hr' => ?_, fun r' hr' hnot => ?_, fun q hq hq' => ?_⟩
  · exact (hturns.old r' hr').imp List.mem_of_mem_eraseIdx id
  · refine hturns.kept r' ?_ hnot
    rcases List.mem_cons.mp ((hok.taken hi).1.mem_iff.mpr hr') with rfl | hmem
    · exact absurd hmine hnot
    · exact hmem
  · rw [hturns.count q hq fun r' hr' => hq' r' (List.mem_of_mem_eraseIdx hr'),
      ← countP_take hok hi q q fun _ _ _ => rfl, hq' r (List.mem_of_getElem? hi) hmine]
    rfl

end Host

namespace BalarPort

/-- The vCPU the port keeps a request for. -/
def holder (s : BalarPort) (id : ℕ) : Option ℕ :=
  match s.flushToVcpu id with
  | some v => some v
  | none => (s.pending id).map ForwardPending.vcpu

/-- The port keeps what it sends from `h` to `h'`, on links of vCPUs in `P`, and nothing else
new. -/
structure Registers (P : ℕ → Prop) (h h' : Host) (s s' : BalarPort) : Prop where
  grows : h.Grows h'
  old : ∀ r ∈ h.inFlight, s'.holder r.id = s.holder r.id
  new : ∀ r ∈ h'.inFlight, h.nextId ≤ r.id → s'.holder r.id = some r.vcpu ∧ P r.vcpu

variable {P : ℕ → Prop} {h h' : Host} {s s' : BalarPort} {v : ℕ}

/-- The holder is read from the two maps. -/
theorem holder_congr (hf : s'.flushToVcpu = s.flushToVcpu) (hp : s'.pending = s.pending) (id : ℕ) :
    s'.holder id = s.holder id := by
  simp only [holder, hf, hp]

/-- Nothing is sent. -/
theorem Registers.of_maps (hok : h.Ok) (hf : s'.flushToVcpu = s.flushToVcpu)
    (hp : s'.pending = s.pending) : Registers P h h s s' := by
  refine ⟨Host.Grows.refl h, fun r _ => holder_congr hf hp r.id, fun r hr hge => ?_⟩
  exact absurd (hok.fresh r hr) (Nat.not_lt.mpr hge)

/-- Two operations in a row. -/
theorem Registers.trans {h₁ h₂ h₃ : Host} {s₁ s₂ s₃ : BalarPort} (h₁₂ : Registers P h₁ h₂ s₁ s₂)
    (h₂₃ : Registers P h₂ h₃ s₂ s₃) : Registers P h₁ h₃ s₁ s₃ := by
  obtain ⟨news₁, heq₁, -⟩ := h₁₂.grows.inFlight
  obtain ⟨news₂, heq₂, hge₂⟩ := h₂₃.grows.inFlight
  refine ⟨h₁₂.grows.trans h₂₃.grows, fun r hr => ?_, fun r hr hge => ?_⟩
  · rw [h₂₃.old r (by rw [heq₁]; exact List.mem_append_left _ hr), h₁₂.old r hr]
  · rw [heq₂] at hr
    rcases List.mem_append.mp hr with hr₂ | hr₂
    · rw [h₂₃.old r hr₂]
      exact h₁₂.new r hr₂ hge
    · exact h₂₃.new r (by rw [heq₂]; exact hr) (hge₂ r hr₂)

/-- A response to a vCPU is no request. -/
theorem Registers.post (hr : Registers P h h' s s') (vcpu : ℕ) (value : UInt64) :
    Registers P h (h'.postResponse vcpu value) s s' :=
  ⟨hr.grows.trans (Host.Grows.post ..), hr.old, hr.new⟩

/-- One request is sent and kept. -/
theorem Registers.send (hok : h.Ok) (hP : P v) (link : Link) (body : Body)
    (hold : ∀ id, id ≠ h.nextId → s'.holder id = s.holder id)
    (hnew : s'.holder h.nextId = some v) : Registers P h (h.send v link body) s s' := by
  refine ⟨Host.Grows.send .., fun r hr => hold r.id (Nat.ne_of_lt (hok.fresh r hr)),
    fun r hr hge => ?_⟩
  rcases List.mem_append.mp hr with hr | hr
  · exact absurd (hok.fresh r hr) (Nat.not_lt.mpr hge)
  · rw [List.mem_singleton.mp hr]
    exact ⟨hnew, hP⟩

/-- A request is sent and entered into `pending`. -/
theorem send_pending_registers (hok : h.Ok) (hfresh : s.flushToVcpu h.nextId = none)
    (link : Link) (body : Body) (fp : ForwardPending) (hP : P fp.vcpu)
    (hf : s'.flushToVcpu = s.flushToVcpu)
    (hp : s'.pending = Function.update s.pending h.nextId (some fp)) :
    Registers P h (h.send fp.vcpu link body) s s' := by
  refine Registers.send hok hP link body (fun id hid => ?_) ?_
  · simp only [holder, hf, hp, Function.update_of_ne hid]
  · simp only [holder, hf, hp, hfresh, Function.update_self, Option.map_some]

/-- A doorbell is queued behind a busy stream, or sent on the link of its vCPU. -/
theorem forwardDoorbell_registers (hok : h.Ok) (hfresh : s.flushToVcpu h.nextId = none)
    (hP : P v) (req : Doorbell) (isAsync preAcked : Bool) :
    Registers P h (forwardDoorbell v req isAsync preAcked h s).1 s
      (forwardDoorbell v req isAsync preAcked h s).2 := by
  rw [forwardDoorbell]
  by_cases hbusy : (isAsync && s.asyncBusy v) = true
  · rw [if_pos hbusy]
    have hsame : Registers P h h s { s with
        submitQueue := Function.update s.submitQueue v (s.submitQueue v ++ [req]) } :=
      .of_maps hok rfl rfl
    cases preAcked with
    | true => exact hsame
    | false => exact hsame.post v 0
  · rw [if_neg hbusy]
    have hsend : Registers P h (h.send v .mmio (.write req.addr req.size req.data)) s { s with
        asyncBusy := if isAsync then Function.update s.asyncBusy v true else s.asyncBusy
        pending := Function.update s.pending h.nextId (some ⟨v, false, isAsync⟩)
        dispatched := if isAsync then s.dispatched ++ [h.nextId] else s.dispatched } :=
      send_pending_registers hok hfresh .mmio _ ⟨v, false, isAsync⟩ hP rfl rfl
    dsimp only
    by_cases hack : (isAsync && !preAcked) = true
    · rw [if_pos hack]
      exact hsend.post v 0
    · rw [if_neg hack]
      exact hsend

/-- The loop over the lines. -/
theorem issueFlushes_registers (hP : P v) (lineSize : UInt64) :
    ∀ (count : ℕ) (line : UInt64) {h h' : Host}
    {s s' : BalarPort}, h.Ok → issueFlushes v lineSize count line h s = .ok (h', s') →
    Registers P h h' s s'
  | 0, _, _, _, _, _, hok, hrun => by
    cases hrun
    exact .of_maps hok rfl rfl
  | count + 1, line, h, h', s, s', hok, hrun => by
    have hone : Registers P h (h.send v .mem (.flushAddr line lineSize)) s
        { s with flushToVcpu := Function.update s.flushToVcpu h.nextId (some v) } := by
      refine Registers.send hok hP .mem _ (fun id hid => ?_) ?_
      · simp only [holder, Function.update_of_ne hid]
      · simp only [holder, Function.update_self]
    rw [issueFlushes] at hrun
    split_ifs at hrun
    · cases hrun
      exact hone
    · exact hone.trans (issueFlushes_registers hP lineSize count (line + lineSize)
        (hok.send _ _ _) hrun)

/-- The flushes before a doorbell, one request for each line, on the link of its vCPU. -/
theorem issueDoorbellFlushes_registers {c : BalarConfig} (hok : h.Ok) (hm : MapsOk h s)
    (hP : P v) {req : Doorbell} {isAsync preAcked : Bool}
    (hrun : issueDoorbellFlushes c v req isAsync preAcked h s = .ok (h', s')) :
    Registers P h h' s s' := by
  obtain ⟨-, range, h₁, s₁, -, hflush, hres⟩ := issueDoorbellFlushes_ok hrun
  have hfirst := issueFlushes_registers hP c.cacheLineSize _ _ hok hflush
  have hmaps := issueFlushes_flushed (v := v) c.cacheLineSize range.lineCount.toNat
    range.firstLine hok hm
  rw [hflush] at hmaps
  have hmaps : Flushed v range.lineCount.toNat h s h₁ s₁ := hmaps
  rcases hres with ⟨-, hres⟩ | ⟨-, hres⟩
  · obtain ⟨rfl, rfl⟩ := Prod.ext_iff.mp hres
    exact hfirst.trans (forwardDoorbell_registers hmaps.ok
      (hmaps.maps.flush _ (Nat.le_refl _)) hP req isAsync preAcked)
  · cases hres
    exact hfirst.trans (.of_maps hmaps.ok rfl rfl)

/-- Flushes arm no doorbell. -/
theorem issueFlushes_armed (lineSize : UInt64) : ∀ (count : ℕ) (line : UInt64) {h h' : Host}
    {s s' : BalarPort}, issueFlushes v lineSize count line h s = .ok (h', s') →
    s'.armedDoorbells = s.armedDoorbells
  | 0, _, _, _, _, _, hrun => by
    cases hrun
    rfl
  | count + 1, line, h, h', s, s', hrun => by
    rw [issueFlushes] at hrun
    split_ifs at hrun
    · cases hrun
      rfl
    · exact (issueFlushes_armed lineSize count (line + lineSize) hrun).trans rfl

/-- Nor do the flushes before a doorbell, or the doorbell itself where there is no line to flush. -/
theorem issueDoorbellFlushes_armed {c : BalarConfig} {req : Doorbell} {isAsync preAcked : Bool}
    (hrun : issueDoorbellFlushes c v req isAsync preAcked h s = .ok (h', s')) :
    s'.armedDoorbells = s.armedDoorbells := by
  obtain ⟨-, range, h₁, s₁, -, hflush, hres⟩ := issueDoorbellFlushes_ok hrun
  have hsame := issueFlushes_armed c.cacheLineSize _ _ hflush
  rcases hres with ⟨-, hres⟩ | ⟨-, hres⟩
  · obtain ⟨rfl, rfl⟩ := Prod.ext_iff.mp hres
    rw [← hsame, forwardDoorbell]
    split_ifs <;> rfl
  · cases hres
    exact hsame

/-- The armed doorbell of one vCPU goes out on its own link when its cache is drained. -/
theorem processOne_registers {c : BalarConfig} (drained : ℕ → Bool) (hok : h.Ok)
    (hi : PortInv h s) (hP : ∀ u a, s.armedDoorbells u = some a → P u)
    (hrun : processOne c drained v h s = .ok (h', s')) : Registers P h h' s s' := by
  rw [processOne] at hrun
  cases harmed : s.armedDoorbells v with
  | none =>
      simp only [harmed] at hrun
      cases hrun
      exact .of_maps hok rfl rfl
  | some a =>
      simp only [harmed] at hrun
      split_ifs at hrun
      · have hdisarm : Registers P h h s
            { s with armedDoorbells := Function.update s.armedDoorbells v none } :=
          .of_maps hok rfl rfl
        exact hdisarm.trans (issueDoorbellFlushes_registers hok
          (hi.setArmed (v := v) none (by simp)).toMapsOk (hP v a harmed) hrun)
      · cases hrun
        exact .of_maps hok rfl rfl

/-- No doorbell is armed by `process`. -/
theorem processOne_armed {c : BalarConfig} {drained : ℕ → Bool} {u : ℕ} {a : ArmedDoorbell}
    (hrun : processOne c drained v h s = .ok (h', s')) (ha : s'.armedDoorbells u = some a) :
    s.armedDoorbells u = some a := by
  rw [processOne] at hrun
  cases harmed : s.armedDoorbells v with
  | none =>
      simp only [harmed] at hrun
      cases hrun
      exact ha
  | some d =>
      simp only [harmed] at hrun
      split_ifs at hrun
      · rw [issueDoorbellFlushes_armed hrun] at ha
        by_cases hu : u = v
        · simp only [hu, Function.update_self] at ha
          cases ha
        · simpa only [Function.update_of_ne hu] using ha
      · cases hrun
        exact ha

/-- A tick does this for each vCPU in turn. -/
theorem process_registers {c : BalarConfig} (drained : ℕ → Bool) (order : List ℕ) {h h' : Host}
    {s s' : BalarPort} (hok : h.Ok) (hi : PortInv h s) (hone : ∀ u, owed h s u ≤ 1)
    (hP : ∀ u a, s.armedDoorbells u = some a → P u)
    (hrun : process c drained order h s = .ok (h', s')) : Registers P h h' s s' := by
  induction order generalizing h s with
  | nil =>
      cases hrun
      exact .of_maps hok rfl rfl
  | cons v order ih =>
      rw [process] at hrun
      have hmoved := processOne_moved c drained hok hi (hone v)
      cases hturn : processOne c drained v h s with
      | error e =>
          rw [hturn] at hrun
          cases hrun
      | ok res =>
          obtain ⟨h₁, s₁⟩ := res
          rw [hturn] at hrun hmoved
          have hmoved : Moved h h₁ s₁ fun u => owed h s u + h.posted u := hmoved
          refine (processOne_registers drained hok hi hP hturn).trans
            (ih hmoved.ok hmoved.inv (fun u => ?_) (fun u a ha => ?_) hrun)
          swap
          · exact hP u a (processOne_armed hturn ha)
          have hbal := hmoved.balance u
          have hposted := hmoved.grows.posted u
          have := hone u
          omega

/-- A SUBMIT sends nothing. -/
theorem submit_registers {c : BalarConfig} {cmd : QuetzCommand} (hok : h.Ok)
    (hrun : submit c v cmd h s = .ok (h', s')) : Registers P h h' s s' := by
  rw [submit] at hrun
  by_cases hcfg : c.doorbellAddr = 0 ∨ (!c.hasMem v) = true
  · rw [if_pos hcfg] at hrun
    cases hrun
  rw [if_neg hcfg] at hrun
  by_cases hdepth : s.asyncInFlight + 1 > c.asyncCompletionDepth
  · rw [if_pos hdepth] at hrun
    cases hrun
  rw [if_neg hdepth] at hrun
  dsimp only at hrun
  by_cases hnest : (s.armedDoorbells v).isSome = true ∨ (s.doorbellFlushes v).isSome = true
  · rw [if_pos hnest] at hrun
    cases hrun
  rw [if_neg hnest] at hrun
  obtain ⟨rfl, rfl⟩ := Prod.mk.inj (Except.ok.inj hrun)
  exact .of_maps hok rfl rfl

/-- A command of a vCPU sends on the link of this vCPU only. -/
theorem handleCommand_registers {c : BalarConfig} {cmd : QuetzCommand} (hok : h.Ok)
    (hi : PortInv h s) (hP : P v) (hrun : handleCommand c v cmd h s = .ok (h', s')) :
    Registers P h h' s s' := by
  have hfresh : s.flushToVcpu h.nextId = none := hi.flush _ (Nat.le_refl _)
  rw [handleCommand] at hrun
  by_cases hasync : inAsync c cmd.addr = true
  · rw [if_pos hasync, handleAsyncAperture] at hrun
    cases hclaim : claimAsync v s with
    | error e =>
        rw [hclaim] at hrun
        cases hrun
    | ok s₁ =>
        rw [hclaim] at hrun
        obtain rfl := claimAsync_ok hclaim
        have hclaimed : Registers P h h s { s with asyncVcpu := some v } := .of_maps hok rfl rfl
        dsimp only at hrun
        cases hcmd : cmd.cmd with
        | mmioReadReq =>
            simp only [hcmd] at hrun
            cases hrun
            exact hclaimed.post _ _
        | mmioWriteReq =>
            simp only [hcmd] at hrun
            by_cases hoff : cmd.addr - c.asyncDoorbellAddr ≠ ASYNC_REG_SUBMIT
            · rw [if_pos hoff] at hrun
              cases hrun
              exact hclaimed.post _ _
            · rw [if_neg hoff] at hrun
              exact hclaimed.trans (submit_registers hok hrun)
        | _ =>
            simp only [hcmd] at hrun
            cases hrun
            exact hclaimed
  · rw [if_neg hasync] at hrun
    cases hcmd : cmd.cmd with
    | mmioReadReq =>
        simp only [hcmd] at hrun
        cases hrun
        exact send_pending_registers hok hfresh .mmio _ ⟨v, true, false⟩ hP rfl rfl
    | mmioWriteReq =>
        simp only [hcmd] at hrun
        split_ifs at hrun
        · obtain ⟨rfl, rfl⟩ := Prod.ext_iff.mp (Except.ok.inj hrun)
          exact forwardDoorbell_registers hok hfresh hP _ false false
        · cases hrun
          exact .of_maps hok rfl rfl
    | _ =>
        simp only [hcmd] at hrun
        cases hrun
        exact .of_maps hok rfl rfl

/-- The turn of somebody else changes nothing for a port. -/
theorem PortInv.turns {mine : ℕ → Prop} (hi : PortInv h s) (ht : h.Turns mine h')
    (hmine : ∀ r ∈ h.inFlight, mine r.id → s.holder r.id = none) :
    PortInv h' s ∧ ∀ u, owed h' s u = owed h s u := by
  have hnone : ∀ r ∈ h.inFlight, mine r.id → s.flushToVcpu r.id = none ∧ s.pending r.id = none := by
    intro r hr hm
    have hheld := hmine r hr hm
    rw [holder] at hheld
    cases hflush : s.flushToVcpu r.id with
    | some v => simp [hflush] at hheld
    | none => exact ⟨rfl, by simpa [hflush] using hheld⟩
  refine ⟨⟨⟨fun id hid => hi.pending id (ht.nextId.trans hid),
    fun id hid => hi.flush id (ht.nextId.trans hid), hi.role, fun r hr u hu => ?_⟩, fun u => ?_,
    hi.remaining_pos, hi.armed, hi.acked⟩, fun u => ?_⟩
  · rcases ht.old r hr with hr | hge
    · exact hi.body r hr u hu
    · rw [hi.flush r.id hge] at hu
      cases hu
  · rw [hi.remaining u]
    refine (ht.count _ (fun r hge => ?_) fun r hr hm => ?_).symm
    · simp [flushHeld, hi.flush r.id hge]
    · simp [flushHeld, (hnone r hr hm).1]
  · simp only [owed]
    congr 1
    refine ht.count _ (fun r hge => ?_) fun r hr hm => ?_
    · simp [syncHeld, hi.pending r.id hge]
    · simp [syncHeld, (hnone r hr hm).2]

/-! ### Responses -/

/-- A response to a request that the port does not keep is not taken. -/
theorem handleResponse_of_not_held {id : ℕ} (resp : Response) (hnone : s.holder id = none) :
    handleResponse id resp h s = .ok none := by
  rw [handleResponse]
  rw [holder] at hnone
  cases hflush : s.flushToVcpu id with
  | some v => simp [hflush] at hnone
  | none =>
      simp only [hflush, Option.map_eq_none_iff] at hnone
      simp only [hnone]

/-- A response to a request that the port keeps is taken. -/
theorem handleResponse_of_held {id : ℕ} {resp : Response} (hsome : s.holder id = some v) :
    handleResponse id resp h s ≠ .ok none := by
  rw [handleResponse]
  rw [holder] at hsome
  cases hflush : s.flushToVcpu id with
  | some u =>
      dsimp only
      cases handleFlushResponse u id resp h s <;> simp [Except.map]
  | none =>
      simp only [hflush, Option.map_eq_some_iff] at hsome
      obtain ⟨fp, hfp, -⟩ := hsome
      simp only [hfp]
      split_ifs <;> simp

section Answer

variable {i : ℕ} {r : Request}

/-- The last flush response sends the doorbell of the vCPU the flush was kept for. -/
theorem handleFlushResponse_registers (hok : h.Ok) (hi : PortInv h s)
    (hr : h.inFlight[i]? = some r) (hflush : s.flushToVcpu r.id = some v) (hP : P v)
    {resp : Response}
    (hrun : handleFlushResponse v r.id resp (h.take i) s = .ok (h', s')) :
    Registers P (h.take i) h' s s' := by
  have herase : Registers P (h.take i) (h.take i) s
      { s with flushToVcpu := Function.update s.flushToVcpu r.id none } := by
    refine ⟨Host.Grows.refl _, fun r' hr' => ?_, fun r' hr' hge => ?_⟩
    · simp only [holder, Function.update_of_ne ((hok.taken hr).2 r' hr')]
    · exact absurd ((hok.take i).fresh r' hr') (Nat.not_lt.mpr hge)
  have hmaps := (hi.toMapsOk.answerFlush hok hr hflush).1
  rw [handleFlushResponse] at hrun
  dsimp only at hrun
  cases hctx : s.doorbellFlushes v with
  | none =>
      simp only [hctx] at hrun
      cases hrun
  | some ctx =>
      simp only [hctx] at hrun
      by_cases hresp : resp ≠ .flushResp
      · rw [if_pos hresp] at hrun
        cases hrun
      rw [if_neg hresp] at hrun
      by_cases hlast : ctx.remaining - 1 = 0
      · rw [if_pos hlast] at hrun
        obtain ⟨rfl, rfl⟩ := Prod.ext_iff.mp (Except.ok.inj hrun)
        have hclear : Registers P (h.take i) (h.take i)
            { s with flushToVcpu := Function.update s.flushToVcpu r.id none }
            { s with
              flushToVcpu := Function.update s.flushToVcpu r.id none
              doorbellFlushes := Function.update s.doorbellFlushes v none } :=
          .of_maps (hok.take i) rfl rfl
        refine (herase.trans hclear).trans (forwardDoorbell_registers (hok.take i) ?_ hP _ _ _)
        exact hmaps.flush _ (Nat.le_refl _)
      · rw [if_neg hlast] at hrun
        cases hrun
        exact herase.trans (.of_maps (hok.take i) rfl rfl)

/-- A retired async doorbell sends the next one of the same vCPU. -/
theorem retireAsync_registers (hok : h.Ok) (hfresh : s.flushToVcpu h.nextId = none) (hP : P v)
    (value : UInt64) :
    Registers P h (retireAsync v value h s).1 s (retireAsync v value h s).2 := by
  simp only [retireAsync]
  cases hq : s.submitQueue v with
  | nil => exact .of_maps hok rfl rfl
  | cons next rest =>
      have hcount : Registers P h h s { s with
          completedId := Function.update s.completedId v (s.completedId v + 1)
          lastResult := Function.update s.lastResult v value
          asyncInFlight := s.asyncInFlight - 1
          asyncBusy := Function.update s.asyncBusy v false
          submitQueue := Function.update s.submitQueue v rest } := .of_maps hok rfl rfl
      dsimp only
      refine hcount.trans (forwardDoorbell_registers hok ?_ hP next true true)
      exact hfresh

/-- A response sends on the link of the vCPU whose request is answered. -/
theorem handleResponse_registers (hok : h.Ok) (hi : PortInv h s) (hr : h.inFlight[i]? = some r)
    (hP : ∀ v, s.holder r.id = some v → P v) {resp : Response}
    (hrun : handleResponse r.id resp (h.take i) s = .ok (some (h', s'))) :
    Registers P (h.take i) h' s s' := by
  rw [handleResponse] at hrun
  cases hflush : s.flushToVcpu r.id with
  | some v =>
      simp only [hflush] at hrun
      cases hres : handleFlushResponse v r.id resp (h.take i) s with
      | error e =>
          rw [hres] at hrun
          cases hrun
      | ok res =>
          rw [hres] at hrun
          cases hrun
          exact handleFlushResponse_registers hok hi hr hflush
            (hP v (by simp [holder, hflush])) hres
  | none =>
      simp only [hflush] at hrun
      cases hp : s.pending r.id with
      | none =>
          simp only [hp] at hrun
          cases hrun
      | some fp =>
          simp only [hp] at hrun
          have herase : Registers P (h.take i) (h.take i) s
              { s with pending := Function.update s.pending r.id none } := by
            refine ⟨Host.Grows.refl _, fun r' hr' => ?_, fun r' hr' hge => ?_⟩
            · simp only [holder, Function.update_of_ne ((hok.taken hr).2 r' hr')]
            · exact absurd ((hok.take i).fresh r' hr') (Nat.not_lt.mpr hge)
          by_cases hasync : fp.isAsync = true
          · rw [if_pos hasync] at hrun
            obtain ⟨rfl, rfl⟩ := Prod.ext_iff.mp (Option.some.inj (Except.ok.inj hrun))
            refine herase.trans (retireAsync_registers (hok.take i) ?_ ?_ _)
            · exact hi.flush _ (Nat.le_refl _)
            · exact hP fp.vcpu (by simp [holder, hflush, hp])
          · rw [if_neg hasync] at hrun
            obtain ⟨rfl, rfl⟩ := Prod.ext_iff.mp (Option.some.inj (Except.ok.inj hrun))
            exact herase.post _ _

end Answer

/-- What a port keeps for a vCPU it owes nothing is an async doorbell. -/
theorem async_of_owed_eq_zero (hi : PortInv h s) (hzero : owed h s v = 0) {r : Request}
    (hr : r ∈ h.inFlight) (hheld : s.holder r.id = some v) :
    ∃ fp, s.pending r.id = some fp ∧ fp.isAsync = true := by
  simp only [owed, Nat.add_eq_zero_iff, List.length_eq_zero_iff, Option.toList_eq_nil_iff,
    List.countP_eq_zero] at hzero
  obtain ⟨⟨-, hctx⟩, hsync⟩ := hzero
  rw [holder] at hheld
  cases hflush : s.flushToVcpu r.id with
  | some u =>
      -- A flush in flight has a doorbell that waits for it.
      simp only [hflush, Option.some.injEq] at hheld
      subst hheld
      have hcount := hi.remaining u
      rw [hctx, Option.elim_none, eq_comm, List.countP_eq_zero] at hcount
      exact absurd (by simp [flushHeld, hflush]) (hcount r hr)
  | none =>
      simp only [hflush, Option.map_eq_some_iff] at hheld
      obtain ⟨fp, hfp, rfl⟩ := hheld
      refine ⟨fp, hfp, ?_⟩
      have hnot := hsync r hr
      simpa [syncHeld, hfp] using hnot

end BalarPort

end Quetz
