import Quetz.CpuTick

/-!
# The Ledger of a Port's Doorbells

Where the released doorbells of a vCPU are: on the mmio link, waiting for flushes, or in the queue
behind the async operation on the link. `Ledger` says that these are all of them, that the flushes
in flight of a waiting doorbell are registered with the port, and that those of a queued one and of
one on the link were answered. A doorbell that is between two places is in `hand`.

## Main results

* `processOne_released` / `handleResponse_responded`: a release and a response.
-/

namespace Quetz

open BalarPort

/-! ### Writes and their releases -/

/-- The write sends the released doorbell, after all its flushes were answered. -/
structure DoorbellWrite.Sends (vcpu : ℕ) (w : DoorbellWrite) (r : Release) : Prop where
  vcpu : w.request.vcpu = vcpu
  link : w.request.link = .mmio
  body : w.request.body = .write r.armed.req.addr r.armed.req.size r.armed.req.data
  after : ∀ f ∈ r.flushes, f.id < w.request.id
  answered : ∀ f ∈ r.flushes, f ∉ w.flying

/-- One flush for every line of the packet was sent for the release. -/
structure Release.FlushesPacket (c : BalarConfig) (vcpu : ℕ) (r : Release) : Prop where
  requests : ∀ f ∈ r.flushes, f.vcpu = vcpu ∧ f.link = .mem ∧
    ∃ line, f.body = .flushAddr line c.cacheLineSize
  nodup : (r.flushes.map flushLine).Nodup
  lines : ∀ line : ℕ, some line ∈ r.flushes.map flushLine ↔
    MeetsPacket (accelDataToU64 r.armed.req.data).toNat (flushBytes c).toNat
      c.cacheLineSize.toNat line

/-- The flushes of the release were answered. -/
def Release.Answered (h : Host) (r : Release) : Prop :=
  ∀ f ∈ r.flushes, f.id < h.nextId ∧ f ∉ h.inFlight

theorem Release.Answered.later {h h' : Host} {r : Release} (hr : r.Answered h)
    (hl : h.Later h') : r.Answered h' := fun f hf =>
  ⟨(hr f hf).1.trans_le hl.nextId, hl.not_mem (hr f hf).1 (hr f hf).2⟩

/-- Where the released doorbells of a vCPU are. -/
structure Places (h : Host) (s : BalarPort) (v : ℕ) (releases : List Release)
    (writes : List DoorbellWrite) (hand sent : List Release) (waiting : Option Release)
    (queued : List Release) : Prop where
  all : (sent ++ (waiting.toList ++ (queued ++ hand))).Perm releases
  sends : List.Forall₂ (DoorbellWrite.Sends v) writes sent
  waits : (s.doorbellFlushes v).map FlushCtx.doorbell = waiting.map fun r => r.armed.req
  registered : ∀ r ∈ waiting, ∀ f ∈ r.flushes,
    f.id < h.nextId ∧ (f ∈ h.inFlight → s.flushToVcpu f.id = some v)
  queue : List.Forall₂ (fun d r => d = r.armed.req ∧ r.Answered h) (s.submitQueue v) queued

/-- The released doorbells of a vCPU are on the link, waiting, in the queue or in hand. -/
def Ledger (h : Host) (s : BalarPort) (v : ℕ) (releases : List Release)
    (writes : List DoorbellWrite) (hand : List Release) : Prop :=
  ∃ sent waiting queued, Places h s v releases writes hand sent waiting queued

/-- The doorbells of the vCPU that the port sends from `h` to `h'`. -/
def doorbellWrites (h h' : Host) (s' : BalarPort) (v : ℕ) : List DoorbellWrite :=
  ((h.newRequests h').filter (s'.isDoorbell v)).map fun r => ⟨r, h'.inFlight⟩

variable {h h' : Host} {s s' : BalarPort} {u v : ℕ} {releases hand : List Release}
  {writes : List DoorbellWrite} {r : Release}

/-! ### Steps that leave the doorbells where they are -/

/-- The doorbells of the vCPU stay where they are. -/
structure Stays (u : ℕ) (h h' : Host) (s s' : BalarPort) : Prop where
  later : h.Later h'
  flushes : (s'.doorbellFlushes u).map FlushCtx.doorbell =
    (s.doorbellFlushes u).map FlushCtx.doorbell
  queue : s'.submitQueue u = s.submitQueue u
  held : ∀ f ∈ h'.inFlight, f.id < h.nextId → s.flushToVcpu f.id = some u →
    s'.flushToVcpu f.id = some u

theorem Ledger.stays (hl : Ledger h s u releases writes hand) (hs : Stays u h h' s s') :
    Ledger h' s' u releases writes hand := by
  obtain ⟨sent, waiting, queued, hp⟩ := hl
  refine ⟨sent, waiting, queued, hp.all, hp.sends, hs.flushes.trans hp.waits,
    fun r hr f hf => ?_, ?_⟩
  · obtain ⟨hid, hheld⟩ := hp.registered r hr f hf
    refine ⟨hid.trans_le hs.later.nextId, fun hmem => hs.held f hmem hid (hheld ?_)⟩
    exact (hs.later.old f hmem).resolve_right (Nat.not_le.mpr hid)
  · rw [hs.queue]
    exact hp.queue.imp fun d r hd => ⟨hd.1, hd.2.later hs.later⟩

/-- The port itself does nothing. -/
theorem Stays.of_later (hl : h.Later h') : Stays u h h' s s :=
  ⟨hl, rfl, rfl, fun _ _ _ hheld => hheld⟩

/-- A port that knows no new request sends no doorbell. -/
theorem doorbellWrites_eq_nil (hpending : ∀ id, h.nextId ≤ id → s'.pending id = none) :
    doorbellWrites h h' s' u = [] := by
  rw [doorbellWrites, List.map_eq_nil_iff, List.filter_eq_nil_iff]
  intro r hr
  rw [Host.newRequests, List.mem_filter, decide_eq_true_eq] at hr
  simp [isDoorbell, hpending r.id hr.2]

/-- The requests sent are those behind the old ones. -/
theorem newRequests_append (hok : h.Ok) {news : List Request}
    (hflight : h'.inFlight = h.inFlight ++ news) (hnews : ∀ r ∈ news, h.nextId ≤ r.id) :
    h.newRequests h' = news := by
  rw [Host.newRequests, hflight, List.filter_append, List.filter_eq_nil_iff.mpr,
    List.filter_eq_self.mpr, List.nil_append]
  · exact fun r hr => decide_eq_true (hnews r hr)
  · intro r hr hge
    exact Nat.not_lt.mpr (of_decide_eq_true hge) (hok.fresh r hr)

/-! ### Forwarding -/

/-- What forwarding a doorbell does: it goes to the end of the queue, or out on the link. -/
inductive Forwarded (v : ℕ) (req : Doorbell) (h : Host) (s : BalarPort) :
    Host → BalarPort → Prop
  | queued {h' : Host} {s' : BalarPort} (hflight : h'.inFlight = h.inFlight)
      (hnext : h'.nextId = h.nextId) (hs' : s' = { s with
        submitQueue := Function.update s.submitQueue v (s.submitQueue v ++ [req]) }) :
      Forwarded v req h s h' s'
  | sent {h' : Host} {s' : BalarPort} (isAsync : Bool)
      (hflight : h'.inFlight = h.inFlight ++
        [⟨h.nextId, v, .mmio, .write req.addr req.size req.data⟩])
      (hnext : h'.nextId = h.nextId + 1)
      (hpending : s'.pending =
        Function.update s.pending h.nextId (some ⟨v, false, isAsync⟩))
      (hqueue : s'.submitQueue = s.submitQueue) (hflushes : s'.doorbellFlushes = s.doorbellFlushes)
      (hmap : s'.flushToVcpu = s.flushToVcpu) (harmed : s'.armedDoorbells = s.armedDoorbells) :
      Forwarded v req h s h' s'

theorem forwardDoorbell_forwarded (req : Doorbell) (isAsync preAcked : Bool) :
    Forwarded v req h s (forwardDoorbell v req isAsync preAcked h s).1
      (forwardDoorbell v req isAsync preAcked h s).2 := by
  rw [forwardDoorbell]
  split_ifs
  · exact .queued rfl rfl rfl
  · exact .queued rfl rfl rfl
  all_goals exact .sent isAsync rfl rfl rfl rfl rfl rfl rfl

theorem Forwarded.armed {req : Doorbell} (hf : Forwarded v req h s h' s') :
    s'.armedDoorbells = s.armedDoorbells := by
  cases hf with
  | queued hflight hnext hs' => rw [hs']
  | sent isAsync hflight hnext hpending hqueue hflushes hmap harmed => exact harmed

theorem Forwarded.later {req : Doorbell} (hf : Forwarded v req h s h' s') : h.Later h' := by
  cases hf with
  | queued hflight hnext hs' => exact ⟨hnext.ge, fun r hr => Or.inl (hflight ▸ hr)⟩
  | sent isAsync hflight hnext hpending hqueue hflushes hmap harmed =>
      refine ⟨by omega, fun r hr => ?_⟩
      rw [hflight] at hr
      rcases List.mem_append.mp hr with hr | hr
      · exact Or.inl hr
      · rw [List.mem_singleton.mp hr]
        exact Or.inr (Nat.le_refl _)

/-- The doorbells of the other vCPUs stay. -/
theorem Forwarded.stays {req : Doorbell} (hf : Forwarded v req h s h' s') (huv : u ≠ v) :
    Stays u h h' s s' := by
  refine ⟨hf.later, ?_, ?_, ?_⟩
  all_goals cases hf with
    | queued hflight hnext hs' => simp [hs', huv]
    | sent isAsync hflight hnext hpending hqueue hflushes hmap harmed =>
      simp [hqueue, hflushes, hmap]

/-- The requests sent by forwarding. -/
theorem Forwarded.newRequests {req : Doorbell} (hf : Forwarded v req h s h' s') (hok : h.Ok) :
    h.newRequests h' = [] ∧ s'.pending = s.pending ∨
      h.newRequests h' = [⟨h.nextId, v, .mmio, .write req.addr req.size req.data⟩] ∧
        ∃ isAsync, s'.pending h.nextId = some ⟨v, false, isAsync⟩ := by
  cases hf with
  | queued hflight hnext hs' =>
      refine Or.inl ⟨newRequests_append hok (by rw [hflight, List.append_nil]) (by simp), ?_⟩
      rw [hs']
  | sent isAsync hflight hnext hpending hqueue hflushes hmap harmed =>
      refine Or.inr ⟨newRequests_append hok hflight (by simp), isAsync, ?_⟩
      rw [hpending, Function.update_self]

/-- Forwarding sends no doorbell of another vCPU. -/
theorem Forwarded.doorbellWrites_of_ne {req : Doorbell} (hf : Forwarded v req h s h' s')
    (hok : h.Ok) (hmaps : MapsOk h s) (huv : u ≠ v) : doorbellWrites h h' s' u = [] := by
  rcases hf.newRequests hok with ⟨-, hpending⟩ | ⟨hnew, isAsync, hpending⟩
  · exact doorbellWrites_eq_nil fun id hid => by rw [hpending]; exact hmaps.pending id hid
  · have hother : s'.isDoorbell u ⟨h.nextId, v, .mmio, .write req.addr req.size req.data⟩ =
        false := by
      simp [isDoorbell, hpending, Ne.symm huv]
    rw [doorbellWrites, hnew, List.filter_singleton, hother]
    rfl

/-- **Forwarding** the doorbell in hand, whose flushes were answered. -/
theorem Ledger.forwarded (hl : Ledger h s v releases writes [r])
    (hf : Forwarded v r.armed.req h s h' s') (hanswered : r.Answered h) (hok : h.Ok)
    (hmaps : MapsOk h s) :
    Ledger h' s' v releases (writes ++ doorbellWrites h h' s' v) [] := by
  obtain ⟨sent, waiting, queued, hp⟩ := hl
  have hlater := hf.later
  have hqueue : List.Forall₂ (fun d r => d = r.armed.req ∧ r.Answered h') (s.submitQueue v)
      queued := hp.queue.imp fun d r hd => ⟨hd.1, hd.2.later hlater⟩
  have hregistered : ∀ r ∈ waiting, ∀ f ∈ r.flushes, f.id < h'.nextId ∧
      (f ∈ h'.inFlight → s.flushToVcpu f.id = some v) := by
    intro r hr f hf
    obtain ⟨hid, hheld⟩ := hp.registered r hr f hf
    refine ⟨hid.trans_le hlater.nextId, fun hmem => hheld ?_⟩
    exact (hlater.old f hmem).resolve_right (Nat.not_le.mpr hid)
  cases hf with
  | queued hflight hnext hs' =>
      have hnone : doorbellWrites h h' s' v = [] :=
        doorbellWrites_eq_nil fun id hid => by rw [hs']; exact hmaps.pending id hid
      rw [hnone, List.append_nil, hs']
      refine ⟨sent, waiting, queued ++ [r], ?_, hp.sends, hp.waits, hregistered, ?_⟩
      · rw [List.append_nil]
        exact hp.all
      · dsimp only
        rw [Function.update_self]
        exact List.rel_append hqueue (.cons ⟨rfl, hanswered.later hlater⟩ .nil)
  | sent isAsync hflight hnext hpending hqueue' hflushes hmap harmed =>
      have hnew := newRequests_append hok hflight (by simp)
      have hmine : s'.isDoorbell v ⟨h.nextId, v, .mmio,
          .write r.armed.req.addr r.armed.req.size r.armed.req.data⟩ = true := by
        simp [isDoorbell, hpending]
      rw [doorbellWrites, hnew, List.filter_singleton, hmine]
      refine ⟨sent ++ [r], waiting, queued, ?_, ?_, by rw [hflushes]; exact hp.waits,
        by rw [hmap]; exact hregistered, by rw [hqueue']; exact hqueue⟩
      · refine List.Perm.trans ?_ hp.all
        rw [List.append_assoc, List.append_nil]
        refine List.Perm.append_left sent ?_
        rw [← List.append_assoc waiting.toList]
        exact List.perm_append_comm
      · refine List.rel_append hp.sends (.cons ⟨rfl, rfl, rfl, fun f hf => ?_, fun f hf => ?_⟩ .nil)
        · exact (hanswered f hf).1
        · exact ((hanswered.later hlater) f hf).2

/-! ### A release -/

/-- The flushes of a packet are not doorbells. -/
theorem filter_isFlush_flushRequests (v : ℕ) (lineSize : UInt64) : ∀ (count id : ℕ)
    (line : UInt64), (flushRequests v lineSize count id line).filter Request.isFlush =
      flushRequests v lineSize count id line := by
  intro count id line
  refine List.filter_eq_self.mpr fun r hr => ?_
  obtain ⟨-, -, -, -, a, hbody⟩ := mem_flushRequests hr
  simp [Request.isFlush, flushLine, hbody]

/-- What a release does to the ledgers: the released doorbell is in the ledger of its vCPU, with
one flush for every line of its packet. -/
structure Released (c : BalarConfig) (v : ℕ) (a : ArmedDoorbell) (h h' : Host)
    (s s' : BalarPort) : Prop where
  later : h.Later h'
  armed : s'.armedDoorbells = Function.update s.armedDoorbells v none
  packet : ∀ r : Release, r.armed = a →
    r.flushes = (h.newRequests h').filter Request.isFlush → r.FlushesPacket c v
  own : ∀ {releases : List Release} {writes : List DoorbellWrite} (r : Release), r.armed = a →
    r.flushes = (h.newRequests h').filter Request.isFlush →
    Ledger h s v releases writes [] →
    Ledger h' s' v (releases ++ [r]) (writes ++ doorbellWrites h h' s' v) []
  others : ∀ {u : ℕ}, u ≠ v → Stays u h h' s s' ∧ doorbellWrites h h' s' u = []

/-- A release without lines only forwards the doorbell. -/
theorem released_of_empty {c : BalarConfig} {a : ArmedDoorbell} {range : BalarFlushRange}
    (hok : h.Ok) (hmaps : MapsOk h s)
    (hrange : FlushRangeOk (accelDataToU64 a.req.data).toNat (flushBytes c).toNat
      c.cacheLineSize.toNat range) (hzero : range.lineCount = 0)
    (hf : Forwarded v a.req h
      { s with armedDoorbells := Function.update s.armedDoorbells v none } h' s') :
    Released c v a h h' s s' := by
  have hmaps' : MapsOk h { s with armedDoorbells := Function.update s.armedDoorbells v none } :=
    ⟨hmaps.pending, hmaps.flush, hmaps.role, hmaps.body⟩
  have hnone : (h.newRequests h').filter Request.isFlush = [] := by
    rcases hf.newRequests hok with ⟨hnew, -⟩ | ⟨hnew, -⟩
    · rw [hnew]
      rfl
    · rw [hnew]
      rfl
  refine ⟨hf.later, hf.armed, fun r ha hflushes => ?_, fun {rs ws} r ha hflushes hl => ?_,
    fun {u} huv => ?_⟩
  · rw [hnone] at hflushes
    have hmem := mem_lines_iff hrange
    rw [show range.lineCount.toNat = 0 by rw [hzero]; rfl] at hmem
    refine ⟨by simp [hflushes], by simp [hflushes], fun line => ?_⟩
    rw [hflushes, ha, ← hmem line]
    simp [linesFrom]
  · rw [hnone] at hflushes
    subst ha
    obtain ⟨sent, waiting, queued, hp⟩ := hl
    have hhand : Ledger h { s with armedDoorbells := Function.update s.armedDoorbells v none } v
        (rs ++ [r]) ws [r] := by
      refine ⟨sent, waiting, queued, ?_, hp.sends, hp.waits, hp.registered, hp.queue⟩
      have hall := hp.all.append_right [r]
      simpa only [List.append_assoc, List.append_nil, List.nil_append] using hall
    exact hhand.forwarded hf (by simp [Release.Answered, hflushes]) hok hmaps'
  · have hstays := hf.stays huv
    exact ⟨⟨hstays.later, hstays.flushes, hstays.queue, hstays.held⟩,
      hf.doorbellWrites_of_ne hok hmaps' huv⟩

/-- A release with lines sends their flushes, and the doorbell waits. -/
theorem released_of_lines {c : BalarConfig} {a : ArmedDoorbell} {range : BalarFlushRange}
    (hok : h.Ok) (hmaps : MapsOk h s)
    (hrange : FlushRangeOk (accelDataToU64 a.req.data).toNat (flushBytes c).toNat
      c.cacheLineSize.toNat range) (hpos : range.lineCount ≠ 0)
    (hnone : s.doorbellFlushes v = none) {s₁ : BalarPort} {ctx : FlushCtx}
    (hctx : ctx.doorbell = a.req)
    (hrun : issueFlushes v c.cacheLineSize range.lineCount.toNat range.firstLine h
      { s with armedDoorbells := Function.update s.armedDoorbells v none } = .ok (h', s₁))
    (hs' : s' = { s₁ with
      doorbellFlushes := Function.update s₁.doorbellFlushes v (some ctx) }) :
    Released c v a h h' s s' := by
  obtain ⟨hflight, hnext, hs₁⟩ := issueFlushes_requests _ _ hrun
  subst hs₁ hs'
  set flushes := flushRequests v c.cacheLineSize range.lineCount.toNat h.nextId range.firstLine
    with hdef
  have hge : ∀ r ∈ flushes, h.nextId ≤ r.id := fun r hr => (mem_flushRequests hr).1
  have hnew : h.newRequests h' = flushes := newRequests_append hok hflight hge
  have hflushes : (h.newRequests h').filter Request.isFlush = flushes := by
    rw [hnew]
    exact filter_isFlush_flushRequests ..
  have hlater : h.Later h' := by
    refine ⟨by omega, fun r hr => ?_⟩
    rw [hflight] at hr
    exact (List.mem_append.mp hr).imp id (hge r)
  have hwrites : ∀ u, doorbellWrites h h' { s with
      flushToVcpu := fun id => if h.nextId ≤ id ∧ id < h.nextId + range.lineCount.toNat then some v
        else s.flushToVcpu id
      armedDoorbells := Function.update s.armedDoorbells v none
      doorbellFlushes := Function.update s.doorbellFlushes v (some ctx) } u = [] := fun u =>
    doorbellWrites_eq_nil hmaps.pending
  refine ⟨hlater, rfl, fun r ha hr => ?_, fun {rs ws} r ha hr hl => ?_, fun {u} huv => ?_⟩
  · rw [hflushes] at hr
    have hbytes : 0 < (flushBytes c).toNat := by
      by_contra hzero
      refine hpos (UInt64.toNat_inj.mp ?_)
      rw [hrange.empty (by omega)]
      rfl
    have hlines : (flushRequests v c.cacheLineSize range.lineCount.toNat h.nextId
        range.firstLine).map flushLine =
        (linesFrom c.cacheLineSize.toNat range.firstLine.toNat range.lineCount.toNat).map some :=
      map_flushLine_flushRequests _ _ _ (by rw [hrange.first]; exact hrange.fits hbytes)
    rw [← hdef] at hlines
    refine ⟨fun f hf => ?_, ?_, fun line => ?_⟩
    · rw [hr] at hf
      obtain ⟨-, -, hv, hlink, hbody⟩ := mem_flushRequests hf
      exact ⟨hv, hlink, hbody⟩
    · rw [hr, hlines]
      exact (nodup_linesFrom hrange.lineSize_pos _ _).map (Option.some_injective ℕ)
    · rw [hr, hlines, ha, ← mem_lines_iff hrange line]
      simp
  · rw [hflushes] at hr
    obtain ⟨sent, waiting, queued, hp⟩ := hl
    have hwaiting : waiting = none := by
      have hwaits := hp.waits
      rw [hnone] at hwaits
      simpa using hwaits.symm
    subst hwaiting ha
    rw [hwrites v, List.append_nil]
    refine ⟨sent, some r, queued, ?_, hp.sends, by simp [hctx], fun r' hr' f hf => ?_,
      hp.queue.imp fun d r hd => ⟨hd.1, hd.2.later hlater⟩⟩
    · have hall := hp.all.append_right [r]
      refine List.Perm.trans ?_ hall
      simp only [Option.toList_none, Option.toList_some, List.nil_append, List.append_nil,
        List.append_assoc]
      exact List.Perm.append_left sent List.perm_append_comm
    · obtain rfl : r = r' := by simpa using hr'
      rw [hr] at hf
      obtain ⟨hid, hlt, -⟩ := mem_flushRequests hf
      refine ⟨by omega, fun _ => ?_⟩
      exact if_pos ⟨hid, hlt⟩
  · refine ⟨⟨hlater, by simp [huv], rfl, fun f hf hid hheld => ?_⟩, hwrites u⟩
    dsimp only
    rw [if_neg (by omega)]
    exact hheld

/-- **One armed doorbell of `process`** stays armed, or it is released. -/
theorem processOne_released {c : BalarConfig} {drained : ℕ → Bool} (hok : h.Ok)
    (hmaps : MapsOk h s) (hrun : processOne c drained v h s = .ok (h', s')) :
    h' = h ∧ s' = s ∨
      ∃ a, s.armedDoorbells v = some a ∧ drained v = true ∧ Released c v a h h' s s' := by
  rw [BalarPort.processOne] at hrun
  cases harmed : s.armedDoorbells v with
  | none =>
      rw [harmed] at hrun
      cases hrun
      exact Or.inl ⟨rfl, rfl⟩
  | some a =>
      simp only [harmed] at hrun
      by_cases hdrained : drained v = true
      · rw [if_pos hdrained] at hrun
        obtain ⟨hnone, range, h₁, s₁, hcompute, hflush, hres⟩ := issueDoorbellFlushes_ok hrun
        have hrange := computeBalarFlushRange_spec hcompute
        refine Or.inr ⟨a, rfl, hdrained, ?_⟩
        rcases hres with ⟨hzero, hres⟩ | ⟨hpos, hres⟩
        · rw [show range.lineCount.toNat = 0 by rw [hzero]; rfl] at hflush
          cases hflush
          have hf := forwardDoorbell_forwarded (v := v) (h := h)
            (s := { s with armedDoorbells := Function.update s.armedDoorbells v none }) a.req
            a.isAsync a.preAcked
          rw [← hres] at hf
          exact released_of_empty hok hmaps hrange hzero hf
        · cases hres
          exact released_of_lines hok hmaps hrange hpos hnone rfl hflush rfl
      · rw [if_neg hdrained] at hrun
        cases hrun
        exact Or.inl ⟨rfl, rfl⟩

/-! ### A response -/

/-- A response keeps every ledger of the port. -/
structure Responded (h h' : Host) (s s' : BalarPort) : Prop where
  later : h.Later h'
  armed : s'.armedDoorbells = s.armedDoorbells
  ledger : ∀ {u : ℕ} {releases : List Release} {writes : List DoorbellWrite},
    Ledger h s u releases writes [] →
    Ledger h' s' u releases (writes ++ doorbellWrites h h' s' u) []

/-- The doorbells of all vCPUs stay, and none is sent. -/
theorem Responded.of_stays (harmed : s'.armedDoorbells = s.armedDoorbells)
    (hstays : ∀ u, Stays u h h' s s') (hnone : ∀ u, doorbellWrites h h' s' u = []) :
    Responded h h' s s' := by
  refine ⟨(hstays 0).later, harmed, fun {u _ _} hl => ?_⟩
  rw [hnone u, List.append_nil]
  exact hl.stays (hstays u)

/-- A doorbell of one vCPU is taken into hand and forwarded. -/
theorem Responded.of_forwarded {h₁ : Host} {s₁ : BalarPort} {req : Doorbell}
    (hf : Forwarded v req h₁ s₁ h' s') (hok : h₁.Ok) (hmaps : MapsOk h₁ s₁) (hlater : h.Later h₁)
    (hnext : h₁.nextId = h.nextId) (harmed : s₁.armedDoorbells = s.armedDoorbells)
    (hothers : ∀ u, u ≠ v → Stays u h h₁ s s₁)
    (hown : ∀ {releases : List Release} {writes : List DoorbellWrite},
      Ledger h s v releases writes [] → ∃ r : Release, r.armed.req = req ∧ r.Answered h₁ ∧
        Ledger h₁ s₁ v releases writes [r]) : Responded h h' s s' := by
  have hwrites : ∀ u, doorbellWrites h h' s' u = doorbellWrites h₁ h' s' u := fun u => by
    simp only [doorbellWrites, Host.newRequests, hnext]
  refine ⟨hlater.trans hf.later, hf.armed.trans harmed, fun {u _ _} hl => ?_⟩
  rw [hwrites u]
  by_cases huv : u = v
  · subst huv
    obtain ⟨r, rfl, hanswered, hhand⟩ := hown hl
    exact hhand.forwarded hf hanswered hok hmaps
  · rw [hf.doorbellWrites_of_ne hok hmaps huv, List.append_nil]
    exact (hl.stays (hothers u huv)).stays (hf.stays huv)

variable {i : ℕ} {q : Request}

/-- The answer to a flush; the last one forwards the doorbell. -/
theorem handleFlushResponse_responded (hok : h.Ok) (hi : PortInv h s)
    (hq : h.inFlight[i]? = some q) (hflush : s.flushToVcpu q.id = some v) {resp : Response}
    (hrun : handleFlushResponse v q.id resp (h.take i) s = .ok (h', s')) :
    Responded h h' s s' := by
  obtain ⟨hmaps, hcount, -⟩ := hi.toMapsOk.answerFlush hok hq hflush
  have htake : h.Later (h.take i) := Host.Later.take h i
  have hheld : ∀ f ∈ (h.take i).inFlight, ∀ u, s.flushToVcpu f.id = some u →
      Function.update s.flushToVcpu q.id none f.id = some u := by
    intro f hf u hu
    rw [Function.update_of_ne ((hok.taken hq).2 f hf)]
    exact hu
  simp only [handleFlushResponse] at hrun
  cases hctx : s.doorbellFlushes v with
  | none =>
      rw [hctx] at hrun
      cases hrun
  | some ctx =>
      simp only [hctx] at hrun
      by_cases hresp : resp ≠ .flushResp
      · rw [if_pos hresp] at hrun
        cases hrun
      rw [if_neg hresp] at hrun
      by_cases hlast : ctx.remaining - 1 = 0
      · rw [if_pos hlast] at hrun
        have hf := forwardDoorbell_forwarded (v := v) (h := h.take i)
          (s := { s with
            flushToVcpu := Function.update s.flushToVcpu q.id none
            doorbellFlushes := Function.update s.doorbellFlushes v none })
          ctx.doorbell ctx.isAsync ctx.preAcked
        rw [Except.ok.inj hrun] at hf
        refine Responded.of_forwarded hf (hok.take i)
          ⟨hmaps.pending, hmaps.flush, hmaps.role, hmaps.body⟩ htake rfl rfl
          (fun u huv => ⟨htake, by simp [huv], rfl, fun f hf _ hu => hheld f hf u hu⟩)
          fun {releases writes} hl => ?_
        obtain ⟨sent, waiting, queued, hp⟩ := hl
        have hwaits := hp.waits
        rw [hctx, Option.map_some] at hwaits
        obtain ⟨r, rfl, hreq⟩ := Option.map_eq_some_iff.mp hwaits.symm
        -- The last flush in flight for the vCPU was the one answered now.
        have hzero : (h.take i).inFlight.countP (BalarPort.flushHeld { s with
            flushToVcpu := Function.update s.flushToVcpu q.id none } v) = 0 := by
          have hremaining := hi.remaining v
          rw [hctx, Option.elim_some] at hremaining
          have hv := hcount v
          rw [if_pos rfl] at hv
          omega
        have hanswered : r.Answered (h.take i) := by
          intro f hf
          obtain ⟨hid, hregistered⟩ := hp.registered r rfl f hf
          refine ⟨hid, fun hmem => ?_⟩
          have hu := hheld f hmem v (hregistered (List.mem_of_mem_eraseIdx hmem))
          exact List.countP_eq_zero.mp hzero f hmem (by simp [flushHeld, hu])
        refine ⟨r, hreq, hanswered, sent, none, queued, ?_, hp.sends, by simp, by simp,
          hp.queue.imp fun d r hd => ⟨hd.1, hd.2.later htake⟩⟩
        refine List.Perm.trans (List.Perm.append_left sent ?_) hp.all
        rw [List.append_nil, Option.toList_none, Option.toList_some, List.nil_append]
        exact List.perm_append_comm
      · rw [if_neg hlast] at hrun
        cases hrun
        refine Responded.of_stays rfl (fun u => ⟨htake, ?_, rfl, fun f hf _ hu => hheld f hf u hu⟩)
          fun u => doorbellWrites_eq_nil hi.pending
        by_cases huv : u = v
        · rw [huv, hctx]
          simp
        · simp [huv]

/-- A step that leaves the doorbells where they are, and then a response. -/
theorem Responded.after {h₁ : Host} {s₁ : BalarPort} (hr : Responded h₁ h' s₁ s')
    (hnext : h₁.nextId = h.nextId) (harmed : s₁.armedDoorbells = s.armedDoorbells)
    (hstays : ∀ u, Stays u h h₁ s s₁) : Responded h h' s s' := by
  refine ⟨(hstays 0).later.trans hr.later, hr.armed.trans harmed, fun {u _ _} hl => ?_⟩
  have hwrites : doorbellWrites h h' s' u = doorbellWrites h₁ h' s' u := by
    simp only [doorbellWrites, Host.newRequests, hnext]
  rw [hwrites]
  exact hr.ledger (hl.stays (hstays u))

/-- A posted operation retires and the next doorbell of the queue is forwarded. -/
theorem retireAsync_responded (hok : h.Ok) (hmaps : MapsOk h s) (value : UInt64) :
    Responded h (retireAsync v value h s).1 s (retireAsync v value h s).2 := by
  simp only [retireAsync]
  cases hqueue : s.submitQueue v with
  | nil =>
      exact Responded.of_stays rfl (fun u => ⟨.refl h, rfl, rfl, fun _ _ _ hu => hu⟩)
        fun u => doorbellWrites_eq_nil hmaps.pending
  | cons next rest =>
      have hf := forwardDoorbell_forwarded (v := v) (h := h)
        (s := { s with
          completedId := Function.update s.completedId v (s.completedId v + 1)
          lastResult := Function.update s.lastResult v value
          asyncInFlight := s.asyncInFlight - 1
          asyncBusy := Function.update s.asyncBusy v false
          submitQueue := Function.update s.submitQueue v rest }) next true true
      refine Responded.of_forwarded hf hok ⟨hmaps.pending, hmaps.flush, hmaps.role, hmaps.body⟩
        (.refl h) rfl rfl (fun u huv => ⟨.refl h, rfl, by simp [huv], fun _ _ _ hu => hu⟩)
        fun {releases writes} hl => ?_
      obtain ⟨sent, waiting, queued, hp⟩ := hl
      have hforall := hp.queue
      rw [hqueue] at hforall
      cases hforall with
      | @cons _ r _ queued hd hrest =>
          refine ⟨r, hd.1.symm, hd.2, sent, waiting, queued, ?_, hp.sends, hp.waits, hp.registered,
            by simpa using hrest⟩
          refine List.Perm.trans ?_ hp.all
          rw [List.append_nil]
          refine List.Perm.append_left sent (List.Perm.append_left _ ?_)
          exact List.perm_append_comm

/-- **A response** that the port takes. -/
theorem handleResponse_responded (hok : h.Ok) (hi : PortInv h s) (hq : h.inFlight[i]? = some q)
    {resp : Response} (hrun : handleResponse q.id resp (h.take i) s = .ok (some (h', s'))) :
    Responded h h' s s' := by
  have htake : h.Later (h.take i) := Host.Later.take h i
  rw [BalarPort.handleResponse] at hrun
  cases hflush : s.flushToVcpu q.id with
  | some v =>
      simp only [hflush] at hrun
      cases hres : handleFlushResponse v q.id resp (h.take i) s with
      | error e =>
          rw [hres] at hrun
          cases hrun
      | ok res =>
          rw [hres] at hrun
          cases hrun
          exact handleFlushResponse_responded hok hi hq hflush hres
  | none =>
      simp only [hflush] at hrun
      cases hfp : s.pending q.id with
      | none =>
          rw [hfp] at hrun
          cases hrun
      | some fp =>
          simp only [hfp] at hrun
          obtain ⟨hinv, -⟩ := hi.answerPending hok hq hflush
          have hstays : ∀ u, Stays u h (h.take i) s
              { s with pending := Function.update s.pending q.id none } := fun u =>
            ⟨htake, rfl, rfl, fun _ _ _ hu => hu⟩
          by_cases hasync : fp.isAsync = true
          · rw [if_pos hasync] at hrun
            have hretire := retireAsync_responded (v := fp.vcpu) (hok.take i) hinv.toMapsOk
              (responseValue fp.isRead resp)
            rw [Option.some.inj (Except.ok.inj hrun)] at hretire
            exact hretire.after rfl rfl hstays
          · rw [if_neg hasync] at hrun
            cases hrun
            exact Responded.of_stays rfl (fun u => ⟨⟨htake.nextId, htake.old⟩, rfl, rfl,
              fun _ _ _ hu => hu⟩) fun u => doorbellWrites_eq_nil hinv.pending

end Quetz
