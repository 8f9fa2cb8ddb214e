import Quetz.BalarPort

/-!
# What a Port Owes Its vCPUs

A vCPU that rang a doorbell or reads a register is blocked until the port posts a response to
it. The port owes the response from one of three places: the armed doorbell, the doorbell
waiting for flushes, or a synchronous request in flight (`owed`). Every operation of the port
keeps the sum of what it owes a vCPU and what was posted to it, except that a command adds one
(`Moved.balance`). The fatal errors that report a second doorbell of a blocked vCPU, or a flush
without a doorbell, cannot occur while at most one response is owed (`PortFatal.Nested`).

## Main results

* `handleCommand_moved` / `processOne_moved` / `handleResponse_moved`: the three entry points.
-/

namespace Quetz

/-! ### Counting requests in flight -/

namespace Host

variable {h h' : Host}

/-- `h'` has the requests of `h` in flight and newer ones behind them, and it posted more. -/
structure Grows (h h' : Host) : Prop where
  nextId : h.nextId ≤ h'.nextId
  inFlight : ∃ news : List Request, h'.inFlight = h.inFlight ++ news ∧
    ∀ r ∈ news, h.nextId ≤ r.id
  posts : h.posts <+: h'.posts

theorem Grows.refl (h : Host) : Grows h h :=
  ⟨Nat.le_refl _, ⟨[], by simp, by simp⟩, List.prefix_refl _⟩

theorem Grows.trans {h₁ h₂ h₃ : Host} (h₁₂ : Grows h₁ h₂) (h₂₃ : Grows h₂ h₃) : Grows h₁ h₃ := by
  obtain ⟨hn₁, ⟨news₁, heq₁, hge₁⟩, hp₁⟩ := h₁₂
  obtain ⟨hn₂, ⟨news₂, heq₂, hge₂⟩, hp₂⟩ := h₂₃
  refine ⟨Nat.le_trans hn₁ hn₂, ⟨news₁ ++ news₂, by rw [heq₂, heq₁, List.append_assoc], ?_⟩,
    hp₁.trans hp₂⟩
  intro r hr
  rcases List.mem_append.mp hr with hr | hr
  · exact hge₁ r hr
  · exact Nat.le_trans hn₁ (hge₂ r hr)

theorem Grows.send (h : Host) (vcpu : ℕ) (link : Link) (body : Body) :
    Grows h (h.send vcpu link body) :=
  ⟨Nat.le_succ _, ⟨_, rfl, fun r hr => by rw [List.mem_singleton.mp hr]⟩, List.prefix_refl _⟩

theorem Grows.post (h : Host) (vcpu : ℕ) (value : UInt64) :
    Grows h (h.postResponse vcpu value) :=
  ⟨Nat.le_refl _, ⟨[], by simp [postResponse], by simp⟩, List.prefix_append ..⟩

theorem Grows.posted (hg : Grows h h') (v : ℕ) : h.posted v ≤ h'.posted v :=
  hg.posts.sublist.countP_le

/-- Counting after a send, with a predicate that agrees on the older requests. -/
theorem countP_send (q q' : Request → Bool) (vcpu : ℕ) (link : Link) (body : Body)
    (hq : ∀ r ∈ h.inFlight, q' r = q r) :
    (h.send vcpu link body).inFlight.countP q' =
      h.inFlight.countP q + if q' ⟨h.nextId, vcpu, link, body⟩ then 1 else 0 := by
  simp only [send, List.countP_append, List.countP_singleton]
  congr 1
  exact List.countP_congr fun r hr => by rw [hq r hr]

/-- Counting after an answer, with a predicate that agrees on the other requests. -/
theorem countP_take (hok : h.Ok) {i : ℕ} {r : Request} (hi : h.inFlight[i]? = some r)
    (q q' : Request → Bool) (hq : ∀ r' ∈ h.inFlight, r'.id ≠ r.id → q' r' = q r') :
    (h.take i).inFlight.countP q' + (if q r then 1 else 0) = h.inFlight.countP q := by
  obtain ⟨hperm, hne⟩ := hok.taken hi
  rw [← hperm.countP_eq, List.countP_cons]
  congr 1
  refine List.countP_congr fun r' hr' => ?_
  rw [hq r' (List.mem_of_mem_eraseIdx hr') (hne r' hr')]

/-- Counting in a host that grew, with a predicate that ignores the new requests. -/
theorem countP_grows (hg : Grows h h') (q : Request → Bool)
    (hq : ∀ r : Request, h.nextId ≤ r.id → q r = false) :
    h'.inFlight.countP q = h.inFlight.countP q := by
  obtain ⟨-, ⟨news, heq, hge⟩, -⟩ := hg
  rw [heq, List.countP_append, Nat.add_eq_left, List.countP_eq_zero]
  exact fun r hr => by rw [hq r (hge r hr)]; decide

end Host

/-! ### What a port owes -/

/-- The errors of a second doorbell or a flush without one. -/
def PortFatal.Nested : PortFatal → Prop
  | .nestedArmed _ | .nestedFlush _ | .nestedSubmit | .flushWithoutContext _ => True
  | _ => False

namespace BalarPort

/-- The request is a synchronous one whose answer goes to the vCPU. -/
def syncHeld (s : BalarPort) (v : ℕ) (r : Request) : Bool :=
  match s.pending r.id with
  | some fp => fp.vcpu == v && !fp.isAsync
  | none => false

/-- The request is a flush for a doorbell of the vCPU. -/
def flushHeld (s : BalarPort) (v : ℕ) (r : Request) : Bool := s.flushToVcpu r.id == some v

/-- The responses the port owes the vCPU. -/
def owed (h : Host) (s : BalarPort) (v : ℕ) : ℕ :=
  (s.armedDoorbells v).toList.length + (s.doorbellFlushes v).toList.length +
    h.inFlight.countP (s.syncHeld v)

/-- The port's maps know only requests that were sent, each in one role. -/
structure MapsOk (h : Host) (s : BalarPort) : Prop where
  pending : ∀ id, h.nextId ≤ id → s.pending id = none
  flush : ∀ id, h.nextId ≤ id → s.flushToVcpu id = none
  role : ∀ id v, s.flushToVcpu id = some v → s.pending id = none
  body : ∀ r ∈ h.inFlight, ∀ v, s.flushToVcpu r.id = some v →
    ∃ line size, r.body = .flushAddr line size

/-- The flushes in flight for a vCPU are the ones its doorbell waits for. -/
structure PortInv (h : Host) (s : BalarPort) : Prop extends MapsOk h s where
  remaining : ∀ v, (s.doorbellFlushes v).elim 0 FlushCtx.remaining =
    h.inFlight.countP (s.flushHeld v)
  remaining_pos : ∀ v ctx, s.doorbellFlushes v = some ctx → 0 < ctx.remaining
  armed : ∀ v a, s.armedDoorbells v = some a → a.preAcked = false
  acked : ∀ v ctx, s.doorbellFlushes v = some ctx → ctx.preAcked = false

/-- A step of the port from the host `h` to `h'` and `s'`: the invariants hold again, others see
only new requests, and what is owed or posted to each vCPU is `total`. -/
structure Moved (h h' : Host) (s' : BalarPort) (total : ℕ → ℕ) : Prop where
  ok : h'.Ok
  inv : PortInv h' s'
  grows : h.Grows h'
  balance : ∀ u, owed h' s' u + h'.posted u = total u

/-- The outcome of an operation: a step, or an error that is not `Nested`. -/
def Sound (h : Host) (total : ℕ → ℕ) : Except PortFatal (Host × BalarPort) → Prop
  | .ok (h', s') => Moved h h' s' total
  | .error e => ¬e.Nested

theorem Sound.of_moved {h : Host} {r : Host × BalarPort} {total : ℕ → ℕ}
    (hm : Moved h r.1 r.2 total) : Sound h total (.ok r) := hm

/-- A step after sends of the port's own. -/
theorem Moved.after {h₀ h h' : Host} {s' : BalarPort} {total total₀ : ℕ → ℕ}
    (hm : Moved h h' s' total) (hg : h₀.Grows h) (ht : ∀ u, total u = total₀ u) :
    Moved h₀ h' s' total₀ :=
  ⟨hm.ok, hm.inv, hg.trans hm.grows, fun u => (hm.balance u).trans (ht u)⟩

variable {h : Host} {s : BalarPort} {v : ℕ}

/-- Two ports that agree on the three places owe the same. -/
theorem owed_congr {s' : BalarPort} (ha : s'.armedDoorbells = s.armedDoorbells)
    (hf : s'.doorbellFlushes = s.doorbellFlushes) (hp : s'.pending = s.pending) (u : ℕ) :
    owed h s' u = owed h s u := by
  have hheld : s'.syncHeld u = s.syncHeld u := by
    funext r
    simp only [syncHeld, hp]
  simp only [owed, ha, hf, hheld]

/-- A doorbell starts to wait for flushes. -/
theorem owed_setFlush (hnone : s.doorbellFlushes v = none) (ctx : FlushCtx) (u : ℕ) :
    owed h { s with doorbellFlushes := Function.update s.doorbellFlushes v (some ctx) } u =
      owed h s u + if v = u then 1 else 0 := by
  have hheld : h.inFlight.countP (BalarPort.syncHeld { s with
    doorbellFlushes := Function.update s.doorbellFlushes v (some ctx) } u) =
      h.inFlight.countP (s.syncHeld u) := rfl
  simp only [owed, hheld]
  by_cases hu : v = u
  · subst hu
    simp [hnone]
    omega
  · simp [Function.update_of_ne (Ne.symm hu), hu]

/-- A doorbell no longer waits for flushes. -/
theorem owed_clearFlush {ctx : FlushCtx} (hsome : s.doorbellFlushes v = some ctx) (u : ℕ) :
    owed h { s with doorbellFlushes := Function.update s.doorbellFlushes v none } u +
      (if v = u then 1 else 0) = owed h s u := by
  have hheld : h.inFlight.countP (BalarPort.syncHeld { s with
    doorbellFlushes := Function.update s.doorbellFlushes v none } u) =
      h.inFlight.countP (s.syncHeld u) := rfl
  simp only [owed, hheld]
  by_cases hu : v = u
  · subst hu
    simp [hsome]
    omega
  · simp [Function.update_of_ne (Ne.symm hu), hu]

/-- A doorbell is armed. -/
theorem owed_arm (hnone : s.armedDoorbells v = none) (a : ArmedDoorbell) (u : ℕ) :
    owed h { s with armedDoorbells := Function.update s.armedDoorbells v (some a) } u =
      owed h s u + if v = u then 1 else 0 := by
  have hheld : h.inFlight.countP (BalarPort.syncHeld { s with
    armedDoorbells := Function.update s.armedDoorbells v (some a) } u) =
      h.inFlight.countP (s.syncHeld u) := rfl
  simp only [owed, hheld]
  by_cases hu : v = u
  · subst hu
    simp [hnone]
    omega
  · simp [Function.update_of_ne (Ne.symm hu), hu]

/-- A doorbell is no longer armed. -/
theorem owed_disarm {a : ArmedDoorbell} (hsome : s.armedDoorbells v = some a) (u : ℕ) :
    owed h { s with armedDoorbells := Function.update s.armedDoorbells v none } u +
      (if v = u then 1 else 0) = owed h s u := by
  have hheld : h.inFlight.countP (BalarPort.syncHeld { s with
    armedDoorbells := Function.update s.armedDoorbells v none } u) =
      h.inFlight.countP (s.syncHeld u) := rfl
  simp only [owed, hheld]
  by_cases hu : v = u
  · subst hu
    simp [hsome]
    omega
  · simp [Function.update_of_ne (Ne.symm hu), hu]

/-- The invariant only reads five maps. -/
theorem PortInv.congr {s' : BalarPort} (hi : PortInv h s)
    (ha : s'.armedDoorbells = s.armedDoorbells) (hf : s'.doorbellFlushes = s.doorbellFlushes)
    (hp : s'.pending = s.pending) (ht : s'.flushToVcpu = s.flushToVcpu) : PortInv h s' := by
  obtain ⟨⟨h₁, h₂, h₃, h₄⟩, h₅, h₆, h₇, h₈⟩ := hi
  have hheld : s'.flushHeld = s.flushHeld := by
    funext u r
    simp only [flushHeld, ht]
  refine ⟨⟨?_, ?_, ?_, ?_⟩, ?_, ?_, ?_, ?_⟩
  · rwa [hp]
  · rwa [ht]
  · rwa [hp, ht]
  · rwa [ht]
  · rwa [hf, hheld]
  · rwa [hf]
  · rwa [ha]
  · rwa [hf]

/-- Posting a response changes the host's log only. -/
theorem PortInv.post (hi : PortInv h s) (vcpu : ℕ) (value : UInt64) :
    PortInv (h.postResponse vcpu value) s := by
  obtain ⟨⟨h₁, h₂, h₃, h₄⟩, h₅, h₆, h₇, h₈⟩ := hi
  exact ⟨⟨h₁, h₂, h₃, h₄⟩, h₅, h₆, h₇, h₈⟩

theorem owed_post (vcpu : ℕ) (value : UInt64) (u : ℕ) :
    owed (h.postResponse vcpu value) s u = owed h s u := rfl

/-! ### Forwarding a doorbell -/

/-- Sending a request of the port and entering it into `pending`. -/
theorem send_pending (hok : h.Ok) (hi : PortInv h s) (link : Link) (body : Body)
    (fp : ForwardPending) {t : BalarPort} (ha : t.armedDoorbells = s.armedDoorbells)
    (hf : t.doorbellFlushes = s.doorbellFlushes) (ht : t.flushToVcpu = s.flushToVcpu)
    (hp : t.pending = Function.update s.pending h.nextId (some fp)) :
    Moved h (h.send fp.vcpu link body) t fun u =>
      owed h s u + h.posted u + if fp.vcpu = u ∧ fp.isAsync = false then 1 else 0 := by
  have hold : ∀ r ∈ h.inFlight, t.pending r.id = s.pending r.id := fun r hr => by
    rw [hp]
    exact Function.update_of_ne (Nat.ne_of_lt (hok.fresh r hr)) _ _
  have hnew : t.pending h.nextId = some fp := by
    rw [hp]
    exact Function.update_self ..
  refine ⟨hok.send _ _ _, ⟨⟨?_, ?_, ?_, ?_⟩, ?_, ?_, ?_, ?_⟩, Host.Grows.send .., ?_⟩
  · intro id hid
    have hid : h.nextId + 1 ≤ id := hid
    rw [hp, Function.update_of_ne (by omega)]
    exact hi.pending id (by omega)
  · intro id hid
    have hid : h.nextId + 1 ≤ id := hid
    rw [ht]
    exact hi.flush id (by omega)
  · intro id u hu
    rw [ht] at hu
    have hne : id ≠ h.nextId := fun heq => by
      rw [heq, hi.flush h.nextId (Nat.le_refl _)] at hu
      cases hu
    rw [hp, Function.update_of_ne hne]
    exact hi.role id u hu
  · intro r hr u hu
    rw [ht] at hu
    rcases List.mem_append.mp hr with hr | hr
    · exact hi.body r hr u hu
    · rw [List.mem_singleton.mp hr, hi.flush h.nextId (Nat.le_refl _)] at hu
      cases hu
  · intro u
    rw [hf, hi.remaining u, Host.countP_send (s.flushHeld u) (t.flushHeld u)]
    · simp [flushHeld, ht, hi.flush h.nextId (Nat.le_refl _)]
    · intro r _
      simp only [flushHeld, ht]
  · rw [hf]
    exact hi.remaining_pos
  · rw [ha]
    exact hi.armed
  · rw [hf]
    exact hi.acked
  · intro u
    have hcount : (h.send fp.vcpu link body).inFlight.countP (t.syncHeld u) =
        h.inFlight.countP (s.syncHeld u) +
          if fp.vcpu = u ∧ fp.isAsync = false then 1 else 0 := by
      rw [Host.countP_send (s.syncHeld u) (t.syncHeld u)]
      · simp [syncHeld, hnew]
      · intro r hr
        simp only [syncHeld, hold r hr]
    simp only [owed, ha, hf, hcount, Host.posted_send]
    omega

/-- A forwarded doorbell is owed, unless it is acknowledged here or was before. -/
theorem forwardDoorbell_moved (hok : h.Ok) (hi : PortInv h s) (req : Doorbell)
    (isAsync preAcked : Bool) (hpre : isAsync = false → preAcked = false) :
    Moved h (forwardDoorbell v req isAsync preAcked h s).1
      (forwardDoorbell v req isAsync preAcked h s).2 fun u =>
        owed h s u + h.posted u + if v = u ∧ preAcked = false then 1 else 0 := by
  rw [forwardDoorbell]
  by_cases hbusy : (isAsync && s.asyncBusy v) = true
  · rw [if_pos hbusy]
    set s₁ : BalarPort := { s with
      submitQueue := Function.update s.submitQueue v (s.submitQueue v ++ [req]) }
    have hinv : PortInv h s₁ := hi.congr rfl rfl rfl rfl
    have howed : ∀ u, owed h s₁ u = owed h s u := owed_congr rfl rfl rfl
    cases preAcked with
    | true => exact ⟨hok, hinv, Host.Grows.refl h, fun u => by simp [howed u]⟩
    | false =>
        refine ⟨hok.post v 0, hinv.post v 0, Host.Grows.post .., fun u => ?_⟩
        simp only [Bool.false_eq_true, if_false, owed_post, Host.posted_postResponse, howed u,
          and_true]
        omega
  · rw [if_neg hbusy]
    have hsend := send_pending hok hi .mmio (.write req.addr req.size req.data)
      ⟨v, false, isAsync⟩ (t := { s with
        asyncBusy := if isAsync then Function.update s.asyncBusy v true else s.asyncBusy
        pending := Function.update s.pending h.nextId (some ⟨v, false, isAsync⟩)
        dispatched := if isAsync then s.dispatched ++ [h.nextId] else s.dispatched })
      rfl rfl rfl rfl
    obtain ⟨hok', hinv', hgrows', hbal'⟩ := hsend
    cases isAsync with
    | false =>
        obtain rfl : preAcked = false := hpre rfl
        exact ⟨hok', hinv', hgrows', fun u => by simpa using hbal' u⟩
    | true =>
        cases preAcked with
        | true => exact ⟨hok', hinv', hgrows', fun u => by simpa using hbal' u⟩
        | false =>
            refine ⟨hok'.post v 0, hinv'.post v 0, hgrows'.trans (Host.Grows.post ..), fun u => ?_⟩
            have hu := hbal' u
            simp only [Bool.true_and, Bool.not_false, if_true, owed_post,
              Host.posted_postResponse, and_true] at hu ⊢
            simp only [Bool.true_eq_false, and_false, if_false, Nat.add_zero] at hu
            omega

/-! ### Flushing -/

/-- What `count` flushes for the vCPU do to the host and to `flushToVcpu`. -/
structure Flushed (v count : ℕ) (h : Host) (s : BalarPort) (h' : Host) (s' : BalarPort) :
    Prop where
  ok : h'.Ok
  maps : MapsOk h' s'
  grows : h.Grows h'
  posts : h'.posts = h.posts
  others : ∃ t, s' = { s with flushToVcpu := t }
  flushes : ∀ u, h'.inFlight.countP (s'.flushHeld u) =
    h.inFlight.countP (s.flushHeld u) + if v = u then count else 0
  held : ∀ u, h'.inFlight.countP (s'.syncHeld u) = h.inFlight.countP (s.syncHeld u)

theorem Flushed.refl (hok : h.Ok) (hm : MapsOk h s) : Flushed v 0 h s h s :=
  ⟨hok, hm, Host.Grows.refl h, rfl, ⟨_, rfl⟩, fun u => by simp, fun _ => rfl⟩

theorem Flushed.trans {n m : ℕ} {h₁ h₂ h₃ : Host} {s₁ s₂ s₃ : BalarPort}
    (h₁₂ : Flushed v n h₁ s₁ h₂ s₂) (h₂₃ : Flushed v m h₂ s₂ h₃ s₃) :
    Flushed v (n + m) h₁ s₁ h₃ s₃ := by
  obtain ⟨t₁, ht₁⟩ := h₁₂.others
  obtain ⟨t₂, ht₂⟩ := h₂₃.others
  refine ⟨h₂₃.ok, h₂₃.maps, h₁₂.grows.trans h₂₃.grows, h₂₃.posts.trans h₁₂.posts,
    ⟨t₂, by rw [ht₂, ht₁]⟩, fun u => ?_, fun u => (h₂₃.held u).trans (h₁₂.held u)⟩
  rw [h₂₃.flushes u, h₁₂.flushes u]
  split_ifs <;> omega

/-- One flush. -/
theorem send_flush (hok : h.Ok) (hm : MapsOk h s) (v : ℕ) (line lineSize : UInt64) :
    Flushed v 1 h s (h.send v .mem (.flushAddr line lineSize))
      { s with flushToVcpu := Function.update s.flushToVcpu h.nextId (some v) } := by
  have hold : ∀ r ∈ h.inFlight, Function.update s.flushToVcpu h.nextId (some v) r.id =
      s.flushToVcpu r.id := fun r hr =>
    Function.update_of_ne (Nat.ne_of_lt (hok.fresh r hr)) _ _
  refine ⟨hok.send _ _ _, ⟨?_, ?_, ?_, ?_⟩, Host.Grows.send .., rfl, ⟨_, rfl⟩, ?_, ?_⟩
  · intro id hid
    have hid : h.nextId + 1 ≤ id := hid
    exact hm.pending id (by omega)
  · intro id hid
    have hid : h.nextId + 1 ≤ id := hid
    simp only [Function.update_of_ne (show id ≠ h.nextId by omega)]
    exact hm.flush id (by omega)
  · intro id u hu
    by_cases hid : id = h.nextId
    · rw [hid]
      exact hm.pending h.nextId (Nat.le_refl _)
    · simp only [Function.update_of_ne hid] at hu
      exact hm.role id u hu
  · intro r hr u hu
    rcases List.mem_append.mp hr with hr | hr
    · simp only [hold r hr] at hu
      exact hm.body r hr u hu
    · rw [List.mem_singleton.mp hr]
      exact ⟨line, lineSize, rfl⟩
  · intro u
    rw [Host.countP_send (s.flushHeld u)]
    · simp [flushHeld]
    · intro r hr
      simp only [flushHeld, hold r hr]
  · intro u
    rw [Host.countP_send (s.syncHeld u)]
    · simp [syncHeld, hm.pending h.nextId (Nat.le_refl _)]
    · intro r _
      rfl

/-- The loop over the lines. -/
theorem issueFlushes_flushed (lineSize : UInt64) : ∀ (count : ℕ) (line : UInt64) {h : Host}
    {s : BalarPort}, h.Ok → MapsOk h s →
    match issueFlushes v lineSize count line h s with
    | .ok (h', s') => Flushed v count h s h' s'
    | .error e => e = .lineOverflow v
  | 0, _, _, _, hok, hm => Flushed.refl hok hm
  | count + 1, line, h, s, hok, hm => by
    have hone := send_flush hok hm v line lineSize
    rw [issueFlushes]
    by_cases hlast : count = 0
    · rw [if_pos hlast, hlast]
      exact hone
    rw [if_neg hlast]
    by_cases hover : line > 0 - 1 - lineSize
    · rw [if_pos hover]
    · rw [if_neg hover]
      have ih := issueFlushes_flushed lineSize count (line + lineSize) hone.ok hone.maps
      revert ih
      cases issueFlushes v lineSize count (line + lineSize)
        (h.send v .mem (.flushAddr line lineSize))
        { s with flushToVcpu := Function.update s.flushToVcpu h.nextId (some v) } with
      | error e => exact id
      | ok r =>
          intro ih
          rw [Nat.add_comm]
          exact hone.trans ih

/-- The invariants after flushes that nobody waits for yet, for the other vCPUs. -/
theorem Flushed.owed {count : ℕ} {h' : Host} {s' : BalarPort} (hf : Flushed v count h s h' s')
    (u : ℕ) : owed h' s' u = owed h s u := by
  obtain ⟨t, ht⟩ := hf.others
  have harmed : s'.armedDoorbells = s.armedDoorbells := by rw [ht]
  have hflush : s'.doorbellFlushes = s.doorbellFlushes := by rw [ht]
  simp only [BalarPort.owed, harmed, hflush, hf.held u]

/-- Setting what the doorbell of one vCPU waits for. -/
theorem MapsOk.setFlush (hm : MapsOk h s) {ctx : Option FlushCtx}
    (harmed : ∀ u a, s.armedDoorbells u = some a → a.preAcked = false)
    (hold : ∀ u c, s.doorbellFlushes u = some c → 0 < c.remaining ∧ c.preAcked = false)
    (hothers : ∀ u, v ≠ u → (s.doorbellFlushes u).elim 0 FlushCtx.remaining =
      h.inFlight.countP (s.flushHeld u))
    (hctx : ∀ c, ctx = some c → 0 < c.remaining ∧ c.preAcked = false)
    (hself : ctx.elim 0 FlushCtx.remaining = h.inFlight.countP (s.flushHeld v)) :
    PortInv h { s with doorbellFlushes := Function.update s.doorbellFlushes v ctx } := by
  have hcases : ∀ u c, Function.update s.doorbellFlushes v ctx u = some c →
      0 < c.remaining ∧ c.preAcked = false := by
    intro u c hc
    by_cases huv : u = v
    · rw [huv, Function.update_self] at hc
      exact hctx c hc
    · rw [Function.update_of_ne huv] at hc
      exact hold u c hc
  refine ⟨⟨hm.pending, hm.flush, hm.role, hm.body⟩, fun u => ?_, fun u c hc => (hcases u c hc).1,
    harmed, fun u c hc => (hcases u c hc).2⟩
  by_cases huv : v = u
  · subst huv
    simp only [Function.update_self]
    exact hself
  · simp only [Function.update_of_ne (Ne.symm huv)]
    exact hothers u huv

/-- A doorbell in hand becomes one that waits for its flushes, or is forwarded. -/
theorem issueDoorbellFlushes_moved (c : BalarConfig) (hok : h.Ok) (hi : PortInv h s)
    (hnone : s.doorbellFlushes v = none) (req : Doorbell) (isAsync : Bool) :
    Sound h (fun u => owed h s u + h.posted u + if v = u then 1 else 0)
      (issueDoorbellFlushes c v req isAsync false h s) := by
  rw [issueDoorbellFlushes]
  rw [if_neg (by simp [hnone])]
  dsimp only
  generalize computeBalarFlushRange (accelDataToU64 req.data)
    (if c.flushEnabled = true then c.packetFlushBytes else 0) c.cacheLineSize = range
  cases range with
  | none => exact fun hn => hn
  | some range =>
      dsimp only
      by_cases hmany : range.lineCount > 0xffffffff
      · rw [if_pos hmany]
        exact fun hn => hn
      rw [if_neg hmany]
      have hflushes := issueFlushes_flushed (v := v) c.cacheLineSize range.lineCount.toNat
        range.firstLine hok hi.toMapsOk
      revert hflushes
      cases issueFlushes v c.cacheLineSize range.lineCount.toNat range.firstLine h s with
      | error e =>
          intro he
          rw [show e = .lineOverflow v from he]
          exact fun hn => hn
      | ok r =>
          obtain ⟨h', s'⟩ := r
          intro hf
          have hf : Flushed v range.lineCount.toNat h s h' s' := hf
          obtain ⟨t, ht⟩ := hf.others
          have hposted : ∀ u, h'.posted u = h.posted u := fun u => by
            rw [Host.posted, Host.posted, hf.posts]
          have hctx : s'.doorbellFlushes = s.doorbellFlushes := by rw [ht]
          have harmed : s'.armedDoorbells = s.armedDoorbells := by rw [ht]
          dsimp only
          by_cases hzero : range.lineCount = 0
          · -- No line to flush: the doorbell is forwarded at once.
            rw [if_pos hzero]
            have hcount : range.lineCount.toNat = 0 := by rw [hzero]; rfl
            have hinv : PortInv h' s' := by
              refine ⟨hf.maps, fun u => ?_, by rw [hctx]; exact hi.remaining_pos,
                by rw [harmed]; exact hi.armed, by rw [hctx]; exact hi.acked⟩
              rw [hctx, hi.remaining u, hf.flushes u, hcount]
              simp
            have hfwd := forwardDoorbell_moved (v := v) hf.ok hinv req isAsync false fun _ => rfl
            refine Sound.of_moved (hfwd.after hf.grows fun u => ?_)
            rw [hf.owed u, hposted u]
            simp only [and_true]
          · rw [if_neg hzero]
            have hpos : 0 < range.lineCount.toNat := by
              refine Nat.pos_of_ne_zero fun h0 => hzero ?_
              exact UInt64.toNat_inj.mp h0
            refine ⟨hf.ok, ?_, hf.grows, ?_⟩
            · refine hf.maps.setFlush (by rw [harmed]; exact hi.armed) (fun u c hc => ?_)
                (fun u hu => ?_) (fun c hc => ?_) ?_
              · rw [hctx] at hc
                exact ⟨hi.remaining_pos u c hc, hi.acked u c hc⟩
              · rw [hctx, hi.remaining u, hf.flushes u, if_neg hu, Nat.add_zero]
              · rw [← Option.some.inj hc]
                exact ⟨hpos, rfl⟩
              · rw [hf.flushes v, ← hi.remaining v, hnone, if_pos rfl]
                simp
            · intro u
              rw [owed_setFlush (by rw [hctx]; exact hnone), hf.owed u, hposted u]
              omega

/-! ### The entry points -/

/-- Arming and disarming does not touch the flushes. -/
theorem PortInv.setArmed (hi : PortInv h s) (a : Option ArmedDoorbell)
    (hacked : ∀ d, a = some d → d.preAcked = false) :
    PortInv h { s with armedDoorbells := Function.update s.armedDoorbells v a } := by
  obtain ⟨⟨h₁, h₂, h₃, h₄⟩, h₅, h₆, h₇, h₈⟩ := hi
  refine ⟨⟨h₁, h₂, h₃, h₄⟩, h₅, h₆, fun u d hu => ?_, h₈⟩
  by_cases huv : u = v
  · subst huv
    simp only [Function.update_self] at hu
    exact hacked d hu
  · simp only [Function.update_of_ne huv] at hu
    exact h₇ u d hu

/-- One turn of `process`. -/
theorem processOne_moved (c : BalarConfig) (drained : ℕ → Bool) (hok : h.Ok) (hi : PortInv h s)
    (hone : owed h s v ≤ 1) :
    Sound h (fun u => owed h s u + h.posted u) (processOne c drained v h s) := by
  rw [processOne]
  cases harmed : s.armedDoorbells v with
  | none => exact ⟨hok, hi, Host.Grows.refl h, fun _ => rfl⟩
  | some a =>
      dsimp only
      by_cases hdrained : drained v = true
      · rw [if_pos hdrained]
        have hnone : s.doorbellFlushes v = none := by
          cases hf : s.doorbellFlushes v with
          | none => rfl
          | some ctx =>
              simp [owed, harmed, hf] at hone
              omega
        have hpre : a.preAcked = false := hi.armed v a harmed
        have hmoved := issueDoorbellFlushes_moved (v := v)
          (s := { s with armedDoorbells := Function.update s.armedDoorbells v none }) c hok
          (hi.setArmed none (by simp)) hnone a.req a.isAsync
        have htotal : (fun u => owed h { s with
            armedDoorbells := Function.update s.armedDoorbells v none } u + h.posted u +
              if v = u then 1 else 0) = fun u => owed h s u + h.posted u := by
          funext u
          rw [← owed_disarm (h := h) harmed u]
          omega
        rw [hpre]
        rw [htotal] at hmoved
        exact hmoved
      · rw [if_neg hdrained]
        exact ⟨hok, hi, Host.Grows.refl h, fun _ => rfl⟩

/-- The async engine belongs to the vCPU from here on. -/
theorem claimAsync_ok {s₁ : BalarPort} (hc : claimAsync v s = .ok s₁) :
    s₁ = { s with asyncVcpu := some v } := by
  rw [claimAsync] at hc
  cases hv : s.asyncVcpu with
  | none =>
      simp only [hv] at hc
      exact (Except.ok.inj hc).symm
  | some first =>
      simp only [hv] at hc
      split_ifs at hc with heq
      rw [← Except.ok.inj hc, heq, ← hv]

theorem claimAsync_error {e : PortFatal} (hc : claimAsync v s = .error e) : ¬e.Nested := by
  rw [claimAsync] at hc
  cases hv : s.asyncVcpu with
  | none => simp [hv] at hc
  | some first =>
      simp only [hv] at hc
      split_ifs at hc
      cases hc
      exact fun hn => hn

/-- A command the port owns, of a vCPU that is owed nothing. -/
theorem handleCommand_moved (c : BalarConfig) (hok : h.Ok) (hi : PortInv h s)
    (hzero : owed h s v = 0) {cmd : QuetzCommand}
    (hcmd : cmd.cmd = .mmioReadReq ∨ cmd.cmd = .mmioWriteReq) :
    Sound h (fun u => owed h s u + h.posted u + if v = u then 1 else 0)
      (handleCommand c v cmd h s) := by
  have harmed : s.armedDoorbells v = none := by
    cases ha : s.armedDoorbells v with
    | none => rfl
    | some a => simp [owed, ha] at hzero
  have hflush : s.doorbellFlushes v = none := by
    cases hf : s.doorbellFlushes v with
    | none => rfl
    | some ctx => simp [owed, hf] at hzero
  -- The three ways to answer: post at once, arm a doorbell, send a request.
  have hpost : ∀ (value : UInt64) (s' : BalarPort), s'.armedDoorbells = s.armedDoorbells →
      s'.doorbellFlushes = s.doorbellFlushes → s'.pending = s.pending →
      s'.flushToVcpu = s.flushToVcpu →
      Moved h (h.postResponse v value) s' fun u =>
        owed h s u + h.posted u + if v = u then 1 else 0 := by
    intro value s' ha hf hp ht
    refine ⟨hok.post v value, (hi.congr ha hf hp ht).post v value, Host.Grows.post .., fun u => ?_⟩
    rw [owed_post, Host.posted_postResponse, owed_congr ha hf hp u]
    omega
  have harm : ∀ (d : Doorbell) (isAsync : Bool) (s' : BalarPort),
      s'.armedDoorbells = s.armedDoorbells → s'.doorbellFlushes = s.doorbellFlushes →
      s'.pending = s.pending → s'.flushToVcpu = s.flushToVcpu →
      Moved h h { s' with
        armedDoorbells := Function.update s'.armedDoorbells v (some ⟨d, isAsync, false⟩) }
        fun u => owed h s u + h.posted u + if v = u then 1 else 0 := by
    intro d isAsync s' ha hf hp ht
    refine ⟨hok, (hi.congr ha hf hp ht).setArmed _ (fun a h => by rw [← Option.some.inj h]),
      Host.Grows.refl h, fun u => ?_⟩
    rw [owed_arm (by rw [ha]; exact harmed), owed_congr ha hf hp u]
    omega
  rw [handleCommand]
  by_cases hasync : inAsync c cmd.addr = true
  · rw [if_pos hasync, handleAsyncAperture]
    cases hclaim : claimAsync v s with
    | error e => exact claimAsync_error hclaim
    | ok s₁ =>
        obtain rfl := claimAsync_ok hclaim
        dsimp only
        rcases hcmd with hcmd | hcmd
        · rw [hcmd]
          exact hpost _ _ rfl rfl rfl rfl
        · rw [hcmd]
          dsimp only
          by_cases hoff : cmd.addr - c.asyncDoorbellAddr ≠ ASYNC_REG_SUBMIT
          · rw [if_pos hoff]
            exact hpost _ _ rfl rfl rfl rfl
          rw [if_neg hoff, submit]
          by_cases hcfg : c.doorbellAddr = 0 ∨ (!c.hasMem v) = true
          · rw [if_pos hcfg]
            exact fun hn => hn
          rw [if_neg hcfg]
          by_cases hdepth : s.asyncInFlight + 1 > c.asyncCompletionDepth
          · rw [if_pos hdepth]
            exact fun hn => hn
          rw [if_neg hdepth]
          dsimp only
          rw [if_neg (by rw [harmed, hflush]; simp)]
          exact harm _ true { s with
            asyncVcpu := some v
            submitId := Function.update s.submitId v (s.submitId v + 1)
            asyncInFlight := s.asyncInFlight + 1
            submits := s.submits ++ [cmd.data.take cmd.size] } rfl rfl rfl rfl
  · rw [if_neg hasync]
    rcases hcmd with hcmd | hcmd
    · rw [hcmd]
      have hsend := send_pending hok hi .mmio (.read cmd.addr cmd.size) ⟨v, true, false⟩
        (t := { s with
          pending := Function.update s.pending h.nextId (some ⟨v, true, false⟩) }) rfl rfl rfl rfl
      refine Sound.of_moved (hsend.after (Host.Grows.refl h) fun u => ?_)
      simp
    · rw [hcmd]
      dsimp only
      split_ifs with hfwd hnest
      · have hmoved := forwardDoorbell_moved (v := v) hok hi
          ⟨cmd.addr, cmd.size, cmd.data.take cmd.size⟩ false false fun _ => rfl
        refine Sound.of_moved (hmoved.after (Host.Grows.refl h) fun u => ?_)
        simp
      · rw [harmed] at hnest
        cases hnest
      · exact harm _ false s rfl rfl rfl rfl

/-! ### Responses -/

section Answer

variable {i : ℕ} {r : Request}

/-- The answer to a request in `pending` takes it out. -/
theorem PortInv.answerPending (hok : h.Ok) (hi : PortInv h s) (hr : h.inFlight[i]? = some r)
    (hflush : s.flushToVcpu r.id = none) :
    PortInv (h.take i) { s with pending := Function.update s.pending r.id none } ∧
      ∀ u, owed (h.take i) { s with pending := Function.update s.pending r.id none } u +
        (if s.syncHeld u r then 1 else 0) = owed h s u := by
  constructor
  · refine ⟨⟨fun id hid => ?_, hi.flush, fun id u hu => ?_,
      fun r' hr' => hi.body r' (List.mem_of_mem_eraseIdx hr')⟩, fun u => ?_, hi.remaining_pos,
      hi.armed, hi.acked⟩
    · by_cases hid' : id = r.id
      · rw [hid']
        exact Function.update_self ..
      · simp only [Function.update_of_ne hid']
        exact hi.pending id hid
    · by_cases hid' : id = r.id
      · rw [hid']
        exact Function.update_self ..
      · simp only [Function.update_of_ne hid']
        exact hi.role id u hu
    · rw [hi.remaining u, ← Host.countP_take hok hr (s.flushHeld u) (s.flushHeld u)
        fun _ _ _ => rfl]
      simp only [flushHeld, hflush]
      rfl
  · intro u
    have hcount := Host.countP_take hok hr (s.syncHeld u)
      (BalarPort.syncHeld { s with pending := Function.update s.pending r.id none } u)
      fun r' _ hne => by simp only [syncHeld, Function.update_of_ne hne]
    simp only [owed]
    omega

/-- The answer to a flush takes it out. -/
theorem MapsOk.answerFlush (hok : h.Ok) (hm : MapsOk h s) (hr : h.inFlight[i]? = some r)
    (hflush : s.flushToVcpu r.id = some v) :
    MapsOk (h.take i) { s with flushToVcpu := Function.update s.flushToVcpu r.id none } ∧
      (∀ u, (h.take i).inFlight.countP (BalarPort.flushHeld
          { s with flushToVcpu := Function.update s.flushToVcpu r.id none } u) +
        (if v = u then 1 else 0) = h.inFlight.countP (s.flushHeld u)) ∧
      ∀ u, (h.take i).inFlight.countP (s.syncHeld u) = h.inFlight.countP (s.syncHeld u) := by
  refine ⟨⟨hm.pending, fun id hid => ?_, fun id u hu => ?_, fun r' hr' u hu => ?_⟩, fun u => ?_,
    fun u => ?_⟩
  · by_cases hid' : id = r.id
    · rw [hid']
      exact Function.update_self ..
    · simp only [Function.update_of_ne hid']
      exact hm.flush id hid
  · by_cases hid' : id = r.id
    · simp only [hid', Function.update_self] at hu
      cases hu
    · simp only [Function.update_of_ne hid'] at hu
      exact hm.role id u hu
  · by_cases hid' : r'.id = r.id
    · simp only [hid', Function.update_self] at hu
      cases hu
    · simp only [Function.update_of_ne hid'] at hu
      exact hm.body r' (List.mem_of_mem_eraseIdx hr') u hu
  · have hcount := Host.countP_take hok hr (s.flushHeld u) (BalarPort.flushHeld
        { s with flushToVcpu := Function.update s.flushToVcpu r.id none } u)
      fun r' _ hne => by simp only [flushHeld, Function.update_of_ne hne]
    rw [← hcount]
    simp [flushHeld, hflush]
  · rw [← Host.countP_take hok hr (s.syncHeld u) (s.syncHeld u) fun _ _ _ => rfl]
    simp [syncHeld, hm.role r.id v hflush]

/-- The answer to a flush: one fewer to wait for, or the doorbell is forwarded. -/
theorem handleFlushResponse_moved (hok : h.Ok) (hi : PortInv h s) (hr : h.inFlight[i]? = some r)
    (hflush : s.flushToVcpu r.id = some v) (data : List UInt8) :
    Sound (h.take i) (fun u => owed h s u + h.posted u)
      (handleFlushResponse v r.id (r.body.response data) (h.take i) s) := by
  obtain ⟨hmaps, hflushes, hheld⟩ := hi.toMapsOk.answerFlush hok hr hflush
  obtain ⟨line, size, hbody⟩ := hi.body r (List.mem_of_getElem? hr) v hflush
  set s₁ : BalarPort := { s with flushToVcpu := Function.update s.flushToVcpu r.id none } with hs₁
  have howed : ∀ u, owed (h.take i) s₁ u = owed h s u := fun u => by
    have hheld : (h.take i).inFlight.countP (s₁.syncHeld u) = h.inFlight.countP (s.syncHeld u) :=
      hheld u
    simp only [owed]
    rw [hheld]
  simp only [handleFlushResponse]
  cases hctx : s.doorbellFlushes v with
  | none =>
      -- The flush in flight is one the doorbell of `v` waits for.
      have hcount := hi.remaining v
      have hone := hflushes v
      rw [hctx] at hcount
      simp only [Option.elim_none, if_true] at hcount hone
      omega
  | some ctx =>
      have hpre : ctx.preAcked = false := hi.acked v ctx hctx
      have hrem : ctx.remaining = h.inFlight.countP (s.flushHeld v) := by
        have := hi.remaining v
        rwa [hctx] at this
      have hctx₁ : s₁.doorbellFlushes v = some ctx := hctx
      have hold : ∀ u c, s₁.doorbellFlushes u = some c → 0 < c.remaining ∧ c.preAcked = false :=
        fun u c hc => ⟨hi.remaining_pos u c hc, hi.acked u c hc⟩
      have hothers : ∀ u, v ≠ u → (s₁.doorbellFlushes u).elim 0 FlushCtx.remaining =
          (h.take i).inFlight.countP (s₁.flushHeld u) := by
        intro u hu
        have hsame := hflushes u
        rw [if_neg hu, Nat.add_zero] at hsame
        rw [hsame]
        exact hi.remaining u
      dsimp only
      rw [if_neg (by rw [hbody]; exact fun hne => hne rfl)]
      by_cases hlast : ctx.remaining - 1 = 0
      · rw [if_pos hlast]
        have hinv : PortInv (h.take i)
            { s₁ with doorbellFlushes := Function.update s₁.doorbellFlushes v none } := by
          refine hmaps.setFlush hi.armed hold hothers (fun c hc => by cases hc) ?_
          have hone := hflushes v
          have hpos := hi.remaining_pos v ctx hctx
          simp only [if_true] at hone
          simp only [Option.elim_none]
          omega
        have hfwd := forwardDoorbell_moved (v := v) (hok.take i) hinv ctx.doorbell ctx.isAsync
          ctx.preAcked fun _ => hpre
        refine Sound.of_moved (hfwd.after (Host.Grows.refl _) fun u => ?_)
        have hclear := owed_clearFlush (h := h.take i) hctx₁ u
        rw [howed u] at hclear
        simp only [hpre, and_true, Host.posted_take]
        omega
      · rw [if_neg hlast]
        have hset : ∀ u, owed (h.take i) { s₁ with
            doorbellFlushes := Function.update s₁.doorbellFlushes v
              (some { ctx with remaining := ctx.remaining - 1 }) } u = owed (h.take i) s₁ u := by
          intro u
          have hheld₁ : (h.take i).inFlight.countP (BalarPort.syncHeld { s₁ with
            doorbellFlushes := Function.update s₁.doorbellFlushes v
              (some { ctx with remaining := ctx.remaining - 1 }) } u) =
              (h.take i).inFlight.countP (s₁.syncHeld u) := rfl
          simp only [owed, hheld₁]
          by_cases huv : u = v
          · simp [huv, hctx₁]
          · simp [Function.update_of_ne huv]
        refine ⟨hok.take i, hmaps.setFlush hi.armed hold hothers (fun c hc => ?_) ?_,
          Host.Grows.refl _, fun u => ?_⟩
        · rw [← Option.some.inj hc]
          exact ⟨Nat.pos_of_ne_zero hlast, hpre⟩
        · have hone := hflushes v
          simp only [if_true] at hone
          simp only [Option.elim_some]
          omega
        · rw [hset u, howed u]
          rfl

/-- A retired operation, and the dispatch of the next one, owe nobody anything. -/
theorem retireAsync_moved (hok : h.Ok) (hi : PortInv h s) (value : UInt64) :
    Moved h (retireAsync v value h s).1 (retireAsync v value h s).2
      fun u => owed h s u + h.posted u := by
  simp only [retireAsync]
  cases hq : s.submitQueue v with
  | nil =>
      set s₁ : BalarPort := { s with
        completedId := Function.update s.completedId v (s.completedId v + 1)
        lastResult := Function.update s.lastResult v value
        asyncInFlight := s.asyncInFlight - 1
        asyncBusy := Function.update s.asyncBusy v false }
      have howed : ∀ u, owed h s₁ u = owed h s u := owed_congr rfl rfl rfl
      exact ⟨hok, (hi.congr rfl rfl rfl rfl : PortInv h s₁), Host.Grows.refl h,
        fun u => congrArg (· + h.posted u) (howed u)⟩
  | cons next rest =>
      dsimp only
      set s₁ : BalarPort := { s with
        completedId := Function.update s.completedId v (s.completedId v + 1)
        lastResult := Function.update s.lastResult v value
        asyncInFlight := s.asyncInFlight - 1
        asyncBusy := Function.update s.asyncBusy v false
        submitQueue := Function.update s.submitQueue v rest }
      have hinv : PortInv h s₁ := hi.congr rfl rfl rfl rfl
      have howed : ∀ u, owed h s₁ u = owed h s u := owed_congr rfl rfl rfl
      have hmoved := forwardDoorbell_moved (v := v) hok hinv next true true (by simp)
      refine hmoved.after (Host.Grows.refl h) fun u => ?_
      rw [howed u]
      simp

/-- The answer to any request: nobody is owed more or less, posts included. -/
theorem handleResponse_moved (hok : h.Ok) (hi : PortInv h s) (hr : h.inFlight[i]? = some r)
    (data : List UInt8) :
    match handleResponse r.id (r.body.response data) (h.take i) s with
    | .error e => ¬e.Nested
    | .ok (some (h', s')) => Moved (h.take i) h' s' fun u => owed h s u + h.posted u
    | .ok none => PortInv (h.take i) s ∧ ∀ u, owed (h.take i) s u = owed h s u := by
  rw [handleResponse]
  cases hflush : s.flushToVcpu r.id with
  | some v =>
      have hmoved := handleFlushResponse_moved hok hi hr hflush data
      revert hmoved
      dsimp only
      cases handleFlushResponse v r.id (r.body.response data) (h.take i) s with
      | error e => exact id
      | ok res => exact id
  | none =>
      obtain ⟨hinv, howed⟩ := hi.answerPending hok hr hflush
      dsimp only
      cases hp : s.pending r.id with
      | none =>
          have hsame : { s with pending := Function.update s.pending r.id none } = s := by
            rw [← hp, Function.update_eq_self]
          rw [hsame] at hinv howed
          refine ⟨hinv, fun u => ?_⟩
          have hu := howed u
          simpa [syncHeld, hp] using hu
      | some fp =>
          dsimp only
          cases hasync : fp.isAsync with
          | true =>
              have hmoved := retireAsync_moved (v := fp.vcpu) (hok.take i) hinv
                (responseValue fp.isRead (r.body.response data))
              refine hmoved.after (Host.Grows.refl _) fun u => ?_
              have hu := howed u
              simp only [syncHeld, hp, hasync, Bool.not_true, Bool.and_false, Bool.false_eq_true,
                if_false, Nat.add_zero] at hu
              rw [hu, Host.posted_take]
          | false =>
              refine ⟨(hok.take i).post _ _, hinv.post _ _, Host.Grows.post .., fun u => ?_⟩
              have hu := howed u
              simp only [syncHeld, hp, hasync, Bool.not_false, Bool.and_true, beq_iff_eq] at hu
              rw [owed_post, Host.posted_postResponse, Host.posted_take, ← hu]
              omega

end Answer

/-- The loop of `process`, in any order of the armed doorbells. -/
theorem process_moved (c : BalarConfig) (drained : ℕ → Bool) (order : List ℕ) {h : Host}
    {s : BalarPort} (hok : h.Ok) (hi : PortInv h s) (hone : ∀ u, owed h s u ≤ 1) :
    Sound h (fun u => owed h s u + h.posted u) (process c drained order h s) := by
  induction order generalizing h s with
  | nil => exact ⟨hok, hi, Host.Grows.refl h, fun _ => rfl⟩
  | cons v order ih =>
      rw [process]
      have hstep := processOne_moved c drained hok hi (hone v)
      revert hstep
      cases processOne c drained v h s with
      | error e => exact id
      | ok res =>
          obtain ⟨h₁, s₁⟩ := res
          intro hstep
          have hstep : Moved h h₁ s₁ fun u => owed h s u + h.posted u := hstep
          have hone₁ : ∀ u, owed h₁ s₁ u ≤ 1 := fun u => by
            have hbal := hstep.balance u
            have hposted := hstep.grows.posted u
            have := hone u
            omega
          have hrest := ih hstep.ok hstep.inv hone₁
          revert hrest
          dsimp only
          cases process c drained order h₁ s₁ with
          | error e => exact id
          | ok res₂ => exact fun hrest => hrest.after hstep.grows hstep.balance

end BalarPort

end Quetz
