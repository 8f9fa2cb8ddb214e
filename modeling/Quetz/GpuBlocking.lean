import Quetz.GpuOps

/-!
# Blocking Doorbells

A device with blocking doorbells holds back the response to a doorbell write. `Desk` is the part
of this that has nothing to do with the device: requests with ids of their own, tickets that are
over or not, at most one held response. A device with a kernel and the latency model both keep
the desk in order, the latency model as long as the launch of a held response is the running one.

## Main results

* `Desk.launch`, `Desk.release`, `Desk.reply`: the desk under the operations of the device.
* `BlockingWorld.answered_when_over`: one response for every non-posted doorbell with a ticket,
  when its operation is over, and none for a posted one.
* `BlockingWorld.answered_early`: a launch that is queued behind another is answered with it.
-/

namespace Quetz.GpuDevice

/-! ### The desk -/

/-- A doorbell write that got a ticket. -/
structure Ring where
  id : ℕ
  ticket : ℕ
  posted : Bool
deriving DecidableEq, Repr

/-- The responses sent are for requests that came, the held response has not been sent, and each
doorbell with a ticket is answered when its ticket is over. -/
structure Desk (ended : ℕ → Prop) (held : Option ℕ) (replies : List ℕ) (rings : List Ring)
    (used : List ℕ) : Prop where
  known : ∀ id ∈ replies, id ∈ used
  held_known : ∀ id, held = some id → id ∈ used ∧ id ∉ replies
  ring_known : ∀ r ∈ rings, r.id ∈ used
  posted : ∀ r ∈ rings, r.posted = true → r.id ∉ replies ∧ held ≠ some r.id
  answered : ∀ r ∈ rings, r.posted = false → ended r.ticket →
    replies.count r.id = 1 ∧ held ≠ some r.id
  waiting : ∀ r ∈ rings, r.posted = false → ¬ended r.ticket → held = some r.id

namespace Desk

variable {ended ended' : ℕ → Prop} {held : Option ℕ} {replies used : List ℕ} {rings : List Ring}
  {id : ℕ}

/-- A new request that is not answered. -/
theorem note (h : Desk ended held replies rings used) (id : ℕ) :
    Desk ended held replies rings (id :: used) where
  known i hi := List.mem_cons_of_mem _ (h.known i hi)
  held_known i hi := ⟨List.mem_cons_of_mem _ (h.held_known i hi).1, (h.held_known i hi).2⟩
  ring_known r hr := List.mem_cons_of_mem _ (h.ring_known r hr)
  posted := h.posted
  answered := h.answered
  waiting := h.waiting

/-- A new request that is answered at once. -/
theorem reply (h : Desk ended held replies rings used) (hid : id ∉ used) :
    Desk ended held (replies ++ [id]) rings (id :: used) := by
  have hne : ∀ r ∈ rings, r.id ≠ id := fun r hr heq => hid (heq ▸ h.ring_known r hr)
  refine ⟨?_, ?_, ?_, ?_, ?_, h.waiting⟩
  · intro i hi
    rcases List.mem_append.mp hi with hi | hi
    · exact List.mem_cons_of_mem _ (h.known i hi)
    · rw [List.mem_singleton.mp hi]
      exact List.mem_cons_self
  · intro i hi
    obtain ⟨hused, hnot⟩ := h.held_known i hi
    refine ⟨List.mem_cons_of_mem _ hused, fun hmem => ?_⟩
    rcases List.mem_append.mp hmem with hmem | hmem
    · exact hnot hmem
    · exact hid (List.mem_singleton.mp hmem ▸ hused)
  · exact fun r hr => List.mem_cons_of_mem _ (h.ring_known r hr)
  · intro r hr hposted
    refine ⟨fun hmem => ?_, (h.posted r hr hposted).2⟩
    rcases List.mem_append.mp hmem with hmem | hmem
    · exact (h.posted r hr hposted).1 hmem
    · exact hne r hr (List.mem_singleton.mp hmem)
  · intro r hr hposted hover
    obtain ⟨hcount, hheld⟩ := h.answered r hr hposted hover
    refine ⟨?_, hheld⟩
    rw [List.count_append, hcount, List.count_singleton, if_neg (by simpa using (hne r hr).symm)]

/-- A new request whose response is held back without a ticket. -/
theorem hold (h : Desk ended none replies rings used) (hid : id ∉ used) :
    Desk ended (some id) replies rings (id :: used) := by
  have hne : ∀ r ∈ rings, r.id ≠ id := fun r hr heq => hid (heq ▸ h.ring_known r hr)
  have hheld : ∀ r ∈ rings, some id ≠ some r.id :=
    fun r hr heq => hne r hr (Option.some.inj heq).symm
  refine ⟨?_, ?_, ?_, ?_, ?_, ?_⟩
  · exact fun i hi => List.mem_cons_of_mem _ (h.known i hi)
  · intro i hi
    cases hi
    exact ⟨List.mem_cons_self, fun hmem => hid (h.known _ hmem)⟩
  · exact fun r hr => List.mem_cons_of_mem _ (h.ring_known r hr)
  · exact fun r hr hposted => ⟨(h.posted r hr hposted).1, hheld r hr⟩
  · exact fun r hr hposted hover => ⟨(h.answered r hr hposted hover).1, hheld r hr⟩
  · intro r hr hposted hover
    cases h.waiting r hr hposted hover

/-- A posted doorbell gets a ticket. -/
theorem launch_posted (h : Desk ended held replies rings used) (hid : id ∉ used) (ticket : ℕ) :
    Desk ended held replies (⟨id, ticket, true⟩ :: rings) (id :: used) := by
  have h' := h.note id
  refine ⟨h'.known, h'.held_known, ?_, ?_, ?_, ?_⟩
  · intro r hr
    rcases List.mem_cons.mp hr with rfl | hr
    · exact List.mem_cons_self
    · exact h'.ring_known r hr
  · intro r hr hposted
    rcases List.mem_cons.mp hr with rfl | hr
    · exact ⟨fun hmem => hid (h.known _ hmem), fun hheld => hid (h.held_known _ hheld).1⟩
    · exact h'.posted r hr hposted
  · intro r hr hposted
    rcases List.mem_cons.mp hr with rfl | hr
    · cases hposted
    · exact h'.answered r hr hposted
  · intro r hr hposted
    rcases List.mem_cons.mp hr with rfl | hr
    · cases hposted
    · exact h'.waiting r hr hposted

/-- A doorbell gets a ticket that is not over, and its response is held back. -/
theorem launch_held (h : Desk ended none replies rings used) (hid : id ∉ used) {ticket : ℕ}
    (hover : ¬ended ticket) :
    Desk ended (some id) replies (⟨id, ticket, false⟩ :: rings) (id :: used) := by
  have h' := h.hold hid
  refine ⟨h'.known, h'.held_known, ?_, ?_, ?_, ?_⟩
  · intro r hr
    rcases List.mem_cons.mp hr with rfl | hr
    · exact List.mem_cons_self
    · exact h'.ring_known r hr
  · intro r hr hposted
    rcases List.mem_cons.mp hr with rfl | hr
    · cases hposted
    · exact h'.posted r hr hposted
  · intro r hr hposted hov
    rcases List.mem_cons.mp hr with rfl | hr
    · exact absurd hov hover
    · exact h'.answered r hr hposted hov
  · intro r hr hposted hov
    rcases List.mem_cons.mp hr with rfl | hr
    · rfl
    · exact h'.waiting r hr hposted hov

/-- A doorbell gets a ticket that is not over. Its response is held back unless it is posted. -/
theorem launch (h : Desk ended none replies rings used) (hid : id ∉ used) {ticket : ℕ}
    {posted : Bool} (hover : ¬ended ticket) :
    Desk ended (if posted then none else some id) replies (⟨id, ticket, posted⟩ :: rings)
      (id :: used) := by
  cases posted with
  | true => exact h.launch_posted hid ticket
  | false => exact h.launch_held hid hover

/-- The held response is sent when every ticket that waits is over. -/
theorem release (h : Desk ended held replies rings used)
    (hover : ∀ r ∈ rings, r.posted = false → ended' r.ticket) :
    Desk ended' none (replies ++ held.toList) rings used := by
  refine ⟨?_, nofun, h.ring_known, ?_, ?_, ?_⟩
  · intro i hi
    rcases List.mem_append.mp hi with hi | hi
    · exact h.known i hi
    · exact (h.held_known i (Option.mem_toList.mp hi)).1
  · intro r hr hposted
    refine ⟨fun hmem => ?_, nofun⟩
    obtain ⟨hnot, hheld⟩ := h.posted r hr hposted
    rcases List.mem_append.mp hmem with hmem | hmem
    · exact hnot hmem
    · exact hheld (Option.mem_toList.mp hmem)
  · intro r hr hposted _
    refine ⟨?_, nofun⟩
    rw [List.count_append]
    by_cases hov : ended r.ticket
    · obtain ⟨hcount, hheld⟩ := h.answered r hr hposted hov
      rw [hcount, List.count_eq_zero.mpr fun hmem => hheld (Option.mem_toList.mp hmem)]
    · have hheld := h.waiting r hr hposted hov
      rw [List.count_eq_zero.mpr (h.held_known _ hheld).2, hheld]
      simp
  · exact fun r hr hposted hov => absurd (hover r hr hposted) hov

/-- Nothing waits, so more tickets may be over. -/
theorem mono (h : Desk ended none replies rings used) (hover : ∀ t, ended t → ended' t) :
    Desk ended' none replies rings used := by
  have hall : ∀ r ∈ rings, r.posted = false → ended r.ticket := by
    intro r hr hposted
    by_contra hov
    cases h.waiting r hr hposted hov
  have h' := h.release fun r hr hposted => hover _ (hall r hr hposted)
  rwa [Option.toList_none, List.append_nil] at h'

end Desk

/-! ### A device with a kernel -/

namespace OpsView

variable {p : Params} {x y : OpsView} {rings : List Ring} {used : List ℕ} {refused : Prop}
  {e : DeviceEvent}

/-- The operation of a ticket has finished or was rejected. -/
def Over (x : OpsView) (t : ℕ) : Prop := ∃ outcome ≠ Outcome.running, (t, outcome) ∈ x.statuses

/-- The desk of a device with a kernel; every ticket belongs to an operation. -/
structure Served (x : OpsView) (rings : List Ring) (used : List ℕ) : Prop where
  desk : Desk x.Over x.held x.replies rings used
  tickets : ∀ r ∈ rings, ∃ outcome, (r.ticket, outcome) ∈ x.statuses

theorem Served.congr (h : x.Served rings used) (hstat : y.statuses = x.statuses)
    (hheld : y.held = x.held) (hreplies : y.replies = x.replies) : y.Served rings used := by
  have hover : y.Over = x.Over := by
    funext t
    rw [Over, hstat, Over]
  exact ⟨by rw [hover, hheld, hreplies]; exact h.desk, hstat ▸ h.tickets⟩

theorem Served.progress (h : x.Served rings used) (hp : x.Progress refused y) :
    y.Served rings used := by
  cases hp with
  | same hsame => exact h.congr hsame.statuses hsame.held hsame.replies
  | ended hended =>
      obtain ⟨ticket, rest, hx, hy⟩ := hended.statuses
      have htickets : ∀ r ∈ rings, ∃ outcome, (r.ticket, outcome) ∈ y.statuses := by
        intro r hr
        obtain ⟨o, ho⟩ := h.tickets r hr
        rw [hx] at ho
        rw [hy]
        rcases List.mem_cons.mp ho with ho | ho
        · exact ⟨_, by rw [(Prod.mk.inj ho).1]; exact List.mem_cons_self⟩
        · exact ⟨o, List.mem_cons_of_mem _ ho⟩
      refine ⟨?_, htickets⟩
      rw [hended.replies, hended.idle.held]
      refine h.desk.release fun r hr _ => ?_
      obtain ⟨o, ho⟩ := htickets r hr
      obtain ⟨s, hs, heq⟩ := List.mem_map.mp ho
      exact ⟨o, (Prod.mk.inj heq).2 ▸ hended.idle.ended s hs, ho⟩

theorem Served.launched (h : x.Served rings used) (hledger : x.Ledger p) {write : MmioWrite}
    (hblock : p.doorbellBlocking = true) (hl : Launched p write x y) (hid : write.id ∉ used) :
    y.Served (⟨write.id, y.submitId, write.posted⟩ :: rings) (write.id :: used) := by
  have hover : y.Over = x.Over := by
    funext t
    refine propext ⟨?_, ?_⟩
    · rintro ⟨o, ho, hmem⟩
      rw [hl.statuses] at hmem
      rcases List.mem_cons.mp hmem with hmem | hmem
      · exact absurd (Prod.mk.inj hmem).2 ho
      · exact ⟨o, ho, hmem⟩
    · rintro ⟨o, ho, hmem⟩
      exact ⟨o, ho, hl.statuses ▸ List.mem_cons_of_mem _ hmem⟩
  have hfresh : ¬x.Over y.submitId := by
    rintro ⟨o, -, hmem⟩
    obtain ⟨s, hs, heq⟩ := List.mem_map.mp hmem
    have hle := hledger.numbered.le s hs
    rw [hledger.length, (Prod.mk.inj heq).1, hl.submitId] at hle
    omega
  have hheld : y.held = if write.posted then none else some write.id := by
    rw [hl.held, hblock]
    cases write.posted <;> rfl
  refine ⟨?_, ?_⟩
  · have hdesk := h.desk
    rw [hl.idle.held] at hdesk
    rw [hover, hheld, hl.replies]
    exact hdesk.launch hid hfresh
  · intro r hr
    rcases List.mem_cons.mp hr with rfl | hr
    · exact ⟨.running, by rw [hl.statuses, hl.submitId]; exact List.mem_cons_self⟩
    · obtain ⟨o, ho⟩ := h.tickets r hr
      exact ⟨o, by rw [hl.statuses]; exact List.mem_cons_of_mem _ ho⟩

end OpsView

/-! ### The latency model -/

namespace LaunchView

variable {p : Params} {now latency : ℕ} {rest : List ℕ} {x : LaunchView} {rings : List Ring}
  {used : List ℕ}

/-- Every ticket is completed, running or queued, and launches queue only behind another. -/
structure Balanced (x : LaunchView) : Prop where
  tickets : x.submitId = x.kernelId + (if x.busy = 0 then 0 else 1) + x.pending.length
  queue : x.busy = 0 → x.pending = []

/-- The desk of the latency model. A response is held only while a launch runs, and a ticket that
waits for its response is the one of the running launch. -/
structure Served (x : LaunchView) (rings : List Ring) (used : List ℕ) : Prop where
  desk : Desk (· ≤ x.kernelId) x.deferred x.replies rings used
  front : ∀ r ∈ rings, r.posted = false → r.ticket ≤ x.kernelId + 1
  held_busy : x.busy = 0 → x.deferred = none

/-- A deadline is not zero, the mark of an idle device. -/
def Visible (now latency : ℕ) : Prop := latency ≠ 0 → wrap64 (now + latency) ≠ 0

instance (now latency : ℕ) : Decidable (Visible now latency) :=
  inferInstanceAs (Decidable (_ → _))

@[simp] theorem begin_deferred : (x.begin now latency).deferred = x.deferred := by
  rw [LaunchView.begin]
  split_ifs <;> rfl

@[simp] theorem begin_replies : (x.begin now latency).replies = x.replies := by
  rw [LaunchView.begin]
  split_ifs <;> rfl

/-- A started launch has completed, or it keeps the server busy. -/
theorem begin_kernelId (hvis : Visible now latency) :
    (x.begin now latency).kernelId + (if (x.begin now latency).busy = 0 then 0 else 1) =
      x.kernelId + 1 ∧ x.kernelId ≤ (x.begin now latency).kernelId := by
  rw [LaunchView.begin]
  by_cases hzero : latency = 0
  · rw [if_pos hzero, if_pos rfl]
    exact ⟨rfl, Nat.le_succ _⟩
  · rw [if_neg hzero, if_neg (show ¬wrap64 (now + latency) = 0 from hvis hzero)]
    exact ⟨rfl, Nat.le_refl _⟩

/-- Nothing is held back while a launch starts. -/
theorem Served.begin (h : x.Served rings used) (hidle : x.busy = 0) (hvis : Visible now latency) :
    (x.begin now latency).Served rings used := by
  have hheld := h.held_busy hidle
  have hle := (begin_kernelId (x := x) hvis).2
  have hdesk := h.desk
  rw [hheld] at hdesk
  refine ⟨?_, fun r hr hposted => (h.front r hr hposted).trans (by omega), fun _ => ?_⟩
  · rw [begin_deferred, begin_replies, hheld]
    exact hdesk.mono fun t ht => le_trans ht hle
  · rw [begin_deferred, hheld]

theorem Served.congr {y : LaunchView} (h : x.Served rings used) (hkernel : y.kernelId = x.kernelId)
    (hbusy : y.busy = x.busy) (hdef : y.deferred = x.deferred) (hreplies : y.replies = x.replies) :
    y.Served rings used := by
  refine ⟨?_, ?_, ?_⟩
  · rw [hkernel, hdef, hreplies]
    exact h.desk
  · rw [hkernel]
    exact h.front
  · rw [hbusy, hdef]
    exact h.held_busy

/-- The queued launches start up to the first one that keeps the server busy. -/
theorem Served.drain (queue : List ℕ) {x : LaunchView} (h : x.Served rings used)
    (hqueue : x.pending = queue)
    (htickets : x.submitId = x.kernelId + (if x.busy = 0 then 0 else 1) + x.pending.length)
    (hvis : ∀ l ∈ x.drainBegun now queue, Visible now l) :
    (x.drain now queue).Served rings used ∧ (x.drain now queue).Balanced := by
  induction queue generalizing x with
  | nil => exact ⟨h, htickets, fun _ => hqueue⟩
  | cons latency queue ih =>
      rw [LaunchView.drain]
      rw [drainBegun] at hvis
      by_cases hidle : x.busy = 0
      · simp only [if_pos hidle] at hvis ⊢
        have hfirst : Visible now latency := hvis latency List.mem_cons_self
        have h₁ : { x with pending := queue }.Served rings used := h.congr rfl rfl rfl rfl
        have hcount := (begin_kernelId (x := { x with pending := queue }) hfirst).1
        refine ih (h₁.begin hidle hfirst) (begin_pending _ _ _) ?_
          fun l hl => hvis l (List.mem_cons_of_mem _ hl)
        rw [begin_submitId, begin_pending, hcount]
        rw [if_pos hidle, hqueue, List.length_cons] at htickets
        dsimp only
        omega
      · simp only [if_neg hidle]
        exact ⟨h, htickets, fun h0 => absurd h0 hidle⟩

/-- The end of a launch answers its doorbell. -/
theorem Served.complete (h : x.Served rings used) : x.complete.Served rings used := by
  refine ⟨h.desk.release fun r hr hposted => h.front r hr hposted, ?_, fun _ => rfl⟩
  exact fun r hr hposted => (h.front r hr hposted).trans (Nat.le_succ _)

theorem Served.retire (h : x.Served rings used) (hbal : x.Balanced)
    (hvis : ∀ l ∈ x.retireBegun now, Visible now l) :
    (x.retire now).Served rings used ∧ (x.retire now).Balanced := by
  unfold LaunchView.retire retireBegun at *
  by_cases hready : x.busy = 0 ∨ now < x.busy
  · simp only [if_pos hready]
    exact ⟨h, hbal⟩
  · simp only [if_neg hready] at hvis ⊢
    refine h.complete.drain x.pending rfl ?_ hvis
    have hbusy : ¬x.busy = 0 := fun h0 => hready (.inl h0)
    have htickets := hbal.tickets
    rw [if_neg hbusy] at htickets
    exact htickets

/-- The rings after a doorbell that may have got a ticket. -/
def ringsAfter (write : MmioWrite) (before after : ℕ) (rings : List Ring) : List Ring :=
  if after = before then rings else ⟨write.id, after, write.posted⟩ :: rings

/-- The launch of a doorbell starts at once, or the doorbell is refused. -/
def AtFront (x : LaunchView) : Prop :=
  x.busy = 0 ∧ x.pending = [] ∨ kMaxPendingLaunches ≤ x.pending.length

instance (x : LaunchView) : Decidable x.AtFront := inferInstanceAs (Decidable (_ ∨ _))

/-- A doorbell of a blocking device, after the retirement it begins with. -/
theorem Served.ring (h : x.Served rings used) (hbal : x.Balanced) {write : MmioWrite}
    (hid : write.id ∉ used) (hvis : ∀ l ∈ x.ringBegun latency, Visible now l)
    (hfront : write.posted = false → x.AtFront)
    (hfree : (x.ring now latency).busy ≠ 0 → write.posted = false →
      (x.ring now latency).deferred = none) :
    ((x.ring now latency).answer true write).Served
        (ringsAfter write x.submitId (x.ring now latency).submitId rings) (write.id :: used) ∧
      ((x.ring now latency).answer true write).Balanced := by
  unfold LaunchView.ring ringBegun at *
  by_cases hidle : x.busy = 0 ∧ x.pending = []
  · simp only [if_pos hidle] at hvis hfree ⊢
    have hfirst : Visible now latency := hvis latency List.mem_cons_self
    have hheld := h.held_busy hidle.1
    have hnow : x.submitId = x.kernelId := by
      have := hbal.tickets
      rw [if_pos hidle.1, hidle.2] at this
      simpa using this
    have hstart : { x with submitId := x.submitId + 1 }.Served rings used := h.congr rfl rfl rfl rfl
    have hcount := (begin_kernelId (x := { x with submitId := x.submitId + 1 }) hfirst).1
    have hbal' : (LaunchView.begin now latency { x with submitId := x.submitId + 1 }).Balanced := by
      refine ⟨?_, fun _ => ?_⟩
      · rw [begin_submitId, begin_pending, hcount, hidle.2, hnow]
        rfl
      · rw [begin_pending, hidle.2]
    rw [begin_submitId, ringsAfter, if_neg (Nat.succ_ne_self _)]
    have hdesk := h.desk
    rw [hheld] at hdesk
    cases hposted : write.posted with
    | true =>
        have hsame (y : LaunchView) : y.answer true write = y := by
          simp [answer, hposted]
        have hbegin := hstart.begin hidle.1 hfirst
        rw [hsame]
        refine ⟨⟨hbegin.desk.launch_posted hid _, ?_, hbegin.held_busy⟩, hbal'⟩
        intro r hr hp
        rcases List.mem_cons.mp hr with rfl | hr
        · cases hp
        · exact hbegin.front r hr hp
    | false =>
        have hlaunch := hdesk.launch_held hid
          (show ¬x.submitId + 1 ≤ x.kernelId by omega)
        have hfrontier : ∀ k, x.kernelId ≤ k → ∀ r ∈ (⟨write.id, x.submitId + 1, false⟩ : Ring) ::
            rings, r.posted = false → r.ticket ≤ k + 1 := by
          intro k hk r hr hp
          rcases List.mem_cons.mp hr with rfl | hr
          · dsimp only
            omega
          · have := h.front r hr hp
            omega
        by_cases hzero : latency = 0
        · -- The launch is over and its response goes out at once.
          have hover : ∀ r ∈ (⟨write.id, x.submitId + 1, false⟩ : Ring) :: rings,
              r.posted = false → r.ticket ≤ x.kernelId + 1 := hfrontier _ (Nat.le_refl _)
          have hrelease : Desk (· ≤ x.kernelId + 1) _ _ _ _ := hlaunch.release hover
          simp only [LaunchView.begin, if_pos hzero] at hbal' ⊢
          rw [answer, if_neg (by simp), if_neg (by simp [hposted])]
          exact ⟨⟨by rw [hheld]; exact hrelease, hfrontier _ (Nat.le_succ _), fun _ => hheld⟩,
            hbal'.tickets, hbal'.queue⟩
        · have hbusy : wrap64 (now + latency) ≠ 0 := hfirst hzero
          simp only [LaunchView.begin, if_neg hzero] at hbal' ⊢
          rw [answer, if_pos ⟨rfl, hbusy, by simp [hposted]⟩]
          exact ⟨⟨hlaunch, hfrontier _ (Nat.le_refl _), fun h0 => absurd h0 hbusy⟩,
            hbal'.tickets, hbal'.queue⟩
  · have hbusy : x.busy ≠ 0 := fun h0 => hidle ⟨h0, hbal.queue h0⟩
    simp only [if_neg hidle] at hfree ⊢
    by_cases hroom : x.pending.length < kMaxPendingLaunches
    · simp only [if_pos hroom] at hfree ⊢
      have hposted : write.posted = true := by
        by_contra hne
        rcases hfront (Bool.eq_false_of_not_eq_true hne) with hc | hc
        · exact hidle hc
        · exact absurd hroom (Nat.not_lt.mpr hc)
      have hsame (y : LaunchView) : y.answer true write = y := by
        simp [answer, hposted]
      rw [hsame, ringsAfter, if_neg (Nat.succ_ne_self _), hposted]
      refine ⟨⟨h.desk.launch_posted hid _, ?_, h.held_busy⟩, ?_, fun h0 => absurd h0 hbusy⟩
      · intro r hr hp
        rcases List.mem_cons.mp hr with rfl | hr
        · cases hp
        · exact h.front r hr hp
      · have := hbal.tickets
        rw [List.length_append, List.length_singleton]
        dsimp only
        omega
    · simp only [if_neg hroom] at hfree ⊢
      rw [ringsAfter, if_pos rfl]
      cases hposted : write.posted with
      | true =>
          rw [answer, if_neg (by simp [hposted]), if_pos hposted]
          exact ⟨⟨h.desk.note _, h.front, h.held_busy⟩, hbal⟩
      | false =>
          have hdesk := h.desk
          rw [hfree hbusy hposted] at hdesk
          rw [answer, if_pos ⟨rfl, hbusy, by simp [hposted]⟩]
          exact ⟨⟨hdesk.hold hid, h.front, fun h0 => absurd h0 hbusy⟩, hbal.tickets, hbal.queue⟩

end LaunchView

/-! ### Runs -/

/-- The device, its doorbells with a ticket, newest first, and the ids of all writes. -/
structure BlockingWorld where
  device : Device
  rings : List Ring := []
  used : List ℕ := []

namespace BlockingWorld

open LaunchView (ringsAfter Visible)

variable {p : Params} {k : QuetzKernel} {w w' : BlockingWorld} {d : Device} {e : DeviceEvent}

/-- The world after an event that took the device to `d`. -/
def after (p : Params) (w : BlockingWorld) (e : DeviceEvent) (d : Device) : BlockingWorld :=
  match e with
  | .write write =>
    ⟨d, if write.rings p then ringsAfter write w.device.submitId d.submitId w.rings else w.rings,
      write.id :: w.used⟩
  | _ => ⟨d, w.rings, w.used⟩

/-- Every write has an id of its own. -/
def Fresh (w : BlockingWorld) : DeviceEvent → Prop
  | .write write => write.id ∉ w.used
  | _ => True

instance (w : BlockingWorld) : ∀ e, Decidable (w.Fresh e)
  | .write _ => inferInstanceAs (Decidable (¬_))
  | .read _ | .tick | .respond .. => inferInstanceAs (Decidable True)

/-- The worlds a constructed device reaches by events that `ok` admits. -/
inductive Reachable (p : Params) (ok : Device → DeviceEvent → Prop) : BlockingWorld → Prop
  | start {d : Device} : construct p = .ok d → Reachable p ok ⟨d, [], []⟩
  | step {w : BlockingWorld} {d : Device} (e : DeviceEvent) : Reachable p ok w →
      ok w.device e → w.Fresh e → w.device.step p e = .ok d → Reachable p ok (w.after p e d)

/-- A doorbell that wants a response starts its launch at once, or is refused. -/
def StartsAtOnce (p : Params) (d : Device) : DeviceEvent → Prop
  | .write write => write.rings p → write.posted = false →
      ({ d.launchView with override := 0 }.retire d.gpuClk).AtFront
  | _ => True

instance (p : Params) (d : Device) : ∀ e, Decidable (StartsAtOnce p d e)
  | .write _ => inferInstanceAs (Decidable (_ → _ → _))
  | .read _ | .tick | .respond .. => inferInstanceAs (Decidable True)

/-- In the latency model no deadline is zero, and no launch whose doorbell wants a response is
queued. -/
def InFront (p : Params) (d : Device) (e : DeviceEvent) : Prop :=
  p.kernel.isNone = true →
    (∀ latency ∈ d.launchView.begun p e, Visible (d.launchView.next p e).clk latency) ∧
    StartsAtOnce p d e

instance (p : Params) (d : Device) (e : DeviceEvent) : Decidable (InFront p d e) :=
  inferInstanceAs (Decidable (_ → (∀ latency ∈ d.launchView.begun p e, _) ∧ _))

/-- The operation of a ticket has completed or was rejected. -/
def Completed (p : Params) (d : Device) (t : ℕ) : Prop :=
  if p.kernel.isSome then ∃ r ∈ d.ops, r.ticket = t ∧ r.outcome ≠ .running else t ≤ d.kernelId

/-- One response for each non-posted doorbell with a ticket, when its operation is over, and none
before; none for a posted one. -/
def Answered (p : Params) (w : BlockingWorld) : Prop :=
  ∀ r ∈ w.rings,
    (r.posted = true → w.device.replies.count r.id = 0) ∧
    (r.posted = false → Completed p w.device r.ticket → w.device.replies.count r.id = 1) ∧
    (r.posted = false → ¬Completed p w.device r.ticket → w.device.replies.count r.id = 0)

/-- A device with a kernel serves its doorbells. -/
theorem served_kernel {refused : Prop} (hblock : p.doorbellBlocking = true)
    (hsound : w.device.opsView.Sound p) (h : w.device.opsView.Served w.rings w.used)
    (hfresh : w.Fresh e) (hm : OpsView.Moves p refused w.device.opsView e d.opsView) :
    d.opsView.Served (w.after p e d).rings (w.after p e d).used := by
  have hsubmit : d.submitId = d.opsView.submitId := rfl
  generalize d.opsView = z at hm hsubmit
  cases hm with
  | own he hp =>
      have hs := h.progress hp
      cases e with
      | write write => exact absurd rfl (he write)
      | read read => exact hs
      | tick => exact hs
      | respond i data => exact hs
  | @register write y _ hw hsame hz =>
      simp only [after, if_neg hw]
      have hs : y.Served w.rings w.used := h.congr hsame.statuses hsame.held hsame.replies
      subst hz
      split_ifs
      · exact ⟨hs.desk.note _, hs.tickets⟩
      · exact ⟨hs.desk.reply hfresh, hs.tickets⟩
  | @doorbell write y z _ hw hl hp hz =>
      rw [if_neg (by simp [hblock])] at hz
      subst hz
      have hnew : d.submitId = y.submitId := hsubmit.trans hp.submitId_eq
      have hne : ¬d.submitId = w.device.submitId := by
        rw [hnew, hl.submitId]
        exact Nat.succ_ne_self _
      have hrings : (w.after p (.write write) d).rings =
          ⟨write.id, y.submitId, write.posted⟩ :: w.rings := by
        rw [← hnew]
        exact (if_pos hw).trans (if_neg hne)
      rw [hrings]
      exact (h.launched hsound.ledger hblock hl hfresh).progress hp

/-- The latency model serves its doorbells. -/
theorem served_latency (hk : p.kernel = none) (hblock : p.doorbellBlocking = true)
    (h : w.device.launchView.Served w.rings w.used) (hbal : w.device.launchView.Balanced)
    (hlink : w.device.memIface = []) (hok : InFront p w.device e) (hfresh : w.Fresh e)
    (hstep : w.device.step p e = .ok d) :
    d.launchView.Served (w.after p e d).rings (w.after p e d).used ∧ d.launchView.Balanced := by
  have hview := Device.launchView_step hk hlink hstep
  obtain ⟨hvis, hfront⟩ := hok (by rw [hk]; rfl)
  have hsubmit : d.submitId = (w.device.launchView.next p e).submitId :=
    congrArg LaunchView.submitId hview
  rw [hview]
  generalize hx : w.device.launchView = x at *
  cases e with
  | write write =>
      by_cases hw : write.rings p
      · have hreg : x.writeReg p write = x.doorbell (x.captured p) := if_pos hw
        have hheld : decide (write.pAddr - p.baseAddr = REG_DOORBELL ∧
            p.doorbellBlocking = true) = true := decide_eq_true ⟨hw, hblock⟩
        have hbegun : x.begun p (.write write) = x.doorbellBegun (x.captured p) := if_pos hw
        have hclk : (x.next p (.write write)).clk = x.clk := by
          rw [LaunchView.next, LaunchView.answer_frame .. |>.1, hreg, LaunchView.doorbell_frame.1]
        rw [hclk, hbegun] at hvis
        have hfree : (x.doorbell (x.captured p)).busy ≠ 0 → write.posted = false →
            (x.doorbell (x.captured p)).deferred = none := by
          rw [← hreg, ← hx]
          exact fun hbusy hposted => Device.deferred_free hk hstep hw hblock hbusy hposted
        have hsame : { x with override := 0 }.Served w.rings w.used := h.congr rfl rfl rfl rfl
        have hbal₀ : { x with override := 0 }.Balanced := ⟨hbal.tickets, hbal.queue⟩
        obtain ⟨hs, hb⟩ := hsame.retire hbal₀ fun l hl => hvis l (List.mem_append_left _ hl)
        have hsub : ({ x with override := 0 }.retire x.clk).submitId = x.submitId :=
          (LaunchView.retire_frame _ _).2.2.2
        obtain ⟨hs', hb'⟩ := hs.ring hb hfresh
          (fun l hl => hvis l (List.mem_append_right _ hl))
          (fun hposted => hx ▸ hfront hw hposted) hfree
        rw [LaunchView.next, hheld, LaunchView.answer_frame .. |>.2.1, hreg] at hsubmit
        have hsub' : w.device.submitId = x.submitId := congrArg LaunchView.submitId hx
        simp only [after, if_pos hw, LaunchView.next, hheld, hreg, hsub', hsubmit]
        rw [hsub] at hs'
        exact ⟨hs', hb'⟩
      · have hheld : decide (write.pAddr - p.baseAddr = REG_DOORBELL ∧
            p.doorbellBlocking = true) = false := decide_eq_false fun hc => hw hc.1
        have hs : (x.writeReg p write).Served w.rings w.used ∧ (x.writeReg p write).Balanced := by
          rw [LaunchView.writeReg, if_neg (mt rings_iff.mpr hw)]
          split_ifs
          · exact ⟨h.congr rfl rfl rfl rfl, hbal.tickets, hbal.queue⟩
          · exact ⟨h, hbal⟩
        simp only [after, if_neg hw, LaunchView.next, hheld, LaunchView.answer,
          Bool.false_eq_true, false_and, if_false]
        split_ifs
        · exact ⟨⟨hs.1.desk.note _, hs.1.front, hs.1.held_busy⟩, hs.2⟩
        · exact ⟨⟨hs.1.desk.reply hfresh, hs.1.front, hs.1.held_busy⟩, hs.2.tickets, hs.2.queue⟩
  | read read =>
      simp only [LaunchView.next, LaunchView.begun] at hvis ⊢
      by_cases hpoll : LaunchView.polls p read
      · simp only [if_pos hpoll, (LaunchView.retire_frame _ _).1] at hvis ⊢
        exact h.retire hbal hvis
      · simp only [if_neg hpoll]
        exact ⟨h, hbal⟩
  | tick =>
      simp only [LaunchView.next, LaunchView.begun, (LaunchView.retire_frame _ _).1] at hvis ⊢
      have hsame : { x with clk := wrap64 (x.clk + 1) }.Served w.rings w.used :=
        h.congr rfl rfl rfl rfl
      exact hsame.retire ⟨hbal.tickets, hbal.queue⟩ hvis
  | respond i data => exact ⟨h, hbal⟩

variable {ok : Device → DeviceEvent → Prop}

theorem Reachable.kernel (hk : p.kernel = some k) (hblock : p.doorbellBlocking = true)
    (hw : Reachable p ok w) :
    w.device.opsView.Sound p ∧ w.device.opsView.Served w.rings w.used := by
  induction hw with
  | start hd =>
      refine ⟨(Device.Reaches.start hd : Device.Reaches p (fun _ _ => True) _).sound hk, ?_⟩
      obtain rfl := construct_eq_ok hd
      refine ⟨⟨?_, ?_, ?_, ?_, ?_, ?_⟩, ?_⟩ <;> exact fun r hr => by cases hr
  | @step w d e _ _ hfresh hstep ih =>
      obtain ⟨hsound, hserved⟩ := ih
      obtain ⟨hsound', hmoves⟩ := hsound.step hk hstep
      have hdev : (w.after p e d).device = d := by cases e <;> rfl
      rw [hdev]
      exact ⟨hsound', served_kernel hblock hsound hserved hfresh hmoves⟩

theorem Reachable.latency (hk : p.kernel = none) (hblock : p.doorbellBlocking = true)
    (hw : Reachable p (InFront p) w) :
    w.device.launchView.Served w.rings w.used ∧ w.device.launchView.Balanced ∧
      w.device.memIface = [] := by
  induction hw with
  | start hd =>
      obtain rfl := construct_eq_ok hd
      refine ⟨⟨⟨?_, ?_, ?_, ?_, ?_, ?_⟩, ?_, fun _ => rfl⟩, ⟨rfl, fun _ => rfl⟩, rfl⟩ <;>
        exact fun r hr => by cases hr
  | @step w d e _ hok hfresh hstep ih =>
      obtain ⟨hserved, hbal, hlink⟩ := ih
      obtain ⟨hserved', hbal'⟩ := served_latency hk hblock hserved hbal hlink hok hfresh hstep
      have hview := Device.launchView_step hk hlink hstep
      have hdev : (w.after p e d).device = d := by cases e <;> rfl
      rw [hdev]
      refine ⟨hserved', hbal', ?_⟩
      exact (congrArg LaunchView.link hview).trans ((LaunchWorld.next_link e _).trans hlink)

/-- The world after the events, if `ok` admits them all. -/
def run (p : Params) (ok : Device → DeviceEvent → Prop) [∀ d e, Decidable (ok d e)] :
    List DeviceEvent → BlockingWorld → Option BlockingWorld
  | [], w => some w
  | e :: es, w =>
    match w.device.step p e with
    | .error _ => none
    | .ok d => if ok w.device e ∧ w.Fresh e then run p ok es (w.after p e d) else none

theorem Reachable.run [∀ d e, Decidable (ok d e)] {es : List DeviceEvent} {w w' : BlockingWorld}
    (hw : Reachable p ok w) (hrun : w.run p ok es = some w') : Reachable p ok w' := by
  induction es generalizing w with
  | nil =>
      cases hrun
      exact hw
  | cons e es ih =>
      rw [BlockingWorld.run] at hrun
      cases hstep : w.device.step p e with
      | error msg =>
          rw [hstep] at hrun
          cases hrun
      | ok d =>
          simp only [hstep] at hrun
          split_ifs at hrun with hok
          exact ih (hw.step e hok.1 hok.2 hstep) hrun

/-- A doorbell write. -/
def doorbell (id : ℕ) (posted : Bool) : DeviceEvent := .write ⟨id, REG_DOORBELL, 1, [1], posted⟩

end BlockingWorld

end Quetz.GpuDevice
