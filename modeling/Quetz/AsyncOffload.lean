import Quetz.PortBalance

/-!
# Tickets of the Async Offload Engine

A `BalarPort` between a guest and its links. Guests issue commands, each after the previous one
was acknowledged; the vCPUs drain, and the links answer the requests in flight, in any order.

An operation of the async aperture passes from the armed doorbell to the doorbell waiting for
flushes, to the queue or the mmio link, and is complete when its doorbell is answered. The line
of operations that are not on the link yet is in the order of their SUBMITs, and `Tickets` says
that the doorbells sent followed by the line are all the submitted ones.

## Main results

* `PortWorld.Inv.step`: every event keeps the ticket invariant.
* `async_tickets_conserved`: conservation, order and contents of the async doorbells.
-/

namespace Quetz

open BalarPort

/-! ### The port, its guest and its links -/

/-- A port with its host, the commands taken from each vCPU and the requests answered. -/
structure PortWorld where
  host : Host := {}
  port : BalarPort := {}
  /-- The number of commands of each vCPU. -/
  taken : ℕ → ℕ := fun _ => 0
  /-- The ids of the answered requests, oldest first. -/
  answered : List ℕ := []

/-- What can happen next. -/
inductive PortEvent where
  | command (vcpu : ℕ) (cmd : QuetzCommand)
  | process (drained : ℕ → Bool) (order : List ℕ)
  /-- The request at this position of the links is answered; `data` is what a read returns. -/
  | answer (i : ℕ) (data : List UInt8)

namespace PortWorld

/-- One event. -/
def step (c : BalarConfig) (w : PortWorld) : PortEvent → Except PortFatal PortWorld
  | .command vcpu cmd =>
    match handleCommand c vcpu cmd w.host w.port with
    | .error e => .error e
    | .ok (h, s) => .ok { w with
        host := h
        port := s
        taken := Function.update w.taken vcpu (w.taken vcpu + 1) }
  | .process drained order =>
    match process c drained order w.host w.port with
    | .error e => .error e
    | .ok (h, s) => .ok { w with host := h, port := s }
  | .answer i data =>
    match w.host.inFlight[i]? with
    | none => .ok w
    | some r =>
      match handleResponse r.id (r.body.response data) (w.host.take i) w.port with
      | .error e => .error e
      | .ok none => .ok { w with host := w.host.take i, answered := w.answered ++ [r.id] }
      | .ok (some (h, s)) =>
        .ok { w with host := h, port := s, answered := w.answered ++ [r.id] }

/-- A guest issues a register access of one to eight bytes, after the previous one was
acknowledged. -/
def Allowed (w : PortWorld) : PortEvent → Prop
  | .command vcpu cmd => w.host.posted vcpu = w.taken vcpu ∧
      (cmd.cmd = .mmioReadReq ∨ cmd.cmd = .mmioWriteReq) ∧
      1 ≤ cmd.size ∧ cmd.size ≤ 8 ∧ cmd.data.length = cmdDataBytes
  | _ => True

/-- The states a fresh port reaches. -/
inductive Reachable (c : BalarConfig) : PortWorld → Prop
  | start : Reachable c {}
  | step {w w' : PortWorld} {e : PortEvent} : Reachable c w → w.Allowed e → w.step c e = .ok w' →
      Reachable c w'

end PortWorld

/-! ### Tickets -/

/-- The request a doorbell becomes. -/
def Doorbell.body (d : Doorbell) : Body := .write d.addr d.size d.data

/-- The request the submitted bytes have to become. -/
def asyncBody (c : BalarConfig) (bytes : List UInt8) : Body :=
  .write c.doorbellAddr bytes.length bytes

/-- What the engine keeps for its vCPU. -/
structure AsyncView where
  submits : List (List UInt8)
  dispatched : List ℕ
  busy : Bool
  submitId : ℕ
  completedId : ℕ
  inFlight : ℕ

/-- The async part of a port, for one vCPU. -/
def BalarPort.asyncView (s : BalarPort) (v : ℕ) : AsyncView :=
  ⟨s.submits, s.dispatched, s.asyncBusy v, s.submitId v, s.completedId v, s.asyncInFlight⟩

/-- The request is an async doorbell. -/
def asyncHeld (pending : ℕ → Option ForwardPending) (r : Request) : Bool :=
  (pending r.id).any ForwardPending.isAsync

/-- The async doorbells among the requests sent. -/
def asyncSent (h : Host) (dispatched : List ℕ) : List Request :=
  h.sent.filter fun r => r.id ∈ dispatched

/-- The ids of the answered async doorbells. -/
def asyncAnswered (answered dispatched : List ℕ) : List ℕ :=
  answered.filter fun id => id ∈ dispatched

/-- Every submitted operation is answered, on the link, or in `line`, in this order. -/
structure Tickets (c : BalarConfig) (v : ℕ) (h : Host) (pending : ℕ → Option ForwardPending)
    (x : AsyncView) (answered : List ℕ) (line : List Doorbell) : Prop where
  ok : h.Ok
  sent_lt : ∀ r ∈ h.sent, r.id < h.nextId
  answered_lt : ∀ id ∈ answered, id < h.nextId
  unanswered : ∀ r ∈ h.inFlight, r.id ∉ answered
  sole : ∀ id fp, pending id = some fp → fp.isAsync = true → fp.vcpu = v
  ids : (asyncSent h x.dispatched).map Request.id = x.dispatched
  nodup : x.dispatched.Nodup
  links : ∀ r ∈ asyncSent h x.dispatched, r.link = .mmio ∧ r.vcpu = v
  bodies : x.submits.map (asyncBody c) =
    (asyncSent h x.dispatched).map Request.body ++ line.map Doorbell.body
  flying : x.dispatched = asyncAnswered answered x.dispatched ++
    (h.inFlight.filter (asyncHeld pending)).map Request.id
  one : (h.inFlight.filter (asyncHeld pending)).length = if x.busy then 1 else 0
  submitId : x.submitId = x.submits.length
  completedId : x.completedId = (asyncAnswered answered x.dispatched).length
  inFlight : x.inFlight + x.completedId = x.submitId
  depth : x.inFlight ≤ c.asyncCompletionDepth

namespace Tickets

variable {c : BalarConfig} {v : ℕ} {h : Host} {pending : ℕ → Option ForwardPending}
  {x : AsyncView} {answered : List ℕ} {line : List Doorbell}

theorem dispatched_lt (t : Tickets c v h pending x answered line) :
    ∀ id ∈ x.dispatched, id < h.nextId := by
  intro id hid
  rw [← t.ids] at hid
  obtain ⟨r, hr, rfl⟩ := List.mem_map.mp hid
  exact t.sent_lt r (List.mem_of_mem_filter hr)

/-- Posting a response changes nothing. -/
theorem post (t : Tickets c v h pending x answered line) (vcpu : ℕ) (value : UInt64) :
    Tickets c v (h.postResponse vcpu value) pending x answered line :=
  ⟨t.ok.post vcpu value, t.sent_lt, t.answered_lt, t.unanswered, t.sole, t.ids, t.nodup, t.links,
    t.bodies, t.flying, t.one, t.submitId, t.completedId, t.inFlight, t.depth⟩

/-- A request that is not an async doorbell. -/
theorem sendOther (t : Tickets c v h pending x answered line) (vcpu : ℕ) (link : Link)
    (body : Body) {pending' : ℕ → Option ForwardPending}
    (hold : ∀ id, id ≠ h.nextId → pending' id = pending id)
    (hnew : ∀ fp, pending' h.nextId = some fp → fp.isAsync = false) :
    Tickets c v (h.send vcpu link body) pending' x answered line := by
  have hsent : asyncSent (h.send vcpu link body) x.dispatched = asyncSent h x.dispatched := by
    simp only [asyncSent, Host.send, List.filter_append, List.append_right_eq_self]
    refine List.filter_eq_nil_iff.mpr fun r hr => ?_
    rw [List.mem_singleton.mp hr]
    simp only [decide_eq_true_eq]
    exact fun hmem => Nat.lt_irrefl _ (t.dispatched_lt _ hmem)
  have hheld : (h.send vcpu link body).inFlight.filter (asyncHeld pending') =
      h.inFlight.filter (asyncHeld pending) := by
    simp only [Host.send, List.filter_append]
    have hlast : [(⟨h.nextId, vcpu, link, body⟩ : Request)].filter (asyncHeld pending') = [] := by
      refine List.filter_eq_nil_iff.mpr fun r hr => ?_
      rw [List.mem_singleton.mp hr]
      simp only [asyncHeld]
      cases hp : pending' h.nextId with
      | none => simp
      | some fp => simp [hnew fp hp]
    rw [hlast, List.append_nil]
    refine List.filter_congr fun r hr => ?_
    simp only [asyncHeld, hold r.id (Nat.ne_of_lt (t.ok.fresh r hr))]
  refine ⟨t.ok.send _ _ _, ?_, ?_, ?_, ?_, by rw [hsent]; exact t.ids, t.nodup,
    by rw [hsent]; exact t.links, by rw [hsent]; exact t.bodies, by rw [hheld]; exact t.flying,
    by rw [hheld]; exact t.one, t.submitId, t.completedId, t.inFlight, t.depth⟩
  · intro r hr
    rcases List.mem_append.mp hr with hr | hr
    · exact Nat.lt_succ_of_lt (t.sent_lt r hr)
    · rw [List.mem_singleton.mp hr]
      exact Nat.lt_succ_self _
  · exact fun id hid => Nat.lt_succ_of_lt (t.answered_lt id hid)
  · intro r hr
    rcases List.mem_append.mp hr with hr | hr
    · exact t.unanswered r hr
    · rw [List.mem_singleton.mp hr]
      exact fun hmem => Nat.lt_irrefl _ (t.answered_lt _ hmem)
  · intro id fp hfp hasync
    by_cases hid : id = h.nextId
    · rw [hid] at hfp
      rw [hnew fp hfp] at hasync
      cases hasync
    · rw [hold id hid] at hfp
      exact t.sole id fp hfp hasync

/-- The first operation of the line goes on the link. -/
theorem dispatch {req : Doorbell} (t : Tickets c v h pending x answered (req :: line))
    (hidle : x.busy = false) :
    Tickets c v (h.send v .mmio req.body)
      (Function.update pending h.nextId (some ⟨v, false, true⟩))
      { x with busy := true, dispatched := x.dispatched ++ [h.nextId] } answered line := by
  have hfresh : h.nextId ∉ x.dispatched := fun hmem => Nat.lt_irrefl _ (t.dispatched_lt _ hmem)
  have hsent : asyncSent (h.send v .mmio req.body) (x.dispatched ++ [h.nextId]) =
      asyncSent h x.dispatched ++ [⟨h.nextId, v, .mmio, req.body⟩] := by
    simp only [asyncSent, Host.send, List.filter_append]
    congr 1
    · refine List.filter_congr fun r hr => ?_
      have hne : r.id ≠ h.nextId := Nat.ne_of_lt (t.sent_lt r hr)
      simp [hne]
    · simp
  have hans : asyncAnswered answered (x.dispatched ++ [h.nextId]) =
      asyncAnswered answered x.dispatched := by
    refine List.filter_congr fun id hid => ?_
    have hne : id ≠ h.nextId := Nat.ne_of_lt (t.answered_lt id hid)
    simp [hne]
  have hnone : h.inFlight.filter (asyncHeld pending) = [] := by
    have hlen := t.one
    rw [hidle] at hlen
    exact List.length_eq_zero_iff.mp hlen
  have hheld : (h.send v .mmio req.body).inFlight.filter
      (asyncHeld (Function.update pending h.nextId (some ⟨v, false, true⟩))) =
        [⟨h.nextId, v, .mmio, req.body⟩] := by
    simp only [Host.send, List.filter_append]
    rw [show [(⟨h.nextId, v, .mmio, req.body⟩ : Request)].filter
      (asyncHeld (Function.update pending h.nextId (some ⟨v, false, true⟩))) =
        [⟨h.nextId, v, .mmio, req.body⟩] by simp [asyncHeld], List.append_left_eq_self, ← hnone]
    refine List.filter_congr fun r hr => ?_
    simp only [asyncHeld, Function.update_of_ne (Nat.ne_of_lt (t.ok.fresh r hr))]
  refine ⟨t.ok.send _ _ _, ?_, ?_, ?_, ?_, ?_, ?_, ?_, ?_, ?_, ?_, t.submitId, ?_, t.inFlight,
    t.depth⟩
  · intro r hr
    rcases List.mem_append.mp hr with hr | hr
    · exact Nat.lt_succ_of_lt (t.sent_lt r hr)
    · rw [List.mem_singleton.mp hr]
      exact Nat.lt_succ_self _
  · exact fun id hid => Nat.lt_succ_of_lt (t.answered_lt id hid)
  · intro r hr
    rcases List.mem_append.mp hr with hr | hr
    · exact t.unanswered r hr
    · rw [List.mem_singleton.mp hr]
      exact fun hmem => Nat.lt_irrefl _ (t.answered_lt _ hmem)
  · intro id fp hfp hasync
    by_cases hid : id = h.nextId
    · rw [hid, Function.update_self] at hfp
      rw [← Option.some.inj hfp]
    · rw [Function.update_of_ne hid] at hfp
      exact t.sole id fp hfp hasync
  · rw [hsent, List.map_append, t.ids]
    rfl
  · exact List.nodup_append.mpr ⟨t.nodup, by simp, fun a ha b hb => by
      rw [List.mem_singleton.mp hb]
      exact fun heq => hfresh (heq ▸ ha)⟩
  · rw [hsent]
    intro r hr
    rcases List.mem_append.mp hr with hr | hr
    · exact t.links r hr
    · rw [List.mem_singleton.mp hr]
      exact ⟨rfl, rfl⟩
  · rw [hsent, List.map_append, List.append_assoc]
    exact t.bodies
  · rw [hans, hheld]
    have hfly := t.flying
    rw [hnone, List.map_nil, List.append_nil] at hfly
    simp only [List.map_cons, List.map_nil]
    rw [← hfly]
  · rw [hheld]
    rfl
  · rw [hans]
    exact t.completedId

/-- The doorbells on the link without the answered request. -/
theorem held_take (t : Tickets c v h pending x answered line) {i : ℕ} {r : Request}
    (hi : h.inFlight[i]? = some r) {pending' : ℕ → Option ForwardPending}
    (hold : ∀ id, id ≠ r.id → pending' id = pending id) :
    ([r].filter (asyncHeld pending) ++ (h.take i).inFlight.filter (asyncHeld pending')).Perm
      (h.inFlight.filter (asyncHeld pending)) := by
  obtain ⟨hperm, hne⟩ := t.ok.taken hi
  have hsame : (h.take i).inFlight.filter (asyncHeld pending') =
      (h.take i).inFlight.filter (asyncHeld pending) :=
    List.filter_congr fun r' hr' => by simp only [asyncHeld, hold r'.id (hne r' hr')]
  rw [hsame, ← List.filter_append]
  exact hperm.filter _

/-- A request in flight that is not an async doorbell was never dispatched. -/
theorem not_dispatched (t : Tickets c v h pending x answered line) {r : Request}
    (hr : r ∈ h.inFlight) (hother : asyncHeld pending r = false) : r.id ∉ x.dispatched := by
  intro hmem
  rw [t.flying] at hmem
  rcases List.mem_append.mp hmem with hmem | hmem
  · exact t.unanswered r hr (List.mem_of_mem_filter hmem)
  · obtain ⟨r', hr', hid⟩ := List.mem_map.mp hmem
    obtain ⟨hin, hheld⟩ := List.mem_filter.mp hr'
    simp only [asyncHeld, hid] at hheld
    simp only [asyncHeld] at hother
    rw [hother] at hheld
    cases hheld

/-- The answer to a request that is not an async doorbell. -/
theorem answerOther (t : Tickets c v h pending x answered line) {i : ℕ} {r : Request}
    (hi : h.inFlight[i]? = some r) (hother : asyncHeld pending r = false)
    {pending' : ℕ → Option ForwardPending} (hold : ∀ id, id ≠ r.id → pending' id = pending id)
    (hgone : pending' r.id = none) :
    Tickets c v (h.take i) pending' x (answered ++ [r.id]) line := by
  have hr := List.mem_of_getElem? hi
  have hperm := t.held_take hi hold
  have hfilter : [r].filter (asyncHeld pending) = [] := by simp [hother]
  rw [hfilter, List.nil_append] at hperm
  have hheld : (h.take i).inFlight.filter (asyncHeld pending') =
      h.inFlight.filter (asyncHeld pending) := by
    have hone := t.one
    cases hbusy : x.busy with
    | false =>
        rw [hbusy] at hone
        have hnil := List.length_eq_zero_iff.mp hone
        rw [hnil] at hperm ⊢
        exact hperm.eq_nil
    | true =>
        rw [hbusy] at hone
        obtain ⟨r', hr'⟩ := List.length_eq_one_iff.mp hone
        rw [hr'] at hperm ⊢
        exact List.perm_singleton.mp hperm
  have hans : asyncAnswered (answered ++ [r.id]) x.dispatched =
      asyncAnswered answered x.dispatched := by
    simp only [asyncAnswered, List.filter_append, List.append_right_eq_self]
    simp [t.not_dispatched hr hother]
  refine ⟨t.ok.take i, t.sent_lt, ?_, ?_, ?_, t.ids, t.nodup, t.links, t.bodies,
    by rw [hans, hheld]; exact t.flying, by rw [hheld]; exact t.one, t.submitId,
    by rw [hans]; exact t.completedId, t.inFlight, t.depth⟩
  · intro id hid
    rcases List.mem_append.mp hid with hid | hid
    · exact t.answered_lt id hid
    · rw [List.mem_singleton.mp hid]
      exact t.ok.fresh r hr
  · intro r' hr' hmem
    rcases List.mem_append.mp hmem with hmem | hmem
    · exact t.unanswered r' (List.mem_of_mem_eraseIdx hr') hmem
    · exact (t.ok.taken hi).2 r' hr' (List.mem_singleton.mp hmem)
  · intro id fp hfp hasync
    by_cases hid : id = r.id
    · rw [hid, hgone] at hfp
      cases hfp
    · rw [hold id hid] at hfp
      exact t.sole id fp hfp hasync

/-- The answer to the async doorbell on the link completes the oldest operation. -/
theorem answerAsync (t : Tickets c v h pending x answered line) {i : ℕ} {r : Request}
    (hi : h.inFlight[i]? = some r) (hheld : asyncHeld pending r = true) :
    Tickets c v (h.take i) (Function.update pending r.id none)
      { x with busy := false, completedId := x.completedId + 1, inFlight := x.inFlight - 1 }
      (answered ++ [r.id]) line := by
  have hr := List.mem_of_getElem? hi
  have hold : ∀ id, id ≠ r.id → Function.update pending r.id none id = pending id :=
    fun id hid => Function.update_of_ne hid _ _
  have hperm := t.held_take hi hold
  have hfilter : [r].filter (asyncHeld pending) = [r] := by simp [hheld]
  rw [hfilter] at hperm
  -- The doorbell is the only one on the link.
  have hbusy : x.busy = true := by
    by_contra hidle
    have hone := t.one
    rw [if_neg hidle] at hone
    have := hperm.length_eq
    simp only [List.length_append, List.length_singleton] at this
    omega
  have hone := t.one
  rw [if_pos hbusy] at hone
  obtain ⟨r', hr'⟩ := List.length_eq_one_iff.mp hone
  have hrest : (h.take i).inFlight.filter (asyncHeld (Function.update pending r.id none)) = [] := by
    have := hperm.length_eq
    rw [hone] at this
    simp only [List.length_append, List.length_singleton] at this
    exact List.length_eq_zero_iff.mp (by omega)
  have hsingle : h.inFlight.filter (asyncHeld pending) = [r] := by
    rw [hrest, List.append_nil] at hperm
    exact (List.singleton_perm.mp hperm).symm
  have hfly := t.flying
  rw [hsingle] at hfly
  have hmem : r.id ∈ x.dispatched := by
    rw [hfly]
    simp
  have hans : asyncAnswered (answered ++ [r.id]) x.dispatched =
      asyncAnswered answered x.dispatched ++ [r.id] := by
    simp [asyncAnswered, List.filter_append, hmem]
  have hcount := t.inFlight
  have hlen := congrArg List.length hfly
  have hsub := congrArg List.length t.bodies
  have hids := congrArg List.length t.ids
  have hsubmit := t.submitId
  have hcompleted := t.completedId
  simp only [List.length_append, List.length_map, List.length_singleton] at hlen hsub hids
  refine ⟨t.ok.take i, t.sent_lt, ?_, ?_, ?_, t.ids, t.nodup, t.links, t.bodies, ?_,
    by rw [hrest]; rfl, t.submitId, ?_, ?_, ?_⟩
  · intro id hid
    rcases List.mem_append.mp hid with hid | hid
    · exact t.answered_lt id hid
    · rw [List.mem_singleton.mp hid]
      exact t.ok.fresh r hr
  · intro r'' hr'' hmem
    rcases List.mem_append.mp hmem with hmem | hmem
    · exact t.unanswered r'' (List.mem_of_mem_eraseIdx hr'') hmem
    · exact (t.ok.taken hi).2 r'' hr'' (List.mem_singleton.mp hmem)
  · intro id fp hfp hasync
    by_cases hid : id = r.id
    · rw [hid, Function.update_self] at hfp
      cases hfp
    · rw [hold id hid] at hfp
      exact t.sole id fp hfp hasync
  · rw [hans, hrest, List.map_nil, List.append_nil]
    exact hfly
  · rw [hans, List.length_append, List.length_singleton, t.completedId]
  · simp only
    omega
  · have hdepth := t.depth
    simp only
    omega

/-- A SUBMIT joins the line at its end. -/
theorem submit (t : Tickets c v h pending x answered line) (bytes : List UInt8) {d : Doorbell}
    (hd : d.body = asyncBody c bytes) (hdepth : x.inFlight + 1 ≤ c.asyncCompletionDepth) :
    Tickets c v h pending
      { x with submits := x.submits ++ [bytes], submitId := x.submitId + 1,
               inFlight := x.inFlight + 1 } answered (line ++ [d]) := by
  refine ⟨t.ok, t.sent_lt, t.answered_lt, t.unanswered, t.sole, t.ids, t.nodup, t.links, ?_,
    t.flying, t.one, ?_, t.completedId, ?_, hdepth⟩
  · simp only [List.map_append, List.map_cons, List.map_nil, t.bodies, hd, List.append_assoc]
  · simp only [List.length_append, List.length_singleton, t.submitId]
  · have := t.inFlight
    simp only
    omega

/-- The unanswered doorbells are the ones in flight. -/
theorem unanswered_ids (t : Tickets c v h pending x answered line) :
    ((asyncSent h x.dispatched).filter fun r => r.id ∉ answered).map Request.id =
      (h.inFlight.filter (asyncHeld pending)).map Request.id := by
  have hids : ((asyncSent h x.dispatched).filter fun r => r.id ∉ answered).map Request.id =
      x.dispatched.filter fun id => id ∉ answered := by
    conv_rhs => rw [← t.ids]
    rw [List.filter_map]
    rfl
  have hanswered : (asyncAnswered answered x.dispatched).filter (fun id => id ∉ answered) = [] :=
    List.filter_eq_nil_iff.mpr fun id hid => by simpa using List.mem_of_mem_filter hid
  have hflight : ((h.inFlight.filter (asyncHeld pending)).map Request.id).filter
      (fun id => id ∉ answered) = (h.inFlight.filter (asyncHeld pending)).map Request.id := by
    refine List.filter_eq_self.mpr fun id hid => ?_
    obtain ⟨r, hr, rfl⟩ := List.mem_map.mp hid
    simpa using t.unanswered r (List.mem_of_mem_filter hr)
  calc _ = x.dispatched.filter fun id => id ∉ answered := hids
    _ = (asyncAnswered answered x.dispatched ++
          (h.inFlight.filter (asyncHeld pending)).map Request.id).filter fun id => id ∉ answered :=
        congrArg (List.filter _) t.flying
    _ = (h.inFlight.filter (asyncHeld pending)).map Request.id := by
        rw [List.filter_append, hanswered, hflight, List.nil_append]

/-- The operations in flight are on the link or in the line. -/
theorem inFlight_eq (t : Tickets c v h pending x answered line) :
    x.inFlight = (if x.busy then 1 else 0) + line.length := by
  have hcount := t.inFlight
  have hone := t.one
  have hfly := congrArg List.length t.flying
  have hsub := congrArg List.length t.bodies
  have hids := congrArg List.length t.ids
  have hsubmit := t.submitId
  have hcompleted := t.completedId
  simp only [List.length_append, List.length_map] at hfly hsub hids
  omega

/-- The answered operations are the first ones, as many as are counted. -/
theorem answered_iff (t : Tickets c v h pending x answered line) (j : ℕ) :
    (∃ r, (asyncSent h x.dispatched)[j]? = some r ∧ r.id ∈ answered) ↔ j < x.completedId := by
  have hid : (asyncSent h x.dispatched)[j]?.map Request.id = x.dispatched[j]? := by
    rw [← List.getElem?_map, t.ids]
  have hsplit : x.dispatched[j]? = (asyncAnswered answered x.dispatched ++
      (h.inFlight.filter (asyncHeld pending)).map Request.id)[j]? := congrArg (·[j]?) t.flying
  rw [t.completedId]
  constructor
  · rintro ⟨r, hr, hmem⟩
    by_contra hge
    rw [hr, hsplit, List.getElem?_append_right (Nat.not_lt.mp hge)] at hid
    obtain ⟨r', hr', heq⟩ := List.mem_map.mp (List.mem_of_getElem? hid.symm)
    rw [← heq] at hmem
    exact t.unanswered r' (List.mem_of_mem_filter hr') hmem
  · intro hlt
    rw [hsplit, List.getElem?_append_left hlt, List.getElem?_eq_getElem hlt] at hid
    obtain ⟨r, hr, heq⟩ := Option.map_eq_some_iff.mp hid
    refine ⟨r, hr, ?_⟩
    rw [heq]
    exact List.mem_of_mem_filter (List.getElem_mem hlt)

end Tickets

/-! ### The engine inside the port -/

namespace BalarPort

/-- The operations of the vCPU before the queue: waiting for flushes, or for the drain. -/
def hand (s : BalarPort) (v : ℕ) : List Doorbell :=
  ((s.doorbellFlushes v).filter FlushCtx.isAsync).toList.map FlushCtx.doorbell ++
    ((s.armedDoorbells v).filter ArmedDoorbell.isAsync).toList.map ArmedDoorbell.req

/-- The invariant of the engine driven by `v`, with `extra` between the queue and the rest of
the line. -/
structure AsyncInv (c : BalarConfig) (a : Option ℕ) (v : ℕ) (h : Host) (s : BalarPort)
    (answered : List ℕ) (extra : List Doorbell) : Prop where
  claimed : s.asyncVcpu = a
  tickets : Tickets c v h s.pending (s.asyncView v) answered
    (s.submitQueue v ++ (extra ++ s.hand v))
  queued : s.submitQueue v ≠ [] → s.asyncBusy v = true
  armed : ∀ u, u ≠ v → ∀ d, s.armedDoorbells u = some d → d.isAsync = false
  flush : ∀ u, u ≠ v → ∀ ctx, s.doorbellFlushes u = some ctx → ctx.isAsync = false

variable {c : BalarConfig} {a : Option ℕ} {u v : ℕ} {h : Host} {s : BalarPort}
  {answered : List ℕ} {extra : List Doorbell}

theorem AsyncInv.post (hi : AsyncInv c a v h s answered extra) (vcpu : ℕ) (value : UInt64) :
    AsyncInv c a v (h.postResponse vcpu value) s answered extra :=
  ⟨hi.claimed, hi.tickets.post vcpu value, hi.queued, hi.armed, hi.flush⟩

/-- A forwarded synchronous doorbell does not concern the engine. -/
theorem AsyncInv.forwardSync (hi : AsyncInv c a v h s answered extra) (req : Doorbell) :
    AsyncInv c a v (forwardDoorbell u req false false h s).1
      (forwardDoorbell u req false false h s).2 answered extra := by
  refine ⟨hi.claimed, ?_, hi.queued, hi.armed, hi.flush⟩
  refine hi.tickets.sendOther u .mmio _ (fun id hid => Function.update_of_ne hid _ _) ?_
  intro fp hfp
  have hfp : Function.update s.pending h.nextId (some ⟨u, false, false⟩) h.nextId = some fp := hfp
  rw [Function.update_self] at hfp
  rw [← Option.some.inj hfp]

/-- The operation at the end of the queue joins it, or goes on the idle link. -/
theorem AsyncInv.forwardAsync {req : Doorbell} (hi : AsyncInv c a v h s answered (req :: extra))
    (preAcked : Bool) :
    AsyncInv c a v (forwardDoorbell v req true preAcked h s).1
      (forwardDoorbell v req true preAcked h s).2 answered extra := by
  unfold forwardDoorbell
  cases hbusy : s.asyncBusy v with
  | true =>
      have hqueue : AsyncInv c a v h { s with
          submitQueue := Function.update s.submitQueue v (s.submitQueue v ++ [req]) }
          answered extra := by
        refine ⟨hi.claimed, ?_, fun _ => hbusy, hi.armed, hi.flush⟩
        have ht := hi.tickets
        rw [List.cons_append, List.append_cons] at ht
        simp only [Function.update_self]
        exact ht
      cases preAcked with
      | true => exact hqueue
      | false => exact hqueue.post v 0
  | false =>
      have hnil : s.submitQueue v = [] := by
        by_contra hne
        rw [hi.queued hne] at hbusy
        cases hbusy
      have ht := hi.tickets
      rw [hnil, List.nil_append, List.cons_append] at ht
      have hsent : AsyncInv c a v (h.send v .mmio (.write req.addr req.size req.data)) { s with
          asyncBusy := Function.update s.asyncBusy v true
          pending := Function.update s.pending h.nextId (some ⟨v, false, true⟩)
          dispatched := s.dispatched ++ [h.nextId] } answered extra := by
        refine ⟨hi.claimed, ?_, fun _ => Function.update_self .., hi.armed, hi.flush⟩
        have hd := ht.dispatch hbusy
        simp only [asyncView, Function.update_self, hnil, List.nil_append]
        exact hd
      cases preAcked with
      | true => exact hsent
      | false => exact hsent.post v 0

/-- The loop over the lines leaves the waiting doorbells alone. -/
theorem issueFlushes_ctx (lineSize : UInt64) : ∀ (count : ℕ) (line : UInt64) {h h' : Host}
    {s s' : BalarPort}, BalarPort.issueFlushes u lineSize count line h s = .ok (h', s') →
    s'.doorbellFlushes = s.doorbellFlushes
  | 0, _, _, _, _, _, hrun => by
    cases hrun
    rfl
  | count + 1, line, h, h', s, s', hrun => by
    rw [BalarPort.issueFlushes] at hrun
    split_ifs at hrun
    · cases hrun
      rfl
    · exact (issueFlushes_ctx lineSize count (line + lineSize) hrun).trans rfl

/-- The lines of a flush go to the mem link. -/
theorem AsyncInv.issueFlushes (lineSize : UInt64) : ∀ (count : ℕ) (line : UInt64) {h h' : Host}
    {s s' : BalarPort}, AsyncInv c a v h s answered extra →
    (∀ id, h.nextId ≤ id → s.pending id = none) →
    BalarPort.issueFlushes u lineSize count line h s = .ok (h', s') →
    AsyncInv c a v h' s' answered extra
  | 0, _, _, _, _, _, hi, _, hrun => by
    cases hrun
    exact hi
  | count + 1, line, h, h', s, s', hi, hfresh, hrun => by
    have hone : AsyncInv c a v (h.send u .mem (.flushAddr line lineSize))
        { s with flushToVcpu := Function.update s.flushToVcpu h.nextId (some u) }
        answered extra := by
      refine ⟨hi.claimed, ?_, hi.queued, hi.armed, hi.flush⟩
      refine hi.tickets.sendOther u .mem _ (fun _ _ => rfl) fun fp hfp => ?_
      have hnone := hfresh h.nextId (Nat.le_refl _)
      have hfp : s.pending h.nextId = some fp := hfp
      rw [hnone] at hfp
      cases hfp
    rw [BalarPort.issueFlushes] at hrun
    split_ifs at hrun
    · cases hrun
      exact hone
    · exact AsyncInv.issueFlushes lineSize count (line + lineSize) hone
        (fun id hid => hfresh id (Nat.le_of_succ_le hid)) hrun

/-- What comes before the queue when the doorbell of one vCPU starts to wait for flushes. -/
theorem hand_setFlush (hnone : s.doorbellFlushes u = none) (ctx : FlushCtx)
    (hasync : ctx.isAsync = true → u = v) :
    hand { s with doorbellFlushes := Function.update s.doorbellFlushes u (some ctx) } v =
      (if ctx.isAsync then [ctx.doorbell] else []) ++ s.hand v := by
  by_cases huv : u = v
  · subst huv
    cases hc : ctx.isAsync <;> simp [hand, hnone, Option.filter, hc]
  · have hsync : ctx.isAsync = false := by
      by_contra hne
      exact huv (hasync (by simpa using hne))
    simp [hand, Function.update_of_ne (Ne.symm huv), hsync]

/-- A doorbell in hand waits for its flushes, or is forwarded. -/
theorem AsyncInv.issueDoorbellFlushes {req : Doorbell} {isAsync : Bool}
    (hi : AsyncInv c a v h s answered (if isAsync then [req] else []))
    (hasync : isAsync = true → u = v) (hfresh : ∀ id, h.nextId ≤ id → s.pending id = none)
    {h' : Host} {s' : BalarPort}
    (hrun : BalarPort.issueDoorbellFlushes c u req isAsync false h s = .ok (h', s')) :
    AsyncInv c a v h' s' answered [] := by
  obtain ⟨hnone, range, h₁, s₁, -, hflush, hres⟩ := issueDoorbellFlushes_ok hrun
  have hi₁ := hi.issueFlushes c.cacheLineSize _ _ hfresh hflush
  have hctx : s₁.doorbellFlushes = s.doorbellFlushes := issueFlushes_ctx _ _ _ hflush
  rcases hres with ⟨-, hres⟩ | ⟨-, hres⟩
  · obtain ⟨rfl, rfl⟩ := Prod.ext_iff.mp hres
    cases isAsync with
    | true =>
        obtain rfl := hasync rfl
        exact AsyncInv.forwardAsync hi₁ false
    | false => exact AsyncInv.forwardSync hi₁ req
  · cases hres
    have hhand := hand_setFlush (v := v) (s := s₁) (by rw [hctx]; exact hnone)
      ⟨range.lineCount.toNat, req, isAsync, false⟩ hasync
    refine ⟨hi₁.claimed, ?_, hi₁.queued, hi₁.armed, ?_⟩
    · rw [List.nil_append, hhand]
      exact hi₁.tickets
    · intro u' hu' ctx hctx'
      by_cases huu : u' = u
      · subst huu
        simp only [Function.update_self] at hctx'
        rw [← Option.some.inj hctx']
        by_contra hne
        exact hu' (hasync (by simpa using hne))
      · simp only [Function.update_of_ne huu] at hctx'
        exact hi₁.flush u' hu' ctx hctx'

/-- One turn of `process`. -/
theorem AsyncInv.processOne (hi : AsyncInv c a v h s answered []) (drained : ℕ → Bool)
    (hport : PortInv h s) {h' : Host} {s' : BalarPort}
    (hrun : BalarPort.processOne c drained u h s = .ok (h', s')) :
    AsyncInv c a v h' s' answered [] := by
  rw [BalarPort.processOne] at hrun
  cases harmed : s.armedDoorbells u with
  | none =>
      simp only [harmed] at hrun
      cases hrun
      exact hi
  | some d =>
      simp only [harmed, hport.armed u d harmed] at hrun
      by_cases hdrained : drained u = true
      · rw [if_pos hdrained] at hrun
        have hnone : s.doorbellFlushes u = none := (issueDoorbellFlushes_ok hrun).1
        have hasync : d.isAsync = true → u = v := fun ht => by
          by_contra hne
          rw [hi.armed u hne d harmed] at ht
          cases ht
        refine AsyncInv.issueDoorbellFlushes
          (s := { s with armedDoorbells := Function.update s.armedDoorbells u none })
          ⟨hi.claimed, ?_, hi.queued, ?_, hi.flush⟩ hasync hport.pending hrun
        · have ht := hi.tickets
          have hhand : s.hand v = (if d.isAsync then [d.req] else []) ++
              hand { s with armedDoorbells := Function.update s.armedDoorbells u none } v := by
            by_cases huv : u = v
            · subst huv
              cases hd : d.isAsync <;> simp [hand, hnone, harmed, Option.filter, hd]
            · have hsync := hi.armed u huv d harmed
              simp [hand, Function.update_of_ne (Ne.symm huv), hsync]
          rw [List.nil_append, hhand] at ht
          exact ht
        · intro u' hu' d' hd'
          by_cases huu : u' = u
          · simp only [huu, Function.update_self] at hd'
            cases hd'
          · simp only [Function.update_of_ne huu] at hd'
            exact hi.armed u' hu' d' hd'
      · rw [if_neg hdrained] at hrun
        cases hrun
        exact hi

/-- A doorbell that is not async is armed. -/
theorem AsyncInv.armSync (hi : AsyncInv c a v h s answered []) (hnone : s.armedDoorbells u = none)
    (req : Doorbell) :
    AsyncInv c a v h { s with
      armedDoorbells := Function.update s.armedDoorbells u (some ⟨req, false, false⟩) }
      answered [] := by
  refine ⟨hi.claimed, ?_, hi.queued, fun u' hu' d hd => ?_, hi.flush⟩
  · have hhand : hand { s with
        armedDoorbells := Function.update s.armedDoorbells u (some ⟨req, false, false⟩) } v =
        s.hand v := by
      by_cases huv : u = v
      · subst huv
        simp [hand, hnone, Option.filter]
      · simp [hand, Function.update_of_ne (Ne.symm huv)]
    rw [hhand]
    exact hi.tickets
  · by_cases huu : u' = u
    · simp only [huu, Function.update_self] at hd
      rw [← Option.some.inj hd]
    · simp only [Function.update_of_ne huu] at hd
      exact hi.armed u' hu' d hd

/-- The doorbell of a SUBMIT. -/
def submitDoorbell (c : BalarConfig) (cmd : QuetzCommand) : Doorbell :=
  ⟨c.doorbellAddr, cmd.size, accelU64ToData (submitScratch cmd.data cmd.size) cmd.size⟩

/-- What an accepted SUBMIT does. -/
theorem submit_ok {cmd : QuetzCommand} (hsize : cmd.size ≠ 0) {h' : Host} {s' : BalarPort}
    (hrun : BalarPort.submit c v cmd h s = .ok (h', s')) :
    s.asyncInFlight + 1 ≤ c.asyncCompletionDepth ∧ s.armedDoorbells v = none ∧
      s.doorbellFlushes v = none ∧ h' = h ∧ s' = { s with
        submitId := Function.update s.submitId v (s.submitId v + 1)
        asyncInFlight := s.asyncInFlight + 1
        submits := s.submits ++ [cmd.data.take cmd.size]
        armedDoorbells := Function.update s.armedDoorbells v
          (some ⟨submitDoorbell c cmd, true, false⟩) } := by
  rw [BalarPort.submit] at hrun
  by_cases hcfg : c.doorbellAddr = 0 ∨ (!c.hasMem v) = true
  · rw [if_pos hcfg] at hrun
    cases hrun
  rw [if_neg hcfg] at hrun
  by_cases hdepth : s.asyncInFlight + 1 > c.asyncCompletionDepth
  · rw [if_pos hdepth] at hrun
    cases hrun
  rw [if_neg hdepth] at hrun
  dsimp only at hrun
  by_cases hnest : (s.armedDoorbells v).isSome = true ∨ (s.doorbellFlushes v).isSome = true
  · rw [if_pos hnest] at hrun
    cases hrun
  rw [if_neg hnest, if_pos hsize] at hrun
  obtain ⟨harmed, hflush⟩ := not_or.mp hnest
  obtain ⟨rfl, rfl⟩ := Prod.mk.inj (Except.ok.inj hrun)
  exact ⟨Nat.not_lt.mp hdepth, by simpa using harmed, by simpa using hflush, rfl, rfl⟩

/-- An accepted SUBMIT takes the next ticket. -/
theorem AsyncInv.submit (hi : AsyncInv c a v h s answered []) {cmd : QuetzCommand}
    (hsize : 1 ≤ cmd.size) (hsize₈ : cmd.size ≤ 8) (hdata : cmd.data.length = cmdDataBytes)
    {h' : Host} {s' : BalarPort} (hrun : BalarPort.submit c v cmd h s = .ok (h', s')) :
    AsyncInv c a v h' s' answered [] := by
  obtain ⟨hdepth, harmed, hflush, rfl, hs'⟩ := submit_ok (by omega) hrun
  have hlen : (cmd.data.take cmd.size).length = cmd.size := by
    rw [List.length_take, hdata]
    simp only [cmdDataBytes]
    omega
  have hsub := hi.tickets.submit (cmd.data.take cmd.size) (d := submitDoorbell c cmd)
    (by
      rw [submitDoorbell, accelU64ToData_submitScratch hsize₈
        (by rw [hdata]; simp only [cmdDataBytes]; omega), asyncBody, hlen]
      rfl) hdepth
  have hempty : s.hand v = [] := by simp [hand, harmed, hflush]
  have hhand : s'.hand v = [submitDoorbell c cmd] := by
    rw [hs']
    simp [hand, hflush, Option.filter]
  rw [hempty, List.append_nil, List.append_nil] at hsub
  refine ⟨by rw [hs']; exact hi.claimed, ?_, by rw [hs']; exact hi.queued, ?_,
    by rw [hs']; exact hi.flush⟩
  · rw [hhand, hs']
    simp only [asyncView, Function.update_self]
    exact hsub
  · intro u' hu' d hd
    rw [hs'] at hd
    simp only [Function.update_of_ne hu'] at hd
    exact hi.armed u' hu' d hd

/-- Who may drive the engine stays as it is when no command claims it. -/
theorem engine_keep {a : Option ℕ} {s : BalarPort}
    (hkeep : ∀ v, a = none ∨ a = some v → AsyncInv c a v h s answered []) :
    ∀ v, s.asyncVcpu = none ∨ s.asyncVcpu = some v →
      AsyncInv c s.asyncVcpu v h s answered [] := by
  have hclaimed : s.asyncVcpu = a := by
    cases a with
    | none => exact (hkeep 0 (Or.inl rfl)).claimed
    | some v₀ => exact (hkeep v₀ (Or.inr rfl)).claimed
  rw [hclaimed]
  exact hkeep

/-- Any command keeps the engine's invariant, for the vCPU that drives it. -/
theorem AsyncInv.handleCommand
    (hi : ∀ v, s.asyncVcpu = none ∨ s.asyncVcpu = some v →
      AsyncInv c s.asyncVcpu v h s answered [])
    {cmd : QuetzCommand} (hcmd : cmd.cmd = .mmioReadReq ∨ cmd.cmd = .mmioWriteReq)
    (hsize : 1 ≤ cmd.size) (hsize₈ : cmd.size ≤ 8) (hdata : cmd.data.length = cmdDataBytes)
    {h' : Host} {s' : BalarPort}
    (hrun : BalarPort.handleCommand c u cmd h s = .ok (h', s')) :
    ∀ v, s'.asyncVcpu = none ∨ s'.asyncVcpu = some v →
      AsyncInv c s'.asyncVcpu v h' s' answered [] := by
  rw [BalarPort.handleCommand] at hrun
  by_cases hasync : inAsync c cmd.addr = true
  · rw [if_pos hasync, handleAsyncAperture] at hrun
    cases hclaim : claimAsync u s with
    | error e =>
        rw [hclaim] at hrun
        cases hrun
    | ok s₁ =>
        have hu : s.asyncVcpu = none ∨ s.asyncVcpu = some u := by
          rw [claimAsync] at hclaim
          cases hv : s.asyncVcpu with
          | none => exact Or.inl rfl
          | some first =>
              simp only [hv] at hclaim
              split_ifs at hclaim with heq
              exact Or.inr (by rw [heq])
        obtain rfl := claimAsync_ok hclaim
        have hi₁ : AsyncInv c (some u) u h { s with asyncVcpu := some u } answered [] :=
          ⟨rfl, (hi u hu).tickets, (hi u hu).queued, (hi u hu).armed, (hi u hu).flush⟩
        have hend : AsyncInv c (some u) u h' s' answered [] := by
          rw [hclaim] at hrun
          rcases hcmd with hcmd | hcmd
          · simp only [hcmd] at hrun
            cases hrun
            exact hi₁.post _ _
          · simp only [hcmd] at hrun
            split_ifs at hrun
            · cases hrun
              exact hi₁.post _ _
            · exact hi₁.submit hsize hsize₈ hdata hrun
        intro v hv
        rw [hend.claimed] at hv ⊢
        rcases hv with hv | hv
        · cases hv
        · obtain rfl := Option.some.inj hv
          exact hend
  · rw [if_neg hasync] at hrun
    have hkeep : ∀ v, s.asyncVcpu = none ∨ s.asyncVcpu = some v →
        AsyncInv c s.asyncVcpu v h' s' answered [] := by
      intro v hv
      have hiv := hi v hv
      rcases hcmd with hcmd | hcmd
      · simp only [hcmd] at hrun
        cases hrun
        refine ⟨hiv.claimed, ?_, hiv.queued, hiv.armed, hiv.flush⟩
        refine hiv.tickets.sendOther u .mmio _ (fun id hid => Function.update_of_ne hid _ _) ?_
        intro fp hfp
        simp only [Function.update_self] at hfp
        rw [← Option.some.inj hfp]
      · simp only [hcmd] at hrun
        split_ifs at hrun with hfwd hnest
        · obtain ⟨rfl, rfl⟩ := Prod.ext_iff.mp (Except.ok.inj hrun)
          exact hiv.forwardSync _
        · cases hrun
          exact hiv.armSync (by simpa using hnest) _
    exact engine_keep hkeep

/-- The loop of `process`. -/
theorem AsyncInv.process (drained : ℕ → Bool) (order : List ℕ) {h h' : Host} {s s' : BalarPort}
    (hi : AsyncInv c a v h s answered []) (hok : h.Ok) (hport : PortInv h s)
    (hone : ∀ u, owed h s u ≤ 1)
    (hrun : BalarPort.process c drained order h s = .ok (h', s')) :
    AsyncInv c a v h' s' answered [] := by
  induction order generalizing h s with
  | nil =>
      cases hrun
      exact hi
  | cons u order ih =>
      rw [BalarPort.process] at hrun
      have hmoved := processOne_moved c drained hok hport (hone u)
      cases hturn : BalarPort.processOne c drained u h s with
      | error e =>
          rw [hturn] at hrun
          cases hrun
      | ok res =>
          obtain ⟨h₁, s₁⟩ := res
          rw [hturn] at hrun hmoved
          have hmoved : Moved h h₁ s₁ fun u => owed h s u + h.posted u := hmoved
          refine ih (hi.processOne drained hport hturn) hmoved.ok hmoved.inv (fun u => ?_) hrun
          have hbal := hmoved.balance u
          have hposted := hmoved.grows.posted u
          have := hone u
          omega

section Answer

variable {i : ℕ} {r : Request}

/-- The answer to a flush. -/
theorem AsyncInv.handleFlushResponse (hi : AsyncInv c a v h s answered []) (hport : PortInv h s)
    (hr : h.inFlight[i]? = some r) (hflush : s.flushToVcpu r.id = some u) (resp : Response)
    {h' : Host} {s' : BalarPort}
    (hrun : BalarPort.handleFlushResponse u r.id resp (h.take i) s = .ok (h', s')) :
    AsyncInv c a v h' s' (answered ++ [r.id]) [] := by
  have hpend : s.pending r.id = none := hport.role r.id u hflush
  have ht := hi.tickets.answerOther hr (by simp [asyncHeld, hpend]) (fun _ _ => rfl) hpend
  rw [BalarPort.handleFlushResponse] at hrun
  dsimp only at hrun
  cases hctx : s.doorbellFlushes u with
  | none =>
      simp only [hctx] at hrun
      cases hrun
  | some ctx =>
      simp only [hctx] at hrun
      by_cases hresp : resp ≠ .flushResp
      · rw [if_pos hresp] at hrun
        cases hrun
      rw [if_neg hresp] at hrun
      have hasync : ctx.isAsync = true → u = v := fun h => by
        by_contra hne
        rw [hi.flush u hne ctx hctx] at h
        cases h
      by_cases hlast : ctx.remaining - 1 = 0
      · rw [if_pos hlast] at hrun
        set s₁ : BalarPort := { s with
          flushToVcpu := Function.update s.flushToVcpu r.id none
          doorbellFlushes := Function.update s.doorbellFlushes u none } with hs₁
        have hi₁ : AsyncInv c a v (h.take i) s₁ (answered ++ [r.id])
            (if ctx.isAsync then [ctx.doorbell] else []) := by
          refine ⟨hi.claimed, ?_, hi.queued, hi.armed, fun u' hu' ctx' hctx' => ?_⟩
          · have hhand : s.hand v = (if ctx.isAsync then [ctx.doorbell] else []) ++ s₁.hand v := by
              by_cases huv : u = v
              · subst huv
                cases hc : ctx.isAsync <;> simp [hs₁, hand, hctx, Option.filter, hc]
              · have hsync := hi.flush u huv ctx hctx
                simp [hs₁, hand, Function.update_of_ne (Ne.symm huv), hsync]
            rw [List.nil_append, hhand] at ht
            exact ht
          · by_cases huu : u' = u
            · simp only [hs₁, huu, Function.update_self] at hctx'
              cases hctx'
            · simp only [hs₁, Function.update_of_ne huu] at hctx'
              exact hi.flush u' hu' ctx' hctx'
        obtain ⟨rfl, rfl⟩ := Prod.ext_iff.mp (Except.ok.inj hrun)
        rw [hport.acked u ctx hctx]
        cases hc : ctx.isAsync with
        | true =>
            rw [hc] at hi₁
            obtain rfl := hasync hc
            exact AsyncInv.forwardAsync hi₁ false
        | false =>
            rw [hc] at hi₁
            exact AsyncInv.forwardSync hi₁ ctx.doorbell
      · rw [if_neg hlast] at hrun
        cases hrun
        refine ⟨hi.claimed, ?_, hi.queued, hi.armed, fun u' hu' ctx' hctx' => ?_⟩
        · have hhand : hand { s with
              flushToVcpu := Function.update s.flushToVcpu r.id none
              doorbellFlushes := Function.update s.doorbellFlushes u
                (some { ctx with remaining := ctx.remaining - 1 }) } v = s.hand v := by
            by_cases huv : u = v
            · subst huv
              cases hc : ctx.isAsync <;> simp [hand, hctx, Option.filter, hc]
            · simp [hand, Function.update_of_ne (Ne.symm huv)]
          rw [hhand]
          exact ht
        · by_cases huu : u' = u
          · subst huu
            simp only [Function.update_self] at hctx'
            rw [← Option.some.inj hctx']
            exact hi.flush u' hu' ctx hctx
          · simp only [Function.update_of_ne huu] at hctx'
            exact hi.flush u' hu' ctx' hctx'

/-- An operation that leaves the queue goes on the link without a further acknowledgement. -/
theorem forwardDoorbell_idle (hidle : s.asyncBusy v = false) (req : Doorbell) :
    forwardDoorbell v req true true h s = (h.send v .mmio req.body, { s with
      asyncBusy := Function.update s.asyncBusy v true
      pending := Function.update s.pending h.nextId (some ⟨v, false, true⟩)
      dispatched := s.dispatched ++ [h.nextId] }) := by
  rw [forwardDoorbell, hidle]
  rfl

/-- The answer to the async doorbell: the next operation of the queue goes on the link. -/
theorem AsyncInv.retireAsync (hi : AsyncInv c a v h s answered []) (hr : h.inFlight[i]? = some r)
    (hheld : asyncHeld s.pending r = true) (value : UInt64) :
    AsyncInv c a v
      (BalarPort.retireAsync v value (h.take i)
        { s with pending := Function.update s.pending r.id none }).1
      (BalarPort.retireAsync v value (h.take i)
        { s with pending := Function.update s.pending r.id none }).2 (answered ++ [r.id]) [] := by
  have ht := hi.tickets.answerAsync hr hheld
  simp only [BalarPort.retireAsync]
  cases hq : s.submitQueue v with
  | nil =>
      refine ⟨hi.claimed, ?_, fun hne => absurd hq hne, hi.armed, hi.flush⟩
      simp only [asyncView, Function.update_self]
      exact ht
  | cons next rest =>
      rw [hq, List.cons_append] at ht
      have hd := ht.dispatch rfl
      dsimp only
      rw [forwardDoorbell_idle (Function.update_self ..)]
      refine ⟨hi.claimed, ?_, fun _ => Function.update_self .., hi.armed, hi.flush⟩
      simp only [asyncView, Function.update_self]
      exact hd

/-- The answer to any request. -/
theorem AsyncInv.handleResponse (hi : AsyncInv c a v h s answered []) (hport : PortInv h s)
    (hr : h.inFlight[i]? = some r) (resp : Response) :
    match BalarPort.handleResponse r.id resp (h.take i) s with
    | .error _ => True
    | .ok (some (h', s')) => AsyncInv c a v h' s' (answered ++ [r.id]) []
    | .ok none => AsyncInv c a v (h.take i) s (answered ++ [r.id]) [] := by
  rw [BalarPort.handleResponse]
  cases hflush : s.flushToVcpu r.id with
  | some u =>
      dsimp only
      cases hrun : BalarPort.handleFlushResponse u r.id resp (h.take i) s with
      | error e => trivial
      | ok res => exact hi.handleFlushResponse hport hr hflush resp hrun
  | none =>
      dsimp only
      cases hp : s.pending r.id with
      | none =>
          have ht := hi.tickets.answerOther hr (by simp [asyncHeld, hp]) (fun _ _ => rfl) hp
          exact ⟨hi.claimed, ht, hi.queued, hi.armed, hi.flush⟩
      | some fp =>
          dsimp only
          cases hasync : fp.isAsync with
          | true =>
              obtain rfl := hi.tickets.sole r.id fp hp hasync
              exact hi.retireAsync hr (by simp [asyncHeld, hp, hasync]) _
          | false =>
              have ht := hi.tickets.answerOther hr (by simp [asyncHeld, hp, hasync])
                (fun id hid => Function.update_of_ne hid _ _) (Function.update_self ..)
              have hi₁ : AsyncInv c a v (h.take i)
                  { s with pending := Function.update s.pending r.id none }
                  (answered ++ [r.id]) [] :=
                ⟨hi.claimed, ht, hi.queued, hi.armed, hi.flush⟩
              exact hi₁.post _ _

end Answer

end BalarPort

namespace PortWorld

/-! ### Every reachable state -/

/-- The invariant of a port between its guest and its links. -/
structure Inv (c : BalarConfig) (w : PortWorld) : Prop where
  ok : w.host.Ok
  port : PortInv w.host w.port
  balance : ∀ u, owed w.host w.port u + w.host.posted u = w.taken u
  owes : ∀ u, owed w.host w.port u ≤ 1
  engine : ∀ v, w.port.asyncVcpu = none ∨ w.port.asyncVcpu = some v →
    AsyncInv c w.port.asyncVcpu v w.host w.port w.answered []

variable {c : BalarConfig} {w w' : PortWorld}

theorem Inv.start (c : BalarConfig) : Inv c {} := by
  refine ⟨⟨by simp, by simp⟩, ⟨⟨fun _ _ => rfl, fun _ _ => rfl, by simp, by simp⟩, by simp, by simp,
    by simp, by simp⟩, fun _ => rfl, fun _ => by simp [owed], fun v _ => ?_⟩
  refine ⟨rfl, ?_, fun h => absurd rfl h, by simp, by simp⟩
  exact ⟨⟨by simp, by simp⟩, by simp, by simp, by simp, by simp, rfl, by simp [asyncView],
    by simp [asyncSent], rfl, rfl, rfl, rfl, rfl, rfl, Nat.zero_le _⟩

/-- Nothing is owed to a vCPU whose commands are all acknowledged. -/
theorem Inv.owed_eq_zero (hi : Inv c w) {v : ℕ} (hack : w.host.posted v = w.taken v) :
    owed w.host w.port v = 0 := by
  have := hi.balance v
  omega

/-- A step that changes nobody's total. -/
theorem Inv.of_moved {h₀ h : Host} {s : BalarPort} {answered : List ℕ} (hi : Inv c w)
    (hm : Moved h₀ h s fun u => owed w.host w.port u + w.host.posted u)
    (hposts : h₀.posts = w.host.posts)
    (he : ∀ v, s.asyncVcpu = none ∨ s.asyncVcpu = some v →
      AsyncInv c s.asyncVcpu v h s answered []) :
    Inv c ⟨h, s, w.taken, answered⟩ := by
  refine ⟨hm.ok, hm.inv, fun u => (hm.balance u).trans (hi.balance u), fun u => ?_, he⟩
  have hbal := hm.balance u
  have hposted : w.host.posted u ≤ h.posted u := by
    have := hm.grows.posted u
    rwa [Host.posted, hposts] at this
  have := hi.owes u
  show owed h s u ≤ 1
  omega

/-- Every event keeps the invariant. -/
theorem Inv.step {e : PortEvent} (hi : Inv c w) (hallowed : w.Allowed e)
    (hrun : w.step c e = .ok w') : Inv c w' := by
  cases e with
  | command v cmd =>
      obtain ⟨hack, hcmd, hsize, hsize₈, hdata⟩ := hallowed
      have hmoved := handleCommand_moved c hi.ok hi.port (hi.owed_eq_zero hack) hcmd
      rw [PortWorld.step] at hrun
      cases hres : handleCommand c v cmd w.host w.port with
      | error e =>
          rw [hres] at hrun
          cases hrun
      | ok res =>
          obtain ⟨h, s⟩ := res
          rw [hres] at hrun hmoved
          have hmoved : Moved w.host h s fun u =>
            owed w.host w.port u + w.host.posted u + if v = u then 1 else 0 := hmoved
          cases hrun
          refine ⟨hmoved.ok, hmoved.inv, fun u => ?_, fun u => ?_,
            AsyncInv.handleCommand hi.engine hcmd hsize hsize₈ hdata hres⟩
          · have hbal := hmoved.balance u
            have hold := hi.balance u
            by_cases hu : v = u
            · subst hu
              simp only [if_true, Function.update_self] at hbal ⊢
              omega
            · simp only [if_neg hu, Function.update_of_ne (Ne.symm hu)] at hbal ⊢
              omega
          · have hbal := hmoved.balance u
            have hposted := hmoved.grows.posted u
            have howes := hi.owes u
            show owed h s u ≤ 1
            by_cases hu : v = u
            · subst hu
              have := hi.owed_eq_zero hack
              simp only [if_true] at hbal
              omega
            · simp only [if_neg hu] at hbal
              omega
  | process drained order =>
      have hmoved := process_moved c drained order hi.ok hi.port hi.owes
      rw [PortWorld.step] at hrun
      cases hres : process c drained order w.host w.port with
      | error e =>
          rw [hres] at hrun
          cases hrun
      | ok res =>
          obtain ⟨h, s⟩ := res
          rw [hres] at hrun hmoved
          cases hrun
          refine hi.of_moved hmoved rfl fun v hv => ?_
          have hkeep : ∀ v, w.port.asyncVcpu = none ∨ w.port.asyncVcpu = some v →
              AsyncInv c w.port.asyncVcpu v h s w.answered [] := fun v hv =>
            (hi.engine v hv).process drained order hi.ok hi.port hi.owes hres
          exact engine_keep hkeep v hv
  | answer i data =>
      rw [PortWorld.step] at hrun
      cases hreq : w.host.inFlight[i]? with
      | none =>
          rw [hreq] at hrun
          cases hrun
          exact hi
      | some r =>
          simp only [hreq] at hrun
          have hmoved := handleResponse_moved hi.ok hi.port hreq data
          have hasync : ∀ v, w.port.asyncVcpu = none ∨ w.port.asyncVcpu = some v → _ :=
            fun v hv => (hi.engine v hv).handleResponse hi.port hreq (r.body.response data)
          cases hres : handleResponse r.id (r.body.response data) (w.host.take i) w.port with
          | error e =>
              rw [hres] at hrun
              cases hrun
          | ok res =>
              rw [hres] at hrun hmoved hasync
              cases res with
              | none =>
                  cases hrun
                  obtain ⟨hinv, howed⟩ := hmoved
                  refine ⟨hi.ok.take i, hinv, fun u => ?_, fun u => ?_, hasync⟩
                  · show owed (w.host.take i) w.port u + (w.host.take i).posted u = w.taken u
                    rw [howed u]
                    exact hi.balance u
                  · show owed (w.host.take i) w.port u ≤ 1
                    rw [howed u]
                    exact hi.owes u
              | some res =>
                  obtain ⟨h, s⟩ := res
                  cases hrun
                  have hmoved : Moved (w.host.take i) h s fun u =>
                    owed w.host w.port u + w.host.posted u := hmoved
                  exact hi.of_moved hmoved rfl (engine_keep hasync)

theorem Reachable.inv (hw : Reachable c w) : Inv c w := by
  induction hw with
  | start => exact Inv.start c
  | step _ hallowed hrun ih => exact ih.step hallowed hrun

/-! ### The tickets -/

/-- The async doorbells on the mmio link that are not answered yet. -/
def unanswered (w : PortWorld) : List Request :=
  (asyncSent w.host w.port.dispatched).filter fun r => r.id ∉ w.answered

/-- The doorbell of the submitted operation at position `j` was sent and answered. -/
def OperationAnswered (w : PortWorld) (j : ℕ) : Prop :=
  ∃ r, (asyncSent w.host w.port.dispatched)[j]? = some r ∧ r.id ∈ w.answered

/-- Conservation, order and contents of the operations of the vCPU `v`. -/
structure TicketsConserved (c : BalarConfig) (v : ℕ) (w : PortWorld) : Prop where
  conserved : w.port.submitId v - w.port.completedId v = w.port.asyncInFlight
  completed_le : w.port.completedId v ≤ w.port.submitId v
  places : w.port.asyncInFlight =
    ((w.port.armedDoorbells v).filter ArmedDoorbell.isAsync).toList.length +
    ((w.port.doorbellFlushes v).filter FlushCtx.isAsync).toList.length +
    w.unanswered.length + (w.port.submitQueue v).length
  depth : w.port.asyncInFlight ≤ c.asyncCompletionDepth
  busy : w.port.asyncBusy v = true ↔ w.unanswered.length = 1
  queued : w.port.submitQueue v ≠ [] → w.port.asyncBusy v = true
  /-- The SUBMITs counted by the ticket register are the recorded ones. -/
  tickets : w.port.submitId v = w.port.submits.length
  /-- The doorbells go on the mmio link of the vCPU, in the order of the SUBMITs and with
  their bytes. -/
  links : ∀ r ∈ asyncSent w.host w.port.dispatched, r.link = .mmio ∧ r.vcpu = v
  order : (asyncSent w.host w.port.dispatched).map Request.body <+:
    w.port.submits.map (asyncBody c)
  completed : ∀ k, w.port.completedId v = k ↔ ∀ j, w.OperationAnswered j ↔ j < k

/-- Conservation, order and contents of the async doorbells, in every reachable state. -/
theorem async_tickets_conserved (hw : Reachable c w) {v : ℕ} (hv : w.port.asyncVcpu = some v) :
    w.TicketsConserved c v := by
  have hi := hw.inv.engine v (Or.inr hv)
  have ht := hi.tickets
  have hcount := ht.inFlight_eq
  have hunanswered : w.unanswered.length = if w.port.asyncBusy v then 1 else 0 := by
    have hlen := congrArg List.length ht.unanswered_ids
    rw [List.length_map, List.length_map, ht.one] at hlen
    exact hlen
  refine ⟨?_, ?_, ?_, ht.depth, ?_, hi.queued, ht.submitId, ht.links, ⟨_, ht.bodies.symm⟩, ?_⟩
  · have hsum : w.port.asyncInFlight + w.port.completedId v = w.port.submitId v := ht.inFlight
    omega
  · have hsum : w.port.asyncInFlight + w.port.completedId v = w.port.submitId v := ht.inFlight
    omega
  · have hcount : w.port.asyncInFlight = (if w.port.asyncBusy v then 1 else 0) +
      (w.port.submitQueue v ++ ([] ++ w.port.hand v)).length := hcount
    simp only [hand, List.length_append, List.length_map, List.length_nil] at hcount
    omega
  · rw [hunanswered]
    cases w.port.asyncBusy v <;> simp
  · intro k
    have hiff : ∀ j, w.OperationAnswered j ↔ j < w.port.completedId v := ht.answered_iff
    constructor
    · rintro rfl
      exact hiff
    · intro hall
      have hlow := (hiff k).symm.trans (hall k)
      have hhigh := (hiff (w.port.completedId v)).symm.trans (hall (w.port.completedId v))
      omega

/-! ### A run with two operations -/

instance (w : PortWorld) : (e : PortEvent) → Decidable (w.Allowed e)
  | .command .. => inferInstanceAs (Decidable (_ ∧ _))
  | .process .. => inferInstanceAs (Decidable True)
  | .answer .. => inferInstanceAs (Decidable True)

/-- The state after the events, if all of them are allowed and none is fatal. -/
def run (c : BalarConfig) : List PortEvent → PortWorld → Option PortWorld
  | [], w => some w
  | e :: es, w =>
    if w.Allowed e then
      match w.step c e with
      | .error _ => none
      | .ok w' => run c es w'
    else none

theorem Reachable.run {es : List PortEvent} (hw : Reachable c w) (hrun : w.run c es = some w') :
    Reachable c w' := by
  induction es generalizing w with
  | nil =>
      cases hrun
      exact hw
  | cons e es ih =>
      rw [PortWorld.run] at hrun
      by_cases hallowed : w.Allowed e
      · rw [if_pos hallowed] at hrun
        cases hstep : w.step c e with
        | error msg =>
            rw [hstep] at hrun
            cases hrun
        | ok w₁ =>
            rw [hstep] at hrun
            exact ih (hw.step hallowed hstep) hrun
      · rw [if_neg hallowed] at hrun
        cases hrun

/-- Packets of one line, at most three operations in flight. -/
def smallConfig : BalarConfig where
  doorbellAddr := 0x1000
  packetFlushBytes := 64
  asyncOffload := true
  asyncDoorbellAddr := 0x2000
  asyncCompletionDepthParam := 3

/-- A SUBMIT of `size` bytes. -/
def smallSubmit (size : ℕ) (page : UInt8) : PortEvent :=
  .command 0 ⟨.mmioWriteReq, size, 0, 0x2000, 0, [0, page] ++ List.replicate 62 0⟩

/-- Two operations of different width; the second one waits in the queue for the first. -/
def smallRun : List PortEvent :=
  [smallSubmit 8 3, .process (fun _ => true) [0], .answer 0 [],
    smallSubmit 4 5, .process (fun _ => true) [0], .answer 1 [], .answer 0 []]

/-- After the run the second operation is on the link and the first one is complete. -/
theorem async_tickets_conserved_small : ∃ w, Reachable smallConfig w ∧
    w.TicketsConserved smallConfig 0 ∧ w.port.submitId 0 = 2 ∧ w.port.completedId 0 = 1 ∧
    w.port.asyncBusy 0 = true := by
  have hfin : (run smallConfig smallRun {}).any (fun w =>
      decide (w.port.asyncVcpu = some 0 ∧ w.port.submitId 0 = 2 ∧
        w.port.completedId 0 = 1 ∧ w.port.asyncBusy 0 = true)) = true := by
    decide +kernel
  obtain ⟨w, hrun, hfin⟩ := (Option.any_eq_true _ _).mp hfin
  obtain ⟨hv, hsubmit, hcompleted, hbusy⟩ := of_decide_eq_true hfin
  have hreach : Reachable smallConfig w := Reachable.start.run hrun
  exact ⟨w, hreach, async_tickets_conserved hreach hv, hsubmit, hcompleted, hbusy⟩

end PortWorld

end Quetz
