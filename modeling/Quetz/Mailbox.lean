import Mathlib.Data.List.Nodup
import Mathlib.Logic.Function.Basic

/-!
# The Synchronous MMIO Mailbox

One vCPU slot of the shared-memory mailbox between QEMU and SST. The producers are
`quetz_ipc_mmio_read` and `quetz_ipc_mmio_write` (`src/qemu-overlay/quetz_ipc_client.c`) and
`cb_cache_op` (`src/src/qemu_plugin/instrument.cpp`); they exclude each other with the `busy`
word (`include/quetz/quetz_ipc_lock.h`) and hold it from publication to the consumption of the
response. The consumer is SST: `pollMmioSyncMailbox` takes the request fields and clears
`pending`, and `postResponse` stores `value` and then `ready`, some time later.

Every load, store and compare-and-swap of the sources is one event, and events of different
parties interleave freely. A thread's program counter is the next shared-memory operation it
performs. SST may poll again while it serves a request, and it may answer the requests it
serves in any order.

The record also keeps four histories that no party reads: the calls in the order in which they
set `pending`, the requests SST took, the responses it posted, and the values calls returned.

## Main results

* `Inv.step`: one event keeps the invariant over all program counters.
* `mailbox_agreement`: exclusion, no lost or overwritten request, and matching responses.
-/

namespace Quetz.Mailbox

/-- The commands of the synchronous mailbox. -/
inductive Cmd where
  | nop | mmioRead | mmioWrite | cacheOp
deriving DecidableEq, Repr

/-- The request fields of a slot. -/
structure Request where
  cmd : Cmd
  addr : UInt64
  size : UInt32
  writeVal : UInt64
deriving DecidableEq, Repr

/-- What a producer asks for. A cache operation carries its kind in the `size` field. -/
inductive Op where
  | mmioRead (addr : UInt64) (size : UInt32)
  | mmioWrite (addr : UInt64) (size : UInt32) (value : UInt64)
  | cacheOp (kind : UInt32) (addr value : UInt64)
deriving DecidableEq, Repr

/-- The request an operation publishes. -/
def Op.request : Op → Request
  | .mmioRead addr size => ⟨.mmioRead, addr, size, 0⟩
  | .mmioWrite addr size value => ⟨.mmioWrite, addr, size, value⟩
  | .cacheOp kind addr value => ⟨.cacheOp, addr, kind, value⟩

/-- Whether the operation runs through `cb_cache_op`. -/
def Op.isCacheOp : Op → Bool
  | .cacheOp .. => true
  | _ => false

/-- A call of a producer, numbered when it starts. -/
structure Call where
  ticket : ℕ
  op : Op
deriving DecidableEq, Repr

/-- The next shared-memory operation of a producer. -/
inductive Stage where
  | lock
  | clearReady | clearValue
  | checkPending | checkReady
  | setAddr | setSize | setWriteVal | setCmd | setPending
  | wait | readValue | clearResponse | unlock
  | fatal
deriving DecidableEq, Repr

/-- A producer thread: idle, or in a call, with the value it has read so far. -/
inductive Pc where
  | idle
  | at (stage : Stage) (call : Call) (out : Option UInt64)
deriving DecidableEq, Repr

/-- The next shared-memory operation of SST. -/
inductive Sst where
  | idle
  | loadCmd
  | loadAddr (cmd : Cmd)
  | loadSize (cmd : Cmd) (addr : UInt64)
  | loadWriteVal (cmd : Cmd) (addr : UInt64) (size : UInt32)
  | clearPending (taken : Request)
  | storeValue (index : ℕ) (value : UInt64)
  | storeReady (index : ℕ) (value : UInt64)
deriving DecidableEq, Repr

/-- One slot, its parties and the histories. `serving` holds the positions in `taken` of the
requests SST has taken and not answered. -/
structure State (ι : Type*) where
  busy : UInt32 := 0
  pending : UInt32 := 0
  ready : UInt32 := 0
  req : Request
  value : UInt64
  pc : ι → Pc := fun _ => .idle
  sst : Sst := .idle
  serving : List ℕ := []
  tickets : ℕ := 0
  published : List Call := []
  taken : List Request := []
  posted : List (ℕ × UInt64) := []
  returned : List (Call × Option UInt64) := []

variable {ι : Type*}

/-! ### Events -/

/-- An event: a thread starts a call or performs its next operation; SST polls `pending`,
starts to answer a request it serves, or performs its next operation. -/
inductive Event (ι : Type*) where
  | call (t : ι) (op : Op)
  | run (t : ι)
  | poll
  | post (index : ℕ) (value : UInt64)
  | sst
deriving DecidableEq, Repr

section Events

variable [DecidableEq ι]

/-- Move a thread. -/
def State.goto (s : State ι) (t : ι) (pc : Pc) : State ι :=
  { s with pc := Function.update s.pc t pc }

/-- The next operation of a producer in a call. -/
def State.produce (s : State ι) (t : ι) (call : Call) (out : Option UInt64) :
    Stage → Option (State ι)
  | .lock =>
    -- the compare-and-swap; a failed one is tried again
    if s.busy = 0 then
      some (State.goto { s with busy := 1 } t
        (.at (if call.op.isCacheOp then .checkPending else .clearReady) call out))
    else some s
  | .clearReady => some (State.goto { s with ready := 0 } t (.at .clearValue call out))
  | .clearValue => some (State.goto { s with value := 0 } t (.at .setAddr call out))
  | .checkPending =>
    some (s.goto t (.at (if s.pending ≠ 0 then .fatal else .checkReady) call out))
  | .checkReady => some (s.goto t (.at (if s.ready ≠ 0 then .fatal else .setAddr) call out))
  | .setAddr => some (State.goto
      { s with req := { s.req with addr := call.op.request.addr } } t (.at .setSize call out))
  | .setSize => some (State.goto
      { s with req := { s.req with size := call.op.request.size } } t
      (.at .setWriteVal call out))
  | .setWriteVal => some (State.goto
      { s with req := { s.req with writeVal := call.op.request.writeVal } } t
      (.at .setCmd call out))
  | .setCmd => some (State.goto
      { s with req := { s.req with cmd := call.op.request.cmd } } t (.at .setPending call out))
  | .setPending => some (State.goto
      { s with pending := 1, published := s.published ++ [call] } t (.at .wait call out))
  | .wait =>
    if s.ready = 0 then some s
    else some (s.goto t
      (.at (if call.op.isCacheOp then .clearResponse else .readValue) call out))
  | .readValue => some (s.goto t (.at .clearResponse call (some s.value)))
  | .clearResponse => some (State.goto { s with ready := 0 } t (.at .unlock call out))
  | .unlock => some (State.goto
      { s with busy := 0, returned := s.returned ++ [(call, out)] } t .idle)
  | .fatal => none

/-- The next operation of SST inside `pollMmioSyncMailbox` or `postResponse`. -/
def State.consume (s : State ι) : Option (State ι) :=
  match s.sst with
  | .idle => none
  | .loadCmd => some { s with sst := .loadAddr s.req.cmd }
  | .loadAddr cmd => some { s with sst := .loadSize cmd s.req.addr }
  | .loadSize cmd addr => some { s with sst := .loadWriteVal cmd addr s.req.size }
  | .loadWriteVal cmd addr size =>
    some { s with sst := .clearPending ⟨cmd, addr, size, s.req.writeVal⟩ }
  | .clearPending r =>
    some { s with
      pending := 0, sst := .idle
      serving := s.serving ++ [s.taken.length], taken := s.taken ++ [r] }
  | .storeValue i v => some { s with value := v, sst := .storeReady i v }
  | .storeReady i v =>
    some { s with
      ready := 1, sst := .idle
      serving := s.serving.erase i, posted := s.posted ++ [(i, v)] }

/-- One event, when its party can perform it. -/
def State.step (s : State ι) : Event ι → Option (State ι)
  | .call t op =>
    match s.pc t with
    | .idle => some (State.goto { s with tickets := s.tickets + 1 } t
        (.at .lock ⟨s.tickets, op⟩ none))
    | .at .. => none
  | .run t =>
    match s.pc t with
    | .idle => none
    | .at stage call out => s.produce t call out stage
  | .poll =>
    if s.sst = .idle then
      some (if s.pending = 0 then s else { s with sst := .loadCmd })
    else none
  | .post i v =>
    if s.sst = .idle ∧ i ∈ s.serving then some { s with sst := .storeValue i v } else none
  | .sst => s.consume

/-- The states a fresh slot can reach; its request and value fields start arbitrary. -/
inductive Reachable : State ι → Prop
  | initial (req : Request) (value : UInt64) : Reachable { req := req, value := value }
  | step {s s' : State ι} (h : Reachable s) (e : Event ι) (hs : s.step e = some s') :
      Reachable s'

end Events

/-! ### The invariant -/

/-- The stages in which a thread holds the `busy` word. -/
def Stage.holds : Stage → Bool
  | .lock => false
  | _ => true

/-- Whether a thread holds the `busy` word. -/
def Pc.holds : Pc → Bool
  | .idle => false
  | .at stage _ _ => stage.holds

/-- Where the mailbox stands: nothing in it, a request published, a request taken by SST, or a
response posted. -/
inductive Phase where
  | idle
  | published (call : Call)
  | taken (call : Call) (index : ℕ)
  | posted (call : Call) (index : ℕ) (value : UInt64)

/-- SST has read the fields of `r` so far. -/
def Sst.Reads (r : Request) : Sst → Prop
  | .idle | .loadCmd => True
  | .loadAddr cmd => cmd = r.cmd
  | .loadSize cmd addr => cmd = r.cmd ∧ addr = r.addr
  | .loadWriteVal cmd addr size => cmd = r.cmd ∧ addr = r.addr ∧ size = r.size
  | .clearPending r' => r' = r
  | .storeValue .. | .storeReady .. => False

/-- SST is idle or about to answer the request at position `i`. -/
def Sst.Answers (i : ℕ) (value : UInt64) : Sst → Prop
  | .idle => True
  | .storeValue j _ => j = i
  | .storeReady j v => j = i ∧ value = v
  | _ => False

/-- The requests of the published calls. -/
def State.requests (s : State ι) : List Request := s.published.map fun c => c.op.request

/-- SST posted `v` for the call. -/
def State.Answered (s : State ι) (c : Call) (v : UInt64) : Prop :=
  ∃ i, s.published[i]? = some c ∧ (i, v) ∈ s.posted

/-- The slot is in the given phase. -/
def Phase.Ok (s : State ι) : Phase → Prop
  | .idle => s.pending = 0 ∧ s.ready = 0 ∧ s.serving = [] ∧ s.sst = .idle ∧
      s.requests = s.taken
  | .published c => s.pending = 1 ∧ s.ready = 0 ∧ s.serving = [] ∧
      s.sst.Reads c.op.request ∧ s.requests = s.taken ++ [c.op.request] ∧
      s.req = c.op.request ∧ s.published[s.taken.length]? = some c
  | .taken c i => s.pending = 0 ∧ s.ready = 0 ∧ s.serving = [i] ∧ s.sst.Answers i s.value ∧
      s.requests = s.taken ∧ s.published[i]? = some c
  | .posted c i v => s.pending = 0 ∧ s.ready = 1 ∧ s.serving = [] ∧ s.sst = .idle ∧
      s.requests = s.taken ∧ s.published[i]? = some c ∧ (i, v) ∈ s.posted ∧ s.value = v

/-- What the holder of the `busy` word relies on at each of its stages. -/
def Fits (s : State ι) (ph : Phase) (call : Call) (out : Option UInt64) : Stage → Prop
  | .lock | .fatal => False
  | .clearReady | .clearValue | .checkPending | .checkReady | .setAddr =>
    ph = .idle ∧ out = none
  | .setSize => ph = .idle ∧ out = none ∧ s.req.addr = call.op.request.addr
  | .setWriteVal => ph = .idle ∧ out = none ∧ s.req.addr = call.op.request.addr ∧
      s.req.size = call.op.request.size
  | .setCmd => ph = .idle ∧ out = none ∧ s.req.addr = call.op.request.addr ∧
      s.req.size = call.op.request.size ∧ s.req.writeVal = call.op.request.writeVal
  | .setPending => ph = .idle ∧ out = none ∧ s.req = call.op.request
  | .wait => out = none ∧ (ph = .published call ∨ (∃ i, ph = .taken call i) ∨
      ∃ i v, ph = .posted call i v)
  | .readValue => out = none ∧ ∃ i v, ph = .posted call i v
  | .clearResponse => ∃ i v, ph = .posted call i v ∧ (out = none ∨ out = some v)
  | .unlock => ph = .idle ∧ ∀ v, out = some v → s.Answered call v

/-- The invariant, for the holder `o` of the `busy` word and the phase `ph`. -/
structure Inv (s : State ι) (o : Option ι) (ph : Phase) : Prop where
  busy : s.busy = if o.isSome then 1 else 0
  owner : ∀ t, (s.pc t).holds = true ↔ o = some t
  fits : ∀ t stage call out, o = some t → s.pc t = .at stage call out →
    Fits s ph call out stage
  free : o = none → ph = .idle
  phase : ph.Ok s
  waiting : ∀ t call out, s.pc t = .at .lock call out → out = none
  indices : s.posted.map Prod.fst ++ s.serving = List.range s.taken.length
  returned : ∀ c v, (c, some v) ∈ s.returned → s.Answered c v

theorem inv_initial (req : Request) (value : UInt64) :
    Inv ({ req := req, value := value } : State ι) none .idle where
  busy := rfl
  owner := by simp [Pc.holds]
  fits := by simp
  free := fun _ => rfl
  phase := ⟨rfl, rfl, rfl, rfl, rfl⟩
  waiting := by simp
  indices := rfl
  returned := by simp

variable {s s' : State ι} {t : ι} {ph ph' : Phase}

/-- Histories only grow, so a posted response stays posted. -/
theorem State.Answered.mono {c : Call} {v : UInt64} (h : s.Answered c v) {p : List Call}
    {q : List (ℕ × UInt64)} (hp : s'.published = s.published ++ p)
    (hq : s'.posted = s.posted ++ q) : s'.Answered c v := by
  obtain ⟨i, hi, hmem⟩ := h
  refine ⟨i, ?_, ?_⟩
  · rw [hp, List.getElem?_append_left (List.getElem?_eq_some_iff.mp hi).1]
    exact hi
  · rw [hq]
    exact List.mem_append_left _ hmem

/-- The stage of the holder when the mailbox is not idle. -/
theorem Fits.waits {call : Call} {out : Option UInt64} {stage : Stage}
    (h : Fits s ph call out stage) (hph : (∃ c, ph = .published c) ∨ ∃ c i, ph = .taken c i) :
    stage = .wait := by
  rcases hph with ⟨c, rfl⟩ | ⟨c, i, rfl⟩ <;> cases stage <;> simp_all [Fits]

/-! ### One event of SST -/

/-- A step of SST leaves the threads alone; the holder, if any, still waits. -/
theorem Inv.sst_step {o : Option ι} (h : Inv s o ph) (hpc : s'.pc = s.pc)
    (hbusy : s'.busy = s.busy) (hfree : o = none → ph' = .idle) (hphase : ph'.Ok s')
    (hfits : ∀ stage call out, Fits s ph call out stage → Fits s' ph' call out stage)
    (hind : s'.posted.map Prod.fst ++ s'.serving = List.range s'.taken.length)
    (hret : ∀ c v, s.Answered c v → s'.Answered c v) (hlog : s'.returned = s.returned) :
    Inv s' o ph' where
  busy := hbusy.trans h.busy
  owner u := by rw [hpc]; exact h.owner u
  fits u stage call out hu hpc' := hfits stage call out (h.fits u stage call out hu (hpc ▸ hpc'))
  free := hfree
  phase := hphase
  waiting u call out hu := h.waiting u call out (hpc ▸ hu)
  indices := hind
  returned c v hc := hret c v (h.returned c v (hlog ▸ hc))

/-- A phase other than idle has a holder. -/
theorem Inv.some_owner {o : Option ι} (h : Inv s o ph) (hph : ph ≠ .idle) : o ≠ none :=
  fun ho => hph (h.free ho)

/-- The holder's expectations while it waits and SST takes its request or answers it. -/
theorem Fits.advance {call c : Call} {out : Option UInt64} {stage : Stage}
    (h : Fits s ph call out stage)
    (hph : (ph = .published c ∧ ∃ i, ph' = .taken c i) ∨
      ∃ i v, ph = .taken c i ∧ ph' = .posted c i v) : Fits s' ph' call out stage := by
  have hw : stage = .wait := by
    refine h.waits ?_
    rcases hph with ⟨rfl, -⟩ | ⟨i, v, rfl, -⟩
    · exact Or.inl ⟨c, rfl⟩
    · exact Or.inr ⟨c, i, rfl⟩
  subst hw
  obtain ⟨hout, hcase⟩ := h
  refine ⟨hout, ?_⟩
  rcases hph with ⟨rfl, i, rfl⟩ | ⟨i, v, rfl, rfl⟩
  · obtain rfl : c = call := by simpa using hcase
    exact Or.inr (Or.inl ⟨i, rfl⟩)
  · obtain rfl : c = call := by simpa using hcase
    exact Or.inr (Or.inr ⟨i, v, rfl⟩)

/-- While SST reads the fields, a request is published. -/
theorem Phase.Ok.published_of_reading (h : ph.Ok s) (hne : s.sst ≠ .idle)
    (hst : ∀ i v, s.sst ≠ .storeValue i v) (hst' : ∀ i v, s.sst ≠ .storeReady i v) :
    ∃ c, ph = .published c := by
  cases ph with
  | idle => exact absurd h.2.2.2.1 hne
  | published c => exact ⟨c, rfl⟩
  | taken c i =>
      have ha := h.2.2.2.1
      cases hsst : s.sst <;> simp_all [Sst.Answers]
  | posted c i v => exact absurd h.2.2.2.1 hne

/-- While SST posts a response, a request is taken. -/
theorem Phase.Ok.taken_of_posting (h : ph.Ok s) (hst : (∃ i v, s.sst = .storeValue i v) ∨
    ∃ i v, s.sst = .storeReady i v) : ∃ c i, ph = .taken c i := by
  have hne : s.sst ≠ .idle := by
    rcases hst with ⟨i, v, hst⟩ | ⟨i, v, hst⟩ <;> simp [hst]
  cases ph with
  | idle => exact absurd h.2.2.2.1 hne
  | published c =>
      have hr := h.2.2.2.1
      rcases hst with ⟨i, v, hst⟩ | ⟨i, v, hst⟩
      · rw [hst] at hr
        cases hr
      · rw [hst] at hr
        cases hr
  | taken c i => exact ⟨c, i, rfl⟩
  | posted c i v => exact absurd h.2.2.2.1 hne

/-- SST reads one more field of the published request. -/
theorem Inv.read_field {o : Option ι} {c : Call} (h : Inv s o (.published c)) {sst' : Sst}
    (hr : sst'.Reads c.op.request) : Inv { s with sst := sst' } o (.published c) := by
  obtain ⟨hp, hrd, hsv, -, hreq, hfields, hget⟩ := h.phase
  refine h.sst_step rfl rfl ?_ ⟨hp, hrd, hsv, hr, hreq, hfields, hget⟩ ?_ h.indices
    (fun _ _ ha => ha) rfl
  · exact fun ho => absurd ho (h.some_owner (by simp))
  · intro stage call out hf
    cases hf.waits (Or.inl ⟨c, rfl⟩)
    exact hf

/-- **One operation of SST.** -/
theorem Inv.consume {o : Option ι} (h : Inv s o ph) (hs : s.consume = some s') :
    ∃ ph', Inv s' o ph' := by
  have hphase := h.phase
  have hind := h.indices
  cases hsst : s.sst with
  | idle => simp [State.consume, hsst] at hs
  | loadCmd =>
      obtain ⟨c, rfl⟩ := hphase.published_of_reading (by simp [hsst]) (by simp [hsst])
        (by simp [hsst])
      simp only [State.consume, hsst, Option.some.injEq] at hs
      subst hs
      exact ⟨_, h.read_field (by rw [hphase.2.2.2.2.2.1]; rfl)⟩
  | loadAddr cmd =>
      obtain ⟨c, rfl⟩ := hphase.published_of_reading (by simp [hsst]) (by simp [hsst])
        (by simp [hsst])
      have hr := hphase.2.2.2.1
      simp only [State.consume, hsst, Option.some.injEq] at hs hr
      subst hs
      exact ⟨_, h.read_field ⟨hr, by rw [hphase.2.2.2.2.2.1]⟩⟩
  | loadSize cmd addr =>
      obtain ⟨c, rfl⟩ := hphase.published_of_reading (by simp [hsst]) (by simp [hsst])
        (by simp [hsst])
      have hr := hphase.2.2.2.1
      simp only [State.consume, hsst, Option.some.injEq] at hs hr
      subst hs
      exact ⟨_, h.read_field ⟨hr.1, hr.2, by rw [hphase.2.2.2.2.2.1]⟩⟩
  | loadWriteVal cmd addr size =>
      obtain ⟨c, rfl⟩ := hphase.published_of_reading (by simp [hsst]) (by simp [hsst])
        (by simp [hsst])
      have hr := hphase.2.2.2.1
      simp only [State.consume, hsst, Option.some.injEq] at hs hr
      subst hs
      obtain ⟨rfl, rfl, rfl⟩ := hr
      exact ⟨_, h.read_field (by rw [hphase.2.2.2.2.2.1]; rfl)⟩
  | clearPending r =>
      obtain ⟨c, rfl⟩ := hphase.published_of_reading (by simp [hsst]) (by simp [hsst])
        (by simp [hsst])
      obtain ⟨-, hrd, hsv, hr, hreq, -, hget⟩ := hphase
      rw [hsst] at hr
      obtain rfl : r = c.op.request := hr
      simp only [State.consume, hsst, Option.some.injEq] at hs
      subst hs
      refine ⟨.taken c s.taken.length, h.sst_step rfl rfl ?_ ?_ ?_ ?_ (fun _ _ ha => ha) rfl⟩
      · exact fun ho => absurd ho (h.some_owner (by simp))
      · exact ⟨rfl, hrd, by simp [hsv], trivial, hreq, hget⟩
      · exact fun stage call out hf => hf.advance (Or.inl ⟨rfl, _, rfl⟩)
      · rw [List.length_append, List.length_singleton, List.range_succ, ← hind, List.append_assoc]
  | storeValue i v =>
      obtain ⟨c, j, rfl⟩ := hphase.taken_of_posting (Or.inl ⟨i, v, hsst⟩)
      obtain ⟨hp, hrd, hsv, ha, hreq, hget⟩ := hphase
      rw [hsst] at ha
      obtain rfl : i = j := ha
      simp only [State.consume, hsst, Option.some.injEq] at hs
      subst hs
      refine ⟨.taken c i, h.sst_step rfl rfl ?_ ⟨hp, hrd, hsv, ⟨rfl, rfl⟩, hreq, hget⟩ ?_ hind
        (fun _ _ ha => ha) rfl⟩
      · exact fun ho => absurd ho (h.some_owner (by simp))
      · intro stage call out hf
        cases hf.waits (Or.inr ⟨c, i, rfl⟩)
        exact hf
  | storeReady i v =>
      obtain ⟨c, j, rfl⟩ := hphase.taken_of_posting (Or.inr ⟨i, v, hsst⟩)
      obtain ⟨hp, -, hsv, ha, hreq, hget⟩ := hphase
      rw [hsst] at ha
      obtain ⟨rfl, hval⟩ := ha
      simp only [State.consume, hsst, Option.some.injEq] at hs
      subst hs
      refine ⟨.posted c i v, h.sst_step rfl rfl ?_ ?_ ?_ ?_ ?_ rfl⟩
      · exact fun ho => absurd ho (h.some_owner (by simp))
      · exact ⟨hp, rfl, by simp [hsv], rfl, hreq, hget, by simp, hval⟩
      · exact fun stage call out hf => hf.advance (Or.inr ⟨i, v, rfl, rfl⟩)
      · simpa [hsv] using hind
      · exact fun c' v' ha => ha.mono (List.append_nil _).symm rfl

/-! ### Every call publishes at most once -/

/-- The stages before a call sets `pending`. -/
def Stage.unpublished : Stage → Bool
  | .wait | .readValue | .clearResponse | .unlock | .fatal => false
  | _ => true

/-- The call of a thread that has not set `pending` yet. -/
def Pc.waiting : Pc → Option Call
  | .idle => none
  | .at stage call _ => if stage.unpublished then some call else none

/-- Tickets are fresh: no two calls share one, and a call that has not published yet is not in
the history. -/
structure Tickets (s : State ι) : Prop where
  nodup : (s.published.map Call.ticket).Nodup
  below : ∀ c ∈ s.published, c.ticket < s.tickets
  live : ∀ t c, (s.pc t).waiting = some c →
    c.ticket < s.tickets ∧ c.ticket ∉ s.published.map Call.ticket
  apart : ∀ t u c d, (s.pc t).waiting = some c → (s.pc u).waiting = some d →
    c.ticket = d.ticket → t = u

/-- A step that publishes nothing and starts no call keeps tickets fresh. -/
theorem Tickets.frame (h : Tickets s) (hp : s'.published = s.published)
    (ht : s'.tickets = s.tickets)
    (hw : ∀ t c, (s'.pc t).waiting = some c → (s.pc t).waiting = some c) : Tickets s' where
  nodup := hp ▸ h.nodup
  below := by rw [hp, ht]; exact h.below
  live t c hc := by rw [hp, ht]; exact h.live t c (hw t c hc)
  apart t u c d hc hd := h.apart t u c d (hw t c hc) (hw u d hd)

/-! ### One event of a producer -/

section Steps

variable [DecidableEq ι]

/-- The holder moves to another stage that holds the word. -/
theorem Inv.goto (h : Inv s (some t) ph) {stage : Stage} {call : Call} {out : Option UInt64}
    (hpc : s'.pc = Function.update s.pc t (.at stage call out)) (hs : stage.holds = true)
    (hbusy : s'.busy = s.busy) (hfits : Fits s' ph' call out stage) (hphase : ph'.Ok s')
    (hind : s'.posted.map Prod.fst ++ s'.serving = List.range s'.taken.length)
    (hret : ∀ c v, (c, some v) ∈ s'.returned → s'.Answered c v) : Inv s' (some t) ph' where
  busy := hbusy.trans h.busy
  owner u := by
    by_cases hut : u = t
    · subst hut
      simp [hpc, Pc.holds, hs]
    · rw [hpc, Function.update_of_ne hut]
      exact h.owner u
  fits u stage' call' out' hu hpc' := by
    cases hu
    rw [hpc, Function.update_self] at hpc'
    cases hpc'
    exact hfits
  free := by simp
  phase := hphase
  waiting u call' out' hu := by
    by_cases hut : u = t
    · subst hut
      rw [hpc, Function.update_self] at hu
      cases hu
      cases hs
    · rw [hpc, Function.update_of_ne hut] at hu
      exact h.waiting u call' out' hu
  indices := hind
  returned := hret

/-- Taking the lock. -/
theorem Inv.acquire (h : Inv s none ph) {call : Call} {stage : Stage}
    (hs : stage = .checkPending ∨ stage = .clearReady) :
    Inv (State.goto { s with busy := 1 } t (.at stage call none)) (some t) .idle := by
  obtain rfl := h.free rfl
  have hhold : stage.holds = true := by rcases hs with rfl | rfl <;> rfl
  refine ⟨rfl, fun u => ?_, fun u stage' call' out' hu hpc => ?_, by simp, h.phase, ?_,
    h.indices, h.returned⟩
  · by_cases hut : u = t
    · subst hut
      simp [State.goto, Pc.holds, hhold]
    · have := h.owner u
      simpa [State.goto, Function.update_of_ne hut, Ne.symm hut] using this
  · cases hu
    simp only [State.goto, Function.update_self] at hpc
    cases hpc
    rcases hs with rfl | rfl <;> exact ⟨rfl, rfl⟩
  · intro u call' out' hu
    by_cases hut : u = t
    · subst hut
      simp only [State.goto, Function.update_self] at hu
      cases hu
      cases hhold
    · simp only [State.goto, Function.update_of_ne hut] at hu
      exact h.waiting u call' out' hu

/-- Releasing the lock, with the value the call returns. -/
theorem Inv.release (h : Inv s (some t) .idle) {call : Call} {out : Option UInt64}
    (hout : ∀ v, out = some v → s.Answered call v) :
    Inv (State.goto { s with busy := 0, returned := s.returned ++ [(call, out)] } t .idle) none
      .idle := by
  refine ⟨rfl, fun u => ?_, by simp, fun _ => rfl, h.phase, ?_, h.indices, ?_⟩
  · by_cases hut : u = t
    · subst hut
      simp [State.goto, Pc.holds]
    · have := h.owner u
      simpa [State.goto, Function.update_of_ne hut, Ne.symm hut] using this
  · intro u call' out' hu
    by_cases hut : u = t
    · subst hut
      simp [State.goto] at hu
    · simp only [State.goto, Function.update_of_ne hut] at hu
      exact h.waiting u call' out' hu
  · intro c v hc
    rcases List.mem_append.mp hc with hc | hc
    · exact h.returned c v hc
    · cases List.mem_singleton.mp hc
      exact hout v rfl

/-- **One operation of a producer.** -/
theorem Inv.produce {o : Option ι} (h : Inv s o ph) {stage : Stage} {call : Call}
    {out : Option UInt64} (hpc : s.pc t = .at stage call out)
    (hs : s.produce t call out stage = some s') : ∃ o' ph', Inv s' o' ph' := by
  by_cases hlock : stage = .lock
  · subst hlock
    obtain rfl := h.waiting t call out hpc
    simp only [State.produce] at hs
    by_cases hb : s.busy = 0
    · rw [if_pos hb] at hs
      cases hs
      obtain rfl : o = none := by
        cases o with
        | none => rfl
        | some u =>
            have := h.busy
            rw [hb] at this
            cases this
      refine ⟨some t, .idle, h.acquire ?_⟩
      split
      · exact Or.inl rfl
      · exact Or.inr rfl
    · rw [if_neg hb] at hs
      cases hs
      exact ⟨o, ph, h⟩
  · have hhold : stage.holds = true := by cases stage <;> simp_all [Stage.holds]
    obtain rfl : o = some t := (h.owner t).mp (by rw [hpc]; exact hhold)
    have hfit := h.fits t stage call out rfl hpc
    have hphase := h.phase
    cases stage with
    | lock => exact absurd rfl hlock
    | fatal => cases hs
    | clearReady =>
        obtain ⟨rfl, rfl⟩ := hfit
        cases hs
        obtain ⟨hp, -, hsv, hsst, hreq⟩ := hphase
        exact ⟨_, .idle, h.goto rfl rfl rfl ⟨rfl, rfl⟩ ⟨hp, rfl, hsv, hsst, hreq⟩ h.indices
          h.returned⟩
    | clearValue =>
        obtain ⟨rfl, rfl⟩ := hfit
        cases hs
        exact ⟨_, .idle, h.goto rfl rfl rfl ⟨rfl, rfl⟩ hphase h.indices h.returned⟩
    | checkPending =>
        obtain ⟨rfl, rfl⟩ := hfit
        simp only [State.produce, hphase.1, ne_eq, not_true_eq_false, if_false] at hs
        cases hs
        exact ⟨_, .idle, h.goto rfl rfl rfl ⟨rfl, rfl⟩ hphase h.indices h.returned⟩
    | checkReady =>
        obtain ⟨rfl, rfl⟩ := hfit
        simp only [State.produce, hphase.2.1, ne_eq, not_true_eq_false, if_false] at hs
        cases hs
        exact ⟨_, .idle, h.goto rfl rfl rfl ⟨rfl, rfl⟩ hphase h.indices h.returned⟩
    | setAddr =>
        obtain ⟨rfl, rfl⟩ := hfit
        cases hs
        exact ⟨_, .idle, h.goto rfl rfl rfl ⟨rfl, rfl, rfl⟩ hphase h.indices h.returned⟩
    | setSize =>
        obtain ⟨rfl, rfl, ha⟩ := hfit
        cases hs
        exact ⟨_, .idle, h.goto rfl rfl rfl ⟨rfl, rfl, ha, rfl⟩ hphase h.indices h.returned⟩
    | setWriteVal =>
        obtain ⟨rfl, rfl, ha, hz⟩ := hfit
        cases hs
        exact ⟨_, .idle, h.goto rfl rfl rfl ⟨rfl, rfl, ha, hz, rfl⟩ hphase h.indices h.returned⟩
    | setCmd =>
        obtain ⟨rfl, rfl, ha, hz, hw⟩ := hfit
        cases hs
        refine ⟨_, .idle, h.goto rfl rfl rfl ⟨rfl, rfl, ?_⟩ hphase h.indices h.returned⟩
        simp only [State.goto, ha, hz, hw]
    | setPending =>
        obtain ⟨rfl, rfl, hreq⟩ := hfit
        cases hs
        obtain ⟨hp, hr, hsv, hsst, htaken⟩ := hphase
        refine ⟨_, .published call, h.goto rfl rfl rfl ⟨rfl, Or.inl rfl⟩
          ⟨rfl, hr, hsv, ?_, ?_, hreq, ?_⟩ h.indices fun c v hc => ?_⟩
        · simp [State.goto, hsst, Sst.Reads]
        · simp only [State.goto, State.requests, List.map_append] at htaken ⊢
          rw [htaken]
          rfl
        · have hlen : s.taken.length = s.published.length := by
            rw [← htaken, State.requests, List.length_map]
          simp [State.goto, hlen]
        · exact (h.returned c v hc).mono rfl (List.append_nil _).symm
    | wait =>
        obtain ⟨rfl, hw⟩ := hfit
        simp only [State.produce] at hs
        split_ifs at hs with hr
        · cases hs
          exact ⟨_, ph, h⟩
        all_goals
          cases hs
          have hpost : ∃ i v, ph = .posted call i v := by
            rcases hw with rfl | ⟨i, rfl⟩ | hw
            · exact absurd hphase.2.1 hr
            · exact absurd hphase.2.1 hr
            · exact hw
          obtain ⟨i, v, rfl⟩ := hpost
        · exact ⟨_, .posted call i v, h.goto rfl rfl rfl ⟨i, v, rfl, Or.inl rfl⟩ hphase
            h.indices h.returned⟩
        · exact ⟨_, .posted call i v, h.goto rfl rfl rfl ⟨rfl, i, v, rfl⟩ hphase h.indices
            h.returned⟩
    | readValue =>
        obtain ⟨rfl, i, v, rfl⟩ := hfit
        cases hs
        have hval : s.value = v := hphase.2.2.2.2.2.2.2
        exact ⟨_, .posted call i v, h.goto rfl rfl rfl
          ⟨i, v, rfl, Or.inr (congrArg some hval)⟩ hphase h.indices h.returned⟩
    | clearResponse =>
        obtain ⟨i, v, rfl, hout⟩ := hfit
        cases hs
        obtain ⟨hp, -, hsv, hsst, hreq, hpub, hmem, -⟩ := hphase
        refine ⟨_, .idle, h.goto rfl rfl rfl ⟨rfl, fun w hw => ?_⟩ ⟨hp, rfl, hsv, hsst, hreq⟩
          h.indices h.returned⟩
        rcases hout with rfl | rfl
        · cases hw
        · cases hw
          exact ⟨i, hpub, hmem⟩
    | unlock =>
        obtain ⟨rfl, hout⟩ := hfit
        cases hs
        exact ⟨none, .idle, h.release hout⟩

/-- Starting a call holds nothing. -/
theorem Inv.call {o : Option ι} (h : Inv s o ph) (hpc : s.pc t = .idle) (op : Op) :
    Inv (State.goto { s with tickets := s.tickets + 1 } t (.at .lock ⟨s.tickets, op⟩ none)) o
      ph := by
  have hot : o ≠ some t := fun ho => by
    have := (h.owner t).mpr ho
    simp [hpc, Pc.holds] at this
  refine ⟨h.busy, fun u => ?_, fun u stage call out hu hpc' => ?_, h.free, ?_, ?_, h.indices,
    h.returned⟩
  · by_cases hut : u = t
    · subst hut
      simpa [State.goto, Pc.holds, Stage.holds] using hot
    · simpa [State.goto, Function.update_of_ne hut] using h.owner u
  · have hut : u ≠ t := fun he => hot (he ▸ hu)
    simp only [State.goto, Function.update_of_ne hut] at hpc'
    exact h.fits u stage call out hu hpc'
  · exact h.phase
  · intro u call out hu
    by_cases hut : u = t
    · subst hut
      simp only [State.goto, Function.update_self] at hu
      cases hu
      rfl
    · simp only [State.goto, Function.update_of_ne hut] at hu
      exact h.waiting u call out hu

/-- **One event** keeps the invariant. -/
theorem Inv.step {o : Option ι} (h : Inv s o ph) {e : Event ι} (hs : s.step e = some s') :
    ∃ o' ph', Inv s' o' ph' := by
  cases e with
  | call t op =>
      cases hpc : s.pc t with
      | idle =>
          simp only [State.step, hpc, Option.some.injEq] at hs
          subst hs
          exact ⟨o, ph, h.call hpc op⟩
      | «at» => simp [State.step, hpc] at hs
  | run t =>
      cases hpc : s.pc t with
      | idle => simp [State.step, hpc] at hs
      | «at» stage call out =>
          simp only [State.step, hpc] at hs
          exact h.produce hpc hs
  | poll =>
      simp only [State.step] at hs
      split_ifs at hs with hsst hp
      · cases hs
        exact ⟨o, ph, h⟩
      · cases hs
        have hphase := h.phase
        cases ph with
        | idle => exact absurd hphase.1 hp
        | published c => exact ⟨o, _, h.read_field trivial⟩
        | taken c i => exact absurd hphase.1 hp
        | posted c i v => exact absurd hphase.1 hp
  | post i v =>
      simp only [State.step] at hs
      split_ifs at hs with hcond
      cases hs
      obtain ⟨hsst, hmem⟩ := hcond
      have hphase := h.phase
      cases ph with
      | idle => simp [hphase.2.2.1] at hmem
      | published c => simp [hphase.2.2.1] at hmem
      | taken c j =>
          obtain ⟨hp, hrd, hsv, -, hreq, hget⟩ := hphase
          obtain rfl : i = j := by simpa [hsv] using hmem
          refine ⟨o, .taken c i, h.sst_step rfl rfl ?_ ⟨hp, hrd, hsv, rfl, hreq, hget⟩ ?_
            h.indices (fun _ _ ha => ha) rfl⟩
          · exact fun ho => absurd ho (h.some_owner (by simp))
          · intro stage call out hf
            cases hf.waits (Or.inr ⟨c, i, rfl⟩)
            exact hf
      | posted c j w => simp [hphase.2.2.1] at hmem
  | sst =>
      obtain ⟨ph', h'⟩ := h.consume hs
      exact ⟨o, ph', h'⟩

/-- **Every reachable state** satisfies the invariant. -/
theorem Reachable.inv (h : Reachable s) : ∃ o ph, Inv s o ph := by
  induction h with
  | initial req value => exact ⟨none, .idle, inv_initial req value⟩
  | step h e hs ih =>
      obtain ⟨o, ph, hinv⟩ := ih
      exact hinv.step hs

/-! ### Tickets of one event -/

/-- A thread that moves on inside its call, or leaves it. -/
theorem Tickets.goto (h : Tickets s) {pc : Pc} (hp : s'.published = s.published)
    (ht : s'.tickets = s.tickets) (hpc : s'.pc = Function.update s.pc t pc)
    (hw : ∀ c, pc.waiting = some c → (s.pc t).waiting = some c) : Tickets s' := by
  refine h.frame hp ht fun u c hc => ?_
  by_cases hut : u = t
  · subst hut
    rw [hpc, Function.update_self] at hc
    exact hw c hc
  · rwa [hpc, Function.update_of_ne hut] at hc

/-- Publishing uses up the ticket of the call. -/
theorem Tickets.publish (h : Tickets s) {call : Call} {out : Option UInt64}
    (hpc : s.pc t = .at .setPending call out) :
    Tickets (State.goto { s with pending := 1, published := s.published ++ [call] } t
      (.at .wait call out)) := by
  have hcall : (s.pc t).waiting = some call := by rw [hpc]; rfl
  obtain ⟨hlt, hnew⟩ := h.live t call hcall
  have hother : ∀ u c, ((State.goto { s with
      pending := 1, published := s.published ++ [call] } t (.at .wait call out)).pc u).waiting =
      some c → u ≠ t ∧ (s.pc u).waiting = some c := by
    intro u c hc
    have hut : u ≠ t := by
      rintro rfl
      simp [State.goto, Pc.waiting, Stage.unpublished] at hc
    simp only [State.goto, Function.update_of_ne hut] at hc
    exact ⟨hut, hc⟩
  refine ⟨?_, ?_, ?_, ?_⟩
  · simp only [State.goto, List.map_append, List.map_singleton]
    exact List.nodup_append.mpr ⟨h.nodup, List.nodup_singleton _, fun a ha b hb hab =>
      hnew (by rw [List.mem_singleton.mp hb] at hab; exact hab ▸ ha)⟩
  · intro c hc
    rcases List.mem_append.mp hc with hc | hc
    · exact h.below c hc
    · rw [List.mem_singleton.mp hc]
      exact hlt
  · intro u c hc
    obtain ⟨hut, hc⟩ := hother u c hc
    obtain ⟨hlt', hnew'⟩ := h.live u c hc
    refine ⟨hlt', ?_⟩
    simp only [State.goto, List.map_append, List.mem_append, List.map_singleton,
      List.mem_singleton, not_or]
    exact ⟨hnew', fun he => hut (h.apart u t c call hc hcall he)⟩
  · intro u w c d hc hd
    exact h.apart u w c d (hother u c hc).2 (hother w d hd).2

/-- Starting a call draws a new ticket. -/
theorem Tickets.call (h : Tickets s) (op : Op) :
    Tickets (State.goto { s with tickets := s.tickets + 1 } t
      (.at .lock ⟨s.tickets, op⟩ none)) := by
  have hcase : ∀ u c, ((State.goto { s with tickets := s.tickets + 1 } t
      (.at .lock ⟨s.tickets, op⟩ none)).pc u).waiting = some c →
      (u = t ∧ c.ticket = s.tickets) ∨ (u ≠ t ∧ (s.pc u).waiting = some c) := by
    intro u c hc
    by_cases hut : u = t
    · subst hut
      simp only [State.goto, Function.update_self, Pc.waiting, Stage.unpublished] at hc
      cases hc
      exact Or.inl ⟨rfl, rfl⟩
    · simp only [State.goto, Function.update_of_ne hut] at hc
      exact Or.inr ⟨hut, hc⟩
  refine ⟨h.nodup, fun c hc => Nat.lt_succ_of_lt (h.below c hc), ?_, ?_⟩
  · intro u c hc
    rcases hcase u c hc with ⟨-, hk⟩ | ⟨-, hc⟩
    · rw [hk]
      refine ⟨Nat.lt_succ_self _, fun hmem => ?_⟩
      obtain ⟨d, hd, hdk⟩ := List.mem_map.mp hmem
      have := h.below d hd
      omega
    · obtain ⟨hlt, hnew⟩ := h.live u c hc
      exact ⟨Nat.lt_succ_of_lt hlt, hnew⟩
  · intro u w c d hc hd he
    rcases hcase u c hc with ⟨hu, hk⟩ | ⟨-, hc'⟩ <;>
      rcases hcase w d hd with ⟨hw, hk'⟩ | ⟨-, hd'⟩
    · rw [hu, hw]
    · have := (h.live w d hd').1
      omega
    · have := (h.live u c hc').1
      omega
    · exact h.apart u w c d hc' hd' he

/-- **One event** keeps tickets fresh. -/
theorem Tickets.step (h : Tickets s) {e : Event ι} (hs : s.step e = some s') : Tickets s' := by
  cases e with
  | call t op =>
      cases hpc : s.pc t with
      | idle =>
          simp only [State.step, hpc, Option.some.injEq] at hs
          subst hs
          exact h.call op
      | «at» => simp [State.step, hpc] at hs
  | run t =>
      cases hpc : s.pc t with
      | idle => simp [State.step, hpc] at hs
      | «at» stage call out =>
          simp only [State.step, hpc] at hs
          by_cases hset : stage = .setPending
          · subst hset
            cases hs
            exact h.publish hpc
          · have hself : ∀ c, (if stage.unpublished then some call else none) = some c →
                (s.pc t).waiting = some c := fun c hc => by rw [hpc]; exact hc
            cases stage <;> simp only [State.produce] at hs
            all_goals try split_ifs at hs
            all_goals try exact absurd rfl hset
            all_goals
              cases hs <;> first
                | exact h
                | exact h.goto rfl rfl rfl hself
                | exact h.goto rfl rfl rfl (by simp [Pc.waiting, Stage.unpublished])
  | poll =>
      simp only [State.step] at hs
      split_ifs at hs
      · cases hs
        exact h
      · cases hs
        exact h.frame rfl rfl fun _ _ hc => hc
  | post i v =>
      simp only [State.step] at hs
      split_ifs at hs
      cases hs
      exact h.frame rfl rfl fun _ _ hc => hc
  | sst =>
      simp only [State.step, State.consume] at hs
      split at hs
      all_goals cases hs <;> exact h.frame rfl rfl fun _ _ hc => hc

theorem Reachable.tickets (h : Reachable s) : Tickets s := by
  induction h with
  | initial req value =>
      exact ⟨List.nodup_nil, by simp, by simp [Pc.waiting], by simp [Pc.waiting]⟩
  | step h e hs ih => exact ih.step hs

/-- **Agreement.** In every state the slot and its parties can reach:
(a) while the `busy` word is free nothing is pending, no response is ready and SST serves no
request, and no cache operation has found the mailbox in use;
(b) the requests SST has taken are those of the published calls, in order, each call publishes
at most once, and a published request that is not taken yet is the only one and still in the
slot unchanged;
(c) a value a call returns is the one SST posted for that call, and SST posts once for each
request it takes. -/
theorem mailbox_agreement (h : Reachable s) :
    ((s.busy = 0 → s.pending = 0 ∧ s.ready = 0 ∧ s.serving = [] ∧ s.sst = .idle) ∧
      ∀ t call out, s.pc t ≠ .at .fatal call out) ∧
    ((∀ (i : ℕ) r, s.taken[i]? = some r → ∃ c : Call, s.published[i]? = some c ∧ r = c.op.request) ∧
      (s.published.map Call.ticket).Nodup ∧
      s.taken.length ≤ s.published.length ∧ s.published.length ≤ s.taken.length + 1 ∧
      ∀ c, s.published[s.taken.length]? = some c → s.pending ≠ 0 ∧ s.req = c.op.request) ∧
    ((∀ c v, (c, some v) ∈ s.returned → ∃ i, s.published[i]? = some c ∧
        s.taken[i]? = some c.op.request ∧ (i, v) ∈ s.posted) ∧
      (s.posted.map Prod.fst).Nodup) := by
  obtain ⟨o, ph, hinv⟩ := h.inv
  have hphase := hinv.phase
  -- the requests of the published calls are the taken ones and at most one more
  have hreq : (s.requests = s.taken ∧ s.pending = 0) ∨
      ∃ c, s.requests = s.taken ++ [c.op.request] ∧ s.pending = 1 ∧ s.req = c.op.request ∧
        s.published[s.taken.length]? = some c := by
    cases ph with
    | idle => exact Or.inl ⟨hphase.2.2.2.2, hphase.1⟩
    | published c =>
        exact Or.inr ⟨c, hphase.2.2.2.2.1, hphase.1, hphase.2.2.2.2.2.1, hphase.2.2.2.2.2.2⟩
    | taken c i => exact Or.inl ⟨hphase.2.2.2.2.1, hphase.1⟩
    | posted c i v => exact Or.inl ⟨hphase.2.2.2.2.1, hphase.1⟩
  have hlen : s.requests.length = s.published.length := List.length_map _
  have htaken : ∀ (i : ℕ) r, s.taken[i]? = some r → ∃ c : Call, s.published[i]? = some c ∧
      r = c.op.request := by
    intro i r hi
    have hget : s.requests[i]? = some r := by
      rcases hreq with ⟨he, -⟩ | ⟨c, he, -⟩
      · rw [he]
        exact hi
      · rw [he, List.getElem?_append_left (List.getElem?_eq_some_iff.mp hi).1]
        exact hi
    rw [State.requests, List.getElem?_map, Option.map_eq_some_iff] at hget
    obtain ⟨c, hc, rfl⟩ := hget
    exact ⟨c, hc, rfl⟩
  have hind := hinv.indices
  refine ⟨⟨fun hb => ?_, fun t call out hpc => ?_⟩,
    ⟨htaken, h.tickets.nodup, ?_, ?_, fun c hc => ?_⟩, fun c v hc => ?_, ?_⟩
  · have hnone : o = none := by
      cases o with
      | none => rfl
      | some t =>
          have := hinv.busy
          rw [hb] at this
          cases this
    obtain rfl := hinv.free hnone
    exact ⟨hphase.1, hphase.2.1, hphase.2.2.1, hphase.2.2.2.1⟩
  · have ho := (hinv.owner t).mp (by rw [hpc]; rfl)
    exact hinv.fits t .fatal call out ho hpc
  · rcases hreq with ⟨he, -⟩ | ⟨c, he, -⟩ <;> simp [← hlen, he]
  · rcases hreq with ⟨he, -⟩ | ⟨c, he, -⟩ <;> simp [← hlen, he]
  · rcases hreq with ⟨he, -⟩ | ⟨d, he, hp, hr, hd⟩
    · have := (List.getElem?_eq_some_iff.mp hc).1
      rw [← hlen, he] at this
      omega
    · rw [hd] at hc
      cases hc
      exact ⟨by simp [hp], hr⟩
  · obtain ⟨i, hi, hmem⟩ := hinv.returned c v hc
    refine ⟨i, hi, ?_, hmem⟩
    have hlt : i < s.taken.length := by
      have hrange : i ∈ List.range s.taken.length := by
        rw [← hind]
        exact List.mem_append_left _ (List.mem_map.mpr ⟨(i, v), hmem, rfl⟩)
      exact List.mem_range.mp hrange
    obtain ⟨d, hd, hr⟩ := htaken i _ (List.getElem?_eq_getElem hlt)
    rw [hi] at hd
    cases hd
    rw [List.getElem?_eq_getElem hlt, hr]
  · have hnodup : (s.posted.map Prod.fst ++ s.serving).Nodup := hind ▸ List.nodup_range
    exact hnodup.of_append_left

/-- A sequence of events. -/
def State.run (s : State ι) (events : List (Event ι)) : Option (State ι) :=
  events.foldlM State.step s

theorem Reachable.run (events : List (Event ι)) : ∀ {s s' : State ι}, Reachable s →
    s.run events = some s' → Reachable s' := by
  induction events with
  | nil =>
      intro s s' h hs
      cases hs
      exact h
  | cons e events ih =>
      intro s s' h hs
      rw [State.run, List.foldlM_cons] at hs
      cases hstep : s.step e with
      | none =>
          rw [hstep] at hs
          cases hs
      | some d =>
          rw [hstep] at hs
          exact ih (h.step e hstep) hs

end Steps

/-- One MMIO read that SST answers with `7`, with a second thread that tries to lock. -/
def oneRead : List (Event Bool) :=
  [.call true (.mmioRead 0x1111 4), .call false (.mmioRead 0x2222 4)] ++
    List.replicate 9 (.run true) ++ [.run false, .poll] ++ List.replicate 5 .sst ++
    [.post 0 7, .sst, .sst] ++ List.replicate 4 (.run true)

/-- The read returns the value posted for it. -/
theorem mailbox_agreement_one_read :
    ∃ s : State Bool, State.run { req := ⟨.nop, 0, 0, 0⟩, value := 0 } oneRead = some s ∧
      s.busy = 0 ∧ s.ready = 0 ∧ ∃ i, s.published[i]? = some ⟨0, .mmioRead 0x1111 4⟩ ∧
        s.taken[i]? = some ⟨.mmioRead, 0x1111, 4, 0⟩ ∧ (i, 7) ∈ s.posted := by
  refine ⟨_, rfl, rfl, ?_⟩
  have h := mailbox_agreement (Reachable.run oneRead (.initial ⟨.nop, 0, 0, 0⟩ 0) rfl)
  exact ⟨(h.1.1 rfl).2.1, h.2.2.1 ⟨0, .mmioRead 0x1111 4⟩ 7 (by decide)⟩

end Quetz.Mailbox
