import Quetz.CacheBank
import Quetz.CacheDirty

/-!
# Rejected Calls of the Window Caches

A member function of the source that throws leaves whatever it assigned before the exception. Here
the members of a cache and of a bank are programs over the object they belong to, statement by
statement in the order of the source, so a program that throws returns the object as the exception
found it. Each program computes what the member's total function computes, and no program has
assigned anything that lasts when it throws.

`addRegion` of a bank calls `addRegion` of one cache after the other. It is all or nothing as long
as the caches of the bank have the same regions. They are configured together, and the simulator
adds regions to the bank only; but the reference `cache(v)` is public, and whoever adds a region
through it to one cache alone breaks this. `BankCall` has these calls too, and `BankCall.Shared`
leaves them out.

## Main results

* `WindowDataCache.Member.run_call`: the program of every call of a cache computes the call.
* `WindowCacheBank.Alike.call`: a shared call on a bank leaves its caches with the same regions.
* `WindowCacheBank.rejected_unchanged`: a call that throws changes nothing, on a cache and on a
  bank; `addRegion` of a bank after shared calls only.
* `WindowCacheBank.rejected_addRegion_splits`: a region given to one cache alone makes `addRegion`
  of the bank throw halfway.
-/

namespace Quetz

/-- `if (p) throw e;` -/
def throwIf {σ : Type} (p : Prop) [Decidable p] (e : Exn) : EStateM Exn σ Unit :=
  if p then throw e else pure ()

/-- A check throws and leaves the object alone, or does nothing. -/
theorem run_throwIf {σ : Type} (c : σ) (p : Prop) [Decidable p] (e : Exn) :
    (throwIf p e).run c = if p then .error e c else .ok () c := by
  rw [throwIf]
  split_ifs <;> rfl

namespace WindowDataCache

/-- The program of a member function. -/
abbrev Member := EStateM Exn WindowDataCache

/-- The member function of a public call. -/
def Call.apply (c : WindowDataCache) : Call → Except Exn WindowDataCache
  | .access a n w bs => c.access a n w bs
  | .movec reg value => c.movec reg value
  | .push i o => c.push i o
  | .next => c.next.map Prod.fst
  | .complete bs => c.complete bs
  | .reset => c.reset
  | .addRegion b n => c.addRegion b n
  | .configure b n => c.configure b n

namespace Member

/-! ### The members of a cache -/

def start : Member Unit := do
  throwIf (← get).active (.logicError "overlapping window cache transactions")
  modify fun c => { c with active := true }
  modify fun c => { c with pending := .none }
  modify fun c => { c with pushing := false }
  modify fun c => { c with count := 0, offset := 0 }
  modify fun c => { c with bytes := [] }
  modify fun c => { c with write := false }

/-- The overlap check of `addRegion`, region by region. -/
def checkOverlap (base size : ℕ) : List Region → Member Unit
  | [] => pure ()
  | region :: rest => do
    throwIf (base < region.base + region.size ∧ region.base < base + size)
      (.invalidArgument "overlapping window cache regions")
    checkOverlap base size rest

def addRegion (base size : ℕ) : Member Unit := do
  throwIf (← get).active (.logicError "region change during a window cache transaction")
  throwIf (size = 0 ∨ size > 1024 * 1024 ∨ base > 0xffffffff ∨
      size - 1 > 0xffffffff - base ∨ base % lineBytes ≠ 0 ∨ size % lineBytes ≠ 0)
    (.invalidArgument "window cache requires an aligned 16-byte to 1-MiB 32-bit window")
  checkOverlap base size (← get).regions
  modify fun c => { c with regions := c.regions ++ [⟨base, size⟩] }

def configure (base size : ℕ) : Member Unit := do
  let c ← get
  throwIf (c.active || !c.regions.isEmpty)
    (.logicError "window cache geometry cannot be changed after configuration")
  addRegion base size

def reset : Member Unit := do
  throwIf (← get).active (.logicError "reset during a window cache transaction")
  modify fun c => { c with cacr := 0 }
  modify fun c => { c with acr := fun _ => 0 }

def access (address size : ℕ) (write : Bool) (bytes : List UInt8) : Member Unit := do
  match (← get).regionFor address with
  | none => throw (.invalidArgument "invalid window cache access")
  | some region =>
    throwIf (size = 0 ∨ size > 8 ∨ size > region.size - (address - region.base) ∨
        (write = true ∧ bytes.length ≠ size))
      (.invalidArgument "invalid window cache access")
    start
    modify fun c => { c with address := address }
    modify fun c => { c with count := size }
    modify fun c => { c with offset := 0 }
    modify fun c => { c with write := write }
    modify fun c => { c with bytes := if write then bytes else List.replicate size 0 }

/-- The assignments of `movec`. -/
def setControl (reg : ℕ) (value : BitVec 32) : Member Unit :=
  if reg = 2 then do
    if value &&& DCINVA ≠ 0 then
      modify fun c => { c with
        dirtyDiscards := c.dirtyDiscards + dirtyCount c.lines
        lines := invalidateAll c.lines }
    modify fun c => { c with cacr := value &&& ~~~(DCINVA ||| 0x00040100) }
  else
    modify fun c => { c with acr := Function.update c.acr (Fin.ofNat 4 (reg - 4)) value }

def movec (reg : ℕ) (value : BitVec 32) : Member Unit := do
  throwIf (reg ≠ 2 ∧ ¬(4 ≤ reg ∧ reg ≤ 7))
    (.invalidArgument "unsupported ColdFire cache control register")
  throwIf (reg = 2 ∧ value &&& 0x60000000 ≠ 0)
    (.invalidArgument "unsupported CACR write-protection/store-buffer controls")
  throwIf ((reg = 4 ∨ reg = 5) ∧ value &&& 4 ≠ 0)
    (.invalidArgument "unsupported data ACR write protection")
  start
  setControl reg value

/-- The assignments of `push`. -/
def setPush (instruction : BitVec 16) (operand : BitVec 32) : Member Unit := do
  if instruction &&& 0x40 = 0 then return
  modify fun c => { c with pushing := true }
  modify fun c => { c with invalidatePush := decide (c.cacr &&& DDPI = 0) }
  modify fun c => { c with
    pendingSlot := slotOf (setIndex operand.toNat) (Fin.ofNat ways operand.toNat) }

def push (instruction : BitVec 16) (operand : BitVec 32) : Member Unit := do
  throwIf (instruction &&& 0xff38 ≠ 0xf428 ∨ instruction &&& 0xc0 = 0)
    (.invalidArgument "invalid ColdFire CPUSHL instruction")
  start
  setPush instruction operand

/-- Past its check `next` does not throw. -/
def next : Member Action := do
  let c ← get
  throwIf (c.active = false ∨ c.pending ≠ .none)
    (.logicError "window cache transaction ordering error")
  let r := if c.pushing then c.nextPush else nextAccess (c.count - c.offset) c
  set r.1
  return r.2

/-- Assign to the line of the pending slot. -/
def modifyLine (f : Line → Line) : Member Unit :=
  modify fun c => { c with
    lines := Function.update c.lines c.pendingSlot (f (c.lines c.pendingSlot)) }

/-- The branches of `complete`. -/
def take (bytes : List UInt8) : Pending → Member Unit
  | .fill => do
    throwIf (bytes.length ≠ lineBytes) (.runtimeError "short window cache line fill")
    let c ← get
    modifyLine fun _ =>
      { bytes := fun i => bytes.getD i 0, address := c.pendingAddress, valid := true }
    modify fun c => { c with replacement := c.replacement + 1 }
  | .bypassRead => do
    throwIf (bytes.length ≠ (← get).pendingSize) (.runtimeError "short window cache read")
    modify fun c => { c with bytes := ByteMemory.overwrite c.bytes c.offset bytes }
    modify fun c => { c with offset := c.offset + c.pendingSize }
  | .push => do
    modifyLine fun line => { line with dirty := false }
    if (← get).invalidatePush then modifyLine fun line => { line with valid := false }
    modify fun c => { c with pushing := false }
  | .evict => modifyLine fun line => { line with valid := false, dirty := false }
  | .writeThrough => do
    modifyLine fun line => { line with dirty := false }
    modify fun c => { c with offset := c.offset + c.pendingSize }
  | .bypassWrite | .none => modify fun c => { c with offset := c.offset + c.pendingSize }

def complete (bytes : List UInt8) : Member Unit := do
  let c ← get
  throwIf (c.active = false ∨ c.pending = .none)
    (.logicError "unexpected window cache memory response")
  take bytes c.pending
  modify fun c => { c with pending := .none }

/-- The program of a public call. -/
def call : Call → Member Unit
  | .access a n w bs => access a n w bs
  | .movec reg value => movec reg value
  | .push i o => push i o
  | .next => do
    let _ ← next
  | .complete bs => complete bs
  | .reset => reset
  | .addRegion b n => addRegion b n
  | .configure b n => configure b n

/-! ### The programs compute the members -/

/-- The outcome of a program that either returns a new cache or throws and leaves the old one. -/
def outcome (c : WindowDataCache) : Except Exn WindowDataCache →
    EStateM.Result Exn WindowDataCache Unit
  | .ok d => .ok () d
  | .error e => .error e c

variable (c : WindowDataCache)

variable {c} in
/-- A check, and the program behind it. -/
theorem run_check {p : Prop} [Decidable p] {e : Exn} {rest : Unit → Member Unit}
    {r : Except Exn WindowDataCache} (h : (rest ()).run c = outcome c r) :
    (throwIf p e >>= rest).run c = outcome c (if p then .error e else r) := by
  rw [EStateM.run_bind, run_throwIf]
  split_ifs with hp
  · rfl
  · exact h

/-- The check of `start` comes before its assignments. -/
theorem run_start : start.run c = outcome c c.start :=
  run_check rfl

/-- The loop over the regions throws at the first that overlaps. -/
theorem run_checkOverlap (base size : ℕ) (rs : List Region) :
    (checkOverlap base size rs).run c = outcome c (if rs.any fun r =>
        decide (base < r.base + r.size ∧ r.base < base + size) then
      .error (.invalidArgument "overlapping window cache regions") else .ok c) := by
  induction rs with
  | nil => rfl
  | cons r rs ih =>
      rw [checkOverlap, run_check ih, List.any_cons]
      by_cases hover : base < r.base + r.size ∧ r.base < base + size
      · rw [if_pos hover, decide_eq_true hover, Bool.true_or, if_pos rfl]
      · rw [if_neg hover, decide_eq_false hover, Bool.false_or]

/-- The two checks and the loop come before the region is appended. -/
theorem run_addRegion (base size : ℕ) :
    (addRegion base size).run c = outcome c (c.addRegion base size) := by
  refine run_check (run_check ?_)
  rw [EStateM.run_bind, EStateM.run_get]
  dsimp only
  rw [EStateM.run_bind, run_checkOverlap]
  split_ifs <;> rfl

/-- Whether there are regions is checked before the first is added. -/
theorem run_configure (base size : ℕ) :
    (configure base size).run c = outcome c (c.configure base size) :=
  run_check (run_addRegion c base size)

/-- The active check comes before the assignments. -/
theorem run_reset : reset.run c = outcome c c.reset :=
  run_check rfl

variable {c} in
/-- A program that opens a transaction and then only assigns. -/
theorem run_started {f : WindowDataCache → WindowDataCache} {rest : Unit → Member Unit}
    (h : ∀ d, (rest ()).run d = .ok () (f d)) :
    (start >>= rest).run c = outcome c (c.start.map f) := by
  rw [EStateM.run_bind, run_start]
  cases c.start with
  | error e => rfl
  | ok d => exact h d

/-- The region and the bounds are checked before the transaction opens. -/
theorem run_access (a n : ℕ) (w : Bool) (bs : List UInt8) :
    (access a n w bs).run c = outcome c (c.access a n w bs) := by
  rw [access, WindowDataCache.access, EStateM.run_bind, EStateM.run_get]
  dsimp only
  cases c.regionFor a with
  | none => rfl
  | some region => exact run_check (run_started fun d => rfl)

/-- The register and the control bits are checked before anything is assigned. -/
theorem run_movec (reg : ℕ) (value : BitVec 32) :
    (movec reg value).run c = outcome c (c.movec reg value) := by
  refine run_check (run_check (run_check (run_started fun d => ?_)))
  rw [setControl, control]
  split_ifs <;> rfl

/-- The instruction is checked before the transaction opens. -/
theorem run_push (i : BitVec 16) (o : BitVec 32) :
    (push i o).run c = outcome c (c.push i o) := by
  refine run_check (run_started fun d => ?_)
  rw [setPush, select]
  split_ifs <;> rfl

/-- The active check comes before the passes. -/
theorem run_next : next.run c =
    match c.next with
    | .ok (d, a) => .ok a d
    | .error e => .error e c := by
  rw [next, WindowDataCache.next, EStateM.run_bind, EStateM.run_get]
  dsimp only
  rw [EStateM.run_bind, run_throwIf]
  split_ifs <;> rfl

/-- The acknowledged push: the line is cleaned, and then dropped if the instruction says so. -/
theorem run_take_push (bs : List UInt8) : (take bs .push).run c = .ok () { c with
    lines := Function.update c.lines c.pendingSlot { c.lines c.pendingSlot with
      dirty := false
      valid := if c.invalidatePush then false else (c.lines c.pendingSlot).valid }
    pushing := false } := by
  cases hinv : c.invalidatePush with
  | false =>
      simp [take, modifyLine, hinv]
  | true =>
      simp [take, modifyLine, hinv]

/-- The length of the data is checked before the branch assigns. -/
theorem run_complete (bs : List UInt8) : (complete bs).run c = outcome c (c.complete bs) := by
  rw [complete, WindowDataCache.complete, EStateM.run_bind, EStateM.run_get]
  dsimp only
  rw [EStateM.run_bind, run_throwIf]
  by_cases hact : c.active = false
  · rw [if_pos (Or.inl hact), if_pos hact]
    rfl
  · rw [if_neg hact]
    cases hp : c.pending with
    | none =>
        rw [if_pos (Or.inr rfl)]
        rfl
    | fill =>
        rw [if_neg (by simp [hact])]
        dsimp only
        rw [EStateM.run_bind, take, EStateM.run_bind, run_throwIf]
        split_ifs <;> rfl
    | bypassRead =>
        rw [if_neg (by simp [hact])]
        dsimp only
        rw [EStateM.run_bind, take, EStateM.run_bind, EStateM.run_get]
        dsimp only
        rw [EStateM.run_bind, run_throwIf]
        split_ifs <;> rfl
    | push =>
        rw [if_neg (by simp [hact])]
        dsimp only
        rw [EStateM.run_bind, run_take_push]
        rfl
    | _ =>
        rw [if_neg (by simp [hact])]
        rfl

/-- **The program of a call computes the call.** -/
theorem run_call (op : Call) : (call op).run c = outcome c (op.apply c) := by
  cases op with
  | access a n w bs => exact run_access c a n w bs
  | movec reg value => exact run_movec c reg value
  | push i o => exact run_push c i o
  | complete bs => exact run_complete c bs
  | reset => exact run_reset c
  | addRegion b n => exact run_addRegion c b n
  | configure b n => exact run_configure c b n
  | next =>
      rw [call, EStateM.run_bind, run_next, Call.apply]
      cases c.next <;> rfl

/-- A program that throws leaves the cache as it was. -/
theorem run_call_error {c d : WindowDataCache} {op : Call} {e : Exn}
    (h : (call op).run c = .error e d) : d = c := by
  rw [run_call] at h
  cases hop : op.apply c with
  | ok c' =>
      rw [hop] at h
      cases h
  | error e' =>
      rw [hop] at h
      cases h
      rfl

end Member

end WindowDataCache

namespace WindowCacheBank

/-- The program of a member function of the bank. -/
abbrev Member := EStateM Exn WindowCacheBank

namespace Member

/-! ### The members of a bank -/

/-- `states_.at(v)` -/
def stateAt (v : ℕ) : Member BankState := do
  match (← get).states[v]? with
  | none => throw rangeError
  | some state => return state

/-- Assign to `states_.at(v)`. -/
def modifyState (v : ℕ) (f : BankState → BankState) : Member Unit :=
  modify fun b => match b.states[v]? with
    | none => b
    | some state => b.setState v (f state)

/-- Run a member of `cache(v)`. Whatever it assigned before an exception stays. -/
def onCache (v : ℕ) (m : WindowDataCache.Member Unit) : Member Unit := do
  let state ← stateAt v
  match m.run state.cache with
  | .ok _ c => modifyState v fun state => { state with cache := c }
  | .error e c => do
    modifyState v fun state => { state with cache := c }
    throw e

/-- The loop of `configure` over the vector that is to become `states_`. -/
def configureEach (base size : ℕ) : List BankState → Member (List BankState)
  | [] => return []
  | state :: rest =>
    match (WindowDataCache.Member.configure base size).run state.cache with
    | .ok _ c => return { state with cache := c } :: (← configureEach base size rest)
    | .error e _ => throw e

def configure (cores base size : ℕ) : Member Unit := do
  throwIf (cores < 1 ∨ cores > 2 ∨ (← get).active = true)
    (.invalidArgument "window cache bank requires one or two idle CPUs")
  let next ← configureEach base size (List.replicate cores {})
  modify fun b => { b with states := next }

/-- The loop of `addRegion` over the next `n` CPUs. -/
def addRegionEach (base size : ℕ) : ℕ → ℕ → Member Unit
  | 0, _ => pure ()
  | n + 1, v => do
    onCache v (WindowDataCache.Member.addRegion base size)
    addRegionEach base size n (v + 1)

def addRegion (base size : ℕ) : Member Unit := do
  let b ← get
  throwIf b.active (.logicError "adding a cache region during an active transaction")
  addRegionEach base size b.states.length 0

def issued (v id : ℕ) (read : Bool) : Member Unit := do
  let state ← stateAt v
  throwIf (state.cache.active = false ∨ state.outstanding = true ∨ id ∈ (← get).pending)
    (.logicError "overlapping window cache backing request")
  modify fun b => { b with pending := b.pending.insert id ⟨v, read⟩ }
  modifyState v fun state => { state with outstanding := true }

def complete (id v : ℕ) (read : Bool) (bytes : List UInt8) : Member Unit := do
  throwIf ((← get).pending.lookup id ≠ some ⟨v, read⟩)
    (.logicError "window cache response ownership/type mismatch")
  onCache v (WindowDataCache.Member.complete bytes)
  modifyState v fun state => { state with outstanding := false }
  modify fun b => { b with pending := b.pending.erase id }

def resetCore (v : ℕ) : Member Unit := do
  let state ← stateAt v
  throwIf (state.outstanding = true ∨ state.cache.active = true)
    (.logicError "window cache reset during an outstanding transaction")
  onCache v WindowDataCache.Member.reset

/-! ### The programs compute the members of a bank -/

variable (b : WindowCacheBank)

/-- `at` throws for a CPU the bank does not have. -/
theorem run_stateAt (v : ℕ) : (stateAt v).run b =
    match b.states[v]? with
    | none => .error rangeError b
    | some state => .ok state b := by
  rw [stateAt, EStateM.run_bind, EStateM.run_get]
  dsimp only
  cases b.states[v]? <;> rfl

variable {b} in
/-- An assignment to the state of a CPU that the bank has. -/
theorem run_modifyState {v : ℕ} {state : BankState} (h : b.states[v]? = some state)
    (f : BankState → BankState) : (modifyState v f).run b = .ok () (b.setState v (f state)) := by
  rw [modifyState, EStateM.run_modify, h]

variable {b} in
/-- Assigning the state that is there changes nothing. -/
theorem setState_same {v : ℕ} {state : BankState} (h : b.states[v]? = some state) :
    b.setState v state = b := by
  obtain ⟨hlt, rfl⟩ := List.getElem?_eq_some_iff.mp h
  rw [setState, List.set_getElem_self]

/-- A member of `cache(v)` that throws leaves the bank as it was, for its program does. -/
theorem run_onCache (v : ℕ) {m : WindowDataCache.Member Unit}
    {f : WindowDataCache → Except Exn WindowDataCache}
    (h : ∀ c, m.run c = WindowDataCache.Member.outcome c (f c)) :
    (onCache v m).run b = b.onCache v f := by
  rw [onCache, EStateM.run_bind, run_stateAt, WindowCacheBank.onCache]
  cases hv : b.states[v]? with
  | none => rfl
  | some state =>
      dsimp only
      rw [h]
      cases f state.cache with
      | ok c => exact run_modifyState hv _
      | error e =>
          rw [WindowDataCache.Member.outcome, EStateM.run_bind, run_modifyState hv]
          dsimp only
          rw [setState_same hv]
          rfl

/-- The new caches are all alike, so the first decides whether the loop throws. -/
theorem run_configureEach (base size n : ℕ) :
    (configureEach base size (List.replicate n {})).run b =
      match n, WindowDataCache.configure {} base size with
      | 0, _ => .ok [] b
      | _ + 1, .error e => .error e b
      | n + 1, .ok c => .ok (List.replicate (n + 1) { cache := c }) b := by
  induction n with
  | zero => rfl
  | succ n ih =>
      rw [List.replicate_succ, configureEach, WindowDataCache.Member.run_configure]
      cases hc : WindowDataCache.configure {} base size with
      | error e => rfl
      | ok c =>
          rw [hc] at ih
          simp only [WindowDataCache.Member.outcome, EStateM.run_bind, ih]
          cases n <;> rfl

/-- The vector is built aside and assigned when all caches in it are configured. -/
theorem run_configure (cores base size : ℕ) :
    (configure cores base size).run b = b.configure cores base size := by
  rw [configure, WindowCacheBank.configure, EStateM.run_bind, EStateM.run_get]
  dsimp only
  rw [EStateM.run_bind, run_throwIf]
  split_ifs with hbad
  · rfl
  · dsimp only
    rw [EStateM.run_bind, run_configureEach]
    obtain ⟨n, rfl⟩ : ∃ n, cores = n + 1 := ⟨cores - 1, by omega⟩
    cases WindowDataCache.configure {} base size <;> rfl

/-- The loop, by induction on the CPUs still to come. -/
theorem run_addRegionEach (base size n : ℕ) : ∀ (v : ℕ) (b : WindowCacheBank),
    v + n ≤ b.states.length →
    (addRegionEach base size n v).run b = addRegionFrom base size n v b := by
  induction n with
  | zero => exact fun _ _ _ => rfl
  | succ n ih =>
      intro v b hlen
      obtain ⟨state, hv⟩ : ∃ state, b.states[v]? = some state :=
        ⟨_, List.getElem?_eq_getElem (by omega)⟩
      rw [addRegionEach, EStateM.run_bind, addRegionFrom, hv,
        run_onCache b v fun c => WindowDataCache.Member.run_addRegion c base size,
        WindowCacheBank.onCache, hv]
      dsimp only
      cases hc : state.cache.addRegion base size with
      | error e => rfl
      | ok c => exact ih (v + 1) _ (by rw [setState_length]; omega)

/-- The bank's check, and then the loop. -/
theorem run_addRegion (base size : ℕ) :
    (addRegion base size).run b = b.addRegion base size := by
  rw [addRegion, WindowCacheBank.addRegion, EStateM.run_bind, EStateM.run_get]
  dsimp only
  rw [EStateM.run_bind, run_throwIf]
  split_ifs
  · rfl
  · exact run_addRegionEach base size _ 0 b (Nat.zero_add _).le

/-- The checks of `issued` come before the request is entered. -/
theorem run_issued (v id : ℕ) (read : Bool) :
    (issued v id read).run b = b.issued v id read := by
  rw [issued, WindowCacheBank.issued, EStateM.run_bind, run_stateAt]
  cases hv : b.states[v]? with
  | none => rfl
  | some state =>
      dsimp only
      rw [EStateM.run_bind, EStateM.run_get]
      dsimp only
      rw [EStateM.run_bind, run_throwIf]
      split_ifs
      · rfl
      · exact run_modifyState (b := { b with pending := b.pending.insert id ⟨v, read⟩ }) hv _

/-- The request is checked, the cache takes the data, and then the request is dropped. -/
theorem run_complete (id v : ℕ) (read : Bool) (bs : List UInt8) :
    (complete id v read bs).run b = b.complete id v read bs := by
  rw [complete, WindowCacheBank.complete, EStateM.run_bind, EStateM.run_get]
  dsimp only
  rw [EStateM.run_bind, run_throwIf]
  split_ifs
  · rfl
  · dsimp only
    rw [EStateM.run_bind, run_onCache b v fun c => WindowDataCache.Member.run_complete c bs,
      WindowCacheBank.onCache]
    cases hv : b.states[v]? with
    | none => rfl
    | some state =>
        dsimp only
        cases state.cache.complete bs with
        | error e => rfl
        | ok c =>
            dsimp only
            rw [EStateM.run_bind, run_modifyState (setState_self hv)]
            simp only [EStateM.run_modify, setState, List.set_set]

/-- The CPU is checked before its cache is reset. -/
theorem run_resetCore (v : ℕ) : (resetCore v).run b = b.resetCore v := by
  rw [resetCore, WindowCacheBank.resetCore, EStateM.run_bind, run_stateAt]
  cases hv : b.states[v]? with
  | none => rfl
  | some state =>
      dsimp only
      rw [EStateM.run_bind, run_throwIf]
      split_ifs
      · rfl
      · exact run_onCache b v WindowDataCache.Member.run_reset

end Member

/-! ### Calls on a bank -/

/-- A public call on a bank, or on the cache of a CPU by the reference `cache(v)`. -/
inductive BankCall where
  | configure (cores base size : ℕ)
  | addRegion (base size : ℕ)
  | issued (v id : ℕ) (read : Bool)
  | complete (id v : ℕ) (read : Bool) (bytes : List UInt8)
  | resetCore (v : ℕ)
  | cache (v : ℕ) (call : WindowDataCache.Call)
deriving DecidableEq, Repr

/-- The program of a call. -/
def BankCall.member : BankCall → Member Unit
  | .configure cores base size => Member.configure cores base size
  | .addRegion base size => Member.addRegion base size
  | .issued v id read => Member.issued v id read
  | .complete id v read bytes => Member.complete id v read bytes
  | .resetCore v => Member.resetCore v
  | .cache v call => Member.onCache v (WindowDataCache.Member.call call)

/-- Not a call that adds a region to one cache alone, which the reference `cache(v)` allows. -/
def BankCall.Shared : BankCall → Prop
  | .cache _ (.addRegion ..) | .cache _ (.configure ..) => False
  | _ => True

/-- The bank after a sequence of calls, the rejected ones included. -/
def bankAfter (calls : List BankCall) : WindowCacheBank :=
  calls.foldl (fun b call => Result.bank (call.member.run b)) {}

variable {b : WindowCacheBank}

/-- A call on one cache that throws. -/
theorem onCache_error {v : ℕ} {f : WindowDataCache → Except Exn WindowDataCache} {e : Exn}
    {d : WindowCacheBank} (h : b.onCache v f = .error e d) : d = b := by
  rw [onCache] at h
  cases hv : b.states[v]? with
  | none =>
      rw [hv] at h
      cases h
      rfl
  | some state =>
      simp only [hv] at h
      cases hf : f state.cache <;> rw [hf] at h <;> cases h
      rfl

/-- A call that throws leaves the bank as it was, whatever its caches hold: all members but
`addRegion` check before they assign. -/
theorem member_error {call : BankCall} (hcall : ∀ base size, call ≠ .addRegion base size) {e : Exn}
    {d : WindowCacheBank} (h : call.member.run b = .error e d) : d = b := by
  cases call with
  | configure cores base size =>
      rw [BankCall.member, Member.run_configure, WindowCacheBank.configure] at h
      split_ifs at h
      · cases h
        rfl
      · cases hc : WindowDataCache.configure {} base size <;> rw [hc] at h <;> cases h
        rfl
  | addRegion base size => exact absurd rfl (hcall base size)
  | issued v id read =>
      rw [BankCall.member, Member.run_issued, WindowCacheBank.issued] at h
      cases hv : b.states[v]? with
      | none =>
          rw [hv] at h
          cases h
          rfl
      | some state =>
          simp only [hv] at h
          split_ifs at h
          cases h
          rfl
  | complete id v read bs =>
      rw [BankCall.member, Member.run_complete, WindowCacheBank.complete] at h
      split_ifs at h
      · cases h
        rfl
      · cases hv : b.states[v]? with
        | none =>
            rw [hv] at h
            cases h
            rfl
        | some state =>
            simp only [hv] at h
            cases hc : state.cache.complete bs <;> rw [hc] at h <;> cases h
            rfl
  | resetCore v =>
      rw [BankCall.member, Member.run_resetCore, WindowCacheBank.resetCore] at h
      cases hv : b.states[v]? with
      | none =>
          rw [hv] at h
          cases h
          rfl
      | some state =>
          simp only [hv] at h
          split_ifs at h
          · cases h
            rfl
          · exact onCache_error h
  | cache v call =>
      rw [BankCall.member,
        Member.run_onCache b v fun c => WindowDataCache.Member.run_call c call] at h
      exact onCache_error h

/-! ### The regions of a bank -/

/-- Every cache of the bank is consistent and has the regions `rs`. -/
def Alike (b : WindowCacheBank) (rs : List WindowDataCache.Region) : Prop :=
  ∀ state ∈ b.states, state.cache.Inv ∧ state.cache.regions = rs

/-- Replacing the state of one CPU by one with the same regions. -/
theorem Alike.setState {rs : List WindowDataCache.Region} (h : Alike b rs) (v : ℕ)
    {state : BankState} (hinv : state.cache.Inv) (hrs : state.cache.regions = rs) :
    Alike (b.setState v state) rs := by
  intro state' hmem
  rcases List.mem_or_eq_of_mem_set hmem with hmem | rfl
  · exact h state' hmem
  · exact ⟨hinv, hrs⟩

/-- The outcome of `addRegion` on idle caches with the regions `rs`. -/
def accepts (rs : List WindowDataCache.Region) (base size : ℕ) : Option Exn :=
  match ({ regions := rs } : WindowDataCache).addRegion base size with
  | .ok _ => none
  | .error e => some e

/-- The cache with one region more. -/
def extended (base size : ℕ) (state : BankState) : BankState :=
  { state with
    cache := { state.cache with regions := state.cache.regions ++ [⟨base, size⟩] } }

/-- On an idle cache the regions alone decide. -/
theorem addRegion_of_idle {c : WindowDataCache} (hidle : c.active = false) (base size : ℕ) :
    c.addRegion base size = match accepts c.regions base size with
      | none => .ok { c with regions := c.regions ++ [⟨base, size⟩] }
      | some e => .error e := by
  rw [accepts, WindowDataCache.addRegion, WindowDataCache.addRegion, hidle]
  split_ifs <;> rfl

/-- Idle caches with the same regions all take a region, or the first one refuses it. -/
theorem addRegionFrom_eq {rs : List WindowDataCache.Region} {base size : ℕ} (n : ℕ) :
    ∀ (v : ℕ) (b : WindowCacheBank), v + n = b.states.length →
      (∀ state ∈ b.states.drop v, state.cache.active = false ∧ state.cache.regions = rs) →
      addRegionFrom base size n v b =
        match accepts rs base size, n with
        | some e, _ + 1 => .error e b
        | _, _ => .ok () { b with
            states := b.states.take v ++ (b.states.drop v).map (extended base size) } := by
  induction n with
  | zero =>
      intro v b hlen hrest
      have hdrop : b.states.drop v = [] := List.drop_eq_nil_of_le (by omega)
      have htake : b.states.take v = b.states := List.take_of_length_le (by omega)
      rw [hdrop, htake]
      simp [addRegionFrom]
  | succ n ih =>
      intro v b hlen hrest
      have hlt : v < b.states.length := by omega
      have hv : b.states[v]? = some b.states[v] := List.getElem?_eq_getElem hlt
      rw [List.drop_eq_getElem_cons hlt, List.forall_mem_cons] at hrest
      obtain ⟨⟨hidle, hregions⟩, hrest⟩ := hrest
      rw [addRegionFrom, hv]
      dsimp only
      rw [addRegion_of_idle hidle, hregions]
      cases haccepts : accepts rs base size with
      | some e => rfl
      | none =>
          dsimp only
          have hdrop (state : BankState) : (b.setState v state).states.drop (v + 1) =
              b.states.drop (v + 1) := List.drop_set_of_lt (Nat.lt_succ_self v)
          rw [ih (v + 1) _ (by rw [setState_length]; omega) (by rwa [hdrop]), haccepts, hdrop,
            List.drop_eq_getElem_cons hlt, List.map_cons]
          have htake (state : BankState) : (b.setState v state).states.take (v + 1) =
              b.states.take v ++ [state] := by
            rw [setState, List.take_set, List.take_succ_eq_append_getElem hlt,
              List.set_append_right]
            all_goals simp [Nat.min_eq_left hlt.le]
          rw [htake, List.append_assoc, extended, hregions]
          cases n <;> rfl

/-- An idle cache that takes a region stays consistent. -/
theorem extended_ok {rs : List WindowDataCache.Region} {base size : ℕ} {state : BankState}
    (hinv : state.cache.Inv) (hidle : state.cache.active = false) (hrs : state.cache.regions = rs)
    (haccepts : accepts rs base size = none) :
    (extended base size state).cache.Inv ∧
      (extended base size state).cache.regions = rs ++ [⟨base, size⟩] := by
  have hadd := addRegion_of_idle hidle base size
  rw [hrs, haccepts, ← hrs] at hadd
  exact ⟨hinv.addRegion hadd, congrArg (· ++ [_]) hrs⟩

/-- **All or nothing.** On a bank whose caches have the same regions, `addRegion` throws and changes
nothing, or gives the region to every cache. -/
theorem Alike.addRegion {rs : List WindowDataCache.Region} (h : Alike b rs) (base size : ℕ) :
    (∃ e, b.addRegion base size = .error e b) ∨
      (b.addRegion base size = .ok () { b with states := b.states.map (extended base size) } ∧
        Alike { b with states := b.states.map (extended base size) } (rs ++ [⟨base, size⟩])) := by
  rw [WindowCacheBank.addRegion]
  split_ifs with hact
  · exact Or.inl ⟨_, rfl⟩
  · have hidle : ∀ state ∈ b.states, state.cache.active = false := by
      intro state hmem
      rw [active, Bool.or_eq_true, not_or, List.any_eq_true] at hact
      by_contra hbusy
      exact hact.2 ⟨state, hmem, Bool.not_eq_false _ ▸ hbusy⟩
    rw [addRegionFrom_eq _ 0 b (Nat.zero_add _) fun state hmem =>
      ⟨hidle state hmem, (h state hmem).2⟩]
    cases haccepts : accepts rs base size with
    | none =>
        refine Or.inr ⟨rfl, fun state hmem => ?_⟩
        obtain ⟨state, hold, rfl⟩ := List.mem_map.mp hmem
        exact extended_ok (h state hold).1 (hidle state hold) (h state hold).2 haccepts
    | some e =>
        cases hstates : b.states with
        | nil => exact Or.inr ⟨rfl, fun state hmem => by cases hmem⟩
        | cons state rest => exact Or.inl ⟨e, rfl⟩

/-- A call of a transaction or a reset keeps a cache consistent and its regions where they are. -/
theorem apply_ok {v : ℕ} {call : WindowDataCache.Call} (hcall : (BankCall.cache v call).Shared)
    {c d : WindowDataCache} (hc : c.Inv) (hd : call.apply c = .ok d) :
    d.Inv ∧ d.regions = c.regions := by
  have hstep {s : Step} (hs : s.cacheCall = some fun c => call.apply c) :
      d.Inv ∧ d.regions = c.regions :=
    ⟨Step.cacheCall_inv hs hd hc, Step.cacheCall_regions hs hd hc⟩
  cases call with
  | access a n w bs => exact @hstep (.access v a n w bs) rfl
  | movec reg value => exact @hstep (.movec v reg value) rfl
  | push i o => exact @hstep (.push v i o) rfl
  | next => exact @hstep (.next v) rfl
  | complete bs => exact @hstep (.native v bs) rfl
  | reset => exact @hstep (.resetCore v) rfl
  | addRegion base size => exact absurd hcall id
  | configure base size => exact absurd hcall id

/-- A call on one cache. -/
theorem Alike.onCache {rs : List WindowDataCache.Region} (h : Alike b rs) (v : ℕ)
    {f : WindowDataCache → Except Exn WindowDataCache}
    (hf : ∀ c d : WindowDataCache, c.Inv → f c = .ok d → d.Inv ∧ d.regions = c.regions) :
    Alike (b.onCache v f).bank rs := by
  rw [WindowCacheBank.onCache]
  cases hv : b.states[v]? with
  | none => exact h
  | some state =>
      obtain ⟨hinv, hregions⟩ := h state (List.mem_of_getElem? hv)
      cases hc : f state.cache with
      | error e =>
          simp only [hc]
          exact h
      | ok c =>
          obtain ⟨hinv', hsame⟩ := hf _ _ hinv hc
          simp only [hc]
          exact h.setState v hinv' (hsame.trans hregions)

/-- **A shared call** on a bank keeps the regions of its caches alike. -/
theorem Alike.call {rs : List WindowDataCache.Region} (h : Alike b rs) {call : BankCall}
    (hcall : call.Shared) : ∃ rs', Alike (Result.bank (call.member.run b)) rs' := by
  cases call with
  | configure cores base size =>
      rw [BankCall.member, Member.run_configure, WindowCacheBank.configure]
      split_ifs
      · exact ⟨rs, h⟩
      · cases hc : WindowDataCache.configure {} base size with
        | error e => exact ⟨rs, h⟩
        | ok c =>
            refine ⟨c.regions, fun state hmem => ?_⟩
            rw [List.eq_of_mem_replicate hmem]
            exact ⟨WindowDataCache.inv_default.addRegion (WindowDataCache.configure_ok hc), rfl⟩
  | addRegion base size =>
      rw [BankCall.member, Member.run_addRegion]
      rcases h.addRegion base size with ⟨e, he⟩ | ⟨hok, halike⟩
      · rw [he]
        exact ⟨rs, h⟩
      · rw [hok]
        exact ⟨_, halike⟩
  | issued v id read =>
      rw [BankCall.member, Member.run_issued, WindowCacheBank.issued]
      cases hv : b.states[v]? with
      | none => exact ⟨rs, h⟩
      | some state =>
          obtain ⟨hinv, hregions⟩ := h state (List.mem_of_getElem? hv)
          dsimp only
          split_ifs
          · exact ⟨rs, h⟩
          · exact ⟨rs, Alike.setState (b := { b with pending := _ }) h v hinv hregions⟩
  | complete id v read bs =>
      rw [BankCall.member, Member.run_complete, WindowCacheBank.complete]
      split_ifs
      · exact ⟨rs, h⟩
      · cases hv : b.states[v]? with
        | none => exact ⟨rs, h⟩
        | some state =>
            obtain ⟨hinv, hregions⟩ := h state (List.mem_of_getElem? hv)
            dsimp only
            cases hc : state.cache.complete bs with
            | error e => exact ⟨rs, h⟩
            | ok c =>
                obtain ⟨hinv', hsame⟩ := @apply_ok v (.complete bs) trivial _ _ hinv hc
                exact ⟨rs, Alike.setState (b := { b with pending := _ }) h v hinv'
                  (hsame.trans hregions)⟩
  | resetCore v =>
      rw [BankCall.member, Member.run_resetCore, WindowCacheBank.resetCore]
      cases hv : b.states[v]? with
      | none => exact ⟨rs, h⟩
      | some state =>
          dsimp only
          split_ifs
          · exact ⟨rs, h⟩
          · exact ⟨rs, h.onCache v fun c d hc hd => @apply_ok v .reset trivial c d hc hd⟩
  | cache v call =>
      rw [BankCall.member, Member.run_onCache b v fun c => WindowDataCache.Member.run_call c call]
      exact ⟨rs, h.onCache v fun c d hc hd => apply_ok hcall hc hd⟩

/-- **A bank after shared calls** has the same regions in all its caches. -/
theorem alike_after (calls : List BankCall) (hcalls : ∀ call ∈ calls, call.Shared) :
    ∃ rs, Alike (bankAfter calls) rs := by
  induction calls using List.reverseRecOn with
  | nil => exact ⟨[], nofun⟩
  | append_singleton calls call ih =>
      obtain ⟨hold, hnew⟩ := List.forall_mem_append.mp hcalls
      obtain ⟨rs, h⟩ := ih hold
      rw [bankAfter, List.foldl_append]
      exact h.call (hnew call (List.mem_singleton_self call))

/-- **A rejected call changes nothing.** The program of a call that throws leaves a cache as it was,
in every state of the cache, and it leaves a bank as it was, in every state of the bank for every
call but `addRegion`, and for that in every state the bank reaches by shared calls. There
`addRegion` gives the region to every cache when it does not throw. -/
theorem rejected_unchanged :
    (∀ (c d : WindowDataCache) (call : WindowDataCache.Call) (e : Exn),
      (WindowDataCache.Member.call call).run c = .error e d → d = c) ∧
    (∀ (b d : WindowCacheBank) (call : BankCall) (e : Exn),
      (∀ base size, call ≠ .addRegion base size) → call.member.run b = .error e d → d = b) ∧
    ∀ calls : List BankCall, (∀ call ∈ calls, call.Shared) →
      (∀ (call : BankCall) (e : Exn) (d : WindowCacheBank),
        call.member.run (bankAfter calls) = .error e d → d = bankAfter calls) ∧
      ∀ (base size : ℕ) (d : WindowCacheBank),
        (BankCall.addRegion base size).member.run (bankAfter calls) = .ok () d →
          d = { bankAfter calls with
            states := (bankAfter calls).states.map (extended base size) } := by
  refine ⟨?_, ?_, fun calls hcalls => ?_⟩
  · exact fun c d call e h => WindowDataCache.Member.run_call_error h
  · exact fun b d call e hcall h => member_error hcall h
  · obtain ⟨rs, halike⟩ := alike_after calls hcalls
    constructor
    · intro call e d h
      by_cases hcall : ∃ base size, call = .addRegion base size
      · obtain ⟨base, size, rfl⟩ := hcall
        rw [BankCall.member, Member.run_addRegion] at h
        rcases halike.addRegion base size with ⟨e', he⟩ | ⟨hok, -⟩
        · rw [he] at h
          cases h
          rfl
        · rw [hok] at h
          cases h
      · exact member_error (fun base size he => hcall ⟨base, size, he⟩) h
    · intro base size d h
      rw [BankCall.member, Member.run_addRegion] at h
      rcases halike.addRegion base size with ⟨e', he⟩ | ⟨hok, -⟩
      · rw [he] at h
        cases h
      · rw [hok] at h
        cases h
        rfl

/-- A bank of two CPUs, whose first cache has a transaction open. -/
def openBank : List BankCall :=
  [.configure 2 4096 64, .cache 0 (.movec 2 0x82000000), .cache 0 .next,
    .cache 0 (.access 4096 1 true [5])]

/-- It refuses a region, and a second access of that cache. -/
theorem rejected_unchanged_open :
    (∃ e, (BankCall.addRegion 8192 64).member.run (bankAfter openBank) =
      .error e (bankAfter openBank)) ∧
    ∃ e, (BankCall.cache 0 (.access 4096 1 true [5])).member.run (bankAfter openBank) =
      .error e (bankAfter openBank) := by
  have hcalls : ∀ call ∈ openBank, call.Shared := by
    simp [openBank, BankCall.Shared]
  have hrejected {call : BankCall} (h : ∀ d, call.member.run (bankAfter openBank) ≠ .ok () d) :
      ∃ e, call.member.run (bankAfter openBank) = .error e (bankAfter openBank) := by
    cases hrun : call.member.run (bankAfter openBank) with
    | ok u d => exact absurd hrun (h d)
    | error e d =>
        have hsame := (rejected_unchanged.2.2 openBank hcalls).1 call e d hrun
        rw [hsame]
        exact ⟨e, rfl⟩
  exact ⟨hrejected nofun, hrejected nofun⟩

/-- A bank of two CPUs, whose second cache was given a region of its own. -/
def splitBank : List BankCall := [.configure 2 4096 64, .cache 1 (.addRegion 8192 64)]

/-- The bank refuses the region because of the second cache, when the first one already has it. -/
theorem rejected_addRegion_splits :
    ∃ e d, (BankCall.addRegion 8192 64).member.run (bankAfter splitBank) = .error e d ∧
      d ≠ bankAfter splitBank ∧
      (bankAfter splitBank).states.map (fun state => state.cache.regions) =
        [[⟨4096, 64⟩], [⟨4096, 64⟩, ⟨8192, 64⟩]] ∧
      d.states.map (fun state => state.cache.regions) =
        [[⟨4096, 64⟩, ⟨8192, 64⟩], [⟨4096, 64⟩, ⟨8192, 64⟩]] := by
  refine ⟨_, _, rfl, fun hsame => ?_, rfl, rfl⟩
  have hregions := congrArg (fun b => b.states.map fun state => state.cache.regions.length) hsame
  cases hregions

end WindowCacheBank

end Quetz
