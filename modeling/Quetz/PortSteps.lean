import Quetz.DoorbellLedger

/-!
# The Steps of the Ports

What the polls of the mailbox and the responses do to the ports. A poll arms at most the doorbell of
its vCPU and leaves the released ones where they are (`Commanded`); a response keeps the ledgers
(`Responded`).

## Main results

* `pollVcpu_step`: the poll of a vCPU.
* `completeMmioSyncResponse_step`: a response of the synchronous path.
-/

namespace Quetz

open BalarPort QuetzCpu

/-! ### Commands -/

section Commands

variable {c : BalarConfig} {v : ℕ} {cmd : QuetzCommand} {h h' : Host} {s s' : BalarPort}

/-- A command leaves the released doorbells where they are, and arms only the one of its vCPU. -/
structure Commanded (v : ℕ) (h h' : Host) (s s' : BalarPort) : Prop where
  stays : ∀ u, Stays u h h' s s'
  armed : ∀ u, u ≠ v → s'.armedDoorbells u = s.armedDoorbells u

/-- Only the armed doorbell of the vCPU may differ. -/
theorem commanded_of_maps (hl : h.Later h') (hf : s'.doorbellFlushes = s.doorbellFlushes)
    (hq : s'.submitQueue = s.submitQueue) (ht : s'.flushToVcpu = s.flushToVcpu)
    (ha : ∀ u, u ≠ v → s'.armedDoorbells u = s.armedDoorbells u) : Commanded v h h' s s' :=
  ⟨fun u => ⟨hl, by rw [hf], by rw [hq], fun f _ _ hu => by rw [ht]; exact hu⟩, ha⟩

/-- A SUBMIT arms a doorbell. -/
theorem submit_commanded (hrun : submit c v cmd h s = .ok (h', s')) : Commanded v h h' s s' := by
  rw [submit] at hrun
  by_cases hlink : c.doorbellAddr = 0 ∨ (!c.hasMem v) = true
  · rw [if_pos hlink] at hrun
    cases hrun
  rw [if_neg hlink] at hrun
  by_cases hdepth : s.asyncInFlight + 1 > c.asyncCompletionDepth
  · rw [if_pos hdepth] at hrun
    cases hrun
  rw [if_neg hdepth] at hrun
  by_cases hnested : (s.armedDoorbells v).isSome = true ∨ (s.doorbellFlushes v).isSome = true
  · simp only [if_pos hnested] at hrun
    cases hrun
  · simp only [if_neg hnested] at hrun
    obtain ⟨rfl, rfl⟩ := Prod.mk.inj (Except.ok.inj hrun)
    exact commanded_of_maps (.refl h) rfl rfl rfl fun u huv => Function.update_of_ne huv _ _

/-- A command in the async aperture. -/
theorem handleAsyncAperture_commanded (hrun : handleAsyncAperture c v cmd h s = .ok (h', s')) :
    Commanded v h h' s s' := by
  rw [handleAsyncAperture] at hrun
  cases hclaim : claimAsync v s with
  | error e =>
      rw [hclaim] at hrun
      cases hrun
  | ok s₁ =>
      obtain ⟨first, rfl⟩ : ∃ first, s₁ = { s with asyncVcpu := first } := by
        rw [claimAsync] at hclaim
        cases hfirst : s.asyncVcpu with
        | none =>
            rw [hfirst] at hclaim
            exact ⟨_, (Except.ok.inj hclaim).symm⟩
        | some first =>
            simp only [hfirst] at hclaim
            split_ifs at hclaim
            exact ⟨s.asyncVcpu, (Except.ok.inj hclaim).symm⟩
      simp only [hclaim] at hrun
      have hpost : ∀ value, Commanded v h (h.postResponse v value) s
          { s with asyncVcpu := first } := fun value =>
        commanded_of_maps (Host.Grows.post ..).later rfl rfl rfl fun _ _ => rfl
      cases hcmd : cmd.cmd with
      | mmioReadReq =>
          simp only [hcmd] at hrun
          cases hrun
          exact hpost _
      | mmioWriteReq =>
          simp only [hcmd] at hrun
          split_ifs at hrun
          · cases hrun
            exact hpost _
          · have hsubmit := submit_commanded hrun
            exact ⟨fun u => ⟨(hsubmit.stays u).later, (hsubmit.stays u).flushes,
              (hsubmit.stays u).queue, (hsubmit.stays u).held⟩, hsubmit.armed⟩
      | _ =>
          simp only [hcmd] at hrun
          cases hrun
          exact commanded_of_maps (.refl h) rfl rfl rfl fun _ _ => rfl

/-- A command of the port. -/
theorem handleCommand_commanded (hrun : handleCommand c v cmd h s = .ok (h', s')) :
    Commanded v h h' s s' := by
  rw [handleCommand] at hrun
  by_cases hasync : inAsync c cmd.addr = true
  · rw [if_pos hasync] at hrun
    exact handleAsyncAperture_commanded hrun
  rw [if_neg hasync] at hrun
  cases hcmd : cmd.cmd with
  | mmioReadReq =>
      simp only [hcmd] at hrun
      cases hrun
      exact commanded_of_maps (Host.Grows.send ..).later rfl rfl rfl fun _ _ => rfl
  | mmioWriteReq =>
      simp only [hcmd] at hrun
      split_ifs at hrun
      · -- Without flushing the doorbell is forwarded, and it is synchronous.
        simp only [forwardDoorbell, Bool.false_and, Bool.false_eq_true, if_false] at hrun
        cases hrun
        exact commanded_of_maps (Host.Grows.send ..).later rfl rfl rfl fun _ _ => rfl
      · cases hrun
        exact commanded_of_maps (.refl h) rfl rfl rfl fun u huv => Function.update_of_ne huv _ _
  | _ =>
      simp only [hcmd] at hrun
      cases hrun
      exact commanded_of_maps (.refl h) rfl rfl rfl fun _ _ => rfl

end Commands

/-! ### Polls and responses -/

namespace QuetzCpu

variable {c : CpuConfig} {v : ℕ} {w w' : QuetzCpu} {R : BalarPort → BalarPort → Prop}

/-- The host goes on, and every port makes a step in `R`. -/
structure PortsStep (R : BalarPort → BalarPort → Prop) (w w' : QuetzCpu) : Prop where
  later : w.host.Later w'.host
  ports : ∀ (k : ℕ) (p' : BalarConfig × BalarPort), w'.ports[k]? = some p' →
    ∃ p, w.ports[k]? = some p ∧ p'.1 = p.1 ∧ R p.2 p'.2

/-- No port makes a step. -/
theorem PortsStep.same (hl : w.host.Later w'.host) (hports : w'.ports = w.ports)
    (hR : ∀ (k : ℕ) (p : BalarConfig × BalarPort), w.ports[k]? = some p → R p.2 p.2) :
    PortsStep R w w' := by
  refine ⟨hl, fun k p' hk => ?_⟩
  rw [hports] at hk
  exact ⟨p', hk, rfl, hR k p' hk⟩

/-- One port makes a step. -/
theorem PortsStep.one (hl : w.host.Later w'.host) {k : ℕ} {p : BalarConfig × BalarPort}
    {s' : BalarPort} (hk : w.ports[k]? = some p) (hports : w'.ports = w.ports.set k (p.1, s'))
    (hown : R p.2 s')
    (hR : ∀ (j : ℕ) (q : BalarConfig × BalarPort), w.ports[j]? = some q → j ≠ k → R q.2 q.2) :
    PortsStep R w w' := by
  refine ⟨hl, fun j p' hj => ?_⟩
  rw [hports] at hj
  by_cases hjk : j = k
  · subst hjk
    rw [List.getElem?_set_self (List.getElem?_eq_some_iff.mp hk).1] at hj
    obtain rfl := Option.some.inj hj
    exact ⟨p, hk, rfl, hown⟩
  · rw [List.getElem?_set_ne (Ne.symm hjk)] at hj
    exact ⟨p', hj, rfl, hR j p' hj hjk⟩

/-- Servicing a window cache leaves the ports alone. -/
theorem serviceWindowCache_later (v : ℕ) : ∀ (rounds : ℕ) {w w' : QuetzCpu},
    serviceWindowCache v rounds w = .ok w' → w.host.Later w'.host ∧ w'.ports = w.ports
  | 0, _, _, hrun => by cases hrun
  | rounds + 1, w, w', hrun => by
    rw [serviceWindowCache] at hrun
    cases hst : w.bank.states[v]? with
    | none =>
        rw [hst] at hrun
        cases hrun
    | some st =>
        simp only [hst] at hrun
        cases hnext : st.cache.next with
        | error e =>
            rw [hnext] at hrun
            cases hrun
        | ok res =>
            obtain ⟨cache, action⟩ := res
            simp only [hnext] at hrun
            by_cases hdone : action.kind = .done
            · rw [if_pos hdone] at hrun
              cases hrun
              exact ⟨(Host.Grows.post ..).later, rfl⟩
            rw [if_neg hdone] at hrun
            cases hnative : nativeAccess w.native action with
            | error e =>
                rw [hnative] at hrun
                cases hrun
            | ok found =>
                simp only [hnative] at hrun
                cases found with
                | some found =>
                    dsimp only at hrun
                    split at hrun
                    · cases hrun
                    · have hrest := serviceWindowCache_later v rounds hrun
                      exact hrest
                | none =>
                    dsimp only at hrun
                    split at hrun
                    · cases hrun
                    · cases hrun
                      exact ⟨(Host.Grows.send ..).later, rfl⟩

/-- A cache command leaves the ports alone. -/
theorem handleCacheCommand_later {cmd : QuetzCommand}
    (hrun : handleCacheCommand c v cmd w = .ok w') :
    w.host.Later w'.host ∧ w'.ports = w.ports := by
  rw [handleCacheCommand] at hrun
  split_ifs at hrun
  split at hrun
  · cases hrun
  · split at hrun
    · cases hrun
    · have hserviced := serviceWindowCache_later v serviceRounds hrun
      exact hserviced

/-- What a poll does to the ports. -/
theorem handleMmioSyncCommand_step {cmd : QuetzCommand}
    (hrun : handleMmioSyncCommand c v cmd w = .ok w') :
    PortsStep (Commanded v w.host w'.host) w w' := by
  have hsame : ∀ {w' : QuetzCpu}, w.host.Later w'.host → w'.ports = w.ports →
      PortsStep (Commanded v w.host w'.host) w w' := fun hl hports =>
    .same hl hports fun _ _ _ => ⟨fun u => .of_later hl, fun _ _ => rfl⟩
  rw [handleMmioSyncCommand] at hrun
  split_ifs at hrun with hrange hcache hlink
  · obtain ⟨hl, hports⟩ := handleCacheCommand_later hrun
    exact hsame hl hports
  · cases hrun
    exact hsame (Host.Grows.post ..).later rfl
  · cases hport : w.portForAddr cmd.addr with
    | some k =>
        simp only [hport] at hrun
        cases hk : w.ports[k]? with
        | none =>
            rw [hk] at hrun
            cases hrun
            exact hsame (.refl _) rfl
        | some p =>
            simp only [hk] at hrun
            cases hres : handleCommand p.1 v cmd w.host p.2 with
            | error e =>
                rw [hres] at hrun
                cases hrun
            | ok res =>
                obtain ⟨h, s⟩ := res
                rw [hres] at hrun
                cases hrun
                have hcommand := handleCommand_commanded hres
                have hl := (hcommand.stays 0).later
                exact .one hl hk rfl hcommand fun _ _ _ _ => ⟨fun u => .of_later hl, fun _ _ => rfl⟩
    | none =>
        simp only [hport] at hrun
        cases hcmd : cmd.cmd with
        | mmioReadReq =>
            simp only [hcmd] at hrun
            cases hrun
            exact hsame (Host.Grows.send ..).later rfl
        | mmioWriteReq =>
            simp only [hcmd] at hrun
            cases hrun
            exact hsame (Host.Grows.send ..).later rfl
        | _ =>
            simp only [hcmd] at hrun
            cases hrun
            exact hsame (.refl _) rfl

/-- The poll of a mailbox gives at most one command to one port. -/
theorem pollVcpu_step (hrun : pollVcpu c v w = .ok w') :
    PortsStep (Commanded v w.host w'.host) w w' := by
  rw [pollVcpu] at hrun
  cases hreset : pollReset c v w with
  | error e =>
      rw [hreset] at hrun
      cases hrun
  | ok w₁ =>
      obtain ⟨bank, epochs, rfl⟩ : ∃ bank epochs,
          w₁ = { w with bank := bank, cacheResetEpochs := epochs } := by
        rw [pollReset] at hreset
        split_ifs at hreset
        · split at hreset
          · cases hreset
          · exact ⟨_, _, (Except.ok.inj hreset).symm⟩
        · exact ⟨_, _, (Except.ok.inj hreset).symm⟩
      simp only [hreset] at hrun
      cases hmail : w.mailbox v with
      | none =>
          rw [hmail] at hrun
          cases hrun
          exact .same (.refl _) rfl fun _ _ _ => ⟨fun u => .of_later (.refl _), fun _ _ => rfl⟩
      | some req =>
          simp only [hmail] at hrun
          have hstep := handleMmioSyncCommand_step hrun
          exact ⟨hstep.later, hstep.ports⟩

/-- A port that does not take the response. -/
theorem responded_of_later {h h' : Host} {s : BalarPort} (hmaps : MapsOk h s) (hl : h.Later h') :
    Responded h h' s s :=
  .of_stays rfl (fun _ => .of_later hl) fun _ => doorbellWrites_eq_nil hmaps.pending

/-- The port that takes a response. -/
theorem offerPorts_ok {id : ℕ} {resp : Response} {h h' : Host} :
    ∀ {ports ports' : List (BalarConfig × BalarPort)},
    offerPorts id resp h ports = .ok (some (h', ports')) → ∃ k p s', ports[k]? = some p ∧
      handleResponse id resp h p.2 = .ok (some (h', s')) ∧ ports' = ports.set k (p.1, s')
  | [], _, hrun => by cases hrun
  | p :: ps, ports', hrun => by
    rw [offerPorts] at hrun
    cases hres : handleResponse id resp h p.2 with
    | error e =>
        rw [hres] at hrun
        cases hrun
    | ok res =>
        rw [hres] at hrun
        cases res with
        | some res =>
            obtain ⟨h₁, s₁⟩ := res
            obtain ⟨rfl, rfl⟩ := Prod.mk.inj (Option.some.inj (Except.ok.inj hrun))
            exact ⟨0, p, s₁, rfl, hres, rfl⟩
        | none =>
            dsimp only at hrun
            cases hrest : offerPorts id resp h ps with
            | error e =>
                rw [hrest] at hrun
                cases hrun
            | ok rest =>
                rw [hrest] at hrun
                cases rest with
                | none => cases hrun
                | some rest =>
                    obtain ⟨h₁, ps₁⟩ := rest
                    obtain ⟨rfl, rfl⟩ := Prod.mk.inj (Option.some.inj (Except.ok.inj hrun))
                    obtain ⟨k, q, s', hk, hresp, rfl⟩ := offerPorts_ok hrest
                    exact ⟨k + 1, q, s', hk, hresp, rfl⟩

/-- **A response** that the synchronous path takes. -/
theorem completeMmioSyncResponse_step {ids : List ℕ} {ρ : ℕ → Role} {hint i : ℕ} {r : Request}
    {resp : Response} {fail : Bool} (hparts : Parts c ids ρ w)
    (hr : w.host.inFlight[i]? = some r)
    (hrun : completeMmioSyncResponse hint r.id resp fail { w with host := w.host.take i } =
      .ok (some w')) : PortsStep (Responded w.host w'.host) w w' := by
  have htake : w.host.Later (w.host.take i) := Host.Later.take w.host i
  have hsame : ∀ {w' : QuetzCpu}, (w.host.take i).Later w'.host → w'.ports = w.ports →
      PortsStep (Responded w.host w'.host) w w' := fun hl hports =>
    .same (htake.trans hl) hports fun k p hk =>
      responded_of_later (hparts.ports.inv k p hk).toMapsOk (htake.trans hl)
  rw [completeMmioSyncResponse] at hrun
  dsimp only at hrun
  cases hlookup : w.bank.pending.lookup r.id with
  | some p =>
      rw [hlookup] at hrun
      cases hres : completeCacheResponse hint r.id resp fail p
          { w with host := w.host.take i } with
      | error e =>
          simp only [hres] at hrun
          cases hrun
      | ok w₁ =>
          simp only [hres] at hrun
          obtain rfl := Option.some.inj (Except.ok.inj hrun)
          rw [completeCacheResponse] at hres
          split_ifs at hres
          split at hres
          · cases hres
          · obtain ⟨hl, hports⟩ := serviceWindowCache_later p.vcpu serviceRounds hres
            exact hsame hl hports
  | none =>
      rw [hlookup] at hrun
      dsimp only at hrun
      cases hoffer : offerPorts r.id resp (w.host.take i) w.ports with
      | error e =>
          rw [hoffer] at hrun
          cases hrun
      | ok res =>
          rw [hoffer] at hrun
          cases res with
          | some res =>
              obtain ⟨h', ports'⟩ := res
              obtain rfl := Option.some.inj (Except.ok.inj hrun)
              obtain ⟨k, p, s', hk, hresp, rfl⟩ := offerPorts_ok hoffer
              have hresponded :=
                handleResponse_responded hparts.ok (hparts.ports.inv k p hk) hr hresp
              refine .one hresponded.later hk rfl hresponded fun j q hj _ => ?_
              exact responded_of_later (hparts.ports.inv j q hj).toMapsOk hresponded.later
          | none =>
              dsimp only at hrun
              cases hgeneric : w.genericPending r.id with
              | none =>
                  rw [hgeneric] at hrun
                  cases hrun
              | some g =>
                  rw [hgeneric] at hrun
                  obtain rfl := Option.some.inj (Except.ok.inj hrun)
                  exact hsame (Host.Grows.post ..).later rfl

end QuetzCpu

end Quetz
