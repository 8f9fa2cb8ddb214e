import Quetz.DecodedTrace
import Quetz.PipelineProgress

/-!
# A Guest Comes to Its End

The plugin ends the ring of each vCPU with an exit, so that a core that is not starved halts, and
what it has sent and counted then is what the instructions of the guest ask for. The accesses of the
guest must stay inside the address space, and the links that the region table picks for them must
be there: otherwise the core ends the simulation with an error.

## Main results

* `Plugin.sound_ring`: the accesses of a ring are those of the guest.
* `Plugin.guest_completes`: the end of a guest, without starvation.
-/

namespace Quetz

open Pipeline

namespace Plugin

variable {c : CoreContext} {i : Installed} {version v n : ℕ} {insns : List TranslatedInsn}
  {cbs : List PluginCallback}

/-- A command of a ring is one of its items, unless it is a computation or an exit. -/
theorem mem_ring_cases {ring : List QuetzCommand} {cmd : QuetzCommand} (hcmd : cmd ∈ ring) :
    cmd.isCompute = true ∨ cmd.cmd = .exit ∨ cmd ∈ (expand ring).map command := by
  by_cases hrun : cmd.cmd = .computeRun
  · exact Or.inl (by rw [QuetzCommand.isCompute, hrun]; rfl)
  by_cases hnop : cmd.cmd = .nop
  · exact Or.inl (by rw [QuetzCommand.isCompute, hnop]; rfl)
  have hevent : (⟨cmd, stallOf default cmd⟩ : PipelineEvent) ∈ ring.flatMap (eventsOf default) :=
    List.mem_flatMap.mpr ⟨cmd, hcmd, by rw [eventsOf, if_neg hrun]; exact List.mem_singleton_self _⟩
  have hitem := List.mem_map_of_mem (f := command) (List.mem_map_of_mem (f := TraceItem.ofEvent)
    hevent)
  refine Or.inr ?_
  rw [TraceItem.ofEvent] at hitem
  split at hitem
  next hnop' => exact absurd hnop' hnop
  next hexit => exact Or.inl hexit
  next => exact Or.inr hitem

/-- The accesses of a ring are those of its items. -/
theorem sound_ring {ring : List QuetzCommand}
    (hsound : ∀ cmd ∈ (expand ring).map command, Sound c cmd) : ∀ cmd ∈ ring, Sound c cmd := by
  intro cmd hcmd
  rcases mem_ring_cases hcmd with hcompute | hexit | hitem
  · exact sound_of_isCompute hcompute
  · exact fun hissues => absurd (Or.inl hexit) hissues.2.2
  · exact hsound cmd hitem

/-- The exit of the guest is in the ring. -/
theorem exit_of_items {ring : List QuetzCommand}
    (hexit : { cmd := .exit } ∈ (expand ring).map command) : ∃ cmd ∈ ring, Halts c cmd := by
  obtain ⟨item, hitem, hcommand⟩ := List.mem_map.mp hexit
  obtain ⟨ev, hev, rfl⟩ := List.mem_map.mp hitem
  have hevent : ev.cmd.cmd = .exit := by
    rw [TraceItem.ofEvent] at hcommand
    split at hcommand
    next hnop => cases hcommand
    next hexit => exact hexit
    next => exact congrArg QuetzCommand.cmd hcommand
  obtain ⟨cmd, hcmd, hev⟩ := List.mem_flatMap.mp hev
  refine ⟨cmd, hcmd, Or.inl ?_⟩
  rw [eventsOf] at hev
  by_cases hrun : cmd.cmd = .computeRun
  · rw [if_pos hrun] at hev
    rw [List.eq_of_mem_replicate hev] at hevent
    cases hevent
  · rw [if_neg hrun] at hev
    rwa [List.mem_singleton.mp hev] at hevent

/-- **The end of a guest.** A plugin that was installed, with a decoder for the target or without
one, and any order in which its vCPUs execute their instructions. The accesses of `v` stay inside
the address space and have their links. Then a core that is not starved, whatever its limits and
latencies are and whenever it sees the commands of `v`, halts, without an error. It has sent the
requests of the instructions of `v`, and has counted them, in program order up to an access that
ends the simulation. -/
theorem guest_completes {registered : List (List Char × InsnClassifier)}
    {handlers : List (List Char × Unit)} {attach : List Char → Option UInt32}
    {info : Option QemuInfo} {argv : List (List Char)}
    (hinstall : install version registered handlers attach info argv = .ok i) (hv : v < n)
    (hn : n ≤ i.configuredVcpus.toNat) (h : Translates i version v insns cbs) :
    ∃ s, run (i.config version) (cbs ++ [.atexit n]) {} = .ok s ∧
      ∀ (c : CoreContext) (l : PipelineLimits), l.maxInsts = 0 →
        (∀ cmd ∈ guestCommands i version insns, Sound c cmd) →
        ∀ (host : Host) (σ : ℕ → CoreEvent), CoreRun.Fairly c l host σ →
        (∀ k, CoreRun.written σ k <+: s.rings v) → (∃ k, CoreRun.written σ k = s.rings v) →
        ∃ k, ∀ m, k ≤ m →
          let r := CoreRun.after c l host σ m
          r.pipe.halted = true ∧ r.pipe.fatal = none ∧
            r.traffic = upToHalt c (requestsOf c) (guestCommands i version insns) ∧
            r.pipe.counted = (upToHalt c (countsOf c) (guestCommands i version insns)).map
              fun stat => (stat, 1) := by
  obtain ⟨s, hs, hring⟩ := ring_translated hinstall hv hn h
  refine ⟨s, hs, fun c l hlimit hsound host σ hfair hwritten hall => ?_⟩
  have hexit : ({ cmd := .exit } : QuetzCommand) ∈ (expand (s.rings v)).map command := by
    rw [hring, guestCommands, List.map_append]
    exact List.mem_append_right _ (List.mem_singleton_self _)
  obtain ⟨k, hk⟩ := CoreRun.fair_run_halts hfair (exit_of_items hexit)
    (sound_ring (by rwa [hring])) hwritten hall
  have hrequests := reference_expand (c := c) (s.rings v)
  have hcounts := referenceCounts_expand (c := c) (s.rings v)
  rw [hring] at hrequests hcounts
  refine ⟨k, fun m hm => ?_⟩
  obtain ⟨hhalted, hfatal⟩ := hk m hm
  obtain ⟨-, hsent, -⟩ := CoreRun.run_reference (c := c) hlimit host _ (hwritten m)
  obtain ⟨-, hcounted⟩ := CoreRun.run_counts (c := c) hlimit host _ (hwritten m)
  dsimp only
  rw [← hrequests, ← hcounts]
  exact ⟨hhalted, hfatal, (hsent hhalted).1, hcounted hhalted⟩

/-- The ring becomes visible, and then the core ticks. -/
def endlessTicks (ring : List QuetzCommand) : ℕ → CoreEvent
  | 0 => .push ring
  | n + 1 => .tick n

theorem written_endlessTicks (ring : List QuetzCommand) (k : ℕ) :
    CoreRun.written (endlessTicks ring) (k + 1) = ring := by
  induction k with
  | zero => simp [CoreRun.written, CoreRun.pushed, endlessTicks]
  | succ k ih =>
      rw [CoreRun.written_succ, ih]
      exact List.append_nil ring

/-- A core that ticks and halts is not starved. -/
theorem fairly_endlessTicks {l : PipelineLimits} {host : Host} {ring : List QuetzCommand} {k : ℕ}
    (hover : Over (CoreRun.after c l host (endlessTicks ring) (k + 1)).pipe)
    (hfree : (CoreRun.after c l host (endlessTicks ring) (k + 1)).pipe.emitter.pendingCount <
      l.maxPending) : CoreRun.Fairly c l host (endlessTicks ring) := by
  have hstill : ∀ m, k + 1 ≤ m →
      (CoreRun.after c l host (endlessTicks ring) m).pipe.emitter.pendingCount <
        l.maxPending := by
    intro m hm
    induction m, hm using Nat.le_induction with
    | base => exact hfree
    | succ m hm ih =>
        obtain ⟨m, rfl⟩ := Nat.exists_eq_add_of_le' (show 1 ≤ m by omega)
        have hnow : Over (CoreRun.after c l host (endlessTicks ring) (m + 1)).pipe :=
          CoreRun.over_after hm hover
        rw [CoreRun.after_succ, endlessTicks, CoreRun.step, tick_of_over (by exact hnow)]
        exact ih
  refine ⟨fun m => ⟨m + 1, Nat.le_succ m, m, rfl⟩, fun m => ⟨m + (k + 1), by omega, ?_⟩⟩
  exact hstill _ (by omega)

/-- The load and the two additions: two ticks are enough. -/
theorem guest_completes_load :
    ∃ k, ∀ m, k ≤ m →
      let r := CoreRun.after { detailedTracking := true } {} {} (endlessTicks loadAddAddRing) m
      r.pipe.halted = true ∧ r.pipe.fatal = none ∧ r.traffic = [(.mem, .read 0x4000 4)] := by
  obtain ⟨s, hs, hall⟩ := guest_completes install_riscvPlugin Nat.one_pos le_rfl
    translates_loadAddAdd
  rw [rings_loadAddAdd hs] at hall
  have hover : Over (CoreRun.after { detailedTracking := true } {} {}
      (endlessTicks loadAddAddRing) 3).pipe := Or.inl (by decide +kernel)
  have hwritten : ∀ k, CoreRun.written (endlessTicks loadAddAddRing) k <+: loadAddAddRing := by
    intro k
    cases k with
    | zero => exact List.nil_prefix
    | succ k => rw [written_endlessTicks]
  have hsound : ∀ cmd ∈ guestCommands riscvPlugin 4 loadAddAdd,
      Sound { detailedTracking := true } cmd := by decide +kernel
  obtain ⟨k, hk⟩ := hall { detailedTracking := true } {} rfl hsound {}
    (endlessTicks loadAddAddRing) (fairly_endlessTicks hover (by decide +kernel)) hwritten
    ⟨1, written_endlessTicks loadAddAddRing 0⟩
  refine ⟨k, fun m hm => ?_⟩
  obtain ⟨hhalted, hfatal, htraffic, -⟩ := hk m hm
  exact ⟨hhalted, hfatal, htraffic.trans (by decide +kernel)⟩

end Plugin

end Quetz
