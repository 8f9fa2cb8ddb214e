import Quetz.PipelineTraffic
import Quetz.PortHolder

/-!
# A Drained Pipeline

What `isDrained` of `src/quetz_pipeline.h` promises. The emitter tracks each of its requests in
flight (`Tracks`), so none is left when it counts none; and a pipeline that runs on with an empty
queue has issued every access of the commands it read. That the ring is empty as well is part of
`Ticked`.

## Main results

* `Emitted.tracks` / `Tracks.response`: the count of the emitter through sends and responses.
* `Ok.all_issued`: an empty queue.
-/

namespace Quetz

/-! ### Requests in flight -/

namespace Host

/-- From `h` to `h'` some requests were answered and some were sent. -/
structure Later (h h' : Host) : Prop where
  nextId : h.nextId ≤ h'.nextId
  old : ∀ r ∈ h'.inFlight, r ∈ h.inFlight ∨ h.nextId ≤ r.id

variable {h h₁ h₂ : Host}

/-- Nothing was sent. -/
theorem Later.refl (h : Host) : Later h h := ⟨Nat.le_refl _, fun _ hr => Or.inl hr⟩

/-- Two moments, one after the other. -/
theorem Later.trans (h₀₁ : Later h h₁) (h₁₂ : Later h₁ h₂) : Later h h₂ := by
  refine ⟨h₀₁.nextId.trans h₁₂.nextId, fun r hr => ?_⟩
  rcases h₁₂.old r hr with hr | hge
  · exact h₀₁.old r hr
  · exact Or.inr (h₀₁.nextId.trans hge)

/-- Requests were sent. -/
theorem Grows.later (hg : Grows h h₁) : Later h h₁ :=
  have hturns : Turns (fun _ => False) h h₁ := hg.turns
  ⟨hturns.nextId, hturns.old⟩

/-- A request was answered. -/
theorem Later.take (h : Host) (i : ℕ) : Later h (h.take i) :=
  ⟨Nat.le_refl _, fun _ hr => Or.inl (List.mem_of_mem_eraseIdx hr)⟩

/-- A request that was answered does not come back. -/
theorem Later.not_mem (hl : Later h h₁) {r : Request} (hid : r.id < h.nextId)
    (hr : r ∉ h.inFlight) : r ∉ h₁.inFlight := by
  intro hmem
  rcases hl.old r hmem with hold | hge
  · exact hr hold
  · omega

end Host

/-! ### The count of the emitter -/

namespace MemRequestEmitter

variable {c : CoreContext} {h h' : Host} {e e' : MemRequestEmitter}

/-- The emitter knows each of its requests that is in flight, and counts them. -/
structure Tracks (h : Host) (e : MemRequestEmitter) : Prop where
  count : e.pendingCount = e.pendingTxns.length
  nodup : (e.pendingTxns.map QuetzPendingReq.id).Nodup
  fresh : ∀ p ∈ e.pendingTxns, p.id < h.nextId
  issued : ∀ r ∈ e.issued, r.id < h.nextId
  waits : ∀ r ∈ e.issued, r ∈ h.inFlight → ∃ p ∈ e.pendingTxns, p.id = r.id

/-- Requests of others come and go. -/
theorem Tracks.later (ht : Tracks h e) (hl : h.Later h') : Tracks h' e := by
  refine ⟨ht.count, ht.nodup, fun p hp => (ht.fresh p hp).trans_le hl.nextId,
    fun r hr => (ht.issued r hr).trans_le hl.nextId, fun r hr hmem => ?_⟩
  refine ht.waits r hr ?_
  by_contra hnot
  exact hl.not_mem (ht.issued r hr) hnot hmem

/-- Statistics and the time are not counted. -/
theorem Tracks.congr (ht : Tracks h e) (htxns : e'.pendingTxns = e.pendingTxns)
    (hcount : e'.pendingCount = e.pendingCount) (hissued : e'.issued = e.issued) : Tracks h e' := by
  refine ⟨?_, ?_, ?_, ?_, ?_⟩
  · rw [hcount, htxns]
    exact ht.count
  · rw [htxns]
    exact ht.nodup
  · rw [htxns]
    exact ht.fresh
  · rw [hissued]
    exact ht.issued
  · rw [hissued, htxns]
    exact ht.waits

/-- A request is sent and tracked. -/
theorem Tracks.emit (ht : Tracks h e) (c : CoreContext) (link : Link) (body : Body) :
    Tracks (emit c link body h e).1 (emit c link body h e).2 := by
  have hsend : h.Later (h.send c.coreId link body) := (Host.Grows.send ..).later
  have hlater := ht.later hsend
  refine ⟨?_, ?_, fun p hp => ?_, fun r hr => ?_, fun r hr hmem => ?_⟩
  · simp [MemRequestEmitter.emit, ht.count]
  · simp only [MemRequestEmitter.emit, List.map_append, List.map_cons, List.map_nil]
    refine List.nodup_append.mpr ⟨ht.nodup, by simp, fun a ha b hb => ?_⟩
    obtain ⟨p, hp, rfl⟩ := List.mem_map.mp ha
    rw [List.mem_singleton.mp hb]
    exact Nat.ne_of_lt (ht.fresh p hp)
  · rcases List.mem_append.mp hp with hp | hp
    · exact hlater.fresh p hp
    · rw [List.mem_singleton.mp hp]
      exact Nat.lt_succ_self _
  · rcases List.mem_append.mp hr with hr | hr
    · exact hlater.issued r hr
    · rw [List.mem_singleton.mp hr]
      exact Nat.lt_succ_self _
  · rcases List.mem_append.mp hr with hr | hr
    · obtain ⟨p, hp, hid⟩ := hlater.waits r hr hmem
      exact ⟨p, List.mem_append_left _ hp, hid⟩
    · rw [List.mem_singleton.mp hr]
      exact ⟨_, List.mem_append_right _ (List.mem_singleton_self _), rfl⟩

/-- The emitter keeps what it sends. -/
theorem Emitted.tracks (hem : Emitted c h e h' e') (ht : Tracks h e) : Tracks h' e' := by
  induction hem with
  | refl => exact ht
  | addData stat n _ ih => exact ih.congr rfl rfl rfl
  | emit link body _ ih => exact ih.emit c link body

/-- It only sends. -/
theorem Emitted.grows (hem : Emitted c h e h' e') : h.Grows h' := by
  induction hem with
  | refl => exact Host.Grows.refl h
  | addData stat n _ ih => exact ih
  | emit link body _ ih => exact ih.trans (Host.Grows.send ..)

/-- A response takes its request off the list. -/
theorem Tracks.response (ht : Tracks h e) (hok : h.Ok) {i : ℕ} {r : Request}
    (hi : h.inFlight[i]? = some r) : Tracks (h.take i) (e.handleResponse r.id).2 := by
  have htake := ht.later (Host.Later.take h i)
  rw [handleResponse]
  cases hfind : e.pendingTxns.find? fun p => p.id == r.id with
  | none => exact htake
  | some p =>
      have hp : p ∈ e.pendingTxns := List.mem_of_find?_eq_some hfind
      have hid : p.id = r.id := by simpa using List.find?_some hfind
      have hone : (e.pendingTxns.map QuetzPendingReq.id).count r.id = 1 :=
        List.count_eq_one_of_mem ht.nodup (List.mem_map.mpr ⟨p, hp, hid⟩)
      have hlen : (e.pendingTxns.filter fun p => p.id != r.id).length + 1 =
          e.pendingTxns.length := by
        rw [List.count, List.countP_map] at hone
        have hsplit := List.length_eq_countP_add_countP (fun p => p.id == r.id) (l := e.pendingTxns)
        rw [show e.pendingTxns.countP (fun p => p.id == r.id) = 1 from hone] at hsplit
        rw [hsplit, ← List.countP_eq_length_filter, Nat.add_comm]
        refine congrArg _ (List.countP_congr fun q _ => ?_)
        simp
      refine ⟨?_, ht.nodup.sublist (List.filter_sublist.map _), fun q hq => ?_, htake.issued,
        fun r' hr' hmem => ?_⟩
      · dsimp only
        rw [ht.count]
        omega
      · exact htake.fresh q (List.mem_of_mem_filter hq)
      · obtain ⟨q, hq, hqid⟩ := htake.waits r' hr' hmem
        refine ⟨q, List.mem_filter.mpr ⟨hq, ?_⟩, hqid⟩
        rw [bne_iff_ne, hqid]
        exact (hok.taken hi).2 r' hmem

end MemRequestEmitter

/-! ### An empty queue -/

/-- Without a command that ends the run all of them contribute. -/
theorem upToHalt_eq_flatMap {c : CoreContext} {β : Type} (f : QuetzCommand → List β) :
    ∀ {cmds : List QuetzCommand}, (∀ cmd ∈ cmds, ¬Halts c cmd) →
    upToHalt c f cmds = cmds.flatMap f
  | [], _ => rfl
  | cmd :: cmds, hgo => by
    rw [upToHalt, if_neg (hgo cmd List.mem_cons_self), List.flatMap_cons,
      upToHalt_eq_flatMap f fun cmd' hmem => hgo cmd' (List.mem_cons_of_mem _ hmem)]

namespace Pipeline

variable {c : CoreContext} {l : PipelineLimits} {s : Pipeline}

/-- **A pipeline that runs on with an empty queue** issued every access of the commands it read,
and none of them ends the run. -/
theorem Ok.all_issued (hok : Ok c l s) (hgo : s.halted = false) (hempty : s.coreQ = []) :
    s.pendingOp = none ∧ (∀ cmd ∈ s.read, ¬Halts c cmd) ∧
      s.emitter.traffic = s.read.flatMap (requestsOf c) := by
  have hop : s.pendingOp = none := by
    by_contra hne
    obtain ⟨op, hop⟩ := Option.ne_none_iff_exists'.mp hne
    obtain ⟨ev, q, hq, -⟩ := hok.shape.pending op hop
    rw [hempty] at hq
    cases hq
  have hruns : ∀ cmd ∈ s.read, ¬Halts c cmd := by
    intro cmd hmem hhalts
    obtain ⟨ev, hev, -⟩ := hok.stops hgo ⟨cmd, hmem, hhalts⟩
    rw [hempty] at hev
    cases hev
  refine ⟨hop, hruns, ?_⟩
  have htracks := congrArg Prod.fst (hok.tracks (Or.inr hgo) [])
  rw [outlook, todo_of_idle hgo hop, hempty] at htracks
  simpa [commands, reference, upToHalt, upToHalt_eq_flatMap _ hruns] using htracks

/-- What a response leaves alone. -/
theorem handleMemResponse_frame (id : ℕ) (resp : Response) (s : Pipeline) :
    ∃ e stats, handleMemResponse id resp s = { s with emitter := e, stats := stats } ∧
      e = (s.emitter.handleResponse id).2 := by
  unfold handleMemResponse
  dsimp only
  cases (s.emitter.handleResponse id).1 with
  | none => exact ⟨_, _, rfl, rfl⟩
  | some info => exact ⟨_, _, rfl, rfl⟩

end Pipeline

end Quetz
