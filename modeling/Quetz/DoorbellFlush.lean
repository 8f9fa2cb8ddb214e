import Quetz.FlushRange

/-!
# The Flushes of a Doorbell

`issueDoorbellFlushes` (`src/quetz_balar_accelerator_port.cc`) flushes the lines of a packet one
after the other. The range was checked before, so the address of the next line never overflows.
The flushes are counted in 32 bits, and a packet of more lines is refused before the first flush.

## Main results

* `issueFlushes_ok`: the loop over the lines of a range runs to its end.
* `doorbell_flushes_exact`: which packets are accepted, and the lines that are flushed, in order.
-/

namespace Quetz

namespace BalarPort

/-- The lines flushed on the way from one host to another, in order. -/
def flushedLines (h h' : Host) : List ℕ := (h'.sent.drop h.sent.length).filterMap flushLine

section

variable {v : ℕ} {lineSize : UInt64}

/-- The loop over lines that do not wrap runs to its end, and sends one flush for each. -/
theorem issueFlushes_ok : ∀ (count : ℕ) (line : UInt64) (h : Host) (s : BalarPort),
    line.toNat + count * lineSize.toNat < 2 ^ 64 → ∃ h' s',
      issueFlushes v lineSize count line h s = .ok (h', s') ∧
        h'.sent = h.sent ++ flushRequests v lineSize count h.nextId line
  | 0, _, h, s, _ => ⟨h, s, rfl, by simp [flushRequests]⟩
  | count + 1, line, h, s, hfits => by
    rw [Nat.succ_mul] at hfits
    rw [issueFlushes]
    by_cases hlast : count = 0
    · rw [if_pos hlast, hlast]
      exact ⟨_, _, rfl, rfl⟩
    have hnext : (line + lineSize).toNat = line.toNat + lineSize.toNat :=
      toNat_add_of_lt (by omega)
    have hroom : ¬line > 0 - 1 - lineSize := by
      rw [gt_iff_lt, UInt64.lt_iff_toNat_lt, toNat_sub_of_le (toNat_le_max _), toNat_max]
      omega
    rw [if_neg hlast, if_neg hroom]
    obtain ⟨h', s', hrun, hsent⟩ := issueFlushes_ok count (line + lineSize)
      (h.send v .mem (.flushAddr line lineSize))
      { s with flushToVcpu := Function.update s.flushToVcpu h.nextId (some v) } (by omega)
    refine ⟨h', s', hrun, ?_⟩
    rw [hsent, flushRequests]
    exact List.append_assoc ..

/-- Forwarding a doorbell flushes nothing. -/
theorem flushedLines_forwardDoorbell (req : Doorbell) (isAsync preAcked : Bool) (h₀ h : Host)
    (s : BalarPort) (hle : h₀.sent.length ≤ h.sent.length) :
    flushedLines h₀ (forwardDoorbell v req isAsync preAcked h s).1 = flushedLines h₀ h := by
  rw [forwardDoorbell]
  split_ifs
  · rfl
  · rfl
  all_goals
    rw [flushedLines, flushedLines]
    simp only [Host.send, Host.postResponse]
    rw [List.drop_append_of_le_length hle, List.filterMap_append]
    simp [flushLine]

theorem pairwise_linesFrom {lineSize : ℕ} (hpos : 0 < lineSize) (first count : ℕ) :
    (linesFrom lineSize first count).Pairwise (· < ·) := by
  refine List.pairwise_map.mpr (List.pairwise_lt_range.imp fun hij => ?_)
  have := Nat.mul_lt_mul_of_pos_right hij hpos
  omega

end

/-- The lines flushed are those of the range. -/
theorem issueDoorbellFlushes_lines {c : BalarConfig} {vcpu : ℕ} {req : Doorbell}
    (isAsync preAcked : Bool) (h : Host) {s : BalarPort} (hfree : s.doorbellFlushes vcpu = none)
    {range : BalarFlushRange}
    (hrange : computeBalarFlushRange (accelDataToU64 req.data) (flushBytes c) c.cacheLineSize =
      some range) (hfew : range.lineCount.toNat ≤ 2 ^ 32 - 1) :
    ∃ h' s', issueDoorbellFlushes c vcpu req isAsync preAcked h s = .ok (h', s') ∧
      flushedLines h h' =
        linesFrom c.cacheLineSize.toNat range.firstLine.toNat range.lineCount.toNat := by
  have hok := computeBalarFlushRange_spec hrange
  have hfits : range.firstLine.toNat + range.lineCount.toNat * c.cacheLineSize.toNat < 2 ^ 64 := by
    rcases Nat.eq_zero_or_pos (flushBytes c).toNat with hzero | hbytes
    · rw [hok.empty hzero, Nat.zero_mul]
      exact range.firstLine.toNat_lt
    · rw [hok.first]
      exact hok.fits hbytes
  obtain ⟨h₁, s₁, hrun, hsent⟩ := issueFlushes_ok (v := vcpu) _ _ h s hfits
  have hlines : flushedLines h h₁ =
      linesFrom c.cacheLineSize.toNat range.firstLine.toNat range.lineCount.toNat := by
    have hmap := map_flushLine_flushRequests (v := vcpu) range.lineCount.toNat h.nextId
      range.firstLine hfits
    have hid : ∀ rs : List Request, rs.filterMap flushLine = (rs.map flushLine).filterMap id :=
      fun rs => by
        rw [List.filterMap_map]
        rfl
    rw [flushedLines, hsent, List.drop_left, hid, hmap, List.filterMap_map]
    exact List.filterMap_some
  have hmany : ¬range.lineCount > 0xffffffff := by
    rw [gt_iff_lt, UInt64.lt_iff_toNat_lt]
    exact Nat.not_lt.mpr hfew
  rw [issueDoorbellFlushes, if_neg (by simp [hfree])]
  simp only [← flushBytes.eq_1, hrange, if_neg hmany, hrun]
  by_cases hnone : range.lineCount = 0
  · rw [if_pos hnone]
    refine ⟨(forwardDoorbell vcpu req isAsync preAcked h₁ s₁).1,
      (forwardDoorbell vcpu req isAsync preAcked h₁ s₁).2, rfl, ?_⟩
    rw [flushedLines_forwardDoorbell req isAsync preAcked h h₁ s₁ (by simp [hsent]), hlines]
  · rw [if_neg hnone]
    exact ⟨_, _, rfl, hlines⟩

/-- More lines than the 32-bit count holds are refused before the first flush. -/
theorem issueDoorbellFlushes_many {c : BalarConfig} {vcpu : ℕ} {req : Doorbell}
    (isAsync preAcked : Bool) (h : Host) {s : BalarPort} (hfree : s.doorbellFlushes vcpu = none)
    {range : BalarFlushRange}
    (hrange : computeBalarFlushRange (accelDataToU64 req.data) (flushBytes c) c.cacheLineSize =
      some range) (hmany : 2 ^ 32 - 1 < range.lineCount.toNat) :
    issueDoorbellFlushes c vcpu req isAsync preAcked h s = .error (.tooManyLines vcpu) := by
  have hguard : range.lineCount > 0xffffffff := by
    rw [gt_iff_lt, UInt64.lt_iff_toNat_lt]
    exact hmany
  rw [issueDoorbellFlushes, if_neg (by simp [hfree])]
  simp only [← flushBytes.eq_1, hrange, if_pos hguard]

/-- **The flush range is exact.** No value of `computeBalarFlushRange` wraps, and a packet is
accepted exactly when it and its last line end inside the address space. The lines of an accepted
packet are flushed in increasing order, those that meet the packet and no others; the address of
the next line never overflows. Only a packet of more than `2 ^ 32 - 1` lines is refused, before the
first flush. -/
theorem doorbell_flushes_exact (scratch bytes lineSize : UInt64) :
    computeBalarFlushRangeChecked scratch bytes lineSize =
        some (computeBalarFlushRange scratch bytes lineSize) ∧
      ((computeBalarFlushRange scratch bytes lineSize).isSome = true ↔
        0 < lineSize.toNat ∧ scratch.toNat + bytes.toNat < 2 ^ 64 ∧ (bytes.toNat = 0 ∨
          (scratch.toNat + bytes.toNat - 1) / lineSize.toNat * lineSize.toNat + lineSize.toNat <
            2 ^ 64)) ∧
      ∀ (c : BalarConfig) (vcpu : ℕ) (req : Doorbell) (isAsync preAcked : Bool) (h : Host)
        (s : BalarPort) (range : BalarFlushRange), accelDataToU64 req.data = scratch →
        flushBytes c = bytes → c.cacheLineSize = lineSize → s.doorbellFlushes vcpu = none →
        computeBalarFlushRange scratch bytes lineSize = some range →
          issueDoorbellFlushes c vcpu req isAsync preAcked h s ≠ .error (.lineOverflow vcpu) ∧
          (range.lineCount.toNat ≤ 2 ^ 32 - 1 → ∃ h' s',
            issueDoorbellFlushes c vcpu req isAsync preAcked h s = .ok (h', s') ∧
              (flushedLines h h').Pairwise (· < ·) ∧ ∀ line, line ∈ flushedLines h h' ↔
                lineSize.toNat ∣ line ∧ ∃ x, scratch.toNat ≤ x ∧
                  x < scratch.toNat + bytes.toNat ∧ line ≤ x ∧ x < line + lineSize.toNat) ∧
          (2 ^ 32 - 1 < range.lineCount.toNat →
            issueDoorbellFlushes c vcpu req isAsync preAcked h s =
              .error (.tooManyLines vcpu)) := by
  have hrange := computeBalarFlushRange_eq scratch bytes lineSize
  refine ⟨?_, ?_, ?_⟩
  · rw [hrange]
    exact computeBalarFlushRangeChecked_eq scratch bytes lineSize
  · rw [hrange]
    split_ifs with hok
    · exact iff_of_true rfl hok
    · exact iff_of_false (by simp) hok
  · rintro c vcpu req isAsync preAcked h s range rfl rfl rfl hfree hsome
    have hok := computeBalarFlushRange_spec hsome
    have hmany := issueDoorbellFlushes_many isAsync preAcked h hfree hsome
    have hfew := issueDoorbellFlushes_lines isAsync preAcked h hfree hsome
    refine ⟨?_, fun hle => ?_, hmany⟩
    · rcases Nat.lt_or_ge (2 ^ 32 - 1) range.lineCount.toNat with hlt | hle
      · rw [hmany hlt]
        simp
      · obtain ⟨h', s', hrun, -⟩ := hfew hle
        rw [hrun]
        simp
    · obtain ⟨h', s', hrun, hlines⟩ := hfew hle
      refine ⟨h', s', hrun, ?_, fun line => ?_⟩
      · rw [hlines]
        exact pairwise_linesFrom hok.lineSize_pos _ _
      · rw [hlines]
        exact mem_lines_iff hok line

/-- The packet of 100 bytes at 120 meets three lines of 64 bytes. -/
theorem doorbell_flushes_exact_three : ∃ h' s', issueDoorbellFlushes { packetFlushBytes := 100 } 0
    ⟨0x1000, 8, [120, 0, 0, 0, 0, 0, 0, 0]⟩ false false {} {} = .ok (h', s') ∧
      (flushedLines {} h').Pairwise (· < ·) ∧ ∀ line, line ∈ flushedLines {} h' ↔
        64 ∣ line ∧ ∃ x, 120 ≤ x ∧ x < 120 + 100 ∧ line ≤ x ∧ x < line + 64 :=
  ((doorbell_flushes_exact 120 100 64).2.2 { packetFlushBytes := 100 } 0
    ⟨0x1000, 8, [120, 0, 0, 0, 0, 0, 0, 0]⟩ false false {} {} ⟨64, 220, 3⟩ (by decide) rfl rfl rfl
    (by decide)).2.1 (by decide)

/-- A packet of `2 ^ 33` lines has a range, but none of its lines is flushed. -/
theorem doorbell_flushes_refused : ¬∀ (c : BalarConfig) (vcpu : ℕ) (req : Doorbell) (h : Host)
    (s : BalarPort), s.doorbellFlushes vcpu = none →
      (computeBalarFlushRange (accelDataToU64 req.data) (flushBytes c)
        c.cacheLineSize).isSome = true →
      ∃ h' s', issueDoorbellFlushes c vcpu req false false h s = .ok (h', s') ∧
        ∀ line, line ∈ flushedLines h h' ↔
          MeetsPacket (accelDataToU64 req.data).toNat (flushBytes c).toNat c.cacheLineSize.toNat
            line := by
  intro hall
  obtain ⟨h', s', hrun, -⟩ := hall { packetFlushBytes := 0x200000000, cacheLineSize := 1 } 0
    ⟨0x1000, 8, [0, 0, 0, 0, 0, 0, 0, 0]⟩ {} {} rfl (by decide)
  have hrange :
      computeBalarFlushRange (accelDataToU64 [0, 0, 0, 0, 0, 0, 0, 0]) 0x200000000 1 =
      some ⟨0, 0x200000000, 0x200000000⟩ := by decide
  rw [issueDoorbellFlushes_many false false {} rfl hrange (by decide)] at hrun
  cases hrun

end BalarPort

end Quetz
