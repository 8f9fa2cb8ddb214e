import Quetz.BalarPort

/-!
# The Lines of a Packet

The flush range of `src/quetz_balar_flush_range.h` in numbers. The lines of a packet are the
multiples of the line size whose line meets the packet; the range starts at the first of them and
has one step for each. The loop of the port then sends one flush for each line.

`computeBalarFlushRangeChecked` is the function with checked arithmetic: it fails where a sum, a
difference or a product of the source would wrap, and it never does.

## Main results

* `computeBalarFlushRangeChecked_eq`: no intermediate value wraps, and the range of any packet.
* `computeBalarFlushRange_spec`: the range in numbers.
* `mem_lines_iff`: its lines are those that meet the packet.
* `issueFlushes_requests`: the requests of the loop.
-/

namespace Quetz

/-- The line at `line` meets the packet of `bytes` bytes at `scratch`. -/
def MeetsPacket (scratch bytes lineSize line : ℕ) : Prop :=
  lineSize ∣ line ∧ ∃ x, scratch ≤ x ∧ x < scratch + bytes ∧ line ≤ x ∧ x < line + lineSize

/-- The first `count` lines from `first` on. -/
def linesFrom (lineSize first count : ℕ) : List ℕ :=
  (List.range count).map fun i => first + i * lineSize

/-- No line comes twice. -/
theorem nodup_linesFrom {lineSize : ℕ} (hpos : 0 < lineSize) (first count : ℕ) :
    (linesFrom lineSize first count).Nodup := by
  refine List.nodup_range.map fun i j hij => ?_
  exact Nat.eq_of_mul_eq_mul_right hpos (Nat.add_left_cancel hij)

/-- The lines of a packet, if the count covers it and does not go beyond it. -/
theorem mem_linesFrom_iff {scratch bytes lineSize count : ℕ} (hpos : 0 < lineSize)
    (hbytes : 0 < bytes)
    (hcovers : scratch + bytes ≤ scratch / lineSize * lineSize + count * lineSize)
    (hwithin : scratch / lineSize * lineSize + count * lineSize <
      scratch + bytes + lineSize) (line : ℕ) :
    line ∈ linesFrom lineSize (scratch / lineSize * lineSize) count ↔
      MeetsPacket scratch bytes lineSize line := by
  have hdiv : scratch / lineSize * lineSize + scratch % lineSize = scratch := by
    rw [Nat.mul_comm]
    exact Nat.div_add_mod ..
  have hmod : scratch % lineSize < lineSize := Nat.mod_lt _ hpos
  generalize hfirst : scratch / lineSize = n at *
  constructor
  · intro hmem
    obtain ⟨i, hi, rfl⟩ := List.mem_map.mp hmem
    have hlt : i < count := List.mem_range.mp hi
    have hnext : i * lineSize + lineSize ≤ count * lineSize := by
      rw [← Nat.succ_mul]
      exact Nat.mul_le_mul_right _ hlt
    refine ⟨⟨n + i, by ring⟩, max scratch (n * lineSize + i * lineSize), ?_, ?_, ?_, ?_⟩
    · exact Nat.le_max_left ..
    · rw [Nat.max_lt]
      omega
    · exact Nat.le_max_right ..
    · rw [Nat.max_lt]
      omega
  · rintro ⟨⟨a, rfl⟩, x, hx, hend, hline, hlast⟩
    have hle : n ≤ a := by
      by_contra hlt
      have hmul : (a + 1) * lineSize ≤ n * lineSize := Nat.mul_le_mul_right _ (by omega)
      rw [Nat.succ_mul, Nat.mul_comm a] at hmul
      omega
    have hlt : a < n + count := by
      by_contra hge
      have hmul : (n + count) * lineSize ≤ a * lineSize := Nat.mul_le_mul_right _ (by omega)
      rw [Nat.add_mul, Nat.mul_comm a] at hmul
      omega
    refine List.mem_map.mpr ⟨a - n, List.mem_range.mpr (by omega), ?_⟩
    rw [← Nat.add_mul, Nat.add_sub_cancel' hle, Nat.mul_comm]

/-- The number of lines of a span, rounded up. -/
theorem ceil_lines {span lineSize : ℕ} (hpos : 0 < lineSize) :
    span ≤ (span / lineSize + if span % lineSize ≠ 0 then 1 else 0) * lineSize ∧
      (span / lineSize + if span % lineSize ≠ 0 then 1 else 0) * lineSize < span + lineSize := by
  have hdiv : span / lineSize * lineSize + span % lineSize = span := by
    rw [Nat.mul_comm]
    exact Nat.div_add_mod ..
  have hmod : span % lineSize < lineSize := Nat.mod_lt _ hpos
  by_cases hzero : span % lineSize = 0
  · rw [if_neg (by simpa using hzero), Nat.add_zero]
    omega
  · rw [if_pos hzero, Nat.add_mul, Nat.one_mul]
    omega

/-! ### Checked arithmetic -/

/-- A sum, unless it wraps. -/
def checkedAdd (x y : UInt64) : Option UInt64 :=
  if x.toNat + y.toNat < 2 ^ 64 then some (x + y) else none

/-- A difference, unless it wraps. -/
def checkedSub (x y : UInt64) : Option UInt64 := if y ≤ x then some (x - y) else none

/-- A product, unless it wraps. -/
def checkedMul (x y : UInt64) : Option UInt64 :=
  if x.toNat * y.toNat < 2 ^ 64 then some (x * y) else none

section

variable {x y : UInt64}

/-- A sum that fits. -/
theorem checkedAdd_eq (h : x.toNat + y.toNat < 2 ^ 64) : checkedAdd x y = some (x + y) := if_pos h

/-- A difference that is not negative. -/
theorem checkedSub_eq (h : y.toNat ≤ x.toNat) : checkedSub x y = some (x - y) :=
  if_pos (UInt64.le_iff_toNat_le.mpr h)

/-- A product that fits. -/
theorem checkedMul_eq (h : x.toNat * y.toNat < 2 ^ 64) : checkedMul x y = some (x * y) := if_pos h

/-- A checked sum is the sum. -/
theorem eq_of_checkedAdd {z : UInt64} (h : checkedAdd x y = some z) : x + y = z := by
  rw [checkedAdd] at h
  split_ifs at h
  exact Option.some.inj h

/-- A checked difference is the difference. -/
theorem eq_of_checkedSub {z : UInt64} (h : checkedSub x y = some z) : x - y = z := by
  rw [checkedSub] at h
  split_ifs at h
  exact Option.some.inj h

/-- A checked product is the product. -/
theorem eq_of_checkedMul {z : UInt64} (h : checkedMul x y = some z) : x * y = z := by
  rw [checkedMul] at h
  split_ifs at h
  exact Option.some.inj h

/-- A checked operation that does not fail is the operation. -/
theorem bind_checked {α : Type} {o : Option UInt64} (h : o = some x) (f : UInt64 → Option α) :
    (o >>= f) = f x := by
  rw [h]
  rfl

/-- A sum that fits is that of the numbers. -/
theorem toNat_add_of_lt (h : x.toNat + y.toNat < 2 ^ 64) : (x + y).toNat = x.toNat + y.toNat := by
  rw [UInt64.toNat_add]
  exact Nat.mod_eq_of_lt h

/-- So is a difference that is not negative. -/
theorem toNat_sub_of_le (h : y.toNat ≤ x.toNat) : (x - y).toNat = x.toNat - y.toNat :=
  UInt64.toNat_sub_of_le _ _ (UInt64.le_iff_toNat_le.mpr h)

/-- The largest value is at least any other. -/
theorem toNat_le_max (x : UInt64) : x.toNat ≤ ((0 : UInt64) - 1).toNat :=
  Nat.le_of_lt_succ x.toNat_lt

/-- So is a product that fits. -/
theorem toNat_mul_of_lt (h : x.toNat * y.toNat < 2 ^ 64) : (x * y).toNat = x.toNat * y.toNat := by
  rw [UInt64.toNat_mul]
  exact Nat.mod_eq_of_lt h

end

/-- The last check of `computeBalarFlushRange`: the end of the last line can be represented. -/
def lastLineChecked (range : BalarFlushRange) (lineSize : UInt64) :
    Option (Option BalarFlushRange) := do
  let max : UInt64 := 0 - 1
  let steps ← checkedSub range.lineCount 1
  let room ← checkedSub max range.firstLine
  if steps > room / lineSize then return none
  let offset ← checkedMul steps lineSize
  let lastLine ← checkedAdd range.firstLine offset
  let room ← checkedSub max lastLine
  return if lineSize ≤ room then some range else none

/-- `computeBalarFlushRange` with checked arithmetic. -/
def computeBalarFlushRangeChecked (scratch flushBytes lineSize : UInt64) :
    Option (Option BalarFlushRange) := do
  let max : UInt64 := 0 - 1
  if lineSize = 0 then return none
  let room ← checkedSub max scratch
  if flushBytes > room then return none
  let firstLine ← checkedMul (scratch / lineSize) lineSize
  let last ← checkedAdd scratch flushBytes
  if flushBytes = 0 then return some ⟨firstLine, last, 0⟩
  let span ← checkedSub last firstLine
  let lineCount ← checkedAdd (span / lineSize) (if span % lineSize ≠ 0 then 1 else 0)
  if lineCount = 0 then return some ⟨firstLine, last, lineCount⟩
  lastLineChecked ⟨firstLine, last, lineCount⟩ lineSize

/-! ### The values of the range -/

section

variable {scratch bytes lineSize : UInt64}

/-- The lines of a packet, counted from the line its first byte lies in. -/
def packetLines (scratch bytes lineSize : ℕ) : ℕ :=
  if bytes = 0 then 0 else (scratch + bytes - 1) / lineSize - scratch / lineSize + 1

/-- The first line does not wrap. -/
theorem firstLine_fits (scratch lineSize : UInt64) :
    (scratch / lineSize).toNat * lineSize.toNat ≤ scratch.toNat := by
  rw [UInt64.toNat_div]
  exact Nat.div_mul_le_self ..

/-- The first line, in numbers. -/
theorem toNat_firstLine (scratch lineSize : UInt64) : (scratch / lineSize * lineSize).toNat =
    scratch.toNat / lineSize.toNat * lineSize.toNat := by
  rw [toNat_mul_of_lt ((firstLine_fits scratch lineSize).trans_lt scratch.toNat_lt),
    UInt64.toNat_div]

/-- A quotient, rounded up, is a number of lines. -/
theorem ceil_eq_packetLines {scratch bytes lineSize : ℕ} (hpos : 0 < lineSize)
    (hbytes : 0 < bytes) :
    (scratch + bytes - scratch / lineSize * lineSize) / lineSize +
      (if (scratch + bytes - scratch / lineSize * lineSize) % lineSize ≠ 0 then 1 else 0) =
      packetLines scratch bytes lineSize := by
  have hfirst : scratch / lineSize * lineSize ≤ scratch := Nat.div_mul_le_self ..
  obtain ⟨hceil, hfloor⟩ := @ceil_lines (scratch + bytes - scratch / lineSize * lineSize)
    lineSize hpos
  have hlast := Nat.div_add_mod (scratch + bytes - 1) lineSize
  have hmod := Nat.mod_lt (scratch + bytes - 1) hpos
  rw [Nat.mul_comm] at hlast
  rw [packetLines, if_neg (Nat.ne_of_gt hbytes)]
  have hle : scratch / lineSize ≤ (scratch + bytes - 1) / lineSize :=
    Nat.div_le_div_right (by omega)
  generalize (scratch + bytes - scratch / lineSize * lineSize) / lineSize +
    (if (scratch + bytes - scratch / lineSize * lineSize) % lineSize ≠ 0 then 1 else 0) =
    count at *
  generalize scratch / lineSize = first at *
  generalize (scratch + bytes - 1) / lineSize = last at *
  -- Both counts are the only one whose lines end in the line of the last byte.
  obtain ⟨d, rfl⟩ := Nat.exists_eq_add_of_le hle
  rw [Nat.add_mul] at hlast
  refine Nat.le_antisymm ?_ ?_
  · by_contra hlt
    have hmul : (d + 2) * lineSize ≤ count * lineSize := Nat.mul_le_mul_right _ (by omega)
    rw [Nat.add_mul] at hmul
    omega
  · by_contra hlt
    have hmul : count * lineSize ≤ d * lineSize := Nat.mul_le_mul_right _ (by omega)
    omega

/-- The last line of a packet, reached from the first. -/
theorem lastLine_eq {scratch bytes lineSize : ℕ} (hbytes : 0 < bytes) :
    scratch / lineSize * lineSize + (packetLines scratch bytes lineSize - 1) * lineSize =
      (scratch + bytes - 1) / lineSize * lineSize := by
  have hle : scratch / lineSize ≤ (scratch + bytes - 1) / lineSize :=
    Nat.div_le_div_right (by omega)
  rw [packetLines, if_neg (Nat.ne_of_gt hbytes), Nat.add_sub_cancel, ← Nat.add_mul,
    Nat.add_sub_cancel' hle]

variable (hend : scratch.toNat + bytes.toNat < 2 ^ 64)

include hend

/-- The bytes from the first line to the end of the packet, in numbers. -/
theorem toNat_span : (scratch + bytes - scratch / lineSize * lineSize).toNat =
    scratch.toNat + bytes.toNat - scratch.toNat / lineSize.toNat * lineSize.toNat := by
  have hfirst : scratch.toNat / lineSize.toNat * lineSize.toNat ≤ scratch.toNat :=
    Nat.div_mul_le_self ..
  rw [toNat_sub_of_le, toNat_add_of_lt hend, toNat_firstLine]
  rw [toNat_add_of_lt hend, toNat_firstLine]
  omega

/-- The quotient of the span, rounded up, is the number of lines. -/
theorem toNat_lineCount (hpos : 0 < lineSize.toNat) (hbytes : 0 < bytes.toNat) :
    ((scratch + bytes - scratch / lineSize * lineSize) / lineSize).toNat +
        (if (scratch + bytes - scratch / lineSize * lineSize) % lineSize ≠ 0 then 1 else 0 :
          UInt64).toNat =
      packetLines scratch.toNat bytes.toNat lineSize.toNat := by
  rw [← ceil_eq_packetLines hpos hbytes, UInt64.toNat_div, toNat_span hend]
  congr 1
  have hmod : (scratch + bytes - scratch / lineSize * lineSize) % lineSize = 0 ↔
      (scratch.toNat + bytes.toNat - scratch.toNat / lineSize.toNat * lineSize.toNat) %
        lineSize.toNat = 0 := by
    rw [← UInt64.toNat_inj, UInt64.toNat_mod, toNat_span hend]
    rfl
  simp only [ne_eq, hmod]
  split_ifs <;> rfl

omit hend in
/-- There are fewer lines than bytes in the address space. -/
theorem packetLines_lt {scratch bytes lineSize : ℕ}
    (hend : scratch + bytes < 2 ^ 64) : packetLines scratch bytes lineSize < 2 ^ 64 := by
  rw [packetLines]
  split_ifs
  · exact Nat.two_pow_pos 64
  · have hdiv : (scratch + bytes - 1) / lineSize ≤ scratch + bytes - 1 := Nat.div_le_self ..
    have hsub := Nat.sub_le ((scratch + bytes - 1) / lineSize) (scratch / lineSize)
    omega

end

/-! ### Which packets are accepted -/

/-- The largest address. -/
theorem toNat_max : ((0 : UInt64) - 1).toNat = 2 ^ 64 - 1 := rfl

/-- The check of the last line, when the line itself can be represented. -/
theorem lastLineChecked_eq {range : BalarFlushRange} {lineSize : UInt64} (hpos : 0 < lineSize.toNat)
    (hcount : 1 ≤ range.lineCount.toNat)
    (hlast : range.firstLine.toNat + (range.lineCount.toNat - 1) * lineSize.toNat < 2 ^ 64) :
    lastLineChecked range lineSize =
      some (if range.firstLine.toNat + (range.lineCount.toNat - 1) * lineSize.toNat +
        lineSize.toNat < 2 ^ 64 then some range else none) := by
  have hsteps : (range.lineCount - 1).toNat = range.lineCount.toNat - 1 := toNat_sub_of_le hcount
  have hfew : ¬range.lineCount - 1 > (0 - 1 - range.firstLine) / lineSize := by
    rw [gt_iff_lt, UInt64.not_lt, UInt64.le_iff_toNat_le, UInt64.toNat_div, hsteps,
      toNat_sub_of_le (toNat_le_max _), toNat_max, Nat.le_div_iff_mul_le hpos]
    omega
  have hoffset : (range.lineCount - 1).toNat * lineSize.toNat < 2 ^ 64 := by
    rw [hsteps]
    omega
  have hmul : ((range.lineCount - 1) * lineSize).toNat =
      (range.lineCount.toNat - 1) * lineSize.toNat := by
    rw [toNat_mul_of_lt hoffset, hsteps]
  have hsum : range.firstLine.toNat + ((range.lineCount - 1) * lineSize).toNat < 2 ^ 64 := by
    rwa [hmul]
  have hfits : lineSize ≤ 0 - 1 - (range.firstLine + (range.lineCount - 1) * lineSize) ↔
      range.firstLine.toNat + (range.lineCount.toNat - 1) * lineSize.toNat + lineSize.toNat <
        2 ^ 64 := by
    rw [UInt64.le_iff_toNat_le, toNat_sub_of_le (toNat_le_max _), toNat_max,
      toNat_add_of_lt hsum, hmul]
    omega
  rw [lastLineChecked, bind_checked (checkedSub_eq (y := 1) hcount),
    bind_checked (checkedSub_eq (toNat_le_max _)), if_neg hfew,
    bind_checked (checkedMul_eq hoffset), bind_checked (checkedAdd_eq hsum),
    bind_checked (checkedSub_eq (toNat_le_max _))]
  simp only [hfits]
  rfl

/-- The packet and its last line end inside the address space. -/
def PacketOk (scratch bytes lineSize : ℕ) : Prop :=
  0 < lineSize ∧ scratch + bytes < 2 ^ 64 ∧
    (bytes = 0 ∨ (scratch + bytes - 1) / lineSize * lineSize + lineSize < 2 ^ 64)

instance (scratch bytes lineSize : ℕ) : Decidable (PacketOk scratch bytes lineSize) :=
  inferInstanceAs (Decidable (_ ∧ _))

/-- **No value wraps**, and the range is that of the packet. -/
theorem computeBalarFlushRangeChecked_eq (scratch bytes lineSize : UInt64) :
    computeBalarFlushRangeChecked scratch bytes lineSize =
      some (if PacketOk scratch.toNat bytes.toNat lineSize.toNat then
        some ⟨scratch / lineSize * lineSize, scratch + bytes,
          .ofNat (packetLines scratch.toNat bytes.toNat lineSize.toNat)⟩
        else none) := by
  have hS := scratch.toNat_lt
  rw [computeBalarFlushRangeChecked]
  by_cases hzero : lineSize = 0
  · have hbad : ¬PacketOk scratch.toNat bytes.toNat lineSize.toNat := fun h => by
      rw [hzero] at h
      exact absurd h.1 (Nat.lt_irrefl 0)
    rw [if_pos hzero, if_neg hbad]
    rfl
  have hpos : 0 < lineSize.toNat := Nat.pos_of_ne_zero fun h => hzero (UInt64.toNat_inj.mp h)
  rw [if_neg hzero, bind_checked (checkedSub_eq (toNat_le_max scratch))]
  have hguard : bytes > 0 - 1 - scratch ↔ ¬scratch.toNat + bytes.toNat < 2 ^ 64 := by
    rw [gt_iff_lt, UInt64.lt_iff_toNat_lt, toNat_sub_of_le (toNat_le_max scratch), toNat_max]
    omega
  by_cases hend : scratch.toNat + bytes.toNat < 2 ^ 64
  swap
  · rw [if_pos (hguard.mpr hend), if_neg fun h : PacketOk _ _ _ => hend h.2.1]
    rfl
  have hfirst := firstLine_fits scratch lineSize
  rw [if_neg fun h => hguard.mp h hend, bind_checked (checkedMul_eq (hfirst.trans_lt hS)),
    bind_checked (checkedAdd_eq hend)]
  by_cases hempty : bytes = 0
  · have hok : PacketOk scratch.toNat bytes.toNat lineSize.toNat :=
      ⟨hpos, hend, .inl (by rw [hempty]; rfl)⟩
    have hnone : packetLines scratch.toNat bytes.toNat lineSize.toNat = 0 := by
      rw [hempty]
      rfl
    rw [if_pos hempty, if_pos hok, hnone]
    rfl
  have hbytes : 0 < bytes.toNat := Nat.pos_of_ne_zero fun h => hempty (UInt64.toNat_inj.mp h)
  have hspan : (scratch / lineSize * lineSize).toNat ≤ (scratch + bytes).toNat := by
    rw [toNat_add_of_lt hend, toNat_firstLine]
    exact (Nat.div_mul_le_self ..).trans (Nat.le_add_right ..)
  have hsum := toNat_lineCount hend hpos hbytes
  have hfits := hsum ▸ @packetLines_lt _ _ lineSize.toNat hend
  have hcount := (toNat_add_of_lt hfits).trans hsum
  have hsome : 1 ≤ packetLines scratch.toNat bytes.toNat lineSize.toNat := by
    rw [packetLines, if_neg (Nat.ne_of_gt hbytes)]
    exact Nat.le_add_left ..
  have hlast := @lastLine_eq scratch.toNat _ lineSize.toNat hbytes
  have hle := Nat.div_mul_le_self (scratch.toNat + bytes.toNat - 1) lineSize.toNat
  rw [if_neg hempty, bind_checked (checkedSub_eq hspan), bind_checked (checkedAdd_eq hfits),
    ← hcount, UInt64.ofNat_toNat]
  rw [← hcount, ← toNat_firstLine] at hlast
  rw [← hcount] at hsome
  generalize (scratch + bytes - scratch / lineSize * lineSize) / lineSize +
    (if (scratch + bytes - scratch / lineSize * lineSize) % lineSize ≠ 0 then 1 else 0) =
    count at *
  have hcpos : count ≠ 0 := fun h => by
    rw [h] at hsome
    exact absurd hsome (by decide)
  rw [if_neg hcpos, lastLineChecked_eq hpos hsome (by dsimp only; omega)]
  have hok : (scratch.toNat + bytes.toNat - 1) / lineSize.toNat * lineSize.toNat +
      lineSize.toNat < 2 ^ 64 ↔ PacketOk scratch.toNat bytes.toNat lineSize.toNat := by
    rw [PacketOk]
    omega
  simp only [hlast, hok]

/-- Checked arithmetic only adds failures. -/
theorem computeBalarFlushRange_of_checked {scratch bytes lineSize : UInt64}
    {range : Option BalarFlushRange}
    (h : computeBalarFlushRangeChecked scratch bytes lineSize = some range) :
    computeBalarFlushRange scratch bytes lineSize = range := by
  rw [computeBalarFlushRangeChecked] at h
  rw [computeBalarFlushRange]
  by_cases hzero : lineSize = 0
  · rw [if_pos hzero] at h
    rw [if_pos (.inl hzero)]
    exact Option.some.inj h
  rw [if_neg hzero] at h
  obtain ⟨room, hroom, h⟩ := Option.bind_eq_some_iff.mp h
  obtain rfl := eq_of_checkedSub hroom
  by_cases hfar : bytes > 0 - 1 - scratch
  · rw [if_pos hfar] at h
    rw [if_pos (.inr hfar)]
    exact Option.some.inj h
  rw [if_neg hfar] at h
  rw [if_neg (not_or.mpr ⟨hzero, hfar⟩)]
  obtain ⟨firstLine, hfirst, h⟩ := Option.bind_eq_some_iff.mp h
  obtain rfl := eq_of_checkedMul hfirst
  obtain ⟨last, hlast, h⟩ := Option.bind_eq_some_iff.mp h
  obtain rfl := eq_of_checkedAdd hlast
  by_cases hempty : bytes = 0
  · rw [if_pos hempty] at h ⊢
    exact Option.some.inj h
  rw [if_neg hempty] at h ⊢
  obtain ⟨span, hspan, h⟩ := Option.bind_eq_some_iff.mp h
  obtain rfl := eq_of_checkedSub hspan
  obtain ⟨lineCount, hcount, h⟩ := Option.bind_eq_some_iff.mp h
  obtain rfl := eq_of_checkedAdd hcount
  dsimp only at h ⊢
  generalize (scratch + bytes - scratch / lineSize * lineSize) / lineSize +
    (if (scratch + bytes - scratch / lineSize * lineSize) % lineSize ≠ 0 then 1 else 0) =
    lineCount at h ⊢
  by_cases hnone : lineCount = 0
  · rw [if_pos hnone] at h ⊢
    exact Option.some.inj h
  rw [if_neg hnone] at h ⊢
  rw [lastLineChecked] at h
  obtain ⟨steps, hsteps, h⟩ := Option.bind_eq_some_iff.mp h
  obtain rfl := eq_of_checkedSub hsteps
  obtain ⟨room, hroom, h⟩ := Option.bind_eq_some_iff.mp h
  obtain rfl := eq_of_checkedSub hroom
  dsimp only at h
  by_cases hmany : lineCount - 1 > (0 - 1 - scratch / lineSize * lineSize) / lineSize
  · rw [if_pos hmany] at h ⊢
    exact Option.some.inj h
  rw [if_neg hmany] at h ⊢
  obtain ⟨offset, hoffset, h⟩ := Option.bind_eq_some_iff.mp h
  obtain rfl := eq_of_checkedMul hoffset
  obtain ⟨lastLine, hlast, h⟩ := Option.bind_eq_some_iff.mp h
  obtain rfl := eq_of_checkedAdd hlast
  obtain ⟨room, hroom, h⟩ := Option.bind_eq_some_iff.mp h
  obtain rfl := eq_of_checkedSub hroom
  exact Option.some.inj h

/-- The range of the source, in the terms of `PacketOk`. -/
theorem computeBalarFlushRange_eq (scratch bytes lineSize : UInt64) :
    computeBalarFlushRange scratch bytes lineSize =
      if PacketOk scratch.toNat bytes.toNat lineSize.toNat then
        some ⟨scratch / lineSize * lineSize, scratch + bytes,
          .ofNat (packetLines scratch.toNat bytes.toNat lineSize.toNat)⟩
      else none :=
  computeBalarFlushRange_of_checked (computeBalarFlushRangeChecked_eq scratch bytes lineSize)

/-- What the range of a packet says. -/
structure FlushRangeOk (scratch bytes lineSize : ℕ) (range : BalarFlushRange) : Prop where
  lineSize_pos : 0 < lineSize
  first : range.firstLine.toNat = scratch / lineSize * lineSize
  empty : bytes = 0 → range.lineCount.toNat = 0
  covers : 0 < bytes →
    scratch + bytes ≤ scratch / lineSize * lineSize + range.lineCount.toNat * lineSize
  within : 0 < bytes → scratch / lineSize * lineSize + range.lineCount.toNat * lineSize <
    scratch + bytes + lineSize
  fits : 0 < bytes →
    scratch / lineSize * lineSize + range.lineCount.toNat * lineSize < 2 ^ 64

/-- **The range in numbers.** -/
theorem computeBalarFlushRange_spec {scratch bytes lineSize : UInt64} {range : BalarFlushRange}
    (hrange : computeBalarFlushRange scratch bytes lineSize = some range) :
    FlushRangeOk scratch.toNat bytes.toNat lineSize.toNat range := by
  rw [computeBalarFlushRange_eq] at hrange
  split_ifs at hrange with hok
  obtain ⟨hpos, hend, hlast⟩ := hok
  cases hrange
  have hcount : (UInt64.ofNat (packetLines scratch.toNat bytes.toNat lineSize.toNat)).toNat =
      packetLines scratch.toNat bytes.toNat lineSize.toNat := by
    rw [UInt64.toNat_ofNat']
    exact Nat.mod_eq_of_lt (packetLines_lt hend)
  have hlines : 0 < bytes.toNat → scratch.toNat / lineSize.toNat * lineSize.toNat +
      packetLines scratch.toNat bytes.toNat lineSize.toNat * lineSize.toNat =
      (scratch.toNat + bytes.toNat - 1) / lineSize.toNat * lineSize.toNat + lineSize.toNat := by
    intro hbytes
    have hsome : 1 ≤ packetLines scratch.toNat bytes.toNat lineSize.toNat := by
      rw [packetLines, if_neg (Nat.ne_of_gt hbytes)]
      exact Nat.le_add_left ..
    rw [← @lastLine_eq scratch.toNat _ lineSize.toNat hbytes, Nat.add_assoc,
      ← Nat.succ_mul, Nat.succ_eq_add_one, Nat.sub_add_cancel hsome]
  have hdiv := Nat.div_add_mod (scratch.toNat + bytes.toNat - 1) lineSize.toNat
  have hmod := Nat.mod_lt (scratch.toNat + bytes.toNat - 1) hpos
  rw [Nat.mul_comm] at hdiv
  refine ⟨hpos, toNat_firstLine .., fun hzero => ?_, fun hbytes => ?_, fun hbytes => ?_,
    fun hbytes => ?_⟩
  · rw [hcount, packetLines, if_pos hzero]
  · rw [hcount, hlines hbytes]
    omega
  · rw [hcount, hlines hbytes]
    omega
  · rw [hcount, hlines hbytes]
    omega

/-- **The lines of the range** are those that meet the packet. -/
theorem mem_lines_iff {scratch bytes lineSize : ℕ} {range : BalarFlushRange}
    (hok : FlushRangeOk scratch bytes lineSize range) (line : ℕ) :
    line ∈ linesFrom lineSize range.firstLine.toNat range.lineCount.toNat ↔
      MeetsPacket scratch bytes lineSize line := by
  rw [hok.first]
  rcases Nat.eq_zero_or_pos bytes with hzero | hbytes
  · rw [hok.empty hzero, hzero]
    refine iff_of_false List.not_mem_nil ?_
    rintro ⟨-, x, hx, hend, -⟩
    omega
  · exact mem_linesFrom_iff hok.lineSize_pos hbytes (hok.covers hbytes) (hok.within hbytes) line

/-! ### The requests -/

namespace BalarPort

/-- The flushes of `count` lines from `line` on, with ids from `id` on. -/
def flushRequests (vcpu : ℕ) (lineSize : UInt64) : ℕ → ℕ → UInt64 → List Request
  | 0, _, _ => []
  | count + 1, id, line => ⟨id, vcpu, .mem, .flushAddr line lineSize⟩ ::
      flushRequests vcpu lineSize count (id + 1) (line + lineSize)

/-- The line a request flushes. -/
def flushLine (r : Request) : Option ℕ :=
  match r.body with
  | .flushAddr line _ => some line.toNat
  | _ => none

variable {v : ℕ} {lineSize : UInt64}

/-- Every request of the loop is a flush on the memory link of the vCPU, with an id of its own. -/
theorem mem_flushRequests : ∀ {count id : ℕ} {line : UInt64} {r : Request},
    r ∈ flushRequests v lineSize count id line →
    id ≤ r.id ∧ r.id < id + count ∧ r.vcpu = v ∧ r.link = .mem ∧
      ∃ a, r.body = .flushAddr a lineSize
  | count + 1, id, line, r, hr => by
    rcases List.mem_cons.mp hr with rfl | hr
    · exact ⟨Nat.le_refl _, by dsimp only; omega, rfl, rfl, line, rfl⟩
    · obtain ⟨hge, hlt, hrest⟩ := mem_flushRequests hr
      exact ⟨by omega, by omega, hrest⟩

/-- The lines of the requests, when no address wraps. -/
theorem map_flushLine_flushRequests : ∀ (count id : ℕ) (line : UInt64),
    line.toNat + count * lineSize.toNat < 2 ^ 64 →
    (flushRequests v lineSize count id line).map flushLine =
      (linesFrom lineSize.toNat line.toNat count).map some
  | 0, _, _, _ => rfl
  | count + 1, id, line, hfits => by
    rw [Nat.succ_mul] at hfits
    have hnext : (line + lineSize).toNat = line.toNat + lineSize.toNat := by
      rw [UInt64.toNat_add]
      exact Nat.mod_eq_of_lt (by omega)
    have ih := map_flushLine_flushRequests count (id + 1) (line + lineSize) (by omega)
    rw [flushRequests, List.map_cons, ih, hnext, linesFrom, linesFrom, List.range_succ_eq_map,
      List.map_cons, List.map_cons, List.map_map]
    refine congrArg₂ List.cons (by simp [flushLine]) ?_
    rw [List.map_map, List.map_map]
    refine List.map_congr_left fun i _ => ?_
    simp only [Function.comp_apply, Option.some.injEq, Nat.succ_mul]
    omega

/-- **The loop over the lines** sends one flush for each and registers it. -/
theorem issueFlushes_requests : ∀ (count : ℕ) (line : UInt64) {h h' : Host} {s s' : BalarPort},
    issueFlushes v lineSize count line h s = .ok (h', s') →
    h'.inFlight = h.inFlight ++ flushRequests v lineSize count h.nextId line ∧
      h'.nextId = h.nextId + count ∧
      s' = { s with flushToVcpu := fun id =>
        if h.nextId ≤ id ∧ id < h.nextId + count then some v else s.flushToVcpu id }
  | 0, _, h, h', s, s', hrun => by
    cases hrun
    refine ⟨by simp [flushRequests], rfl, ?_⟩
    have hnone : ∀ id, ¬(h.nextId ≤ id ∧ id < h.nextId + 0) := fun id => by omega
    simp only [hnone, if_false]
  | count + 1, line, h, h', s, s', hrun => by
    rw [issueFlushes] at hrun
    by_cases hlast : count = 0
    · rw [if_pos hlast] at hrun
      cases hrun
      subst hlast
      refine ⟨rfl, rfl, ?_⟩
      congr 1
      funext id
      by_cases hid : id = h.nextId
      · rw [hid, Function.update_self, if_pos (by omega)]
      · rw [Function.update_of_ne hid, if_neg (by omega)]
    · rw [if_neg hlast] at hrun
      by_cases hover : line > (0 - 1) - lineSize
      · rw [if_pos hover] at hrun
        cases hrun
      rw [if_neg hover] at hrun
      obtain ⟨hflight, hnext, hport⟩ := issueFlushes_requests count (line + lineSize) hrun
      refine ⟨?_, ?_, ?_⟩
      · rw [hflight]
        exact List.append_assoc ..
      · rw [hnext]
        simp only [Host.send]
        omega
      · rw [hport]
        congr 1
        funext id
        show (if h.nextId + 1 ≤ id ∧ id < h.nextId + 1 + count then some v
          else Function.update s.flushToVcpu h.nextId (some v) id) = _
        by_cases hid : id = h.nextId
        · rw [hid, Function.update_self, if_neg (by omega), if_pos (by omega)]
        · rw [Function.update_of_ne hid]
          refine if_congr ?_ rfl rfl
          omega

end BalarPort

end Quetz
