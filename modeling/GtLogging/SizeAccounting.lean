import GtLogging.Retention

/-! @src src/gt_logdestfile.cpp | layer:result | the tracked size of a rotating log

    The strategy counts the bytes of the current file without looking at it: opening a file sets the
    counter to the size that the measuring stream reports, which is zero, and every write adds its
    message and the new line before they are written. As long as all that is written counts below
    2^64, the counter is the size of the current file, so that a write rotates iff the file has
    reached the limit in force. Under one limit every generation of the run, that is, the messages
    between two rotations, reaches it with its last message and not before. -/

namespace GtLogging.FileLog
open Rotation SizeRotationStrategy

/-- The maximum size in force after some operations. -/
def maxInForce (limit : UInt64) (ops : List FileOp) : UInt64 :=
  ops.foldl (fun l op => match op with | .setMaximumSizeInBytes size => size | _ => l) limit

/-- RUN INVARIANT: the counter is the number of bytes of the current generation, which is part of
    what was written. -/
structure Accounted (path : Str) (n : ℕ) (limit : UInt64) (seen : List Str)
    (s : SizeRotationStrategy) (j : Journal Str) (log : FileLog) : Prop
    extends Tracks path s j log where
  count : s.maxBackupsCount = n
  limit : s.maxFileSizeInBytes = limit
  counted : s.currentFileSizeInBytes.toNat = (lines j.current).length
  within : (lines j.current).length ≤ (lines seen).length

variable {path : Str} {n : ℕ} {limit : UInt64} {seen : List Str} {s : SizeRotationStrategy}
  {j : Journal Str} {log : FileLog}

theorem length_line (m : Str) : (line m).length = m.length + 1 := by simp [line]

/-- Counting a message that fits. -/
theorem toNat_appendMessageSize {size : ℕ}
    (h : s.currentFileSizeInBytes.toNat + size < 2 ^ 64) :
    (s.appendMessageSize size).currentFileSizeInBytes.toNat =
      s.currentFileSizeInBytes.toNat + size := by
  rw [appendMessageSize, UInt64.toNat_add, UInt64.toNat_ofNat',
    Nat.mod_eq_of_lt (show size < 2 ^ 64 by omega), Nat.mod_eq_of_lt h]

theorem shouldRotate_iff (h : Accounted path n limit seen s j log) :
    s.shouldRotate = true ↔ limit.toNat ≤ (lines j.current).length := by
  rw [shouldRotate, decide_eq_true_eq, h.limit, ge_iff_le, UInt64.le_iff_toNat_le, h.counted]

/-- STEP: every operation keeps the account, as long as the total stays below 2^64. -/
theorem accounted_exec {op : FileOp} (hop : ∀ k, op ≠ .setBackupCount k)
    (htotal : (lines (seen ++ FileOp.written [op])).length < 2 ^ 64)
    (h : Accounted path n limit seen s j log) :
    ∃ s', Accounted path n (maxInForce limit [op]) (seen ++ FileOp.written [op]) s'
      (journalStep s j op) (op.exec Faults.none log) := by
  cases op with
  | write m =>
    have hseen : (lines (seen ++ FileOp.written [.write m])).length =
        (lines seen).length + (m.length + 1) := by
      simp [FileOp.written, length_line]
    have hwithin := h.within
    cases hr : s.shouldRotate with
    | false =>
      have hcur : (lines (j.append m).current).length =
          (lines j.current).length + (m.length + 1) := by
        simp [Journal.append, length_line]
      refine ⟨s.appendMessageSize (m.length + 1), ?_⟩
      rw [journalStep, hr]
      refine ⟨tracks_append m h.toTracks hr, h.count, h.limit, ?_, ?_⟩
      · rw [toNat_appendMessageSize (by rw [h.counted]; omega), h.counted]
        exact hcur.symm
      · rw [hseen]
        exact hcur.le.trans (by omega)
    | true =>
      have hcur : (lines ((j.rotate s.maxBackupsCount).append m).current).length =
          m.length + 1 := by
        simp [Journal.append, Journal.rotate, length_line]
      refine ⟨{ s with currentFileSizeInBytes := 0 }.appendMessageSize (m.length + 1), ?_⟩
      rw [journalStep, hr]
      refine ⟨tracks_rotate m h.toTracks hr, h.count, h.limit, ?_, ?_⟩
      · have hfits : ({ s with currentFileSizeInBytes := 0 } :
            SizeRotationStrategy).currentFileSizeInBytes.toNat + (m.length + 1) < 2 ^ 64 := by
          simp only [UInt64.toNat_zero]; omega
        rw [toNat_appendMessageSize hfits]
        simpa using hcur.symm
      · rw [hseen]
        exact hcur.le.trans (by omega)
  | setBackupCount k => exact absurd rfl (hop k)
  | setMaximumSizeInBytes size =>
    obtain ⟨⟨⟨⟨hrot, hname, hpath⟩, hst, hc⟩, hslots⟩, hcount, -, hcounted, hwithin⟩ := h
    have hnone : seen ++ FileOp.written [.setMaximumSizeInBytes size] = seen := by
      simp [FileOp.written]
    refine ⟨s.setMaximumSizeInBytes size, ?_⟩
    rw [FileOp.exec, mapSize, hrot, hnone]
    exact ⟨⟨⟨⟨rfl, hname, hpath⟩, hst, hc⟩, hslots⟩, hcount, rfl, hcounted, hwithin⟩

/-- The current generation of the journal is that of the run. -/
theorem current_exec {op : FileOp} {g : Generations} (h : Tracks path s j log)
    (hcur : j.current = g.current) :
    (journalStep s j op).current = (g.next log.rot.shouldRotate op).current := by
  have hrot : log.rot.shouldRotate = s.shouldRotate := by rw [h.live.rot]; rfl
  cases op with
  | write m =>
    rw [journalStep, Generations.next, hrot]
    split_ifs
    · rfl
    · rw [Journal.append, hcur]
  | setBackupCount k => exact hcur
  | setMaximumSizeInBytes size => exact hcur

/-! ### Generations under one limit -/

/-- Some messages that stay below the limit without the last one. -/
def FitsLimit (limit : ℕ) (ms : List Str) : Prop :=
  ∃ front m, ms = front ++ [m] ∧ (lines front).length < limit

/-- RUN INVARIANT: every generation fits the limit, and the past ones have reached it. -/
structure SizeBounded (limit : ℕ) (g : Generations) : Prop where
  current : g.current = [] ∨ FitsLimit limit g.current
  past : ∀ ms ∈ g.past, FitsLimit limit ms ∧ limit ≤ (lines ms).length

/-- STEP: under a constant limit every operation keeps the generations bounded. -/
theorem sizeBounded_exec {op : FileOp} {g : Generations} (hpos : 0 < limit.toNat)
    (h : Accounted path n limit seen s j log) (hcur : j.current = g.current)
    (hg : SizeBounded limit.toNat g) :
    SizeBounded limit.toNat (g.next log.rot.shouldRotate op) := by
  have hrot : log.rot.shouldRotate = s.shouldRotate := by rw [h.live.rot]; rfl
  have hiff := shouldRotate_iff h
  rw [hcur, ← hrot] at hiff
  cases op with
  | write m =>
    rw [Generations.next]
    split_ifs with hr
    · -- the current generation has reached the limit
      have hle := hiff.mp hr
      have hfits : FitsLimit limit.toNat g.current := by
        refine hg.current.resolve_left fun he => ?_
        rw [he, lines_nil, List.length_nil] at hle
        omega
      refine ⟨Or.inr ⟨[], m, rfl, by simpa using hpos⟩, fun ms hms => ?_⟩
      rcases List.mem_cons.mp hms with rfl | hms
      · exact ⟨hfits, hle⟩
      · exact hg.past ms hms
    · -- the message is added to a generation below the limit
      exact ⟨Or.inr ⟨g.current, m, rfl, Nat.lt_of_not_le fun hle => hr (hiff.mpr hle)⟩, hg.past⟩
  | setBackupCount k => exact hg
  | setMaximumSizeInBytes size => exact hg

/-! ### Runs -/

theorem accounted_run (ops : List FileOp) {g : Generations}
    (hops : ∀ k, FileOp.setBackupCount k ∉ ops)
    (htotal : (lines (seen ++ FileOp.written ops)).length < 2 ^ 64)
    (h : Accounted path n limit seen s j log) (hcur : j.current = g.current) :
    ∃ s' j', Accounted path n (maxInForce limit ops) (seen ++ FileOp.written ops) s' j'
        (FileOp.run Faults.none ops log) ∧ j'.current = (generations ops log g).current ∧
      ((∀ size, FileOp.setMaximumSizeInBytes size ∈ ops → size = limit) → 0 < limit.toNat →
        SizeBounded limit.toNat g → SizeBounded limit.toNat (generations ops log g)) := by
  induction ops generalizing limit seen s j log g with
  | nil =>
    exact ⟨s, j, by simpa [FileOp.written, FileOp.run, maxInForce] using h, hcur, fun _ _ hg => hg⟩
  | cons op ops ih =>
    rw [FileOp.written_cons, ← List.append_assoc] at htotal ⊢
    have htotal' : (lines (seen ++ FileOp.written [op])).length < 2 ^ 64 := by
      rw [lines_append, List.length_append] at htotal
      omega
    obtain ⟨s₁, h₁⟩ := accounted_exec (fun k he => hops k (he ▸ List.mem_cons_self)) htotal' h
    obtain ⟨s', j', h', hcur', hbound⟩ :=
      ih (fun k hk => hops k (List.mem_cons_of_mem _ hk)) htotal h₁
        (current_exec h.toTracks hcur)
    refine ⟨s', j', h', hcur', fun hconst hpos hg => ?_⟩
    have hlimit : maxInForce limit [op] = limit := by
      cases op with
      | setMaximumSizeInBytes size => exact hconst size List.mem_cons_self
      | _ => rfl
    rw [hlimit] at hbound
    exact hbound (fun size hs => hconst size (List.mem_cons_of_mem _ hs)) hpos
      (sizeBounded_exec hpos h hcur hg)

theorem accounted_construct {w : World} (hempty : ∀ i, w.disk.read (family path i) = none)
    (maxFileSize : UInt64) (maxBackups : ℕ) :
    Accounted path maxBackups maxFileSize []
      { SizeRotationStrategy.new maxFileSize maxBackups with
        fileName := path, currentFileSizeInBytes := 0 } {}
      (construct Faults.none path (.size (.new maxFileSize maxBackups)) w) :=
  ⟨tracks_construct hempty (.new maxFileSize maxBackups), rfl, rfl, rfl, le_refl _⟩

/-! ### What the files hold -/

/-- The counter is the size of the current file, which reads `c`, and decides about rotations. -/
structure SizeExact (path : Str) (limit : UInt64) (log : FileLog) (c : Str) : Prop where
  current : log.file path 0 = some c
  counted : ∃ s, log.rot = .size s ∧ s.currentFileSizeInBytes.toNat = c.length
  decides : log.rot.shouldRotate = true ↔ limit.toNat ≤ c.length
  rotates : limit.toNat ≤ c.length → ∀ m, (log.write Faults.none m).file path 0 = some (line m) ∧
    (log.write Faults.none m).file path 1 = some c
  appends : c.length < limit.toNat → ∀ m,
    (log.write Faults.none m).file path 0 = some (c ++ line m) ∧
      (log.write Faults.none m).file path 1 = log.file path 1

theorem sizeExact_of_accounted (hn : 1 ≤ n) (h : Accounted path n limit seen s j log) :
    SizeExact path limit log (lines j.current) := by
  have hrot : log.rot.shouldRotate = s.shouldRotate := by rw [h.live.rot]; rfl
  have hiff := shouldRotate_iff h
  refine ⟨h.slots 0, ⟨s, h.live.rot, h.counted⟩, by rw [hrot]; exact hiff, fun hle m => ?_,
    fun hlt m => ?_⟩
  · obtain ⟨-, hslots⟩ := tracks_rotate m h.toTracks (hiff.mpr hle)
    refine ⟨?_, ?_⟩
    · rw [hslots 0]
      simp [Journal.append, Journal.rotate]
    · rw [hslots 1, Journal.slot_append_succ, Journal.slot_rotate, if_pos (by rw [h.count]; omega)]
      rfl
  · have hr : s.shouldRotate = false := Bool.eq_false_iff.mpr fun hr => by
      have := hiff.mp hr
      omega
    obtain ⟨-, hslots⟩ := tracks_append m h.toTracks hr
    refine ⟨?_, ?_⟩
    · rw [hslots 0]
      simp [Journal.append]
    · rw [hslots 1, Journal.slot_append_succ, h.slots 1]

/-- SIZES: in every run of writes and changes of the limit on a fresh rotating log, the tracked size
    is the size of the current file, and a write rotates iff that has reached the limit in force.
    The files hold the newest generations of the run, and while the limit stays the same and is not
    zero, every rotated generation has at least that size but had not without its last message; the
    current one exceeds it by its last message at most. -/
theorem size_accounting (path : Str) (w : World) (maxFileSize : UInt64) (maxBackups : ℕ)
    (hn : 1 ≤ maxBackups) (hempty : ∀ i, w.disk.read (family path i) = none) (ops : List FileOp)
    (hops : ∀ k, FileOp.setBackupCount k ∉ ops)
    (htotal : (lines (FileOp.written ops)).length < 2 ^ 64) :
    let start := construct Faults.none path (.size (.new maxFileSize maxBackups)) w
    let log := FileOp.run Faults.none ops start
    let g := generations ops start {}
    SizeExact path (maxInForce maxFileSize ops) log (lines g.current) ∧
      WindowKept path maxBackups g (FileOp.written ops) log ∧
      (0 < maxFileSize.toNat →
        (∀ size, FileOp.setMaximumSizeInBytes size ∈ ops → size = maxFileSize) →
        SizeBounded maxFileSize.toNat g) := by
  have h₀ := accounted_construct hempty maxFileSize maxBackups
  obtain ⟨s, j, h, hcur, hbound⟩ := accounted_run ops (g := {}) hops htotal h₀ rfl
  refine ⟨?_, ?_, fun hpos hconst => ?_⟩
  · rw [← hcur]
    exact sizeExact_of_accounted hn h
  · refine windowKept_of_keepsWindow (keepsWindow_run ops {} [] _ (fun op hop => ?_)
      ⟨_, _, h₀.toTracks, rfl, rfl, List.take_nil.symm, rfl⟩)
    cases op with
    | setBackupCount k => exact absurd hop (hops k)
    | _ => rfl
  · exact hbound hconst hpos ⟨Or.inl rfl, fun ms hms => absurd hms List.not_mem_nil⟩

/-- A limit of three bytes: the second line reaches it, the third starts a new file. -/
theorem size_accounting_three_lines :
    let start := construct Faults.none "log".toList (.size (.new 3 1)) {}
    let ops := [.write ['a'], .write ['b'], .setMaximumSizeInBytes 3, .write ['c']]
    SizeExact "log".toList 3 (FileOp.run Faults.none ops start) (lines [['c']]) ∧
      (FileOp.run Faults.none ops start).file "log".toList 1 = some (lines [['a'], ['b']]) ∧
      SizeBounded 3 ⟨[[['a'], ['b']]], [['c']]⟩ := by
  obtain ⟨hexact, hwindow, hbounded⟩ := size_accounting "log".toList {} 3 1 (le_refl 1)
    (fun _ => rfl) [.write ['a'], .write ['b'], .setMaximumSizeInBytes 3, .write ['c']] (by simp)
    (by decide)
  exact ⟨hexact, hwindow.backups 0, hbounded (by decide) (by simp)⟩

end GtLogging.FileLog
