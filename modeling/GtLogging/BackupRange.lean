import GtLogging.Retention

/-! @src src/gt_logdestfile.cpp | layer:result | the range of backup indices a rotation assumes

    `rotate` assumes that the backups are named `path.X` with `1 ≤ X ≤` backup count: it looks no
    further than the count in force. A rotation never takes a backup away and adds one only below
    the count, so it leaves its backups in range iff there were not already more of them. How many
    there are follows from the sizes, the limits and the counts alone, which is what a forecast
    computes; the setter may lower the count below that number. -/

namespace GtLogging.FileLog
open Rotation SizeRotationStrategy

variable {path : Str} {n : ℕ} {s : SizeRotationStrategy} {log : FileLog}

/-! ### Backups up to an index -/

/-- No backup has an index above `n`, and there are at most `n` of them. -/
structure Capped (path : Str) (n : ℕ) (log : FileLog) : Prop where
  index : ∀ X, 1 ≤ X → (log.file path X).isSome → X ≤ n
  number : {X | 1 ≤ X ∧ (log.file path X).isSome}.encard ≤ n

theorem capped_iff : Capped path n log ↔ ∀ X, n < X → log.file path X = none := by
  constructor
  · intro h X hX
    by_contra hne
    have := h.index X (by omega) (Option.isSome_iff_ne_none.mpr hne)
    omega
  · intro h
    have hindex : ∀ X, (log.file path X).isSome → X ≤ n := by
      intro X hX
      by_contra hlt
      rw [h X (by omega)] at hX
      cases hX
    refine ⟨fun X _ hX => hindex X hX, ?_⟩
    have hsub : {X | 1 ≤ X ∧ (log.file path X).isSome} ⊆ (Finset.Icc 1 n : Set ℕ) := by
      rintro X ⟨hpos, hX⟩
      rw [Finset.mem_coe, Finset.mem_Icc]
      exact ⟨hpos, hindex X hX⟩
    refine (Set.encard_le_encard hsub).trans ?_
    rw [Set.encard_coe_eq_coe_finsetCard, Nat.card_Icc, Nat.add_sub_cancel]

/-- The backups of a tracked log are those of its journal. -/
theorem capped_iff_of_tracks {j : Journal Str} (h : Tracks path s j log) :
    Capped path n log ↔ j.backups.length ≤ n := by
  have hnone : ∀ X, log.file path X = none ↔ j.backups.length < X := by
    intro X
    rw [h.slots, Option.map_eq_none_iff, ← Option.not_isSome_iff_eq_none, j.isSome_slot, not_le]
  simp only [capped_iff, hnone]
  constructor
  · intro hall
    by_contra hlt
    exact absurd (hall _ (not_le.mp hlt)) (lt_irrefl _)
  · intro hle X hX
    omega

/-! ### Forecasts -/

/-- What the sizes, the limits and the counts tell of a run: the strategy and the number of
    backups. -/
structure Forecast where
  strategy : SizeRotationStrategy
  backups : ℕ := 0

namespace Forecast

def rotates (f : Forecast) : FileOp → Bool
  | .write _ => f.strategy.shouldRotate
  | _ => false

/-- A rotation adds a backup where the count leaves room for it. -/
def next (f : Forecast) (op : FileOp) : Forecast where
  strategy := nextStrategy f.strategy op
  backups :=
    if f.rotates op ∧ f.backups < f.strategy.maxBackupsCount then f.backups + 1 else f.backups

/-- The forecast of a run on a fresh log. -/
def ofRun (path : Str) (maxFileSize : UInt64) (maxBackups : ℕ) (ops : List FileOp) : Forecast :=
  ops.foldl next { strategy := { SizeRotationStrategy.new maxFileSize maxBackups with
    fileName := path } }

end Forecast

theorem length_backups_rotate (n : ℕ) (j : Journal Str) :
    (j.rotate n).backups.length =
      if j.backups.length < n then j.backups.length + 1 else j.backups.length := by
  rw [Journal.rotate]
  split_ifs with h₀ h₁ h₁
  · omega
  · rfl
  · simp; omega
  · simp; omega

/-- RUN INVARIANT: the forecast is right. -/
def Foreseen (path : Str) (f : Forecast) (log : FileLog) : Prop :=
  ∃ j, Tracks path f.strategy j log ∧ j.backups.length = f.backups

theorem foreseen_exec {f : Forecast} (op : FileOp) (h : Foreseen path f log) :
    Foreseen path (f.next op) (op.exec Faults.none log) := by
  obtain ⟨j, ht, hlen⟩ := h
  refine ⟨_, tracks_next op ht, ?_⟩
  cases op with
  | write m =>
    cases hr : f.strategy.shouldRotate with
    | false => simp [journalStep, Forecast.next, Forecast.rotates, hr, Journal.append, hlen]
    | true =>
      have hrot := length_backups_rotate f.strategy.maxBackupsCount j
      rw [hlen] at hrot
      simpa [journalStep, Forecast.next, Forecast.rotates, hr, Journal.append] using hrot
  | setBackupCount k => simpa [journalStep, Forecast.next, Forecast.rotates] using hlen
  | setMaximumSizeInBytes size => simpa [journalStep, Forecast.next, Forecast.rotates] using hlen

theorem foreseen_run {f : Forecast} (ops : List FileOp) (h : Foreseen path f log) :
    Foreseen path (ops.foldl Forecast.next f) (FileOp.run Faults.none ops log) := by
  induction ops generalizing f log with
  | nil => exact h
  | cons op ops ih => exact ih (foreseen_exec op h)

theorem foreseen_ofRun {w : World} (hempty : ∀ i, w.disk.read (family path i) = none)
    (maxFileSize : UInt64) (maxBackups : ℕ) (ops : List FileOp) :
    Foreseen path (Forecast.ofRun path maxFileSize maxBackups ops)
      (FileOp.run Faults.none ops
        (construct Faults.none path (.size (.new maxFileSize maxBackups)) w)) :=
  foreseen_run ops ⟨{}, tracks_construct hempty (.new maxFileSize maxBackups), rfl⟩

theorem capped_iff_of_foreseen {f : Forecast} (h : Foreseen path f log) :
    Capped path n log ↔ f.backups ≤ n := by
  obtain ⟨j, ht, hlen⟩ := h
  rw [capped_iff_of_tracks ht, hlen]

/-! ### Every rotation of a run -/

/-- If a write of `m` rotates, the rotation leaves its backups in the range of its own count. -/
def RotatesInRange (path m : Str) (log : FileLog) : Prop :=
  ∀ s, log.rot = .size s → s.shouldRotate = true →
    Capped path s.maxBackupsCount (log.write Faults.none m)

/-- EXACT for one write: in range afterwards iff in range before. -/
theorem rotatesInRange_iff {f : Forecast} (m : Str) (h : Foreseen path f log) :
    RotatesInRange path m log ↔
      (f.strategy.shouldRotate = true → f.backups ≤ f.strategy.maxBackupsCount) := by
  have hrot : log.rot = .size f.strategy := by
    obtain ⟨j, ht, -⟩ := h
    exact ht.live.rot
  have hnext := foreseen_exec (.write m) h
  have hcount : (f.next (.write m)).backups ≤ f.strategy.maxBackupsCount ↔
      f.backups ≤ f.strategy.maxBackupsCount := by
    rw [Forecast.next]
    split_ifs with hroom
    · exact iff_of_true hroom.2 hroom.2.le
    · exact Iff.rfl
  constructor
  · intro hin hr
    exact hcount.mp ((capped_iff_of_foreseen hnext).mp (hin _ hrot hr))
  · intro hle s hs hr
    obtain rfl := RotationStrategy.size.inj (hrot.symm.trans hs)
    exact (capped_iff_of_foreseen hnext).mpr (hcount.mpr (hle hr))

/-- EXACT: over a run on a fresh log, every rotation leaves its backups in the range of the count in
    force iff none of them runs with a count below the number of backups so far. -/
theorem rotations_in_range_iff (path : Str) (w : World) (maxFileSize : UInt64) (maxBackups : ℕ)
    (hempty : ∀ i, w.disk.read (family path i) = none) (ops : List FileOp) :
    (∀ pre m post, ops = pre ++ .write m :: post →
      RotatesInRange path m (FileOp.run Faults.none pre
        (construct Faults.none path (.size (.new maxFileSize maxBackups)) w))) ↔
    ∀ pre m post, ops = pre ++ .write m :: post →
      (Forecast.ofRun path maxFileSize maxBackups pre).strategy.shouldRotate = true →
        (Forecast.ofRun path maxFileSize maxBackups pre).backups ≤
          (Forecast.ofRun path maxFileSize maxBackups pre).strategy.maxBackupsCount := by
  have hstep : ∀ pre m, RotatesInRange path m (FileOp.run Faults.none pre
      (construct Faults.none path (.size (.new maxFileSize maxBackups)) w)) ↔ _ := fun pre m =>
    rotatesInRange_iff m (foreseen_ofRun hempty maxFileSize maxBackups pre)
  simp only [hstep]

/-- One backup under the count 2: the second rotation still has room. -/
theorem rotation_in_range_below_count :
    (∀ i, ({} : World).disk.read (family "log".toList i) = none) ∧
    RotatesInRange "log".toList ['b'] (FileOp.run Faults.none [.write ['a']]
      (construct Faults.none "log".toList (.size (.new 1 2)) {})) := by
  refine ⟨fun _ => rfl, ?_⟩
  refine (rotations_in_range_iff "log".toList {} 1 2 (fun _ => rfl)
    [.write ['a'], .write ['b']]).mpr ?_ [.write ['a']] ['b'] [] rfl
  intro pre m post h
  rcases pre with _ | ⟨op, _ | ⟨op', pre⟩⟩
  · decide
  · obtain ⟨rfl, -⟩ := List.cons.inj h
    decide
  · simp at h

/-- COUNTEREXAMPLE: with two backups the count is set to 1; the next rotation leaves `log.2`. -/
theorem lowered_count_leaves_backup :
    ¬ ∀ pre m post,
      [FileOp.write ['a'], .write ['b'], .write ['c'], .setBackupCount 1, .write ['d']] =
        pre ++ .write m :: post →
      RotatesInRange "log".toList m (FileOp.run Faults.none pre
        (construct Faults.none "log".toList (.size (.new 1 2)) {})) := by
  intro h
  have hin := h [.write ['a'], .write ['b'], .write ['c'], .setBackupCount 1] ['d'] [] rfl _ rfl
    (by decide)
  exact absurd (hin.index 2 (by decide) (by decide)) (by decide)

end GtLogging.FileLog
