import GtLogging.BackupRange

/-! @src src/gt_logdestfile.h src/gt_logdestfile.cpp | layer:result | the cap on the backups

    The setter caps the backup count at `MAX_BACKUP_COUNT`, the constructor takes it as it comes.
    Index `c + 1` comes into being in one way only: a rotation under a count above `c` that moves an
    file `c` up, which the probe must have seen. So the cap holds through a run, whatever calls fail
    in it, iff no write is of that kind; a count within the cap never makes one. With no call
    failing it is a matter of the constructor's count and of the rotations before the setter is
    first called. -/

namespace GtLogging.FileLog
open Rotation SizeRotationStrategy

variable {flt : Faults} {path : Str} {c : ℕ} {s : SizeRotationStrategy} {log : FileLog}

/-! ### One rotation -/

/-- A backup that the probe sees is not above the cap. -/
theorem last_of_capped (flt : Faults) {w : World} (hs : s.fileName = path)
    (hcap : ∀ X, c < X → w.disk.read (family path X) = none) :
    lastExistingBackupIndex flt s w ≤ c ∧ (1 ≤ c → lastExistingBackupIndex flt s w = c →
      fileExistsAtPath flt (family path c) w = true) := by
  rcases lastExistingBackupIndex_cases flt s w with h | ⟨i, hi, hex, h⟩
  · exact ⟨by omega, by omega⟩
  · obtain ⟨j, rfl⟩ := Nat.exists_eq_add_of_le' hi
    have hj : j + 1 ≤ c := by
      by_contra hlt
      rw [hs, fileExistsAtPath_eq, show backupName path (j + 1) = family path (j + 1) from rfl,
        hcap (j + 1) (by omega)] at hex
      cases hex
    refine ⟨by omega, fun _ hk => ?_⟩
    obtain rfl : c = j + 1 := by omega
    rwa [hs] at hex

/-- A loop that starts with the file at the cap moves it up, and nothing else above. -/
theorem read_rotate_of_last {w : World} {k X : ℕ} (hs : s.fileName = path)
    (hcap : ∀ X, k + 1 < X → w.disk.read (family path X) = none)
    (hlast : lastExistingBackupIndex flt s w = k + 1) (hX : k + 1 < X) :
    (s.rotate flt w).disk.read (family path X) =
      if X = k + 2 then
        (if flt.renameFails (family path (k + 1)) (family path (k + 2)) then none
          else w.disk.read (family path (k + 1)))
      else none := by
  have hlt := lastExistingBackupIndex_le flt s w
  rw [← hs, read_rotate_backup flt s w (by omega) (by omega), hlast, shiftUp,
    read_shiftUp flt s _ (by omega), hs]
  change (moveOnto flt (family path (k + 1)) (family path (k + 2)) _ _ w).disk.read _ = _
  rw [moveOnto_free flt _ _ (hcap _ (by omega)),
    read_renameOrWarn flt _ (family_ne (by omega)) (hcap _ (by omega))]
  by_cases h : X = k + 2
  · rw [h, if_pos rfl, if_pos rfl]
  · rw [if_neg (family_ne h), if_neg (family_ne (by omega)), if_neg h, hcap X hX]

/-- EXACT: a rotation creates a file above index `c` iff it finds file `c` and moves it up. -/
theorem rotate_capped_iff (flt : Faults) {w : World} (hs : s.fileName = path) (hc : 1 ≤ c)
    (hcap : ∀ X, c < X → w.disk.read (family path X) = none) :
    (∀ X, c < X → (s.rotate flt w).disk.read (family path X) = none) ↔
      ¬ (c < s.maxBackupsCount ∧ fileExistsAtPath flt (family path c) w = true ∧
        flt.renameFails (family path c) (family path (c + 1)) = false) := by
  obtain ⟨k, rfl⟩ := Nat.exists_eq_add_of_le' hc
  obtain ⟨hle, hseen⟩ := last_of_capped flt hs hcap
  rcases Nat.eq_zero_or_pos s.maxBackupsCount with h0 | hpos
  · refine iff_of_true ?_ (by omega)
    intro X hX
    rw [rotate_zero flt h0]
    split_ifs
    · rfl
    · exact hcap X hX
  by_cases hlast : lastExistingBackupIndex flt s w = k + 1
  · -- the loop starts with file `c`
    have hlt := lastExistingBackupIndex_le flt s w
    have hex := hseen hc hlast
    constructor
    · rintro hnone ⟨-, -, hmv⟩
      have h := read_rotate_of_last hs hcap hlast (X := k + 2) (by omega)
      rw [hnone (k + 2) (by omega), if_pos rfl, if_neg (by simp [hmv])] at h
      rw [fileExistsAtPath_eq, ← h] at hex
      cases hex
    · intro hno X hX
      rw [read_rotate_of_last hs hcap hlast hX]
      split_ifs with h hmv
      · rfl
      · exact absurd ⟨by omega, hex, Bool.eq_false_of_not_eq_true hmv⟩ hno
      · rfl
  · -- the loop stays below the cap
    refine iff_of_true (fun X hX => ?_) ?_
    · rw [← hs, read_rotate_backup flt s w hpos (by omega), read_shiftUp flt s w (by omega), hs]
      exact hcap X hX
    · rintro ⟨hlt, hex, -⟩
      have hge : min (k + 1) (s.maxBackupsCount - 1) ≤ lastExistingBackupIndex flt s w :=
        lastExistingBackupIndex_ge hc hlt.le (by rw [hs]; exact hex)
      omega

/-! ### One operation -/

/-- The write that adds backup `c + 1`: it rotates under a count above `c`, file `c` is found, and
    moving it up is not refused. -/
def Overflows (path : Str) (c : ℕ) (log : FileLog) : Faults × FileOp → Prop
  | (flt, .write _) => ∃ s, log.rot = .size s ∧ s.shouldRotate = true ∧
      c < s.maxBackupsCount ∧ fileExistsAtPath flt (family path c) log.world = true ∧
      flt.renameFails (family path c) (family path (c + 1)) = false
  | _ => False

/-- A rotating write leaves the backups of its rotation. -/
theorem isSome_file_write (flt : Faults) (m : Str) (ha : Attached path s log) {X : ℕ} (hX : 1 ≤ X) :
    ((log.write flt m).file path X).isSome =
      ((if s.shouldRotate then s.rotate flt log.world else log.world).disk.read
        (family path X)).isSome := by
  have hne : family path X ≠ log.dest.filePath := by
    rw [ha.filePath]
    exact family_ne (i := X) (j := 0) (by omega)
  have h := names_write flt m log hne
  rw [ha.rot] at h
  rw [file, Disk.isSome_read, Disk.isSome_read]
  exact congrArg Option.isSome h

/-- EXACT for one operation: the cap survives iff the operation does not overflow it. -/
theorem capped_exec_iff (st : Faults × FileOp) (ha : Attached path s log) (hc : 1 ≤ c)
    (hcap : Capped path c log) :
    Capped path c (st.2.exec st.1 log) ↔ ¬ Overflows path c log st := by
  obtain ⟨flt, op⟩ := st
  have hnone := capped_iff.mp hcap
  have hset : ∀ f, Capped path c (log.mapSize f) := by
    intro f
    rw [mapSize, ha.rot]
    exact ⟨hcap.index, hcap.number⟩
  cases op with
  | setBackupCount k => exact iff_of_true (hset _) not_false
  | setMaximumSizeInBytes size => exact iff_of_true (hset _) not_false
  | write m =>
    have hafter : Capped path c (log.write flt m) ↔ ∀ X, c < X →
        (if s.shouldRotate then s.rotate flt log.world else log.world).disk.read
          (family path X) = none := by
      simp only [capped_iff, ← Option.not_isSome_iff_eq_none]
      refine forall₂_congr fun X hX => ?_
      rw [isSome_file_write flt m ha (by omega)]
    have hover : Overflows path c log (flt, .write m) ↔ s.shouldRotate = true ∧
        c < s.maxBackupsCount ∧ fileExistsAtPath flt (family path c) log.world = true ∧
        flt.renameFails (family path c) (family path (c + 1)) = false := by
      simp [Overflows, ha.rot]
    rw [FileOp.exec, hafter, hover]
    cases hr : s.shouldRotate with
    | false => exact iff_of_true (fun X hX => hnone X hX) (by simp)
    | true => simpa [file] using rotate_capped_iff flt ha.name hc hnone

/-! ### Runs -/

/-- Consecutive operations, each with its own failing calls. -/
def runUnder (steps : List (Faults × FileOp)) (log : FileLog) : FileLog :=
  steps.foldl (fun l st => st.2.exec st.1 l) log

theorem runUnder_concat (steps : List (Faults × FileOp)) (st : Faults × FileOp) (log : FileLog) :
    runUnder (steps ++ [st]) log = st.2.exec st.1 (runUnder steps log) := by
  rw [runUnder, List.foldl_append]
  rfl

/-- Whatever fails, an operation keeps the log attached, and a count within the cap within it. -/
theorem attached_exec (st : Faults × FileOp) (ha : Attached path s log) :
    ∃ s', Attached path s' (st.2.exec st.1 log) ∧
      (s.maxBackupsCount ≤ MAX_BACKUP_COUNT → s'.maxBackupsCount ≤ MAX_BACKUP_COUNT) := by
  obtain ⟨flt, op⟩ := st
  have hset : ∀ f : SizeRotationStrategy → SizeRotationStrategy, (f s).fileName = s.fileName →
      Attached path (f s) (log.mapSize f) := by
    intro f hf
    rw [mapSize, ha.rot]
    exact ⟨rfl, hf.trans ha.name, ha.filePath⟩
  cases op with
  | write m =>
    obtain ⟨s', ha', hs'⟩ := attached_write flt m ha
    exact ⟨s', ha', hs'.trans_le⟩
  | setBackupCount k => exact ⟨_, hset _ rfl, fun _ => min_le_right k _⟩
  | setMaximumSizeInBytes size => exact ⟨_, hset _ rfl, id⟩

theorem attached_runUnder (steps : List (Faults × FileOp)) (ha : Attached path s log) :
    ∃ s', Attached path s' (runUnder steps log) ∧
      (s.maxBackupsCount ≤ MAX_BACKUP_COUNT → s'.maxBackupsCount ≤ MAX_BACKUP_COUNT) := by
  induction steps using List.reverseRecOn with
  | nil => exact ⟨s, ha, id⟩
  | append_singleton steps st ih =>
    obtain ⟨s₁, ha₁, hs₁⟩ := ih
    obtain ⟨s₂, ha₂, hs₂⟩ := attached_exec st ha₁
    rw [runUnder_concat]
    exact ⟨s₂, ha₂, hs₂ ∘ hs₁⟩

/-- RUN: the cap holds in every state of a run iff no operation of the run overflows it. -/
theorem capped_runUnder_iff (steps : List (Faults × FileOp)) (ha : Attached path s log)
    (hc : 1 ≤ c) (hcap : Capped path c log) :
    (∀ pre post, steps = pre ++ post → Capped path c (runUnder pre log)) ↔
      ∀ pre st post, steps = pre ++ st :: post → ¬ Overflows path c (runUnder pre log) st := by
  constructor
  · intro h pre st post hsteps
    obtain ⟨s', ha', -⟩ := attached_runUnder pre ha
    rw [← capped_exec_iff st ha' hc (h pre _ hsteps), ← runUnder_concat]
    exact h (pre ++ [st]) post (by rw [hsteps, List.append_assoc]; rfl)
  · intro h pre
    induction pre using List.reverseRecOn with
    | nil => exact fun _ _ => hcap
    | append_singleton pre st ih =>
      intro post hsteps
      rw [List.append_assoc] at hsteps
      obtain ⟨s', ha', -⟩ := attached_runUnder pre ha
      rw [runUnder_concat]
      exact (capped_exec_iff st ha' hc (ih _ hsteps)).mpr (h pre st post hsteps)

/-- A count within the cap never overflows it. -/
theorem not_overflows (st : Faults × FileOp) (ha : Attached path s log)
    (hle : s.maxBackupsCount ≤ c) : ¬ Overflows path c log st := by
  obtain ⟨flt, op⟩ := st
  cases op with
  | write m =>
    rintro ⟨s', hs', -, hlt, -⟩
    obtain rfl := RotationStrategy.size.inj (ha.rot.symm.trans hs')
    omega
  | setBackupCount k => exact not_false
  | setMaximumSizeInBytes size => exact not_false

/-- A fresh log on an empty family has no backups. -/
theorem capped_construct (flt : Faults) {w : World}
    (hempty : ∀ i, w.disk.read (family path i) = none) (s : SizeRotationStrategy) (c : ℕ) :
    Capped path c (construct flt path (.size s) w) := by
  refine capped_iff.mpr fun X hX => ?_
  rw [file, (sameOutside_construct flt path (.size s) w).read, hempty]
  exact family_ne (i := X) (j := 0) (by omega)

/-- RUN: a constructor's count within the cap keeps every run within it, whatever fails. -/
theorem capped_of_count_le (flt : Faults) (path : Str) (w : World) (maxFileSize : UInt64)
    {maxBackups : ℕ} (hle : maxBackups ≤ MAX_BACKUP_COUNT)
    (hempty : ∀ i, w.disk.read (family path i) = none) (steps : List (Faults × FileOp)) :
    Capped path MAX_BACKUP_COUNT
      (runUnder steps (construct flt path (.size (.new maxFileSize maxBackups)) w)) := by
  have ha := attached_construct flt path (.new maxFileSize maxBackups) w
  refine (capped_runUnder_iff steps ha (by decide) (capped_construct flt hempty _ _)).mpr ?_ steps
    [] (by simp)
  intro pre st post _
  obtain ⟨s', ha', hs'⟩ := attached_runUnder pre ha
  exact not_overflows st ha' (hs' hle)

/-! ### Without failures -/

/-- The rotations of an undisturbed run before the backup count is first set. -/
def rotationsBeforeSetter : SizeRotationStrategy → List FileOp → ℕ
  | _, [] => 0
  | _, .setBackupCount _ :: _ => 0
  | s, .write m :: ops =>
    (if s.shouldRotate then 1 else 0) + rotationsBeforeSetter (nextStrategy s (.write m)) ops
  | s, .setMaximumSizeInBytes size :: ops =>
    rotationsBeforeSetter (s.setMaximumSizeInBytes size) ops

/-- A run takes no backup away. -/
theorem backups_le_foldl_next (f : Forecast) (ops : List FileOp) :
    f.backups ≤ (ops.foldl Forecast.next f).backups := by
  induction ops generalizing f with
  | nil => exact le_rfl
  | cons op ops ih =>
    refine le_trans ?_ (ih (f.next op))
    rw [Forecast.next]
    split_ifs <;> simp

/-- EXACT for forecasts: only a constructor's count can pass the cap, one rotation at a time. -/
theorem backups_foldl_next_le_iff (f : Forecast) (ops : List FileOp) :
    (ops.foldl Forecast.next f).backups ≤ MAX_BACKUP_COUNT ↔
      f.backups ≤ MAX_BACKUP_COUNT ∧ (f.strategy.maxBackupsCount ≤ MAX_BACKUP_COUNT ∨
        f.backups + rotationsBeforeSetter f.strategy ops ≤ MAX_BACKUP_COUNT) := by
  induction ops generalizing f with
  | nil =>
    simp only [List.foldl_nil, rotationsBeforeSetter]
    omega
  | cons op ops ih =>
    rw [List.foldl_cons, ih]
    have hcount := maxBackupsCount_nextStrategy f.strategy op
    cases op with
    | write m =>
      simp only [countStep] at hcount
      simp only [Forecast.next, Forecast.rotates, hcount, rotationsBeforeSetter]
      by_cases hr : f.strategy.shouldRotate = true
      · simp only [hr, true_and, if_true]
        split_ifs <;> omega
      · simp [hr]
    | setBackupCount k =>
      have hle : (f.next (.setBackupCount k)).strategy.maxBackupsCount ≤ MAX_BACKUP_COUNT :=
        hcount.trans_le (min_le_right k _)
      have hsame : (f.next (.setBackupCount k)).backups = f.backups := by
        simp [Forecast.next, Forecast.rotates]
      have hzero : rotationsBeforeSetter f.strategy (.setBackupCount k :: ops) = 0 := rfl
      rw [hsame, hzero]
      omega
    | setMaximumSizeInBytes size =>
      simp only [Forecast.next, Forecast.rotates, rotationsBeforeSetter, nextStrategy]
      simp [setMaximumSizeInBytes]

/-- EXACT: on an empty family, the cap holds in every state of a run iff no write of the run finds
    backup 10 and moves it up, which none does if the constructor's count is within the cap; with no
    call failing, iff the constructor's count is within the cap or at most so many writes rotate
    before the setter is first called. -/
theorem backup_cap_iff (path : Str) (w : World) (maxFileSize : UInt64) (maxBackups : ℕ)
    (hempty : ∀ i, w.disk.read (family path i) = none) :
    (∀ (flt : Faults) (steps : List (Faults × FileOp)),
      (∀ pre post, steps = pre ++ post → Capped path MAX_BACKUP_COUNT
        (runUnder pre (construct flt path (.size (.new maxFileSize maxBackups)) w))) ↔
      ∀ pre st post, steps = pre ++ st :: post → ¬ Overflows path MAX_BACKUP_COUNT
        (runUnder pre (construct flt path (.size (.new maxFileSize maxBackups)) w)) st) ∧
    (maxBackups ≤ MAX_BACKUP_COUNT → ∀ (flt : Faults) (steps : List (Faults × FileOp)),
      Capped path MAX_BACKUP_COUNT
        (runUnder steps (construct flt path (.size (.new maxFileSize maxBackups)) w))) ∧
    ∀ ops : List FileOp,
      (∀ pre post, ops = pre ++ post → Capped path MAX_BACKUP_COUNT
        (FileOp.run Faults.none pre
          (construct Faults.none path (.size (.new maxFileSize maxBackups)) w))) ↔
      maxBackups ≤ MAX_BACKUP_COUNT ∨
        rotationsBeforeSetter { SizeRotationStrategy.new maxFileSize maxBackups with
          fileName := path } ops ≤ MAX_BACKUP_COUNT := by
  refine ⟨fun flt steps => ?_, fun hle flt steps => ?_, fun ops => ?_⟩
  · have ha := attached_construct flt path (.new maxFileSize maxBackups) w
    exact capped_runUnder_iff steps ha (by decide) (capped_construct flt hempty _ _)
  · exact capped_of_count_le flt path w maxFileSize hle hempty steps
  · -- no call fails
    have hfore : ∀ pre, Capped path MAX_BACKUP_COUNT (FileOp.run Faults.none pre
        (construct Faults.none path (.size (.new maxFileSize maxBackups)) w)) ↔ _ := fun pre =>
      capped_iff_of_foreseen (foreseen_ofRun hempty maxFileSize maxBackups pre)
    have hlast := backups_foldl_next_le_iff { strategy := { SizeRotationStrategy.new maxFileSize
      maxBackups with fileName := path } } ops
    simp only [hfore]
    constructor
    · intro h
      simpa [SizeRotationStrategy.new] using (hlast.mp (h ops [] (by simp))).2
    · rintro h pre post rfl
      have hle := hlast.mpr ⟨Nat.zero_le _, by simpa [SizeRotationStrategy.new] using h⟩
      rw [List.foldl_append] at hle
      exact (backups_le_foldl_next _ post).trans hle

/-- The count 10 and three writes. -/
theorem backup_cap_within :
    (∀ i, ({} : World).disk.read (family "log".toList i) = none) ∧
    Capped "log".toList MAX_BACKUP_COUNT
      (FileOp.run Faults.none [.write ['a'], .write ['b'], .write ['c']]
        (construct Faults.none "log".toList (.size (.new 1 10)) {})) :=
  ⟨fun _ => rfl, ((backup_cap_iff "log".toList {} 1 10 fun _ => rfl).2.2 _).mpr
    (Or.inl (by decide)) _ [] (List.append_nil _).symm⟩

/-- COUNTEREXAMPLE: constructed with the count 11, the log has a backup 11 after twelve writes. -/
theorem constructor_count_passes_cap :
    ¬ Capped "log".toList MAX_BACKUP_COUNT
      (FileOp.run Faults.none (List.replicate 12 (.write ['a']))
        (construct Faults.none "log".toList (.size (.new 1 11)) {})) := by
  intro h
  exact absurd (h.index 11 (by decide) (by decide)) (by decide)

end GtLogging.FileLog
