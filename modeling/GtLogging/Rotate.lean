import GtLogging.RotationStrategy

/-! @src src/gt_logdestfile.cpp | layer:spec | what one rotation does, for every pattern of failures

    The family of a path is the path itself (index 0) and its backups (index i ≥ 1). `rotate`
    handles the family from the top: file `k` is moved to index `k + 1` after the file found there
    has been cleared. A file is *blocked* when it is still in its place at the moment its own name
    is used as a target: it exists, and its rename failed or the file above it was blocked and could
    not be removed. `Shifted k` is the loop invariant: below `k` nothing has happened, above `k` the
    final contents are in place, and `k` itself holds its old file exactly if that file is blocked.
    All of this is about probes that see every file; `moveOnto_cases` and the frames are not. -/

namespace GtLogging.Rotation
open SizeRotationStrategy

/-- `path`, `path.1`, `path.2`, ... -/
def family (path : Str) : ℕ → Str
  | 0 => path
  | i + 1 => backupName path (i + 1)

theorem family_inj {path : Str} : ∀ {i j : ℕ}, family path i = family path j → i = j
  | 0, 0, _ => rfl
  | 0, j + 1, h => by simp [family, backupName] at h
  | i + 1, 0, h => by simp [family, backupName] at h
  | i + 1, j + 1, h => by
    simp only [family, backupName, List.append_cancel_left_eq] at h
    exact stdToString_inj h

theorem family_ne {path : Str} {i j : ℕ} (h : i ≠ j) : family path i ≠ family path j :=
  fun e => h (family_inj e)

/-! ### One move -/

theorem fileExistsAtPath_eq (flt : Faults) (p : Str) (w : World) :
    fileExistsAtPath flt p w = ((w.disk.read p).isSome && !flt.probeFails p) := by
  rw [fileExistsAtPath, Disk.isSome_read]

theorem read_removeFileAtPath (flt : Faults) (p q : Str) (w : World) :
    (removeFileAtPath flt p w).2.disk.read q =
      if q = p ∧ flt.removeFails p = false then none else w.disk.read q := by
  rw [removeFileAtPath]
  cases hn : w.disk.names p with
  | none =>
    by_cases hq : q = p
    · subst hq; simp [Disk.read, hn]
    · simp [hq]
  | some i =>
    cases hf : flt.removeFails p with
    | true => simp
    | false => simp [Disk.read_unlink]

theorem fst_removeFileAtPath (flt : Faults) {p : Str} {w : World}
    (h : (w.disk.read p).isSome = true) : (removeFileAtPath flt p w).1 = !flt.removeFails p := by
  rw [Disk.isSome_read] at h
  obtain ⟨i, hi⟩ := Option.isSome_iff_exists.mp h
  cases hf : flt.removeFails p <;> simp [removeFileAtPath, hi, hf]

theorem read_renameOrWarn (flt : Faults) {o n : Str} (msg : Str) {w : World} (hne : o ≠ n)
    (hn : w.disk.read n = none) (q : Str) :
    (renameOrWarn flt o n msg w).disk.read q =
      if q = n then (if flt.renameFails o n then none else w.disk.read o)
      else if q = o then (if flt.renameFails o n then w.disk.read o else none)
      else w.disk.read q := by
  rw [renameOrWarn, renameFileFromTo]
  cases ho : w.disk.names o with
  | none =>
    have hro : w.disk.read o = none := by simp [Disk.read, ho]
    by_cases h₁ : q = n
    · subst h₁; simp [hn, hro]
    · by_cases h₂ : q = o
      · subst h₂; simp [hro, hne]
      · simp [h₁, h₂]
  | some i =>
    cases hf : flt.renameFails o n with
    | true =>
      by_cases h₁ : q = n
      · subst h₁; simp [hn]
      · by_cases h₂ : q = o
        · subst h₂; simp [hne]
        · simp [h₁, h₂]
    | false => simp [Disk.read_move]

/-- A target that does not exist is not cleared. -/
theorem moveOnto_free (flt : Faults) {o n : Str} (m₁ m₂ : Str) {w : World}
    (hn : w.disk.read n = none) : moveOnto flt o n m₁ m₂ w = renameOrWarn flt o n m₂ w := by
  rw [moveOnto, fileExistsAtPath_eq, hn]
  rfl

/-- SPEC of the loop body: the target keeps a file it could not lose, and takes the old file
    otherwise, unless the rename fails. -/
theorem read_moveOnto (flt : Faults) {o n : Str} (m₁ m₂ : Str) {w : World} (hne : o ≠ n)
    (hprobe : flt.probeFails n = false) (q : Str) :
    (moveOnto flt o n m₁ m₂ w).disk.read q =
      if (w.disk.read n).isSome && flt.removeFails n then w.disk.read q
      else if q = n then (if flt.renameFails o n then none else w.disk.read o)
      else if q = o then (if flt.renameFails o n then w.disk.read o else none)
      else w.disk.read q := by
  cases hx : (w.disk.read n).isSome with
  | false =>
    have hn : w.disk.read n = none := by simpa using hx
    rw [moveOnto_free flt m₁ m₂ hn]
    simpa using read_renameOrWarn flt m₂ hne hn q
  | true =>
    have hex : fileExistsAtPath flt n w = true := by rw [fileExistsAtPath_eq, hx, hprobe]; rfl
    rw [moveOnto, if_pos hex]
    simp only [fst_removeFileAtPath flt hx]
    cases hf : flt.removeFails n with
    | true => simp [read_removeFileAtPath, hf]
    | false =>
      have hrm : ∀ r, (removeFileAtPath flt n w).2.disk.read r =
          if r = n then none else w.disk.read r := by
        intro r; rw [read_removeFileAtPath]; simp [hf]
      have h := read_renameOrWarn flt m₂ hne (w := (removeFileAtPath flt n w).2)
        (by rw [hrm, if_pos rfl]) q
      simp only [hrm, if_neg hne] at h
      simp only [Bool.not_false, if_true, Bool.and_false, Bool.false_eq_true, if_false, h]
      by_cases h₁ : q = n
      · simp [h₁]
      · simp [h₁]

theorem renameOrWarn_cases (flt : Faults) {o n : Str} (msg : Str) (w : World) :
    (∀ q, (renameOrWarn flt o n msg w).disk.read q = w.disk.read q) ∨
    ∀ q, (renameOrWarn flt o n msg w).disk.read q =
      if q = n then w.disk.read o else if q = o then none else w.disk.read q := by
  rw [renameOrWarn, renameFileFromTo]
  by_cases hf : ((w.disk.names o).isNone || flt.renameFails o n) = true
  · simp only [if_pos hf]
    exact Or.inl fun _ => rfl
  · simp only [if_neg hf]
    exact Or.inr fun q => Disk.read_move _ _ _ _

/-- INVERSION: whatever fails, and whatever the probe sees, a move changes nothing, clears its
    target, or puts the old file there. -/
theorem moveOnto_cases (flt : Faults) {o n : Str} (m₁ m₂ : Str) (w : World) (hne : o ≠ n) :
    (∀ q, (moveOnto flt o n m₁ m₂ w).disk.read q = w.disk.read q) ∨
    (∀ q, (moveOnto flt o n m₁ m₂ w).disk.read q = if q = n then none else w.disk.read q) ∨
    ∀ q, (moveOnto flt o n m₁ m₂ w).disk.read q =
      if q = n then w.disk.read o else if q = o then none else w.disk.read q := by
  rw [moveOnto]
  by_cases hx : fileExistsAtPath flt n w = true
  · have hrm := fun q => read_removeFileAtPath flt n q w
    have hsome : (w.disk.read n).isSome = true := by
      rw [fileExistsAtPath_eq, Bool.and_eq_true] at hx
      exact hx.1
    rw [if_pos hx]
    simp only [fst_removeFileAtPath flt hsome]
    cases hf : flt.removeFails n with
    | true => exact Or.inl fun q => by simpa [hf, World.warn] using hrm q
    | false =>
      simp only [hf, and_true] at hrm
      simp only [Bool.not_false, if_true]
      rcases renameOrWarn_cases flt m₂ (removeFileAtPath flt n w).2 with h | h
      · exact Or.inr (Or.inl fun q => by rw [h, hrm])
      · refine Or.inr (Or.inr fun q => ?_)
        rw [h, hrm, hrm, if_neg hne]
        split_ifs <;> rfl
  · rw [if_neg hx]
    exact (renameOrWarn_cases flt m₂ w).imp_right Or.inr

/-! ### Blocked files and the final contents -/

variable (flt : Faults) (path : Str) (n : ℕ) (d : Disk Str Char)

/-- `blockedFrom k j`: file `j` is blocked, `k` indices below the top of the family. -/
def blockedFrom : ℕ → ℕ → Bool
  | 0, j => (d.read (family path j)).isSome
  | k + 1, j => (d.read (family path j)).isSome &&
    ((blockedFrom k (j + 1) && flt.removeFails (family path (j + 1))) ||
      flt.renameFails (family path j) (family path (j + 1)))

/-- File `j` is still in its place when its name is used as a target under backup count `n`. -/
def blocked (j : ℕ) : Bool := blockedFrom flt path d (n - j) j

/-- What a rotation with backup count `n ≥ 1` leaves at index `j ≤ n`. -/
def afterRotate : ℕ → Option Str
  | 0 => if blocked flt path n d 0 then d.read (family path 0) else none
  | j + 1 =>
    if blocked flt path n d (j + 1) && flt.removeFails (family path (j + 1)) then
      d.read (family path (j + 1))
    else if flt.renameFails (family path j) (family path (j + 1)) then none
    else d.read (family path j)

variable {flt path n d}

theorem blocked_full : blocked flt path n d n = (d.read (family path n)).isSome := by
  simp [blocked, blockedFrom]

theorem blocked_of_lt {j : ℕ} (h : j < n) :
    blocked flt path n d j = ((d.read (family path j)).isSome &&
      ((blocked flt path n d (j + 1) && flt.removeFails (family path (j + 1))) ||
        flt.renameFails (family path j) (family path (j + 1)))) := by
  have hs : n - j = (n - (j + 1)) + 1 := by omega
  rw [blocked, hs, blockedFrom, blocked]

theorem isSome_of_blocked {j : ℕ} (hj : j ≤ n) (h : blocked flt path n d j = true) :
    (d.read (family path j)).isSome = true := by
  rcases Nat.lt_or_eq_of_le hj with hlt | rfl
  · rw [blocked_of_lt hlt, Bool.and_eq_true] at h; exact h.1
  · rwa [blocked_full] at h

/-! ### The loop -/

/-- Loop invariant: `k` is the next target. -/
structure Shifted (flt : Faults) (path : Str) (n : ℕ) (d₀ : Disk Str Char) (k : ℕ)
    (d : Disk Str Char) : Prop where
  below : ∀ j, j < k → d.read (family path j) = d₀.read (family path j)
  target : d.read (family path k) =
    if blocked flt path n d₀ k then d₀.read (family path k) else none
  above : ∀ j, k < j → j ≤ n → d.read (family path j) = afterRotate flt path n d₀ j
  others : ∀ p, (∀ j ≤ n, p ≠ family path j) → d.read p = d₀.read p

/-- STEP: moving file `k` onto the target `k + 1` settles `k + 1` and makes `k` the target. -/
theorem shifted_step {d₀ : Disk Str Char} {k : ℕ} {w : World} (m₁ m₂ : Str) (hk : k + 1 ≤ n)
    (hprobe : ∀ p, flt.probeFails p = false) (h : Shifted flt path n d₀ (k + 1) w.disk) :
    Shifted flt path n d₀ k (moveOnto flt (family path k) (family path (k + 1)) m₁ m₂ w).disk := by
  have hne : family path k ≠ family path (k + 1) := family_ne (by omega)
  have hold : w.disk.read (family path k) = d₀.read (family path k) := h.below k (by omega)
  have hex : (w.disk.read (family path (k + 1))).isSome = blocked flt path n d₀ (k + 1) := by
    rw [h.target]
    cases hb : blocked flt path n d₀ (k + 1) with
    | false => rfl
    | true => simpa using isSome_of_blocked hk hb
  have hspec := read_moveOnto flt m₁ m₂ (w := w) hne (hprobe _)
  simp only [hex, hold] at hspec
  refine ⟨?_, ?_, ?_, ?_⟩
  · -- below
    intro j hj
    rw [hspec, if_neg (family_ne (by omega)), if_neg (family_ne (by omega)), ite_self]
    exact h.below j (by omega)
  · -- target
    rw [hspec, if_neg hne, if_pos rfl, blocked_of_lt (j := k) (by omega), hold]
    cases hb : blocked flt path n d₀ (k + 1) && flt.removeFails (family path (k + 1)) <;>
      cases hr : flt.renameFails (family path k) (family path (k + 1)) <;>
        cases hx : d₀.read (family path k) <;> simp
  · -- above
    intro j hj hjn
    rcases Nat.eq_or_lt_of_le (Nat.succ_le_of_lt hj) with rfl | hlt
    · rw [hspec, if_pos rfl, afterRotate]
      by_cases hb : (blocked flt path n d₀ (k + 1) && flt.removeFails (family path (k + 1))) = true
      · rw [if_pos hb, if_pos hb, h.target, if_pos (Bool.and_eq_true _ _ ▸ hb).1]
      · rw [if_neg hb, if_neg hb]
    · rw [hspec, if_neg (family_ne (by omega)), if_neg (family_ne (by omega)), ite_self]
      exact h.above j hlt hjn
  · -- others
    intro p hp
    rw [hspec, if_neg (hp _ hk), if_neg (hp _ (by omega)), ite_self]
    exact h.others p hp

/-- Running the shift loop from index `i` down to 1. -/
theorem shifted_shiftUp (flt : Faults) {d₀ : Disk Str Char} {s : SizeRotationStrategy}
    (hs : s.fileName = path) (hprobe : ∀ p, flt.probeFails p = false) (i : ℕ) (w : World)
    (hi : i + 1 ≤ n) (h : Shifted flt path n d₀ (i + 1) w.disk) :
    Shifted flt path n d₀ 1 (shiftUp flt s i w).disk := by
  induction i generalizing w with
  | zero => exact h
  | succ i ih =>
    simp only [shiftUp, hs]
    exact ih _ (by omega) (shifted_step _ _ hi hprobe h)

/-- The probe loop: its result bounds every existing index, capped by `n - 1`. -/
theorem probe_ge (p : ℕ → Bool) (c m j : ℕ) (h₁ : 1 ≤ j) (h₂ : j ≤ m) (hp : p j = true) :
    min j c ≤ (List.range' 1 m).foldl (fun last i => if p i then min i c else last) 0 := by
  induction m with
  | zero => omega
  | succ m ih =>
    rw [List.range'_concat, List.foldl_append]
    simp only [List.foldl_cons, List.foldl_nil, one_mul]
    rcases Nat.lt_or_eq_of_le h₂ with hlt | rfl
    · split_ifs
      · exact min_le_min_right c (by omega)
      · exact ih (by omega)
    · rw [Nat.add_comm 1 m, if_pos hp]

theorem probe_cases (p : ℕ → Bool) (c : ℕ) (l : List ℕ) :
    l.foldl (fun last i => if p i then min i c else last) 0 = 0 ∨
      ∃ i ∈ l, p i = true ∧ l.foldl (fun last i => if p i then min i c else last) 0 = min i c := by
  induction l using List.reverseRecOn with
  | nil => exact Or.inl rfl
  | append_singleton l i ih =>
    rw [List.foldl_append, List.foldl_cons, List.foldl_nil]
    split_ifs with hp
    · exact Or.inr ⟨i, by simp, hp, rfl⟩
    · exact ih.imp_right fun ⟨j, hj, h⟩ => ⟨j, List.mem_append_left _ hj, h⟩

/-- The index is that of a backup which the probe sees, if there is one, or the one below it. -/
theorem lastExistingBackupIndex_cases (flt : Faults) (s : SizeRotationStrategy) (w : World) :
    lastExistingBackupIndex flt s w = 0 ∨
      ∃ i, 1 ≤ i ∧ fileExistsAtPath flt (backupName s.fileName i) w = true ∧
        lastExistingBackupIndex flt s w = min i (s.maxBackupsCount - 1) := by
  refine (probe_cases _ _ _).imp_right ?_
  rintro ⟨i, hi, h⟩
  exact ⟨i, (List.mem_range'_1.mp hi).1, h⟩

theorem lastExistingBackupIndex_le (flt : Faults) (s : SizeRotationStrategy) (w : World) :
    lastExistingBackupIndex flt s w ≤ s.maxBackupsCount - 1 := by
  rcases lastExistingBackupIndex_cases flt s w with h | ⟨i, -, -, h⟩
  · omega
  · rw [h]
    exact min_le_right _ _

/-- Every backup that the probe sees counts. -/
theorem lastExistingBackupIndex_ge {s : SizeRotationStrategy} {w : World} {j : ℕ} (h₁ : 1 ≤ j)
    (h₂ : j ≤ s.maxBackupsCount) (hj : fileExistsAtPath flt (backupName s.fileName j) w = true) :
    min j (s.maxBackupsCount - 1) ≤ lastExistingBackupIndex flt s w :=
  probe_ge (fun i => fileExistsAtPath flt (backupName s.fileName i) w) _ _ j h₁ h₂ hj

/-- Before the loop the invariant holds at the index above the last existing backup. -/
theorem shifted_start {s : SizeRotationStrategy} {w : World} (hs : s.fileName = path)
    (hn : s.maxBackupsCount = n) (hpos : 1 ≤ n) (hprobe : ∀ p, flt.probeFails p = false) :
    Shifted flt path n w.disk (lastExistingBackupIndex flt s w + 1) w.disk := by
  subst hs hn
  have hle := lastExistingBackupIndex_le flt s w
  have hex : ∀ j, 1 ≤ j → j ≤ s.maxBackupsCount → lastExistingBackupIndex flt s w < j →
      j < s.maxBackupsCount ∨ lastExistingBackupIndex flt s w + 1 < j →
      w.disk.read (family s.fileName j) = none := by
    intro j h₁ h₂ h₃ h₄
    by_contra hne
    have hp : fileExistsAtPath flt (backupName s.fileName j) w = true := by
      obtain ⟨k, rfl⟩ := Nat.exists_eq_add_of_le' h₁
      rw [fileExistsAtPath_eq, hprobe, Bool.not_false, Bool.and_true]
      exact Option.isSome_iff_ne_none.mpr hne
    have hge := lastExistingBackupIndex_ge h₁ h₂ hp
    omega
  refine ⟨fun _ _ => rfl, ?_, ?_, fun _ _ => rfl⟩
  · -- target
    rcases Nat.lt_or_ge (lastExistingBackupIndex flt s w + 1) s.maxBackupsCount with hlt | hge
    · rw [hex _ (by omega) (by omega) (by omega) (Or.inl hlt)]; simp
    · have heq : lastExistingBackupIndex flt s w + 1 = s.maxBackupsCount := by omega
      rw [heq, blocked_full]
      cases w.disk.read (family s.fileName s.maxBackupsCount) <;> simp
  · -- above
    intro j hj hjn
    obtain ⟨k, rfl⟩ := Nat.exists_eq_add_of_le' (show 1 ≤ j by omega)
    have hnone := hex (k + 1) (by omega) hjn (by omega) (Or.inr hj)
    have hbelow := hex k (by omega) (by omega) (by omega) (Or.inl (by omega))
    rw [afterRotate, hnone, hbelow]
    simp

/-- SPEC of `rotate` with a positive backup count, under any pattern of failing removes and
    renames. -/
theorem rotate_spec (flt : Faults) {s : SizeRotationStrategy} {w : World} (hs : s.fileName = path)
    (hn : s.maxBackupsCount = n) (hpos : 1 ≤ n) (hprobe : ∀ p, flt.probeFails p = false) :
    (∀ j ≤ n, (s.rotate flt w).disk.read (family path j) = afterRotate flt path n w.disk j) ∧
    ∀ p, (∀ j ≤ n, p ≠ family path j) → (s.rotate flt w).disk.read p = w.disk.read p := by
  have hle := lastExistingBackupIndex_le flt s w
  have h₁ := shifted_shiftUp flt hs hprobe _ w (by omega) (shifted_start hs hn hpos hprobe)
  have h₀ : Shifted flt path n w.disk 0 (s.rotate flt w).disk := by
    rw [rotate, if_neg (by omega), renameCurrent, hs]
    exact shifted_step _ _ hpos hprobe h₁
  refine ⟨?_, h₀.others⟩
  rintro (_ | j) hj
  · exact h₀.target
  · exact h₀.above (j + 1) (by omega) hj

/-- SPEC of `rotate` with backup count 0: the current file goes, nothing else changes. -/
theorem rotate_zero (flt : Faults) {s : SizeRotationStrategy} {w : World}
    (hn : s.maxBackupsCount = 0) (q : Str) :
    (s.rotate flt w).disk.read q =
      if q = s.fileName ∧ flt.removeFails s.fileName = false then none else w.disk.read q := by
  rw [rotate, if_pos hn, ← read_removeFileAtPath]
  simp only
  split_ifs <;> rfl

/-! ### Without failures -/

theorem blocked_none {j : ℕ} (h : j < n) (hf : ∀ p, flt.removeFails p = false)
    (hr : ∀ p q, flt.renameFails p q = false) : blocked flt path n d j = false := by
  rw [blocked_of_lt h, hf, hr]; simp

/-- An undisturbed rotation is an exact shift by one, at every index and for every count. -/
theorem rotate_shift (flt : Faults) {s : SizeRotationStrategy} {w : World} (hs : s.fileName = path)
    (hprobe : ∀ p, flt.probeFails p = false) (hf : ∀ p, flt.removeFails p = false)
    (hr : ∀ p q, flt.renameFails p q = false) :
    (s.rotate flt w).disk.read (family path 0) = none ∧
    (∀ j, (s.rotate flt w).disk.read (family path (j + 1)) =
      if j < s.maxBackupsCount then w.disk.read (family path j)
      else w.disk.read (family path (j + 1))) ∧
    ∀ p, (∀ j, p ≠ family path j) → (s.rotate flt w).disk.read p = w.disk.read p := by
  rcases Nat.eq_zero_or_pos s.maxBackupsCount with h0 | hpos
  · have hz := rotate_zero flt (w := w) h0
    simp only [hf, and_true, hs] at hz
    refine ⟨by rw [hz]; exact if_pos rfl, fun j => ?_, fun p hp => ?_⟩
    · rw [hz, h0, if_neg (Nat.not_lt_zero j)]
      exact if_neg (family_ne (i := j + 1) (j := 0) (by omega))
    · rw [hz]; exact if_neg (hp 0)
  · obtain ⟨hin, hout⟩ := rotate_spec flt (w := w) hs rfl hpos hprobe
    refine ⟨?_, fun j => ?_, fun p hp => hout p fun j _ => hp j⟩
    · rw [hin 0 (by omega), afterRotate, blocked_none hpos hf hr]; rfl
    · by_cases hj : j < s.maxBackupsCount
      · rw [hin (j + 1) hj, afterRotate, hf, hr, if_pos hj]; simp
      · rw [if_neg hj]
        exact hout _ fun i hi => family_ne (by omega)

/-- What a rotation without failures does to a disk: the current file goes to `path.1`, each backup
    below the count moves up by one, absent files included, and no other path is touched. With the
    count 0 the current file just goes. -/
structure OneStepShift (path : Str) (n : ℕ) (d d' : Disk Str Char) : Prop where
  current : d'.read path = none
  first : 1 ≤ n → d'.read (backupName path 1) = d.read path
  backups : ∀ j, 2 ≤ j → j ≤ n → d'.read (backupName path j) = d.read (backupName path (j - 1))
  others : ∀ q, q ≠ path → (∀ j, 1 ≤ j → j ≤ n → q ≠ backupName path j) → d'.read q = d.read q

/-- EXACT: without failures, `rotate` is a shift by one, for every backup count and every pattern of
    gaps, surplus backups and missing files. -/
theorem rotate_oneStepShift (s : SizeRotationStrategy) (w : World) :
    OneStepShift s.fileName s.maxBackupsCount w.disk (s.rotate Faults.none w).disk := by
  obtain ⟨hcur, hbak, hout⟩ := rotate_shift Faults.none (s := s) (w := w) rfl (fun _ => rfl)
    (fun _ => rfl) fun _ _ => rfl
  refine ⟨hcur, fun hn => ?_, fun j hj hjn => ?_, fun q hq hne => ?_⟩
  · have h := hbak 0
    rwa [if_pos (show 0 < s.maxBackupsCount by omega)] at h
  · obtain ⟨k, rfl⟩ := Nat.exists_eq_add_of_le' hj
    have h := hbak (k + 1)
    rwa [if_pos (show k + 1 < s.maxBackupsCount by omega)] at h
  · by_cases hfam : ∃ j, q = family s.fileName j
    · -- a backup above the count
      obtain ⟨_ | j, rfl⟩ := hfam
      · exact absurd rfl hq
      · have hj : ¬ j < s.maxBackupsCount := fun hlt => hne (j + 1) (by omega) hlt rfl
        have h := hbak j
        rwa [if_neg hj] at h
    · exact hout q fun j he => hfam ⟨j, he⟩

/-! ### What a rotation does not touch -/

open Disk

theorem sameOutside_removeFileAtPath (flt : Faults) (p : Str) (w : World) :
    SameOutside (· = p) w.disk (removeFileAtPath flt p w).2.disk := by
  rw [removeFileAtPath]
  split_ifs
  · exact .refl _ _
  · exact sameOutside_unlink _ _

theorem sameOutside_renameOrWarn (flt : Faults) (o n msg : Str) (w : World) :
    SameOutside (fun q => q = o ∨ q = n) w.disk (renameOrWarn flt o n msg w).disk := by
  rw [renameOrWarn, renameFileFromTo]
  by_cases hf : ((w.disk.names o).isNone || flt.renameFails o n) = true
  · simp only [if_pos hf]
    exact .refl _ _
  · simp only [if_neg hf]
    exact sameOutside_move _ _ _

theorem sameOutside_moveOnto (flt : Faults) (o n m₁ m₂ : Str) (w : World) :
    SameOutside (fun q => q = o ∨ q = n) w.disk (moveOnto flt o n m₁ m₂ w).disk := by
  have hrm : SameOutside (fun q => q = o ∨ q = n) w.disk (removeFileAtPath flt n w).2.disk :=
    (sameOutside_removeFileAtPath flt n w).mono fun _ => Or.inr
  rw [moveOnto]
  by_cases hx : fileExistsAtPath flt n w = true
  · rw [if_pos hx]
    cases hfst : (removeFileAtPath flt n w).1 with
    | true =>
      simp only [hfst, if_true]
      exact hrm.trans (sameOutside_renameOrWarn flt o n m₂ _)
    | false =>
      simp only [hfst, Bool.false_eq_true, if_false]
      exact hrm
  · rw [if_neg hx]
    exact sameOutside_renameOrWarn flt o n m₂ w

/-- FRAME of the loop: it touches the backups it moves and the one above them. -/
theorem sameOutside_shiftUp (flt : Faults) (s : SizeRotationStrategy) (i : ℕ) (w : World) :
    SameOutside (fun q => ∃ j, 1 ≤ j ∧ j ≤ i + 1 ∧ q = family s.fileName j) w.disk
      (shiftUp flt s i w).disk := by
  induction i generalizing w with
  | zero => exact .refl _ _
  | succ i ih =>
    rw [shiftUp]
    refine SameOutside.trans ?_ ((ih _).mono ?_)
    · refine (sameOutside_moveOnto flt _ _ _ _ w).mono ?_
      rintro q (rfl | rfl)
      · exact ⟨i + 1, by omega, by omega, rfl⟩
      · exact ⟨i + 2, by omega, by omega, rfl⟩
    · rintro q ⟨j, hj, hji, rfl⟩
      exact ⟨j, hj, by omega, rfl⟩

/-- FRAME: no backup above those is touched. -/
theorem read_shiftUp (flt : Faults) (s : SizeRotationStrategy) {i X : ℕ} (w : World)
    (hX : i + 1 < X) :
    (shiftUp flt s i w).disk.read (family s.fileName X) = w.disk.read (family s.fileName X) := by
  refine (sameOutside_shiftUp flt s i w).read ?_
  rintro ⟨j, -, hj, h⟩
  obtain rfl := family_inj h
  omega

/-- FRAME: a backup above the first one ends up as the loop leaves it, whatever fails. -/
theorem read_rotate_backup (flt : Faults) (s : SizeRotationStrategy) (w : World) {X : ℕ}
    (hn : 1 ≤ s.maxBackupsCount) (hX : 2 ≤ X) :
    (s.rotate flt w).disk.read (family s.fileName X) =
      (shiftUp flt s (lastExistingBackupIndex flt s w) w).disk.read (family s.fileName X) := by
  rw [rotate, if_neg (by omega), renameCurrent]
  refine (sameOutside_moveOnto flt _ _ _ _ _).read ?_
  rintro (h | h)
  · exact family_ne (i := X) (j := 0) (by omega) h
  · exact family_ne (i := X) (j := 1) (by omega) h

/-- FRAME: a rotation touches the family of the strategy's file name, whatever fails. -/
theorem sameOutside_rotate (flt : Faults) (s : SizeRotationStrategy) (w : World) :
    SameOutside (fun q => ∃ j, q = family s.fileName j) w.disk (s.rotate flt w).disk := by
  rw [rotate]
  by_cases hn : s.maxBackupsCount = 0
  · have hrm : SameOutside (fun q => ∃ j, q = family s.fileName j) w.disk
        (removeFileAtPath flt s.fileName w).2.disk :=
      (sameOutside_removeFileAtPath flt s.fileName w).mono fun _ hq => ⟨0, hq⟩
    rw [if_pos hn]
    simp only
    split_ifs
    · exact hrm
    · exact hrm
  · rw [if_neg hn, renameCurrent]
    refine ((sameOutside_shiftUp flt s (lastExistingBackupIndex flt s w) w).mono ?_).trans ?_
    · rintro q ⟨j, -, -, rfl⟩
      exact ⟨j, rfl⟩
    · refine (sameOutside_moveOnto flt _ _ _ _ _).mono ?_
      rintro q (rfl | rfl)
      · exact ⟨0, rfl⟩
      · exact ⟨1, rfl⟩

end GtLogging.Rotation
