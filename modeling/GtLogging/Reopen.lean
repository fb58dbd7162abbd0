import GtLogging.RotateFaults

/-! @src src/gt_logdestfile.cpp | layer:result | writes at the limit when something fails

    Two laws about a write that rotates. If the rotation cannot move the current file, the file is
    reopened for append, but the measuring stream of `setFileInfo` then opens it without `app`: the
    old log survives only where the rename went through, or where that second open fails (or there
    was nothing to lose). If the file cannot be reopened, the early return keeps the tracked size at
    the limit, so every further write shifts the backups again. -/

namespace GtLogging.FileLog
open Rotation SizeRotationStrategy

variable {flt : Faults} {path : Str} {s : SizeRotationStrategy} {log : FileLog}

/-- The previous content of the current file is found as `path.1`, or in front of the message. -/
def KeepsPrevious (flt : Faults) (path prev m : Str) (log : FileLog) : Prop :=
  (log.write flt m).file path 1 = some prev ∨ (log.write flt m).file path 0 = some (prev ++ line m)

/-- EXACT: a rotating write keeps the previous content iff the current file is not blocked (the
    rename to `path.1` goes through), or it was empty, or the second open of the current file fails,
    or `path.1` cannot be cleared and happens to hold the same bytes. -/
theorem keepsPrevious_iff {prev : Str} (m : Str) (ha : Attached path s log)
    (hn : 1 ≤ s.maxBackupsCount) (hr : s.shouldRotate = true) (hf : flt.openFails path = false)
    (hprobe : ∀ p, flt.probeFails p = false) (hc : log.file path 0 = some prev) :
    KeepsPrevious flt path prev m log ↔
      blocked flt path s.maxBackupsCount log.world.disk 0 = false ∨ prev = [] ∨
      flt.measureFails path = true ∨
      (blocked flt path s.maxBackupsCount log.world.disk 1 = true ∧
        flt.removeFails (family path 1) = true ∧ log.file path 1 = some prev) := by
  obtain ⟨hl, hout⟩ := live_write_rotate flt m ha hr hf
  have hspec := (rotate_spec flt (w := log.world) ha.name rfl hn hprobe).1
  have h0 : (log.write flt m).file path 0 =
      some (leftover flt path (s.rotate flt log.world).disk ++ line m) := hl.content
  have h1 : (log.write flt m).file path 1 =
      afterRotate flt path s.maxBackupsCount log.world.disk 1 := by
    rw [file, hout.read (family_ne (i := 1) (j := 0) (by omega))]
    exact hspec 1 hn
  have hempty : ([] ++ line m = prev ++ line m) ↔ prev = [] := by
    rw [List.append_cancel_right_eq, eq_comm]
  change log.world.disk.read (family path 0) = some prev at hc
  rw [KeepsPrevious, h0, h1, Option.some.injEq]
  cases hb : blocked flt path s.maxBackupsCount log.world.disk 0 with
  | false => exact iff_of_true (Or.inl (afterRotate_of_not_blocked hn hc hb)) (Or.inl rfl)
  | true =>
    have hleft : (s.rotate flt log.world).disk.read path = some prev := by
      rw [show path = family path 0 from rfl, hspec 0 (by omega), afterRotate, if_pos hb, hc]
    cases hm : flt.measureFails path with
    | true => exact iff_of_true (Or.inr (by rw [leftover, if_pos hm, hleft]; rfl)) (by simp)
    | false =>
      -- the current file stays and is truncated; `path.1` is as it was, or the rename failed
      rw [leftover_measured hm, hempty]
      rw [blocked_of_lt hn, Bool.and_eq_true, Bool.or_eq_true, Bool.and_eq_true] at hb
      by_cases hst : blocked flt path s.maxBackupsCount log.world.disk 1 = true ∧
          flt.removeFails (family path 1) = true
      · rw [afterRotate_of_stuck hst.1 fun _ => hst.2]
        simp [hst.1, hst.2, file, or_comm]
      · have hmv : flt.renameFails (family path 0) (family path 1) = true :=
          hb.2.resolve_left hst
        have hclear : (blocked flt path s.maxBackupsCount log.world.disk (0 + 1) &&
            flt.removeFails (family path (0 + 1))) = false := by
          rw [← Bool.not_eq_true, Bool.and_eq_true]; exact hst
        have hthird : ¬ (blocked flt path s.maxBackupsCount log.world.disk 1 = true ∧
            flt.removeFails (family path 1) = true ∧ log.file path 1 = some prev) :=
          fun h => hst ⟨h.1, h.2.1⟩
        rw [afterRotate, if_neg (by simp [hclear]), if_pos hmv]
        simp [hthird]

/-! ### A concrete full log -/

/-- A log on `"log"` with one backup and a limit of four bytes, after the message `"old"`. -/
def fullLog : FileLog :=
  (construct Faults.none "log".toList (.size (.new 4 1)) {}).write Faults.none "old".toList

/-- The removal of `log.2` fails, so `log.1` cannot move up and makes room for the current file. -/
theorem keepsPrevious_backup_stuck :
    KeepsPrevious { removeFails := fun p => p = "log.2".toList } "log".toList "old\n".toList
      "new".toList
      ((construct Faults.none "log".toList (.size (.new 4 2)) threeFiles).write Faults.none
        "old".toList) :=
  (keepsPrevious_iff "new".toList
    (s := { fileName := "log".toList, currentFileSizeInBytes := 4, maxFileSizeInBytes := 4
            maxBackupsCount := 2 })
    ⟨rfl, rfl, rfl⟩ (by decide) (by decide) rfl (fun _ => rfl) (by decide)).mpr
    (Or.inl (by decide))

/-- COUNTEREXAMPLE: the rename of the current file fails, and reopening it destroys it. -/
theorem failed_rename_destroys_log :
    ¬ KeepsPrevious { renameFails := fun _ _ => true } "log".toList "old\n".toList "new".toList
      fullLog := by
  rw [KeepsPrevious]
  decide

/-! ### A file that cannot be reopened -/

/-- The family after `r` rotations in which no current file came back. -/
def shiftedBy (path : Str) (n r : ℕ) (log : FileLog) (j : ℕ) : Option Str :=
  if j ≤ n then (if r ≤ j then log.file path (j - r) else none) else log.file path j

/-- STEP: every write that cannot reopen the file shifts the family once more. -/
theorem shiftedBy_write {log₀ : FileLog} {r : ℕ} (m : Str) (ha : Attached path s log)
    (hr : s.shouldRotate = true) (hopen : flt.openFails path = true)
    (hprobe : ∀ p, flt.probeFails p = false) (hrm : ∀ p, flt.removeFails p = false)
    (hmv : ∀ p q, flt.renameFails p q = false)
    (h : ∀ j, log.file path j = shiftedBy path s.maxBackupsCount r log₀ j) :
    Attached path s (log.write flt m) ∧
    ∀ j, (log.write flt m).file path j = shiftedBy path s.maxBackupsCount (r + 1) log₀ j := by
  obtain ⟨ha', hd⟩ := write_unopened m ha hr hopen
  obtain ⟨hcur, hbak, -⟩ := rotate_shift flt (w := log.world) ha.name hprobe hrm hmv
  refine ⟨ha', fun j => ?_⟩
  rw [file, hd]
  cases j with
  | zero => rw [hcur]; simp [shiftedBy]
  | succ j =>
    rw [hbak]
    have hj := h j
    have hj' := h (j + 1)
    rw [file] at hj hj'
    rw [hj, hj']
    simp only [shiftedBy]
    split_ifs <;> first | rfl | omega | (congr 1; omega)

/-- RUN: after `m :: ms` writes the family is shifted by their number. -/
theorem shiftedBy_writeAll (hr : s.shouldRotate = true) (hopen : flt.openFails path = true)
    (hprobe : ∀ p, flt.probeFails p = false) (hrm : ∀ p, flt.removeFails p = false)
    (hmv : ∀ p q, flt.renameFails p q = false)
    (log₀ : FileLog) (ms : List Str) (r : ℕ) (log : FileLog) (ha : Attached path s log)
    (h : ∀ j, log.file path j = shiftedBy path s.maxBackupsCount r log₀ j) :
    ∀ j, (writeAll flt ms log).file path j =
      shiftedBy path s.maxBackupsCount (r + ms.length) log₀ j := by
  induction ms generalizing r log with
  | nil => exact h
  | cons m ms ih =>
    obtain ⟨ha', h'⟩ := shiftedBy_write m ha hr hopen hprobe hrm hmv h
    have hrec := ih (r + 1) _ ha' h'
    simpa [writeAll, Nat.add_comm, Nat.add_left_comm] using hrec

/-- Shifting twice or more agrees with shifting once only on an empty range. -/
theorem shiftedBy_eq_one_iff {n r : ℕ} (hr : 2 ≤ r) :
    (∀ j, shiftedBy path n r log j = shiftedBy path n 1 log j) ↔
      ∀ j < n, log.file path j = none := by
  constructor
  · intro h j
    induction j using Nat.strong_induction_on with
    | _ j ih =>
      intro hj
      have hj1 := h (j + 1)
      simp only [shiftedBy, if_pos (Nat.succ_le_of_lt hj)] at hj1
      rw [if_pos (show 1 ≤ j + 1 by omega), Nat.add_sub_cancel] at hj1
      rw [← hj1]
      split_ifs with hle
      · exact ih _ (by omega) (by omega)
      · rfl
  · intro h j
    simp only [shiftedBy]
    split_ifs <;> first | rfl | omega | rw [h _ (by omega)]
    all_goals rw [h _ (by omega)]

/-- EXACT: while the file cannot be reopened, the family after all of the writes is the family
    after the first iff there was one write only, or neither a current file nor a backup below the
    count. -/
theorem unopened_writes_keep_family_iff (m : Str) (ms : List Str) (ha : Attached path s log)
    (hr : s.shouldRotate = true) (hopen : flt.openFails path = true)
    (hprobe : ∀ p, flt.probeFails p = false) (hrm : ∀ p, flt.removeFails p = false)
    (hmv : ∀ p q, flt.renameFails p q = false) :
    (∀ j, (writeAll flt (m :: ms) log).file path j = (writeAll flt [m] log).file path j) ↔
      ms = [] ∨ ∀ j < s.maxBackupsCount, log.file path j = none := by
  have h0 : ∀ j, log.file path j = shiftedBy path s.maxBackupsCount 0 log j := by
    intro j; simp [shiftedBy]
  have hall := shiftedBy_writeAll hr hopen hprobe hrm hmv log (m :: ms) 0 log ha h0
  have hone := shiftedBy_writeAll hr hopen hprobe hrm hmv log [m] 0 log ha h0
  cases ms with
  | nil => simp
  | cons m' ms =>
    simp only [hall, hone, reduceCtorEq, false_or, List.length_cons, List.length_nil, Nat.zero_add]
    exact shiftedBy_eq_one_iff (by omega)

/-- Only opening for writing fails. -/
def openRefused : Faults := { openFails := fun _ => true, measureFails := fun _ => true }

/-- A log without a limit whose file could not even be created. -/
def unopenedLog : FileLog := construct openRefused "log".toList (.size (.new 0 1)) {}

/-- With nothing to lose, two failing writes leave what one leaves. -/
theorem unopened_writes_keep_empty_family :
    openRefused.openFails "log".toList = true ∧
      ∀ j, (writeAll openRefused ["a".toList, "b".toList] unopenedLog).file "log".toList j =
        (writeAll openRefused ["a".toList] unopenedLog).file "log".toList j :=
  ⟨rfl, (unopened_writes_keep_family_iff "a".toList ["b".toList]
    (s := { fileName := "log".toList, maxBackupsCount := 1 }) ⟨rfl, rfl, rfl⟩ (by decide) rfl
    (fun _ => rfl) (fun _ => rfl) (fun _ _ => rfl)).mpr (Or.inr fun _ _ => rfl)⟩

/-- COUNTEREXAMPLE: the first failing write moves the log to `log.1`, the second deletes it. -/
theorem second_unopened_write_loses_log :
    ¬ ∀ j, (writeAll openRefused ["a".toList, "b".toList] fullLog).file "log".toList j =
      (writeAll openRefused ["a".toList] fullLog).file "log".toList j := by
  intro h
  have h1 := h 1
  revert h1
  decide

end GtLogging.FileLog
