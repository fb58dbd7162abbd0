import GtLogging.SystemLogs
import GtLogging.SizeAccounting

/-! @src src/gt_logdestfile.cpp, src/gt_logging.cpp | layer:result | the disk space of the logs

    A rotating log under one limit and one backup count keeps at most one file more than backups,
    and every file stops growing with the message that takes it to the limit. So in a running
    logger every rotating log has a budget, whatever is logged by whom and for how long. -/

namespace GtLogging
open Rotation StepMachine SizeRotationStrategy

namespace FileLog

/-- RUN INVARIANT: the strategy has counted the current generation, there are no more backups than
    allowed, and no file is larger than the limit and one line allow. -/
structure Budgeted (limit : UInt64) (n longest : ℕ) (seen : List Str) (s : SizeRotationStrategy)
    (j : Journal Str) : Prop where
  count : s.maxBackupsCount = n
  inForce : s.maxFileSizeInBytes = limit
  counted : s.currentFileSizeInBytes.toNat = (lines j.current).length
  within : (lines j.current).length ≤ (lines seen).length
  current : (lines j.current).length ≤ limit.toNat - 1 + longest
  backups : ∀ b ∈ j.backups, (lines b).length ≤ limit.toNat - 1 + longest
  few : j.backups.length ≤ n

variable {limit : UInt64} {n longest : ℕ} {seen : List Str} {s : SizeRotationStrategy}
  {j : Journal Str}

theorem length_lines_concat (ms : List Str) (m : Str) :
    (lines (ms ++ [m])).length = (lines ms).length + (m.length + 1) := by
  rw [lines_append, List.length_append, lines_singleton, length_line]

theorem mem_backups_rotate {b : List Str} (h : b ∈ (j.rotate n).backups) :
    b = j.current ∨ b ∈ j.backups := by
  rw [Journal.rotate] at h
  split_ifs at h
  · exact Or.inr h
  · rcases List.mem_cons.mp h with rfl | h
    · exact Or.inl rfl
    · rcases List.mem_append.mp h with h | h
      · exact Or.inr (List.mem_of_mem_take h)
      · exact Or.inr (List.mem_of_mem_drop h)

/-- STEP: a line that is not longer than the longest keeps the budget. -/
theorem budgeted_write {m : Str} (hm : (line m).length ≤ longest)
    (htotal : (lines (seen ++ [m])).length < 2 ^ 64) (h : Budgeted limit n longest seen s j) :
    Budgeted limit n longest (seen ++ [m]) (nextStrategy s (.write m))
      (journalStep s j (.write m)) := by
  rw [length_line] at hm
  rw [length_lines_concat] at htotal
  have hwithin := h.within
  have hrotates : s.shouldRotate = true ↔ limit.toNat ≤ (lines j.current).length := by
    rw [shouldRotate, decide_eq_true_eq, h.inForce, ge_iff_le, UInt64.le_iff_toNat_le, h.counted]
  rw [nextStrategy, journalStep]
  by_cases hr : s.shouldRotate = true
  · -- a new file with this line
    have hcur : (lines ((j.rotate s.maxBackupsCount).append m).current).length = m.length + 1 := by
      simp [Journal.append, Journal.rotate, length_line]
    have hfits : ({ s with currentFileSizeInBytes := 0 } :
        SizeRotationStrategy).currentFileSizeInBytes.toNat + (m.length + 1) < 2 ^ 64 := by
      simp only [UInt64.toNat_zero]
      omega
    rw [if_pos hr, if_pos hr]
    refine ⟨h.count, h.inForce, ?_, ?_, ?_, fun b hb => ?_, ?_⟩
    · rw [toNat_appendMessageSize hfits, hcur]
      simp
    · rw [hcur, length_lines_concat]
      omega
    · rw [hcur]
      omega
    · rcases mem_backups_rotate hb with rfl | hb
      · exact h.current
      · exact h.backups b hb
    · have hlen := length_backups_rotate n j
      have hfew := h.few
      rw [h.count]
      split_ifs at hlen <;> exact hlen.le.trans (by omega)
  · -- the current file was below the limit
    have hlt : (lines j.current).length < limit.toNat := Nat.lt_of_not_le (mt hrotates.mpr hr)
    have hcur : (lines (j.append m).current).length = (lines j.current).length + (m.length + 1) :=
      length_lines_concat j.current m
    rw [if_neg hr, if_neg hr]
    refine ⟨h.count, h.inForce, ?_, ?_, ?_, h.backups, h.few⟩
    · rw [toNat_appendMessageSize (by rw [h.counted]; omega), h.counted, hcur]
    · rw [hcur, length_lines_concat]
      omega
    · rw [hcur]
      omega

/-- RUN: every sequence of such lines stays within the budget. -/
theorem budgeted_ledger (path : Str) (limit : UInt64) (n : ℕ) (ms : List Str)
    (hms : ∀ m ∈ ms, (line m).length ≤ longest) (htotal : (lines ms).length < 2 ^ 64) :
    Budgeted limit n longest ms (ledger path (.new limit n) ms).1
      (ledger path (.new limit n) ms).2 := by
  induction ms using List.reverseRecOn with
  | nil => exact ⟨rfl, rfl, rfl, le_rfl, Nat.zero_le _, by rintro b ⟨⟩, Nat.zero_le _⟩
  | append_singleton ms m ih =>
    have hbefore : (lines ms).length < 2 ^ 64 := by
      rw [length_lines_concat] at htotal
      omega
    rw [ledger_concat]
    exact budgeted_write (hms m (by simp)) htotal
      (ih (fun m' hm' => hms m' (List.mem_append_left _ hm')) hbefore)

end FileLog

/-- The size of a file, none if it does not exist. -/
def fileSize (d : Disk Str Char) (q : Str) : ℕ := ((d.read q).getD []).length

namespace System
open Outputs FileLog

variable {T D H : Type*} [DecidableEq T] [DecidableEq D] [DecidableEq H]

/-- BUDGET: in every interleaving of any threads without failures, a rotating log with limit `limit`
    and `n` backups that started on an empty family has no backup above `n`, and its files take
    together no more than `n + 1` times one byte less than the limit and its longest line; the
    limit 0, under which every message starts a file, counts as 1. -/
theorem disk_budget (hasher : Str → H) (verbosity : ℤ) (host : Host) (es : List (SysEv T D))
    (sys : System T D H)
    (hok : Guarded (step hasher) (Lawful (· = Faults.none) Outputs.Fits) (init verbosity host) es)
    (hrun : run (step hasher) (init verbosity host) es = some sys)
    (o : D) (path : Str) (limit : UInt64) (n longest : ℕ) (formatted : FormattedDestination)
    (sink : Sink)
    (hobj : sys.outputs.objects o = some (.file path (.size (.new limit n)) formatted, sink))
    (hempty : ∀ i, host.disk.read (family path i) = none)
    (hlongest : ∀ m ∈ sys.accepted o formatted, (line m).length ≤ longest)
    (htotal : (lines (sys.accepted o formatted)).length < 2 ^ 64) :
    (∀ i, n < i → sys.outputs.host.disk.read (family path i) = none) ∧
      ∑ i ∈ Finset.range (n + 1), fileSize sys.outputs.host.disk (family path i) ≤
        (n + 1) * (max limit.toNat 1 - 1 + longest) := by
  have hfiles : ∀ i, sys.outputs.host.disk.read (family path i) =
      ((ledger path (.new limit n) (sys.accepted o formatted)).2.slot i).map lines :=
    holdsExactly_of_explained (explained_run (undisturbed host.disk) hok hrun) hobj hempty
  have hbudget := budgeted_ledger path limit n (sys.accepted o formatted) hlongest htotal
  refine ⟨fun i hi => ?_, ?_⟩
  · obtain ⟨k, rfl⟩ := Nat.exists_eq_add_of_le' (show 1 ≤ i by omega)
    have hfew := hbudget.few
    rw [hfiles, Journal.slot_succ, List.getElem?_eq_none (by omega)]
    rfl
  · have hfile : ∀ i ∈ Finset.range (n + 1),
        fileSize sys.outputs.host.disk (family path i) ≤ max limit.toNat 1 - 1 + longest := by
      intro i _
      have hmax : limit.toNat - 1 ≤ max limit.toNat 1 - 1 :=
        Nat.sub_le_sub_right (le_max_left _ _) 1
      refine le_trans ?_ (Nat.add_le_add_right hmax longest)
      rw [fileSize, hfiles]
      cases i with
      | zero => exact hbudget.current
      | succ i =>
        rw [Journal.slot_succ]
        cases hb : (ledger path (.new limit n) (sys.accepted o formatted)).2.backups[i]? with
        | none => exact Nat.zero_le _
        | some b => exact hbudget.backups b (List.mem_of_getElem? hb)
    have hsum := Finset.sum_le_card_nsmul _ _ _ hfile
    rwa [Finset.card_range, smul_eq_mul] at hsum

theorem disk_budget_one_log :
    ∃ sys : System ℕ ℕ UInt64, run (step fnv1a) (init 0 {}) (oneLogRun Faults.none) = some sys ∧
      (∀ i, 2 < i → sys.outputs.host.disk.read (family "log".toList i) = none) ∧
      ∑ i ∈ Finset.range 3, fileSize sys.outputs.host.disk (family "log".toList i) ≤ 3 * 28 := by
  obtain ⟨sys, sink, hrun, hobj, haccepted⟩ := exists_run_oneLogRun Faults.none
  refine ⟨sys, hrun, disk_budget fnv1a 0 {} (oneLogRun Faults.none) sys
    (guarded_oneLogRun {} rfl rfl) hrun 7 "log".toList 10 2 19 {} sink hobj (fun _ => rfl) ?_ ?_⟩
  · rw [haccepted]
    decide
  · rw [haccepted]
    decide

end System

end GtLogging
