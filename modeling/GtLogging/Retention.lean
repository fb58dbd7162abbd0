import GtLogging.FileDestination
import GtLogging.Lib.Journal

/-! @src src/gt_logdestfile.cpp | layer:refinement,result | what a rotating log keeps

    With no call failing, a rotating log implements a bounded journal: the current file holds the
    lines of the current generation, `path.i` those of the i-th newest kept generation. `Tracks` is
    the simulation relation; `tracks_exec` shows that a write is an append, after a rotation of the
    journal whenever the strategy asks for one, and that the setters leave the journal alone.
    Retention and chronology of whole runs are then facts about journals. -/

namespace GtLogging.FileLog
open Rotation SizeRotationStrategy
open scoped List

/-- SIMULATION: the family holds the slots of the journal, and the log is live. -/
structure Tracks (path : Str) (s : SizeRotationStrategy) (j : Journal Str) (log : FileLog) :
    Prop where
  live : Live path s (lines j.current) log
  slots : ∀ i, log.file path i = (j.slot i).map lines

/-- What an operation does to the journal, the strategy deciding about the rotation. -/
def journalStep (s : SizeRotationStrategy) (j : Journal Str) : FileOp → Journal Str
  | .write m => (if s.shouldRotate then j.rotate s.maxBackupsCount else j).append m
  | _ => j

/-- What an operation does to the backup count. -/
def countStep (n : ℕ) : FileOp → ℕ
  | .setBackupCount k => min k MAX_BACKUP_COUNT
  | _ => n

variable {path : Str} {s : SizeRotationStrategy} {j : Journal Str} {log : FileLog}

theorem tracks_construct {w : World} (hempty : ∀ i, w.disk.read (family path i) = none)
    (s : SizeRotationStrategy) :
    Tracks path { s with fileName := path, currentFileSizeInBytes := 0 } {}
      (construct Faults.none path (.size s) w) := by
  have hl := live_construct Faults.none path rfl s w
  have hout := sameOutside_construct Faults.none path (.size s) w
  refine ⟨hl, fun i => ?_⟩
  cases i with
  | zero => exact hl.content
  | succ i =>
    rw [file, hout.read (family_ne (i := i + 1) (j := 0) (by omega)), hempty]
    simp

/-- A write that does not rotate. -/
theorem tracks_append (m : Str) (h : Tracks path s j log) (hr : s.shouldRotate = false) :
    Tracks path (s.appendMessageSize (m.length + 1)) (j.append m) (log.write Faults.none m) := by
  obtain ⟨hl, hout⟩ := live_write_append Faults.none m h.live hr
  have hcur : lines j.current ++ line m = lines (j.append m).current := by simp [Journal.append]
  rw [hcur] at hl
  refine ⟨hl, fun i => ?_⟩
  cases i with
  | zero => exact hl.content
  | succ i =>
    rw [file, hout.read (family_ne (i := i + 1) (j := 0) (by omega)), Journal.slot_append_succ]
    exact h.slots (i + 1)

/-- A write that rotates first. -/
theorem tracks_rotate (m : Str) (h : Tracks path s j log) (hr : s.shouldRotate = true) :
    Tracks path ({ s with currentFileSizeInBytes := 0 }.appendMessageSize (m.length + 1))
      ((j.rotate s.maxBackupsCount).append m) (log.write Faults.none m) := by
  obtain ⟨hl, hout⟩ := live_write_rotate Faults.none m h.live.toAttached hr rfl
  obtain ⟨-, hbak, -⟩ := rotate_shift Faults.none (w := log.world) h.live.name
    (fun _ => rfl) (fun _ => rfl) (fun _ _ => rfl)
  have hcur : line m = lines ((j.rotate s.maxBackupsCount).append m).current := by
    simp [Journal.append, Journal.rotate]
  rw [leftover_measured rfl, List.nil_append, hcur] at hl
  refine ⟨hl, fun i => ?_⟩
  cases i with
  | zero => exact hl.content
  | succ i =>
    rw [file, hout.read (family_ne (i := i + 1) (j := 0) (by omega)), hbak,
      Journal.slot_append_succ, Journal.slot_rotate]
    split_ifs
    · exact h.slots i
    · exact h.slots (i + 1)

/-- What an operation does to the strategy of an undisturbed log. -/
def nextStrategy (s : SizeRotationStrategy) : FileOp → SizeRotationStrategy
  | .write m =>
    (if s.shouldRotate then { s with currentFileSizeInBytes := 0 } else s).appendMessageSize
      (m.length + 1)
  | .setBackupCount k => s.setBackupCount k
  | .setMaximumSizeInBytes size => s.setMaximumSizeInBytes size

theorem maxBackupsCount_nextStrategy (s : SizeRotationStrategy) (op : FileOp) :
    (nextStrategy s op).maxBackupsCount = countStep s.maxBackupsCount op := by
  cases op with
  | write m => rw [nextStrategy]; split_ifs <;> rfl
  | setBackupCount k => rfl
  | setMaximumSizeInBytes size => rfl

/-- STEP: every operation of the log is its operation on the journal and on the strategy. -/
theorem tracks_next (op : FileOp) (h : Tracks path s j log) :
    Tracks path (nextStrategy s op) (journalStep s j op) (op.exec Faults.none log) := by
  cases op with
  | write m =>
    rw [nextStrategy, journalStep]
    cases hr : s.shouldRotate with
    | false => exact tracks_append m h hr
    | true => exact tracks_rotate m h hr
  | setBackupCount k =>
    obtain ⟨⟨⟨hrot, hname, hpath⟩, hst, hc⟩, hslots⟩ := h
    rw [FileOp.exec, mapSize, hrot]
    exact ⟨⟨⟨rfl, hname, hpath⟩, hst, hc⟩, hslots⟩
  | setMaximumSizeInBytes size =>
    obtain ⟨⟨⟨hrot, hname, hpath⟩, hst, hc⟩, hslots⟩ := h
    rw [FileOp.exec, mapSize, hrot]
    exact ⟨⟨⟨rfl, hname, hpath⟩, hst, hc⟩, hslots⟩

theorem tracks_exec (op : FileOp) (h : Tracks path s j log) :
    ∃ s', s'.maxBackupsCount = countStep s.maxBackupsCount op ∧
      Tracks path s' (journalStep s j op) (op.exec Faults.none log) :=
  ⟨nextStrategy s op, maxBackupsCount_nextStrategy s op, tracks_next op h⟩

/-! ### Reading the family -/

/-- The backups in order of decreasing index, then the current file. -/
def readAll (path : Str) (k : ℕ) (log : FileLog) : Str :=
  (List.range (k + 1)).reverse.flatMap fun i => (log.file path i).getD []

theorem readAll_of_tracks (h : Tracks path s j log) :
    readAll path j.backups.length log = lines j.chronicle := by
  have hmap : (List.range (j.backups.length + 1)).map (fun i => (log.file path i).getD []) =
      (j.current :: j.backups).map lines := by
    refine List.ext_getElem (by simp) fun i h₁ h₂ => ?_
    rw [List.length_map] at h₂
    rw [List.getElem_map, List.getElem_map, List.getElem_range, h.slots, Journal.slot,
      List.getElem?_eq_getElem h₂]
    rfl
  rw [readAll, List.flatMap_def, List.map_reverse, hmap, Journal.chronicle, lines_append,
    lines_flatten]
  simp

/-! ### Chronology -/

/-- The log holds a subsequence of what was written, with the last message, in consecutive files. -/
structure Chronological (path : Str) (written : List Str) (log : FileLog) : Prop where
  kept : ∃ k kept, (∀ i, (log.file path i).isSome ↔ i ≤ k) ∧ readAll path k log = lines kept ∧
    kept <+ written ∧ kept.getLast? = written.getLast?

/-- Run invariant: the journal behind the log is a subsequence of `seen` and ends like it. -/
def Keeps (path : Str) (seen : List Str) (log : FileLog) : Prop :=
  ∃ s j, Tracks path s j log ∧ j.chronicle <+ seen ∧ j.chronicle.getLast? = seen.getLast?

theorem keeps_exec {seen : List Str} (op : FileOp) (h : Keeps path seen log) :
    Keeps path (seen ++ FileOp.written [op]) (op.exec Faults.none log) := by
  obtain ⟨s, j, ht, hsub, hlast⟩ := h
  obtain ⟨s', -, ht'⟩ := tracks_exec op ht
  refine ⟨s', _, ht', ?_⟩
  cases op with
  | write m =>
    have hrot : (if s.shouldRotate then j.rotate s.maxBackupsCount else j).chronicle <+ seen := by
      split_ifs
      · exact (Journal.chronicle_rotate _ j).trans hsub
      · exact hsub
    simp only [journalStep, Journal.chronicle_append, FileOp.written, List.filterMap_cons,
      List.filterMap_nil, List.getLast?_append, List.getLast?_singleton]
    exact ⟨hrot.append (List.Sublist.refl _), rfl⟩
  | setBackupCount k => simpa [journalStep, FileOp.written] using ⟨hsub, hlast⟩
  | setMaximumSizeInBytes size => simpa [journalStep, FileOp.written] using ⟨hsub, hlast⟩

theorem keeps_run (ops : List FileOp) (seen : List Str) (log : FileLog) (h : Keeps path seen log) :
    Keeps path (seen ++ FileOp.written ops) (FileOp.run Faults.none ops log) := by
  induction ops generalizing seen log with
  | nil => simpa [FileOp.written, FileOp.run] using h
  | cons op ops ih =>
    have hrec := ih _ _ (keeps_exec op h)
    rw [List.append_assoc] at hrec
    rwa [FileOp.written_cons]

theorem chronological_of_keeps {seen : List Str} (h : Keeps path seen log) :
    Chronological path seen log := by
  obtain ⟨s, j, ht, hsub, hlast⟩ := h
  refine ⟨j.backups.length, j.chronicle, fun i => ?_, readAll_of_tracks ht, hsub, hlast⟩
  rw [ht.slots, Option.isSome_map]
  exact j.isSome_slot i

/-! ### The window under a constant count -/

/-- The generations of a run: the messages between two rotations, the past ones newest first. -/
structure Generations where
  past : List (List Str) := []
  current : List Str := []

def Generations.next (rotates : Bool) (g : Generations) : FileOp → Generations
  | .write m => if rotates then ⟨g.current :: g.past, [m]⟩ else ⟨g.past, g.current ++ [m]⟩
  | _ => g

/-- Follow the run of the code, closing a generation wherever a write rotates. -/
def generations : List FileOp → FileLog → Generations → Generations
  | [], _, g => g
  | op :: ops, log, g =>
    generations ops (op.exec Faults.none log) (g.next log.rot.shouldRotate op)

/-- The log holds exactly the current generation and the newest `n` past ones, a contiguous suffix
    of everything written. -/
structure WindowKept (path : Str) (n : ℕ) (g : Generations) (written : List Str) (log : FileLog) :
    Prop where
  all : written = g.past.reverse.flatten ++ g.current
  current : log.file path 0 = some (lines g.current)
  backups : ∀ i, log.file path (i + 1) = ((g.past.take n)[i]?).map lines
  suffix : (g.past.take n).reverse.flatten ++ g.current <:+ written
  reads : readAll path (min n g.past.length) log =
    lines ((g.past.take n).reverse.flatten ++ g.current)

/-- Run invariant: the journal is the window of the generations so far. -/
def KeepsWindow (path : Str) (n : ℕ) (g : Generations) (seen : List Str) (log : FileLog) : Prop :=
  ∃ s j, Tracks path s j log ∧ s.maxBackupsCount = n ∧ j.current = g.current ∧
    j.backups = g.past.take n ∧ seen = g.past.reverse.flatten ++ g.current

theorem keepsWindow_exec {n : ℕ} {g : Generations} {seen : List Str} (op : FileOp)
    (hop : countStep n op = n) (h : KeepsWindow path n g seen log) :
    KeepsWindow path n (g.next log.rot.shouldRotate op) (seen ++ FileOp.written [op])
      (op.exec Faults.none log) := by
  obtain ⟨s, j, ht, hn, hcur, hbak, hseen⟩ := h
  obtain ⟨s', hs', ht'⟩ := tracks_exec op ht
  refine ⟨s', _, ht', by rw [hs', hn, hop], ?_⟩
  have hrot : log.rot.shouldRotate = s.shouldRotate := by rw [ht.live.rot]; rfl
  cases op with
  | write m =>
    simp only [journalStep, Generations.next, hrot, FileOp.written, List.filterMap_cons,
      List.filterMap_nil, hn, hseen]
    split_ifs
    · refine ⟨rfl, ?_, by simp⟩
      rw [← hcur]
      exact Journal.backups_rotate hbak
    · exact ⟨by rw [Journal.append, hcur], hbak, by simp⟩
  | setBackupCount k =>
    simpa [journalStep, Generations.next, FileOp.written] using ⟨hcur, hbak, hseen⟩
  | setMaximumSizeInBytes size =>
    simpa [journalStep, Generations.next, FileOp.written] using ⟨hcur, hbak, hseen⟩

theorem keepsWindow_run {n : ℕ} (ops : List FileOp) (g : Generations) (seen : List Str)
    (log : FileLog) (hops : ∀ op ∈ ops, countStep n op = n) (h : KeepsWindow path n g seen log) :
    KeepsWindow path n (generations ops log g) (seen ++ FileOp.written ops)
      (FileOp.run Faults.none ops log) := by
  induction ops generalizing g seen log with
  | nil => simpa [FileOp.written, FileOp.run, generations] using h
  | cons op ops ih =>
    have hstep := keepsWindow_exec op (hops op List.mem_cons_self) h
    have hrec := ih _ _ _ (fun o ho => hops o (List.mem_cons_of_mem _ ho)) hstep
    rw [List.append_assoc] at hrec
    rwa [FileOp.written_cons]

theorem windowKept_of_keepsWindow {n : ℕ} {g : Generations} {seen : List Str}
    (h : KeepsWindow path n g seen log) : WindowKept path n g seen log := by
  obtain ⟨s, j, ht, -, hcur, hbak, hseen⟩ := h
  refine ⟨hseen, ?_, fun i => ?_, ?_, ?_⟩
  · rw [ht.slots, Journal.slot_zero, hcur]; rfl
  · rw [ht.slots, Journal.slot_succ, hbak]
  · refine ⟨(g.past.drop n).reverse.flatten, ?_⟩
    rw [hseen, ← List.append_assoc, ← List.flatten_append, ← List.reverse_append,
      List.take_append_drop]
  · have hr := readAll_of_tracks ht
    rwa [Journal.chronicle, hcur, hbak, List.length_take] at hr

/-- RETENTION: a run of writes and setter calls on a fresh rotating log keeps a subsequence of the
    written messages, in order and ending with the last one, in consecutive files; while the backup
    count stays the same it keeps exactly the newest generations. -/
theorem retention (path : Str) (w : World) (maxFileSize : UInt64) (maxBackups : ℕ)
    (hempty : ∀ i, w.disk.read (family path i) = none) (ops : List FileOp) :
    Chronological path (FileOp.written ops)
      (FileOp.run Faults.none ops
        (construct Faults.none path (.size (.new maxFileSize maxBackups)) w)) ∧
    ((∀ k, FileOp.setBackupCount k ∈ ops → min k MAX_BACKUP_COUNT = maxBackups) →
      WindowKept path maxBackups
        (generations ops (construct Faults.none path (.size (.new maxFileSize maxBackups)) w) {})
        (FileOp.written ops)
        (FileOp.run Faults.none ops
          (construct Faults.none path (.size (.new maxFileSize maxBackups)) w))) := by
  have ht := tracks_construct hempty (.new maxFileSize maxBackups)
  constructor
  · have h₀ : Keeps path [] (construct Faults.none path (.size (.new maxFileSize maxBackups)) w) :=
      ⟨_, _, ht, List.Sublist.refl _, rfl⟩
    exact chronological_of_keeps (keeps_run ops [] _ h₀)
  · intro hcount
    have h₀ : KeepsWindow path maxBackups {} []
        (construct Faults.none path (.size (.new maxFileSize maxBackups)) w) :=
      ⟨_, _, ht, rfl, rfl, by simp, rfl⟩
    refine windowKept_of_keepsWindow (keepsWindow_run ops {} [] _ ?_ h₀)
    intro op hop
    cases op with
    | setBackupCount k => exact hcount k hop
    | write m => rfl
    | setMaximumSizeInBytes size => rfl

/-- One backup, a limit of two bytes: each message is a generation of its own. -/
theorem retention_three_messages :
    (∀ i, ({} : World).disk.read (family "log".toList i) = none) ∧
    WindowKept "log".toList 1
      (generations [.write ['a'], .write ['b'], .setBackupCount 1, .write ['c']]
        (construct Faults.none "log".toList (.size (.new 2 1)) {}) {})
      [['a'], ['b'], ['c']]
      (FileOp.run Faults.none [.write ['a'], .write ['b'], .setBackupCount 1, .write ['c']]
        (construct Faults.none "log".toList (.size (.new 2 1)) {})) :=
  ⟨fun _ => rfl, (retention "log".toList {} 2 1 (fun _ => rfl) _).2 (by simp [MAX_BACKUP_COUNT])⟩

end GtLogging.FileLog
