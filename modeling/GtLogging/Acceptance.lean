import GtLogging.Endurance
import GtLogging.RotateFaults
import GtLogging.SizeAccounting
import GtLogging.BackupCap

/-! @src src/gt_logdestfile.h src/gt_logdestfile.cpp | layer:result | which messages reach the disk

    A message is lost for good when the stream is closed after its write. Whether it is depends on
    very little: the gauge below sees the sizes of the messages, the setter calls and which opens of
    the path fail, and follows stream and strategy exactly, whatever the disk holds and whichever
    removes and renames fail. A destination that could not open its file stays silent until the
    messages it dropped fill a file; then it rotates what is there and recovers. A destination with
    the null strategy opens once, and either keeps every line or never touches the disk. -/

namespace GtLogging.FileLog
open Rotation SizeRotationStrategy
open Disk (SameOutside)

variable {flt : Faults} {path : Str} {s : SizeRotationStrategy} {log : FileLog}

/-! ### The gauge -/

/-- Whether the stream is open, and the strategy. -/
structure Gauge where
  isOpen : Bool
  strategy : SizeRotationStrategy

namespace Gauge

/-- A construction opens the stream if it can, and counts from zero in either case. -/
def first (opens : Bool) (path : Str) (s : SizeRotationStrategy) : Gauge where
  isOpen := opens
  strategy := { s with fileName := path, currentFileSizeInBytes := 0 }

/-- Only a write at the limit opens: it settles whether the stream is open from then on. -/
def next (opens : Bool) (op : FileOp) (g : Gauge) : Gauge :=
  match op with
  | .write m =>
    if g.strategy.shouldRotate then
      if opens then { isOpen := true, strategy := nextStrategy g.strategy (.write m) }
      else { isOpen := false, strategy := g.strategy }
    else { g with strategy := nextStrategy g.strategy (.write m) }
  | op => { g with strategy := nextStrategy g.strategy op }

/-- Consecutive operations, each with the answer of an open in it. -/
def run (steps : List (Bool × FileOp)) (g : Gauge) : Gauge :=
  steps.foldl (fun g st => g.next st.1 st.2) g

theorem run_concat (steps : List (Bool × FileOp)) (st : Bool × FileOp) (g : Gauge) :
    run (steps ++ [st]) g = (run steps g).next st.1 st.2 := by
  rw [run, List.foldl_append]
  rfl

end Gauge

/-- What the gauge knows of a step. -/
def opening (path : Str) (st : Faults × FileOp) : Bool × FileOp :=
  (!st.1.openFails path, st.2)

/-- The gauge shows the state of the stream and the strategy. -/
structure Gauged (path : Str) (g : Gauge) (log : FileLog) : Prop
    extends Attached path g.strategy log where
  isOpen : log.isValid = g.isOpen

theorem gauged_construct (flt : Faults) (path : Str) (s : SizeRotationStrategy) (w : World) :
    Gauged path (.first (!flt.openFails path) path s) (construct flt path (.size s) w) := by
  refine ⟨attached_construct flt path s w, ?_⟩
  cases hf : flt.openFails path with
  | false => exact isValid_construct hf (.size s) w
  | true => simp [isValid, construct_size_closed hf s w, Gauge.first]

theorem isValid_put_eq (m : Str) (log : FileLog) : (log.put m).isValid = log.isValid := by
  rw [isValid, put, isValid]
  cases log.dest.fstream <;> rfl

/-- STEP: the gauge follows every operation, whichever removes, renames and opens fail. -/
theorem gauged_exec {g : Gauge} (st : Faults × FileOp) (hg : Gauged path g log) :
    Gauged path (g.next (opening path st).1 st.2) (st.2.exec st.1 log) := by
  obtain ⟨flt, op⟩ := st
  obtain ⟨⟨hrot, hname, hpath⟩, hopen⟩ := hg
  have hset : ∀ f : SizeRotationStrategy → SizeRotationStrategy,
      (f g.strategy).fileName = g.strategy.fileName →
      Gauged path { g with strategy := f g.strategy } (log.mapSize f) := by
    intro f hf
    rw [mapSize, hrot]
    exact ⟨⟨rfl, hf.trans hname, hpath⟩, hopen⟩
  cases op with
  | write m =>
    have ha : Attached path g.strategy log := ⟨hrot, hname, hpath⟩
    rw [FileOp.exec, Gauge.next]
    cases hr : g.strategy.shouldRotate with
    | false =>
      have heq : log.write flt m = log.put m := by
        simp [write, hrot, RotationStrategy.shouldRotate, hr]
      have hput : Attached path (g.strategy.appendMessageSize (m.length + 1)) (log.put m) :=
        ⟨by rw [put, hrot]; rfl, hname, hpath⟩
      rw [heq]
      exact ⟨by simpa [nextStrategy, hr] using hput, (isValid_put_eq m log).trans hopen⟩
    | true =>
      cases hf : flt.openFails path with
      | false =>
        have hl := (live_write_rotate flt m ha hr hf).1
        refine ⟨?_, ?_⟩
        · simpa [opening, hf, nextStrategy, hr] using hl.toAttached
        · obtain ⟨h, hh, -⟩ := hl.stream
          simp [isValid, hh, opening, hf]
      | true =>
        refine ⟨?_, ?_⟩
        · simpa [opening, hf] using (write_unopened m ha hr hf).1
        · simp [opening, hf, isValid, write_closed m ha hr hf]
  | setBackupCount n => exact hset (·.setBackupCount n) rfl
  | setMaximumSizeInBytes size => exact hset (·.setMaximumSizeInBytes size) rfl

/-- RUN: the gauge follows a whole run. -/
theorem gauged_runUnder {g : Gauge} (steps : List (Faults × FileOp)) (hg : Gauged path g log) :
    Gauged path (g.run (steps.map (opening path))) (runUnder steps log) := by
  induction steps using List.reverseRecOn with
  | nil => exact hg
  | append_singleton steps st ih =>
    rw [runUnder_concat, List.map_append, List.map_singleton, Gauge.run_concat]
    exact gauged_exec st ih

/-- EXACT: whether each message is taken follows from the opens of the destination's stream and the
    sizes, for every content of the disk and every failure of a remove, a rename, a probe or a
    measuring open: two runs that differ in nothing else agree on it, and both are read off the
    gauge. -/
theorem taken_by_opens_and_sizes (path : Str) (s : SizeRotationStrategy) (flt flt' : Faults)
    (w w' : World) (steps steps' : List (Faults × FileOp))
    (hfirst : flt'.openFails path = flt.openFails path)
    (hsteps : steps'.map (opening path) = steps.map (opening path)) :
    let g := Gauge.run (steps.map (opening path)) (.first (!flt.openFails path) path s)
    Gauged path g (runUnder steps (construct flt path (.size s) w)) ∧
      Gauged path g (runUnder steps' (construct flt' path (.size s) w')) := by
  refine ⟨gauged_runUnder steps (gauged_construct flt path s w), ?_⟩
  rw [← hsteps, ← hfirst]
  exact gauged_runUnder steps' (gauged_construct flt' path s w')

/-- A run on an empty disk and one next to an old backup, where a rename fails. -/
theorem taken_by_opens_and_sizes_two_disks :
    (runUnder [(firstRenameFails, .write ['a']), (Faults.none, .write ['b'])]
      (construct Faults.none "log".toList (.size (.new 1 2)) threeFiles)).isValid =
    (runUnder [(Faults.none, .write ['a']), (Faults.none, .write ['b'])]
      (construct Faults.none "log".toList (.size (.new 1 2)) {})).isValid := by
  have h := taken_by_opens_and_sizes "log".toList (.new 1 2) Faults.none Faults.none {} threeFiles
    [(Faults.none, .write ['a']), (Faults.none, .write ['b'])]
    [(firstRenameFails, .write ['a']), (Faults.none, .write ['b'])] rfl rfl
  exact h.2.isOpen.trans h.1.isOpen.symm

/-! ### A file that could not be opened at first -/

/-- A destination without a stream that has left the disk as it was. -/
structure Silent (path : Str) (w : World) (s : SizeRotationStrategy) (log : FileLog) : Prop
    extends Attached path s log where
  closed : log.dest.fstream = none
  disk : log.world.disk = w.disk

theorem silent_construct (hf : flt.openFails path = true) (s : SizeRotationStrategy) (w : World) :
    Silent path (construct flt path (.size s) w).world
      { s with fileName := path, currentFileSizeInBytes := 0 } (construct flt path (.size s) w) :=
  ⟨attached_construct flt path s w, construct_size_closed hf s w, rfl⟩

/-- STEP: below the limit a silent destination counts the message and drops it. -/
theorem silent_write {w : World} (flt : Faults) (m : Str) (hs : Silent path w s log)
    (hr : s.shouldRotate = false) :
    Silent path w (s.appendMessageSize (m.length + 1)) (log.write flt m) := by
  obtain ⟨⟨hrot, hname, hpath⟩, hclosed, hdisk⟩ := hs
  have heq : log.write flt m = log.put m := by
    simp [write, hrot, RotationStrategy.shouldRotate, hr]
  obtain ⟨hnone, hw⟩ := put_closed m hclosed
  rw [heq]
  exact ⟨⟨by rw [put, hrot]; rfl, hname, hpath⟩, hnone, by rw [hw, hdisk]⟩

/-- Consecutive writes, each with its own failing calls. -/
def writes (steps : List (Faults × Str)) (log : FileLog) : FileLog :=
  runUnder (steps.map fun st => (st.1, .write st.2)) log

theorem writes_concat (steps : List (Faults × Str)) (st : Faults × Str) (log : FileLog) :
    writes (steps ++ [st]) log = (writes steps log).write st.1 st.2 := by
  rw [writes, List.map_append, List.map_singleton, runUnder_concat]
  rfl

/-- RUN INVARIANT: silent with all bytes counted, or open with the limit behind it. -/
def Waiting (path : Str) (w : World) (limit : UInt64) (ms : List Str) (log : FileLog) : Prop :=
  (∃ s, Silent path w s log ∧ s.maxFileSizeInBytes = limit ∧
    s.currentFileSizeInBytes.toNat = (lines ms).length) ∨
  (log.isValid = true ∧ log.dest.filePath = path ∧ limit.toNat ≤ (lines ms).length)

theorem shouldRotate_of_counted {limit : UInt64} {n : ℕ} (hmax : s.maxFileSizeInBytes = limit)
    (hcount : s.currentFileSizeInBytes.toNat = n) :
    s.shouldRotate = true ↔ limit.toNat ≤ n := by
  rw [shouldRotate, decide_eq_true_eq, hmax, ge_iff_le, UInt64.le_iff_toNat_le, hcount]

theorem filePath_write (flt : Faults) (m : Str) (log : FileLog) :
    (log.write flt m).dest.filePath = log.dest.filePath := by
  rw [write]
  simp only
  split_ifs <;> rfl

/-- Where no open fails, a rotating write leaves the stream open. -/
theorem isValid_write_of_rotates (m : Str) (ha : Attached path s log) (hr : s.shouldRotate = true)
    (hf : flt.openFails path = false) : (log.write flt m).isValid = true := by
  obtain ⟨h, hh, -⟩ := (live_write_rotate flt m ha hr hf).1.stream
  simp [isValid, hh]

theorem waiting_write {w : World} {limit : UInt64} {ms : List Str} (st : Faults × Str)
    (hf : st.1.openFails path = false) (hsize : (lines (ms ++ [st.2])).length < 2 ^ 64)
    (hw : Waiting path w limit ms log) :
    Waiting path w limit (ms ++ [st.2]) (log.write st.1 st.2) := by
  have hlen : (lines (ms ++ [st.2])).length = (lines ms).length + (st.2.length + 1) := by
    simp [length_line]
  rcases hw with ⟨s, hs, hmax, hcount⟩ | ⟨hv, hpath, hle⟩
  · have hiff := shouldRotate_of_counted hmax hcount
    cases hr : s.shouldRotate with
    | false =>
      refine Or.inl ⟨_, silent_write st.1 st.2 hs hr, hmax, ?_⟩
      rw [toNat_appendMessageSize (by omega), hcount, hlen]
    | true =>
      have hle := hiff.mp hr
      exact Or.inr ⟨isValid_write_of_rotates st.2 hs.toAttached hr hf,
        (filePath_write st.1 st.2 log).trans hs.filePath, by omega⟩
  · exact Or.inr ⟨isValid_write st.2 (by rwa [hpath]) hv,
      (filePath_write st.1 st.2 log).trans hpath, by omega⟩

/-- RUN: the first writes of a destination that could not open its file. -/
theorem waiting_writes {w : World} {limit : UInt64} {flt : Faults}
    (hf : flt.openFails path = true) (maxBackups : ℕ) (steps : List (Faults × Str))
    (hopens : ∀ st ∈ steps, st.1.openFails path = false)
    (hsize : (lines (steps.map Prod.snd)).length < 2 ^ 64) :
    Waiting path (construct flt path (.size (.new limit maxBackups)) w).world limit
      (steps.map Prod.snd)
      (writes steps (construct flt path (.size (.new limit maxBackups)) w)) := by
  induction steps using List.reverseRecOn with
  | nil => exact Or.inl ⟨_, silent_construct hf _ w, rfl, rfl⟩
  | append_singleton steps st ih =>
    rw [List.map_append, List.map_singleton] at hsize ⊢
    rw [writes_concat]
    have hshort : (lines (steps.map Prod.snd)).length < 2 ^ 64 := by
      rw [lines_append, List.length_append] at hsize
      omega
    exact waiting_write st (hopens st (by simp)) hsize
      (ih (fun x hx => hopens x (by simp [hx])) hshort)

/-- What happens to the next message of a destination that could not open its file when it was
    constructed, which left the disk `d`, after the messages `ms`. -/
structure Recovers (path : Str) (d : Disk Str Char) (limit : UInt64) (ms : List Str)
    (st : Faults × Str) (log : FileLog) : Prop where
  /-- It is taken iff the messages before it fill a file. -/
  taken : (log.write st.1 st.2).isValid = true ↔ limit.toNat ≤ (lines ms).length
  /-- Until then the disk is as the construction left it. -/
  silent : log.isValid = false → log.world.disk = d
  /-- The first one taken finds the file rotated and opened as at a construction. -/
  resumes : log.isValid = false → limit.toNat ≤ (lines ms).length →
    log.write st.1 st.2 =
      (construct st.1 path log.rot (log.rot.rotate st.1 log.world)).put st.2

/-- EXACT: a destination whose file could not be opened at construction drops exactly the messages
    before which less than the limit was written, although every later open works, and leaves the
    disk as its construction did. -/
theorem failed_construct_recovers (path : Str) (w : World) (limit : UInt64) (maxBackups : ℕ)
    (flt : Faults) (hf : flt.openFails path = true) (steps : List (Faults × Str))
    (st : Faults × Str) (hopens : ∀ x ∈ steps ++ [st], x.1.openFails path = false)
    (hsize : (lines (steps.map Prod.snd)).length < 2 ^ 64) :
    let start := construct flt path (.size (.new limit maxBackups)) w
    Unopened flt path w.disk start.world.disk ∧
      Recovers path start.world.disk limit (steps.map Prod.snd) st (writes steps start) := by
  intro start
  refine ⟨unopened_construct hf _ w, ?_⟩
  have hw : Waiting path start.world limit (steps.map Prod.snd) (writes steps start) :=
    waiting_writes hf maxBackups steps (fun x hx => hopens x (by simp [hx])) hsize
  have hst : st.1.openFails path = false := hopens st (by simp)
  rcases hw with ⟨s, hs, hmax, hcount⟩ | ⟨hv, hpath, hle⟩
  · have hiff := shouldRotate_of_counted hmax hcount
    refine ⟨?_, fun _ => hs.disk, fun _ hle => ?_⟩
    · cases hr : s.shouldRotate with
      | false =>
        have hclosed := (silent_write st.1 st.2 hs hr).closed
        simp [isValid, hclosed, ← hiff, hr]
      | true => simp [isValid_write_of_rotates st.2 hs.toAttached hr hst, ← hiff, hr]
    · rw [write_rotated st.2 hs.toAttached (hiff.mpr hle) hst, hs.rot]
      rfl
  · refine ⟨iff_of_true (isValid_write st.2 (by rwa [hpath]) hv) hle, ?_, ?_⟩
    · simp [hv]
    · simp [hv]

/-- Limit 4, and the measuring open works at construction: the first two messages are dropped, the
    third one is taken. -/
theorem failed_construct_recovers_third :
    ((writes [(Faults.none, ['a']), (Faults.none, ['b'])]
      (construct { openFails := fun _ => true } "log".toList (.size (.new 4 1)) {})).write
        Faults.none ['c']).isValid = true :=
  (failed_construct_recovers "log".toList {} 4 1 { openFails := fun _ => true } rfl
    [(Faults.none, ['a']), (Faults.none, ['b'])] (Faults.none, ['c'])
    (by simp) (by decide)).2.taken.mpr (by decide)

/-! ### The null strategy -/

/-- RUN INVARIANT of a destination that never rotates. -/
structure Plain (path : Str) (ms : List Str) (log : FileLog) : Prop extends AtEnd path log where
  rot : log.rot = .null
  valid : log.isValid = true
  content : log.world.disk.read path = some (lines ms)

theorem plain_exec {ms : List Str} (st : Faults × FileOp) (hp : Plain path ms log) :
    Plain path (ms ++ FileOp.written [st.2]) (st.2.exec st.1 log) ∧
      SameOutside (· = path) log.world.disk (st.2.exec st.1 log).world.disk ∧
      (st.2.exec st.1 log).world.cerr = log.world.cerr := by
  obtain ⟨flt, op⟩ := st
  have hset : ∀ f, log.mapSize f = log := by
    intro f
    rw [mapSize, hp.rot]
  cases op with
  | write m =>
    have heq : log.write flt m = log.put m := by
      simp [write, hp.rot, RotationStrategy.shouldRotate]
    obtain ⟨h, hst⟩ := Option.isSome_iff_exists.mp hp.valid
    obtain ⟨hend, c, hc, hread⟩ := put_open m hp.toAtEnd hst
    obtain rfl := Option.some.inj (hp.content.symm.trans hc)
    rw [FileOp.exec, heq]
    refine ⟨⟨hend, by rw [put, hp.rot]; rfl, isValid_put m hp.valid, ?_⟩,
      sameOutside_put m hp.stream, by simp [put, hst, writeStream]⟩
    simp [hread, FileOp.written]
  | setBackupCount n =>
    rw [FileOp.exec, hset]
    exact ⟨by simpa [FileOp.written] using hp, .refl _ _, rfl⟩
  | setMaximumSizeInBytes size =>
    rw [FileOp.exec, hset]
    exact ⟨by simpa [FileOp.written] using hp, .refl _ _, rfl⟩

/-- RUN: every line is kept, and nothing else is touched or printed. -/
theorem plain_runUnder {ms : List Str} (steps : List (Faults × FileOp)) (hp : Plain path ms log) :
    Plain path (ms ++ FileOp.written (steps.map Prod.snd)) (runUnder steps log) ∧
      SameOutside (· = path) log.world.disk (runUnder steps log).world.disk ∧
      (runUnder steps log).world.cerr = log.world.cerr := by
  induction steps using List.reverseRecOn with
  | nil => exact ⟨by simpa [FileOp.written, runUnder] using hp, .refl _ _, rfl⟩
  | append_singleton steps st ih =>
    obtain ⟨hp₁, hs₁, hc₁⟩ := ih
    obtain ⟨hp₂, hs₂, hc₂⟩ := plain_exec st hp₁
    rw [runUnder_concat]
    refine ⟨?_, hs₁.trans hs₂, hc₂.trans hc₁⟩
    simpa [FileOp.written, List.filterMap_append] using hp₂

/-- STEP: a closed stream that never rotates stays closed and leaves the world alone. -/
theorem null_closed_exec (st : Faults × FileOp) (hrot : log.rot = .null)
    (hst : log.dest.fstream = none) :
    (st.2.exec st.1 log).rot = .null ∧ (st.2.exec st.1 log).dest.fstream = none ∧
      (st.2.exec st.1 log).world = log.world := by
  obtain ⟨flt, op⟩ := st
  cases op with
  | write m =>
    have heq : log.write flt m = log.put m := by
      simp [write, hrot, RotationStrategy.shouldRotate]
    obtain ⟨hnone, hw⟩ := put_closed m hst
    rw [FileOp.exec, heq]
    exact ⟨by rw [put, hrot]; rfl, hnone, hw⟩
  | setBackupCount n => simp [FileOp.exec, mapSize, hrot, hst]
  | setMaximumSizeInBytes size => simp [FileOp.exec, mapSize, hrot, hst]

theorem null_closed_runUnder (steps : List (Faults × FileOp)) (hrot : log.rot = .null)
    (hst : log.dest.fstream = none) :
    (runUnder steps log).isValid = false ∧ (runUnder steps log).world = log.world := by
  induction steps generalizing log with
  | nil => exact ⟨by simp [runUnder, isValid, hst], rfl⟩
  | cons st steps ih =>
    obtain ⟨hrot', hst', hw⟩ := null_closed_exec st hrot hst
    obtain ⟨hv, hw'⟩ := ih hrot' hst'
    exact ⟨hv, hw'.trans hw⟩

theorem plain_construct (hf : flt.openFails path = false) (w : World) :
    Plain path [] (construct flt path .null w) ∧
      (construct flt path .null w).world.cerr = w.cerr := by
  obtain ⟨-, hread⟩ := null_construct_opened hf w
  have hv := isValid_construct hf .null w
  refine ⟨⟨atEnd_construct flt path .null w, rfl, hv, hread⟩, ?_⟩
  rw [construct]
  simp only [RotationStrategy.setFileInfo]
  rw [if_pos (isSome_openStream hf .null w), openStream, if_neg (by simp [hf])]
  split <;> rfl

/-- What is left of a log without rotation after the messages `ms`. -/
structure AllOrNothing (path : Str) (opens : Bool) (w : World) (ms : List Str) (log : FileLog) :
    Prop where
  valid : log.isValid = opens
  outside : SameOutside (· = path) w.disk log.world.disk
  all : opens = true → log.world.disk.read path = some (lines ms) ∧ log.world.cerr = w.cerr
  nothing : opens = false → log.world.disk = w.disk ∧
    log.world.cerr = w.cerr ++ "GtLogging: could not open log file ".toList ++ path ++ ['\n']

/-- EXACT: a destination with the null strategy either opens its file, and the file then holds the
    line of every message of the run and nothing else, or it warns once and never touches the disk;
    removes, renames and opens that fail after the construction, and the setters, change nothing. -/
theorem null_log_all_or_nothing (flt : Faults) (path : Str) (w : World)
    (steps : List (Faults × FileOp)) :
    AllOrNothing path (!flt.openFails path) w (FileOp.written (steps.map Prod.snd))
      (runUnder steps (construct flt path .null w)) := by
  cases hf : flt.openFails path with
  | false =>
    obtain ⟨hp₀, hcerr⟩ := plain_construct hf w
    obtain ⟨hp, hs, hc⟩ := plain_runUnder steps hp₀
    refine ⟨hp.valid, (sameOutside_construct flt path .null w).trans hs, fun _ => ⟨?_, ?_⟩, ?_⟩
    · exact hp.content
    · exact hc.trans hcerr
    · simp
  | true =>
    obtain ⟨hst, hdisk⟩ := null_construct_failed hf w
    obtain ⟨hv, hw⟩ := null_closed_runUnder steps (rot_null_construct flt path w) hst
    refine ⟨hv, ?_, by simp, fun _ => ?_⟩
    · rw [hw, hdisk]
      exact .refl _ _
    · rw [hw, hdisk]
      refine ⟨rfl, ?_⟩
      simp [construct, openStream, hf, RotationStrategy.setFileInfo, World.warn]

end GtLogging.FileLog
