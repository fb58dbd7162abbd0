import GtLogging.Rotate

/-! @src src/gt_logdestfile.h src/gt_logdestfile.cpp | layer:model,spec | FileDestination

    A `FileDestination` owns a stream and a path and shares a rotation strategy; `FileLog` is a
    destination with its strategy and the world. The specs below say what one call does: opening
    (at construction or after a rotation) ends with an empty file, because the measuring stream of
    `setFileInfo` opens the path without `app`, unless that stream alone cannot be opened; a write
    appends one line to a live file; a write that cannot reopen its file leaves what the rotation
    left and keeps the tracked size. -/

namespace GtLogging

structure FileDestination where
  fstream : Option Handle
  filePath : Str

structure FileLog where
  dest : FileDestination
  rot : RotationStrategy
  world : World

namespace FileLog

/-- The constructor: open the file, then update the file stats. -/
def construct (flt : Faults) (filePath : Str) (rot : RotationStrategy) (w : World) : FileLog :=
  let o := openStream flt.openFails filePath rot.openMode w
  let w₁ := if o.1.isSome then o.2
    else o.2.warn ("GtLogging: could not open log file ".toList ++ filePath ++ ['\n'])
  let r := rot.setFileInfo flt filePath w₁
  { dest := { fstream := o.1, filePath := filePath }, rot := r.1, world := r.2 }

/-- Count the message and its new line, then `m_fstream << message << std::endl`. -/
def put (message : Str) (log : FileLog) : FileLog :=
  let o := writeStream log.dest.fstream (message ++ ['\n']) log.world
  { dest := { log.dest with fstream := o.1 }
    rot := log.rot.appendMessageSize (message.length + 1)
    world := o.2 }

def write (flt : Faults) (message : Str) (log : FileLog) : FileLog :=
  if log.rot.shouldRotate then
    -- close and rotate
    let w := log.rot.rotate flt log.world
    let o := openStream flt.openFails log.dest.filePath log.rot.openMode w
    if o.1.isSome then
      let r := log.rot.setFileInfo flt log.dest.filePath o.2
      put message { dest := { log.dest with fstream := o.1 }, rot := r.1, world := r.2 }
    else
      -- the early return
      { log with
        dest := { log.dest with fstream := none }
        world := o.2.warn
          ("GtLogging: could not reopen log file ".toList ++ log.dest.filePath ++ ['\n']) }
  else put message log

/-- Consecutive writes. -/
def writeAll (flt : Faults) (ms : List Str) (log : FileLog) : FileLog :=
  ms.foldl (fun l m => l.write flt m) log

def isValid (log : FileLog) : Bool := log.dest.fstream.isSome

/-- The destructor closes the stream; the files stay. -/
def destroy (log : FileLog) : World := log.world

/-- The setters reach the strategy through the caller's shared pointer. -/
def mapSize (f : SizeRotationStrategy → SizeRotationStrategy) (log : FileLog) : FileLog :=
  match log.rot with
  | .null => log
  | .size s => { log with rot := .size (f s) }

/-- The content of file `i` of the family. -/
def file (path : Str) (i : ℕ) (log : FileLog) : Option Str :=
  log.world.disk.read (Rotation.family path i)

end FileLog

/-- What a caller can do to a rotating file log. -/
inductive FileOp where
  | write (message : Str)
  | setBackupCount (backups : ℕ)
  | setMaximumSizeInBytes (size : UInt64)
  deriving DecidableEq

namespace FileOp

def exec (flt : Faults) : FileOp → FileLog → FileLog
  | .write m, log => log.write flt m
  | .setBackupCount n, log => log.mapSize (·.setBackupCount n)
  | .setMaximumSizeInBytes size, log => log.mapSize (·.setMaximumSizeInBytes size)

def run (flt : Faults) (ops : List FileOp) (log : FileLog) : FileLog :=
  ops.foldl (fun l op => op.exec flt l) log

/-- The messages of the write calls, in order. -/
def written (ops : List FileOp) : List Str :=
  ops.filterMap fun | .write m => some m | _ => none

theorem written_cons (op : FileOp) (ops : List FileOp) :
    written (op :: ops) = written [op] ++ written ops := by
  cases op <;> rfl

end FileOp

/-- One message as it stands in the file. -/
def line (m : Str) : Str := m ++ ['\n']

/-- The `'\n'`-terminated lines of some messages. -/
def lines (ms : List Str) : Str := ms.flatMap line

@[simp] theorem lines_nil : lines [] = [] := rfl

@[simp] theorem lines_append (ms ns : List Str) : lines (ms ++ ns) = lines ms ++ lines ns := by
  simp [lines]

@[simp] theorem lines_singleton (m : Str) : lines [m] = line m := by simp [lines]

theorem lines_flatten (mss : List (List Str)) : lines mss.flatten = (mss.map lines).flatten := by
  induction mss with
  | nil => rfl
  | cons ms mss ih => rw [List.flatten_cons, lines_append, ih, List.map_cons, List.flatten_cons]

namespace FileLog
open Rotation SizeRotationStrategy
open Disk (SameOutside)

variable {flt : Faults} {path : Str} {s : SizeRotationStrategy} {c : Str} {log : FileLog}

/-! ### What a call does not touch -/

theorem sameOutside_openStream (fails : Str → Bool) (p : Str) (m : OpenMode) (w : World) :
    SameOutside (· = p) w.disk (openStream fails p m w).2.disk := by
  rw [openStream]
  split_ifs
  · exact .refl _ _
  · cases ho : w.disk.openFile p m with
    | none => exact .refl _ _
    | some r => exact Disk.sameOutside_openFile ho

/-- A stream that is open is on the file of its path. -/
theorem names_openStream {fails : Str → Bool} {p : Str} {m : OpenMode} {w w' : World} {h : Handle}
    (ho : openStream fails p m w = (some h, w')) : w'.disk.names p = some h.inode := by
  rw [openStream] at ho
  by_cases hf : fails p = true
  · simp [hf] at ho
  · rw [if_neg hf] at ho
    cases hd : w.disk.openFile p m with
    | none => simp [hd] at ho
    | some r =>
      rw [hd] at ho
      obtain ⟨hh, rfl⟩ := Prod.mk.inj ho
      rw [← Option.some.inj hh]
      exact Disk.names_openFile hd

theorem sameOutside_setFileInfo (flt : Faults) (p : Str) (rot : RotationStrategy) (w : World) :
    SameOutside (· = p) w.disk (rot.setFileInfo flt p w).2.disk := by
  cases rot with
  | null => exact .refl _ _
  | size s => exact sameOutside_openStream flt.measureFails p measureMode w

/-- FRAME: construction touches its own path, whatever fails. -/
theorem sameOutside_construct (flt : Faults) (p : Str) (rot : RotationStrategy) (w : World) :
    SameOutside (· = p) w.disk (construct flt p rot w).world.disk := by
  have ho := sameOutside_openStream flt.openFails p rot.openMode w
  rw [construct]
  simp only
  split_ifs
  · exact ho.trans (sameOutside_setFileInfo flt p rot _)
  · refine SameOutside.trans ?_ (sameOutside_setFileInfo flt p rot _)
    exact ho

/-- FRAME: a message touches the file its stream is on. -/
theorem sameOutside_put {p : Str} (m : Str) {log : FileLog}
    (hon : ∀ h, log.dest.fstream = some h → log.world.disk.names p = some h.inode) :
    SameOutside (· = p) log.world.disk (log.put m).world.disk := by
  rw [put]
  cases hst : log.dest.fstream with
  | none => exact .refl _ _
  | some h => exact Disk.sameOutside_write _ (hon h hst) _

/-- A message changes the data of one file, never a name. -/
theorem names_put (m : Str) (log : FileLog) :
    (log.put m).world.disk.names = log.world.disk.names := by
  rw [put]
  cases log.dest.fstream <;> rfl

/-- FRAME of a write for the names: besides what its rotation does, only its own path. -/
theorem names_write (flt : Faults) (m : Str) (log : FileLog) {q : Str}
    (hq : q ≠ log.dest.filePath) :
    (log.write flt m).world.disk.names q =
      (if log.rot.shouldRotate then log.rot.rotate flt log.world else log.world).disk.names q := by
  rw [write]
  split_ifs with hr
  · have ho := sameOutside_openStream flt.openFails log.dest.filePath log.rot.openMode
      (log.rot.rotate flt log.world)
    simp only
    split_ifs
    · rw [names_put]
      exact (ho.trans (sameOutside_setFileInfo flt log.dest.filePath log.rot _)).names q hq
    · exact ho.names q hq
  · rw [names_put]

/-! ### Opening -/

/-- Measuring counts zero bytes: the file is empty then, or was not opened. -/
theorem fst_setFileInfo (flt : Faults) (path : Str) (s : SizeRotationStrategy) (w : World) :
    (s.setFileInfo flt path w).1 = { s with fileName := path, currentFileSizeInBytes := 0 } := by
  obtain ⟨k, d, hm, hpos, -⟩ := w.disk.openFile_truncates path (m := measureMode) rfl rfl rfl
  cases hf : flt.measureFails path <;> simp [setFileInfo, openStream, hf, hm, hpos]

/-- What an opened file starts with: nothing, unless the measuring stream could not be opened, which
    truncates it. -/
def leftover (flt : Faults) (path : Str) (d : Disk Str Char) : Str :=
  if flt.measureFails path then (d.read path).getD [] else []

@[simp] theorem leftover_measured (hm : flt.measureFails path = false) (d : Disk Str Char) :
    leftover flt path d = [] := by
  simp [leftover, hm]

/-- Opening for append and then measuring: the file is there, the stream is on it, it counts zero
    bytes, and what it held is gone if it was measured. -/
theorem open_measure (hf : flt.openFails path = false) (s : SizeRotationStrategy) (w : World) :
    ∃ h w₁ w₂, openStream flt.openFails path openMode w = (some h, w₁) ∧
      s.setFileInfo flt path w₁ = ({ s with fileName := path, currentFileSizeInBytes := 0 }, w₂) ∧
      h.app = true ∧ w₂.disk.names path = some h.inode ∧
      w₂.disk.read path = some (leftover flt path w.disk) ∧
      SameOutside (· = path) w.disk w₂.disk := by
  obtain ⟨h, d₁, ho, happ, h₁⟩ := w.disk.openFile_keeps path (m := openMode) rfl rfl rfl
  have hout := Disk.sameOutside_openFile ho
  have hopen : openStream flt.openFails path openMode w = (some h, { w with disk := d₁ }) := by
    simp [openStream, hf, ho]
  cases hmf : flt.measureFails path with
  | false =>
    obtain ⟨k, d₂, hm, hpos, h₂⟩ := d₁.openFile_truncates path (m := measureMode) rfl rfl rfl
    refine ⟨h, { w with disk := d₁ }, { w with disk := d₂ }, hopen, ?_, happ, ?_, ?_,
      hout.trans (Disk.sameOutside_openFile hm)⟩
    · simp [setFileInfo, openStream, hmf, hm, hpos]
    · rw [← h₂.same _ h₁.attached]; exact h₂.attached
    · rw [leftover_measured hmf]; exact h₂.content
  | true =>
    refine ⟨h, { w with disk := d₁ }, { w with disk := d₁ }, hopen, ?_, happ, h₁.attached, ?_,
      hout⟩
    · simp [setFileInfo, openStream, hmf]
    · rw [leftover, if_pos hmf]; exact h₁.content

/-! ### A live log -/

/-- A destination on `path` with the size strategy `s`. -/
structure Attached (path : Str) (s : SizeRotationStrategy) (log : FileLog) : Prop where
  rot : log.rot = .size s
  name : s.fileName = path
  filePath : log.dest.filePath = path

/-- The stream is open on the file the strategy names, and that file reads `c`. -/
structure Live (path : Str) (s : SizeRotationStrategy) (c : Str) (log : FileLog) : Prop
    extends Attached path s log where
  stream : ∃ h, log.dest.fstream = some h ∧ h.app = true ∧
    log.world.disk.names path = some h.inode
  content : log.world.disk.read path = some c

theorem Live.names (hl : Live path s c log) :
    ∀ h, log.dest.fstream = some h → log.world.disk.names path = some h.inode := by
  obtain ⟨h, hh, -, hn⟩ := hl.stream
  intro h' hh'
  obtain rfl := Option.some.inj (hh.symm.trans hh')
  exact hn

theorem live_construct (flt : Faults) (path : Str) (hf : flt.openFails path = false)
    (s : SizeRotationStrategy) (w : World) :
    Live path { s with fileName := path, currentFileSizeInBytes := 0 } (leftover flt path w.disk)
      (construct flt path (.size s) w) := by
  obtain ⟨h, w₁, w₂, ho, hs, happ, hn, hc, -⟩ := open_measure hf s w
  have heq : construct flt path (.size s) w =
      { dest := { fstream := some h, filePath := path }
        rot := .size { s with fileName := path, currentFileSizeInBytes := 0 }
        world := w₂ } := by
    simp [construct, RotationStrategy.openMode, RotationStrategy.setFileInfo, ho, hs]
  rw [heq]
  exact ⟨⟨rfl, rfl, rfl⟩, ⟨h, rfl, happ, hn⟩, hc⟩

theorem live_put (m : Str) (hl : Live path s c log) :
    Live path (s.appendMessageSize (m.length + 1)) (c ++ line m) (log.put m) := by
  obtain ⟨⟨hrot, hname, hpath⟩, ⟨h, hh, happ, hn⟩, hc⟩ := hl
  have hd : log.world.disk.data h.inode = c := by
    rw [Disk.read_of_names hn] at hc; exact Option.some.inj hc
  have hw : (log.put m).world.disk = log.world.disk.setData h.inode (c ++ line m) := by
    simp only [put, hh, writeStream]
    rw [Disk.write_app _ _ happ, hd, line]
  refine ⟨⟨by simp [put, hrot, RotationStrategy.appendMessageSize], hname, hpath⟩, ?_, ?_⟩
  · refine ⟨(log.world.disk.write '\x00' h (m ++ ['\n'])).1, ?_, happ, ?_⟩
    · simp only [put, hh, writeStream]
    · rw [hw]; exact hn
  · rw [hw]; exact Disk.read_setData hn _

/-- A write below the limit appends one line. -/
theorem live_write_append (flt : Faults) (m : Str) (hl : Live path s c log)
    (hr : s.shouldRotate = false) :
    Live path (s.appendMessageSize (m.length + 1)) (c ++ line m) (log.write flt m) ∧
    SameOutside (· = path) log.world.disk (log.write flt m).world.disk := by
  have heq : log.write flt m = log.put m := by
    simp [write, hl.rot, RotationStrategy.shouldRotate, hr]
  rw [heq]
  exact ⟨live_put m hl, sameOutside_put m hl.names⟩

/-- A write at the limit that can reopen its file puts its message on the reopened stream. -/
theorem write_reopened (m : Str) (ha : Attached path s log) (hr : s.shouldRotate = true)
    {h : Handle} {w₁ w₂ : World} {s₁ : SizeRotationStrategy}
    (ho : openStream flt.openFails path openMode (s.rotate flt log.world) = (some h, w₁))
    (hs : s.setFileInfo flt path w₁ = (s₁, w₂)) :
    log.write flt m =
      put m { dest := { fstream := some h, filePath := path }, rot := .size s₁, world := w₂ } := by
  simp [write, ha.rot, ha.filePath, RotationStrategy.shouldRotate, hr, RotationStrategy.rotate,
    RotationStrategy.openMode, RotationStrategy.setFileInfo, ho, hs]

/-- A write at the limit that can reopen its file: the current file ends up with this one line,
    behind what the rotation left there if that was not measured, and the other files are as the
    rotation left them. -/
theorem live_write_rotate (flt : Faults) (m : Str) (ha : Attached path s log)
    (hr : s.shouldRotate = true) (hf : flt.openFails path = false) :
    Live path ({ s with currentFileSizeInBytes := 0 }.appendMessageSize (m.length + 1))
      (leftover flt path (s.rotate flt log.world).disk ++ line m) (log.write flt m) ∧
    SameOutside (· = path) (s.rotate flt log.world).disk (log.write flt m).world.disk := by
  obtain ⟨h, w₁, w₂, ho, hs, happ, hn, hc, hout⟩ := open_measure hf s (s.rotate flt log.world)
  have hs' : { s with fileName := path, currentFileSizeInBytes := 0 } =
      { s with currentFileSizeInBytes := 0 } := by rw [← ha.name]
  rw [hs'] at hs
  have hl : Live path { s with currentFileSizeInBytes := 0 }
      (leftover flt path (s.rotate flt log.world).disk)
      { dest := { fstream := some h, filePath := path }
        rot := .size { s with currentFileSizeInBytes := 0 }
        world := w₂ } := ⟨⟨rfl, ha.name, rfl⟩, ⟨h, rfl, happ, hn⟩, hc⟩
  rw [write_reopened m ha hr ho hs]
  exact ⟨live_put m hl, hout.trans (sameOutside_put m hl.names)⟩

/-- RUN: a live log stays live, and is not empty once something was written. -/
theorem live_writeAll (hf : flt.openFails path = false) (ms : List Str) (hl : Live path s c log) :
    ∃ s' c', Live path s' c' (writeAll flt ms log) ∧ (ms ≠ [] ∨ c ≠ [] → c' ≠ []) := by
  induction ms generalizing s c log with
  | nil => exact ⟨s, c, hl, fun h => h.resolve_left (fun h => h rfl)⟩
  | cons m ms ih =>
    have hline : line m ≠ [] := by simp [line]
    cases hr : s.shouldRotate with
    | true =>
      obtain ⟨s', c', h, hc'⟩ := ih (live_write_rotate flt m hl.toAttached hr hf).1
      exact ⟨s', c', h, fun _ => hc' (Or.inr (List.append_ne_nil_of_right_ne_nil _ hline))⟩
    | false =>
      obtain ⟨s', c', h, hc'⟩ := ih (live_write_append flt m hl hr).1
      exact ⟨s', c', h, fun _ => hc' (Or.inr (List.append_ne_nil_of_right_ne_nil c hline))⟩

/-- A write at the limit that cannot reopen its file returns early: the rotation has happened, the
    message is dropped, and the strategy still stands at its limit. -/
theorem write_unopened (m : Str) (ha : Attached path s log) (hr : s.shouldRotate = true)
    (hf : flt.openFails path = true) :
    Attached path s (log.write flt m) ∧
    (log.write flt m).world.disk = (s.rotate flt log.world).disk := by
  obtain ⟨hrot, hname, hpath⟩ := ha
  have heq : log.write flt m =
      { log with
        dest := { log.dest with fstream := none }
        world := (s.rotate flt log.world).warn
          ("GtLogging: could not reopen log file ".toList ++ log.dest.filePath ++ ['\n']) } := by
    simp [write, hrot, hpath, RotationStrategy.shouldRotate, hr, RotationStrategy.rotate,
      openStream, hf]
  rw [heq]
  exact ⟨⟨hrot, hname, hpath⟩, rfl⟩

/-! ### Attachment -/

theorem attached_construct (flt : Faults) (path : Str) (s : SizeRotationStrategy) (w : World) :
    Attached path { s with fileName := path, currentFileSizeInBytes := 0 }
      (construct flt path (.size s) w) :=
  ⟨congrArg RotationStrategy.size (fst_setFileInfo flt path s _), rfl, rfl⟩

/-- A write keeps the log attached and the backup count as it is, whatever fails. -/
theorem attached_write (flt : Faults) (m : Str) (ha : Attached path s log) :
    ∃ s', Attached path s' (log.write flt m) ∧ s'.maxBackupsCount = s.maxBackupsCount := by
  obtain ⟨hrot, hname, hpath⟩ := ha
  rw [write, hrot]
  simp only [RotationStrategy.setFileInfo]
  split_ifs
  · exact ⟨_, ⟨rfl, hpath, hpath⟩, rfl⟩
  · exact ⟨s, ⟨rfl, hname, hpath⟩, rfl⟩
  · refine ⟨s.appendMessageSize (m.length + 1), ⟨?_, hname, hpath⟩, rfl⟩
    rw [put, hrot, RotationStrategy.appendMessageSize]

end FileLog

end GtLogging
