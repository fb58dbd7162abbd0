import GtLogging.Basic

/-! @src src/gt_logdestfile.h src/gt_logdestfile.cpp | layer:model | rotation strategies

    `NullRotationStrategy` never rotates. `SizeRotationStrategy` keeps the file name, the tracked
    size, the maximum size and the backup count; `rotate` probes for the last existing backup,
    shifts the backups up from there and renames the current file to `.1`. Sizes are 64-bit and
    wrap; the backup count and the loop counters are naturals (a `size_t` counter wraps only for a
    count of 2^64 - 1, where the probe loop does not end). -/

namespace GtLogging

/-! ### File primitives -/

/-- `std::remove(path) == 0`. -/
def removeFileAtPath (flt : Faults) (path : Str) (w : World) : Bool × World :=
  if (w.disk.names path).isNone || flt.removeFails path then (false, w)
  else (true, { w with disk := w.disk.unlink path })

/-- The probe opens the file for reading. -/
def fileExistsAtPath (flt : Faults) (path : Str) (w : World) : Bool :=
  (w.disk.names path).isSome && !flt.probeFails path

/-- `std::rename(oldName, newName) == 0`; a file under the new name is replaced or the call
    fails. -/
def renameFileFromTo (flt : Faults) (oldName newName : Str) (w : World) : Bool × World :=
  if (w.disk.names oldName).isNone || flt.renameFails oldName newName then (false, w)
  else (true, { w with disk := w.disk.move oldName newName })

/-! ### SizeRotationStrategy -/

structure SizeRotationStrategy where
  fileName : Str := []
  currentFileSizeInBytes : UInt64 := 0
  maxFileSizeInBytes : UInt64 := 0
  maxBackupsCount : ℕ := 0
  deriving DecidableEq

namespace SizeRotationStrategy

def MAX_BACKUP_COUNT : ℕ := 10

/-- The constructor takes the backup count as it comes. -/
def new (maxFileSize : UInt64) (maxBackups : ℕ) : SizeRotationStrategy :=
  { maxFileSizeInBytes := maxFileSize, maxBackupsCount := maxBackups }

/-- `std::ofstream::ate | std::ofstream::binary`, the mode of the measuring stream. -/
def measureMode : OpenMode := { ate := true, binary := true }

/-- `std::ios::out | std::ios::app`. -/
def openMode : OpenMode := { app := true }

/-- Measure the file through a second output stream; `tellp` of a stream that failed is `-1`. -/
def setFileInfo (flt : Faults) (filePath : Str) (s : SizeRotationStrategy) (w : World) :
    SizeRotationStrategy × World :=
  let temp := openStream flt.measureFails filePath measureMode w
  let tellp := match temp.1 with
    | some h => h.pos
    | none => 0
  ({ s with fileName := filePath, currentFileSizeInBytes := UInt64.ofNat tellp }, temp.2)

def appendMessageSize (size : ℕ) (s : SizeRotationStrategy) : SizeRotationStrategy :=
  { s with currentFileSizeInBytes := s.currentFileSizeInBytes + UInt64.ofNat size }

def shouldRotate (s : SizeRotationStrategy) : Bool :=
  decide (s.currentFileSizeInBytes ≥ s.maxFileSizeInBytes)

def setMaximumSizeInBytes (size : UInt64) (s : SizeRotationStrategy) : SizeRotationStrategy :=
  { s with maxFileSizeInBytes := size }

def setBackupCount (backups : ℕ) (s : SizeRotationStrategy) : SizeRotationStrategy :=
  { s with maxBackupsCount := min backups MAX_BACKUP_COUNT }

/-- `logNamePattern + std::to_string(i)`. -/
def backupName (fileName : Str) (i : ℕ) : Str := (fileName ++ ['.']) ++ stdToString i

/-- The rename with its message on failure. -/
def renameOrWarn (flt : Faults) (oldName newName onRename : Str) (w : World) : World :=
  let mv := renameFileFromTo flt oldName newName w
  if mv.1 then mv.2 else mv.2.warn onRename

/-- Clear the target, then rename onto it: the body of the shift loop, and its last step. A target
    that cannot be removed ends the body (`continue`, `return`). -/
def moveOnto (flt : Faults) (oldName newName onRemove onRename : Str) (w : World) : World :=
  if fileExistsAtPath flt newName w then
    let rm := removeFileAtPath flt newName w
    if rm.1 then renameOrWarn flt oldName newName onRename rm.2 else rm.2.warn onRemove
  else renameOrWarn flt oldName newName onRename w

/-- 1. find the last existing backup that can be shifted up. -/
def lastExistingBackupIndex (flt : Faults) (s : SizeRotationStrategy) (w : World) : ℕ :=
  (List.range' 1 s.maxBackupsCount).foldl
    (fun last i =>
      if fileExistsAtPath flt (backupName s.fileName i) w then min i (s.maxBackupsCount - 1)
      else last)
    0

/-- 2. shift up, from index `i` down to 1. -/
def shiftUp (flt : Faults) (s : SizeRotationStrategy) : ℕ → World → World
  | 0, w => w
  | i + 1, w =>
    let oldName := backupName s.fileName (i + 1)
    let newName := backupName s.fileName (i + 2)
    shiftUp flt s i <| moveOnto flt oldName newName
      ("GtLogging: could not remove backup file ".toList ++ newName ++ ['\n'])
      ("GtLogging: could not rename backup file ".toList ++ oldName ++ " to ".toList ++ newName
        ++ ['\n']) w

/-- 3. rename current log file. -/
def renameCurrent (flt : Faults) (s : SizeRotationStrategy) (w : World) : World :=
  let newName := backupName s.fileName 1
  moveOnto flt s.fileName newName
    ("GtLogging: could not remove old log file ".toList ++ newName ++ ['\n'])
    ("GtLogging: could not rename log file ".toList ++ s.fileName ++ " to ".toList ++ newName
      ++ ['\n']) w

def rotate (flt : Faults) (s : SizeRotationStrategy) (w : World) : World :=
  -- one file only
  if s.maxBackupsCount = 0 then
    let rm := removeFileAtPath flt s.fileName w
    if rm.1 then rm.2
    else rm.2.warn ("GtLogging: backup delete failed ".toList ++ s.fileName ++ ['\n'])
  else
    renameCurrent flt s (shiftUp flt s (lastExistingBackupIndex flt s w) w)

end SizeRotationStrategy

/-! ### The strategy interface -/

/-- The two implementations of `RotationStrategy`. -/
inductive RotationStrategy where
  | null
  | size (s : SizeRotationStrategy)

namespace RotationStrategy

def setFileInfo (flt : Faults) (filePath : Str) :
    RotationStrategy → World → RotationStrategy × World
  | .null, w => (.null, w)
  | .size s, w => let r := s.setFileInfo flt filePath w; (.size r.1, r.2)

def appendMessageSize (size : ℕ) : RotationStrategy → RotationStrategy
  | .null => .null
  | .size s => .size (s.appendMessageSize size)

def shouldRotate : RotationStrategy → Bool
  | .null => false
  | .size s => s.shouldRotate

def rotate (flt : Faults) : RotationStrategy → World → World
  | .null, w => w
  | .size s, w => s.rotate flt w

def openMode : RotationStrategy → OpenMode
  | .null => { trunc := true }
  | .size _ => SizeRotationStrategy.openMode

end RotationStrategy

end GtLogging
