import GtLogging.Registry
import GtLogging.Filter
import GtLogging.Endurance
import GtLogging.Retention

/-! @src src/gt_logdest.h src/gt_logdestfile.h src/gt_logdestconsole.cpp src/gt_logdestfunctor.h |
    layer:model,spec | destination objects

    The three kinds of destination: a file with a rotation strategy of its own, the console, and a
    functor. `write` filters and formats for the first two and hands the line on; a functor is
    called with everything. What an object does reaches the host: the disk, `stdout`, and the
    stream that `stderr` and `std::cerr` share. A `Contract` is whatever a single file log keeps,
    stated so that it can be carried through the life of a log among others. -/

namespace GtLogging

/-- The disk and the output streams. -/
structure Host extends World where
  stdout : Str := []

/-- `c_str()`, as a function that expects a C string reads it. -/
def cStr (s : Str) : Str := s.takeWhile (· ≠ '\x00')

/-- `fprintf(stream, "%s\n", message.c_str())`. -/
def consoleLine (message : Str) : Str := cStr message ++ ['\n']

/-- Whether `output` takes `stderr`. -/
def toStderr (level : Level) : Bool := levelToInt level ≥ levelToInt .WarningLevel

namespace DebugOutputDestination

def output (message : Str) (level : Level) (h : Host) : Host :=
  if toStderr level then { h with cerr := h.cerr ++ consoleLine message }
  else { h with stdout := h.stdout ++ consoleLine message }

end DebugOutputDestination

/-- The line a formatted destination makes of a record, if its filter lets the level through. -/
def FormattedDestination.lineOf (d : FormattedDestination) (r : Record) : Option Str :=
  d.write r.message r.level r.details

/-- What the constructor of a destination object is given. -/
inductive Maker where
  | file (filePath : Str) (rotation : RotationStrategy) (formatted : FormattedDestination)
  | console (formatted : FormattedDestination)
  | functor

/-- `makeFileDestination`: a null pointer stands for the null strategy. -/
def makeFileDestination (filePath : Str) (formatted : FormattedDestination := {})
    (rotation : Option RotationStrategy := none) : Maker :=
  .file filePath (rotation.getD .null) formatted

/-- A destination object. -/
inductive Sink where
  | file (formatted : FormattedDestination) (dest : FileDestination) (rot : RotationStrategy)
  | console (formatted : FormattedDestination)
  /-- With the calls of its functor so far. -/
  | functor (calls : List Record)

/-- Construct an object. -/
def Maker.make (flt : Faults) (m : Maker) (h : Host) : Sink × Host :=
  match m with
  | .file path rotation formatted =>
    let log := FileLog.construct flt path rotation h.toWorld
    (.file formatted log.dest log.rot, { h with toWorld := log.world })
  | .console formatted => (.console formatted, h)
  | .functor => (.functor [], h)

namespace Sink

def isValid : Sink → Bool
  | .file _ dest _ => dest.fstream.isSome
  | .console _ => true
  | .functor _ => true

/-- `Destination::write`. -/
def write (flt : Faults) (r : Record) (sink : Sink) (h : Host) : Sink × Host :=
  match sink with
  | .file formatted dest rot =>
    match formatted.lineOf r with
    | none => (sink, h)
    | some l =>
      let log := FileLog.write flt l { dest := dest, rot := rot, world := h.toWorld }
      (.file formatted log.dest log.rot, { h with toWorld := log.world })
  | .console formatted =>
    match formatted.lineOf r with
    | none => (sink, h)
    | some l => (sink, DebugOutputDestination.output l r.level h)
  | .functor calls => (.functor (calls ++ [r]), h)

end Sink

namespace FileLog
open Rotation
open Disk (SameOutside)

/-! ### Contracts of a single log -/

/-- What a file log keeps, on a disk that read `d₀` before it was constructed: it is established by
    the construction on an unchanged family, kept by every write, and not disturbed by anything that
    happens outside the family. `Allows` says which failures it puts up with. -/
structure Contract (d₀ : Disk Str Char) where
  Allows : Faults → Prop
  Kept : Str → RotationStrategy → List Str → FileLog → Prop
  own : ∀ {path rot ms log}, Kept path rot ms log → Own path log
  construct : ∀ {flt path rot} {w : World}, Allows flt →
    (∀ i, w.disk.read (family path i) = d₀.read (family path i)) →
    Kept path rot [] (construct flt path rot w)
  write : ∀ {flt path rot ms log} (m : Str), Allows flt → Kept path rot ms log →
    Kept path rot (ms ++ [m]) (log.write flt m)
  frame : ∀ {path rot ms log} {P : Str → Prop} {w' : World},
    SameOutside P log.world.disk w'.disk → (∀ i, ¬ P (family path i)) → Kept path rot ms log →
    Kept path rot ms { log with world := w' }

end FileLog

end GtLogging
