import GtLogging.Level
import GtLogging.Lib.Iostream

/-! @src src/gt_logstream.h | layer:model | the stream behind a log statement

    A stream collects the text of a statement in `m_stream`, an output string stream: its buffer
    `text` and its formatting state `ios`. `space` and `quote` are the two bits of `m_flags`,
    `vlevel` is the verbosity level of the statement, tested against the logger's `verbosity`. -/

namespace GtLogging
open Iostream

/-- The `Verbosity` enum. -/
def Silent : ℤ := 0
def Medium : ℤ := 5
def Everything : ℤ := 9

structure Stream where
  text : Str := []
  spaceFlag : Bool := true
  quoteFlag : Bool := false
  vlevel : ℤ := Silent
  ios : Ios := { flags := {.boolalpha, .skipws, .dec} }
  deriving DecidableEq

namespace Stream

def space (s : Stream) : Stream := { s with spaceFlag := true }
def nospace (s : Stream) : Stream := { s with spaceFlag := false }
def quote (s : Stream) : Stream := { s with quoteFlag := true }
def noquote (s : Stream) : Stream := { s with quoteFlag := false }

def verbose (s : Stream) (level : ℤ := Everything) : Stream := { s with vlevel := level }
def medium (s : Stream) : Stream := s.verbose Medium

def str (s : Stream) : Str := s.text

def mayLog (verbosity : ℤ) (s : Stream) : Bool := s.vlevel ≤ verbosity

/-- `m_stream << t`. -/
def put (t : Item) (s : Stream) : Stream :=
  { s with text := s.text ++ (t.print s.ios).1, ios := (t.print s.ios).2 }

def doLogSpace (s : Stream) : Stream := if s.spaceFlag then s.put [' '] else s
def doLogQuote (s : Stream) : Stream := if s.quoteFlag then s.put ['"'] else s

/-- Log what an output stream prints by itself. -/
def doLog (verbosity : ℤ) (t : Item) (s : Stream) : Stream :=
  if s.mayLog verbosity then (s.put t).doLogSpace else s

/-- Log a `std::string`. -/
def doLogQuoted (verbosity : ℤ) (t : Str) (s : Stream) : Stream :=
  if s.mayLog verbosity then (s.doLogQuote.put t).doLogQuote.doLogSpace else s

end Stream

end GtLogging
