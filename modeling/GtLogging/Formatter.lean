import GtLogging.Level

/-! @src src/gt_logformatter.h | layer:model | formatting a log line

    `format` inserts the texts of its arguments for the identifiers `%1`, `%2`, … by splitting the
    format at the first occurrence of an identifier and going on with the next argument on both
    sides. Of `std::tm` only what `%H:%M:%S` prints is modelled. -/

namespace GtLogging
open TextSearch

/-- The fields of a `std::tm` that `std::put_time` reads for `%H:%M:%S`; 60 is a leap second. -/
structure Tm where
  hour : Fin 24
  min : Fin 60
  sec : Fin 61
  deriving DecidableEq

/-- Noon, where a run on fixed inputs needs a time. -/
def noon : Tm := ⟨12, 0, 0⟩

structure Details where
  id : Str
  time : Tm
  deriving DecidableEq

def twoDigits (n : ℕ) : Str := [Nat.digitChar (n / 10), Nat.digitChar (n % 10)]

/-- `std::put_time(&time, "%H:%M:%S")`. -/
def formatTime (time : Tm) : Str :=
  twoDigits time.hour ++ ':' :: twoDigits time.min ++ ':' :: twoDigits time.sec

theorem digitChar_isDigit : ∀ n < 10, (Nat.digitChar n).isDigit = true := by decide

theorem isDigit_twoDigits {n : ℕ} (h : n < 100) {c : Char} (hc : c ∈ twoDigits n) :
    c.isDigit = true := by
  rcases List.mem_pair.mp hc with rfl | rfl
  · exact digitChar_isDigit _ (by omega)
  · exact digitChar_isDigit _ (by omega)

/-- The time is rendered as digits and colons. -/
theorem mem_formatTime {t : Tm} {c : Char} (hc : c ∈ formatTime t) :
    c.isDigit = true ∨ c = ':' := by
  have hh := isDigit_twoDigits (show t.hour.val < 100 by omega) (c := c)
  have hm := isDigit_twoDigits (show t.min.val < 100 by omega) (c := c)
  have hs := isDigit_twoDigits (show t.sec.val < 100 by omega) (c := c)
  simp only [formatTime, List.mem_append, List.mem_cons] at hc
  tauto

/-- The identifier of argument `idx`: `"%1"` with `idx` added to its last character. -/
def ident (idx : ℕ) : Str := ['%', Char.ofNat (('1'.toNat + idx) % 256)]

/-- Insert the arguments, the first of them being number `idx`. -/
def formatImpl (idx : ℕ) (s : Str) : List Str → Str
  | [] => s
  | arg :: args =>
    match search (ident idx) s with
    | some i =>
      -- the next identifier may stand in front of this one
      formatImpl (idx + 1) (s.take i) args ++ arg ++ formatImpl (idx + 1) (s.drop (i + 2)) args
    | none => formatImpl (idx + 1) s args

def format (fmt : Str) (args : List Str) : Str := formatImpl 0 fmt args

namespace Formatter

/-- The default functor. -/
def Default (msg : Str) (lvl : Level) (dts : Details) : Str :=
  if dts.id = [] then
    format "%1 [%2] %3".toList [levelToString lvl, formatTime dts.time, msg]
  else
    format "%1 [%2] [%3] %4".toList [levelToString lvl, formatTime dts.time, dts.id, msg]

/-- Message only; warnings and errors are prefixed with the log level. -/
def MessageOnly (msg : Str) (lvl : Level) (_dts : Details) : Str :=
  if levelToInt lvl ≤ levelToInt .InfoLevel then msg
  else format "%1: %2".toList [levelToString lvl, msg]

/-- The line of `Default`, spelled out. -/
theorem Default_eq (msg : Str) (lvl : Level) (dts : Details) :
    Default msg lvl dts = levelToString lvl ++ ' ' :: '[' :: (formatTime dts.time ++ ']' :: ' ' ::
      if dts.id = [] then msg else '[' :: (dts.id ++ ']' :: ' ' :: msg)) := by
  rw [Default]
  split_ifs with h
  · simp [format, formatImpl, search, ident]
  · simp [format, formatImpl, search, ident]

end Formatter

end GtLogging
