import GtLogging.Lib.Disk

/-! @src std | layer:model | strings, files and the outside world

    A `std::string` is the list of its `char`s, one list entry a byte. The world a log destination
    acts on is a disk and what was printed to `std::cerr`. `Faults` says which calls on which paths
    fail; a failing call leaves the disk as it was. Writes to an open stream succeed. -/

namespace GtLogging

abbrev Str := List Char

/-- `std::to_string` of an unsigned value. -/
def stdToString (n : ℕ) : Str := Nat.toDigits 10 n

theorem stdToString_inj {m n : ℕ} (h : stdToString m = stdToString n) : m = n := by
  have hm := Nat.ofDigitChars_ten_toDigits (n := m)
  rw [show Nat.toDigits 10 m = Nat.toDigits 10 n from h, Nat.ofDigitChars_ten_toDigits] at hm
  exact hm.symm

/-- `std::to_string` of an `int`. -/
def stdToStringInt (n : ℤ) : Str :=
  if n < 0 then '-' :: stdToString n.natAbs else stdToString n.natAbs

/-- `warnings` is the history of the warnings in `cerr`, one by one; nothing reads it. -/
structure World where
  disk : Disk Str Char := Disk.empty
  cerr : Str := []
  warnings : List Str := []

/-- `std::cerr << msg`, for a warning. -/
def World.warn (w : World) (msg : Str) : World :=
  { w with cerr := w.cerr ++ msg, warnings := w.warnings ++ [msg] }

@[simp] theorem World.disk_warn (w : World) (msg : Str) : (w.warn msg).disk = w.disk := rfl

/-- What every warning looks like: it starts with the name of the library and ends its line. -/
def IsWarning (msg : Str) : Prop := "GtLogging: ".toList <+: msg ∧ ['\n'] <:+ msg

theorem isWarning_append {a b : Str} (ha : "GtLogging: ".toList <+: a) (hb : ['\n'] <:+ b) :
    IsWarning (a ++ b) :=
  ⟨List.prefix_append_of_prefix ha, List.suffix_append_of_suffix hb⟩

/-- Which `std::remove` and `std::rename` calls the system refuses, and which opens: of the stream a
    destination writes to, of the stream that measures its file, and of the probe that reads. -/
structure Faults where
  removeFails : Str → Bool := fun _ => false
  renameFails : Str → Str → Bool := fun _ _ => false
  openFails : Str → Bool := fun _ => false
  measureFails : Str → Bool := fun _ => false
  probeFails : Str → Bool := fun _ => false

/-- Every file operation succeeds. -/
def Faults.none : Faults := {}

@[simp] theorem Faults.none_removeFails (p : Str) : Faults.none.removeFails p = false := rfl
@[simp] theorem Faults.none_renameFails (p q : Str) : Faults.none.renameFails p q = false := rfl
@[simp] theorem Faults.none_openFails (p : Str) : Faults.none.openFails p = false := rfl
@[simp] theorem Faults.none_measureFails (p : Str) : Faults.none.measureFails p = false := rfl
@[simp] theorem Faults.none_probeFails (p : Str) : Faults.none.probeFails p = false := rfl

/-- `std::ofstream::open`; `none` is a stream that is not open. -/
def openStream (fails : Str → Bool) (p : Str) (m : OpenMode) (w : World) : Option Handle × World :=
  if fails p then (none, w)
  else match w.disk.openFile p m with
    | none => (none, w)
    | some (h, d) => (some h, { w with disk := d })

/-- `stream << txt` and flush; a stream that is not open drops the text. -/
def writeStream (s : Option Handle) (txt : Str) (w : World) : Option Handle × World :=
  match s with
  | none => (none, w)
  | some h => (some (w.disk.write '\x00' h txt).1, { w with disk := (w.disk.write '\x00' h txt).2 })

end GtLogging
