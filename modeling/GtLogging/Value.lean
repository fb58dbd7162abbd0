import GtLogging.Stream

/-! @src src/gt_logstream.h, src/gt_logging/*.h | layer:model | the stream operators

    Every `operator<<` of a stream, for values nested to any depth, and the other operations a
    statement performs on its stream. The operators that nest save the state of the stream, change
    its flags and restore the state; what the saver does to the format flags is a `setf`, which
    adds flags but clears none. -/

namespace GtLogging
open Iostream

/-! ### Values -/

/-- The values a stream can log. `wide` is a `char16_t` or a `char32_t`, `smartPtr` a smart pointer
    given by its address, `range` whatever is logged through `doLogIter`. A tuple has at least one
    component. -/
inductive Value where
  | nullptr
  | pointer (t : BitVec 64)
  | bool (t : Bool)
  | char (t : Char)
  | wide (pre : Str) (k : IntType) (t : BitVec k.bits)
  | int (k : IntType) (t : BitVec k.bits)
  | float (shown : FmtFlags → ℤ → Str)
  | cstring (t : Str)
  | string (t : Str)
  | pair (first second : Value)
  | tuple (init : List Value) (last : Value)
  | smartPtr (pre : Str) (get : BitVec 64)
  | range (elems : List Value) (pre suf sep : Str)

namespace Value

def char16 (t : BitVec 16) : Value := wide "u'".toList .int (t.zeroExtend 32)
def char32 (t : BitVec 32) : Value := wide "U'".toList .unsignedInt t

def uniquePtr (get : BitVec 64) : Value := smartPtr "unique_ptr(".toList get
def sharedPtr (get : BitVec 64) : Value := smartPtr "shared_ptr(".toList get

/-- `doLogIter` with the default separator. -/
def container (pre suf : String) (elems : List Value) : Value :=
  range elems pre.toList suf.toList ", ".toList

def array (elems : List Value) : Value := container "[" "]" elems
def vector (elems : List Value) : Value := container "(" ")" elems
def list (elems : List Value) : Value := container "(" ")" elems
def deque (elems : List Value) : Value := container "(" ")" elems
def set (elems : List Value) : Value := container "set\x7b" "\x7d" elems
def multiset (elems : List Value) : Value := container "multiset\x7b" "\x7d" elems
def unorderedSet (elems : List Value) : Value := container "u_set\x7b" "\x7d" elems
def unorderedMultiset (elems : List Value) : Value := container "u_multiset\x7b" "\x7d" elems

/-- The elements of a map are pairs. -/
def entries (elems : List (Value × Value)) : List Value := elems.map fun e => pair e.1 e.2

def map (elems : List (Value × Value)) : Value := container "map\x7b" "\x7d" (entries elems)
def multimap (elems : List (Value × Value)) : Value :=
  container "multimap\x7b" "\x7d" (entries elems)
def unorderedMap (elems : List (Value × Value)) : Value :=
  container "u_map\x7b" "\x7d" (entries elems)
def unorderedMultimap (elems : List (Value × Value)) : Value :=
  container "u_multimap\x7b" "\x7d" (entries elems)

end Value

/-! ### StreamStateSaver -/

structure StreamStateSaver where
  iosflags : FmtFlags
  spaceFlag : Bool
  quoteFlag : Bool
  vlevel : ℤ

namespace StreamStateSaver

/-- The constructor copies the states. -/
def new (s : Stream) : StreamStateSaver := ⟨s.ios.flags, s.spaceFlag, s.quoteFlag, s.vlevel⟩

/-- The destructor reapplies the states: `setf` for the format flags. -/
def destroy (saver : StreamStateSaver) (s : Stream) : Stream :=
  { s with
    ios := s.ios.manip (.setf saver.iosflags)
    spaceFlag := saver.spaceFlag
    quoteFlag := saver.quoteFlag
    vlevel := saver.vlevel }

end StreamStateSaver

/-! ### Logging a value -/

namespace Stream
open StreamStateSaver

/-- `m_stream << m` for a manipulator. -/
def putManip (m : Manip) (s : Stream) : Stream := { s with ios := s.ios.manip m }

/-- `doLog` of a manipulator. -/
def doLogManip (verbosity : ℤ) (m : Manip) (s : Stream) : Stream :=
  if s.mayLog verbosity then (s.putManip m).doLogSpace else s

/-- `operator<<(void const*)`. -/
def logPointer (verbosity : ℤ) (t : BitVec 64) (s : Stream) : Stream :=
  let body := ((s.nospace.doLogManip verbosity .hex).doLog verbosity "0x".toList).doLog verbosity
    (.int .uintptr t)
  -- not guarded by `mayLog`
  ((new s).destroy body).doLogSpace

/-- `operator<<(char16_t)` and `operator<<(char32_t)`. -/
def logWide (verbosity : ℤ) (pre : Str) (k : IntType) (t : BitVec k.bits) (s : Stream) : Stream :=
  let body := (s.nospace.doLog verbosity pre).doLog verbosity (.int k t)
  ((new s).destroy body).doLog verbosity ['\'']

/-- `operator<<` of a smart pointer. -/
def logSmartPtr (verbosity : ℤ) (pre : Str) (get : BitVec 64) (s : Stream) : Stream :=
  let body := (s.nospace.doLog verbosity pre).logPointer verbosity get
  ((new s).destroy body).doLog verbosity [')']

mutual

/-- `s << v`. -/
def log (verbosity : ℤ) : Value → Stream → Stream
  | .nullptr, s => s.doLog verbosity "(nullptr)".toList
  | .pointer t, s => s.logPointer verbosity t
  | .bool t, s => s.doLog verbosity (.bool t)
  | .char t, s => s.doLog verbosity [t]
  | .wide pre k t, s => s.logWide verbosity pre k t
  | .int k t, s => s.doLog verbosity (.int k t)
  | .float shown, s => s.doLog verbosity (.float shown)
  | .cstring t, s => s.doLog verbosity t
  | .string t, s => s.doLogQuoted verbosity t
  | .pair first second, s =>
    let s₁ :=
      if s.mayLog verbosity then
        (new s).destroy (log verbosity second
          ((log verbosity first (s.nospace.quote.doLog verbosity ['('])).doLog verbosity
            ", ".toList))
      else s
    s₁.doLog verbosity [')']
  | .tuple init last, s =>
    ((new s).destroy (log verbosity last
      (logInit verbosity init (s.nospace.quote.doLog verbosity ['('])))).doLog verbosity [')']
  | .smartPtr pre get, s => s.logSmartPtr verbosity pre get
  | .range elems pre suf sep, s =>
    -- `doLogIter`
    if s.mayLog verbosity then
      let s₁ := s.put pre
      let s₂ :=
        if elems.isEmpty then s₁
        else (new s₁).destroy (logElems verbosity sep elems s₁.nospace.quote)
      (s₂.put suf).doLogSpace
    else s

/-- The components of a tuple except the last. -/
def logInit (verbosity : ℤ) : List Value → Stream → Stream
  | [], s => s
  | v :: vs, s => logInit verbosity vs ((log verbosity v s).doLog verbosity ", ".toList)

/-- The elements of a range, a separator after each but the last. -/
def logElems (verbosity : ℤ) (sep : Str) : List Value → Stream → Stream
  | [], s => s
  | [v], s => log verbosity v s
  | v :: w :: vs, s => logElems verbosity sep (w :: vs) ((log verbosity v s).put sep)

end

end Stream

/-! ### Statements -/

/-- What a statement does to its stream. `ostream` is `std::endl`, `std::ends` or `std::flush`, by
    what it writes; `saver` is the scope of a `StreamStateSaver`. -/
inductive StreamOp where
  | value (t : Value)
  | space
  | nospace
  | quote
  | noquote
  | verbose (level : ℤ)
  | manip (m : Manip)
  | setw (n : ℤ)
  | setprecision (n : ℤ)
  | ostream (written : Str)
  | saver (scope : List StreamOp)

namespace StreamOp

mutual

def exec (verbosity : ℤ) : StreamOp → Stream → Stream
  | .value t, s => s.log verbosity t
  | .space, s => s.space
  | .nospace, s => s.nospace
  | .quote, s => s.quote
  | .noquote, s => s.noquote
  | .verbose level, s => s.verbose level
  | .manip m, s => if s.mayLog verbosity then s.putManip m else s
  | .setw n, s => if s.mayLog verbosity then { s with ios := { s.ios with width := n } } else s
  | .setprecision n, s =>
    if s.mayLog verbosity then { s with ios := { s.ios with precision := n } } else s
  | .ostream written, s =>
    if s.mayLog verbosity then { s with text := s.text ++ written } else s
  | .saver scope, s => (StreamStateSaver.new s).destroy (run verbosity scope s)

def run (verbosity : ℤ) : List StreamOp → Stream → Stream
  | [], s => s
  | op :: ops, s => run verbosity ops (exec verbosity op s)

end

@[simp] theorem run_nil (verbosity : ℤ) (s : Stream) : run verbosity [] s = s := by rw [run]

@[simp] theorem run_cons (verbosity : ℤ) (op : StreamOp) (ops : List StreamOp) (s : Stream) :
    run verbosity (op :: ops) s = run verbosity ops (op.exec verbosity s) := by rw [run]

theorem run_append (verbosity : ℤ) (ops ops' : List StreamOp) (s : Stream) :
    run verbosity (ops ++ ops') s = run verbosity ops' (run verbosity ops s) := by
  induction ops generalizing s with
  | nil => rw [List.nil_append, run_nil]
  | cons op ops ih => rw [List.cons_append, run_cons, run_cons, ih]

end StreamOp

end GtLogging
