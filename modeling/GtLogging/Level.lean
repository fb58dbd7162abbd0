import GtLogging.Basic
import GtLogging.Lib.TextSearch

/-! @src src/gt_loglevel.h, src/gt_loglevel.cpp | layer:model | log levels and their texts

    `enum Level : int` has seven declared values, and `levelFromInt` casts any other integer to a
    level as well; such a level carries the proof that it is none of the declared ones, so that a
    level is determined by its integer. -/

namespace GtLogging
open TextSearch

/-- The integers of the declared levels, in the order of declaration. -/
def declaredInts : List ℤ := [1, 2, 4, 8, 16, 32, 128]

inductive Level where
  | TraceLevel
  | DebugLevel
  | InfoLevel
  | WarningLevel
  | ErrorLevel
  | FatalLevel
  | OffLevel
  | undeclared (value : ℤ) (h : value ∉ declaredInts)
  deriving DecidableEq

open Level

def levelToInt : Level → ℤ
  | TraceLevel => 1
  | DebugLevel => 2
  | InfoLevel => 4
  | WarningLevel => 8
  | ErrorLevel => 16
  | FatalLevel => 32
  | OffLevel => 128
  | undeclared value _ => value

def levelFromInt (n : ℤ) : Level :=
  if n = 1 then TraceLevel
  else if n = 2 then DebugLevel
  else if n = 4 then InfoLevel
  else if n = 8 then WarningLevel
  else if n = 16 then ErrorLevel
  else if n = 32 then FatalLevel
  else if h : n ∈ declaredInts then OffLevel
  else undeclared n h

theorem levelFromInt_levelToInt (l : Level) : levelFromInt (levelToInt l) = l := by
  cases l with
  | undeclared n h =>
    have hne : n ≠ 1 ∧ n ≠ 2 ∧ n ≠ 4 ∧ n ≠ 8 ∧ n ≠ 16 ∧ n ≠ 32 ∧ n ≠ 128 := by
      simpa [declaredInts] using h
    simp [levelFromInt, levelToInt, hne, h]
  | _ => rfl

theorem levelToInt_inj {l k : Level} (h : levelToInt l = levelToInt k) : l = k := by
  rw [← levelFromInt_levelToInt l, h, levelFromInt_levelToInt]

/-- A level that is not declared asserts in a debug build and reads as `InfoLevel` otherwise. -/
def levelToText : Level → String
  | TraceLevel => "TRACE"
  | DebugLevel => "DEBUG"
  | InfoLevel => "INFO "
  | WarningLevel => "WARN "
  | ErrorLevel => "ERROR"
  | FatalLevel => "FATAL"
  | OffLevel => ""
  | undeclared _ _ => "INFO "

def levelToString (l : Level) : Str := (levelToText l).toList

/-- `logMessage.find(text) != npos`. -/
def mentions (logMessage : Str) (l : Level) : Bool := (search (levelToString l) logMessage).isSome

theorem mentions_iff (s : Str) (l : Level) : mentions s l ↔ levelToString l <:+: s :=
  isSome_search _ _

/-- The level, and whether the conversion succeeded (`*ok`). -/
def levelFromString (logMessage : Str) : Level × Bool :=
  if mentions logMessage TraceLevel then (TraceLevel, true)
  else if mentions logMessage DebugLevel then (DebugLevel, true)
  else if mentions logMessage InfoLevel then (InfoLevel, true)
  else if mentions logMessage WarningLevel then (WarningLevel, true)
  else if mentions logMessage ErrorLevel then (ErrorLevel, true)
  else if mentions logMessage FatalLevel then (FatalLevel, true)
  else (OffLevel, false)

/-- The levels that `levelFromString` looks for, in its order. -/
def searchOrder : List Level :=
  [TraceLevel, DebugLevel, InfoLevel, WarningLevel, ErrorLevel, FatalLevel]

/-- The levels it looks for before `l`. -/
def searchedBefore (l : Level) : List Level := searchOrder.takeWhile (· ≠ l)

/-- The first level of the search order that the text mentions. -/
theorem levelFromString_eq_find (s : Str) :
    levelFromString s =
      ((searchOrder.find? (mentions s)).map (·, true)).getD (OffLevel, false) := by
  simp only [levelFromString, searchOrder, List.find?_cons, List.find?_nil]
  split_ifs <;> simp_all

/-- What a search through `xs` finds first. -/
theorem find?_eq_some_iff_takeWhile {α : Type*} [DecidableEq α] {p : α → Bool} {x : α}
    {xs : List α} (hx : x ∈ xs) :
    xs.find? p = some x ↔ p x ∧ ∀ y ∈ xs.takeWhile (· ≠ x), p y = false := by
  induction xs with
  | nil => cases hx
  | cons y ys ih =>
    rw [List.find?_cons]
    by_cases hy : y = x
    · subst hy
      cases hp : p y with
      | true => simp
      | false =>
        simp only [List.takeWhile_cons]
        constructor
        · intro h; exact absurd (List.find?_some h) (by simp [hp])
        · intro h; simp at h
    · have hx' : x ∈ ys := (List.mem_cons.mp hx).resolve_left (Ne.symm hy)
      cases hp : p y with
      | true => simp [hy, hp]
      | false => simp [hy, hp, ih hx']

/-- EXACT: the text decodes to `l` iff it mentions `l` and no level that is looked for earlier. -/
theorem levelFromString_iff {s : Str} {l : Level} (hl : l ∈ searchOrder) :
    levelFromString s = (l, true) ↔
      levelToString l <:+: s ∧ ∀ k ∈ searchedBefore l, ¬ levelToString k <:+: s := by
  have hfind : levelFromString s = (l, true) ↔ searchOrder.find? (mentions s) = some l := by
    rw [levelFromString_eq_find]
    cases searchOrder.find? (mentions s) <;> simp
  rw [hfind, find?_eq_some_iff_takeWhile hl, mentions_iff]
  simp only [searchedBefore, ← mentions_iff, Bool.not_eq_true]

end GtLogging
