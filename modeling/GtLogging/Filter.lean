import GtLogging.Formatter

/-! @src src/gt_logdest.h | layer:model,result | the level filter of a formatted destination

    A formatted destination keeps one bit for each level, all of them set at first. `filterLevel`
    sets or clears the bit of a level. `filterAll(false)` clears every bit, but `filterAll(true)` is
    an and with -1 as well and sets none: the filter follows the last call that concerns a level,
    unless that is a `filterAll(true)` after the level was excluded. -/

namespace GtLogging
open Level

structure FormattedDestination where
  formatter : Str → Level → Details → Str := Formatter.Default
  /-- `m_filter`, an `int`. -/
  filterBits : BitVec 32 := -1

namespace FormattedDestination

/-- `levelToInt`, as an `int`. -/
def levelBits (level : Level) : BitVec 32 := BitVec.ofInt 32 (levelToInt level)

def filter (level : Level) (d : FormattedDestination) : Bool := d.filterBits &&& levelBits level ≠ 0

def filterLevel (level : Level) (included : Bool := true) (d : FormattedDestination) :
    FormattedDestination :=
  if included then { d with filterBits := d.filterBits ||| levelBits level }
  else { d with filterBits := d.filterBits &&& ~~~levelBits level }

def filterAll (included : Bool := true) (d : FormattedDestination) : FormattedDestination :=
  { d with filterBits := d.filterBits &&& if included then -1 else 0 }

/-- `write`, up to the line the destination is given. -/
def write (message : Str) (level : Level) (details : Details) (d : FormattedDestination) :
    Option Str :=
  if d.filter level then some (d.formatter message level details) else none

end FormattedDestination

/-! ### The bit of a level -/

/-- One of the enumerators. -/
def Level.Declared (l : Level) : Prop := levelToInt l ∈ declaredInts

instance (l : Level) : Decidable l.Declared := inferInstanceAs (Decidable (_ ∈ _))

def Level.bit : Level → ℕ
  | TraceLevel => 0
  | DebugLevel => 1
  | InfoLevel => 2
  | WarningLevel => 3
  | ErrorLevel => 4
  | FatalLevel => 5
  | OffLevel => 7
  | undeclared _ _ => 31

theorem levelBits_eq {l : Level} (h : l.Declared) :
    FormattedDestination.levelBits l = BitVec.twoPow 32 l.bit := by
  cases l with
  | undeclared value hv => exact absurd h hv
  | _ => decide

theorem bit_lt (l : Level) : l.bit < 32 := by cases l <;> simp [Level.bit]

theorem levelToInt_eq {l : Level} (h : l.Declared) : levelToInt l = 2 ^ l.bit := by
  cases l with
  | undeclared value hv => exact absurd h hv
  | _ => rfl

theorem bit_inj {l k : Level} (hl : l.Declared) (hk : k.Declared) (h : l.bit = k.bit) : l = k := by
  refine levelToInt_inj ?_
  rw [levelToInt_eq hl, levelToInt_eq hk, h]

namespace FormattedDestination

variable {d : FormattedDestination} {x : Level}

theorem filter_eq (hx : x.Declared) : d.filter x = d.filterBits.getLsbD x.bit := by
  have hne : BitVec.twoPow 32 x.bit ≠ 0#32 := by
    intro h
    have hbit := congrArg (·.getLsbD x.bit) h
    simp only [BitVec.getLsbD_twoPow, bit_lt, BitVec.getLsbD_zero] at hbit
    simp at hbit
  rw [filter, levelBits_eq hx, BitVec.and_twoPow]
  cases d.filterBits.getLsbD x.bit with
  | true => simpa using hne
  | false => simp

/-- STEP: a call on one level. -/
theorem filter_filterLevel (hx : x.Declared) {l : Level} (hl : l.Declared) (included : Bool) :
    (d.filterLevel l included).filter x = if l = x then included else d.filter x := by
  have hbit : l.bit = x.bit ↔ l = x := ⟨bit_inj hl hx, fun h => by rw [h]⟩
  rw [filter_eq hx, filter_eq hx, filterLevel]
  cases included with
  | true =>
    simp only [if_true, BitVec.getLsbD_or, levelBits_eq hl, BitVec.getLsbD_twoPow, bit_lt, hbit]
    by_cases h : l = x <;> simp [h]
  | false =>
    simp only [Bool.false_eq_true, if_false, BitVec.getLsbD_and, BitVec.getLsbD_not,
      levelBits_eq hl, BitVec.getLsbD_twoPow, bit_lt, hbit]
    by_cases h : l = x <;> simp [h]

/-- STEP: a call on all levels; only an exclusion has an effect. -/
theorem filter_filterAll (hx : x.Declared) (included : Bool) :
    (d.filterAll included).filter x = (included && d.filter x) := by
  rw [filter_eq hx, filter_eq hx, filterAll]
  cases included with
  | true =>
    have hall : (-1 : BitVec 32) = BitVec.allOnes 32 := by decide
    rw [if_pos rfl, hall, BitVec.and_allOnes, Bool.true_and]
  | false => simp

end FormattedDestination

/-! ### Runs of calls -/

inductive FilterCall where
  | filterLevel (level : Level) (included : Bool)
  | filterAll (included : Bool)
  deriving DecidableEq

namespace FilterCall

def exec : FilterCall → FormattedDestination → FormattedDestination
  | filterLevel level included, d => d.filterLevel level included
  | filterAll included, d => d.filterAll included

def run (calls : List FilterCall) (d : FormattedDestination) : FormattedDestination :=
  calls.foldl (fun d call => call.exec d) d

/-- The level a call names is declared. -/
def Declared : FilterCall → Prop
  | filterLevel level _ => level.Declared
  | filterAll _ => True

/-- What a call says about level `x`, if it concerns it. -/
def verdict (x : Level) : FilterCall → Option Bool
  | filterLevel level included => if level = x then some included else none
  | filterAll included => some included

/-- The last call that concerns `x`. -/
def lastConcerning (x : Level) (calls : List FilterCall) : Option FilterCall :=
  calls.reverse.find? fun call => (call.verdict x).isSome

/-- LAW: what the last call that concerns `x` says, and inclusion if there is none. -/
def lastVerdict (x : Level) (calls : List FilterCall) : Bool :=
  ((lastConcerning x calls).bind (verdict x)).getD true

/-- Leave out every `filterAll(true)`. -/
def withoutReinclusion (calls : List FilterCall) : List FilterCall :=
  calls.filter fun call => call ≠ filterAll true

variable {x : Level} {d : FormattedDestination}

theorem lastConcerning_concat (calls : List FilterCall) (call : FilterCall) :
    lastConcerning x (calls ++ [call]) =
      if (call.verdict x).isSome then some call else lastConcerning x calls := by
  simp only [lastConcerning, List.reverse_append, List.reverse_singleton, List.singleton_append,
    List.find?_cons]
  cases (call.verdict x).isSome <;> rfl

theorem lastVerdict_concat (calls : List FilterCall) (call : FilterCall) :
    lastVerdict x (calls ++ [call]) = (call.verdict x).getD (lastVerdict x calls) := by
  rw [lastVerdict, lastConcerning_concat]
  cases h : call.verdict x with
  | none => rfl
  | some b => simp [h]

theorem withoutReinclusion_concat (calls : List FilterCall) (call : FilterCall) :
    withoutReinclusion (calls ++ [call]) =
      if call = filterAll true then withoutReinclusion calls
      else withoutReinclusion calls ++ [call] := by
  rw [withoutReinclusion, List.filter_append]
  split_ifs with h
  · simp [h, withoutReinclusion]
  · rw [List.filter_cons_of_pos (by simpa using h)]; rfl

/-- STEP: a call does what it says, `filterAll(true)` excepted. -/
theorem filter_exec (hx : x.Declared) {call : FilterCall} (hc : call.Declared) :
    (call.exec d).filter x =
      if call = filterAll true then d.filter x else (call.verdict x).getD (d.filter x) := by
  cases call with
  | filterLevel level included =>
    have hne : filterLevel level included ≠ filterAll true := FilterCall.noConfusion
    rw [exec, FormattedDestination.filter_filterLevel hx hc, if_neg hne, verdict]
    split_ifs <;> rfl
  | filterAll included =>
    rw [exec, FormattedDestination.filter_filterAll hx]
    cases included with
    | true => rfl
    | false => rfl

/-- RUN: the filter is the law for the calls without the re-inclusions. -/
theorem filter_run (hx : x.Declared) {calls : List FilterCall} (hcalls : ∀ c ∈ calls, c.Declared)
    (hd : d.filterBits = -1) :
    (run calls d).filter x = lastVerdict x (withoutReinclusion calls) := by
  induction calls using List.reverseRecOn with
  | nil =>
    rw [FormattedDestination.filter_eq hx, run, List.foldl_nil, hd,
      show (-1 : BitVec 32) = BitVec.allOnes 32 by decide, BitVec.getLsbD_allOnes]
    simp [bit_lt, lastVerdict, lastConcerning, withoutReinclusion]
  | append_singleton calls call ih =>
    have hstep := filter_exec (d := run calls d) hx (hcalls call (by simp))
    rw [ih fun c hc => hcalls c (by simp [hc])] at hstep
    rw [run, List.foldl_append, List.foldl_cons, List.foldl_nil, ← run, hstep,
      withoutReinclusion_concat]
    split_ifs
    · rfl
    · rw [lastVerdict_concat]

/-- Where the last call that concerns `x` is no re-inclusion, leaving these out changes nothing. -/
theorem lastVerdict_withoutReinclusion {calls : List FilterCall}
    (h : lastConcerning x calls ≠ some (filterAll true)) :
    lastVerdict x (withoutReinclusion calls) = lastVerdict x calls := by
  induction calls using List.reverseRecOn with
  | nil => rfl
  | append_singleton calls call ih =>
    rw [lastConcerning_concat] at h
    rw [withoutReinclusion_concat, lastVerdict_concat]
    split_ifs with hall
    · subst hall
      exact absurd rfl h
    · rw [lastVerdict_concat]
      cases hv : call.verdict x with
      | none =>
        rw [hv] at h
        exact ih h
      | some b => rfl

/-- EXACT: the filter answers for `x` what the last call that concerns `x` says iff that call is no
    `filterAll(true)`, or `x` was included without it. -/
theorem filter_lastVerdict_iff (hx : x.Declared) {calls : List FilterCall}
    (hcalls : ∀ c ∈ calls, c.Declared) (hd : d.filterBits = -1) :
    (run calls d).filter x = lastVerdict x calls ↔
      (lastConcerning x calls = some (filterAll true) →
        lastVerdict x (withoutReinclusion calls) = true) := by
  rw [filter_run hx hcalls hd]
  by_cases h : lastConcerning x calls = some (filterAll true)
  · have hlaw : lastVerdict x calls = true := by rw [lastVerdict, h]; rfl
    rw [hlaw]
    exact ⟨fun hf _ => hf, fun hf => hf h⟩
  · exact ⟨fun _ hl => absurd hl h, fun _ => lastVerdict_withoutReinclusion h⟩

/-- Narrowing first and then adding a level, as the tests do. -/
theorem filter_none_then_error :
    ErrorLevel.Declared ∧
    (∀ c ∈ [filterAll false, filterLevel ErrorLevel true, filterLevel InfoLevel false],
      c.Declared) ∧
    ({} : FormattedDestination).filterBits = -1 ∧
    (run [filterAll false, filterLevel ErrorLevel true, filterLevel InfoLevel false] {}).filter
      ErrorLevel = true :=
  have hcalls : ∀ c ∈ [filterAll false, filterLevel ErrorLevel true, filterLevel InfoLevel false],
      c.Declared := by simp [Declared]; decide
  ⟨by decide, hcalls, rfl,
    ((filter_lastVerdict_iff (d := {}) (x := ErrorLevel) (by decide) hcalls rfl).mpr
      (by decide)).trans (by decide)⟩

/-- COUNTEREXAMPLE: `filterAll(true)` after `filterAll(false)` includes nothing again. -/
theorem filterAll_does_not_reinclude :
    (run [filterAll false, filterAll true] {}).filter InfoLevel ≠
      lastVerdict InfoLevel [filterAll false, filterAll true] := by
  decide

end FilterCall

end GtLogging
