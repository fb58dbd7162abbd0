import GtLogging.Registry
import GtLogging.Filter
import GtLogging.Lib.PrefixCodec

/-! @src src/gt_logformatter.h | layer:abstract,result | reading default lines back

    The default line is `LEVEL [HH:MM:SS] [id] message`, without the brackets of the id where the id
    is empty. What can be read back from it is an abstract question: the reader below takes the
    level, the time and the first bracketed text, and leaves the rest as the message. It accepts
    exactly the lines of canonical records and gives back exactly the record. A record is canonical
    when its level is a declared one, its id does not close a bracket early, and, where it has no
    id, its message does not pose as one. -/

namespace GtLogging
open TextSearch Level

/-- The default line of a record. -/
def Record.text (r : Record) : Str := Formatter.Default r.message r.level r.details

/-! ### The part in front of the id -/

theorem digitChar_inj : ∀ m < 10, ∀ n < 10, Nat.digitChar m = Nat.digitChar n → m = n := by decide

theorem twoDigits_inj {m n : ℕ} (hm : m < 100) (hn : n < 100) (h : twoDigits m = twoDigits n) :
    m = n := by
  obtain ⟨htens, hrest⟩ := List.cons.inj h
  have hones := (List.cons.inj hrest).1
  have h₁ := digitChar_inj (m / 10) (by omega) (n / 10) (by omega) htens
  have h₂ := digitChar_inj (m % 10) (by omega) (n % 10) (by omega) hones
  omega

namespace LineReader

def declaredLevels : List Level :=
  [TraceLevel, DebugLevel, InfoLevel, WarningLevel, ErrorLevel, FatalLevel, OffLevel]

theorem mem_declaredLevels {l : Level} : l ∈ declaredLevels ↔ l.Declared := by
  cases l with
  | undeclared value h => simp [declaredLevels, Level.Declared, levelToInt, h]
  | _ => simp [declaredLevels, Level.Declared, levelToInt, declaredInts]

/-- The level and `" ["`. -/
def level : PrefixCodec Char Level :=
  .table declaredLevels (fun l => levelToString l ++ " [".toList) (by decide)

/-- Two digits below `n`, and what stands behind them. -/
def number (n : ℕ) (hn : n ≤ 100) (close : Str) : PrefixCodec Char (Fin n) :=
  .table (List.finRange n) (fun k => twoDigits k ++ close) fun k _ m _ h => by
    have heq : twoDigits k ++ close = twoDigits m ++ close :=
      h.eq_of_length (by simp [twoDigits])
    exact Fin.ext (twoDigits_inj (by omega) (by omega) (List.append_cancel_right heq))

def header : PrefixCodec Char (Level × Fin 24 × Fin 60 × Fin 61) :=
  level.seq ((number 24 (by omega) [':']).seq
    ((number 60 (by omega) [':']).seq (number 61 (by omega) "] ".toList)))

theorem good_header {l : Level} {h : Fin 24} {m : Fin 60} {s : Fin 61} :
    header.Good (l, h, m, s) ↔ l.Declared := by
  simp [header, level, number, PrefixCodec.seq, PrefixCodec.table, mem_declaredLevels]

/-! ### The id and the message -/

/-- Nothing in it closes a bracket. -/
def Clean (x : Str) : Prop := ¬ [']', ' '] <:+: x

instance (x : Str) : Decidable (Clean x) := inferInstanceAs (Decidable (¬ _))

/-- What follows the time. -/
def tailText (id message : Str) : Str :=
  if id = [] then message else '[' :: (id ++ ']' :: ' ' :: message)

/-- It reads as a bracketed text and a message. -/
def PosesAsId (message : Str) : Prop :=
  ∃ x t, x ≠ [] ∧ Clean x ∧ message = '[' :: (x ++ ']' :: ' ' :: t)

/-- An id and a message that are told apart. -/
def CanonicalTail (id message : Str) : Prop :=
  if id = [] then ¬ PosesAsId message else Clean id

theorem canonicalTail_of_clean {id : Str} (hid : id ≠ []) (hc : Clean id) (message : Str) :
    CanonicalTail id message := by
  rwa [CanonicalTail, if_neg hid]

def closed : PrefixCodec Char Str := .upTo [']', ' ']

theorem closed_read {s x t : Str} :
    closed.read s = some (x, t) ↔ Clean x ∧ s = x ++ ']' :: ' ' :: t := by
  rw [closed.law, closed, PrefixCodec.upTo]
  simp only [search_append_pair (show ']' ≠ ' ' by decide), List.append_assoc, List.cons_append,
    List.nil_append, Clean]

/-- A first text in brackets is the id; without one, or with an empty one, all is message. -/
def readTail : Str → Str × Str
  | '[' :: s =>
    match closed.read s with
    | some (x, t) => if x = [] then ([], '[' :: s) else (x, t)
    | none => ([], '[' :: s)
  | s => ([], s)

/-- A message that poses as an id is read as one. -/
theorem readTail_posing {x t : Str} (hx : x ≠ []) (hc : Clean x) :
    readTail ('[' :: (x ++ ']' :: ' ' :: t)) = (x, t) := by
  have hread : closed.read (x ++ ']' :: ' ' :: t) = some (x, t) := closed_read.mpr ⟨hc, rfl⟩
  simp only [readTail, hread, if_neg hx]

/-- Any other text is all message. -/
theorem readTail_plain {s : Str} (h : ¬ PosesAsId s) : readTail s = ([], s) := by
  rw [readTail.eq_def]
  split
  · rename_i s'
    split
    · rename_i x t hread
      obtain ⟨hc, rfl⟩ := closed_read.mp hread
      by_cases hx : x = []
      · rw [if_pos hx]
      · exact absurd ⟨x, t, hx, hc, rfl⟩ h
    · rfl
  · rfl

theorem readTail_iff {s id message : Str} :
    readTail s = (id, message) ↔ CanonicalTail id message ∧ s = tailText id message := by
  constructor
  · intro h
    by_cases hpose : PosesAsId s
    · obtain ⟨x, t, hx, hc, rfl⟩ := hpose
      rw [readTail_posing hx hc] at h
      obtain ⟨rfl, rfl⟩ := Prod.mk.inj h
      exact ⟨canonicalTail_of_clean hx hc t, by rw [tailText, if_neg hx]⟩
    · rw [readTail_plain hpose] at h
      obtain ⟨rfl, rfl⟩ := Prod.mk.inj h
      exact ⟨by rwa [CanonicalTail, if_pos rfl], by rw [tailText, if_pos rfl]⟩
  · rintro ⟨hcan, rfl⟩
    rw [CanonicalTail] at hcan
    rw [tailText]
    split_ifs at hcan ⊢ with hid
    · rw [readTail_plain hcan, hid]
    · exact readTail_posing hid hcan

end LineReader

/-! ### A whole line -/

open LineReader

def readLine (s : Str) : Option Record :=
  (header.read s).map fun r =>
    let tail := readTail r.2
    { message := tail.2
      level := r.1.1
      details := { id := tail.1, time := ⟨r.1.2.1, r.1.2.2.1, r.1.2.2.2⟩ } }

/-- The record of a default line that can be read back. -/
structure Record.Canonical (r : Record) : Prop where
  level : r.level.Declared
  tail : CanonicalTail r.details.id r.message

theorem Record.text_eq (r : Record) :
    r.text = header.print (r.level, r.details.time.hour, r.details.time.min, r.details.time.sec) ++
      tailText r.details.id r.message := by
  rw [Record.text, Formatter.Default_eq]
  simp [header, LineReader.level, number, PrefixCodec.seq, PrefixCodec.table, tailText, formatTime]

/-- The reader accepts the default lines of the canonical records and no other text, and gives back
    the record. -/
theorem readLine_iff (s : Str) (r : Record) :
    readLine s = some r ↔ r.Canonical ∧ r.text = s := by
  obtain ⟨message, lvl, id, h, m, sec⟩ := r
  rw [readLine, Option.map_eq_some_iff, Record.text_eq]
  constructor
  · rintro ⟨⟨⟨l', h', m', s'⟩, rest⟩, hread, heq⟩
    obtain ⟨hgood, rfl⟩ := (header.law _ _ _).mp hread
    simp only [Record.mk.injEq, Details.mk.injEq, Tm.mk.injEq] at heq
    obtain ⟨hmsg, rfl, hid, rfl, rfl, rfl⟩ := heq
    obtain ⟨hcan, hrest⟩ := readTail_iff.mp (Prod.ext hid hmsg)
    exact ⟨⟨good_header.mp hgood, hcan⟩, by rw [hrest]⟩
  · rintro ⟨⟨hlevel, hcan⟩, rfl⟩
    refine ⟨((lvl, h, m, sec), tailText id message), ?_, ?_⟩
    · exact (header.law _ _ _).mpr ⟨good_header.mpr hlevel, rfl⟩
    · simp only [readTail_iff.mpr ⟨hcan, rfl⟩]

/-- A level that is not declared is printed as `InfoLevel`. -/
theorem exists_declared (r : Record) :
    ∃ l : Level, l.Declared ∧ { r with level := l }.text = r.text := by
  cases hl : r.level with
  | undeclared value h =>
    refine ⟨InfoLevel, by decide, ?_⟩
    rw [Record.text, Record.text, Formatter.Default_eq, Formatter.Default_eq, hl]
    rfl
  | _ => exact ⟨r.level, by rw [hl]; decide, rfl⟩

/-- EXACT: reading inverts printing on the canonical records, and every line the formatter can
    produce is the line of exactly one canonical record. -/
theorem default_line_codec :
    (∀ s r, readLine s = some r ↔ r.Canonical ∧ r.text = s) ∧
      ∀ r : Record, ∃! c : Record, c.Canonical ∧ c.text = r.text := by
  refine ⟨readLine_iff, fun r => ?_⟩
  obtain ⟨l, hl, htext⟩ := exists_declared r
  have hread : header.read r.text = some
      ((l, r.details.time.hour, r.details.time.min, r.details.time.sec),
        tailText r.details.id r.message) :=
    (header.law _ _ _).mpr ⟨good_header.mpr hl, by rw [← htext, Record.text_eq]⟩
  have hsome : ∃ c, readLine r.text = some c := by
    rw [readLine, hread]
    exact ⟨_, rfl⟩
  obtain ⟨c, hc⟩ := hsome
  refine ⟨c, (readLine_iff _ c).mp hc, fun c' hc' => ?_⟩
  exact Option.some.inj (((readLine_iff _ c').mpr hc').symm.trans hc)

end GtLogging
