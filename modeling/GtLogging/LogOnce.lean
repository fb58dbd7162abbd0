import GtLogging.Stream
import GtLogging.Lib.StepMachine

/-! @src src/gt_logging.h, src/gt_logging.cpp | layer:model,result | log-once statements

    A log-once statement hashes its message, its id and the decimal level, looks the hash up in a
    cache, and is delivered if it was not there. The three parts are concatenated without
    separators, so different `(message, id, level)` triples may share one text. Over any sequential
    run, log-once is exact iff no two eligible statements between two clears do. -/

namespace GtLogging

/-- What a statement says: the `(message, id, level)` triple. -/
structure Message where
  text : Str
  id : Str
  level : Level
  deriving DecidableEq

/-- `msg + id + std::to_string(level)`. -/
def Message.key (m : Message) : Str := m.text ++ m.id ++ stdToStringInt (levelToInt m.level)

/-- `gt::log::hash`, over a `std::hash<std::string>`. -/
def hash {H : Type*} (hasher : Str → H) (m : Message) : H := hasher m.key

/-! ### Caches -/

/-- What a log-once cache provides. -/
class LogOnceCache (C : Type*) (H : outParam Type*) where
  append : C → H → C
  clear : C → C
  find : C → H → Bool
  find_append : ∀ c h k, find (append c h) k = true ↔ find c k = true ∨ k = h
  find_clear : ∀ c h, find (clear c) h = false

/-- The vector of hashes behind `Logger::DefaultCache`. -/
structure DefaultCache (H : Type*) where
  cache : List H := []

namespace DefaultCache

variable {H : Type*}

def append (c : DefaultCache H) (h : H) : DefaultCache H := ⟨c.cache ++ [h]⟩
def clear (_ : DefaultCache H) : DefaultCache H := ⟨[]⟩
def find [DecidableEq H] (c : DefaultCache H) (h : H) : Bool := c.cache.contains h

instance [DecidableEq H] : LogOnceCache (DefaultCache H) H where
  append := append
  clear := clear
  find := find
  find_append c h k := by simp [find, append]
  find_clear c h := by simp [find, clear]

end DefaultCache

/-! ### Statements -/

structure LogOnce where
  level : Level
  id : Str
  gtStream : Stream
  deriving DecidableEq

namespace LogOnce

/-- The first half of the destructor: the message, unless the stream may not log or is empty. -/
def message (verbosity : ℤ) (o : LogOnce) : Option Message :=
  if o.gtStream.mayLog verbosity then
    if o.gtStream.str = [] then none else some ⟨o.gtStream.str, o.id, o.level⟩
  else none

/-- The destructor: the cache afterwards, and what is given to `Logger::log`. -/
def destroy {C H : Type*} [LogOnceCache C H] (hasher : Str → H) (verbosity : ℤ) (cache : C)
    (o : LogOnce) : C × Option Message :=
  match o.message verbosity with
  | none => (cache, none)
  | some m =>
    if LogOnceCache.find cache (hash hasher m) then (cache, none)
    else (LogOnceCache.append cache (hash hasher m), some m)

end LogOnce

/-- A statement of the program. The macros test the logging level first (`gated`), a direct call
    of `logOnce` does not. `body` is what the statement does to its stream under a verbosity. -/
structure Statement where
  gated : Bool := true
  level : Level
  id : Str := []
  body : ℤ → Stream → Stream

inductive OnceOp where
  | statement (st : Statement)
  | clear
  | setLoggingLevel (newLevel : Level)
  | setVerbosity (verbosity : ℤ)

/-- The logger's settings. -/
structure Settings where
  level : Level := .InfoLevel
  verbosity : ℤ := Silent

namespace Settings

def passesLevel (g : Settings) (st : Statement) : Bool :=
  !st.gated || levelToInt g.level ≤ levelToInt st.level

/-- The log-once object of a statement when it is destroyed. -/
def logOnce (g : Settings) (st : Statement) : LogOnce :=
  ⟨st.level, st.id, st.body g.verbosity {}⟩

/-- The message of a statement that passes the level gate, may log and is not empty. -/
def eligible (g : Settings) (st : Statement) : Option Message :=
  if g.passesLevel st then (g.logOnce st).message g.verbosity else none

def next (g : Settings) : OnceOp → Settings
  | .setLoggingLevel newLevel => { g with level := newLevel }
  | .setVerbosity verbosity => { g with verbosity := verbosity }
  | _ => g

end Settings

/-! ### Runs -/

/-- The logger and the shared cache; `delivered` records what was delivered since the last clear. -/
structure OnceState (C : Type*) where
  settings : Settings
  cache : C
  delivered : List Message := []

section Runs
variable {C H : Type*} [LogOnceCache C H] (hasher : Str → H)
open LogOnceCache

namespace OnceState

/-- Run one statement: the cache afterwards, and the delivered message. -/
def exec (s : OnceState C) (st : Statement) : C × Option Message :=
  if s.settings.passesLevel st then
    (s.settings.logOnce st).destroy hasher s.settings.verbosity s.cache
  else (s.cache, none)

def next (s : OnceState C) : OnceOp → OnceState C
  | .statement st =>
    { s with cache := (s.exec hasher st).1
             delivered := (s.exec hasher st).2.toList ++ s.delivered }
  | .clear => { s with cache := clear s.cache, delivered := [] }
  | op => { s with settings := s.settings.next op }

/-- What the code delivers, in terms of the eligible message. -/
theorem exec_eq (s : OnceState C) (st : Statement) :
    s.exec hasher st = match s.settings.eligible st with
      | none => (s.cache, none)
      | some m =>
        if find s.cache (hash hasher m) then (s.cache, none)
        else (append s.cache (hash hasher m), some m) := by
  rw [exec, Settings.eligible]
  split_ifs
  · rfl
  · rfl

/-- At a statement: it is delivered iff it is eligible and its triple was not delivered since the
    last clear; and one that is not eligible leaves the cache alone. -/
def ExactAt (s : OnceState C) : OnceOp → Prop
  | .statement st =>
    (∀ m, (s.exec hasher st).2 = some m ↔ s.settings.eligible st = some m ∧ m ∉ s.delivered) ∧
    (s.settings.eligible st = none → (s.exec hasher st).1 = s.cache)
  | _ => True

/-- Log-once is exact at every step of the run. -/
def LogOnceExact (s : OnceState C) (ops : List OnceOp) : Prop :=
  StepMachine.Guarded (fun s op => some (next hasher s op)) (ExactAt hasher) s ops

end OnceState

/-- The eligible messages since the last clear, which depend on the program and its settings
    only. -/
structure Attempts where
  settings : Settings
  seen : List Message := []

namespace Attempts

def next (a : Attempts) : OnceOp → Attempts
  | .statement st => { a with seen := (a.settings.eligible st).toList ++ a.seen }
  | .clear => { a with seen := [] }
  | op => { a with settings := a.settings.next op }

/-- An eligible statement shares its hashed text only with its own triple. -/
def UnambiguousAt (a : Attempts) : OnceOp → Prop
  | .statement st => ∀ m ∈ a.settings.eligible st, ∀ x ∈ a.seen, x.key = m.key → x = m
  | _ => True

instance (a : Attempts) : ∀ op, Decidable (a.UnambiguousAt op)
  | .statement st =>
    inferInstanceAs (Decidable (∀ m ∈ a.settings.eligible st, ∀ x ∈ a.seen, x.key = m.key → x = m))
  | .clear => isTrue trivial
  | .setLoggingLevel _ => isTrue trivial
  | .setVerbosity _ => isTrue trivial

def Unambiguous (a : Attempts) (ops : List OnceOp) : Prop :=
  StepMachine.Guarded (fun a op => some (next a op)) UnambiguousAt a ops

/-- All eligible messages of a run. -/
def eligibles (g : Settings) : List OnceOp → List Message
  | [] => []
  | .statement st :: ops => (g.eligible st).toList ++ eligibles g ops
  | op :: ops => eligibles (g.next op) ops

end Attempts

/-! ### The invariant of a run -/

variable {hasher} {s : OnceState C} {a : Attempts}

/-- RUN INVARIANT: the cache holds exactly the hashes of what was delivered since the last clear. -/
structure Synced (hasher : Str → H) (s : OnceState C) (a : Attempts) : Prop where
  settings : s.settings = a.settings
  found : ∀ h, find s.cache h = true ↔ ∃ x ∈ s.delivered, hash hasher x = h
  delivered : ∀ x ∈ s.delivered, x ∈ a.seen

namespace Synced

/-- A statement that is not eligible, or whose hash is found, changes nothing. -/
theorem exec_skipped (h : Synced hasher s a) {st : Statement}
    (hskip : ∀ m ∈ a.settings.eligible st, ∃ x ∈ s.delivered, hash hasher x = hash hasher m) :
    s.exec hasher st = (s.cache, none) := by
  rw [OnceState.exec_eq, h.settings]
  cases he : a.settings.eligible st with
  | none => rfl
  | some m => exact if_pos ((h.found _).mpr (hskip m he))

/-- An eligible statement whose hash is not found is appended and delivered. -/
theorem exec_fresh (h : Synced hasher s a) {st : Statement} {m : Message}
    (he : a.settings.eligible st = some m)
    (hfresh : ¬ ∃ x ∈ s.delivered, hash hasher x = hash hasher m) :
    s.exec hasher st = (append s.cache (hash hasher m), some m) := by
  rw [OnceState.exec_eq, h.settings, he]
  exact if_neg fun hf => hfresh ((h.found _).mp hf)

/-- STEP: the invariant holds after every operation. -/
theorem next (h : Synced hasher s a) (op : OnceOp) :
    Synced hasher (s.next hasher op) (a.next op) := by
  cases op with
  | statement st =>
    by_cases hskip : ∀ m ∈ a.settings.eligible st,
        ∃ x ∈ s.delivered, hash hasher x = hash hasher m
    · rw [OnceState.next, h.exec_skipped hskip]
      exact ⟨h.settings, h.found, fun x hx => List.mem_append_right _ (h.delivered x hx)⟩
    · push Not at hskip
      obtain ⟨m, he, hfresh⟩ := hskip
      rw [OnceState.next, h.exec_fresh he fun ⟨x, hx, hh⟩ => hfresh x hx hh]
      refine ⟨h.settings, fun k => ?_, ?_⟩
      · rw [find_append, h.found]
        simp [or_comm, eq_comm]
      · intro x hx
        rcases List.mem_cons.mp hx with rfl | hx
        · rw [Attempts.next, he]; exact List.mem_cons_self
        · exact List.mem_append_right _ (h.delivered x hx)
  | clear => exact ⟨h.settings, by simp [OnceState.next, find_clear], by simp [OnceState.next]⟩
  | setLoggingLevel l =>
    exact ⟨congrArg (·.next (.setLoggingLevel l)) h.settings, h.found, h.delivered⟩
  | setVerbosity v =>
    exact ⟨congrArg (·.next (.setVerbosity v)) h.settings, h.found, h.delivered⟩

/-- Where the hashed texts are unambiguous and the hash does not collide, the code is exact. -/
theorem exactAt (h : Synced hasher s a) {op : OnceOp} (hu : a.UnambiguousAt op)
    (hcoll : ∀ st, op = .statement st → ∀ m ∈ a.settings.eligible st, ∀ x ∈ a.seen,
      hash hasher x = hash hasher m → x.key = m.key) : s.ExactAt hasher op := by
  cases op with
  | statement st =>
    have hsame : ∀ m ∈ a.settings.eligible st,
        (∃ x ∈ s.delivered, hash hasher x = hash hasher m) ↔ m ∈ s.delivered := by
      intro m he
      refine ⟨?_, fun hm => ⟨m, hm, rfl⟩⟩
      rintro ⟨x, hx, hh⟩
      have hkey := hcoll st rfl m he x (h.delivered x hx) hh
      rwa [← hu m he x (h.delivered x hx) hkey]
    rw [OnceState.ExactAt, h.settings]
    cases he : a.settings.eligible st with
    | none =>
      rw [h.exec_skipped (by rw [he]; simp)]
      simp
    | some m =>
      refine ⟨fun m' => ?_, by simp⟩
      by_cases hm : m ∈ s.delivered
      · rw [h.exec_skipped (by rw [he]; rintro _ ⟨⟩; exact (hsame m he).mpr hm)]
        simp only [reduceCtorEq, Option.some.injEq, false_iff, not_and, not_not]
        rintro rfl
        exact hm
      · rw [h.exec_fresh he fun hf => hm ((hsame m he).mp hf)]
        simp only [Option.some.injEq]
        exact ⟨fun heq => ⟨heq, heq ▸ hm⟩, fun heq => heq.1⟩
  | _ => trivial

end Synced

/-- What exactness so far says about the past: every eligible statement since the last clear was
    delivered, and no two of them have the same hashed text. -/
structure AllDelivered (s : OnceState C) (a : Attempts) : Prop where
  seen : ∀ x ∈ a.seen, x ∈ s.delivered
  distinct : ∀ x ∈ s.delivered, ∀ y ∈ s.delivered, x.key = y.key → x = y

/-- A message whose text is new stays apart from the others. -/
theorem AllDelivered.distinct_cons {ms : List Message} {m : Message}
    (h : ∀ x ∈ ms, ∀ y ∈ ms, x.key = y.key → x = y) (hm : ∀ x ∈ ms, x.key ≠ m.key) :
    ∀ x ∈ m :: ms, ∀ y ∈ m :: ms, x.key = y.key → x = y := by
  intro x hx y hy hk
  rcases List.mem_cons.mp hx with hxm | hxs
  · rcases List.mem_cons.mp hy with hym | hys
    · rw [hxm, hym]
    · exact absurd (hxm ▸ hk.symm) (hm y hys)
  · rcases List.mem_cons.mp hy with hym | hys
    · exact absurd (hym ▸ hk) (hm x hxs)
    · exact h x hxs y hys hk

/-- STEP: an exact step is unambiguous, and the past stays as described. -/
theorem AllDelivered.step (h : Synced hasher s a) (hd : AllDelivered s a) {op : OnceOp}
    (hex : s.ExactAt hasher op) :
    a.UnambiguousAt op ∧ AllDelivered (s.next hasher op) (a.next op) := by
  cases op with
  | statement st =>
    rw [OnceState.ExactAt, h.settings] at hex
    cases he : a.settings.eligible st with
    | none =>
      refine ⟨by rw [Attempts.UnambiguousAt, he]; simp, ?_⟩
      rw [OnceState.next, h.exec_skipped (by rw [he]; simp), Attempts.next, he]
      exact hd
    | some m =>
      by_cases hf : ∃ x ∈ s.delivered, hash hasher x = hash hasher m
      · -- not delivered, so by exactness the same triple was
        have hskip : s.exec hasher st = (s.cache, none) :=
          h.exec_skipped (by rw [he]; rintro _ ⟨⟩; exact hf)
        have hm : m ∈ s.delivered := by
          by_contra hm
          have := (hex.1 m).mpr ⟨he, hm⟩
          rw [hskip] at this
          cases this
        refine ⟨?_, ?_⟩
        · rw [Attempts.UnambiguousAt, he]
          rintro _ ⟨⟩ x hx hkey
          exact hd.distinct x (hd.seen x hx) m hm hkey
        · rw [OnceState.next, hskip, Attempts.next, he]
          refine ⟨fun x hx => ?_, hd.distinct⟩
          rcases List.mem_cons.mp hx with rfl | hx
          · exact hm
          · exact hd.seen x hx
      · -- delivered, so its text is that of no earlier statement
        have hkey : ∀ x ∈ s.delivered, x.key ≠ m.key :=
          fun x hx hk => hf ⟨x, hx, congrArg hasher hk⟩
        refine ⟨?_, ?_⟩
        · rw [Attempts.UnambiguousAt, he]
          rintro _ ⟨⟩ x hx hk
          exact absurd hk (hkey x (hd.seen x hx))
        · rw [OnceState.next, h.exec_fresh he hf, Attempts.next, he]
          refine ⟨fun x hx => ?_, distinct_cons hd.distinct hkey⟩
          rcases List.mem_cons.mp hx with rfl | hx
          · exact List.mem_cons_self
          · exact List.mem_cons_of_mem _ (hd.seen x hx)
  | clear => exact ⟨trivial, by simp [Attempts.next], by simp [OnceState.next]⟩
  | setLoggingLevel l => exact ⟨trivial, hd.seen, hd.distinct⟩
  | setVerbosity v => exact ⟨trivial, hd.seen, hd.distinct⟩

/-! ### Whole runs -/

theorem exact_of_unambiguous (ops : List OnceOp) (s : OnceState C) (a : Attempts)
    (h : Synced hasher s a)
    (hcoll : ∀ m ∈ Attempts.eligibles a.settings ops ++ a.seen,
      ∀ x ∈ Attempts.eligibles a.settings ops ++ a.seen,
        hash hasher x = hash hasher m → x.key = m.key)
    (hu : a.Unambiguous ops) : s.LogOnceExact hasher ops := by
  induction ops generalizing s a with
  | nil => trivial
  | cons op ops ih =>
    obtain ⟨hu, hrest⟩ := hu
    -- what is eligible later, and was before, is eligible in the run as a whole
    have hsub : ∀ m ∈ Attempts.eligibles (a.next op).settings ops ++ (a.next op).seen,
        m ∈ Attempts.eligibles a.settings (op :: ops) ++ a.seen := by
      intro m hm
      cases op with
      | statement st =>
        simp only [Attempts.next, Attempts.eligibles, List.mem_append] at hm ⊢
        tauto
      | clear =>
        rw [Attempts.next, List.append_nil] at hm
        exact List.mem_append_left _ hm
      | setLoggingLevel l => exact hm
      | setVerbosity v => exact hm
    refine ⟨h.exactAt hu ?_, ?_⟩
    · rintro st rfl m he x hx
      refine hcoll m ?_ x (List.mem_append_right _ hx)
      simp only [Attempts.eligibles, List.mem_append]
      exact Or.inl (Or.inl (by simpa using he))
    · rintro _ ⟨⟩
      exact ih _ _ (h.next op) (fun m hm x hx => hcoll m (hsub m hm) x (hsub x hx)) (hrest _ rfl)

theorem unambiguous_of_exact (ops : List OnceOp) (s : OnceState C) (a : Attempts)
    (h : Synced hasher s a) (hd : AllDelivered s a) (hex : s.LogOnceExact hasher ops) :
    a.Unambiguous ops := by
  induction ops generalizing s a with
  | nil => trivial
  | cons op ops ih =>
    obtain ⟨hex, hrest⟩ := hex
    obtain ⟨hu, hd'⟩ := hd.step h hex
    refine ⟨hu, ?_⟩
    rintro _ ⟨⟩
    exact ih _ _ (h.next op) hd' (hrest _ rfl)

/-- EXACT: over a run of log-once statements on an empty cache, with no collision of the hash on
    the texts hashed in it, log-once is exact iff no two eligible statements without a clear
    between them differ as triples but agree as concatenations. -/
theorem logOnce_exact_iff (hasher : Str → H) (g : Settings) (c : C) (ops : List OnceOp)
    (hempty : ∀ h, find c h = false)
    (hcoll : ∀ m ∈ Attempts.eligibles g ops, ∀ x ∈ Attempts.eligibles g ops,
      hash hasher x = hash hasher m → x.key = m.key) :
    OnceState.LogOnceExact hasher ⟨g, c, []⟩ ops ↔ Attempts.Unambiguous ⟨g, []⟩ ops := by
  have h : Synced hasher (⟨g, c, []⟩ : OnceState C) ⟨g, []⟩ := ⟨rfl, by simp [hempty], by simp⟩
  constructor
  · exact unambiguous_of_exact ops _ _ h ⟨by simp, by simp⟩
  · exact exact_of_unambiguous ops _ _ h (by simpa using hcoll)

end Runs

/-- FNV-1a, the `std::hash<std::string>` of one standard library. -/
def fnv1a (s : Str) : UInt64 :=
  s.foldl (fun h c => (h ^^^ UInt64.ofNat c.toNat) * 0x100000001b3) 0xcbf29ce484222325

/-- `gtLogOnceId(LEVEL, id) << txt`. -/
def onceText (level : Level) (id txt : String) : OnceOp :=
  .statement { level := level, id := id.toList, body := fun v s => s.doLog v txt.toList }

/-- The same text under two ids and again: two deliveries, one suppressed. -/
def twoIds : List OnceOp :=
  [onceText .InfoLevel "net" "up", onceText .InfoLevel "disk" "up", onceText .InfoLevel "net" "up",
    .clear, onceText .InfoLevel "net" "up"]

theorem twoIds_exact :
    OnceState.LogOnceExact fnv1a ⟨{}, (⟨[]⟩ : DefaultCache UInt64), []⟩ twoIds :=
  (logOnce_exact_iff fnv1a {} (⟨[]⟩ : DefaultCache UInt64) twoIds (fun _ => rfl)
    (by decide)).mpr (by rw [Attempts.Unambiguous]; decide)

/-- A debug message of the id `"3"`, and the same text as a fatal message without an id. -/
def debugThenFatal : List OnceOp :=
  [.setLoggingLevel .DebugLevel, onceText .DebugLevel "3" "disk", onceText .FatalLevel "" "disk"]

/-- COUNTEREXAMPLE: both are hashed as `"disk 32"`, so the fatal message is swallowed. -/
theorem fatal_swallowed_by_debug :
    ¬ OnceState.LogOnceExact fnv1a ⟨{}, (⟨[]⟩ : DefaultCache UInt64), []⟩ debugThenFatal := by
  rintro ⟨-, h⟩
  obtain ⟨-, h⟩ := h _ rfl
  obtain ⟨⟨h, -⟩, -⟩ := h _ rfl
  have hdelivered := (h ⟨"disk ".toList, [], .FatalLevel⟩).mpr ⟨by decide, by decide⟩
  revert hdelivered
  decide

end GtLogging
