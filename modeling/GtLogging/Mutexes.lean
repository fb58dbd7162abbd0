import GtLogging.Threads
import GtLogging.Lib.Monitor

/-! @src src/gt_logging.cpp, src/gt_logging.h | layer:model,refinement | the logger with its mutexes

    A guarded section takes as long as it takes: the lock, every access to the vector behind it,
    every call of a destination and the unlock are steps of their own, and the other threads run in
    between. `logMutex` guards the destinations and what they are called with, the mutex of the
    cache its hashes; the loops read the vectors where they are, by position, and
    `removeDestination` moves what it keeps forward entry by entry before it cuts the rest off.
    `settled` is the logger as it will be when the open sections have been left, and every run is,
    seen so, a run in which a section is one step (`refines_run`). -/

namespace GtLogging

/-- The mutex of `Logger::Impl` and the one of `DefaultCache::Impl`. -/
inductive Mutex where
  | logMutex
  | cacheMutex

/-- What `logMutex` guards. -/
structure LogData (D : Type*) where
  destinations : List (DestinationEntry D) := []
  received : D → List (Record × ℕ) := fun _ => []

/-- What is left to do under `logMutex`. -/
inductive LogWork (D : Type*) where
  /-- `std::any_of`, at position `i`. -/
  | anyOf (id : Str) (i : ℕ)
  | pushBack (entry : DestinationEntry D)
  /-- `std::remove_if`, at position `first`: nothing is found yet. -/
  | removeIf (id : Str) (first : ℕ)
  /-- Something is found: what is kept goes to `result`, and `first` is looked at. -/
  | shift (id : Str) (result first : ℕ) (h : result < first)
  /-- `*result = std::move(*first)`. -/
  | move (id : Str) (result first : ℕ) (h : result < first)
  /-- `vector::erase`, from `result` to the end. -/
  | erase (result : ℕ)
  /-- `std::for_each`, at position `i`. -/
  | forEach (x : Record × ℕ) (i : ℕ)
  | done (answer : Bool)

/-- What is left to do under the mutex of the cache. -/
inductive CacheWork (H : Type*) where
  /-- `std::find`, at position `i`. -/
  | find (h : H) (i : ℕ)
  | pushBack (h : H)
  | clear
  | done (answer : Bool)

/-- An access that looks at one position: what comes next, past the end and at an element. -/
def readAt {α β : Type*} (l : List α) (i : ℕ) (atEnd : β) (next : α → β) : Option β :=
  match l[i]? with
  | none => some atEnd
  | some a => some (next a)

namespace LogWork

variable {D : Type*} [DecidableEq D]

/-- The next access. -/
def access (w : LogWork D) (x : LogData D) : Option (LogWork D × LogData D) :=
  match w with
  | .anyOf id i =>
    readAt x.destinations i (.done false, x) fun d =>
      (if d.id = id then .done true else .anyOf id (i + 1), x)
  | .pushBack entry => some (.done true, { x with destinations := x.destinations ++ [entry] })
  | .removeIf id first =>
    readAt x.destinations first (.done false, x) fun d =>
      (if d.id = id then .shift id first (first + 1) first.lt_succ_self
        else .removeIf id (first + 1), x)
  | .shift id result first h =>
    readAt x.destinations first (.erase result, x) fun d =>
      (if d.id = id then .shift id result (first + 1) (Nat.lt_succ_of_lt h)
        else .move id result first h, x)
  | .move id result first h =>
    -- what is left of the moved entry is read by nobody
    readAt x.destinations first (.erase result, x) fun d =>
      (.shift id (result + 1) (first + 1) (Nat.succ_lt_succ h),
        { x with destinations := x.destinations.set result d })
  | .erase result => some (.done true, { x with destinations := x.destinations.take result })
  | .forEach r i =>
    readAt x.destinations i (.done false, x) fun d =>
      (.forEach r (i + 1),
        { x with received := Function.update x.received d.ptr (x.received d.ptr ++ [r]) })
  | .done _ => none

/-- All that is left. -/
def finish (w : LogWork D) (x : LogData D) : Bool × LogData D :=
  match w with
  | .anyOf id i => (Registry.hasDestination (x.destinations.drop i) id, x)
  | .pushBack entry => (true, { x with destinations := x.destinations ++ [entry] })
  | .removeIf id first =>
    ((Registry.eraseId id (x.destinations.drop first)).1,
      { x with destinations := x.destinations.take first ++
          (Registry.eraseId id (x.destinations.drop first)).2 })
  | .shift id result first _ =>
    (true, { x with destinations := x.destinations.take result ++
        (Registry.eraseId id (x.destinations.drop first)).2 })
  | .move id result first _ =>
    (true, { x with destinations := x.destinations.take result ++
        ((x.destinations.drop first).take 1 ++
          (Registry.eraseId id (x.destinations.drop (first + 1))).2) })
  | .erase result => (true, { x with destinations := x.destinations.take result })
  | .forEach r i =>
    (false, { x with received := Registry.write (x.destinations.drop i) r x.received })
  | .done answer => (answer, x)

/-- At most this many accesses. -/
def left (w : LogWork D) (x : LogData D) : ℕ :=
  match w with
  | .anyOf _ i | .forEach _ i => x.destinations.length - i + 1
  | .pushBack _ | .erase _ => 1
  | .removeIf _ first | .shift _ _ first _ => 2 * (x.destinations.length - first) + 3
  | .move _ _ first _ => 2 * (x.destinations.length - first) + 2
  | .done _ => 0

end LogWork

namespace CacheWork

variable {H : Type*} [DecidableEq H]

/-- The next access. -/
def access (w : CacheWork H) (x : DefaultCache H) : Option (CacheWork H × DefaultCache H) :=
  match w with
  | .find h i =>
    readAt x.cache i (.done false, x) fun k =>
      (if h = k then .done true else .find h (i + 1), x)
  | .pushBack h => some (.done true, x.append h)
  | .clear => some (.done true, x.clear)
  | .done _ => none

/-- All that is left. -/
def finish (w : CacheWork H) (x : DefaultCache H) : Bool × DefaultCache H :=
  match w with
  | .find h i => ((x.cache.drop i).contains h, x)
  | .pushBack h => (true, x.append h)
  | .clear => (true, x.clear)
  | .done answer => (answer, x)

/-- At most this many accesses. -/
def left (w : CacheWork H) (x : DefaultCache H) : ℕ :=
  match w with
  | .find _ i => x.cache.length - i + 1
  | .pushBack _ | .clear => 1
  | .done _ => 0

end CacheWork

/-- Nothing is read past the end, and else the first one of the rest. -/
theorem readAt_cases {α β : Type*} {l : List α} {i : ℕ} {atEnd p : β} {next : α → β}
    (h : readAt l i atEnd next = some p) :
    (l.length ≤ i ∧ l.drop i = [] ∧ atEnd = p) ∨
      ∃ a, i < l.length ∧ l[i]? = some a ∧ l.drop i = a :: l.drop (i + 1) ∧ next a = p := by
  rw [readAt] at h
  cases ha : l[i]? with
  | none =>
    have hi : l.length ≤ i := List.getElem?_eq_none_iff.mp ha
    exact Or.inl ⟨hi, List.drop_eq_nil_of_le hi, by simpa [ha] using h⟩
  | some a =>
    obtain ⟨hi, rfl⟩ := List.getElem?_eq_some_iff.mp ha
    exact Or.inr ⟨_, hi, rfl, List.drop_eq_getElem_cons hi, by simpa [ha] using h⟩

/-- Something is always read. -/
theorem readAt_ne_none {α β : Type*} (l : List α) (i : ℕ) (atEnd : β) (next : α → β) :
    readAt l i atEnd next ≠ none := by
  rw [readAt]
  cases l[i]? <;> simp

/-- What is written at the end of a prefix is its last element. -/
theorem take_succ_set {α : Type*} {l : List α} {i : ℕ} (hi : i < l.length) (a : α) :
    (l.set i a).take (i + 1) = l.take i ++ [a] := by
  rw [List.take_add_one, List.take_set_of_le le_rfl, List.getElem?_set_self hi]
  rfl

namespace LogWork

variable {D : Type*} [DecidableEq D] {x : LogData D} {p : LogWork D × LogData D}

/-- STEP: the search of `std::remove_if` goes on. -/
theorem access_removeIf {id : Str} {first : ℕ} (h : access (.removeIf id first) x = some p) :
    p.1.finish p.2 = finish (.removeIf id first) x ∧
      p.1.left p.2 < left (.removeIf id first) x := by
  obtain ⟨hend, hdrop, rfl⟩ | ⟨d, hi, hd, hdrop, rfl⟩ := readAt_cases h
  · simp [finish, left, hdrop, List.take_of_length_le hend]
  · by_cases hid : d.id = id
    · subst hid
      refine ⟨by simp [finish, hdrop], ?_⟩
      simp only [left, if_true]
      omega
    · have htake : x.destinations.take (first + 1) = x.destinations.take first ++ [d] := by
        simp [List.take_add_one, hd]
      refine ⟨by simp [finish, hdrop, htake, hid, Registry.eraseId_cons_ne hid], ?_⟩
      simp only [left, hid, if_false]
      omega

/-- STEP: an entry with the id is passed over, another one is to be moved. -/
theorem access_shift {id : Str} {result first : ℕ} {hlt : result < first}
    (h : access (.shift id result first hlt) x = some p) :
    p.1.finish p.2 = finish (.shift id result first hlt) x ∧
      p.1.left p.2 < left (.shift id result first hlt) x := by
  obtain ⟨hend, hdrop, rfl⟩ | ⟨d, hi, hd, hdrop, rfl⟩ := readAt_cases h
  · simp [finish, left, hdrop]
  · by_cases hid : d.id = id
    · subst hid
      refine ⟨by simp [finish, hdrop], ?_⟩
      simp only [left, if_true]
      omega
    · refine ⟨by simp [finish, hdrop, Registry.eraseId_cons_ne hid, hid], ?_⟩
      simp only [left, hid, if_false]
      omega

/-- STEP: an entry moves in front of those that are still to be read. -/
theorem access_move {id : Str} {result first : ℕ} {hlt : result < first}
    (h : access (.move id result first hlt) x = some p) :
    p.1.finish p.2 = finish (.move id result first hlt) x ∧
      p.1.left p.2 < left (.move id result first hlt) x := by
  obtain ⟨hend, hdrop, rfl⟩ | ⟨d, hi, hd, hdrop, rfl⟩ := readAt_cases h
  · simp [finish, left, ← List.tail_drop, hdrop]
  · have hrest : (x.destinations.set result d).drop (first + 1) =
        x.destinations.drop (first + 1) := List.drop_set_of_lt (Nat.lt_succ_of_lt hlt)
    have hfront : (x.destinations.set result d).take (result + 1) =
        x.destinations.take result ++ [d] := take_succ_set (hlt.trans hi) d
    refine ⟨by simp [finish, hdrop, hrest, hfront], ?_⟩
    simp only [left, List.length_set]
    omega

/-- STEP: an access takes the section on towards the same end. -/
theorem access_spec {w : LogWork D} (h : w.access x = some p) :
    p.1.finish p.2 = w.finish x ∧ p.1.left p.2 < w.left x := by
  cases w with
  | anyOf id i =>
    obtain ⟨-, hdrop, rfl⟩ | ⟨d, hi, -, hdrop, rfl⟩ := readAt_cases h
    · simp [finish, left, hdrop, Registry.hasDestination]
    · by_cases hid : d.id = id
      · simp [finish, left, hdrop, Registry.hasDestination, hid]
      · refine ⟨by simp [finish, hdrop, Registry.hasDestination, hid], ?_⟩
        simp only [left, hid, if_false]
        omega
  | pushBack entry =>
    cases h
    exact ⟨rfl, Nat.one_pos⟩
  | removeIf id first => exact access_removeIf h
  | shift id result first hlt => exact access_shift h
  | move id result first hlt => exact access_move h
  | erase result =>
    cases h
    exact ⟨rfl, Nat.one_pos⟩
  | forEach r i =>
    obtain ⟨-, hdrop, rfl⟩ | ⟨d, hi, -, hdrop, rfl⟩ := readAt_cases h
    · simp [finish, left, hdrop, Registry.write]
    · refine ⟨by simp [finish, hdrop, Registry.write], ?_⟩
      simp only [left]
      omega
  | done answer => cases h

theorem finish_done {w : LogWork D} (h : w.access x = none) : (w.finish x).2 = x := by
  cases w with
  | done answer => rfl
  | pushBack entry => cases h
  | erase result => cases h
  | _ => exact (readAt_ne_none _ _ _ _ h).elim

end LogWork

namespace CacheWork

variable {H : Type*} [DecidableEq H] {x : DefaultCache H} {p : CacheWork H × DefaultCache H}

/-- STEP: so does one under the mutex of the cache. -/
theorem access_spec {w : CacheWork H} (h : w.access x = some p) :
    p.1.finish p.2 = w.finish x ∧ p.1.left p.2 < w.left x := by
  cases w with
  | find k i =>
    obtain ⟨-, hdrop, rfl⟩ | ⟨c, hi, -, hdrop, rfl⟩ := readAt_cases h
    · simp [finish, left, hdrop]
    · by_cases hk : k = c
      · simp [finish, left, hdrop, hk]
      · refine ⟨by simp [finish, hdrop, hk], ?_⟩
        simp only [left, hk, if_false]
        omega
  | pushBack k =>
    cases h
    exact ⟨rfl, Nat.one_pos⟩
  | clear =>
    cases h
    exact ⟨rfl, Nat.one_pos⟩
  | done answer => cases h

theorem finish_done {w : CacheWork H} (h : w.access x = none) : (w.finish x).2 = x := by
  cases w with
  | done answer => rfl
  | find k i => exact (readAt_ne_none _ _ _ _ h).elim
  | _ => cases h

end CacheWork

/-- The sections under `logMutex`. -/
def logSections (D : Type*) [DecidableEq D] : Sections (LogWork D) (LogData D) Bool where
  access := LogWork.access
  finish := LogWork.finish
  left := LogWork.left
  finish_access h := (LogWork.access_spec h).1
  left_access h := (LogWork.access_spec h).2
  finish_done := LogWork.finish_done

/-- The sections under the mutex of the cache. -/
def cacheSections (H : Type*) [DecidableEq H] : Sections (CacheWork H) (DefaultCache H) Bool where
  access := CacheWork.access
  finish := CacheWork.finish
  left := CacheWork.left
  finish_access h := (CacheWork.access_spec h).1
  left_access h := (CacheWork.access_spec h).2
  finish_done := CacheWork.finish_done

/-! ### Sections of events -/

namespace Ev

variable {T D H : Type*}

/-- The mutex under which an event of the threads happens. -/
def mutex : Ev T D → Option Mutex
  | .check _ _ _ | .push _ _ _ | .erase _ _ | .query _ _ | .write _ _ | .writeOnce _ _ _ =>
    some .logMutex
  | .find _ _ _ | .append _ _ | .clear _ => some .cacheMutex
  | .call _ _ | .leave _ _ | .ret _ _ => none

/-- What there is to do in it under `logMutex`. A write carries its number. -/
def logWork (ticket : ℕ) : Ev T D → LogWork D
  | .check _ id _ | .query _ id => .anyOf id 0
  | .push _ id o => .pushBack ⟨id, o⟩
  | .erase _ id => .removeIf id 0
  | .write _ r => .forEach (r, ticket) 0
  | .writeOnce _ m time => .forEach (m.record time, ticket) 0
  | _ => .done false

/-- What there is to do in it under the mutex of the cache. -/
def cacheWork (hasher : Str → H) : Ev T D → CacheWork H
  | .find _ _ m => .find (hash hasher m) 0
  | .append _ m => .pushBack (hash hasher m)
  | .clear _ => .clear
  | _ => .done false

/-- Where the thread is when it has left the section with an answer. -/
def after (answer : Bool) : Ev T D → Pc D
  | .check _ id o => if answer then .returned (some false) else .adding id o
  | .push _ _ _ => .returned (some true)
  | .erase _ _ | .query _ _ => .returned (some answer)
  | .find _ _ m => if answer then .returned none else .appending m
  | .append _ m => .delivering m
  | .write _ _ | .writeOnce _ _ _ | .clear _ => .returned none
  | .call _ _ | .leave _ _ | .ret _ _ => .idle

end Ev

/-- A step of the logger with its mutexes. -/
inductive LockEv (T D : Type*) where
  /-- A step outside the guarded sections. -/
  | plain (e : Ev T D)
  /-- Lock the mutex of the event. -/
  | acquire (e : Ev T D)
  | access (t : T) (m : Mutex)
  | release (t : T) (m : Mutex)

namespace LockEv

variable {T D : Type*}

def thread : LockEv T D → T
  | .plain e | .acquire e => e.thread
  | .access t _ | .release t _ => t

/-- The event of the threads that takes effect. -/
def event : LockEv T D → Option (Ev T D)
  | .plain e | .acquire e => some e
  | .access _ _ | .release _ _ => none

end LockEv

/-- The logger with its mutexes, and the threads. A thread in a guarded section is at the place
    where it was before. -/
structure Locked (T D H : Type*) where
  verbosity : ℤ
  pc : T → Pc D := fun _ => .idle
  given : List D := []
  tickets : ℕ := 0
  sinceClear : List Message := []
  logMutex : Monitor (Ev T D) (LogWork D) (LogData D) := { data := {} }
  cacheMutex : Monitor (Ev T D) (CacheWork H) (DefaultCache H) := { data := {} }

namespace Locked

variable {T D H : Type*} [DecidableEq T] [DecidableEq D] [DecidableEq H]

/-- The logger with other data behind the mutexes, and other places of the threads. -/
def seen (l : Locked T D H) (x : LogData D) (c : DefaultCache H) (pc : T → Pc D) :
    Shared T D H where
  verbosity := l.verbosity
  pc := pc
  destinations := x.destinations
  cache := c
  given := l.given
  received := x.received
  tickets := l.tickets
  sinceClear := l.sinceClear

/-- The logger as it is. -/
def memory (l : Locked T D H) : Shared T D H := l.seen l.logMutex.data l.cacheMutex.data l.pc

/-- The thread of a section at the place where its answer takes it. -/
def arrive (a : Option (Ev T D × Bool)) (pc : T → Pc D) : T → Pc D :=
  a.elim pc fun a => Function.update pc a.1.thread (a.1.after a.2)

/-- The logger when the open sections have been left. -/
def settled (l : Locked T D H) : Shared T D H :=
  l.seen (l.logMutex.settled (logSections D)) (l.cacheMutex.settled (cacheSections H))
    (arrive (l.cacheMutex.outcome (cacheSections H))
      (arrive (l.logMutex.outcome (logSections D)) l.pc))

/-- The thread is in a guarded section. -/
def Inside (l : Locked T D H) (t : T) : Prop :=
  (∃ h ∈ l.logMutex.holder, h.1.thread = t) ∨ ∃ h ∈ l.cacheMutex.holder, h.1.thread = t

instance (l : Locked T D H) (t : T) : Decidable (l.Inside t) :=
  inferInstanceAs (Decidable (_ ∨ _))

/-- The counts that no code reads, at a section: writes, and what log-once delivers. -/
def count (l : Locked T D H) : Ev T D → Locked T D H
  | .write _ _ => { l with tickets := l.tickets + 1 }
  | .writeOnce _ m _ => { l with tickets := l.tickets + 1, sinceClear := m :: l.sinceClear }
  | .clear _ => { l with sinceClear := [] }
  | _ => l

/-- Lock the mutex of the event, if it is free. -/
def enter (hasher : Str → H) (l : Locked T D H) (e : Ev T D) : Option (Locked T D H) :=
  match e.mutex with
  | none => none
  | some .logMutex =>
    if l.logMutex.holder.isNone then
      some { l.count e with logMutex := l.logMutex.enter e (e.logWork l.tickets) }
    else none
  | some .cacheMutex =>
    if l.cacheMutex.holder.isNone then
      some { l.count e with cacheMutex := l.cacheMutex.enter e (e.cacheWork hasher) }
    else none

/-- One access of thread `t` under a mutex that it holds. -/
def access (l : Locked T D H) (t : T) : Mutex → Option (Locked T D H)
  | .logMutex =>
    if ∃ h ∈ l.logMutex.holder, h.1.thread = t then
      (l.logMutex.access (logSections D)).map fun m => { l with logMutex := m }
    else none
  | .cacheMutex =>
    if ∃ h ∈ l.cacheMutex.holder, h.1.thread = t then
      (l.cacheMutex.access (cacheSections H)).map fun m => { l with cacheMutex := m }
    else none

/-- Thread `t` unlocks a mutex that it holds and goes where the answer takes it. -/
def release (l : Locked T D H) (t : T) : Mutex → Option (Locked T D H)
  | .logMutex =>
    if ∃ h ∈ l.logMutex.holder, h.1.thread = t then
      (l.logMutex.leave (logSections D)).map fun p =>
        { l with logMutex := p.2, pc := Function.update l.pc p.1.1.thread (p.1.1.after p.1.2) }
    else none
  | .cacheMutex =>
    if ∃ h ∈ l.cacheMutex.holder, h.1.thread = t then
      (l.cacheMutex.leave (cacheSections H)).map fun p =>
        { l with cacheMutex := p.2, pc := Function.update l.pc p.1.1.thread (p.1.1.after p.1.2) }
    else none

def step (hasher : Str → H) (l : Locked T D H) : LockEv T D → Option (Locked T D H)
  | .plain e =>
    if e.mutex.isNone ∧ ¬ l.Inside e.thread ∧ l.memory.Enabled e then
      some { l with pc := (l.memory.next hasher e).pc, given := (l.memory.next hasher e).given }
    else none
  | .acquire e =>
    if ¬ l.Inside e.thread ∧ l.memory.Enabled e then l.enter hasher e else none
  | .access t m => l.access t m
  | .release t m => l.release t m

/-- A fresh logger, every thread idle. -/
def init (verbosity : ℤ) : Locked T D H := { verbosity := verbosity }

/-- What a step can do. -/
inductive LockStep (hasher : Str → H) (l : Locked T D H) : LockEv T D → Locked T D H → Prop
  | plain {e : Ev T D} (hm : e.mutex = none) (hi : ¬ l.Inside e.thread)
      (he : l.memory.Enabled e) :
      LockStep hasher l (.plain e)
        { l with pc := (l.memory.next hasher e).pc, given := (l.memory.next hasher e).given }
  | acquireLog {e : Ev T D} (hm : e.mutex = some .logMutex) (hi : ¬ l.Inside e.thread)
      (he : l.memory.Enabled e) (hfree : l.logMutex.Free) :
      LockStep hasher l (.acquire e)
        { l.count e with logMutex := l.logMutex.enter e (e.logWork l.tickets) }
  | acquireCache {e : Ev T D} (hm : e.mutex = some .cacheMutex) (hi : ¬ l.Inside e.thread)
      (he : l.memory.Enabled e) (hfree : l.cacheMutex.Free) :
      LockStep hasher l (.acquire e)
        { l.count e with cacheMutex := l.cacheMutex.enter e (e.cacheWork hasher) }
  | accessLog {m : Monitor (Ev T D) (LogWork D) (LogData D)} {e : Ev T D} {w : LogWork D}
      (hh : l.logMutex.holder = some (e, w)) (hm : l.logMutex.access (logSections D) = some m) :
      LockStep hasher l (.access e.thread .logMutex) { l with logMutex := m }
  | accessCache {m : Monitor (Ev T D) (CacheWork H) (DefaultCache H)} {e : Ev T D}
      {w : CacheWork H} (hh : l.cacheMutex.holder = some (e, w))
      (hm : l.cacheMutex.access (cacheSections H) = some m) :
      LockStep hasher l (.access e.thread .cacheMutex) { l with cacheMutex := m }
  | releaseLog {m : Monitor (Ev T D) (LogWork D) (LogData D)} {e : Ev T D} {answer : Bool}
      (hm : l.logMutex.leave (logSections D) = some ((e, answer), m)) :
      LockStep hasher l (.release e.thread .logMutex)
        { l with logMutex := m, pc := Function.update l.pc e.thread (e.after answer) }
  | releaseCache {m : Monitor (Ev T D) (CacheWork H) (DefaultCache H)} {e : Ev T D}
      {answer : Bool} (hm : l.cacheMutex.leave (cacheSections H) = some ((e, answer), m)) :
      LockStep hasher l (.release e.thread .cacheMutex)
        { l with cacheMutex := m, pc := Function.update l.pc e.thread (e.after answer) }

theorem lockStep_of_step {hasher : Str → H} {l l' : Locked T D H} {ev : LockEv T D}
    (h : step hasher l ev = some l') : LockStep hasher l ev l' := by
  cases ev with
  | plain e =>
    obtain ⟨⟨hm, hi, he⟩, h⟩ := Option.ite_none_right_eq_some.mp h
    exact Option.some.inj h ▸ .plain (Option.isNone_iff_eq_none.mp hm) hi he
  | acquire e =>
    obtain ⟨⟨hi, he⟩, h⟩ := Option.ite_none_right_eq_some.mp h
    cases hm : e.mutex with
    | none => simp [enter, hm] at h
    | some m =>
      cases m with
      | logMutex =>
        simp only [enter, hm] at h
        obtain ⟨hfree, h⟩ := Option.ite_none_right_eq_some.mp h
        exact Option.some.inj h ▸ .acquireLog hm hi he (Option.isNone_iff_eq_none.mp hfree)
      | cacheMutex =>
        simp only [enter, hm] at h
        obtain ⟨hfree, h⟩ := Option.ite_none_right_eq_some.mp h
        exact Option.some.inj h ▸ .acquireCache hm hi he (Option.isNone_iff_eq_none.mp hfree)
  | access t m =>
    cases m with
    | logMutex =>
      obtain ⟨⟨p, hp, rfl⟩, hs⟩ := Option.ite_none_right_eq_some.mp h
      obtain ⟨m, hm, rfl⟩ := Option.map_eq_some_iff.mp hs
      exact .accessLog hp hm
    | cacheMutex =>
      obtain ⟨⟨p, hp, rfl⟩, hs⟩ := Option.ite_none_right_eq_some.mp h
      obtain ⟨m, hm, rfl⟩ := Option.map_eq_some_iff.mp hs
      exact .accessCache hp hm
  | release t m =>
    cases m with
    | logMutex =>
      obtain ⟨⟨p, hp, rfl⟩, hs⟩ := Option.ite_none_right_eq_some.mp h
      obtain ⟨⟨⟨e, answer⟩, m⟩, hm, rfl⟩ := Option.map_eq_some_iff.mp hs
      obtain ⟨e', w, hh, -, heq, -⟩ := Monitor.leave_eq_some.mp hm
      obtain rfl := Option.some.inj (hh.symm.trans hp)
      obtain ⟨rfl, -⟩ := Prod.mk.inj heq
      exact .releaseLog hm
    | cacheMutex =>
      obtain ⟨⟨p, hp, rfl⟩, hs⟩ := Option.ite_none_right_eq_some.mp h
      obtain ⟨⟨⟨e, answer⟩, m⟩, hm, rfl⟩ := Option.map_eq_some_iff.mp hs
      obtain ⟨e', w, hh, -, heq, -⟩ := Monitor.leave_eq_some.mp hm
      obtain rfl := Option.some.inj (hh.symm.trans hp)
      obtain ⟨rfl, -⟩ := Prod.mk.inj heq
      exact .releaseCache hm

theorem step_of_lockStep {hasher : Str → H} {l l' : Locked T D H} {ev : LockEv T D}
    (h : LockStep hasher l ev l') : step hasher l ev = some l' := by
  cases h with
  | plain hm hi he => exact if_pos ⟨Option.isNone_iff_eq_none.mpr hm, hi, he⟩
  | acquireLog hm hi he hfree =>
    rw [step, if_pos ⟨hi, he⟩]
    simp only [enter, hm]
    exact if_pos (Option.isNone_iff_eq_none.mpr hfree)
  | acquireCache hm hi he hfree =>
    rw [step, if_pos ⟨hi, he⟩]
    simp only [enter, hm]
    exact if_pos (Option.isNone_iff_eq_none.mpr hfree)
  | accessLog hh hm => simp [step, access, hh, hm]
  | accessCache hh hm => simp [step, access, hh, hm]
  | releaseLog hm =>
    obtain ⟨e, w, hh, -, heq, -⟩ := Monitor.leave_eq_some.mp hm
    obtain ⟨rfl, -⟩ := Prod.mk.inj heq
    simp [step, release, hh, hm]
  | releaseCache hm =>
    obtain ⟨e, w, hh, -, heq, -⟩ := Monitor.leave_eq_some.mp hm
    obtain ⟨rfl, -⟩ := Prod.mk.inj heq
    simp [step, release, hh, hm]

end Locked

end GtLogging
