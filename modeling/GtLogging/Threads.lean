import GtLogging.Registry
import GtLogging.LogOnce

/-! @src src/gt_logging.cpp, src/gt_logging.h | layer:model | threads that share the logger

    Any number of threads call into the logger. A section guarded by a mutex is one step; between
    two sections of one call any other thread may run. `addDestination` is a check and a later
    `push_back`, the destructor of a log-once object a `find`, a later `append` and a later
    `Logger::write`. An event names the thread and what its step does; `Enabled` says when the step
    is that thread's next one. `D` names destination objects: a `unique_ptr` is moved into the
    call, so an object is given to `addDestination` at most once. The verbosity is not guarded by
    a mutex and stays as it is during a run. -/

namespace GtLogging

/-- What a thread can call. -/
inductive Call (D : Type*) where
  | addDestination (id : Str) (destination : Option D) (isValid : Bool)
  | removeDestination (id : Str)
  | hasDestination (id : Str)
  | log (level : Level) (message id : Str)
  | logOnce (o : LogOnce)
  | clearCache
  deriving DecidableEq

/-- Where a thread is. -/
inductive Pc (D : Type*) where
  | idle
  | called (c : Call D)
  /-- `hasDestination` said no, `push_back` is next. -/
  | adding (id : Str) (object : D)
  /-- `find` said no, `append` is next. -/
  | appending (m : Message)
  /-- The hash is in the cache, `Logger::log` is next. -/
  | delivering (m : Message)
  | returned (result : Option Bool)
  deriving DecidableEq

inductive Ev (T D : Type*) where
  | call (t : T) (c : Call D)
  | leave (t : T) (c : Call D)
  | check (t : T) (id : Str) (object : D)
  | push (t : T) (id : Str) (object : D)
  | erase (t : T) (id : Str)
  | query (t : T) (id : Str)
  | write (t : T) (r : Record)
  | find (t : T) (o : LogOnce) (m : Message)
  | append (t : T) (m : Message)
  | writeOnce (t : T) (m : Message) (time : Tm)
  | clear (t : T)
  | ret (t : T) (result : Option Bool)

/-- The thread that takes the step. -/
def Ev.thread {T D : Type*} : Ev T D → T
  | .call t _ | .leave t _ | .check t _ _ | .push t _ _ | .erase t _ | .query t _ | .write t _
  | .find t _ _ | .append t _ | .writeOnce t _ _ | .clear t | .ret t _ => t

/-- The object a call was given. -/
def Call.object {D : Type*} : Call D → Option D
  | .addDestination _ destination _ => destination
  | _ => none

/-- The object a thread holds but has not registered. -/
def Pc.object {D : Type*} : Pc D → Option D
  | .called c => c.object
  | .adding _ object => some object
  | _ => none

/-- What a call returns without entering a guarded section, if it does not. -/
def Call.earlyReturn {D : Type*} (verbosity : ℤ) : Call D → Option (Option Bool)
  | .addDestination id destination isValid =>
    if destination.isNone || !isValid || id = [] then some (some false) else none
  | .removeDestination id => if id = [] then some (some false) else none
  | .logOnce o => if (o.message verbosity).isNone then some none else none
  | _ => none

/-- `Details{id, time}` of a log-once message. -/
def Message.record (m : Message) (time : Tm) : Record := ⟨m.text, m.level, ⟨m.id, time⟩⟩

/-- The shared logger and the threads. `given` lists the objects handed over so far, `received`
    what each object's `write` was called with, `tickets` counts the `Logger::write` steps and
    numbers them, `sinceClear` lists what log-once delivered since the last clear of the cache. -/
structure Shared (T D H : Type*) where
  verbosity : ℤ
  pc : T → Pc D := fun _ => .idle
  destinations : List (DestinationEntry D) := []
  cache : DefaultCache H := {}
  given : List D := []
  received : D → List (Record × ℕ) := fun _ => []
  tickets : ℕ := 0
  sinceClear : List Message := []

namespace Shared

variable {T D H : Type*}

/-- The step of the event is the next one of its thread. -/
def Enabled (s : Shared T D H) : Ev T D → Prop
  | .call t c => s.pc t = .idle ∧ ∀ o ∈ c.object, o ∉ s.given
  | .leave t c => s.pc t = .called c ∧ (c.earlyReturn s.verbosity).isSome
  | .check t id o => s.pc t = .called (.addDestination id (some o) true) ∧ id ≠ []
  | .push t id o => s.pc t = .adding id o
  | .erase t id => s.pc t = .called (.removeDestination id) ∧ id ≠ []
  | .query t id => s.pc t = .called (.hasDestination id)
  | .write t r => s.pc t = .called (.log r.level r.message r.details.id)
  | .find t o m => s.pc t = .called (.logOnce o) ∧ o.message s.verbosity = some m
  | .append t m => s.pc t = .appending m
  | .writeOnce t m _ => s.pc t = .delivering m
  | .clear t => s.pc t = .called .clearCache
  | .ret t result => s.pc t = .returned result

instance [DecidableEq D] (s : Shared T D H) : ∀ e, Decidable (s.Enabled e)
  | .call _ _ | .leave _ _ | .check _ _ _ | .erase _ _ | .find _ _ _ =>
    inferInstanceAs (Decidable (_ ∧ _))
  | .push _ _ _ | .query _ _ | .write _ _ | .append _ _ | .writeOnce _ _ _ | .clear _ | .ret _ _ =>
    inferInstanceAs (Decidable (_ = _))

/-- PROGRESS: a thread inside a call always has a next step. -/
theorem exists_enabled (s : Shared T D H) {t : T} (hpc : s.pc t ≠ .idle) :
    ∃ e : Ev T D, e.thread = t ∧ s.Enabled e := by
  cases h : s.pc t with
  | idle => exact absurd h hpc
  | adding id o => exact ⟨.push t id o, rfl, h⟩
  | appending m => exact ⟨.append t m, rfl, h⟩
  | delivering m => exact ⟨.writeOnce t m noon, rfl, h⟩
  | returned result => exact ⟨.ret t result, rfl, h⟩
  | called c =>
    -- either the call returns early, or its first guarded section is next
    cases hearly : c.earlyReturn s.verbosity with
    | some result => exact ⟨.leave t c, rfl, h, by rw [hearly]; rfl⟩
    | none =>
      cases c with
      | addDestination id destination isValid =>
        cases destination with
        | none => simp [Call.earlyReturn] at hearly
        | some o =>
          cases isValid with
          | false => simp [Call.earlyReturn] at hearly
          | true => exact ⟨.check t id o, rfl, h, by simpa [Call.earlyReturn] using hearly⟩
      | removeDestination id =>
        exact ⟨.erase t id, rfl, h, by simpa [Call.earlyReturn] using hearly⟩
      | hasDestination id => exact ⟨.query t id, rfl, h⟩
      | log level message id => exact ⟨.write t ⟨message, level, ⟨id, noon⟩⟩, rfl, h⟩
      | logOnce o =>
        cases hm : o.message s.verbosity with
        | none => simp [Call.earlyReturn, hm] at hearly
        | some m => exact ⟨.find t o m, rfl, h, hm⟩
      | clearCache => exact ⟨.clear t, rfl, h⟩

variable [DecidableEq T]

/-- Thread `t` moves on. -/
def goto (t : T) (p : Pc D) (s : Shared T D H) : Shared T D H :=
  { s with pc := Function.update s.pc t p }

section Pc
variable {s : Shared T D H} {t u : T} {p : Pc D}

@[simp] theorem pc_goto_self : (s.goto t p).pc t = p := by simp [goto]

theorem pc_goto_of_ne (h : u ≠ t) : (s.goto t p).pc u = s.pc u := by simp [goto, h]

/-- After `goto`, a thread is at the new place or where it was. -/
theorem pc_goto (s : Shared T D H) (t u : T) (p : Pc D) :
    (u = t ∧ (s.goto t p).pc u = p) ∨ (u ≠ t ∧ (s.goto t p).pc u = s.pc u) := by
  by_cases h : u = t
  · subst h; exact Or.inl ⟨rfl, pc_goto_self⟩
  · exact Or.inr ⟨h, pc_goto_of_ne h⟩

end Pc

variable [DecidableEq D] [DecidableEq H]

/-- `Logger::write`. -/
def deliver (r : Record) (s : Shared T D H) : Shared T D H :=
  { s with received := Registry.write s.destinations (r, s.tickets) s.received
           tickets := s.tickets + 1 }

/-- The state after the step. -/
def next (hasher : Str → H) (s : Shared T D H) : Ev T D → Shared T D H
  | .call t c => goto t (.called c) { s with given := c.object.toList ++ s.given }
  | .leave t c => s.goto t (.returned ((c.earlyReturn s.verbosity).getD none))
  | .check t id o =>
    s.goto t (if Registry.hasDestination s.destinations id then .returned (some false)
      else .adding id o)
  | .push t id o =>
    goto t (.returned (some true)) { s with destinations := s.destinations ++ [⟨id, o⟩] }
  | .erase t id =>
    goto t (.returned (some (Registry.eraseId id s.destinations).1))
      { s with destinations := (Registry.eraseId id s.destinations).2 }
  | .query t id => s.goto t (.returned (some (Registry.hasDestination s.destinations id)))
  | .write t r => (s.deliver r).goto t (.returned none)
  | .find t _ m =>
    s.goto t (if s.cache.find (hash hasher m) then .returned none else .appending m)
  | .append t m => goto t (.delivering m) { s with cache := s.cache.append (hash hasher m) }
  | .writeOnce t m time =>
    goto t (.returned none) { s.deliver (m.record time) with sinceClear := m :: s.sinceClear }
  | .clear t => goto t (.returned none) { s with cache := s.cache.clear, sinceClear := [] }
  | .ret t _ => s.goto t .idle

def step (hasher : Str → H) (s : Shared T D H) (e : Ev T D) : Option (Shared T D H) :=
  if s.Enabled e then some (s.next hasher e) else none

/-- A fresh logger, every thread idle. -/
def init (verbosity : ℤ) : Shared T D H := { verbosity := verbosity }

theorem step_eq_some {hasher : Str → H} {s s' : Shared T D H} {e : Ev T D} :
    s.step hasher e = some s' ↔ s.Enabled e ∧ s.next hasher e = s' := by
  rw [step]
  split_ifs with h <;> simp [h]

theorem run_cons {hasher : Str → H} {s s' : Shared T D H} {e : Ev T D} {es : List (Ev T D)} :
    StepMachine.run (step hasher) s (e :: es) = some s' ↔
      s.Enabled e ∧ StepMachine.run (step hasher) (s.next hasher e) es = some s' := by
  rw [StepMachine.run_cons]
  constructor
  · rintro ⟨m, hm, hrest⟩
    obtain ⟨he, rfl⟩ := step_eq_some.mp hm
    exact ⟨he, hrest⟩
  · rintro ⟨he, hrest⟩
    exact ⟨_, step_eq_some.mpr ⟨he, rfl⟩, hrest⟩

end Shared

end GtLogging
