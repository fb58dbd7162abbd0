import GtLogging.Atomicity
import GtLogging.SystemLogs
import GtLogging.Console

/-! @src src/gt_logging.cpp src/gt_logdest.h src/gt_logdestfile.cpp src/gt_logdestconsole.cpp
    src/gt_logdestfunctor.h | layer:model,result | destinations called under the mutex

    The logger with its mutexes and with its destinations. Each call of a destination is a step of
    its own, with its own failing file operations: while a `Logger::write` goes through the
    destinations, other threads construct destinations, are refused and search the cache. What holds
    of the files and the streams in terms of what each object received holds between any two of
    these steps, and what an object received is the writes of its time in the registry, in order,
    but for the one under way. -/

namespace GtLogging
open Rotation StepMachine
open Disk (SameOutside)
open FileLog (Contract enduring undisturbed found holds_found)

/-- The logger with its mutexes and everything it writes to. -/
structure LockedSystem (T D H : Type*) where
  locked : Locked T D H
  outputs : Outputs D

/-- A step, with the file operations that fail in it. -/
inductive LockedSysEv (T D : Type*) where
  | make (flt : Faults) (o : D) (maker : Maker)
  | thread (flt : Faults) (ev : LockEv T D)

namespace LockedSysEv
variable {T D : Type*}

def faults : LockedSysEv T D → Faults
  | .make flt _ _ => flt
  | .thread flt _ => flt

/-- The event of the threads that takes effect. -/
def event : LockedSysEv T D → Option (Ev T D)
  | .make _ _ _ => none
  | .thread _ ev => ev.event

end LockedSysEv

/-- The destination that the next access calls, and what it is called with. -/
def LogWork.called {D : Type*} (w : LogWork D) (x : LogData D) :
    Option (DestinationEntry D × Record × ℕ) :=
  match w with
  | .forEach y i => (x.destinations[i]?).map (·, y)
  | _ => none

theorem LogWork.received_access {D : Type*} [DecidableEq D] {w : LogWork D} {x : LogData D}
    {p : LogWork D × LogData D} (h : w.access x = some p) :
    p.2.received = match w.called x with
      | some (d, y) => Function.update x.received d.ptr (x.received d.ptr ++ [y])
      | none => x.received := by
  cases w with
  | anyOf id i =>
    obtain ⟨-, -, rfl⟩ | ⟨d, -, -, -, rfl⟩ := readAt_cases h <;> rfl
  | forEach y i =>
    rw [called]
    obtain ⟨hend, -, rfl⟩ | ⟨d, -, hd, -, rfl⟩ := readAt_cases h
    · rw [List.getElem?_eq_none_iff.mpr hend]
      rfl
    · rw [hd]
      rfl
  | removeIf id first =>
    obtain ⟨-, -, rfl⟩ | ⟨d, -, -, -, rfl⟩ := readAt_cases h <;> rfl
  | shift id result first hlt =>
    obtain ⟨-, -, rfl⟩ | ⟨d, -, -, -, rfl⟩ := readAt_cases h <;> rfl
  | move id result first hlt =>
    obtain ⟨-, -, rfl⟩ | ⟨d, -, -, -, rfl⟩ := readAt_cases h <;> rfl
  | done answer => cases h
  | _ =>
    cases h
    rfl

namespace Locked

variable {T D H : Type*} [DecidableEq D]

/-- The destination that a step calls. -/
def calls (l : Locked T D H) : LockEv T D → Option (DestinationEntry D × Record × ℕ)
  | .access _ .logMutex => l.logMutex.holder.bind fun h => h.2.called l.logMutex.data
  | _ => none

/-- What a step prints where `addDestination` refuses: before it locks, or when `hasDestination` has
    unlocked. -/
def warning (l : Locked T D H) : LockEv T D → Option Str
  | .plain e => l.memory.warning e
  | .release _ .logMutex =>
    match l.logMutex.leave (logSections D) with
    | some ((.check _ id _, true), _) =>
      some ("GtLogging: A destination named '".toList ++ id ++ "' already exists!\n".toList)
    | _ => none
  | _ => none

variable {hasher : Str → H} {l l' : Locked T D H} {ev : LockEv T D} {o : D}

theorem isWarning_of_mem {msg : Str} (h : msg ∈ l.warning ev) : IsWarning msg := by
  unfold warning at h
  split at h
  · exact Shared.isWarning_of_mem h
  · split at h
    · cases h
      exact isWarning_exists _
    · cases h
  · cases h

variable [DecidableEq T] [DecidableEq H]

/-- STEP: only the access that calls a destination adds to what objects received. -/
theorem received_step (hs : step hasher l ev = some l') :
    l'.memory.received = match l.calls ev with
      | some (d, x) =>
        Function.update l.memory.received d.ptr (l.memory.received d.ptr ++ [x])
      | none => l.memory.received := by
  cases lockStep_of_step hs with
  | plain hm hi he => rfl
  | acquireLog hm hi he hfree => rfl
  | @acquireCache e hm hi he hfree =>
    obtain ⟨-, hlogMutex, -⟩ := count_spec l e
    simp [memory, seen, hlogMutex, calls]
  | accessLog hh hm =>
    obtain ⟨e, w, p, hh, hp, rfl⟩ := Monitor.access_eq_some.mp hm
    rw [calls, hh]
    exact LogWork.received_access hp
  | accessCache hh hm => rfl
  | releaseLog hm =>
    obtain ⟨e, w, -, -, -, rfl⟩ := Monitor.leave_eq_some.mp hm
    rfl
  | releaseCache hm => rfl

/-- An object that was handed over was so before, or is by this call. -/
theorem given_step (hs : step hasher l ev = some l') (ho : o ∈ l'.given) :
    o ∈ l.given ∨ ∃ t c, ev = .plain (.call t c) ∧ o ∈ c.object := by
  cases lockStep_of_step hs with
  | @plain e hm hi he =>
    cases e with
    | call t c =>
      rcases List.mem_append.mp ho with hnew | hold
      · exact Or.inr ⟨t, c, rfl, by simpa using hnew⟩
      · exact Or.inl hold
    | leave t c => exact Or.inl ho
    | ret t result => exact Or.inl ho
    | _ => cases hm
  | @acquireLog e hm hi he hfree => cases e <;> exact Or.inl ho
  | @acquireCache e hm hi he hfree => cases e <;> exact Or.inl ho
  | _ => exact Or.inl ho

/-- An object has received what it will have received when the sections are left, or all of it but
    the record of the write under way. -/
theorem received_settled (h : l.settled.OwnedOnce) (o : D) :
    l.settled.received o = l.memory.received o ∨
      ∃ x, l.settled.received o = l.memory.received o ++ [x] := by
  cases hh : l.logMutex.holder with
  | none =>
    rw [settled, Monitor.settled_free hh]
    exact Or.inl rfl
  | some p =>
    obtain ⟨e, w⟩ := p
    have hdata : l.logMutex.settled (logSections D) = (w.finish l.logMutex.data).2 := by
      rw [Monitor.settled, hh]
      rfl
    have hreceived : l.settled.received = (w.finish l.logMutex.data).2.received := by
      rw [← hdata]
      rfl
    rw [hreceived]
    cases w with
    | forEach x i =>
      have hnodup : ((l.logMutex.data.destinations.drop i).map (·.ptr)).Nodup := by
        have hptrs : (l.logMutex.settled (logSections D)).destinations.map (·.ptr) =
            l.settled.ptrs := rfl
        rw [hdata] at hptrs
        rw [List.map_drop, show l.logMutex.data.destinations.map (·.ptr) = l.settled.ptrs from
          hptrs]
        exact h.nodup.sublist (List.drop_sublist _ _)
      simp only [LogWork.finish, Registry.received_write x o hnodup]
      split_ifs
      · exact Or.inr ⟨x, rfl⟩
      · exact Or.inl rfl
    | _ => exact Or.inl rfl

end Locked

namespace LockedSystem
open Outputs

variable {T D H : Type*} [DecidableEq D]

/-- An object that is handed over exists, and was asked whether it is valid. -/
def handed (sys : LockedSystem T D H) : LockEv T D → Bool
  | .plain (.call _ (.addDestination _ (some o) isValid)) =>
    (sys.outputs.objects o).map (·.2.isValid) = some isValid
  | _ => true

/-- What a step of a thread does outside the logger. -/
def outputsAfter (flt : Faults) (sys : LockedSystem T D H) (ev : LockEv T D) : Outputs D :=
  let written := match sys.locked.calls ev with
    | some (d, r, _) => sys.outputs.writeTo flt r d
    | none => sys.outputs
  written.warn (sys.locked.warning ev)

variable {hasher : Str → H} {sys sys' : LockedSystem T D H} {flt : Faults} {o : D} {maker : Maker}
  {ev : LockEv T D} {sev : LockedSysEv T D} {es : List (LockedSysEv T D)} {verbosity : ℤ}
  {host : Host}

/-- What each object received, without the numbers of the writes. -/
def records (sys : LockedSystem T D H) : D → List Record := sys.locked.memory.records

theorem isSome_outputsAfter (flt : Faults) (sys : LockedSystem T D H) (ev : LockEv T D) (o : D) :
    ((sys.outputsAfter flt ev).objects o).isSome = (sys.outputs.objects o).isSome := by
  rw [outputsAfter, objects_warn]
  cases sys.locked.calls ev with
  | none => rfl
  | some p => exact isSome_writeTo flt p.2.1 p.1 sys.outputs o

variable [DecidableEq T] [DecidableEq H]

def step (hasher : Str → H) (sys : LockedSystem T D H) :
    LockedSysEv T D → Option (LockedSystem T D H)
  | .make flt o maker =>
    if (sys.outputs.objects o).isNone then
      some { sys with outputs := sys.outputs.make flt o maker }
    else none
  | .thread flt ev =>
    if sys.handed ev = true then
      (sys.locked.step hasher ev).map fun l => { locked := l, outputs := sys.outputsAfter flt ev }
    else none

/-- A fresh logger on a host, no destination object made. -/
def init (verbosity : ℤ) (host : Host) : LockedSystem T D H where
  locked := Locked.init verbosity
  outputs := { objects := fun _ => none, host := host }

theorem step_make :
    step hasher sys (.make flt o maker) = some sys' ↔
      sys.outputs.objects o = none ∧
        { sys with outputs := sys.outputs.make flt o maker } = sys' := by
  simp [step]

theorem step_thread :
    step hasher sys (.thread flt ev) = some sys' ↔
      sys.handed ev = true ∧ ∃ l, sys.locked.step hasher ev = some l ∧
        { locked := l, outputs := sys.outputsAfter flt ev } = sys' := by
  simp [step]

/-- RUN INVARIANT: no thread holds both mutexes, an object is in one place, and exists when it is
    handed over. -/
structure Placed (sys : LockedSystem T D H) : Prop where
  apart : sys.locked.Apart
  owned : sys.locked.settled.OwnedOnce
  made : ∀ o ∈ sys.locked.given, (sys.outputs.objects o).isSome

theorem placed_init (verbosity : ℤ) (host : Host) :
    Placed (init verbosity host : LockedSystem T D H) :=
  ⟨Locked.apart_init verbosity, Shared.OwnedOnce.init verbosity, by rintro o ⟨⟩⟩

/-- An object that does not exist has received nothing. -/
theorem Placed.silent (h : Placed sys) (hnone : sys.outputs.objects o = none) :
    sys.records o = [] := by
  have hgiven : o ∉ sys.locked.settled.given := fun hg => by
    have hsome := h.made o hg
    rw [hnone] at hsome
    cases hsome
  have hnothing : sys.locked.memory.received o = [] := by
    rcases Locked.received_settled h.owned o with hsame | ⟨x, hmore⟩
    · rw [← hsame, h.owned.unknown o hgiven]
    · rw [h.owned.unknown o hgiven] at hmore
      simp at hmore
  rw [records, Shared.records, hnothing]
  rfl

theorem placed_step (h : Placed sys) (hs : step hasher sys sev = some sys') : Placed sys' := by
  cases sev with
  | make flt o maker =>
    obtain ⟨-, rfl⟩ := step_make.mp hs
    exact ⟨h.apart, h.owned, fun o' ho' => isSome_make (h.made o' ho')⟩
  | thread flt ev =>
    obtain ⟨hhanded, l, hl, rfl⟩ := step_thread.mp hs
    refine ⟨Locked.apart_step h.apart hl,
      Shared.ownedOnce_run h.owned (Locked.refines_step h.apart hl), fun o ho => ?_⟩
    rw [isSome_outputsAfter]
    rcases Locked.given_step hl ho with hold | ⟨t, call, rfl, hobj⟩
    · exact h.made o hold
    · cases call with
      | addDestination id destination isValid =>
        obtain rfl : destination = some o := hobj
        have hsome : (sys.outputs.objects o).map (·.2.isValid) = some isValid := by
          simpa [handed] using hhanded
        rw [← Option.isSome_map, hsome]
        rfl
      | _ => cases hobj

/-- What a step may be: the failures in it are allowed, and what it makes fits. -/
def Lawful (Allows : Faults → Prop) (Fits : Outputs D → Maker → Prop) (sys : LockedSystem T D H)
    (sev : LockedSysEv T D) : Prop :=
  Allows sev.faults ∧ ∀ flt o maker, sev = .make flt o maker → Fits sys.outputs maker

variable {Allows : Faults → Prop} {Fits : Outputs D → Maker → Prop}
  {I : (D → List Record) → Outputs D → Prop}

/-- STEP: what is kept by every construction, call and warning is kept by a step. -/
theorem outputs_step (hI : System.Keeps Allows Fits I) (hp : Placed sys)
    (hok : Lawful Allows Fits sys sev) (h : I sys.records sys.outputs)
    (hs : step hasher sys sev = some sys') : I sys'.records sys'.outputs := by
  cases sev with
  | make flt o maker =>
    obtain ⟨hnone, rfl⟩ := step_make.mp hs
    exact hI.make hok.1 (hok.2 flt o maker rfl) hnone (hp.silent hnone) h
  | thread flt ev =>
    obtain ⟨-, l, hl, rfl⟩ := step_thread.mp hs
    have hreceived := Locked.received_step hl
    refine hI.warn _ (fun _ => Locked.isWarning_of_mem) ?_
    cases hcalls : sys.locked.calls ev with
    | none =>
      rw [hcalls] at hreceived
      have hsame : l.memory.records = sys.records := by
        funext o
        rw [Shared.records, hreceived]
        rfl
      simp only [records, hsame]
      exact h
    | some p =>
      obtain ⟨d, r, k⟩ := p
      rw [hcalls] at hreceived
      have hnew : l.memory.records =
          Function.update sys.records d.ptr (sys.records d.ptr ++ [r]) := by
        funext o
        rw [Shared.records, hreceived]
        by_cases ho : o = d.ptr
        · subst ho
          simp [records, Shared.records]
        · simp [records, Shared.records, Function.update_of_ne ho]
      simp only [records, hnew]
      exact hI.write r d hok.1 h

/-- OUTPUT RULE: it then holds between any two accesses. -/
theorem outputs_run (hI : System.Keeps Allows Fits I)
    (hinit : I (fun _ => []) { objects := fun _ => none, host := host })
    (hok : Guarded (step hasher) (Lawful Allows Fits)
      (init verbosity host : LockedSystem T D H) es)
    (hrun : run (step hasher) (init verbosity host) es = some sys) :
    I sys.records sys.outputs := by
  refine (run_inv_of_guarded (I := fun sys => Placed sys ∧ I sys.records sys.outputs)
    (fun s ev s' h hok hs => ?_) ⟨placed_init verbosity host, hinit⟩ hok hrun).2
  exact ⟨placed_step h.1 hs, outputs_step hI h.1 hok h.2 hs⟩

/-- A run that makes no object is lawful. -/
theorem guarded_threads (evs : List (LockEv T D)) (sys : LockedSystem T D H) :
    Guarded (step hasher) (Lawful (fun _ => True) Outputs.Fits) sys
      (evs.map (.thread Faults.none ·)) := by
  refine guarded_of_forall (fun sev hsev s => ⟨trivial, ?_⟩) sys
  obtain ⟨ev, -, rfl⟩ := List.mem_map.mp hsev
  rintro _ _ _ ⟨⟩

/-- RUN: a contract of a single log is kept for every file of the system. -/
theorem explained_run (c : Contract host.disk)
    (hok : Guarded (step hasher) (Lawful c.Allows Outputs.Fits)
      (init verbosity host : LockedSystem T D H) es)
    (hrun : run (step hasher) (init verbosity host) es = some sys) :
    Explained c sys.records sys.outputs :=
  outputs_run (System.explained_keeps c) (System.explained_init c) hok hrun

end LockedSystem

end GtLogging
