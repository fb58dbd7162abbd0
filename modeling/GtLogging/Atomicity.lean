import GtLogging.Mutexes
import GtLogging.Linearization

/-! @src src/gt_logging.cpp, src/gt_logging.h | layer:refinement,result | guarded sections are
    atomic

    Seen through `settled`, a step outside the sections and the lock of a mutex are steps of the
    threads of `Shared`, and what happens under a mutex is not seen at all. So every interleaving of
    accesses is one of whole sections; and every one of whole sections is one of accesses, for an
    open section can always be completed. -/

namespace GtLogging
open StepMachine (run run_append run_refines)

/-- A step of the threads needs its place, the objects handed over and the verbosity. -/
theorem Shared.enabled_of_enabled {T D H : Type*} {s s' : Shared T D H} {e : Ev T D}
    (hpc : s'.pc e.thread = s.pc e.thread)
    (hgiven : s'.given = s.given) (hv : s'.verbosity = s.verbosity) (h : s.Enabled e) :
    s'.Enabled e := by
  cases e <;> simp_all [Enabled, Ev.thread]

namespace Locked

variable {T D H : Type*} {hasher : Str → H} {l l' : Locked T D H} {e : Ev T D} {t : T}
  {ev : LockEv T D} {es : List (LockEv T D)}

/-! ### Who is in a section -/

/-- RUN INVARIANT: no thread holds both mutexes. -/
def Apart (l : Locked T D H) : Prop :=
  ∀ p ∈ l.logMutex.holder, ∀ q ∈ l.cacheMutex.holder, p.1.thread ≠ q.1.thread

theorem apart_init (verbosity : ℤ) : (init verbosity : Locked T D H).Apart := by
  rintro p ⟨⟩

/-- Counting leaves all else. -/
theorem count_spec (l : Locked T D H) (e : Ev T D) :
    (l.count e).pc = l.pc ∧ (l.count e).logMutex = l.logMutex ∧
      (l.count e).cacheMutex = l.cacheMutex := by
  cases e <;> exact ⟨rfl, rfl, rfl⟩

/-- Both mutexes are free. -/
def Free (l : Locked T D H) : Prop := l.logMutex.Free ∧ l.cacheMutex.Free

theorem free_init (verbosity : ℤ) : (init verbosity : Locked T D H).Free := ⟨rfl, rfl⟩

theorem not_inside_of_free (h : l.Free) (t : T) : ¬ l.Inside t := by
  rintro (⟨p, hp, -⟩ | ⟨p, hp, -⟩)
  · rw [h.1] at hp
    cases hp
  · rw [h.2] at hp
    cases hp

/-- The section that is open under a mutex. -/
def openSection (l : Locked T D H) : Mutex → Option (Ev T D)
  | .logMutex => l.logMutex.holder.map Prod.fst
  | .cacheMutex => l.cacheMutex.holder.map Prod.fst

theorem free_iff : l.Free ↔ ∀ m, l.openSection m = none := by
  refine ⟨fun h m => ?_, fun h => ⟨?_, ?_⟩⟩
  · cases m with
    | logMutex => exact Option.map_eq_none_iff.mpr h.1
    | cacheMutex => exact Option.map_eq_none_iff.mpr h.2
  · exact Option.map_eq_none_iff.mp (h .logMutex)
  · exact Option.map_eq_none_iff.mp (h .cacheMutex)

theorem inside_iff : l.Inside t ↔ ∃ m, ∃ e ∈ l.openSection m, e.thread = t := by
  constructor
  · rintro (⟨p, hp, rfl⟩ | ⟨p, hp, rfl⟩)
    · exact ⟨.logMutex, p.1, Option.mem_map_of_mem Prod.fst hp, rfl⟩
    · exact ⟨.cacheMutex, p.1, Option.mem_map_of_mem Prod.fst hp, rfl⟩
  · rintro ⟨_ | _, e, he, rfl⟩
    · obtain ⟨p, hp, rfl⟩ := Option.map_eq_some_iff.mp he
      exact Or.inl ⟨p, hp, rfl⟩
    · obtain ⟨p, hp, rfl⟩ := Option.map_eq_some_iff.mp he
      exact Or.inr ⟨p, hp, rfl⟩

theorem thread_ne_of_outcome {W X : Type*} {P : Sections W X Bool} {m : Monitor (Ev T D) W X}
    (h : ¬ ∃ h ∈ m.holder, h.1.thread = t) : ∀ p ∈ m.outcome P, p.1.thread ≠ t := by
  intro p hp ht
  obtain ⟨q, hq, rfl⟩ := Option.map_eq_some_iff.mp hp
  exact h ⟨q, hq, ht⟩

variable [DecidableEq T]

/-! ### Places -/

theorem arrive_of_ne {a : Option (Ev T D × Bool)} (pc : T → Pc D)
    (h : ∀ p ∈ a, p.1.thread ≠ t) : arrive a pc t = pc t := by
  cases a with
  | none => rfl
  | some p => exact Function.update_of_ne (Ne.symm (h p rfl)) _ _

/-- A section of another thread does not change where a thread goes. -/
theorem arrive_update {a : Option (Ev T D × Bool)} (pc : T → Pc D) (p : Pc D)
    (h : ∀ q ∈ a, q.1.thread ≠ t) :
    arrive a (Function.update pc t p) = Function.update (arrive a pc) t p := by
  cases a with
  | none => rfl
  | some q => exact Function.update_comm (Ne.symm (h q rfl)) _ _ _

variable [DecidableEq D] [DecidableEq H]

/-- A thread outside the sections is where it is when they have been left. -/
theorem settled_pc (h : ¬ l.Inside t) : l.settled.pc t = l.pc t := by
  obtain ⟨hlog, hcache⟩ := not_or.mp h
  exact (arrive_of_ne _ (thread_ne_of_outcome hcache)).trans
    (arrive_of_ne _ (thread_ne_of_outcome hlog))

theorem enabled_settled (h : ¬ l.Inside e.thread) (he : l.memory.Enabled e) :
    l.settled.Enabled e :=
  Shared.enabled_of_enabled (s := l.memory) (settled_pc h) rfl rfl he

/-! ### What is seen of a step -/

theorem apart_step (ha : l.Apart) (hs : step hasher l ev = some l') : l'.Apart := by
  cases lockStep_of_step hs with
  | plain hm hi he => exact ha
  | @acquireLog e hm hi he hfree =>
    obtain ⟨-, -, hcacheMutex⟩ := count_spec l e
    rintro _ ⟨⟩ q hq heq
    rw [hcacheMutex] at hq
    exact (not_or.mp hi).2 ⟨q, hq, heq.symm⟩
  | @acquireCache e hm hi he hfree =>
    obtain ⟨-, hlogMutex, -⟩ := count_spec l e
    rintro p hp _ ⟨⟩ heq
    rw [hlogMutex] at hp
    exact (not_or.mp hi).1 ⟨p, hp, heq⟩
  | accessLog hh hm =>
    obtain ⟨w', hw⟩ := Monitor.holder_access hm hh
    rintro p hp q hq
    obtain rfl := Option.some.inj (hw.symm.trans hp)
    exact ha _ hh q hq
  | accessCache hh hm =>
    obtain ⟨w', hw⟩ := Monitor.holder_access hm hh
    rintro p hp q hq
    obtain rfl := Option.some.inj (hw.symm.trans hq)
    have hne := ha p hp _ hh
    exact hne
  | releaseLog hm =>
    rintro p hp
    rw [(Monitor.settled_leave hm).2.2] at hp
    cases hp
  | releaseCache hm =>
    rintro p - q hq
    rw [(Monitor.settled_leave hm).2.2] at hq
    cases hq

/-- A section under `logMutex`, all at once, is the step of the threads. -/
theorem next_logMutex (hm : e.mutex = some .logMutex) (l : Locked T D H) (x : LogData D)
    (c : DefaultCache H) (pc : T → Pc D) :
    (l.seen x c pc).next hasher e =
      (l.count e).seen ((e.logWork l.tickets).finish x).2 c
        (Function.update pc e.thread (e.after ((e.logWork l.tickets).finish x).1)) := by
  cases e <;> first | rfl | cases hm

/-- So is one under the mutex of the cache. -/
theorem next_cacheMutex (hm : e.mutex = some .cacheMutex) (l : Locked T D H) (x : LogData D)
    (c : DefaultCache H) (pc : T → Pc D) :
    (l.seen x c pc).next hasher e =
      (l.count e).seen x ((e.cacheWork hasher).finish c).2
        (Function.update pc e.thread (e.after ((e.cacheWork hasher).finish c).1)) := by
  cases e <;> first | rfl | cases hm

/-- STEP: a step outside the sections. -/
theorem settled_plain (hm : e.mutex = none) (hi : ¬ l.Inside e.thread) :
    settled { l with pc := (l.memory.next hasher e).pc, given := (l.memory.next hasher e).given } =
      l.settled.next hasher e := by
  obtain ⟨hlog, hcache⟩ := not_or.mp hi
  have hpc : ∀ p, arrive (l.cacheMutex.outcome (cacheSections H))
      (arrive (l.logMutex.outcome (logSections D)) (Function.update l.pc e.thread p)) =
        Function.update l.settled.pc e.thread p := by
    intro p
    rw [arrive_update _ _ (thread_ne_of_outcome hlog),
      arrive_update _ _ (thread_ne_of_outcome hcache)]
    rfl
  cases e with
  | call t c =>
    exact congrArg (seen { l with given := c.object.toList ++ l.given } _ _) (hpc (.called c))
  | leave t c => exact congrArg (seen l _ _) (hpc _)
  | ret t result => exact congrArg (seen l _ _) (hpc .idle)
  | _ => cases hm

/-- STEP: the lock of `logMutex`. -/
theorem settled_acquireLog (hm : e.mutex = some .logMutex) (hi : ¬ l.Inside e.thread)
    (hfree : l.logMutex.Free) :
    settled { l.count e with logMutex := l.logMutex.enter e (e.logWork l.tickets) } =
      l.settled.next hasher e := by
  obtain ⟨hpc, -, hcacheMutex⟩ := count_spec l e
  rw [settled, settled, next_logMutex hm, Monitor.settled_free hfree, Monitor.outcome_free hfree]
  simp only [hpc, hcacheMutex]
  exact congrArg (seen (l.count e) _ _)
    (arrive_update l.pc _ (thread_ne_of_outcome (not_or.mp hi).2))

/-- STEP: the lock of the mutex of the cache. -/
theorem settled_acquireCache (hm : e.mutex = some .cacheMutex) (hfree : l.cacheMutex.Free) :
    settled { l.count e with cacheMutex := l.cacheMutex.enter e (e.cacheWork hasher) } =
      l.settled.next hasher e := by
  obtain ⟨hpc, hlogMutex, -⟩ := count_spec l e
  rw [settled, settled, next_cacheMutex hm, Monitor.settled_free hfree, Monitor.outcome_free hfree]
  simp only [hpc, hlogMutex]
  rfl

/-- STEP: outside the sections and at a lock, the step of the threads; under a mutex, nothing. -/
theorem refines_step (ha : l.Apart) (hs : step hasher l ev = some l') :
    run (Shared.step hasher) l.settled ev.event.toList = some l'.settled := by
  cases lockStep_of_step hs with
  | plain hm hi he =>
    refine Shared.run_cons.mpr ⟨enabled_settled hi he, ?_⟩
    rw [settled_plain hm hi]
    rfl
  | acquireLog hm hi he hfree =>
    refine Shared.run_cons.mpr ⟨enabled_settled hi he, ?_⟩
    rw [settled_acquireLog hm hi hfree]
    rfl
  | acquireCache hm hi he hfree =>
    refine Shared.run_cons.mpr ⟨enabled_settled hi he, ?_⟩
    rw [settled_acquireCache hm hfree]
    rfl
  | accessLog hh hm =>
    obtain ⟨hout, hsettled⟩ := Monitor.settled_access hm
    refine congrArg some ?_
    simp only [settled, hout, hsettled]
    rfl
  | accessCache hh hm =>
    obtain ⟨hout, hsettled⟩ := Monitor.settled_access hm
    refine congrArg some ?_
    simp only [settled, hout, hsettled]
    rfl
  | releaseLog hm =>
    obtain ⟨hout, hsettled, hfree⟩ := Monitor.settled_leave hm
    refine congrArg some ?_
    simp only [settled, hout, hsettled, Monitor.outcome_free hfree]
    rfl
  | @releaseCache m e answer hm =>
    obtain ⟨hout, hsettled, hfree⟩ := Monitor.settled_leave hm
    obtain ⟨_, w, hh, -, ⟨⟩, -⟩ := Monitor.leave_eq_some.mp hm
    have hother : ¬ ∃ p ∈ l.logMutex.holder, p.1.thread = e.thread := by
      rintro ⟨p, hp, heq⟩
      exact ha p hp _ hh heq
    refine congrArg some ?_
    simp only [settled, hout, hsettled, Monitor.outcome_free hfree]
    exact congrArg (seen l _ _) (arrive_update l.pc _ (thread_ne_of_outcome hother)).symm

/-- RUN: what is seen of a run is a run. -/
theorem refines_run (ha : l.Apart) (h : run (step hasher) l es = some l') :
    run (Shared.step hasher) l.settled (es.filterMap LockEv.event) = some l'.settled :=
  run_refines settled LockEv.event (fun _ _ _ => apart_step) (fun _ _ _ => refines_step) ha h

/-! ### Completing sections -/

theorem settled_of_free (h : l.Free) : l.settled = l.memory := by
  rw [settled, Monitor.settled_free h.1, Monitor.outcome_free h.1, Monitor.settled_free h.2,
    Monitor.outcome_free h.2]
  rfl

/-- What is left of it. -/
def leftOf (l : Locked T D H) : Mutex → ℕ
  | .logMutex => l.logMutex.left (logSections D)
  | .cacheMutex => l.cacheMutex.left (cacheSections H)

/-- STEP: a thread can lock a mutex that is free. -/
theorem exists_acquire (hasher : Str → H) {m : Mutex} (hm : e.mutex = some m)
    (hi : ¬ l.Inside e.thread) (he : l.memory.Enabled e) (hfree : l.openSection m = none) :
    ∃ l', step hasher l (.acquire e) = some l' ∧ l'.openSection m = some e ∧
      ∀ m' ≠ m, l'.openSection m' = l.openSection m' := by
  obtain ⟨-, hlogMutex, hcacheMutex⟩ := count_spec l e
  cases m with
  | logMutex =>
    refine ⟨_, step_of_lockStep (.acquireLog hm hi he (Option.map_eq_none_iff.mp hfree)), rfl, ?_⟩
    rintro (_ | _) hne
    · exact absurd rfl hne
    · simp [openSection, hcacheMutex]
  | cacheMutex =>
    refine ⟨_, step_of_lockStep (.acquireCache hm hi he (Option.map_eq_none_iff.mp hfree)), rfl,
      ?_⟩
    rintro (_ | _) hne
    · simp [openSection, hlogMutex]
    · exact absurd rfl hne

/-- STEP: the holder of a mutex can always go on, and comes closer to its unlock. -/
theorem goes_on (hasher : Str → H) {m : Mutex} (h : l.openSection m = some e) :
    ∃ ev l', ev.thread = e.thread ∧ ev.event = none ∧ step hasher l ev = some l' ∧
      (∀ m' ≠ m, l'.openSection m' = l.openSection m') ∧
      (l'.openSection m = none ∨ l'.openSection m = some e ∧ l'.leftOf m < l.leftOf m) := by
  cases m with
  | logMutex =>
    obtain ⟨⟨_, w⟩, hh, rfl⟩ := Option.map_eq_some_iff.mp h
    rcases Monitor.access_or_leave (P := logSections D) hh with ⟨m, hm⟩ | hm
    · obtain ⟨w', hw⟩ := Monitor.holder_access hm hh
      refine ⟨.access _ .logMutex, _, rfl, rfl, step_of_lockStep (.accessLog hh hm), ?_,
        Or.inr ⟨?_, Monitor.left_access hm⟩⟩
      · rintro (_ | _) hne
        · exact absurd rfl hne
        · rfl
      · simp [openSection, hw]
    · refine ⟨.release _ .logMutex, _, rfl, rfl, step_of_lockStep (.releaseLog hm), ?_,
        Or.inl rfl⟩
      rintro (_ | _) hne
      · exact absurd rfl hne
      · rfl
  | cacheMutex =>
    obtain ⟨⟨_, w⟩, hh, rfl⟩ := Option.map_eq_some_iff.mp h
    rcases Monitor.access_or_leave (P := cacheSections H) hh with ⟨m, hm⟩ | hm
    · obtain ⟨w', hw⟩ := Monitor.holder_access hm hh
      refine ⟨.access _ .cacheMutex, _, rfl, rfl, step_of_lockStep (.accessCache hh hm), ?_,
        Or.inr ⟨?_, Monitor.left_access hm⟩⟩
      · rintro (_ | _) hne
        · rfl
        · exact absurd rfl hne
      · simp [openSection, hw]
    · refine ⟨.release _ .cacheMutex, _, rfl, rfl, step_of_lockStep (.releaseCache hm), ?_,
        Or.inl rfl⟩
      rintro (_ | _) hne
      · rfl
      · exact absurd rfl hne

/-- RUN: so it can leave its section, whatever the other threads do afterwards. -/
theorem exists_release (hasher : Str → H) {m : Mutex} (n : ℕ) {l : Locked T D H}
    (h : l.openSection m = some e) (hn : l.leftOf m < n) :
    ∃ es l', (∀ ev ∈ es, ev.thread = e.thread ∧ ev.event = none) ∧
      run (step hasher) l es = some l' ∧ l'.openSection m = none ∧
      ∀ m' ≠ m, l'.openSection m' = l.openSection m' := by
  induction n generalizing l with
  | zero => omega
  | succ n ih =>
    obtain ⟨ev, l₁, hthread, hevent, hstep, hother, hdone | ⟨hopen, hlt⟩⟩ := goes_on hasher h
    · exact ⟨[ev], l₁, by simp [hthread, hevent], StepMachine.run_cons.mpr ⟨l₁, hstep, rfl⟩, hdone,
        hother⟩
    · obtain ⟨es, l', hes, hrun, hfree, hother'⟩ := ih hopen (by omega)
      exact ⟨ev :: es, l', List.forall_mem_cons.mpr ⟨⟨hthread, hevent⟩, hes⟩,
        StepMachine.run_cons.mpr ⟨l₁, hstep, hrun⟩, hfree,
        fun m' hm' => (hother' m' hm').trans (hother m' hm')⟩

/-- Whoever holds a mutex can give it back. -/
theorem exists_closed (hasher : Str → H) (l : Locked T D H) (m : Mutex) :
    ∃ es l', (∀ ev ∈ es, ev.event = none ∧ ∃ e ∈ l.openSection m, ev.thread = e.thread) ∧
      run (step hasher) l es = some l' ∧ l'.openSection m = none ∧
      ∀ m' ≠ m, l'.openSection m' = l.openSection m' := by
  cases h : l.openSection m with
  | none => exact ⟨[], l, by simp, rfl, h, fun _ _ => rfl⟩
  | some e =>
    obtain ⟨es, l', hes, hrun, hrest⟩ := exists_release hasher _ h (Nat.lt_succ_self _)
    exact ⟨es, l', fun ev hev => ⟨(hes ev hev).2, e, rfl, (hes ev hev).1⟩, hrun, hrest⟩

/-- The mutexes can be given back, and nothing is seen of it. -/
theorem exists_free (hasher : Str → H) (ha : l.Apart) :
    ∃ es l', (∀ ev ∈ es, ev.event = none ∧ l.Inside ev.thread) ∧
      run (step hasher) l es = some l' ∧ l'.Free ∧ l'.memory = l.settled := by
  obtain ⟨es₁, l₁, hes₁, hrun₁, hclosed₁, hrest₁⟩ := exists_closed hasher l .logMutex
  obtain ⟨es₂, l₂, hes₂, hrun₂, hclosed₂, hrest₂⟩ := exists_closed hasher l₁ .cacheMutex
  have hes : ∀ ev ∈ es₁ ++ es₂, ev.event = none ∧ l.Inside ev.thread := by
    intro ev hev
    rcases List.mem_append.mp hev with hev | hev
    · obtain ⟨hevent, e, he, ht⟩ := hes₁ ev hev
      exact ⟨hevent, inside_iff.mpr ⟨_, e, he, ht.symm⟩⟩
    · obtain ⟨hevent, e, he, ht⟩ := hes₂ ev hev
      rw [hrest₁ _ Mutex.noConfusion] at he
      exact ⟨hevent, inside_iff.mpr ⟨_, e, he, ht.symm⟩⟩
  have hrun : run (step hasher) l (es₁ ++ es₂) = some l₂ := run_append.mpr ⟨l₁, hrun₁, hrun₂⟩
  have hfree : l₂.Free := by
    refine free_iff.mpr ?_
    rintro (_ | _)
    · rw [hrest₂ _ Mutex.noConfusion, hclosed₁]
    · exact hclosed₂
  have hseen := refines_run ha hrun
  rw [List.filterMap_eq_nil_iff.mpr fun ev hev => (hes ev hev).1, settled_of_free hfree] at hseen
  exact ⟨es₁ ++ es₂, l₂, hes, hrun, hfree, (Option.some.inj hseen).symm⟩

/-- From a state with both mutexes free, a thread can take a step of `Shared`. -/
theorem exists_perform (hasher : Str → H) (hfree : l.Free) (he : l.memory.Enabled e) :
    ∃ es l', (∀ ev ∈ es, ev.thread = e.thread) ∧ es.filterMap LockEv.event = [e] ∧
      run (step hasher) l es = some l' ∧ l'.Free ∧ l'.memory = l.memory.next hasher e := by
  have hi := not_inside_of_free hfree e.thread
  have hopen := free_iff.mp hfree
  have ha : l.Apart := by
    rintro p hp
    rw [hfree.1] at hp
    cases hp
  -- the lock, and then the way to the unlock
  obtain ⟨es, l', hthread, hevent, hrun, hfree'⟩ : ∃ es l', (∀ ev ∈ es, ev.thread = e.thread) ∧
      es.filterMap LockEv.event = [e] ∧ run (step hasher) l es = some l' ∧ l'.Free := by
    cases hm : e.mutex with
    | none =>
      exact ⟨[.plain e], _, by simp [LockEv.thread], rfl, StepMachine.run_cons.mpr
        ⟨_, step_of_lockStep (.plain hm hi he), rfl⟩, hfree⟩
    | some m =>
      obtain ⟨l₁, hstep, hsection, hother⟩ := exists_acquire hasher hm hi he (hopen m)
      obtain ⟨es, l', hes, hrun, hclosed, hrest⟩ :=
        exists_release hasher _ hsection (Nat.lt_succ_self _)
      have hnone : es.filterMap LockEv.event = [] :=
        List.filterMap_eq_nil_iff.mpr fun ev hev => (hes ev hev).2
      refine ⟨.acquire e :: es, l', List.forall_mem_cons.mpr ⟨rfl, fun ev hev => (hes ev hev).1⟩,
        ?_, StepMachine.run_cons.mpr ⟨l₁, hstep, hrun⟩, free_iff.mpr fun m' => ?_⟩
      · rw [List.filterMap_cons_some (show LockEv.event (.acquire e) = some e from rfl), hnone]
      · by_cases hm' : m' = m
        · rwa [hm']
        · rw [hrest m' hm', hother m' hm', hopen m']
  have hseen := refines_run ha hrun
  rw [hevent, settled_of_free hfree, settled_of_free hfree'] at hseen
  obtain ⟨-, hnext⟩ := Shared.run_cons.mp hseen
  exact ⟨es, l', hthread, hevent, hrun, hfree', (Option.some.inj hnext).symm⟩

/-- RUN: whole sections one after the other are a run with mutexes. -/
theorem exists_run_of_run {evs : List (Ev T D)} {s : Shared T D H} (hfree : l.Free)
    (h : run (Shared.step hasher) l.memory evs = some s) :
    ∃ es l', es.filterMap LockEv.event = evs ∧ (∀ ev ∈ es, ∃ e ∈ evs, ev.thread = e.thread) ∧
      run (step hasher) l es = some l' ∧ l'.Free ∧ l'.memory = s := by
  induction evs generalizing l with
  | nil => exact ⟨[], l, rfl, by simp, rfl, hfree, Option.some.inj h⟩
  | cons e evs ih =>
    obtain ⟨he, h⟩ := Shared.run_cons.mp h
    obtain ⟨es₁, l₁, hthread₁, hevent₁, hrun₁, hfree₁, hnext⟩ := exists_perform hasher hfree he
    rw [← hnext] at h
    obtain ⟨es₂, l', hevent₂, hthread₂, hrun₂, hfree', hs⟩ := ih hfree₁ h
    refine ⟨es₁ ++ es₂, l', by rw [List.filterMap_append, hevent₁, hevent₂]; rfl, fun ev hev => ?_,
      run_append.mpr ⟨l₁, hrun₁, hrun₂⟩, hfree', hs⟩
    rcases List.mem_append.mp hev with hev | hev
    · exact ⟨e, List.mem_cons_self, hthread₁ ev hev⟩
    · obtain ⟨e', he', heq⟩ := hthread₂ ev hev
      exact ⟨e', List.mem_cons_of_mem e he', heq⟩

/-- What the logger is like while sections are open: outside them everything is as it is going to
    be. -/
structure Shows (l : Locked T D H) (s : Shared T D H) : Prop where
  /-- Under a free mutex the data is settled. -/
  log : l.logMutex.Free → l.memory.destinations = s.destinations ∧ l.memory.received = s.received
  cache : l.cacheMutex.Free → l.memory.cache = s.cache
  /-- So is the place of a thread in no section. -/
  place : ∀ t, ¬ l.Inside t → l.memory.pc t = s.pc t
  /-- With both mutexes free the logger is. -/
  whole : l.Free → l.memory = s

theorem shows_settled (l : Locked T D H) : l.Shows l.settled := by
  refine ⟨fun h => ?_, fun h => ?_, fun t ht => (settled_pc ht).symm,
    fun h => (settled_of_free h).symm⟩
  · rw [settled, Monitor.settled_free h]
    exact ⟨rfl, rfl⟩
  · rw [settled, Monitor.settled_free h]
    rfl

/-- ATOMIC: a run of the logger with its mutexes, in which every lock, every access and every unlock
    is a step of its own, is a run of whole sections in the order of their locks, and each state of
    it shows what that run has made; and every run of whole sections is one of the logger with its
    mutexes. -/
theorem sections_are_atomic (hasher : Str → H) (verbosity : ℤ) :
    (∀ (es : List (LockEv T D)) (l : Locked T D H),
      run (step hasher) (init verbosity) es = some l →
      ∃ s, run (Shared.step hasher) (Shared.init verbosity) (es.filterMap LockEv.event) = some s ∧
        l.Shows s) ∧
    ∀ (evs : List (Ev T D)) (s : Shared T D H),
      run (Shared.step hasher) (Shared.init verbosity) evs = some s →
      ∃ es l, es.filterMap LockEv.event = evs ∧ run (step hasher) (init verbosity) es = some l ∧
        l.Free ∧ l.memory = s := by
  refine ⟨fun es l h => ⟨l.settled, refines_run (apart_init verbosity) h, shows_settled l⟩,
    fun evs s h => ?_⟩
  obtain ⟨es, l, hevents, -, hrun⟩ := exists_run_of_run (l := init verbosity)
    (free_init verbosity) h
  exact ⟨es, l, hevents, hrun⟩

/-- One thread adds a destination and then another one. -/
def addTwo : List (LockEv Bool Bool) :=
  [.plain (.call false (.addDestination ['a'] (some false) true)),
    .acquire (.check false ['a'] false), .access false .logMutex, .release false .logMutex,
    .acquire (.push false ['a'] false), .access false .logMutex, .release false .logMutex,
    .plain (.ret false (some true)),
    .plain (.call false (.addDestination ['b'] (some true) true)),
    .acquire (.check false ['b'] true), .access false .logMutex, .access false .logMutex,
    .release false .logMutex, .acquire (.push false ['b'] true), .access false .logMutex,
    .release false .logMutex, .plain (.ret false (some true))]

/-- It removes the first one while another thread clears the cache: the second one has moved
    forward, and nothing is cut off yet. -/
def removeDuringClear : List (LockEv Bool Bool) :=
  addTwo ++ [.plain (.call false (.removeDestination ['a'])), .acquire (.erase false ['a']),
    .plain (.call true .clearCache), .access false .logMutex, .acquire (.clear true),
    .access false .logMutex, .access true .cacheMutex, .access false .logMutex]

theorem sections_are_atomic_remove_during_clear :
    ∃ (l : Locked Bool Bool UInt64) (s : Shared Bool Bool UInt64),
      run (step fnv1a) (init 0) removeDuringClear = some l ∧
      l.memory.destinations = [⟨['b'], true⟩, ⟨['b'], true⟩] ∧
      run (Shared.step fnv1a) (Shared.init 0) (removeDuringClear.filterMap LockEv.event) =
        some s ∧
      l.Shows s := by
  have hsome : (run (step fnv1a) (init 0 : Locked Bool Bool UInt64) removeDuringClear).map
      (·.memory.destinations) = some [⟨['b'], true⟩, ⟨['b'], true⟩] := by
    decide
  obtain ⟨l, hl, hmoved⟩ := Option.map_eq_some_iff.mp hsome
  obtain ⟨s, hs, hshows⟩ := (sections_are_atomic fnv1a 0).1 removeDuringClear l hl
  exact ⟨l, s, hl, hmoved, hs, hshows⟩

end Locked

end GtLogging
