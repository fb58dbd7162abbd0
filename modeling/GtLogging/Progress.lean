import GtLogging.Atomicity
import GtLogging.OnceRace

/-! @src src/gt_logging.cpp, src/gt_logging.h | layer:result | every call finishes

    No call retries: `rank` counts the sections that a call has left at most, with its steps outside
    them, and each of them takes one off, whatever the others did in between. A thread waits for at
    most one mutex and holds none meanwhile, so whoever it waits for can go on. -/

namespace GtLogging

/-- How many steps a thread has left in its call, at most. -/
def Pc.rank {D : Type*} : Pc D → ℕ
  | .idle => 0
  | .returned _ => 1
  | .adding _ _ => 2
  | .delivering _ => 2
  | .appending _ => 3
  | .called _ => 4

theorem Pc.rank_pos {D : Type*} {p : Pc D} (h : p ≠ .idle) : 0 < p.rank := by
  cases p with
  | idle => exact absurd rfl h
  | _ => exact Nat.succ_pos _

namespace Shared
open StepMachine (run run_append)

variable {T D H : Type*} [DecidableEq H]
variable {hasher : Str → H} {s s' : Shared T D H} {e : Ev T D} {t : T}

/-- A step inside a call takes one off. -/
theorem rank_target (hasher : Str → H) (s : Shared T D H) (h : source e ≠ .idle) :
    (s.target hasher e).rank < (source e).rank := by
  cases e with
  | call u c => exact absurd rfl h
  | check u id o =>
    rw [target]
    split_ifs <;> exact Nat.lt_of_sub_eq_succ rfl
  | find u o m =>
    rw [target]
    split_ifs <;> exact Nat.lt_of_sub_eq_succ rfl
  | _ => exact Nat.lt_of_sub_eq_succ rfl

variable [DecidableEq T]

/-- Only a return leaves the call. -/
theorem target_ne_idle (h : returns e.thread e = false) : s.target hasher e ≠ .idle := by
  cases e with
  | ret u result => simp [returns, Ev.thread] at h
  | check u id o =>
    rw [target]
    split_ifs <;> rintro ⟨⟩
  | find u o m =>
    rw [target]
    split_ifs <;> rintro ⟨⟩
  | _ => rintro ⟨⟩

variable [DecidableEq D]

/-- RUN: a call that has not returned has taken no more steps than it had. -/
theorem rank_run {es : List (Ev T D)} (hpc : s.pc t ≠ .idle) (hret : ∀ e ∈ es, returns t e = false)
    (hrun : run (step hasher) s es = some s') :
    s'.pc t ≠ .idle ∧ (s'.pc t).rank + es.countP (·.thread = t) ≤ (s.pc t).rank := by
  induction es generalizing s with
  | nil =>
    cases hrun
    exact ⟨hpc, le_rfl⟩
  | cons e es ih =>
    obtain ⟨he, hrun⟩ := run_cons.mp hrun
    have hrest : ∀ e' ∈ es, returns t e' = false :=
      fun e' he' => hret e' (List.mem_cons_of_mem _ he')
    by_cases ht : e.thread = t
    · subst ht
      have hsource : source e ≠ .idle := by rwa [← pc_of_enabled he]
      have hlt := rank_target hasher s hsource
      have hinside : s.target hasher e ≠ .idle := target_ne_idle (hret e List.mem_cons_self)
      obtain ⟨hopen, hle⟩ := ih (by rwa [pc_next_self]) hrest hrun
      rw [pc_next_self] at hle
      refine ⟨hopen, ?_⟩
      rw [List.countP_cons_of_pos (by simp), pc_of_enabled he]
      omega
    · have hnext := pc_next_of_ne hasher s ht
      obtain ⟨hopen, hle⟩ := ih (by rwa [hnext]) hrest hrun
      rw [hnext] at hle
      exact ⟨hopen, by rwa [List.countP_cons_of_neg (by simpa using ht)]⟩

/-- Alone, a thread finishes its call in the steps it has left. -/
theorem exists_finish (hasher : Str → H) (t : T) (n : ℕ) {s : Shared T D H}
    (hn : (s.pc t).rank ≤ n) :
    ∃ fin : List (Ev T D), (∀ e ∈ fin, e.thread = t) ∧ fin.length ≤ n ∧
      ∃ s', run (step hasher) s fin = some s' ∧ s'.pc t = .idle := by
  induction n generalizing s with
  | zero =>
    refine ⟨[], by simp, le_rfl, s, rfl, ?_⟩
    by_contra hpc
    exact absurd (Pc.rank_pos hpc) (by omega)
  | succ n ih =>
    by_cases hpc : s.pc t = .idle
    · exact ⟨[], by simp, Nat.zero_le _, s, rfl, hpc⟩
    · obtain ⟨e, rfl, he⟩ := s.exists_enabled hpc
      have hnext := pc_next_self hasher s e
      have hsource : source e ≠ .idle := by rwa [← pc_of_enabled he]
      have hlt := rank_target hasher s hsource
      rw [pc_of_enabled he] at hn
      obtain ⟨fin, hown, hlen, s', hrun, hidle⟩ := ih (s := s.next hasher e) (by rw [hnext]; omega)
      exact ⟨e :: fin, List.forall_mem_cons.mpr ⟨rfl, hown⟩, by simpa using hlen, s',
        run_cons.mpr ⟨he, hrun⟩, hidle⟩

end Shared

namespace Locked
open StepMachine (run run_append)
open Shared (onceX sayX)

variable {T D H : Type*} [DecidableEq T] [DecidableEq D] [DecidableEq H]
variable {hasher : Str → H} {l l' : Locked T D H} {e : Ev T D} {t : T}

/-- DEADLOCK FREE: a thread inside a call can take a step, or waits for a mutex that another thread
    holds, and that one can. -/
theorem steps_or_waits (hasher : Str → H) (h : l.Inside t ∨ l.memory.pc t ≠ .idle) :
    (∃ ev l', ev.thread = t ∧ step hasher l ev = some l') ∨
      ∃ m, ∃ e ∈ l.openSection m, e.thread ≠ t ∧
        ∃ ev l', ev.thread = e.thread ∧ ev.event = none ∧ step hasher l ev = some l' := by
  by_cases hi : l.Inside t
  · -- it holds a mutex
    obtain ⟨m, e, hsection, rfl⟩ := inside_iff.mp hi
    obtain ⟨ev, l', hthread, -, hstep, -⟩ := goes_on hasher hsection
    exact Or.inl ⟨ev, l', hthread, hstep⟩
  · obtain ⟨e, rfl, he⟩ := l.memory.exists_enabled (h.resolve_left hi)
    cases hm : e.mutex with
    | none => exact Or.inl ⟨.plain e, _, rfl, step_of_lockStep (.plain hm hi he)⟩
    | some m =>
      cases hsection : l.openSection m with
      | none =>
        obtain ⟨l', hstep, -⟩ := exists_acquire hasher hm hi he hsection
        exact Or.inl ⟨.acquire e, l', rfl, hstep⟩
      | some e' =>
        obtain ⟨ev, l', hthread, hevent, hstep, -⟩ := goes_on hasher hsection
        exact Or.inr ⟨m, e', hsection, fun heq => hi (inside_iff.mpr ⟨m, e', hsection, heq⟩),
          ev, l', hthread, hevent, hstep⟩

/-- The threads that hold mutexes give them back, and then a thread alone finishes its call. -/
theorem exists_returned (hasher : Str → H) (ha : l.Apart) (t : T) :
    ∃ close own l', (∀ ev ∈ close, ev.event = none ∧ l.Inside ev.thread) ∧
      (∀ ev ∈ own, ev.thread = t) ∧
      (own.filterMap LockEv.event).length ≤ (l.settled.pc t).rank ∧
      run (step hasher) l (close ++ own) = some l' ∧ l'.memory.pc t = .idle := by
  obtain ⟨close, l₁, hclose, hrun₁, hfree, hmemory⟩ := exists_free hasher ha
  obtain ⟨fin, hown, hlen, s', hfin, hidle⟩ :=
    Shared.exists_finish hasher t (l.settled.pc t).rank (s := l.settled) le_rfl
  rw [← hmemory] at hfin
  obtain ⟨own, l', hevents, hthreads, hrun', -, hs'⟩ := exists_run_of_run hfree hfin
  refine ⟨close, own, l', hclose, fun ev hev => ?_, by rwa [hevents],
    run_append.mpr ⟨l₁, hrun₁, hrun'⟩, by rwa [hs']⟩
  obtain ⟨e, he, heq⟩ := hthreads ev hev
  exact heq.trans (hown e he)

/-- What holds of a thread inside a call that it has brought up to `l` by the steps `mid` of all
    threads. -/
structure Proceeds (hasher : Str → H) (t : T) (mid : List (LockEv T D)) (l : Locked T D H) :
    Prop where
  /-- Sections that it has entered since then, and steps outside them. -/
  few : (mid.filterMap LockEv.event).countP (·.thread = t) ≤ 3
  /-- It can take a step, or waits for another thread that can. -/
  live : (∃ ev l', ev.thread = t ∧ step hasher l ev = some l') ∨
    ∃ m, ∃ e ∈ l.openSection m, e.thread ≠ t ∧
      ∃ ev l', ev.thread = e.thread ∧ ev.event = none ∧ step hasher l ev = some l'
  /-- As soon as those inside have left their sections, it can finish alone. -/
  finishes : ∃ close own l', (∀ ev ∈ close, ev.event = none ∧ l.Inside ev.thread) ∧
    (∀ ev ∈ own, ev.thread = t) ∧
    (mid.filterMap LockEv.event).countP (·.thread = t) + (own.filterMap LockEv.event).length ≤ 4 ∧
    run (step hasher) l (close ++ own) = some l' ∧ l'.memory.pc t = .idle

/-- PROGRESS: in every interleaving of locks, accesses and unlocks, a thread inside a call can take
    a step or waits for one that can, and it returns after at most four sections and steps outside
    them, which it can take alone once the open sections have been left. -/
theorem calls_finish (hasher : Str → H) (verbosity : ℤ) (pre mid : List (LockEv T D)) (t : T)
    (c : Call D) (l : Locked T D H)
    (hrun : run (step hasher) (init verbosity) (pre ++ .plain (.call t c) :: mid) = some l)
    (hopen : ∀ e ∈ mid.filterMap LockEv.event, Shared.returns t e = false) :
    l.Proceeds hasher t mid := by
  have ha : l.Apart := StepMachine.run_inv (fun _ _ _ => apart_step) (apart_init verbosity) hrun
  -- the same run in whole sections
  have hseen := refines_run (apart_init verbosity) hrun
  rw [List.filterMap_append,
    List.filterMap_cons_some (show LockEv.event (.plain (.call t c)) = some (.call t c) from rfl)]
    at hseen
  obtain ⟨m, -, hrest⟩ := run_append.mp hseen
  obtain ⟨-, hmid⟩ := Shared.run_cons.mp hrest
  have hcalled : (m.next hasher (.call t c)).pc t = .called c :=
    Shared.pc_next_self hasher m (.call t c)
  obtain ⟨hpc, hle⟩ := Shared.rank_run (by rw [hcalled]; rintro ⟨⟩) hopen hmid
  rw [hcalled, Pc.rank] at hle
  have hpos := Pc.rank_pos hpc
  obtain ⟨close, own, l', hclose, hown, hlen, hrun', hidle⟩ := exists_returned hasher ha t
  refine ⟨by omega, steps_or_waits hasher ?_, close, own, l', hclose, hown, by omega, hrun', hidle⟩
  by_cases hi : l.Inside t
  · exact Or.inl hi
  · right
    have hsettled := settled_pc hi
    intro hidle
    exact hpc (hsettled.trans hidle)

/-- A log-once statement that waits for the cache while another thread searches it. -/
theorem calls_finish_interrupted :
    ∃ (l : Locked Bool Bool UInt64),
      run (step fnv1a) (init 0) ([.plain (.call true (.logOnce onceX)),
        .acquire (.find true onceX sayX)] ++ .plain (.call false (.logOnce onceX)) ::
        [.access true .cacheMutex]) = some l ∧
      l.Proceeds fnv1a false [.access true .cacheMutex] := by
  have hsome : (run (step fnv1a) (init 0 : Locked Bool Bool UInt64)
      ([.plain (.call true (.logOnce onceX)), .acquire (.find true onceX sayX)] ++
        .plain (.call false (.logOnce onceX)) :: [.access true .cacheMutex])).isSome = true := by
    decide
  obtain ⟨l, hl⟩ := Option.isSome_iff_exists.mp hsome
  exact ⟨l, hl, calls_finish fnv1a 0 _ _ false _ l hl (by simp [LockEv.event])⟩

end Locked

end GtLogging
