import GtLogging.Delivery

/-! @src src/gt_logging.cpp | layer:result | unique ids under concurrency

    `addDestination` looks for the id in one guarded section and inserts the entry in another, so
    two threads can both find the id missing. As long as no thread inserts an id while another
    stands between its check and its insertion of the same id, ids stay unique; where one does,
    the other's insertion, which nothing prevents, breaks uniqueness. -/

namespace GtLogging.Shared
open StepMachine (Guarded run run_append run_inv_of_guarded guarded_append)

variable {T D H : Type*} {hasher : Str → H} {s s' : Shared T D H} {e : Ev T D} {t : T} {p : Pc D}
  {id : Str} {o : D}

def ids (s : Shared T D H) : List Str := s.destinations.map (·.id)

/-- No other thread is between its check of this id and its insertion. -/
def Undisturbed (s : Shared T D H) : Ev T D → Prop
  | .push t id _ => ∀ u, u ≠ t → ∀ o, s.pc u ≠ .adding id o
  | _ => True

/-- RUN INVARIANT: ids are unique, and an id a thread is about to insert is not there. -/
structure IdsUnique (s : Shared T D H) : Prop where
  nodup : s.ids.Nodup
  missing : ∀ u id o, s.pc u = .adding id o → id ∉ s.ids

namespace IdsUnique

theorem init (verbosity : ℤ) : IdsUnique (Shared.init verbosity : Shared T D H) :=
  ⟨List.nodup_nil, fun _ _ _ h => by cases h⟩

/-- Fewer entries, and no thread newly about to insert. -/
theorem shrink (h : IdsUnique s) (hd : s'.ids.Sublist s.ids)
    (hpc : ∀ u id o, s'.pc u = .adding id o → s.pc u = .adding id o) : IdsUnique s' :=
  ⟨h.nodup.sublist hd, fun u id o hu hm => h.missing u id o (hpc u id o hu) (hd.subset hm)⟩

end IdsUnique

variable [DecidableEq T]

namespace IdsUnique

/-- A thread moves to a place that is not before an insertion. -/
theorem goto (h : IdsUnique s) (hp : ∀ id o, p ≠ .adding id o) : IdsUnique (s.goto t p) := by
  refine h.shrink (List.Sublist.refl _) fun u id o hu => ?_
  rcases pc_goto s t u p with ⟨-, hpc⟩ | ⟨-, hpc⟩
  · exact absurd (hpc.symm.trans hu) (hp id o)
  · rwa [hpc] at hu

end IdsUnique

variable [DecidableEq D] [DecidableEq H]

instance [Fintype T] [Fintype D] (s : Shared T D H) : ∀ e, Decidable (s.Undisturbed e)
  | .push t id _ => inferInstanceAs (Decidable (∀ u, u ≠ t → ∀ o, s.pc u ≠ .adding id o))
  | .call _ _ | .leave _ _ | .check _ _ _ | .erase _ _ | .query _ _ | .write _ _ | .find _ _ _
  | .append _ _ | .writeOnce _ _ _ | .clear _ | .ret _ _ => isTrue trivial

namespace IdsUnique

theorem check (h : IdsUnique s) :
    IdsUnique (s.next hasher (.check t id o)) := by
  rw [Shared.next]
  split_ifs with hhas
  · exact h.goto (by simp)
  · refine ⟨h.nodup, fun u id' o' hu => ?_⟩
    rcases pc_goto s t u (.adding id o) with ⟨-, hpc⟩ | ⟨-, hpc⟩
    · cases hpc.symm.trans hu
      exact fun hm => hhas (Registry.hasDestination_iff.mpr hm)
    · exact h.missing u id' o' (hpc ▸ hu)

theorem push (h : IdsUnique s) (hpc : s.pc t = .adding id o)
    (hok : s.Undisturbed (.push t id o)) : IdsUnique (s.next hasher (.push t id o)) := by
  have hids : (s.next hasher (.push t id o)).ids = s.ids ++ [id] := by
    simp [ids, Shared.next, Shared.goto]
  have hid := h.missing t id o hpc
  refine ⟨?_, fun u id' o' hu => ?_⟩
  · rw [hids]
    exact h.nodup.append (List.nodup_singleton id) (by simpa using hid)
  · rcases pc_goto s t u (.returned (some true)) with ⟨-, hpu⟩ | ⟨hne, hpu⟩
    · cases hpu.symm.trans hu
    · have hu' : s.pc u = .adding id' o' := hpu.symm.trans hu
      rw [hids, List.mem_append, List.mem_singleton]
      rintro (hm | rfl)
      · exact h.missing u id' o' hu' hm
      · exact hok u hne o' hu'

theorem erase (h : IdsUnique s) : IdsUnique (s.next hasher (.erase t id)) :=
  goto (s := { s with destinations := (Registry.eraseId id s.destinations).2 })
    (h.shrink ((Registry.eraseId_sublist id s.destinations).map DestinationEntry.id)
      fun _ _ _ hu => hu)
    (by simp)

/-- STEP: an undisturbed step keeps the invariant. -/
theorem step (h : IdsUnique s) (hok : s.Undisturbed e) (he : s.Enabled e) :
    IdsUnique (s.next hasher e) := by
  have hcopy : ∀ m : Shared T D H, m.destinations = s.destinations → m.pc = s.pc → IdsUnique m := by
    intro m hd hpc
    exact h.shrink (by rw [ids, ids, hd]) fun u id o hu => by rwa [hpc] at hu
  cases e with
  | check t id o => exact h.check
  | push t id o => exact h.push he hok
  | erase t id => exact h.erase
  | call t c => exact (hcopy { s with given := c.object.toList ++ s.given } rfl rfl).goto (by simp)
  | leave t c => exact h.goto (by simp)
  | query t id => exact h.goto (by simp)
  | write t r => exact (hcopy (s.deliver r) rfl rfl).goto (by simp)
  | find t o m => exact h.goto fun id o => by split_ifs <;> simp
  | append t m =>
    exact (hcopy { s with cache := s.cache.append (hash hasher m) } rfl rfl).goto (by simp)
  | writeOnce t m time =>
    exact (hcopy { s.deliver (m.record time) with sinceClear := m :: s.sinceClear } rfl rfl).goto
      (by simp)
  | clear t =>
    exact (hcopy { s with cache := s.cache.clear, sinceClear := [] } rfl rfl).goto (by simp)
  | ret t r => exact h.goto (by simp)

/-- RUN: every state of an undisturbed run satisfies the invariant. -/
theorem run {es : List (Ev T D)} (h : IdsUnique s)
    (hok : Guarded (Shared.step hasher) Undisturbed s es)
    (hrun : StepMachine.run (Shared.step hasher) s es = some s') : IdsUnique s' := by
  refine run_inv_of_guarded (fun s e s' h hok hs => ?_) h hok hrun
  obtain ⟨he, rfl⟩ := step_eq_some.mp hs
  exact h.step hok he

end IdsUnique

/-! ### At most one insertion -/

def isPush (id : Str) : Ev T D → Bool
  | .push _ id' _ => id' = id
  | _ => false

/-- An id in the registry stays until it is erased. -/
theorem mem_ids_next (h : id ∈ s.ids) (hkeep : e.erases id = false) :
    id ∈ (s.next hasher e).ids := by
  cases e with
  | push t id' o => exact List.mem_map.mpr ((List.mem_map.mp h).imp fun d hd =>
      ⟨List.mem_append_left _ hd.1, hd.2⟩)
  | erase t id' =>
    obtain ⟨d, hd, rfl⟩ := List.mem_map.mp h
    refine List.mem_map.mpr ⟨d, Registry.mem_eraseId.mpr ⟨hd, ?_⟩, rfl⟩
    rintro hid
    simp [Ev.erases, hid] at hkeep
  | _ => exact h

theorem no_push_of_mem {es : List (Ev T D)} (h : IdsUnique s) (hid : id ∈ s.ids)
    (hkeep : ∀ e ∈ es, e.erases id = false) (hok : Guarded (step hasher) Undisturbed s es)
    (hrun : run (step hasher) s es = some s') : es.countP (isPush id) = 0 := by
  induction es generalizing s with
  | nil => rfl
  | cons e es ih =>
    obtain ⟨hok, hrest⟩ := hok
    obtain ⟨he, hr⟩ := run_cons.mp hrun
    have hnot : isPush id e = false := by
      cases e with
      | push t id' o =>
        have hne : id' ≠ id := by rintro rfl; exact h.missing t id' o he hid
        simpa [isPush] using hne
      | _ => rfl
    rw [List.countP_cons_of_neg (by simp [hnot])]
    exact ih (h.step hok he) (mem_ids_next hid (hkeep e List.mem_cons_self))
      (fun e' he' => hkeep e' (List.mem_cons_of_mem _ he'))
      (hrest _ (step_eq_some.mpr ⟨he, rfl⟩)) hr

theorem push_at_most_once {es : List (Ev T D)} (h : IdsUnique s)
    (hkeep : ∀ e ∈ es, e.erases id = false) (hok : Guarded (step hasher) Undisturbed s es)
    (hrun : run (step hasher) s es = some s') : es.countP (isPush id) ≤ 1 := by
  induction es generalizing s with
  | nil => exact Nat.zero_le 1
  | cons e es ih =>
    obtain ⟨hok, hrest⟩ := hok
    obtain ⟨he, hr⟩ := run_cons.mp hrun
    have hrest' := hrest _ (step_eq_some.mpr ⟨he, rfl⟩)
    have hkeep' : ∀ e' ∈ es, e'.erases id = false :=
      fun e' he' => hkeep e' (List.mem_cons_of_mem _ he')
    have h' : IdsUnique (s.next hasher e) := h.step hok he
    cases hp : isPush id e with
    | false =>
      rw [List.countP_cons_of_neg (by simp [hp])]
      exact ih h' hkeep' hrest' hr
    | true =>
      -- the id is in the registry now, and nothing erases it
      have hid : id ∈ (s.next hasher e).ids := by
        cases e with
        | push t id' o =>
          obtain rfl : id' = id := by simpa [isPush] using hp
          simp [ids, next, goto]
        | _ => cases hp
      rw [List.countP_cons_of_pos (by simp [hp]), no_push_of_mem h' hid hkeep' hrest' hr]

/-- UNIQUE IDS: in every run whose insertions are undisturbed, no two entries share an id in the
    state reached, and in any part of it without a removal of an id at most one `addDestination`
    with that id returns true. -/
theorem ids_unique (hasher : Str → H) (verbosity : ℤ) (evs : List (Ev T D)) (s' : Shared T D H)
    (hrun : run (step hasher) (init verbosity) evs = some s')
    (hok : Guarded (step hasher) Undisturbed (init verbosity) evs) :
    s'.ids.Nodup ∧ ∀ pre mid post id, evs = pre ++ (mid ++ post) →
      (∀ e ∈ mid, e.erases id = false) → mid.countP (isPush id) ≤ 1 := by
  refine ⟨((IdsUnique.init verbosity).run hok hrun).nodup, ?_⟩
  rintro pre mid post id rfl hkeep
  obtain ⟨m, hpre, hrest⟩ := run_append.mp hrun
  obtain ⟨m', hmid, -⟩ := run_append.mp hrest
  obtain ⟨hokpre, hokrest⟩ := guarded_append hok
  have hm := (IdsUnique.init verbosity).run hokpre hpre
  exact push_at_most_once hm hkeep (guarded_append (hokrest m hpre)).1 hmid

/-- The condition is needed: after a disturbed insertion the other thread's goes through. -/
theorem disturbed_push {t u : T} {o x : D} (ht : s.pc t = .adding id o)
    (hu : s.pc u = .adding id x) (hne : u ≠ t) :
    ∃ s', run (step hasher) s [.push t id o, .push u id x] = some s' ∧ ¬ s'.ids.Nodup := by
  have hu' : (s.next hasher (.push t id o)).pc u = .adding id x := (pc_goto_of_ne hne).trans hu
  refine ⟨(s.next hasher (.push t id o)).next hasher (.push u id x), ?_, ?_⟩
  · exact run_cons.mpr ⟨ht, run_cons.mpr ⟨hu', rfl⟩⟩
  · simp [ids, next, goto, List.nodup_append]

/-- Thread `t` calls `addDestination("a", t)`. -/
def callAdd (t : Bool) : Ev Bool Bool := .call t (.addDestination ['a'] (some t) true)

/-- Two threads add a destination under one id, one after the other. -/
def addsInTurn : List (Ev Bool Bool) :=
  [callAdd false, .check false ['a'] false, .push false ['a'] false, callAdd true,
    .check true ['a'] true, .ret true (some false)]

theorem addsInTurn_unique :
    ∃ s' : Shared Bool Bool UInt64, run (step fnv1a) (init 0) addsInTurn = some s' ∧
      s'.ids.Nodup := by
  have hsome : (run (step fnv1a) (init 0 : Shared Bool Bool UInt64) addsInTurn).isSome = true := by
    decide
  obtain ⟨s', hs'⟩ := Option.isSome_iff_exists.mp hsome
  exact ⟨s', hs', (ids_unique fnv1a 0 addsInTurn s' hs' (by decide)).1⟩

/-- The same two calls, both checks before either insertion. -/
def racingAdds : List (Ev Bool Bool) :=
  [callAdd false, callAdd true, .check false ['a'] false, .check true ['a'] true,
    .push false ['a'] false, .push true ['a'] true]

/-- COUNTEREXAMPLE: both calls return true, and two entries carry the id. -/
theorem racingAdds_share_id :
    ¬ ∀ s' : Shared Bool Bool UInt64,
      run (step fnv1a) (init 0) racingAdds = some s' → s'.ids.Nodup := by
  intro h
  have hids : (run (step fnv1a) (init 0 : Shared Bool Bool UInt64) racingAdds).map ids =
      some [['a'], ['a']] := by decide
  obtain ⟨s', hs', hdup⟩ := Option.map_eq_some_iff.mp hids
  have hnodup := h s' hs'
  rw [hdup] at hnodup
  revert hnodup
  decide

end GtLogging.Shared
