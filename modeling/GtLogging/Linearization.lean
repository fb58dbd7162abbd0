import GtLogging.UniqueIds
import GtLogging.RegistryMap

/-! @src src/gt_logging.cpp | layer:refinement,result | the registry is linearizable

    Every registry call takes effect in one of its steps: an early return, a check that finds the
    id, the `push_back`, the erasure, the query. In the order of these steps the calls answer as if
    they had run one after the other, provided that no insertion is disturbed; and since the one
    thread is the only one to know the answer until it returns, that step lies inside the call. So a
    concurrent history is a history of the ordered map. -/

namespace GtLogging

/-- The call on the registry that a thread makes, if it makes one. -/
def Call.registryOp {D : Type*} : Call D → Option (RegistryOp D)
  | .addDestination id destination _ => some (.addDestination id destination)
  | .removeDestination id => some (.removeDestination id)
  | .hasDestination id => some (.hasDestination id)
  | _ => none

/-- A call on the registry that returns early returns false. -/
theorem Call.earlyReturn_eq {D : Type*} {verbosity : ℤ} {c : Call D} {result : Option Bool}
    (h : c.earlyReturn verbosity = some result) : result = c.registryOp.map fun _ => false := by
  cases c with
  | addDestination id ptr valid =>
    exact (Option.some.inj (Option.ite_none_right_eq_some.mp h).2).symm
  | removeDestination id => exact (Option.some.inj (Option.ite_none_right_eq_some.mp h).2).symm
  | logOnce o => exact (Option.some.inj (Option.ite_none_right_eq_some.mp h).2).symm
  | _ => cases h

namespace Shared
open StepMachine (Guarded run run_append run_inv_of_guarded)

variable {T D H : Type*} {hasher : Str → H} {s s' : Shared T D H} {e : Ev T D} {t : T}
  {isValid : D → Bool}

/-- Where the thread of the event comes from. -/
def source : Ev T D → Pc D
  | .call _ _ => .idle
  | .leave _ c => .called c
  | .check _ id o => .called (.addDestination id (some o) true)
  | .push _ id o => .adding id o
  | .erase _ id => .called (.removeDestination id)
  | .query _ id => .called (.hasDestination id)
  | .write _ r => .called (.log r.level r.message r.details.id)
  | .find _ o _ => .called (.logOnce o)
  | .append _ m => .appending m
  | .writeOnce _ m _ => .delivering m
  | .clear _ => .called .clearCache
  | .ret _ result => .returned result

theorem pc_of_enabled (he : s.Enabled e) : s.pc e.thread = source e := by
  cases e with
  | call t c => exact he.1
  | leave t c => exact he.1
  | check t id o => exact he.1
  | erase t id => exact he.1
  | find t o m => exact he.1
  | _ => exact he

/-- RUN INVARIANT: a thread inside `addDestination` has what it was given, and past the check it is
    valid and has an id. -/
structure Ready (isValid : D → Bool) (s : Shared T D H) : Prop where
  called : ∀ t id o valid, s.pc t = .called (.addDestination id (some o) valid) → valid = isValid o
  adding : ∀ t id o, s.pc t = .adding id o → isValid o = true ∧ id ≠ []

theorem ready_init (verbosity : ℤ) : Ready isValid (init verbosity : Shared T D H) := by
  refine ⟨?_, ?_⟩
  · rintro t id o valid ⟨⟩
  · rintro t id o ⟨⟩

theorem addDestination_taken {r : LoggerRegistry D} {id : Str} {o : D}
    (hr : r.destinations = s.destinations) (hv : isValid o = true) (hid : id ≠ [])
    (hhas : Registry.hasDestination s.destinations id = true) :
    (r.addDestination isValid id (some o)).1 = false ∧
      (r.addDestination isValid id (some o)).2.destinations = s.destinations := by
  rw [LoggerRegistry.addDestination, hv, if_neg (by decide), if_neg hid, hr, if_pos hhas]
  exact ⟨rfl, hr⟩

theorem addDestination_free {r : LoggerRegistry D} {id : Str} {o : D}
    (hr : r.destinations = s.destinations) (hv : isValid o = true) (hid : id ≠ [])
    (hhas : ¬ Registry.hasDestination s.destinations id = true) :
    (r.addDestination isValid id (some o)).1 = true ∧
      (r.addDestination isValid id (some o)).2.destinations = s.destinations ++ [⟨id, o⟩] := by
  rw [LoggerRegistry.addDestination, hv, if_neg (by decide), if_neg hid, hr, if_neg hhas]
  exact ⟨rfl, rfl⟩

/-- A call of `addDestination` that returns early is refused. -/
theorem addDestination_early {r : LoggerRegistry D} {id : Str} {ptr : Option D} {valid : Bool}
    (hv : ∀ o ∈ ptr, valid = isValid o)
    (hearly : ((Call.addDestination id ptr valid).earlyReturn s.verbosity).isSome = true) :
    (r.addDestination isValid id ptr).1 = false ∧
      (r.addDestination isValid id ptr).2.destinations = r.destinations := by
  cases ptr with
  | none => exact ⟨rfl, rfl⟩
  | some o =>
    rw [LoggerRegistry.addDestination, ← hv o rfl]
    rcases valid with _ | _
    · exact ⟨rfl, rfl⟩
    · have hid : id = [] := by
        by_contra hne
        simp [Call.earlyReturn, hne] at hearly
      rw [if_neg (by decide), if_pos hid]
      exact ⟨rfl, rfl⟩

/-- What thread `t` has had effect of between its call `c` and the place it is at. -/
def Told (c : Call D) : Pc D → List (RegistryOp D × Bool) → Prop
  | .idle, _ => False
  | .called c', l => c' = c ∧ l = []
  | .adding id o, l => (∃ valid, c = .addDestination id (some o) valid) ∧ l = []
  | .appending _, l => c.registryOp = none ∧ l = []
  | .delivering _, l => c.registryOp = none ∧ l = []
  | .returned none, l => c.registryOp = none ∧ l = []
  | .returned (some b), l => ∃ op, c.registryOp = some op ∧ l = [(op, b)]

variable [DecidableEq T] [DecidableEq H]

/-- The event returns from a call of the thread. -/
def returns (t : T) : Ev T D → Bool
  | .ret u _ => u = t
  | _ => false

/-- Where the thread of the event goes. -/
def target (hasher : Str → H) (s : Shared T D H) : Ev T D → Pc D
  | .call _ c => .called c
  | .leave _ c => .returned ((c.earlyReturn s.verbosity).getD none)
  | .check _ id o =>
    if Registry.hasDestination s.destinations id then .returned (some false) else .adding id o
  | .push _ _ _ => .returned (some true)
  | .erase _ id => .returned (some (Registry.eraseId id s.destinations).1)
  | .query _ id => .returned (some (Registry.hasDestination s.destinations id))
  | .write _ _ => .returned none
  | .find _ _ m => if s.cache.find (hash hasher m) then .returned none else .appending m
  | .append _ m => .delivering m
  | .writeOnce _ _ _ => .returned none
  | .clear _ => .returned none
  | .ret _ _ => .idle

/-- The effect of a step on the registry: the call that takes effect, and its answer. -/
def effect (s : Shared T D H) : Ev T D → Option (RegistryOp D × Bool)
  | .leave _ c => c.registryOp.map (·, false)
  | .check _ id o =>
    if Registry.hasDestination s.destinations id then some (.addDestination id (some o), false)
    else none
  | .push _ id o => some (.addDestination id (some o), true)
  | .erase _ id => some (.removeDestination id, (Registry.eraseId id s.destinations).1)
  | .query _ id => some (.hasDestination id, Registry.hasDestination s.destinations id)
  | _ => none

/-- STEP: the thread moves on inside its call, and has an effect when the answer is there. -/
theorem told_step (hasher : Str → H) {c : Call D} {l : List (RegistryOp D × Bool)}
    (h : Told c (source e) l) (he : s.Enabled e) (hret : returns e.thread e = false) :
    Told c (s.target hasher e) (l ++ (s.effect e).toList) := by
  cases e with
  | call t c' =>
    cases h
  | leave t c' =>
    obtain ⟨rfl, rfl⟩ := h
    obtain ⟨-, hearly⟩ := he
    obtain ⟨result, hresult⟩ := Option.isSome_iff_exists.mp hearly
    rw [target, effect, hresult, Option.getD_some, Call.earlyReturn_eq hresult]
    rcases hop : c'.registryOp with _ | op
    · exact ⟨hop, rfl⟩
    · exact ⟨op, hop, rfl⟩
  | check t id o =>
    obtain ⟨rfl, rfl⟩ := h
    rw [target, effect]
    split_ifs with hhas
    · exact ⟨_, rfl, rfl⟩
    · exact ⟨⟨true, rfl⟩, rfl⟩
  | push t id o =>
    obtain ⟨⟨valid, rfl⟩, rfl⟩ := h
    exact ⟨_, rfl, rfl⟩
  | erase t id =>
    obtain ⟨rfl, rfl⟩ := h
    exact ⟨_, rfl, rfl⟩
  | query t id =>
    obtain ⟨rfl, rfl⟩ := h
    exact ⟨_, rfl, rfl⟩
  | write t r =>
    obtain ⟨rfl, rfl⟩ := h
    exact ⟨rfl, rfl⟩
  | find t o m =>
    obtain ⟨rfl, rfl⟩ := h
    rw [target]
    split_ifs <;> exact ⟨rfl, rfl⟩
  | append t m =>
    obtain ⟨hop, rfl⟩ := h
    exact ⟨hop, rfl⟩
  | writeOnce t m time =>
    obtain ⟨hop, rfl⟩ := h
    exact ⟨hop, rfl⟩
  | clear t =>
    obtain ⟨rfl, rfl⟩ := h
    exact ⟨rfl, rfl⟩
  | ret t result => simp [returns, Ev.thread] at hret

variable [DecidableEq D]

/-- The effects of a run, in order, each with its thread. -/
def effects (hasher : Str → H) : Shared T D H → List (Ev T D) → List (T × RegistryOp D × Bool)
  | _, [] => []
  | s, e :: es =>
    (s.effect e).toList.map (e.thread, ·) ++ effects hasher (s.next hasher e) es

theorem pc_next (hasher : Str → H) (s : Shared T D H) (e : Ev T D) :
    (s.next hasher e).pc = Function.update s.pc e.thread (s.target hasher e) := by
  cases e <;> rfl

theorem pc_next_self (hasher : Str → H) (s : Shared T D H) (e : Ev T D) :
    (s.next hasher e).pc e.thread = s.target hasher e := by
  rw [pc_next, Function.update_self]

theorem pc_next_of_ne (hasher : Str → H) (s : Shared T D H) (ht : e.thread ≠ t) :
    (s.next hasher e).pc t = s.pc t := by
  rw [pc_next, Function.update_of_ne (Ne.symm ht)]

/-! ### What the calls are given -/

/-- A destination is handed over with the answer of its own `isValid`. -/
def Honest (isValid : D → Bool) (_s : Shared T D H) : Ev T D → Prop
  | .call _ (.addDestination _ (some o) valid) => valid = isValid o
  | _ => True

instance (s : Shared T D H) : ∀ e, Decidable (s.Honest isValid e)
  | .call _ (.addDestination _ (some o) valid) =>
    inferInstanceAs (Decidable (valid = isValid o))
  | .call _ (.addDestination _ none _) | .call _ (.removeDestination _)
  | .call _ (.hasDestination _) | .call _ (.log _ _ _) | .call _ (.logOnce _)
  | .call _ .clearCache | .leave _ _ | .check _ _ _ | .push _ _ _ | .erase _ _ | .query _ _
  | .write _ _ | .find _ _ _ | .append _ _ | .writeOnce _ _ _ | .clear _ | .ret _ _ =>
    isTrue trivial

/-- STEP: only `call` and `check` lead to these places. -/
theorem ready_step (h : Ready isValid s) (hok : s.Honest isValid e) (he : s.Enabled e) :
    Ready isValid (s.next hasher e) := by
  refine ⟨fun t id o valid hpc => ?_, fun t id o hpc => ?_⟩
  · by_cases ht : e.thread = t
    · subst ht
      rw [pc_next_self] at hpc
      cases e with
      | call u c =>
        obtain rfl : c = _ := Pc.called.inj hpc
        exact hok
      | check u id' o' =>
        rw [target] at hpc
        split_ifs at hpc
      | find u o' m =>
        rw [target] at hpc
        split_ifs at hpc
      | _ => cases hpc
    · rw [pc_next_of_ne hasher s ht] at hpc
      exact h.called t id o valid hpc
  · by_cases ht : e.thread = t
    · subst ht
      rw [pc_next_self] at hpc
      cases e with
      | check u id' o' =>
        rw [target] at hpc
        split_ifs at hpc
        obtain ⟨rfl, rfl⟩ := Pc.adding.inj hpc
        exact ⟨(h.called u id' o' true he.1).symm, he.2⟩
      | find u o' m =>
        rw [target] at hpc
        split_ifs at hpc
      | _ => cases hpc
    · rw [pc_next_of_ne hasher s ht] at hpc
      exact h.adding t id o hpc

/-! ### The order of the effects -/

/-- STEP: a step without an effect leaves the registry alone. -/
theorem destinations_next_of_no_effect (hasher : Str → H) (h : s.effect e = none) :
    (s.next hasher e).destinations = s.destinations := by
  cases e with
  | push t id o => cases h
  | erase t id => cases h
  | _ => rfl

/-- STEP: where a step has an effect, the call answers so on the registry, and leaves it as the step
    does. -/
theorem exec_of_effect (hasher : Str → H) {r : LoggerRegistry D} {op : RegistryOp D} {b : Bool}
    (hr : r.destinations = s.destinations) (hu : IdsUnique s) (h : Ready isValid s)
    (he : s.Enabled e) (heff : s.effect e = some (op, b)) :
    (op.exec isValid r).1 = .bool b ∧
      (op.exec isValid r).2.destinations = (s.next hasher e).destinations := by
  cases e with
  | leave t c =>
    obtain ⟨hpc, hearly⟩ := he
    cases c with
    | addDestination id ptr valid =>
      obtain ⟨rfl, rfl⟩ := Prod.mk.inj (Option.some.inj heff)
      have hv : ∀ o ∈ ptr, valid = isValid o := by
        rintro o ⟨⟩
        exact h.called t id o valid hpc
      obtain ⟨hfst, hsnd⟩ := addDestination_early (r := r) hv hearly
      exact ⟨congrArg Reply.bool hfst, hsnd.trans hr⟩
    | removeDestination id =>
      obtain ⟨rfl, rfl⟩ := Prod.mk.inj (Option.some.inj heff)
      have hid : id = [] := by
        by_contra hne
        simp [Call.earlyReturn, hne] at hearly
      rw [RegistryOp.exec, LoggerRegistry.removeDestination, if_pos hid]
      exact ⟨rfl, hr⟩
    | hasDestination id => cases hearly
    | _ => cases heff
  | check t id o =>
    rw [effect] at heff
    split_ifs at heff with hhas
    obtain ⟨rfl, rfl⟩ := Prod.mk.inj (Option.some.inj heff)
    have hv : isValid o = true := (h.called t id o true he.1).symm
    obtain ⟨hfst, hsnd⟩ := addDestination_taken hr hv he.2 hhas
    exact ⟨congrArg Reply.bool hfst, hsnd⟩
  | push t id o =>
    obtain ⟨rfl, rfl⟩ := Prod.mk.inj (Option.some.inj heff)
    obtain ⟨hv, hid⟩ := h.adding t id o he
    -- the thread found the id missing, and nobody inserted it since
    have hhas : ¬ Registry.hasDestination s.destinations id = true :=
      fun hyes => hu.missing t id o he (Registry.hasDestination_iff.mp hyes)
    obtain ⟨hfst, hsnd⟩ := addDestination_free hr hv hid hhas
    exact ⟨congrArg Reply.bool hfst, hsnd⟩
  | erase t id =>
    obtain ⟨rfl, rfl⟩ := Prod.mk.inj (Option.some.inj heff)
    rw [RegistryOp.exec, LoggerRegistry.removeDestination, if_neg he.2, hr]
    exact ⟨rfl, rfl⟩
  | query t id =>
    obtain ⟨rfl, rfl⟩ := Prod.mk.inj (Option.some.inj heff)
    rw [RegistryOp.exec, LoggerRegistry.hasDestination, hr]
    exact ⟨rfl, rfl⟩
  | _ => cases heff

/-- RUN: one after the other, the calls that take effect answer as they did, and leave the registry
    that the run leaves. -/
theorem exec_effects {es : List (Ev T D)} {r : LoggerRegistry D}
    (hr : r.destinations = s.destinations) (hu : IdsUnique s) (h : Ready isValid s)
    (hok : Guarded (step hasher) (fun s e => s.Undisturbed e ∧ s.Honest isValid e) s es)
    (hrun : run (step hasher) s es = some s') :
    (RegistryOp.run (RegistryOp.exec isValid) ((effects hasher s es).map (·.2.1)) r).1 =
        (effects hasher s es).map (fun x => Reply.bool x.2.2) ∧
      (RegistryOp.run (RegistryOp.exec isValid)
        ((effects hasher s es).map (·.2.1)) r).2.destinations = s'.destinations := by
  induction es generalizing s r with
  | nil =>
    cases hrun
    exact ⟨rfl, hr⟩
  | cons e es ih =>
    obtain ⟨hoke, hrest⟩ := hok
    obtain ⟨he, hrun⟩ := run_cons.mp hrun
    have hrest' := hrest _ (step_eq_some.mpr ⟨he, rfl⟩)
    have hu' : IdsUnique (s.next hasher e) := hu.step hoke.1 he
    have h' : Ready isValid (s.next hasher e) := ready_step h hoke.2 he
    rcases heff : s.effect e with _ | ⟨op, b⟩
    · have hr' := hr.trans (destinations_next_of_no_effect hasher heff).symm
      simpa [effects, heff] using ih hr' hu' h' hrest' hrun
    · obtain ⟨hreply, hdest⟩ := exec_of_effect hasher hr hu h he heff
      obtain ⟨hreplies, hfinal⟩ := ih hdest hu' h' hrest' hrun
      simp only [effects, heff, Option.toList_some, List.map_cons, List.map_nil,
        List.cons_append, List.nil_append, RegistryOp.run]
      exact ⟨by rw [hreply, hreplies], hfinal⟩

/-! ### One effect for each call -/

/-- The effects of the thread in a run. -/
def effectsOf (t : T) (hasher : Str → H) (s : Shared T D H) (es : List (Ev T D)) :
    List (RegistryOp D × Bool) :=
  ((effects hasher s es).filter (·.1 = t)).map (·.2)

theorem effectsOf_cons_self (ht : e.thread = t) (es : List (Ev T D)) :
    s.effectsOf t hasher (e :: es) =
      (s.effect e).toList ++ (s.next hasher e).effectsOf t hasher es := by
  cases heff : s.effect e <;> simp [effectsOf, effects, heff, ht]

theorem effectsOf_cons_of_ne (ht : e.thread ≠ t) (es : List (Ev T D)) :
    s.effectsOf t hasher (e :: es) = (s.next hasher e).effectsOf t hasher es := by
  cases heff : s.effect e <;> simp [effectsOf, effects, heff, ht]

/-- RUN: so does a run in which the thread does not return. -/
theorem told_run {c : Call D} {l : List (RegistryOp D × Bool)} {es : List (Ev T D)}
    (h : Told c (s.pc t) l) (hret : ∀ e ∈ es, returns t e = false)
    (hrun : run (step hasher) s es = some s') :
    Told c (s'.pc t) (l ++ s.effectsOf t hasher es) := by
  induction es generalizing s l with
  | nil =>
    cases hrun
    rwa [effectsOf, effects, List.filter_nil, List.map_nil, List.append_nil]
  | cons e es ih =>
    obtain ⟨he, hrun⟩ := run_cons.mp hrun
    have hrest : ∀ e' ∈ es, returns t e' = false :=
      fun e' he' => hret e' (List.mem_cons_of_mem _ he')
    by_cases ht : e.thread = t
    · subst ht
      rw [pc_of_enabled he] at h
      have h' := told_step hasher h he (hret e List.mem_cons_self)
      rw [effectsOf_cons_self rfl, ← List.append_assoc]
      refine ih ?_ hrest hrun
      rwa [pc_next_self]
    · rw [effectsOf_cons_of_ne ht]
      refine ih ?_ hrest hrun
      rwa [pc_next_of_ne hasher s ht]

/-- SEQUENTIAL: in the order of their effects the calls answer as an insertion-ordered map does, and
    the registry that is left is that map. -/
def Sequential (isValid : D → Bool) (hist : List (T × RegistryOp D × Bool))
    (destinations : List (DestinationEntry D)) : Prop :=
  (RegistryOp.run (RegistryOp.spec isValid) (hist.map (·.2.1)) OrderedMap.empty).1 =
      hist.map (fun x => Reply.bool x.2.2) ∧
    Represents ⟨destinations, []⟩
      (RegistryOp.run (RegistryOp.spec isValid) (hist.map (·.2.1)) OrderedMap.empty).2

/-- LINEARIZABLE: in every run whose insertions are undisturbed, the effects of the calls are a
    sequential history of an ordered map; and a call that has returned with an answer has had
    exactly one effect between its begin and its return, with the call and the answer. -/
theorem registry_linearizable (hasher : Str → H) (verbosity : ℤ) (isValid : D → Bool)
    (evs : List (Ev T D)) (s' : Shared T D H)
    (hrun : run (step hasher) (init verbosity) evs = some s')
    (hok : Guarded (step hasher) (fun s e => s.Undisturbed e ∧ s.Honest isValid e)
      (init verbosity) evs) :
    Sequential isValid (effects hasher (init verbosity) evs) s'.destinations ∧
      ∀ pre mid post t c b, evs = pre ++ .call t c :: (mid ++ .ret t (some b) :: post) →
        (∀ e ∈ mid, returns t e = false) →
        ∃ m op, run (step hasher) (init verbosity) (pre ++ [.call t c]) = some m ∧
          c.registryOp = some op ∧ m.effectsOf t hasher mid = [(op, b)] := by
  refine ⟨?_, ?_⟩
  · -- the effects on the vector, and the vector as a map
    obtain ⟨hreplies, hdest⟩ := exec_effects (r := {}) rfl (IdsUnique.init verbosity)
      (ready_init verbosity) hok hrun
    obtain ⟨hspec, hrep⟩ := represents_run isValid
      (show Represents ({} : LoggerRegistry D) OrderedMap.empty from rfl)
      ((effects hasher (init verbosity) evs).map (·.2.1))
    exact ⟨hspec.symm.trans hreplies, hdest.symm.trans hrep⟩
  · rintro pre mid post t c b rfl hret
    rw [List.append_cons] at hrun
    obtain ⟨m, hpre, hrest⟩ := run_append.mp hrun
    obtain ⟨m', hmid, hpost⟩ := run_append.mp hrest
    obtain ⟨k, -, hcall⟩ := run_append.mp hpre
    obtain ⟨-, hm⟩ := run_cons.mp hcall
    cases hm
    -- the thread has just called `c`; before `ret` it is where its answer is known
    have hbegin : Told c ((k.next hasher (.call t c)).pc t) [] := by
      have hcalled : (k.next hasher (.call t c)).pc t = .called c :=
        pc_next_self hasher k (.call t c)
      rw [hcalled]
      exact ⟨rfl, rfl⟩
    have hend := told_run hbegin hret hmid
    obtain ⟨hanswer, -⟩ := run_cons.mp hpost
    rw [show m'.pc t = .returned (some b) from hanswer] at hend
    obtain ⟨op, hop, heffects⟩ := hend
    exact ⟨_, op, hpre, hop, heffects⟩

/-- Two threads add, look for and remove destinations; every two calls next to each other
    overlap. -/
def overlapping : List (Ev Bool Bool) :=
  [.call false (.addDestination ['a'] (some false) true),
    .call true (.addDestination ['b'] (some true) true), .check true ['b'] true,
    .check false ['a'] false, .push false ['a'] false, .push true ['b'] true,
    .ret true (some true), .call true (.hasDestination ['a']), .ret false (some true),
    .call false (.removeDestination ['a']), .erase false ['a'], .query true ['a'],
    .ret true (some false), .ret false (some true)]

theorem registry_linearizable_overlapping :
    ∃ s' : Shared Bool Bool UInt64, run (step fnv1a) (init 0) overlapping = some s' ∧
      Sequential (fun _ => true) (effects fnv1a (init 0 : Shared Bool Bool UInt64) overlapping)
        s'.destinations := by
  have hsome : (run (step fnv1a) (init 0 : Shared Bool Bool UInt64) overlapping).isSome = true := by
    decide
  obtain ⟨s', hs'⟩ := Option.isSome_iff_exists.mp hsome
  have hok : Guarded (step fnv1a) (fun s e => s.Undisturbed e ∧ s.Honest (fun _ => true) e)
      (init 0 : Shared Bool Bool UInt64) overlapping := by
    decide
  exact ⟨s', hs', (registry_linearizable fnv1a 0 (fun _ => true) overlapping s' hs' hok).1⟩

end Shared

end GtLogging
