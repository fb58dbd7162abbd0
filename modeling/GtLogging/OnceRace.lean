import GtLogging.Threads

/-! @src src/gt_logging.h | layer:result | log-once across threads

    The destructor of a log-once object looks its hash up, appends it and delivers the message in
    three separate sections. If whatever a thread appends is still missing from the cache, and the
    cache is not cleared between an append and its delivery, no message is delivered twice between
    two clears. Both conditions are needed. -/

namespace GtLogging

section Events
variable {T D : Type*}

/-- The message of a log-once delivery. -/
def Ev.once : Ev T D → Option Message
  | .writeOnce _ m _ => some m
  | _ => none

def Ev.isClear : Ev T D → Bool
  | .clear _ => true
  | _ => false

/-- The message a thread has appended but not yet delivered. -/
def Pc.undelivered : Pc D → Option Message
  | .delivering m => some m
  | _ => none

/-- The messages that log-once statements delivered, in order. -/
def deliveredOnce (evs : List (Ev T D)) : List Message := evs.filterMap Ev.once

theorem deliveredOnce_cons (e : Ev T D) (evs : List (Ev T D)) :
    deliveredOnce (e :: evs) = e.once.toList ++ deliveredOnce evs := by
  rw [deliveredOnce, List.filterMap_cons]
  cases e.once <;> rfl

end Events

namespace Shared
open StepMachine (Guarded run run_append run_inv_of_guarded guarded_append)

variable {T D H : Type*} [DecidableEq H]
variable {hasher : Str → H} {s s' : Shared T D H} {e : Ev T D} {t : T} {p : Pc D} {m : Message}

/-- An append finds its hash still missing; a clear finds no thread between append and delivery. -/
def FindHolds (hasher : Str → H) (s : Shared T D H) : Ev T D → Prop
  | .append _ m => s.cache.find (hash hasher m) = false
  | .clear _ => ∀ u, (s.pc u).undelivered = none
  | _ => True

instance [Fintype T] (s : Shared T D H) : ∀ e, Decidable (s.FindHolds hasher e)
  | .append _ m => inferInstanceAs (Decidable (s.cache.find (hash hasher m) = false))
  | .clear _ => inferInstanceAs (Decidable (∀ u, (s.pc u).undelivered = none))
  | .call _ _ | .leave _ _ | .check _ _ _ | .push _ _ _ | .erase _ _ | .query _ _ | .write _ _
  | .find _ _ _ | .writeOnce _ _ _ | .ret _ _ => isTrue trivial

/-- RUN INVARIANT: what was delivered since the last clear, and what is about to be, are different
    messages whose hashes are in the cache. -/
structure OnceInv (hasher : Str → H) (s : Shared T D H) : Prop where
  nodup : s.sinceClear.Nodup
  cached : ∀ m ∈ s.sinceClear, s.cache.find (hash hasher m) = true
  pending : ∀ u m, s.pc u = .delivering m →
    s.cache.find (hash hasher m) = true ∧ m ∉ s.sinceClear
  distinct : ∀ u v m, s.pc u = .delivering m → s.pc v = .delivering m → u = v

namespace OnceInv

theorem init (verbosity : ℤ) : OnceInv hasher (Shared.init verbosity : Shared T D H) :=
  ⟨List.nodup_nil, fun _ h => (by cases h), fun _ _ h => (by cases h), fun _ _ _ h => (by cases h)⟩

/-- The cache and the deliveries are as before, and no thread is newly about to deliver. -/
theorem quiet (h : OnceInv hasher s) (hc : s'.cache = s.cache) (hd : s'.sinceClear = s.sinceClear)
    (hpc : ∀ u m, s'.pc u = .delivering m → s.pc u = .delivering m) : OnceInv hasher s' := by
  refine ⟨hd ▸ h.nodup, ?_, ?_, fun u v m hu hv => h.distinct u v m (hpc u m hu) (hpc v m hv)⟩
  · rw [hc, hd]; exact h.cached
  · rw [hc, hd]; exact fun u m hu => h.pending u m (hpc u m hu)

end OnceInv

variable [DecidableEq T]

namespace OnceInv

theorem goto (h : OnceInv hasher s) (hp : ∀ m, p ≠ .delivering m) :
    OnceInv hasher (s.goto t p) := by
  refine h.quiet rfl rfl fun u m hu => ?_
  rcases pc_goto s t u p with ⟨-, hpc⟩ | ⟨-, hpc⟩
  · exact absurd (hpc.symm.trans hu) (hp m)
  · exact hpc.symm.trans hu

end OnceInv

variable [DecidableEq D]

namespace OnceInv

theorem append (h : OnceInv hasher s) (hok : s.cache.find (hash hasher m) = false) :
    OnceInv hasher (s.next hasher (.append t m)) := by
  have hfind : ∀ k, (s.cache.append (hash hasher m)).find k = true ↔
      s.cache.find k = true ∨ k = hash hasher m :=
    fun k => LogOnceCache.find_append s.cache (hash hasher m) k
  -- the hash was missing, so the message is neither delivered nor pending
  have hnew : m ∉ s.sinceClear := fun hm => by rw [h.cached m hm] at hok; cases hok
  have hfree : ∀ u, s.pc u ≠ .delivering m := fun u hu => by
    rw [(h.pending u m hu).1] at hok; cases hok
  have hpcs : ∀ u x, (s.next hasher (.append t m)).pc u = .delivering x →
      (u = t ∧ x = m) ∨ (u ≠ t ∧ s.pc u = .delivering x) := by
    intro u x hu
    rcases pc_goto { s with cache := s.cache.append (hash hasher m) } t u (.delivering m) with
      ⟨hut, hpc⟩ | ⟨hne, hpc⟩
    · cases hpc.symm.trans hu; exact Or.inl ⟨hut, rfl⟩
    · exact Or.inr ⟨hne, hpc.symm.trans hu⟩
  refine ⟨h.nodup, fun x hx => (hfind _).mpr (Or.inl (h.cached x hx)), ?_, ?_⟩
  · intro u x hu
    rcases hpcs u x hu with ⟨-, rfl⟩ | ⟨-, hu⟩
    · exact ⟨(hfind _).mpr (Or.inr rfl), hnew⟩
    · exact ⟨(hfind _).mpr (Or.inl (h.pending u x hu).1), (h.pending u x hu).2⟩
  · intro u v x hu hv
    rcases hpcs u x hu with ⟨hut, hux⟩ | ⟨-, hu⟩ <;> rcases hpcs v x hv with ⟨hvt, hvx⟩ | ⟨-, hv⟩
    · rw [hut, hvt]
    · exact absurd (hux ▸ hv) (hfree v)
    · exact absurd (hvx ▸ hu) (hfree u)
    · exact h.distinct u v x hu hv

theorem writeOnce (h : OnceInv hasher s) (hpc : s.pc t = .delivering m) (time : Tm) :
    OnceInv hasher (s.next hasher (.writeOnce t m time)) := by
  obtain ⟨hcached, hnew⟩ := h.pending t m hpc
  have hpcs : ∀ u x, (s.next hasher (.writeOnce t m time)).pc u = .delivering x →
      u ≠ t ∧ s.pc u = .delivering x := by
    intro u x hu
    rcases pc_goto { s.deliver (m.record time) with sinceClear := m :: s.sinceClear } t u
      (.returned none) with ⟨-, hp⟩ | ⟨hne, hp⟩
    · cases hp.symm.trans hu
    · exact ⟨hne, hp.symm.trans hu⟩
  refine ⟨List.nodup_cons.mpr ⟨hnew, h.nodup⟩, ?_, ?_, ?_⟩
  · intro x hx
    rcases List.mem_cons.mp hx with rfl | hx
    · exact hcached
    · exact h.cached x hx
  · intro u x hu
    obtain ⟨hne, hu'⟩ := hpcs u x hu
    refine ⟨(h.pending u x hu').1, fun hx => ?_⟩
    rcases List.mem_cons.mp hx with rfl | hx
    · exact hne (h.distinct u t x hu' hpc)
    · exact (h.pending u x hu').2 hx
  · exact fun u v x hu hv => h.distinct u v x (hpcs u x hu).2 (hpcs v x hv).2

theorem clear (hok : ∀ u, (s.pc u).undelivered = none) :
    OnceInv hasher (s.next hasher (.clear t)) := by
  have hpcs : ∀ u x, (s.next hasher (.clear t)).pc u ≠ .delivering x := by
    intro u x hu
    rcases pc_goto { s with cache := s.cache.clear, sinceClear := [] } t u (.returned none) with
      ⟨-, hp⟩ | ⟨-, hp⟩
    · cases hp.symm.trans hu
    · have hnone := hok u
      rw [hp.symm.trans hu] at hnone
      cases hnone
  exact ⟨List.nodup_nil, fun x hx => (by cases hx), fun u x hu => absurd hu (hpcs u x),
    fun u _ x hu => absurd hu (hpcs u x)⟩

/-- STEP: a step under the condition keeps the invariant. -/
theorem step (h : OnceInv hasher s) (hok : s.FindHolds hasher e) (he : s.Enabled e) :
    OnceInv hasher (s.next hasher e) := by
  cases e with
  | append t m => exact h.append hok
  | writeOnce t m time => exact h.writeOnce he time
  | clear t => exact clear hok
  | call t c =>
    have hcopy : OnceInv hasher { s with given := c.object.toList ++ s.given } :=
      h.quiet rfl rfl fun _ _ hu => hu
    exact hcopy.goto (by simp)
  | push t id o =>
    have hcopy : OnceInv hasher { s with destinations := s.destinations ++ [⟨id, o⟩] } :=
      h.quiet rfl rfl fun _ _ hu => hu
    exact hcopy.goto (by simp)
  | erase t id =>
    have hcopy : OnceInv hasher
        { s with destinations := (Registry.eraseId id s.destinations).2 } :=
      h.quiet rfl rfl fun _ _ hu => hu
    exact hcopy.goto (by simp)
  | write t r =>
    have hcopy : OnceInv hasher (s.deliver r) := h.quiet rfl rfl fun _ _ hu => hu
    exact hcopy.goto (by simp)
  | check t id o => exact h.goto fun m => by split_ifs <;> simp
  | find t o m => exact h.goto fun m => by split_ifs <;> simp
  | leave t c => exact h.goto (by simp)
  | query t id => exact h.goto (by simp)
  | ret t r => exact h.goto (by simp)

theorem run {es : List (Ev T D)} (h : OnceInv hasher s)
    (hok : Guarded (Shared.step hasher) (FindHolds hasher) s es)
    (hrun : StepMachine.run (Shared.step hasher) s es = some s') : OnceInv hasher s' := by
  refine run_inv_of_guarded (fun s e s' h hok hs => ?_) h hok hrun
  obtain ⟨he, rfl⟩ := step_eq_some.mp hs
  exact h.step hok he

end OnceInv

/-- Without a clear, the deliveries of a run add up. -/
theorem sinceClear_run {es : List (Ev T D)} (hno : ∀ e ∈ es, e.isClear = false)
    (hrun : run (step hasher) s es = some s') :
    s'.sinceClear = (deliveredOnce es).reverse ++ s.sinceClear := by
  induction es generalizing s with
  | nil => cases hrun; rfl
  | cons e es ih =>
    obtain ⟨-, hrest⟩ := run_cons.mp hrun
    have hstep : (s.next hasher e).sinceClear = e.once.toList ++ s.sinceClear := by
      cases e with
      | clear t => cases hno _ List.mem_cons_self
      | _ => rfl
    rw [ih (fun e' he' => hno e' (List.mem_cons_of_mem _ he')) hrest, hstep,
      deliveredOnce_cons]
    cases e.once <;> simp

/-- ONCE: in every run in which finds stay true until the append and no clear falls between an
    append and its delivery, a message is delivered at most once between two clears. -/
theorem once_between_clears (hasher : Str → H) (verbosity : ℤ) (evs : List (Ev T D))
    (s' : Shared T D H) (hrun : run (step hasher) (init verbosity) evs = some s')
    (hok : Guarded (step hasher) (FindHolds hasher) (init verbosity) evs) :
    ∀ pre mid post, evs = pre ++ (mid ++ post) → (∀ e ∈ mid, e.isClear = false) →
      (deliveredOnce mid).Nodup := by
  rintro pre mid post rfl hno
  obtain ⟨m, hpre, hrest⟩ := run_append.mp hrun
  obtain ⟨m', hmid, -⟩ := run_append.mp hrest
  obtain ⟨hokpre, hokrest⟩ := guarded_append hok
  have hm : OnceInv hasher m := (OnceInv.init verbosity).run hokpre hpre
  have hm' : OnceInv hasher m' := hm.run (guarded_append (hokrest m hpre)).1 hmid
  have hnodup := hm'.nodup
  rw [sinceClear_run hno hmid] at hnodup
  exact List.nodup_reverse.mp (List.nodup_append.mp hnodup).1

/-- Two threads that are both about to append the same message both deliver it. -/
theorem racing_appends {u : T} (ht : s.pc t = .appending m) (hu : s.pc u = .appending m)
    (hne : u ≠ t) (time : Tm) :
    (run (step hasher) s
      [.append t m, .append u m, .writeOnce t m time, .writeOnce u m time]).isSome := by
  simp [StepMachine.run, step, Enabled, next, goto, deliver, ht, hu, hne, hne.symm]

/-- A clear between the append and the delivery of a message lets it be delivered again after it. -/
theorem clear_before_delivery {u v : T} {o : LogOnce} (ht : s.pc t = .delivering m)
    (hu : s.pc u = .called .clearCache) (hv : s.pc v = .called (.logOnce o))
    (hm : o.message s.verbosity = some m) (hut : u ≠ t) (hvt : v ≠ t) (huv : u ≠ v) (time : Tm) :
    (run (step hasher) s
      [.clear u, .find v o m, .append v m, .writeOnce v m time, .writeOnce t m time]).isSome := by
  simp [StepMachine.run, step, Enabled, next, goto, deliver, DefaultCache.clear,
    DefaultCache.find, ht, hu, hv, hm, hut.symm, hvt.symm, huv.symm]

/-- The message `"x"`, and a log-once object with that text. -/
def sayX : Message := ⟨['x'], [], .InfoLevel⟩
def onceX : LogOnce := ⟨.InfoLevel, [], { text := ['x'] }⟩

/-- Two threads say `"x"`, one after the other, and again after a clear. -/
def onceInTurn : List (Ev Bool Bool) :=
  [.call false (.logOnce onceX), .find false onceX sayX, .append false sayX,
    .writeOnce false sayX noon,
    .call true (.logOnce onceX), .find true onceX sayX, .ret true none,
    .call true .clearCache, .clear true, .ret true none,
    .call true (.logOnce onceX), .find true onceX sayX, .append true sayX,
    .writeOnce true sayX noon]

theorem onceInTurn_once :
    (run (step fnv1a) (init 0 : Shared Bool Bool UInt64) onceInTurn).isSome = true ∧
      (deliveredOnce (onceInTurn.take 8)).Nodup := by
  have hsome : (run (step fnv1a) (init 0 : Shared Bool Bool UInt64) onceInTurn).isSome =
      true := by decide
  obtain ⟨s', hs'⟩ := Option.isSome_iff_exists.mp hsome
  exact ⟨hsome, once_between_clears fnv1a 0 onceInTurn s' hs' (by decide) [] (onceInTurn.take 8)
    (onceInTurn.drop 8) rfl (by decide)⟩

/-- Both threads find `"x"` missing before either appends it. -/
def racingOnce : List (Ev Bool Bool) :=
  [.call false (.logOnce onceX), .call true (.logOnce onceX), .find false onceX sayX,
    .find true onceX sayX, .append false sayX, .append true sayX, .writeOnce false sayX noon,
    .writeOnce true sayX noon]

/-- COUNTEREXAMPLE: no clear at all, and the message is delivered twice. -/
theorem racingOnce_delivers_twice :
    (run (step fnv1a) (init 0 : Shared Bool Bool UInt64) racingOnce).isSome = true ∧
      ¬ (deliveredOnce racingOnce).Nodup ∧ ∀ e ∈ racingOnce, e.isClear = false := by
  decide

end Shared

end GtLogging
