import GtLogging.Threads
import GtLogging.Lib.History

/-! @src src/gt_logging.cpp | layer:result | exact delivery under any interleaving

    `RegistryStep` says once what a step can do to the registry and to what the objects received.
    An object is in one place at a time: with a thread, in the registry, or gone (`OwnedOnce`).
    A registered object receives every write until its id is erased, an erased one nothing more;
    so what it received is a slice of the write steps of the run. -/

namespace GtLogging

section Events
variable {T D : Type*}

/-- The record of a `Logger::write` step. -/
def Ev.record : Ev T D → Option Record
  | .write _ r => some r
  | .writeOnce _ m time => some (m.record time)
  | _ => none

def Ev.erases (id : Str) : Ev T D → Bool
  | .erase _ id' => id' = id
  | _ => false

/-- The records of the `Logger::write` steps, in their order. -/
def writesOf (evs : List (Ev T D)) : List Record := evs.filterMap Ev.record

theorem writesOf_cons (e : Ev T D) (evs : List (Ev T D)) :
    writesOf (e :: evs) = e.record.toList ++ writesOf evs := by
  rw [writesOf, List.filterMap_cons]
  cases e.record <;> rfl

@[simp] theorem writesOf_append (evs evs' : List (Ev T D)) :
    writesOf (evs ++ evs') = writesOf evs ++ writesOf evs' := List.filterMap_append

theorem slice_of_pushed {evs pre post : List (Ev T D)} {t : T} {id : Str} {o : D}
    (h : evs = pre ++ .push t id o :: post) :
    ((writesOf (post.takeWhile (!·.erases id))).zipIdx (writesOf pre).length).Sublist
      (writesOf evs).zipIdx := by
  have hw : writesOf evs = writesOf pre ++ writesOf (post.takeWhile (!·.erases id)) ++
      writesOf (post.dropWhile (!·.erases id)) := by
    rw [h, writesOf_append, writesOf_cons, List.append_assoc, ← writesOf_append,
      List.takeWhile_append_dropWhile]
    rfl
  rw [hw]
  exact History.slice_sublist _ _ _

end Events

namespace Shared

variable {T D H : Type*} {s s' : Shared T D H} {e : Ev T D} {t : T} {p : Pc D} {id : Str} {o : D}
  {hasher : Str → H}

def ptrs (s : Shared T D H) : List D := s.destinations.map (·.ptr)

/-! ### Where the objects are -/

/-- The registry and the objects are as before, and no thread holds more than before. -/
structure Quiet (s s' : Shared T D H) : Prop where
  destinations : s'.destinations = s.destinations
  given : s'.given = s.given
  received : s'.received = s.received
  tickets : s'.tickets = s.tickets
  held : ∀ u, ∀ o ∈ (s'.pc u).object, o ∈ (s.pc u).object

theorem Quiet.trans {m : Shared T D H} (h : Quiet s m) (h' : Quiet m s') : Quiet s s' :=
  ⟨h'.destinations.trans h.destinations, h'.given.trans h.given, h'.received.trans h.received,
    h'.tickets.trans h.tickets, fun u o ho => h.held u o (h'.held u o ho)⟩

/-- The log-once cache is no part of the registry. -/
theorem quiet_cache (s : Shared T D H) (c : DefaultCache H) (ms : List Message) :
    Quiet s { s with cache := c, sinceClear := ms } := ⟨rfl, rfl, rfl, rfl, fun _ _ ho => ho⟩

/-- RUN INVARIANT: an object is registered once, or held by one thread, or neither; while a thread
    holds it, and before it was handed over, it has received nothing. -/
structure OwnedOnce (s : Shared T D H) : Prop where
  nodup : s.ptrs.Nodup
  registered : ∀ o ∈ s.ptrs, o ∈ s.given
  held : ∀ u, ∀ o ∈ (s.pc u).object, o ∈ s.given ∧ o ∉ s.ptrs ∧ s.received o = []
  once : ∀ u v, ∀ o ∈ (s.pc u).object, o ∈ (s.pc v).object → u = v
  unknown : ∀ o, o ∉ s.given → s.received o = []

/-- An object that was registered and erased. -/
structure Gone (s : Shared T D H) (o : D) : Prop where
  given : o ∈ s.given
  unregistered : o ∉ s.ptrs
  unheld : ∀ u, o ∉ (s.pc u).object

theorem Gone.quiet (hg : Gone s o) (hq : Quiet s s') : Gone s' o := by
  refine ⟨hq.given ▸ hg.given, ?_, fun u hu => hg.unheld u (hq.held u o hu)⟩
  rw [ptrs, hq.destinations]
  exact hg.unregistered

namespace OwnedOnce

theorem init (verbosity : ℤ) : OwnedOnce (Shared.init verbosity : Shared T D H) := by
  refine ⟨List.nodup_nil, by simp [Shared.init, ptrs], ?_, ?_, fun _ _ => rfl⟩
  · intro u o ho; cases ho
  · intro u v o ho; cases ho

theorem quiet (h : OwnedOnce s) (hq : Quiet s s') : OwnedOnce s' := by
  have hptrs : s'.ptrs = s.ptrs := by rw [ptrs, hq.destinations]; rfl
  refine ⟨hptrs ▸ h.nodup, ?_, ?_, ?_, ?_⟩
  · rw [hptrs, hq.given]; exact h.registered
  · intro u o ho
    rw [hptrs, hq.given, hq.received]
    exact h.held u o (hq.held u o ho)
  · intro u v o hu hv; exact h.once u v o (hq.held u o hu) (hq.held v o hv)
  · rw [hq.given, hq.received]; exact h.unknown

theorem erase (h : OwnedOnce s) (id : Str) :
    OwnedOnce { s with destinations := (Registry.eraseId id s.destinations).2 } := by
  have hsub := (Registry.eraseId_sublist id s.destinations).map (·.ptr)
  refine ⟨h.nodup.sublist hsub, fun o ho => h.registered o (hsub.subset ho), ?_, h.once, h.unknown⟩
  intro u o ho
  obtain ⟨hg, hp, hr⟩ := h.held u o ho
  exact ⟨hg, fun hm => hp (hsub.subset hm), hr⟩

end OwnedOnce

section Receivers
variable [DecidableEq D]

namespace OwnedOnce

/-- Only the registered objects receive a record. -/
theorem received_deliver (h : OwnedOnce s) (r : Record) (o : D) :
    (s.deliver r).received o =
      if o ∈ s.ptrs then s.received o ++ [(r, s.tickets)] else s.received o :=
  Registry.received_write _ o h.nodup s.received

theorem deliver (h : OwnedOnce s) (r : Record) : OwnedOnce (s.deliver r) := by
  refine ⟨h.nodup, h.registered, ?_, h.once, ?_⟩
  · intro u o ho
    obtain ⟨hg, hp, hr⟩ := h.held u o ho
    exact ⟨hg, hp, by rw [h.received_deliver, if_neg hp, hr]⟩
  · intro o ho
    rw [h.received_deliver, if_neg fun hm => ho (h.registered o hm), h.unknown o ho]

end OwnedOnce

end Receivers

/-! ### What a step does to the registry -/

variable [DecidableEq T]

theorem quiet_goto (hp : ∀ o ∈ p.object, o ∈ (s.pc t).object) : Quiet s (s.goto t p) := by
  refine ⟨rfl, rfl, rfl, rfl, fun u o ho => ?_⟩
  rcases pc_goto s t u p with ⟨rfl, hpc⟩ | ⟨-, hpc⟩
  · rw [hpc] at ho; exact hp o ho
  · rw [hpc] at ho; exact ho

namespace OwnedOnce

theorem call (h : OwnedOnce s) {c : Call D} (hfresh : ∀ o ∈ c.object, o ∉ s.given) :
    OwnedOnce (goto t (.called c) { s with given := c.object.toList ++ s.given }) := by
  have hold : ∀ o ∈ s.given, o ∈ c.object.toList ++ s.given := fun o => List.mem_append_right _
  refine ⟨h.nodup, fun o ho => hold o (h.registered o ho), ?_, ?_, ?_⟩
  · intro u o ho
    rcases pc_goto { s with given := c.object.toList ++ s.given } t u (.called c) with
      ⟨-, hpc⟩ | ⟨-, hpc⟩
    · -- the object of this call is new
      rw [hpc] at ho
      refine ⟨List.mem_append_left _ (by simpa [Pc.object] using ho), fun hm => ?_,
        h.unknown o (hfresh o ho)⟩
      exact hfresh o ho (h.registered o hm)
    · rw [hpc] at ho
      obtain ⟨hg, hp, hr⟩ := h.held u o ho
      exact ⟨hold o hg, hp, hr⟩
  · intro u v o hu hv
    rcases pc_goto { s with given := c.object.toList ++ s.given } t u (.called c) with
      ⟨hut, hpu⟩ | ⟨-, hpu⟩ <;>
    rcases pc_goto { s with given := c.object.toList ++ s.given } t v (.called c) with
      ⟨hvt, hpv⟩ | ⟨-, hpv⟩ <;> rw [hpu] at hu <;> rw [hpv] at hv
    · rw [hut, hvt]
    · exact absurd (h.held v o hv).1 (hfresh o hu)
    · exact absurd (h.held u o hu).1 (hfresh o hv)
    · exact h.once u v o hu hv
  · intro o ho
    exact h.unknown o fun hm => ho (hold o hm)

theorem push (h : OwnedOnce s) (hpc : s.pc t = .adding id o) :
    OwnedOnce { s.goto t (.returned (some true)) with
      destinations := s.destinations ++ [⟨id, o⟩] } := by
  have hmine : o ∈ (s.pc t).object := by rw [hpc]; rfl
  obtain ⟨hg, hp, -⟩ := h.held t o hmine
  have hq : Quiet s (s.goto t (.returned (some true))) := quiet_goto (by simp [Pc.object])
  have h' := h.quiet hq
  have hptrs : ∀ x, x ∈ (s.destinations ++ [(⟨id, o⟩ : DestinationEntry D)]).map (·.ptr) ↔
      x ∈ s.ptrs ∨ x = o := by
    simp [ptrs]
  refine ⟨?_, ?_, ?_, h'.once, h'.unknown⟩
  · rw [ptrs, List.map_append]
    exact h.nodup.append (List.nodup_singleton o) (by simpa [ptrs] using hp)
  · intro x hx
    rcases (hptrs x).mp hx with hx | rfl
    · exact h.registered x hx
    · exact hg
  · intro u x hx
    obtain ⟨hxg, hxp, hxr⟩ := h'.held u x hx
    refine ⟨hxg, fun hm => ?_, hxr⟩
    rcases (hptrs x).mp hm with hm | rfl
    · exact hxp hm
    · -- `t` held the object, and holds nothing now
      obtain rfl := h.once u t x (hq.held u x hx) hmine
      rw [show (s.goto u (.returned (some true))).pc u = .returned (some true) from pc_goto_self]
        at hx
      cases hx

end OwnedOnce

variable [DecidableEq D]

/-- What an event does to the registry and to the destinations. -/
inductive RegistryStep (s : Shared T D H) : Ev T D → Shared T D H → Prop where
  | quiet (e : Ev T D) (s' : Shared T D H) (h : Quiet s s') (hw : e.record = none)
      (he : ∀ id, e.erases id = false) : RegistryStep s e s'
  | call (t : T) (c : Call D) (hidle : s.pc t = .idle) (hfresh : ∀ o ∈ c.object, o ∉ s.given) :
      RegistryStep s (.call t c) (goto t (.called c) { s with given := c.object.toList ++ s.given })
  | push (t : T) (id : Str) (o : D) (hpc : s.pc t = .adding id o) : RegistryStep s (.push t id o)
      { s.goto t (.returned (some true)) with destinations := s.destinations ++ [⟨id, o⟩] }
  | erase (t : T) (id : Str) (s' : Shared T D H)
      (h : Quiet { s with destinations := (Registry.eraseId id s.destinations).2 } s') :
      RegistryStep s (.erase t id) s'
  | write (e : Ev T D) (r : Record) (s' : Shared T D H) (h : Quiet (s.deliver r) s')
      (hw : e.record = some r) (he : ∀ id, e.erases id = false) : RegistryStep s e s'

namespace OwnedOnce

/-- STEP: the invariant is kept. -/
theorem step (h : OwnedOnce s) (hs : RegistryStep s e s') : OwnedOnce s' := by
  cases hs with
  | quiet _ _ hq => exact h.quiet hq
  | call _ _ hidle hfresh => exact h.call hfresh
  | push _ _ _ hpc => exact h.push hpc
  | erase _ id _ hq => exact (h.erase id).quiet hq
  | write _ r _ hq => exact (h.deliver r).quiet hq

end OwnedOnce

theorem tickets_step (hs : RegistryStep s e s') :
    s'.tickets = s.tickets + e.record.toList.length := by
  cases hs with
  | quiet _ _ hq hw => rw [hq.tickets, hw]; rfl
  | call => rfl
  | push => rfl
  | erase _ _ _ hq => exact hq.tickets
  | write _ r _ hq hw => rw [hq.tickets, hw]; rfl

/-- STEP: a registered object takes the record of the step, and stays unless its id is erased. -/
theorem registered_step (h : OwnedOnce s) (hreg : ⟨id, o⟩ ∈ s.destinations)
    (hs : RegistryStep s e s') (he : e.erases id = false) :
    ⟨id, o⟩ ∈ s'.destinations ∧
      s'.received o = s.received o ++ e.record.toList.zipIdx s.tickets := by
  cases hs with
  | quiet _ _ hq hw => rw [hq.destinations, hq.received, hw]; exact ⟨hreg, by simp⟩
  | call => exact ⟨hreg, by simp [Ev.record, goto]⟩
  | push => exact ⟨List.mem_append_left _ hreg, by simp [Ev.record, goto]⟩
  | erase _ id' _ hq =>
    rw [hq.destinations, hq.received]
    refine ⟨Registry.mem_eraseId.mpr ⟨hreg, ?_⟩, by simp [Ev.record]⟩
    rintro rfl
    simp [Ev.erases] at he
  | write _ r _ hq hw =>
    have ho : o ∈ s.ptrs := List.mem_map.mpr ⟨_, hreg, rfl⟩
    rw [hq.destinations, hq.received, hw, h.received_deliver, if_pos ho]
    exact ⟨hreg, rfl⟩

/-- STEP: a gone object stays gone and receives nothing. -/
theorem gone_step (h : OwnedOnce s) (hg : Gone s o) (hs : RegistryStep s e s') :
    Gone s' o ∧ s'.received o = s.received o := by
  cases hs with
  | quiet _ _ hq => exact ⟨hg.quiet hq, by rw [hq.received]⟩
  | call t c hidle hfresh =>
    refine ⟨⟨List.mem_append_right _ hg.given, hg.unregistered, fun u hu => ?_⟩, rfl⟩
    rcases pc_goto { s with given := c.object.toList ++ s.given } t u (.called c) with
      ⟨-, hpc⟩ | ⟨-, hpc⟩
    · rw [hpc] at hu; exact hfresh o hu hg.given
    · rw [hpc] at hu; exact hg.unheld u hu
  | push t id x hpc =>
    refine ⟨⟨hg.given, ?_, fun u hu => ?_⟩, rfl⟩
    · have hx : o ≠ x := by rintro rfl; exact hg.unheld t (by rw [hpc]; rfl)
      simpa [ptrs, hx] using hg.unregistered
    · exact hg.unheld u ((quiet_goto (by simp [Pc.object])).held u o hu)
  | erase _ id _ hq =>
    have hsub := (Registry.eraseId_sublist id s.destinations).map (·.ptr)
    have hg' : Gone { s with destinations := (Registry.eraseId id s.destinations).2 } o :=
      ⟨hg.given, fun hm => hg.unregistered (hsub.subset hm), hg.unheld⟩
    exact ⟨hg'.quiet hq, by rw [hq.received]⟩
  | write _ r _ hq =>
    have hg' : Gone (s.deliver r) o := ⟨hg.given, hg.unregistered, hg.unheld⟩
    exact ⟨hg'.quiet hq, by rw [hq.received, h.received_deliver, if_neg hg.unregistered]⟩

/-- STEP: erasing the id of a registered object makes the object gone. -/
theorem erased_step (h : OwnedOnce s) (hreg : ⟨id, o⟩ ∈ s.destinations)
    (hs : RegistryStep s e s') (he : e.erases id = true) :
    Gone s' o ∧ s'.received o = s.received o := by
  have ho : o ∈ s.ptrs := List.mem_map.mpr ⟨_, hreg, rfl⟩
  cases hs with
  | quiet _ _ _ _ hno => rw [hno] at he; cases he
  | call => cases he
  | push => cases he
  | write _ _ _ _ _ hno => rw [hno] at he; cases he
  | erase _ id' _ hq =>
    have hid : id' = id := by simpa [Ev.erases] using he
    subst hid
    have hgone : Gone { s with destinations := (Registry.eraseId id' s.destinations).2 } o := by
      refine ⟨h.registered o ho, fun hm => ?_, fun u hu => (h.held u o hu).2.1 ho⟩
      -- another entry with the object would carry the same id
      obtain ⟨d, hd, hdo⟩ := List.mem_map.mp hm
      obtain ⟨hd, hdid⟩ := Registry.mem_eraseId.mp hd
      exact hdid (congrArg (·.id) (List.inj_on_of_nodup_map h.nodup hd hreg hdo))
    exact ⟨hgone.quiet hq, by rw [hq.received]⟩

variable [DecidableEq H]

/-- STEP: every enabled event is one of these. -/
theorem registryStep (hasher : Str → H) (he : s.Enabled e) :
    RegistryStep s e (s.next hasher e) := by
  cases e with
  | call t c => exact .call t c he.1 he.2
  | push t id o => exact .push t id o he
  | erase t id => exact .erase t id _ (quiet_goto (by simp [Pc.object]))
  | write t r => exact .write _ r _ (quiet_goto (by simp [Pc.object])) rfl fun _ => rfl
  | writeOnce t m time =>
    have hq : Quiet (s.deliver (m.record time)) (s.next hasher (.writeOnce t m time)) :=
      (quiet_cache _ _ _).trans (quiet_goto (by simp [Pc.object]))
    exact .write _ _ _ hq rfl fun _ => rfl
  | append t m =>
    have hq : Quiet s (s.next hasher (.append t m)) :=
      (quiet_cache s _ _).trans (quiet_goto (by simp [Pc.object]))
    exact .quiet _ _ hq rfl fun _ => rfl
  | clear t =>
    have hq : Quiet s (s.next hasher (.clear t)) :=
      (quiet_cache s _ _).trans (quiet_goto (by simp [Pc.object]))
    exact .quiet _ _ hq rfl fun _ => rfl
  | check t id o =>
    refine .quiet _ _ (quiet_goto fun x hx => ?_) rfl fun _ => rfl
    rw [he.1]
    split_ifs at hx
    · cases hx
    · exact hx
  | find t o m =>
    refine .quiet _ _ (quiet_goto fun x hx => ?_) rfl fun _ => rfl
    split_ifs at hx <;> cases hx
  | leave t c => exact .quiet _ _ (quiet_goto (by simp [Pc.object])) rfl fun _ => rfl
  | query t id => exact .quiet _ _ (quiet_goto (by simp [Pc.object])) rfl fun _ => rfl
  | ret t r => exact .quiet _ _ (quiet_goto (by simp [Pc.object])) rfl fun _ => rfl

/-! ### Runs -/

open StepMachine (run run_inv run_split)

theorem ownedOnce_run {es : List (Ev T D)} (h : OwnedOnce s)
    (hrun : run (step hasher) s es = some s') : OwnedOnce s' := by
  refine run_inv (fun s e s' h hs => ?_) h hrun
  obtain ⟨he, rfl⟩ := step_eq_some.mp hs
  exact h.step (registryStep hasher he)

theorem tickets_run {es : List (Ev T D)} (hrun : run (step hasher) s es = some s') :
    s'.tickets = s.tickets + (writesOf es).length := by
  induction es generalizing s with
  | nil => cases hrun; rfl
  | cons e es ih =>
    obtain ⟨he, hrest⟩ := run_cons.mp hrun
    rw [ih hrest, tickets_step (registryStep hasher he), writesOf_cons, List.length_append,
      Nat.add_assoc]

/-- RUN: a gone object receives nothing any more. -/
theorem gone_run {es : List (Ev T D)} (h : OwnedOnce s) (hg : Gone s o)
    (hrun : run (step hasher) s es = some s') : s'.received o = s.received o := by
  induction es generalizing s with
  | nil => cases hrun; rfl
  | cons e es ih =>
    obtain ⟨he, hrest⟩ := run_cons.mp hrun
    have hs := registryStep hasher he
    obtain ⟨hg', hr⟩ := gone_step h hg hs
    exact (ih (h.step hs) hg' hrest).trans hr

/-- RUN: a registered object receives the writes up to the first step that erases its id. -/
theorem registered_run {es : List (Ev T D)} (h : OwnedOnce s) (hreg : ⟨id, o⟩ ∈ s.destinations)
    (hrun : run (step hasher) s es = some s') :
    s'.received o = s.received o ++ (writesOf (es.takeWhile (!·.erases id))).zipIdx s.tickets := by
  induction es generalizing s with
  | nil => cases hrun; simp [writesOf]
  | cons e es ih =>
    obtain ⟨he, hrest⟩ := run_cons.mp hrun
    have hs := registryStep hasher he
    cases her : e.erases id with
    | true =>
      obtain ⟨hg, hr⟩ := erased_step h hreg hs her
      rw [gone_run (h.step hs) hg hrest, hr, List.takeWhile_cons_of_neg (by simp [her])]
      simp [writesOf]
    | false =>
      obtain ⟨hreg', hr⟩ := registered_step h hreg hs her
      rw [ih (h.step hs) hreg' hrest, hr, tickets_step hs,
        List.takeWhile_cons_of_pos (by simp [her]), writesOf_cons, List.zipIdx_append,
        List.append_assoc]

/-- An object received the write steps from its `push_back` to the erasure of its id, numbered by
    their place among all write steps. -/
theorem received_pushed {verbosity : ℤ} {pre post : List (Ev T D)}
    (hrun : run (step hasher) (init verbosity) (pre ++ .push t id o :: post) = some s') :
    s'.received o =
      (writesOf (post.takeWhile (!·.erases id))).zipIdx (writesOf pre).length := by
  obtain ⟨m, m', hpre, hpush, hpost⟩ := run_split.mp hrun
  have hm := ownedOnce_run (OwnedOnce.init verbosity) hpre
  obtain ⟨he, rfl⟩ := step_eq_some.mp hpush
  have hs := registryStep hasher he
  have hreg : (⟨id, o⟩ : DestinationEntry D) ∈ (m.next hasher (.push t id o)).destinations :=
    List.mem_append_right _ List.mem_cons_self
  have hsilent : m.received o = [] := (hm.held t o (by rw [show m.pc t = _ from he]; rfl)).2.2
  have htickets : (m.next hasher (.push t id o)).tickets = (writesOf pre).length := by
    rw [tickets_step hs, tickets_run hpre]
    simp [init, Ev.record]
  rw [registered_run (hm.step hs) hreg hpost, htickets]
  exact congrArg (· ++ _) hsilent

/-- What the objects received at the end of a run. -/
structure ExactDelivery (evs : List (Ev T D)) (received : D → List (Record × ℕ)) : Prop where
  /-- Exactly the writes between its `push_back` and the erasure of its id, each once. -/
  slice : ∀ pre t id o post, evs = pre ++ .push t id o :: post →
    received o = (writesOf (post.takeWhile (!·.erases id))).zipIdx (writesOf pre).length
  /-- Common writes arrive in one order. -/
  order : ∀ t id o, .push t id o ∈ evs → ∀ t' id' o', .push t' id' o' ∈ evs →
    (received o).filter (· ∈ received o') = (received o').filter (· ∈ received o)

/-- DELIVERY: in every run of any threads every object receives exactly the writes of its time in
    the registry, all of them in one order; and once a removal of its id has run, whatever follows
    (the return of that call included) adds nothing. -/
theorem exact_delivery (hasher : Str → H) (verbosity : ℤ) (evs : List (Ev T D))
    (s' : Shared T D H) (hrun : run (step hasher) (init verbosity) evs = some s') :
    ExactDelivery evs s'.received ∧
    ∀ pre t id o mid post, evs = pre ++ .push t id o :: (mid ++ post) →
      (∃ e ∈ mid, e.erases id = true) →
      ∀ m, run (step hasher) (init verbosity) (pre ++ .push t id o :: mid) = some m →
        s'.received o = m.received o := by
  have hslice : ∀ pre t id o post, evs = pre ++ .push t id o :: post → s'.received o =
      (writesOf (post.takeWhile (!·.erases id))).zipIdx (writesOf pre).length := by
    rintro pre t id o post rfl
    exact received_pushed hrun
  refine ⟨⟨hslice, ?_⟩, ?_⟩
  · intro t id o ho t' id' o' ho'
    obtain ⟨pre, post, h⟩ := List.append_of_mem ho
    obtain ⟨pre', post', h'⟩ := List.append_of_mem ho'
    rw [hslice pre t id o post h, hslice pre' t' id' o' post' h']
    exact History.common_order (slice_of_pushed h) (slice_of_pushed h') (History.nodup_zipIdx _)
  · intro pre t id o mid post h he m hm
    obtain ⟨e, hmem, herase⟩ := he
    have hcut : (mid ++ post).takeWhile (!·.erases id) = mid.takeWhile (!·.erases id) := by
      rw [List.takeWhile_append, if_neg]
      intro hlen
      have hall := List.takeWhile_eq_self_iff.mp ((List.takeWhile_prefix _).eq_of_length hlen)
      have hno := hall e hmem
      rw [herase] at hno
      cases hno
    rw [hslice pre t id o (mid ++ post) h, received_pushed hm, hcut]

/-- Two threads register two objects under one id, a third logs, one removal erases both. -/
def sharedIdRun : List (Ev ℕ ℕ) :=
  [.call 0 (.addDestination ['a'] (some 7) true), .call 1 (.addDestination ['a'] (some 8) true),
    .check 0 ['a'] 7, .check 1 ['a'] 8, .push 0 ['a'] 7,
    .call 2 (.log .InfoLevel ['x'] []), .write 2 ⟨['x'], .InfoLevel, ⟨[], noon⟩⟩,
    .push 1 ['a'] 8, .ret 2 none,
    .call 2 (.log .InfoLevel ['y'] []), .write 2 ⟨['y'], .InfoLevel, ⟨[], noon⟩⟩,
    .ret 0 (some true), .call 0 (.removeDestination ['a']), .erase 0 ['a'], .ret 0 (some true)]

theorem sharedIdRun_delivers :
    ∃ s' : Shared ℕ ℕ UInt64, run (step fnv1a) (init 0) sharedIdRun = some s' ∧
      ExactDelivery sharedIdRun s'.received := by
  have hsome : (run (step fnv1a) (init 0 : Shared ℕ ℕ UInt64) sharedIdRun).isSome = true := by
    decide
  obtain ⟨s', hs'⟩ := Option.isSome_iff_exists.mp hsome
  exact ⟨s', hs', (exact_delivery fnv1a 0 sharedIdRun s' hs').1⟩

end Shared

end GtLogging
