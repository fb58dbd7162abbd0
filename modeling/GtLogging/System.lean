import GtLogging.Sinks
import GtLogging.Delivery
import GtLogging.Lib.StepMachine

/-! @src src/gt_logging.cpp src/gt_logdest.h src/gt_logdestfile.cpp src/gt_logdestconsole.cpp
    src/gt_logdestfunctor.h | layer:model,refinement | the logger with its destinations

    The threads of the logger, the destination objects they hand over, and the host these act on.
    An object is constructed by some thread before it is handed to `addDestination`, together with
    the answer of its `isValid`; a `Logger::write` step calls `write` of every registered object in
    turn, and `addDestination` prints a warning where it refuses. Every file destination has a
    strategy object of its own. The logger's part of a run is a run of the threads alone
    (`run_shared`), and what an object did is determined by what it received: `Explained` carries
    the contract of a single file log through every interleaving. -/

namespace GtLogging
open Rotation StepMachine
open Disk (SameOutside)

/-- The objects, each with what its constructor was given, and the host. -/
structure Outputs (D : Type*) where
  objects : D → Option (Maker × Sink)
  host : Host

/-- The logger with everything it writes to. -/
structure System (T D H : Type*) where
  shared : Shared T D H
  outputs : Outputs D

/-- An event, with the file operations that fail in it. -/
inductive SysEv (T D : Type*) where
  | make (flt : Faults) (o : D) (maker : Maker)
  | thread (flt : Faults) (e : Ev T D)

namespace SysEv
variable {T D : Type*}

def faults : SysEv T D → Faults
  | .make flt _ _ => flt
  | .thread flt _ => flt

/-- The part of the threads. -/
def event : SysEv T D → Option (Ev T D)
  | .make _ _ _ => none
  | .thread _ e => some e

end SysEv

/-- What `addDestination` prints when it refuses. -/
def Shared.warning {T D H : Type*} (s : Shared T D H) : Ev T D → Option Str
  | .leave _ (.addDestination _ destination isValid) =>
    if destination.isNone || !isValid then some "GtLogging: Invalid destination!\n".toList
    else some "GtLogging: Invalid destination id!\n".toList
  | .check _ id _ =>
    if Registry.hasDestination s.destinations id then
      some ("GtLogging: A destination named '".toList ++ id ++ "' already exists!\n".toList)
    else none
  | _ => none

theorem isWarning_exists (id : Str) :
    IsWarning ("GtLogging: A destination named '".toList ++ id ++
      "' already exists!\n".toList) :=
  isWarning_append (List.prefix_append_of_prefix (by decide)) (by decide)

theorem Shared.isWarning_of_mem {T D H : Type*} {s : Shared T D H} {e : Ev T D} {msg : Str}
    (h : msg ∈ s.warning e) : IsWarning msg := by
  unfold Shared.warning at h
  split at h
  · split_ifs at h <;> cases h <;> exact ⟨by decide, by decide⟩
  · split_ifs at h
    · cases h
      exact isWarning_exists _
    · cases h
  · cases h

namespace Outputs

variable {D : Type*} [DecidableEq D]

/-- `std::cerr << msg`, if there is something to say. -/
def warn (msg : Option Str) (out : Outputs D) : Outputs D :=
  match msg with
  | none => out
  | some msg => { out with host := { out.host with toWorld := out.host.toWorld.warn msg } }

/-- Construct an object. -/
def make (flt : Faults) (o : D) (maker : Maker) (out : Outputs D) : Outputs D where
  objects := Function.update out.objects o (some (maker, (maker.make flt out.host).1))
  host := (maker.make flt out.host).2

/-- Call `write` of one object. -/
def writeTo (flt : Faults) (r : Record) (out : Outputs D) (d : DestinationEntry D) : Outputs D :=
  match out.objects d.ptr with
  | none => out
  | some (maker, sink) =>
    { objects := Function.update out.objects d.ptr (some (maker, (sink.write flt r out.host).1))
      host := (sink.write flt r out.host).2 }

/-- The loop of `Logger::write`. -/
def write (flt : Faults) (r : Record) (ds : List (DestinationEntry D)) (out : Outputs D) :
    Outputs D :=
  ds.foldl (writeTo flt r) out

end Outputs

namespace System

variable {T D H : Type*} [DecidableEq T] [DecidableEq D] [DecidableEq H]

/-- An object that is handed over exists, and was asked whether it is valid. -/
def handed (sys : System T D H) : Ev T D → Bool
  | .call _ (.addDestination _ (some o) isValid) =>
    (sys.outputs.objects o).map (·.2.isValid) = some isValid
  | _ => true

/-- What a step of a thread does outside the logger. -/
def outputsAfter (flt : Faults) (sys : System T D H) (e : Ev T D) : Outputs D :=
  let written := match e.record with
    | some r => sys.outputs.write flt r sys.shared.destinations
    | none => sys.outputs
  written.warn (sys.shared.warning e)

def step (hasher : Str → H) (sys : System T D H) : SysEv T D → Option (System T D H)
  | .make flt o maker =>
    if (sys.outputs.objects o).isNone then
      some { sys with outputs := sys.outputs.make flt o maker }
    else none
  | .thread flt e =>
    if sys.shared.Enabled e ∧ sys.handed e = true then
      some { shared := sys.shared.next hasher e, outputs := sys.outputsAfter flt e }
    else none

/-- A fresh logger on a host, no destination object made. -/
def init (verbosity : ℤ) (host : Host) : System T D H where
  shared := Shared.init verbosity
  outputs := { objects := fun _ => none, host := host }

variable {hasher : Str → H} {sys sys' : System T D H} {flt : Faults} {o : D} {maker : Maker}
  {e : Ev T D} {es : List (SysEv T D)}

theorem step_make :
    step hasher sys (.make flt o maker) = some sys' ↔
      sys.outputs.objects o = none ∧
        { sys with outputs := sys.outputs.make flt o maker } = sys' := by
  simp [step]

theorem step_thread :
    step hasher sys (.thread flt e) = some sys' ↔
      (sys.shared.Enabled e ∧ sys.handed e = true) ∧
        { shared := sys.shared.next hasher e, outputs := sys.outputsAfter flt e } = sys' := by
  simp [step]

/-- REFINEMENT: without the objects and the host, a run is a run of the threads. -/
theorem run_shared (h : run (step hasher) sys es = some sys') :
    run (Shared.step hasher) sys.shared (es.filterMap SysEv.event) = some sys'.shared := by
  refine run_refines (I := fun _ => True) System.shared SysEv.event (fun _ _ _ _ _ => trivial)
    (fun s ev s' _ hs => ?_) trivial h
  cases ev with
  | make flt o maker =>
    obtain ⟨-, rfl⟩ := step_make.mp hs
    rfl
  | thread flt e =>
    obtain ⟨⟨he, -⟩, rfl⟩ := step_thread.mp hs
    exact Shared.run_cons.mpr ⟨he, rfl⟩

end System

/-! ### What an object did with what it received -/

open FileLog (Contract InFamily)

/-- The state of an object that received `recs`. -/
def Explains {d₀ : Disk Str Char} (c : Contract d₀) (recs : List Record) :
    Maker → Sink → Host → Prop
  | .file path rot formatted, .file formatted' dest cur, h =>
    formatted' = formatted ∧
      c.Kept path rot (recs.filterMap formatted.lineOf)
        { dest := dest, rot := cur, world := h.toWorld }
  | .console formatted, .console formatted', _ => formatted' = formatted
  | .functor, .functor calls, _ => calls = recs
  | _, _, _ => False

namespace Outputs

variable {D : Type*}

/-- An object is a file destination on `path`. -/
def OnFile (out : Outputs D) (o : D) (path : Str) : Prop :=
  ∃ rot formatted sink, out.objects o = some (.file path rot formatted, sink)

/-- Files that belong to some object. -/
def Owned (out : Outputs D) (q : Str) : Prop := ∃ o path, out.OnFile o path ∧ InFamily path q

/-- INVARIANT: every object did what it was told and no more. -/
structure Explained {d₀ : Disk Str Char} (c : Contract d₀) (recs : D → List Record)
    (out : Outputs D) : Prop where
  object : ∀ o maker sink, out.objects o = some (maker, sink) →
    Explains c (recs o) maker sink out.host
  apart : ∀ o o' path path', out.OnFile o path → out.OnFile o' path' → o ≠ o' →
    ∀ i j, family path i ≠ family path' j
  outside : SameOutside out.Owned d₀ out.host.disk

variable {d₀ : Disk Str Char} {c : Contract d₀} {recs : D → List Record} {out : Outputs D}
  {flt : Faults} {o : D} {maker : Maker} {sink : Sink} {h h' : Host} {rs : List Record} {r : Record}

/-- FRAME: an object that is not a file, or whose files stay, notices nothing. -/
theorem explains_frame {P : Str → Prop} (hs : SameOutside P h.disk h'.disk)
    (hp : ∀ path rot formatted, maker = .file path rot formatted → ∀ i, ¬ P (family path i))
    (he : Explains c rs maker sink h) : Explains c rs maker sink h' := by
  cases maker with
  | file path rot formatted =>
    cases sink with
    | file formatted' dest cur => exact ⟨he.1, c.frame hs (hp path rot formatted rfl) he.2⟩
    | console formatted' => exact he
    | functor calls => exact he
  | console formatted => cases sink <;> exact he
  | functor => cases sink <;> exact he

@[simp]
theorem objects_warn (msg : Option Str) (out : Outputs D) :
    (out.warn msg).objects = out.objects := by
  cases msg <;> rfl

theorem explained_warn (msg : Option Str) (he : Explained c recs out) :
    Explained c recs (out.warn msg) := by
  cases msg with
  | none => exact he
  | some msg =>
    refine ⟨fun o maker sink ho => ?_, he.apart, he.outside⟩
    have hs : SameOutside (fun _ => False) out.host.disk (out.warn (some msg)).host.disk :=
      .refl _ _
    exact explains_frame hs (fun _ _ _ _ _ => not_false) (he.object o maker sink ho)

variable [DecidableEq D]

/-- STEP: one more record, for the object that is called. -/
theorem explains_write (hflt : c.Allows flt) (r : Record) (he : Explains c rs maker sink h) :
    Explains c (rs ++ [r]) maker (sink.write flt r h).1 (sink.write flt r h).2 ∧
      SameOutside (fun q => ∃ path rot formatted, maker = .file path rot formatted ∧
        InFamily path q) h.disk (sink.write flt r h).2.disk := by
  cases maker with
  | file path rot formatted =>
    cases sink with
    | file formatted' dest cur =>
      obtain ⟨rfl, hk⟩ := he
      rw [Sink.write]
      cases hl : formatted'.lineOf r with
      | none =>
        refine ⟨⟨rfl, ?_⟩, .refl _ _⟩
        simpa [List.filterMap_append, hl] using hk
      | some l =>
        refine ⟨⟨rfl, ?_⟩, ?_⟩
        · simpa [List.filterMap_append, hl] using c.write l hflt hk
        · refine (FileLog.sameOutside_write flt l (c.own hk)).mono fun q hq => ?_
          exact ⟨path, rot, formatted', rfl, hq⟩
    | console formatted' => exact he.elim
    | functor calls => exact he.elim
  | console formatted =>
    cases sink with
    | file formatted' dest cur => exact he.elim
    | console formatted' =>
      rw [Sink.write]
      cases hl : formatted'.lineOf r with
      | none => exact ⟨he, .refl _ _⟩
      | some l =>
        refine ⟨he, ?_⟩
        simp only [DebugOutputDestination.output]
        split_ifs <;> exact .refl _ _
    | functor calls => exact he.elim
  | functor =>
    cases sink with
    | file formatted' dest cur => exact he.elim
    | console formatted' => exact he.elim
    | functor calls => exact ⟨congrArg (· ++ [r]) he, .refl _ _⟩

theorem writeTo_none {d : DestinationEntry D} (hobj : out.objects d.ptr = none) :
    out.writeTo flt r d = out := by
  simp [writeTo, hobj]

theorem writeTo_some {d : DestinationEntry D} (hobj : out.objects d.ptr = some (maker, sink)) :
    out.writeTo flt r d =
      { objects := Function.update out.objects d.ptr (some (maker, (sink.write flt r out.host).1))
        host := (sink.write flt r out.host).2 } := by
  simp [writeTo, hobj]

theorem onFile_update {path : Str} {sink' : Sink} (hobj : out.objects o = some (maker, sink))
    (o' : D) : OnFile { out with objects := Function.update out.objects o (some (maker, sink')) } o'
      path ↔ out.OnFile o' path := by
  by_cases ho : o' = o
  · subst ho
    simp [OnFile, hobj]
  · simp [OnFile, Function.update_of_ne ho]

/-- STEP: one object takes a record. -/
theorem explained_writeTo (r : Record) (d : DestinationEntry D) (hflt : c.Allows flt)
    (he : Explained c recs out) :
    Explained c (Function.update recs d.ptr (recs d.ptr ++ [r])) (out.writeTo flt r d) := by
  cases hobj : out.objects d.ptr with
  | none =>
    rw [writeTo_none hobj]
    refine ⟨fun o maker sink ho => ?_, he.apart, he.outside⟩
    have hne : o ≠ d.ptr := by
      rintro rfl
      rw [hobj] at ho
      cases ho
    rw [Function.update_of_ne hne]
    exact he.object o maker sink ho
  | some p =>
    obtain ⟨maker, sink⟩ := p
    rw [writeTo_some hobj]
    obtain ⟨hnew, hout⟩ := explains_write hflt r (he.object d.ptr maker sink hobj)
    have hon : ∀ o path, OnFile
        { objects := Function.update out.objects d.ptr
            (some (maker, (sink.write flt r out.host).1))
          host := (sink.write flt r out.host).2 } o path ↔ out.OnFile o path :=
      fun o path => onFile_update hobj o
    refine ⟨fun o maker' sink' ho => ?_, ?_, ?_⟩
    · -- object
      dsimp only at ho ⊢
      by_cases heq : o = d.ptr
      · subst heq
        rw [Function.update_self] at ho ⊢
        obtain ⟨rfl, rfl⟩ := Prod.mk.inj (Option.some.inj ho)
        exact hnew
      · rw [Function.update_of_ne heq] at ho ⊢
        refine explains_frame hout ?_ (he.object o maker' sink' ho)
        rintro path rot formatted rfl i ⟨path', rot', formatted', rfl, j, hj⟩
        exact he.apart o d.ptr path path' ⟨_, _, _, ho⟩ ⟨_, _, _, hobj⟩ heq i j hj
    · -- apart
      intro o o' path path' ho ho'
      exact he.apart o o' path path' ((hon o path).mp ho) ((hon o' path').mp ho')
    · -- outside
      have hmono : SameOutside out.Owned out.host.disk (sink.write flt r out.host).2.disk := by
        refine hout.mono ?_
        rintro q ⟨path, rot, formatted, rfl, hq⟩
        exact ⟨d.ptr, path, ⟨_, _, _, hobj⟩, hq⟩
      refine (he.outside.trans hmono).mono ?_
      rintro q ⟨o, path, ho, hq⟩
      exact ⟨o, path, (hon o path).mpr ho, hq⟩

theorem isSome_writeTo (flt : Faults) (r : Record) (d : DestinationEntry D) (out : Outputs D)
    (o : D) : ((out.writeTo flt r d).objects o).isSome = (out.objects o).isSome := by
  cases hobj : out.objects d.ptr with
  | none => rw [writeTo_none hobj]
  | some p =>
    rw [writeTo_some hobj]
    by_cases ho : o = d.ptr
    · subst ho
      simp [hobj]
    · simp [Function.update_of_ne ho]

theorem isSome_write (flt : Faults) (r : Record) (ds : List (DestinationEntry D)) (out : Outputs D)
    (o : D) : ((out.write flt r ds).objects o).isSome = (out.objects o).isSome := by
  induction ds generalizing out with
  | nil => rfl
  | cons d ds ih => exact (ih _).trans (isSome_writeTo flt r d out o)

theorem isSome_make {o' : D} (h : (out.objects o').isSome) :
    ((out.make flt o maker).objects o').isSome := by
  by_cases ho : o' = o
  · subst ho
    simp [make]
  · simpa [make, Function.update_of_ne ho] using h

/-- The files of a new object belong to no other one. -/
def Fits (out : Outputs D) (maker : Maker) : Prop :=
  ∀ path rot formatted, maker = .file path rot formatted →
    ∀ o path', out.OnFile o path' → ∀ i j, family path i ≠ family path' j

theorem sameOutside_make (flt : Faults) (maker : Maker) (h : Host) :
    SameOutside (fun q => ∃ path rot formatted, maker = .file path rot formatted ∧ q = path)
      h.disk (maker.make flt h).2.disk := by
  cases maker with
  | file path rot formatted =>
    exact (FileLog.sameOutside_construct flt path rot h.toWorld).mono fun q hq =>
      ⟨path, rot, formatted, rfl, hq⟩
  | console formatted => exact .refl _ _
  | functor => exact .refl _ _

/-- STEP: a new object has done nothing yet. -/
theorem explained_make (hflt : c.Allows flt) (hfits : out.Fits maker)
    (hnone : out.objects o = none) (hrecs : recs o = []) (he : Explained c recs out) :
    Explained c recs (out.make flt o maker) := by
  have hout := sameOutside_make flt maker out.host
  have hold : ∀ o' path, o' ≠ o → ((out.make flt o maker).OnFile o' path ↔ out.OnFile o' path) := by
    intro o' path hne
    simp [OnFile, make, Function.update_of_ne hne]
  have hnew : ∀ path, (out.make flt o maker).OnFile o path ↔
      ∃ rot formatted, maker = .file path rot formatted := by
    intro path
    simp [OnFile, make]
  refine ⟨fun o' maker' sink' ho => ?_, ?_, ?_⟩
  · -- object
    dsimp only [make] at ho ⊢
    by_cases heq : o' = o
    · subst heq
      rw [Function.update_self] at ho
      obtain ⟨rfl, rfl⟩ := Prod.mk.inj (Option.some.inj ho)
      rw [hrecs]
      cases maker with
      | file path rot formatted =>
        refine ⟨rfl, c.construct hflt fun i => he.outside.read ?_⟩
        rintro ⟨o₁, path₁, h₁, j, hj⟩
        exact hfits path rot formatted rfl o₁ path₁ h₁ i j hj
      | console formatted => exact rfl
      | functor => exact rfl
    · rw [Function.update_of_ne heq] at ho
      refine explains_frame hout ?_ (he.object o' maker' sink' ho)
      rintro path rot formatted rfl i ⟨path', rot', formatted', rfl, hq⟩
      exact hfits path' rot' formatted' rfl o' path ⟨_, _, _, ho⟩ 0 i hq.symm
  · -- apart
    intro o₁ o₂ path₁ path₂ h₁ h₂ hne i j
    by_cases ho₁ : o₁ = o
    · subst ho₁
      obtain ⟨rot, formatted, rfl⟩ := (hnew path₁).mp h₁
      exact hfits path₁ rot formatted rfl o₂ path₂ ((hold o₂ path₂ (Ne.symm hne)).mp h₂) i j
    · by_cases ho₂ : o₂ = o
      · subst ho₂
        obtain ⟨rot, formatted, rfl⟩ := (hnew path₂).mp h₂
        exact (hfits path₂ rot formatted rfl o₁ path₁ ((hold o₁ path₁ hne).mp h₁) j i).symm
      · exact he.apart o₁ o₂ path₁ path₂ ((hold o₁ path₁ ho₁).mp h₁)
          ((hold o₂ path₂ ho₂).mp h₂) hne i j
  · -- outside
    refine (he.outside.mono ?_).trans (hout.mono ?_)
    · rintro q ⟨o', path, ho', hq⟩
      have hne : o' ≠ o := by
        rintro rfl
        obtain ⟨_, _, _, hobj⟩ := ho'
        rw [hnone] at hobj
        cases hobj
      exact ⟨o', path, (hold o' path hne).mpr ho', hq⟩
    · rintro q ⟨path, rot, formatted, rfl, rfl⟩
      exact ⟨o, q, (hnew q).mpr ⟨rot, formatted, rfl⟩, 0, rfl⟩

end Outputs

namespace Shared

variable {T D H : Type*} [DecidableEq T] [DecidableEq D]
variable {s s' : Shared T D H} {e : Ev T D}

/-- What the objects received after a step. -/
theorem received_step (hs : RegistryStep s e s') :
    s'.received = match e.record with
      | some r => Registry.write s.destinations (r, s.tickets) s.received
      | none => s.received := by
  cases hs with
  | quiet _ _ h hw he => rw [hw]; exact h.received
  | call t c hidle hfresh => rfl
  | push t id o hpc => rfl
  | erase t id _ h => exact h.received
  | write _ r _ h hw he => rw [hw]; exact h.received

/-- An object that was handed over was so before, or is by this call. -/
theorem given_step (hs : RegistryStep s e s') {o : D} (ho : o ∈ s'.given) :
    o ∈ s.given ∨ ∃ t c, e = .call t c ∧ o ∈ c.object := by
  cases hs with
  | quiet _ _ h hw he => exact Or.inl (h.given ▸ ho)
  | call t c hidle hfresh =>
    rcases List.mem_append.mp ho with hnew | hold
    · exact Or.inr ⟨t, c, rfl, by simpa using hnew⟩
    · exact Or.inl hold
  | push t id o hpc => exact Or.inl ho
  | erase t id _ h => exact Or.inl (h.given ▸ ho)
  | write _ r _ h hw he => exact Or.inl (h.given ▸ ho)

/-- The records without their tickets. -/
def records (s : Shared T D H) (o : D) : List Record := (s.received o).map Prod.fst

theorem map_fst_write (ds : List (DestinationEntry D)) (r : Record) (k : ℕ)
    (received : D → List (Record × ℕ)) :
    (fun o => (Registry.write ds (r, k) received o).map Prod.fst) =
      Registry.write ds r fun o => (received o).map Prod.fst := by
  induction ds generalizing received with
  | nil => rfl
  | cons d ds ih =>
    rw [Registry.write, List.foldl_cons, ← Registry.write, ih, Registry.write, Registry.write,
      List.foldl_cons]
    congr 1
    funext o
    by_cases ho : o = d.ptr
    · subst ho
      simp
    · simp [Function.update_of_ne ho]

end Shared

namespace System
open Outputs

variable {T D H : Type*} {hasher : Str → H} {sys sys' : System T D H} {ev : SysEv T D}
  {es : List (SysEv T D)} {verbosity : ℤ} {host : Host}

/-! ### The rule for objects and host -/

/-- RUN INVARIANT: an object is in one place, and exists when it is handed over. -/
structure Placed (sys : System T D H) : Prop where
  owned : sys.shared.OwnedOnce
  made : ∀ o ∈ sys.shared.given, (sys.outputs.objects o).isSome

/-- An object that does not exist has received nothing. -/
theorem Placed.silent (h : Placed sys) {o : D} (hnone : sys.outputs.objects o = none) :
    sys.shared.records o = [] := by
  have hgiven : o ∉ sys.shared.given := fun hg => by
    have hsome := h.made o hg
    rw [hnone] at hsome
    cases hsome
  rw [Shared.records, h.owned.unknown o hgiven]
  rfl

theorem explained_init (c : Contract host.disk) :
    Explained c (fun _ => []) ({ objects := fun _ => none, host := host } : Outputs D) := by
  refine ⟨?_, ?_, .refl _ _⟩
  · rintro o maker sink ⟨⟩
  · rintro o o' path path' ⟨_, _, _, ⟨⟩⟩

variable [DecidableEq D]

theorem isSome_outputsAfter (flt : Faults) (sys : System T D H) (e : Ev T D) (o : D) :
    ((sys.outputsAfter flt e).objects o).isSome = (sys.outputs.objects o).isSome := by
  rw [outputsAfter, objects_warn]
  cases e.record with
  | none => rfl
  | some r => exact isSome_write flt r sys.shared.destinations sys.outputs o

variable [DecidableEq T] [DecidableEq H]

theorem placed_step (h : Placed sys) (hs : step hasher sys ev = some sys') : Placed sys' := by
  cases ev with
  | make flt o maker =>
    obtain ⟨-, rfl⟩ := step_make.mp hs
    exact ⟨h.owned, fun o' ho' => isSome_make (h.made o' ho')⟩
  | thread flt e =>
    obtain ⟨⟨he, hhanded⟩, rfl⟩ := step_thread.mp hs
    have hreg := Shared.registryStep hasher he
    refine ⟨h.owned.step hreg, fun o ho => ?_⟩
    rw [isSome_outputsAfter]
    rcases Shared.given_step hreg ho with hold | ⟨t, call, rfl, hobj⟩
    · exact h.made o hold
    · cases call with
      | addDestination id destination isValid =>
        obtain rfl : destination = some o := hobj
        have hsome : (sys.outputs.objects o).map (·.2.isValid) = some isValid := by
          simpa [handed] using hhanded
        rw [← Option.isSome_map, hsome]
        rfl
      | _ => cases hobj

/-- What an event may be: the failures in it are allowed, and what it makes fits. -/
def Lawful (Allows : Faults → Prop) (Fits : Outputs D → Maker → Prop) (sys : System T D H)
    (ev : SysEv T D) : Prop :=
  Allows ev.faults ∧ ∀ flt o maker, ev = .make flt o maker → Fits sys.outputs maker

/-- `I recs out` says something about the objects and the host in terms of what each object
    received. It is kept when it survives a construction, one more record for one object, and a
    warning. -/
structure Keeps (Allows : Faults → Prop) (Fits : Outputs D → Maker → Prop)
    (I : (D → List Record) → Outputs D → Prop) : Prop where
  make : ∀ {recs out flt o maker}, Allows flt → Fits out maker → out.objects o = none →
    recs o = [] → I recs out → I recs (out.make flt o maker)
  write : ∀ {recs out flt} (r : Record) (d : DestinationEntry D), Allows flt → I recs out →
    I (Function.update recs d.ptr (recs d.ptr ++ [r])) (out.writeTo flt r d)
  warn : ∀ {recs out} (msg : Option Str), (∀ m ∈ msg, IsWarning m) → I recs out →
    I recs (out.warn msg)

variable {Allows : Faults → Prop} {Fits : Outputs D → Maker → Prop}
  {I : (D → List Record) → Outputs D → Prop}

theorem Keeps.writeAll (hI : Keeps Allows Fits I) {flt : Faults} {recs : D → List Record}
    {out : Outputs D} (hflt : Allows flt) (r : Record) (ds : List (DestinationEntry D))
    (h : I recs out) : I (Registry.write ds r recs) (out.write flt r ds) := by
  induction ds generalizing recs out with
  | nil => exact h
  | cons d ds ih => exact ih (hI.write r d hflt h)

/-- STEP of the rule. -/
theorem outputs_step (hI : Keeps Allows Fits I) (hp : Placed sys) (hok : Lawful Allows Fits sys ev)
    (h : I sys.shared.records sys.outputs) (hs : step hasher sys ev = some sys') :
    I sys'.shared.records sys'.outputs := by
  cases ev with
  | make flt o maker =>
    obtain ⟨hnone, rfl⟩ := step_make.mp hs
    exact hI.make hok.1 (hok.2 flt o maker rfl) hnone (hp.silent hnone) h
  | thread flt e =>
    obtain ⟨⟨he, -⟩, rfl⟩ := step_thread.mp hs
    have hrec := Shared.received_step (Shared.registryStep hasher he)
    refine hI.warn _ (fun _ => Shared.isWarning_of_mem) ?_
    cases hr : e.record with
    | none =>
      rw [hr] at hrec
      have hsame : Shared.records (sys.shared.next hasher e) = sys.shared.records := by
        funext o
        rw [Shared.records, hrec, Shared.records]
      rw [hsame]
      exact h
    | some r =>
      rw [hr] at hrec
      have hnew : Shared.records (sys.shared.next hasher e) =
          Registry.write sys.shared.destinations r sys.shared.records := by
        funext o
        rw [Shared.records, hrec]
        exact congrFun (Shared.map_fst_write _ r _ _) o
      rw [hnew]
      exact hI.writeAll hok.1 r _ h

/-- OUTPUT RULE: it then holds in every state that lawful events reach. -/
theorem outputs_run (hI : Keeps Allows Fits I)
    (hinit : I (fun _ => []) { objects := fun _ => none, host := host })
    (hok : Guarded (step hasher) (Lawful Allows Fits) (init verbosity host : System T D H) es)
    (hrun : run (step hasher) (init verbosity host) es = some sys) :
    I sys.shared.records sys.outputs := by
  have hp₀ : Placed (init verbosity host : System T D H) :=
    ⟨Shared.OwnedOnce.init verbosity, by rintro o ⟨⟩⟩
  refine (run_inv_of_guarded (I := fun sys => Placed sys ∧ I sys.shared.records sys.outputs)
    (fun s ev s' h hok hs => ?_) ⟨hp₀, hinit⟩ hok hrun).2
  exact ⟨placed_step h.1 hs, outputs_step hI h.1 hok h.2 hs⟩

theorem explained_keeps {d₀ : Disk Str Char} (c : Contract d₀) :
    Keeps c.Allows Outputs.Fits (Explained c : (D → List Record) → Outputs D → Prop) :=
  ⟨explained_make, explained_writeTo, fun msg _ => explained_warn msg⟩

/-- RUN: a contract of a single log is kept for every file of the system. -/
theorem explained_run (c : Contract host.disk)
    (hok : Guarded (step hasher) (Lawful c.Allows Outputs.Fits)
      (init verbosity host : System T D H) es)
    (hrun : run (step hasher) (init verbosity host) es = some sys) :
    Explained c sys.shared.records sys.outputs := by
  exact outputs_run (explained_keeps c) (explained_init c) hok hrun

/-- What an object received, told by the events of the threads: it is the writes between its
    `push_back` and the erasure of its id. -/
theorem records_of_pushed (pre : List (Ev T D)) (t : T) (id : Str) {o : D} {post : List (Ev T D)}
    (hrun : run (step hasher) (init verbosity host : System T D H) es = some sys)
    (hpush : es.filterMap SysEv.event = pre ++ .push t id o :: post) :
    sys.shared.records o = writesOf (post.takeWhile (!·.erases id)) := by
  have hshared := run_shared hrun
  rw [hpush] at hshared
  rw [Shared.records, Shared.received_pushed hshared]
  simp [List.zipIdx_map_fst]

end System

end GtLogging
