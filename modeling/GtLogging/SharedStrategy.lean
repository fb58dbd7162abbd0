import GtLogging.Ownership
import GtLogging.Lib.StepMachine

/-! @src src/gt_logdestfile.h src/gt_logdestfile.cpp | layer:model,result | shared strategies

    A `FileDestination` has a stream and a path of its own, but the file name and the byte counter
    it rotates by stand in its strategy, and a `RotationStrategyPtr` is shared. `setFileInfo` binds
    the strategy to a path at construction and after a rotation, so the last destination to do so
    decides whose files the next rotation moves. Every destination stays on its own file as long as
    no other one rebinds its strategy, and rotates by the size of that file as long as no measuring
    stream fails alone. -/

namespace GtLogging
open Rotation SizeRotationStrategy StepMachine

/-! ### Several destinations -/

/-- What the constructors of some destinations are given: paths with disjoint families, and a
    strategy object each, which several may share. -/
structure Setup (ι ρ : Type*) where
  filePath : ι → Str
  rotationStrategy : ι → ρ
  disjoint : ∀ d e, d ≠ e → ∀ i j, family (filePath d) i ≠ family (filePath e) j

/-- The strategy objects, the destinations constructed so far, and the world. -/
structure FileDestinations (ι ρ : Type*) where
  strategies : ρ → RotationStrategy
  dests : ι → Option FileDestination
  world : World

namespace FileDestinations

/-- A call, with the file operations that fail in it. -/
inductive Call (ι : Type*) where
  | construct (flt : Faults) (d : ι)
  | write (flt : Faults) (d : ι) (message : Str)

/-- The file operations that fail in a call. -/
def Call.faults {ι : Type*} : Call ι → Faults
  | .construct flt _ => flt
  | .write flt _ _ => flt

variable {ι ρ : Type*} [DecidableEq ι] [DecidableEq ρ]

/-- Before any construction. -/
def initial (strategies : ρ → RotationStrategy) (w : World) : FileDestinations ι ρ where
  strategies := strategies
  dests _ := none
  world := w

/-- A destination as its own calls see it. -/
def view (p : ρ) (dest : FileDestination) (s : FileDestinations ι ρ) : FileLog where
  dest := dest
  rot := s.strategies p
  world := s.world

/-- What a call leaves, put back. -/
def put (d : ι) (p : ρ) (log : FileLog) (s : FileDestinations ι ρ) : FileDestinations ι ρ where
  strategies := Function.update s.strategies p log.rot
  dests := Function.update s.dests d (some log.dest)
  world := log.world

section put

variable (d : ι) (p : ρ) (log : FileLog) (s : FileDestinations ι ρ)

@[simp] theorem world_put : (s.put d p log).world = log.world := rfl

@[simp] theorem strategies_put_self : (s.put d p log).strategies p = log.rot :=
  Function.update_self _ _ _

theorem strategies_put_of_ne {q : ρ} (h : q ≠ p) :
    (s.put d p log).strategies q = s.strategies q :=
  Function.update_of_ne h _ _

@[simp] theorem dests_put_self : (s.put d p log).dests d = some log.dest :=
  Function.update_self _ _ _

theorem dests_put_of_ne {e : ι} (h : e ≠ d) : (s.put d p log).dests e = s.dests e :=
  Function.update_of_ne h _ _

@[simp] theorem view_put_self : (s.put d p log).view p log.dest = log := by
  rw [view, strategies_put_self, world_put]

end put

/-- Construct a destination once, then write to it. -/
def step (setup : Setup ι ρ) (s : FileDestinations ι ρ) : Call ι → Option (FileDestinations ι ρ)
  | .construct flt d =>
    match s.dests d with
    | some _ => none
    | none =>
      let p := setup.rotationStrategy d
      some <| s.put d p (FileLog.construct flt (setup.filePath d) (s.strategies p) s.world)
  | .write flt d m =>
    match s.dests d with
    | some dest =>
      let p := setup.rotationStrategy d
      some <| s.put d p ((s.view p dest).write flt m)
    | none => none

/-- INVERSION: a call builds a destination that was not there, or writes to one that is. -/
theorem step_cases {setup : Setup ι ρ} {s s' : FileDestinations ι ρ} {call : Call ι}
    (hs : step setup s call = some s') :
    (∃ flt d, call = .construct flt d ∧ s.dests d = none ∧
      s' = s.put d (setup.rotationStrategy d) (FileLog.construct flt (setup.filePath d)
        (s.strategies (setup.rotationStrategy d)) s.world)) ∨
    ∃ flt d m dest, call = .write flt d m ∧ s.dests d = some dest ∧
      s' = s.put d (setup.rotationStrategy d)
        ((s.view (setup.rotationStrategy d) dest).write flt m) := by
  cases call with
  | construct flt d =>
    cases hd : s.dests d with
    | none =>
      simp only [step, hd, Option.some.injEq] at hs
      exact Or.inl ⟨flt, d, rfl, hd, hs.symm⟩
    | some dest => simp [step, hd] at hs
  | write flt d m =>
    cases hd : s.dests d with
    | none => simp [step, hd] at hs
    | some dest =>
      simp only [step, hd, Option.some.injEq] at hs
      exact Or.inr ⟨flt, d, m, dest, rfl, hd, hs.symm⟩

/-- A write to `d` leaves the family of every other live destination as it is, and an open `d` with
    a size strategy rotates by the size of its own file, measured like the limit in 64 bits. -/
structure Isolated (setup : Setup ι ρ) (d : ι) (s s' : FileDestinations ι ρ) : Prop where
  others : ∀ e, e ≠ d → (s.dests e).isSome = true → ∀ i,
    s'.world.disk.read (family (setup.filePath e) i) =
      s.world.disk.read (family (setup.filePath e) i)
  rotates : ∀ dest strategy, s.dests d = some dest → dest.fstream.isSome = true →
    s.strategies (setup.rotationStrategy d) = .size strategy →
    ∃ c, s.world.disk.read (setup.filePath d) = some c ∧
      (strategy.shouldRotate = true ↔ strategy.maxFileSizeInBytes ≤ UInt64.ofNat c.length)

/-- Two destinations share a strategy only when it never rotates. -/
def NoneShared (setup : Setup ι ρ) (strategies : ρ → RotationStrategy) : Prop :=
  ∀ d e, d ≠ e → setup.rotationStrategy d = setup.rotationStrategy e →
    strategies (setup.rotationStrategy d) = .null

/-! ### Unshared strategies -/

/-- RUN INVARIANT: every destination keeps what it keeps about its own file. -/
structure Separate (K : Str → FileLog → Prop) (setup : Setup ι ρ) (s : FileDestinations ι ρ) :
    Prop where
  unshared : NoneShared setup s.strategies
  kept : ∀ d dest, s.dests d = some dest →
    K (setup.filePath d) (s.view (setup.rotationStrategy d) dest)

variable {K : Str → FileLog → Prop} {ok : Faults → Prop} {setup : Setup ι ρ}
  {s s' : FileDestinations ι ρ} {d e : ι} {log : FileLog}

/-- A call on `d` that keeps `d` on its own file, touches its own family and leaves a null strategy
    null keeps everything separate. -/
theorem separate_put (hK : FileLog.KeepsOwn ok K) (h : Separate K setup s)
    (ho : K (setup.filePath d) log)
    (hframe : Disk.SameOutside (FileLog.InFamily (setup.filePath d)) s.world.disk log.world.disk)
    (hnull : s.strategies (setup.rotationStrategy d) = .null → log.rot = .null) :
    Separate K setup (s.put d (setup.rotationStrategy d) log) := by
  have hkeep : ∀ p, s.strategies p = .null →
      (s.put d (setup.rotationStrategy d) log).strategies p = .null := by
    intro p hp
    by_cases heq : p = setup.rotationStrategy d
    · subst heq
      rw [strategies_put_self, hnull hp]
    · rw [strategies_put_of_ne _ _ _ _ heq, hp]
  refine ⟨fun a b hab hptr => hkeep _ (h.unshared a b hab hptr), ?_⟩
  intro a dest ha
  by_cases had : a = d
  · -- the destination of the call
    subst had
    rw [dests_put_self] at ha
    obtain rfl := Option.some.inj ha
    rw [view_put_self]
    exact ho
  · -- another one: its strategy is another object, or null
    rw [dests_put_of_ne _ _ _ _ had] at ha
    have hrot : (s.put d (setup.rotationStrategy d) log).strategies (setup.rotationStrategy a) =
        s.strategies (setup.rotationStrategy a) := by
      by_cases hptr : setup.rotationStrategy a = setup.rotationStrategy d
      · have hn := h.unshared a d had hptr
        rw [hkeep _ hn, hn]
      · exact strategies_put_of_ne _ _ _ _ hptr
    rw [view, hrot]
    refine hK.frame hframe ?_ (h.kept a dest ha)
    rintro ⟨i, hi⟩
    exact setup.disjoint a d had 0 i hi

/-- STEP: every call keeps the destinations separate. -/
theorem separate_step (hK : FileLog.KeepsOwn ok K) (call : Call ι) (hok : ok call.faults)
    (h : Separate K setup s) (hs : step setup s call = some s') : Separate K setup s' := by
  rcases step_cases hs with ⟨flt, d, rfl, -, rfl⟩ | ⟨flt, d, m, dest, rfl, hd, rfl⟩
  · refine separate_put hK h (hK.construct hok _ _ _) ?_ ?_
    · exact (FileLog.sameOutside_construct _ _ _ _).mono fun _ hq => ⟨0, hq⟩
    · intro hn
      rw [hn]
      exact FileLog.rot_null_construct _ _ _
  · have ho := h.kept d dest hd
    refine separate_put hK h (hK.write hok m ho)
      (FileLog.sameOutside_write flt m (hK.own ho)) ?_
    intro hn
    exact FileLog.rot_null_write flt m hn

/-- RUN: unshared strategies stay apart as long as the failures are `ok`. -/
theorem separate_run (hK : FileLog.KeepsOwn ok K) {strategies : ρ → RotationStrategy} {w : World}
    (hshare : NoneShared setup strategies) (calls : List (Call ι))
    (hok : ∀ call ∈ calls, ok call.faults)
    (hrun : run (step setup) (initial strategies w) calls = some s) : Separate K setup s := by
  have h₀ : Separate K setup (initial strategies w) := ⟨hshare, fun _ _ hd => by cases hd⟩
  exact run_inv_of_guarded (fun _ call _ h hok hs => separate_step hK call hok h hs) h₀
    (guarded_of_forall (fun call hcall _ => hok call hcall) _) hrun

/-- STEP: whatever fails, a write leaves the families of the others as they are. -/
theorem others_step (flt : Faults) (m : Str) (h : Separate FileLog.Own setup s)
    (hs : step setup s (.write flt d m) = some s') (hed : e ≠ d) (i : ℕ) :
    s'.world.disk.read (family (setup.filePath e) i) =
      s.world.disk.read (family (setup.filePath e) i) := by
  rcases step_cases hs with ⟨_, _, hcall, -⟩ | ⟨_, _, _, dest, hcall, hd, rfl⟩
  · cases hcall
  · cases hcall
    refine (FileLog.sameOutside_write flt m (h.kept d dest hd)).read ?_
    rintro ⟨j, hj⟩
    exact setup.disjoint e d hed i j hj

omit [DecidableEq ι] [DecidableEq ρ] in
/-- Where the counters are exact, an open destination rotates by its own size. -/
theorem rotates_of_counted (h : Separate FileLog.Counted setup s) (dest : FileDestination)
    (strategy : SizeRotationStrategy) (hd : s.dests d = some dest)
    (hst : dest.fstream.isSome = true)
    (hrot : s.strategies (setup.rotationStrategy d) = .size strategy) :
    ∃ c, s.world.disk.read (setup.filePath d) = some c ∧
      (strategy.shouldRotate = true ↔ strategy.maxFileSizeInBytes ≤ UInt64.ofNat c.length) := by
  have ho := h.kept d dest hd
  obtain ⟨hh, hhst⟩ := Option.isSome_iff_exists.mp hst
  obtain ⟨-, hcount⟩ := ho.counter hh strategy hhst hrot
  refine ⟨_, Disk.read_of_names (ho.stream hh hhst), ?_⟩
  rw [shouldRotate, decide_eq_true_iff, hcount]
  rfl

/-! ### Open destinations -/

/-- STEP: a call that can open files leaves every destination open. -/
theorem open_step (call : Call ι) (hf : ∀ p, call.faults.openFails p = false)
    (h : ∀ d dest, s.dests d = some dest → dest.fstream.isSome = true)
    (hs : step setup s call = some s') :
    ∀ d dest, s'.dests d = some dest → dest.fstream.isSome = true := by
  have hput : ∀ d p log, FileLog.isValid log = true →
      ∀ a dest, (s.put d p log).dests a = some dest → dest.fstream.isSome = true := by
    intro d p log hv a dest ha
    by_cases had : a = d
    · subst had
      rw [dests_put_self] at ha
      rw [← Option.some.inj ha]
      exact hv
    · rw [dests_put_of_ne _ _ _ _ had] at ha
      exact h a dest ha
  rcases step_cases hs with ⟨flt, d, rfl, -, rfl⟩ | ⟨flt, d, m, dest, rfl, hd, rfl⟩
  · exact hput _ _ _ (FileLog.isValid_construct (hf _) _ _)
  · exact hput _ _ _ (FileLog.isValid_write m (hf _) (h d dest hd))

/-- RUN: while no open is refused, every constructed destination is open. -/
theorem open_run (calls : List (Call ι)) (hf : ∀ call ∈ calls, ∀ p, call.faults.openFails p = false)
    {strategies : ρ → RotationStrategy} {w : World}
    (hrun : run (step setup) (initial strategies w) calls = some s) :
    ∀ d dest, s.dests d = some dest → dest.fstream.isSome = true := by
  have hopens : Guarded (step setup) (fun _ call => ∀ p, call.faults.openFails p = false)
      (initial strategies w) calls :=
    guarded_of_forall (fun call hcall _ => hf call hcall) _
  exact run_inv_of_guarded (fun _ call _ h hf hs => open_step call hf h hs)
    (fun _ _ hd => by cases hd) hopens hrun

/-! ### A shared size strategy -/

/-- `d` is live, but the size strategy it shares with `e` is bound to the file of `e`. -/
structure Crossed (setup : Setup ι ρ) (d e : ι) (strategy : SizeRotationStrategy)
    (s : FileDestinations ι ρ) : Prop where
  dest : ∃ dest, s.dests d = some dest ∧ dest.filePath = setup.filePath d
  other : (s.dests e).isSome = true
  rot : s.strategies (setup.rotationStrategy d) = .size strategy
  name : strategy.fileName = setup.filePath e
  file : (s.world.disk.read (setup.filePath e)).isSome = true

/-- Constructing `d` and then `e` binds the shared strategy to `e`. -/
theorem crossed_construct (strategies : ρ → RotationStrategy) (w : World) (hde : d ≠ e)
    (hptr : setup.rotationStrategy d = setup.rotationStrategy e) {strategy : SizeRotationStrategy}
    (hsize : strategies (setup.rotationStrategy d) = .size strategy) :
    ∃ s, run (step setup) (initial strategies w)
        [.construct Faults.none d, .construct Faults.none e] = some s ∧
      Crossed setup d e
        { strategy with fileName := setup.filePath e, currentFileSizeInBytes := 0 } s := by
  have h₁ := FileLog.live_construct Faults.none (setup.filePath d) rfl strategy w
  obtain ⟨log₁, hlog₁⟩ : ∃ log, FileLog.construct Faults.none (setup.filePath d) (.size strategy) w
    = log := ⟨_, rfl⟩
  rw [hlog₁] at h₁
  have h₂ := FileLog.live_construct Faults.none (setup.filePath e) rfl
    { strategy with fileName := setup.filePath d, currentFileSizeInBytes := 0 } log₁.world
  obtain ⟨log₂, hlog₂⟩ : ∃ log, FileLog.construct Faults.none (setup.filePath e)
    (.size { strategy with fileName := setup.filePath d, currentFileSizeInBytes := 0 }) log₁.world
    = log := ⟨_, rfl⟩
  rw [hlog₂] at h₂
  refine ⟨((initial strategies w).put d (setup.rotationStrategy d) log₁).put e
    (setup.rotationStrategy d) log₂, ?_, ⟨log₁.dest, ?_, h₁.filePath⟩, ?_, ?_, rfl, ?_⟩
  · -- the run
    have hs₁ : step setup (initial strategies w) (.construct Faults.none d) =
        some ((initial strategies w).put d (setup.rotationStrategy d) log₁) := by
      simp [step, initial, hsize, hlog₁]
    have hs₂ : step setup ((initial strategies w).put d (setup.rotationStrategy d) log₁)
        (.construct Faults.none e) = some (((initial strategies w).put d
          (setup.rotationStrategy d) log₁).put e (setup.rotationStrategy d) log₂) := by
      have hnone : ((initial strategies w).put d (setup.rotationStrategy d) log₁).dests e = none :=
        dests_put_of_ne _ _ _ _ hde.symm
      simp [step, hnone, ← hptr, h₁.rot, hlog₂]
    exact run_cons.mpr ⟨_, hs₁, run_cons.mpr ⟨_, hs₂, rfl⟩⟩
  · rw [dests_put_of_ne _ _ _ _ hde, dests_put_self]
  · rw [dests_put_self]
    rfl
  · rw [strategies_put_self, h₂.rot]
  · rw [world_put, h₂.content]
    rfl

/-- Below the limit a write to `d` counts for the strategy and leaves everything crossed. -/
theorem crossed_write_append {strategy : SizeRotationStrategy} (m : Str)
    (h : Crossed setup d e strategy s) (hr : strategy.shouldRotate = false) :
    ∃ s', step setup s (.write Faults.none d m) = some s' ∧
      Crossed setup d e (strategy.appendMessageSize (m.length + 1)) s' := by
  obtain ⟨⟨dest, hd, hpath⟩, hother, hrot, hname, hfile⟩ := h
  have hw : (s.view (setup.rotationStrategy d) dest).write Faults.none m =
      (s.view (setup.rotationStrategy d) dest).put m := by
    simp [FileLog.write, view, hrot, RotationStrategy.shouldRotate, hr]
  refine ⟨s.put d (setup.rotationStrategy d) ((s.view (setup.rotationStrategy d) dest).put m), ?_,
    ⟨_, dests_put_self _ _ _ _, hpath⟩, ?_, ?_, hname, ?_⟩
  · simp [step, hd, hw]
  · by_cases hde : e = d
    · subst hde
      rw [dests_put_self]
      rfl
    · rwa [dests_put_of_ne _ _ _ _ hde]
  · rw [strategies_put_self, FileLog.put, view, hrot]
    rfl
  · rw [world_put, Disk.isSome_read, FileLog.names_put, ← Disk.isSome_read]
    exact hfile

/-- At the limit a write to `d` takes the current file of `e` away. -/
theorem crossed_write_rotate {strategy : SizeRotationStrategy} (m : Str) (hde : d ≠ e)
    (h : Crossed setup d e strategy s) (hr : strategy.shouldRotate = true) :
    ∃ s', step setup s (.write Faults.none d m) = some s' ∧ ¬ Isolated setup d s s' := by
  obtain ⟨⟨dest, hd, hpath⟩, hother, hrot, hname, hfile⟩ := h
  refine ⟨s.put d (setup.rotationStrategy d)
    ((s.view (setup.rotationStrategy d) dest).write Faults.none m), by simp [step, hd], ?_⟩
  intro hiso
  have hgone : (((s.view (setup.rotationStrategy d) dest).write Faults.none m).world.disk.read
      (setup.filePath e)).isSome = false := by
    have hne : setup.filePath e ≠ (s.view (setup.rotationStrategy d) dest).dest.filePath := by
      intro he
      exact setup.disjoint d e hde 0 0 (hpath.symm.trans he.symm)
    have hcur := (rotate_oneStepShift strategy s.world).current
    rw [Disk.isSome_read, FileLog.names_write Faults.none m _ hne]
    simp only [view, hrot, RotationStrategy.shouldRotate, hr, if_true, RotationStrategy.rotate]
    rw [← Disk.isSome_read, ← hname, hcur]
    rfl
  have hsame := hiso.others e hde.symm hother 0
  rw [world_put, family] at hsame
  rw [hsame, hfile] at hgone
  cases hgone

/-- A run of unfailing calls in which a write reaches into the files of another destination. -/
theorem exists_not_isolated (strategies : ρ → RotationStrategy) (w : World) (hde : d ≠ e)
    (hptr : setup.rotationStrategy d = setup.rotationStrategy e) {strategy : SizeRotationStrategy}
    (hsize : strategies (setup.rotationStrategy d) = .size strategy) :
    ∃ calls s s', (∀ call ∈ calls, Call.faults call = Faults.none) ∧
      run (step setup) (initial strategies w) calls = some s ∧
      step setup s (.write Faults.none d []) = some s' ∧ ¬ Isolated setup d s s' := by
  obtain ⟨s, hrun, hc⟩ := crossed_construct strategies w hde hptr hsize
  cases hr : shouldRotate
      { strategy with fileName := setup.filePath e, currentFileSizeInBytes := 0 } with
  | true =>
    obtain ⟨s', hs, hno⟩ := crossed_write_rotate [] hde hc hr
    exact ⟨_, s, s', by simp [Call.faults], hrun, hs, hno⟩
  | false =>
    -- one message fills the counter up to the limit
    obtain ⟨s₁, hs₁, hc₁⟩ := crossed_write_append
      (List.replicate (strategy.maxFileSizeInBytes.toNat - 1) 'x') hc hr
    have hpos : 0 < strategy.maxFileSizeInBytes.toNat := by
      rw [shouldRotate, decide_eq_false_iff_not, ge_iff_le, UInt64.le_iff_toNat_le] at hr
      simpa [Nat.pos_iff_ne_zero] using hr
    have hfull : (appendMessageSize
        ((List.replicate (strategy.maxFileSizeInBytes.toNat - 1) 'x').length + 1)
        { strategy with fileName := setup.filePath e,
                        currentFileSizeInBytes := 0 }).shouldRotate = true := by
      rw [List.length_replicate, Nat.sub_add_cancel hpos]
      simp [shouldRotate, appendMessageSize]
    obtain ⟨s₂, hs₂, hno⟩ := crossed_write_rotate [] hde hc₁ hfull
    refine ⟨_, s₁, s₂, ?_, run_append.mpr ⟨s, hrun, run_cons.mpr ⟨s₁, hs₁, run_nil s₁⟩⟩, hs₂, hno⟩
    simp [Call.faults]

/-- Where nothing fails and every write is isolated, no size strategy is shared. -/
theorem noneShared_of_isolated {strategies : ρ → RotationStrategy} {w : World}
    (h : ∀ calls d m s s', (∀ call ∈ calls, Call.faults call = Faults.none) →
      run (step setup) (initial strategies w) calls = some s →
      step setup s (.write Faults.none d m) = some s' → Isolated setup d s s') :
    NoneShared setup strategies := by
  intro d e hde hptr
  cases hsize : strategies (setup.rotationStrategy d) with
  | null => rfl
  | size strategy =>
    obtain ⟨calls, s, s', hnone, hrun, hs, hno⟩ := exists_not_isolated strategies w hde hptr hsize
    exact absurd (h calls d [] s s' hnone hrun hs) hno

/-- EXACT: every write of every run in which no measuring stream fails alone is isolated from the
    other destinations iff no two destinations share a size strategy; so is every write of every run
    in which nothing fails, and every destination is open then. Unshared, a write leaves the files
    of the others as they are whatever fails. -/
theorem writes_isolated_iff (setup : Setup ι ρ) (strategies : ρ → RotationStrategy) (w : World) :
    ((∀ calls flt d m s s', (∀ call ∈ calls, FileLog.Measures (Call.faults call)) →
      run (step setup) (initial strategies w) calls = some s →
      step setup s (.write flt d m) = some s' → Isolated setup d s s') ↔
    NoneShared setup strategies) ∧
    ((∀ calls d m s s', (∀ call ∈ calls, Call.faults call = Faults.none) →
      run (step setup) (initial strategies w) calls = some s →
      step setup s (.write Faults.none d m) = some s' → Isolated setup d s s' ∧
        ∀ e dest, s.dests e = some dest → dest.fstream.isSome = true) ↔
    NoneShared setup strategies) ∧
    (NoneShared setup strategies → ∀ calls flt d m s s' e i,
      run (step setup) (initial strategies w) calls = some s →
      step setup s (.write flt d m) = some s' → e ≠ d →
      s'.world.disk.read (family (setup.filePath e) i) =
        s.world.disk.read (family (setup.filePath e) i)) := by
  have hothers : NoneShared setup strategies → ∀ calls flt d m s s' e i,
      run (step setup) (initial strategies w) calls = some s →
      step setup s (.write flt d m) = some s' → e ≠ d →
      s'.world.disk.read (family (setup.filePath e) i) =
        s.world.disk.read (family (setup.filePath e) i) := by
    intro hshare calls flt d m s s' e i hrun hs hed
    exact others_step flt m (separate_run FileLog.keeps_own hshare calls (by simp) hrun) hs hed i
  have hiso : NoneShared setup strategies → ∀ calls flt d m s s',
      (∀ call ∈ calls, FileLog.Measures (Call.faults call)) →
      run (step setup) (initial strategies w) calls = some s →
      step setup s (.write flt d m) = some s' → Isolated setup d s s' := by
    intro hshare calls flt d m s s' hmeas hrun hs
    exact ⟨fun e hed _ i => hothers hshare calls flt d m s s' e i hrun hs hed,
      rotates_of_counted (separate_run FileLog.keeps_counted hshare calls hmeas hrun)⟩
  have hmeasures : ∀ calls : List (Call ι), (∀ call ∈ calls, Call.faults call = Faults.none) →
      ∀ call ∈ calls, FileLog.Measures (Call.faults call) := by
    intro calls hnone call hcall
    rw [hnone call hcall]
    exact FileLog.measures_none
  refine ⟨⟨fun h => ?_, hiso⟩, ⟨fun h => ?_, ?_⟩, hothers⟩
  · -- no measuring stream fails alone
    exact noneShared_of_isolated fun calls d m s s' hnone hrun hs =>
      h calls Faults.none d m s s' (hmeasures calls hnone) hrun hs
  · -- nothing fails
    exact noneShared_of_isolated fun calls d m s s' hnone hrun hs =>
      (h calls d m s s' hnone hrun hs).1
  · -- unshared, and nothing fails
    intro hshare calls d m s s' hnone hrun hs
    refine ⟨hiso hshare calls Faults.none d m s s' (hmeasures calls hnone) hrun hs,
      open_run calls (fun call hcall p => ?_) hrun⟩
    rw [hnone call hcall]
    rfl

/-! ### Two logs -/

/-- `a.log` and `b.log`, each with its own strategy object or both with one. -/
def twoLogs {ρ : Type*} (p q : ρ) : Setup Bool ρ where
  filePath b := if b then "b.log".toList else "a.log".toList
  rotationStrategy b := if b then q else p
  disjoint := by
    rintro (_ | _) (_ | _) hde i j
    · exact absurd rfl hde
    · cases i <;> cases j <;> simp [family, backupName]
    · cases i <;> cases j <;> simp [family, backupName]
    · exact absurd rfl hde

/-- COUNTEREXAMPLE: both logs are given one strategy; the second write to `a.log` moves `b.log`. -/
theorem shared_strategy_moves_other_log :
    ¬ ∀ calls d m s s', (∀ call ∈ calls, Call.faults call = Faults.none) →
      run (step (twoLogs () ())) (initial (fun _ => .size (.new 1 1)) {}) calls = some s →
      step (twoLogs () ()) s (.write Faults.none d m) = some s' →
      Isolated (twoLogs () ()) d s s' := by
  intro h
  have hthere : ((run (step (twoLogs () ())) (initial (fun _ => .size (.new 1 1)) {})
      [.construct Faults.none false, .construct Faults.none true,
        .write Faults.none true ['x']]).map fun s =>
          ((s.dests true).isSome, s.world.disk.read "b.log".toList)) =
      some (true, some ['x', '\n']) := by decide
  have hgone : ((run (step (twoLogs () ())) (initial (fun _ => .size (.new 1 1)) {})
      ([.construct Faults.none false, .construct Faults.none true,
        .write Faults.none true ['x']] ++ [.write Faults.none false ['y']])).map fun s =>
          s.world.disk.read "b.log".toList) = some none := by decide
  obtain ⟨s', hs', hread'⟩ := Option.map_eq_some_iff.mp hgone
  obtain ⟨s, hs, hlast⟩ := run_append.mp hs'
  obtain ⟨_, hstep, hnil⟩ := run_cons.mp hlast
  cases hnil
  rw [hs, Option.map_some, Option.some_inj, Prod.mk.injEq] at hthere
  have hsame := (h _ _ _ _ _ (by simp [Call.faults]) hs hstep).others true (by decide) hthere.1 0
  rw [show family ((twoLogs () ()).filePath true) 0 = "b.log".toList from rfl, hread',
    hthere.2] at hsame
  cases hsame

end FileDestinations

end GtLogging
