import GtLogging.System
import GtLogging.Acceptance

/-! @src src/gt_logging.cpp src/gt_logdest.h src/gt_logdestfile.cpp | layer:result | the files of a
    running logger

    Two contracts of a single log, carried into the logger: whichever removes, renames and opens
    fail, the files hold whole lines in order, and where none does exactly what the strategy keeps.
    Every file destination has a family and a strategy object of its own. In both cases the lines
    are those of the records that the destination's filter let through, and the records are the
    writes between its `push_back` and the erasure of its id, whatever the threads do otherwise. -/

namespace GtLogging
open Rotation StepMachine
open Disk (SameOutside)

namespace FileLog

variable {path : Str} {s : SizeRotationStrategy} {j : Journal Str} {log : FileLog} {ms : List Str}
  {P : Str → Prop} {w' : World}

theorem atEnd_frame (hs : SameOutside P log.world.disk w'.disk) (hp : ¬ P path)
    (ha : AtEnd path log) : AtEnd path { log with world := w' } := by
  refine ⟨own_frame hs hp ha.toOwn, fun h hh => ?_⟩
  have hdata := hs.data path h.inode hp (ha.stream h hh)
  rcases ha.atEnd h hh with happ | hpos
  · exact Or.inl happ
  · exact Or.inr (by rw [hpos, hdata])

/-- ENDURING: whichever calls fail, whole lines in order, behind the blocks `b₀` that were there. -/
def enduring (d₀ : Disk Str Char) (b₀ : Str → Slots Str) (h₀ : ∀ path, Holds path (b₀ path) d₀) :
    Contract d₀ where
  Allows _ := True
  Kept path _ ms log := AtEnd path log ∧
    ∃ b, Holds path b log.world.disk ∧ Slots.Takes (ms.map line) (b₀ path) b
  own h := h.1.toOwn
  construct {flt path rot w} _ hsame := by
    have hthere : Holds path (b₀ path) w.disk := by
      intro i
      rw [hsame i]
      exact h₀ path i
    exact ⟨atEnd_construct flt path rot w, holds_construct flt rot hthere⟩
  write {flt _ _ _ _} m _ h := by
    obtain ⟨ha, b, hb, ht⟩ := h
    obtain ⟨ha', b', hb', ht'⟩ := holds_write flt m ha hb
    exact ⟨ha', b', hb', by simpa using ht.trans ht'⟩
  frame {path _ _ _ _ _} hs hp h := by
    obtain ⟨ha, b, hb, ht⟩ := h
    refine ⟨atEnd_frame hs (hp 0) ha, b, fun i => ?_, ht⟩
    rw [hs.read (hp i)]
    exact hb i

/-- The strategy and the journal after some messages on an empty family, no call failing. -/
def ledger (path : Str) (s : SizeRotationStrategy) (ms : List Str) :
    SizeRotationStrategy × Journal Str :=
  ms.foldl (fun p m => (nextStrategy p.1 (.write m), journalStep p.1 p.2 (.write m)))
    ({ s with fileName := path, currentFileSizeInBytes := 0 }, {})

theorem ledger_concat (path : Str) (s : SizeRotationStrategy) (ms : List Str) (m : Str) :
    ledger path s (ms ++ [m]) = (nextStrategy (ledger path s ms).1 (.write m),
      journalStep (ledger path s ms).1 (ledger path s ms).2 (.write m)) := by
  rw [ledger, List.foldl_append]
  rfl

theorem tracks_frame (hs : SameOutside P log.world.disk w'.disk) (hp : ∀ i, ¬ P (family path i))
    (ht : Tracks path s j log) : Tracks path s j { log with world := w' } := by
  obtain ⟨⟨hatt, ⟨h, hh, happ, hn⟩, hc⟩, hslots⟩ := ht
  refine ⟨⟨⟨hatt.rot, hatt.name, hatt.filePath⟩, ⟨h, hh, happ, ?_⟩, ?_⟩, fun i => ?_⟩
  · exact (hs.names path (hp 0)).trans hn
  · exact (hs.read (hp 0)).trans hc
  · exact (hs.read (hp i)).trans (hslots i)

theorem plain_frame (hs : SameOutside P log.world.disk w'.disk) (hp : ¬ P path)
    (h : Plain path ms log) : Plain path ms { log with world := w' } :=
  ⟨atEnd_frame hs hp h.toAtEnd, h.rot, h.valid, (hs.read hp).trans h.content⟩

/-- UNDISTURBED: without failures, every line of a log that never rotates, and the journal of a log
    that does, if its family was empty. -/
def undisturbed (d₀ : Disk Str Char) : Contract d₀ where
  Allows flt := flt = Faults.none
  Kept path rot ms log := Own path log ∧
    match rot with
    | .null => Plain path ms log
    | .size s => (∀ i, d₀.read (family path i) = none) →
      Tracks path (ledger path s ms).1 (ledger path s ms).2 log
  own h := h.1
  construct {flt path rot w} hflt hsame := by
    subst hflt
    refine ⟨own_construct _ path rot w, ?_⟩
    cases rot with
    | null => exact (plain_construct rfl w).1
    | size s => exact fun hempty => tracks_construct (fun i => (hsame i).trans (hempty i)) s
  write {flt path rot ms log} m hflt h := by
    subst hflt
    refine ⟨own_write _ m h.1, ?_⟩
    cases rot with
    | null => simpa [FileOp.written, FileOp.exec] using (plain_exec (Faults.none, .write m) h.2).1
    | size s =>
      intro hempty
      rw [ledger_concat]
      exact tracks_next (.write m) (h.2 hempty)
  frame {path rot _ _ _ _} hs hp h := by
    refine ⟨own_frame hs (hp 0) h.1, ?_⟩
    cases rot with
    | null => exact plain_frame hs (hp 0) h.2
    | size s => exact fun hempty => tracks_frame hs hp (h.2 hempty)

end FileLog

namespace Outputs
open FileLog

variable {D : Type*}
variable {d₀ : Disk Str Char} {c : Contract d₀} {recs : D → List Record} {out : Outputs D} {o : D}
  {sink : Sink}

/-- A functor object was called with what it received. -/
theorem functor_of_explained (he : Explained c recs out)
    (ho : out.objects o = some (.functor, sink)) : sink = .functor (recs o) := by
  have hobj := he.object o .functor sink ho
  cases sink with
  | functor calls => exact congrArg Sink.functor hobj
  | file formatted dest rot => exact hobj.elim
  | console formatted => exact hobj.elim

/-- A file object kept its contract. -/
theorem kept_of_explained {path : Str} {rot : RotationStrategy} {formatted : FormattedDestination}
    (he : Explained c recs out) (ho : out.objects o = some (.file path rot formatted, sink)) :
    ∃ log : FileLog, log.world = out.host.toWorld ∧
      c.Kept path rot ((recs o).filterMap formatted.lineOf) log := by
  have hobj := he.object o _ sink ho
  cases sink with
  | file formatted' dest cur => exact ⟨_, rfl, hobj.2⟩
  | console formatted' => exact hobj.elim
  | functor calls => exact hobj.elim

/-- The family of `path` holds blocks which, read from the highest index down, are some of what was
    there and then some of the lines `ms`, in order and none twice. -/
def Chronicles (path : Str) (d d' : Disk Str Char) (ms : List Str) : Prop :=
  ∃ b, Holds path b d' ∧ Slots.Takes (ms.map line) (found path d) b

theorem chronicles_of_explained {path : Str} {rot : RotationStrategy}
    {formatted : FormattedDestination}
    (he : Explained (enduring d₀ (found · d₀) (holds_found · d₀)) recs out)
    (ho : out.objects o = some (.file path rot formatted, sink)) :
    Chronicles path d₀ out.host.disk ((recs o).filterMap formatted.lineOf) := by
  obtain ⟨log, hw, -, b, hb, ht⟩ := kept_of_explained he ho
  rw [hw] at hb
  exact ⟨b, hb, ht⟩

/-- What the files of a strategy hold after the lines `ms`, no call failing. -/
def HoldsExactly (path : Str) (d d' : Disk Str Char) (ms : List Str) : RotationStrategy → Prop
  | .null => d'.read path = some (lines ms)
  | .size s => (∀ i, d.read (family path i) = none) →
    ∀ i, d'.read (family path i) = ((ledger path s ms).2.slot i).map lines

theorem holdsExactly_of_explained {path : Str} {rot : RotationStrategy}
    {formatted : FormattedDestination} (he : Explained (undisturbed d₀) recs out)
    (ho : out.objects o = some (.file path rot formatted, sink)) :
    HoldsExactly path d₀ out.host.disk ((recs o).filterMap formatted.lineOf) rot := by
  obtain ⟨log, hw, -, hk⟩ := kept_of_explained he ho
  cases rot with
  | null =>
    have hc := hk.content
    rwa [hw] at hc
  | size s =>
    intro hempty i
    have hslot := (hk hempty).slots i
    rwa [file, hw] at hslot

end Outputs

namespace System
open Outputs FileLog

variable {T D H : Type*} [DecidableEq T] [DecidableEq D] [DecidableEq H]
variable {hasher : Str → H} {sys : System T D H} {es : List (SysEv T D)} {host : Host}
  {verbosity : ℤ}

/-- The lines that a file or console object made of what it received. -/
def accepted (sys : System T D H) (o : D) (formatted : FormattedDestination) : List Str :=
  (sys.shared.records o).filterMap formatted.lineOf

/-- What holds of the objects of a run in any case. -/
structure Delivered (host : Host) (es : List (SysEv T D)) (sys : System T D H) : Prop where
  /-- An object receives the writes between its `push_back` and the erasure of its id. -/
  received : ∀ pre t id o post, es.filterMap SysEv.event = pre ++ .push t id o :: post →
    sys.shared.records o = writesOf (post.takeWhile (!·.erases id))
  /-- A functor is called with each of them. -/
  functors : ∀ o sink, sys.outputs.objects o = some (.functor, sink) →
    sink = .functor (sys.shared.records o)
  /-- No other file is touched. -/
  outside : SameOutside sys.outputs.Owned host.disk sys.outputs.host.disk

theorem delivered_of_explained {c : Contract host.disk}
    (hrun : run (step hasher) (init verbosity host) es = some sys)
    (he : Explained c sys.shared.records sys.outputs) : Delivered host es sys :=
  ⟨fun pre t id _ _ h => records_of_pushed pre t id hrun h, fun _ _ => functor_of_explained he,
    he.outside⟩

/-- A run that makes no object is lawful when its failures are. -/
theorem guarded_threads {Allows : Faults → Prop} (steps : List (Faults × Ev T D))
    (h : ∀ st ∈ steps, Allows st.1) (sys : System T D H) :
    Guarded (step hasher) (Lawful Allows Outputs.Fits) sys
      (steps.map fun st => .thread st.1 st.2) := by
  refine guarded_of_forall (fun ev hev s => ?_) sys
  obtain ⟨st, hst, rfl⟩ := List.mem_map.mp hev
  exact ⟨h st hst, by rintro _ _ _ ⟨⟩⟩

/-- A rotating log is made, registered, and takes two messages of another thread; the second one
    finds it at its limit. `flt` fails then. -/
def oneLogSteps (flt : Faults) : List (Faults × Ev ℕ ℕ) :=
  [.call 0 (.addDestination ['a'] (some 7) true), .check 0 ['a'] 7,
    .call 1 (.log .InfoLevel ['x'] []), .push 0 ['a'] 7,
    .write 1 ⟨['x'], .InfoLevel, ⟨[], noon⟩⟩, .ret 1 none,
    .call 1 (.log .ErrorLevel ['y'] [])].map (Faults.none, ·) ++
  [(flt, .write 1 ⟨['y'], .ErrorLevel, ⟨[], noon⟩⟩)]

def oneLogRun (flt : Faults) : List (SysEv ℕ ℕ) :=
  .make Faults.none 7 (.file "log".toList (.size (.new 10 2)) {}) ::
    (oneLogSteps flt).map fun st => .thread st.1 st.2

theorem guarded_oneLogRun {Allows : Faults → Prop} {flt : Faults} (host : Host)
    (hnone : Allows Faults.none) (hflt : Allows flt) :
    Guarded (step fnv1a) (Lawful Allows Outputs.Fits) (init 0 host) (oneLogRun flt) := by
  refine ⟨⟨hnone, ?_⟩, fun m _ => guarded_threads _ ?_ m⟩
  · rintro _ _ _ ⟨⟩ _ _ _ _ _ _ ⟨_, _, _, ⟨⟩⟩
  · intro st hst
    rcases List.mem_append.mp hst with hst | hst
    · obtain ⟨e, -, rfl⟩ := List.mem_map.mp hst
      exact hnone
    · obtain rfl := List.mem_singleton.mp hst
      exact hflt

theorem exists_run_oneLogRun (flt : Faults) : ∃ (sys : System ℕ ℕ UInt64) (sink : Sink),
    run (step fnv1a) (init 0 {}) (oneLogRun flt) = some sys ∧
      sys.outputs.objects 7 = some (.file "log".toList (.size (.new 10 2)) {}, sink) ∧
      sys.accepted 7 {} = ["INFO  [12:00:00] x".toList, "ERROR [12:00:00] y".toList] :=
  ⟨_, _, rfl, rfl, rfl⟩

/-- The current file cannot be renamed. -/
def currentStuck : Faults := { renameFails := fun p _ => p = "log".toList }

/-- SYSTEM, under failures: in every interleaving of any threads, with any removes, renames and
    opens failing in any step, the files of every file destination hold lines of what it received,
    whole, in order and none twice, as long as no file is made on the family of another one. -/
theorem system_logs_endure (hasher : Str → H) (verbosity : ℤ) (host : Host)
    (es : List (SysEv T D)) (sys : System T D H)
    (hok : Guarded (step hasher) (Lawful (fun _ => True) Outputs.Fits) (init verbosity host) es)
    (hrun : run (step hasher) (init verbosity host) es = some sys) :
    Delivered host es sys ∧
    ∀ o path rot formatted sink, sys.outputs.objects o = some (.file path rot formatted, sink) →
      Chronicles path host.disk sys.outputs.host.disk (sys.accepted o formatted) := by
  have he := explained_run (enduring host.disk (found · host.disk) (holds_found · host.disk)) hok
    hrun
  exact ⟨delivered_of_explained hrun he, fun o path rot formatted sink ho =>
    chronicles_of_explained he ho⟩

/-- The file that cannot be renamed is opened again, which empties it. -/
theorem system_logs_endure_one_log :
    ∃ sys : System ℕ ℕ UInt64, run (step fnv1a) (init 0 {}) (oneLogRun currentStuck) = some sys ∧
      sys.outputs.host.disk.read "log".toList = some "ERROR [12:00:00] y\n".toList ∧
      sys.outputs.host.disk.read "log.1".toList = none ∧
      Chronicles "log".toList Disk.empty sys.outputs.host.disk
        ["INFO  [12:00:00] x".toList, "ERROR [12:00:00] y".toList] := by
  obtain ⟨sys, sink, hrun, hobj, haccepted⟩ := exists_run_oneLogRun currentStuck
  have hfiles : (run (step fnv1a) (init 0 {} : System ℕ ℕ UInt64) (oneLogRun currentStuck)).map
      (fun sys => (sys.outputs.host.disk.read "log".toList,
        sys.outputs.host.disk.read "log.1".toList)) =
      some (some "ERROR [12:00:00] y\n".toList, none) := by
    decide
  rw [hrun] at hfiles
  obtain ⟨hcurrent, hbackup⟩ := Prod.mk.inj (Option.some.inj hfiles)
  have h := system_logs_endure fnv1a 0 {} (oneLogRun currentStuck) sys
    (guarded_oneLogRun {} trivial trivial) hrun
  exact ⟨sys, hrun, hcurrent, hbackup, haccepted ▸ h.2 7 _ _ {} sink hobj⟩

/-- SYSTEM, without failures: in every interleaving of any threads, the files of every file
    destination hold exactly the lines of what it received, all of them without rotation, and the
    journal of its strategy with it. -/
theorem system_logs_exact (hasher : Str → H) (verbosity : ℤ) (host : Host)
    (es : List (SysEv T D)) (sys : System T D H)
    (hok : Guarded (step hasher) (Lawful (· = Faults.none) Outputs.Fits) (init verbosity host) es)
    (hrun : run (step hasher) (init verbosity host) es = some sys) :
    Delivered host es sys ∧
    ∀ o path rot formatted sink, sys.outputs.objects o = some (.file path rot formatted, sink) →
      HoldsExactly path host.disk sys.outputs.host.disk (sys.accepted o formatted) rot := by
  have he := explained_run (undisturbed host.disk) hok hrun
  exact ⟨delivered_of_explained hrun he, fun o path rot formatted sink ho =>
    holdsExactly_of_explained he ho⟩

theorem system_logs_exact_one_log :
    ∃ sys : System ℕ ℕ UInt64, run (step fnv1a) (init 0 {}) (oneLogRun Faults.none) = some sys ∧
      Delivered {} (oneLogRun Faults.none) sys ∧
      sys.outputs.host.disk.read (family "log".toList 0) =
        some (lines ["ERROR [12:00:00] y".toList]) ∧
      sys.outputs.host.disk.read (family "log".toList 1) =
        some (lines ["INFO  [12:00:00] x".toList]) := by
  obtain ⟨sys, sink, hrun, hobj, haccepted⟩ := exists_run_oneLogRun Faults.none
  obtain ⟨hdelivered, hholds⟩ := system_logs_exact fnv1a 0 {} (oneLogRun Faults.none) sys
    (guarded_oneLogRun {} rfl rfl) hrun
  have hfiles := hholds 7 _ _ {} sink hobj fun _ => rfl
  rw [haccepted] at hfiles
  exact ⟨sys, hrun, hdelivered, hfiles 0, hfiles 1⟩

end System

end GtLogging
