import GtLogging.Programs

/-! @src src/gt_logging.cpp src/gt_logdestfile.cpp src/gt_logformatter.h | layer:result | a log over
    the processes that write it

    One process after the other runs a logger of its own on the same machine, each on the disk that
    the one before left. A process may end anywhere, with calls under way, and any of its removes,
    renames and opens may fail. A family of readable files stays readable, and what is read back is
    what was there and what the processes logged, in the order of the processes. -/

namespace GtLogging
open Rotation StepMachine
open LineReader (CanonicalTail)

namespace System
open Outputs FileLog

variable {T D H : Type*} [DecidableEq T] [DecidableEq D] [DecidableEq H]
variable {hasher : Str → H} {sys : System T D H} {es : List (SysEv T D)} {host host' : Host}
  {verbosity : ℤ} {path : Str} {b : Slots Str} {rs : List Record}

/-- Processes on one machine, one after the other, each at its end. -/
inductive Lifetime (hasher : Str → H) : Host → List (System T D H) → Host → Prop
  | nil (host : Host) : Lifetime hasher host [] host
  | cons {host host' : Host} {verbosity : ℤ} {es : List (SysEv T D)} {sys : System T D H}
      {syss : List (System T D H)}
      (hok : Guarded (step hasher) (Lawful (fun _ => True) Outputs.Fits) (init verbosity host) es)
      (hrun : run (step hasher) (init verbosity host) es = some sys)
      (rest : Lifetime hasher sys.outputs.host syss host') :
      Lifetime hasher host (sys :: syss) host'

/-- What a process logged on `path`: the records that its destination there let through, as default
    lines; nothing if it had no file of the family. -/
def Logged (path : Str) (sys : System T D H) (rs : List Record) : Prop :=
  (∃ o rot formatted sink, sys.outputs.objects o = some (.file path rot formatted, sink) ∧
    formatted.formatter = Formatter.Default ∧
    rs = (sys.shared.records o).filter fun r => formatted.filter r.level) ∨
  (rs = [] ∧ ∀ i, ¬ sys.outputs.Owned (family path i))

/-- STEP: one process adds at most what it logged, behind all the rest. -/
theorem holds_process
    (hok : Guarded (step hasher) (Lawful (fun _ => True) Outputs.Fits) (init verbosity host) es)
    (hrun : run (step hasher) (init verbosity host) es = some sys)
    (hb : Holds path b host.disk) (hlogged : Logged path sys rs) :
    ∃ b', Holds path b' sys.outputs.host.disk ∧ Slots.Takes (rs.map Record.block) b b' := by
  have h₀ : ∀ p, Holds p (Function.update (found · host.disk) path b p) host.disk := by
    intro p
    by_cases hp : p = path
    · subst hp
      rwa [Function.update_self]
    · rw [Function.update_of_ne hp]
      exact holds_found p host.disk
  have he := explained_run (enduring host.disk _ h₀) hok hrun
  rcases hlogged with ⟨o, rot, formatted, sink, ho, hdef, rfl⟩ | ⟨rfl, hnot⟩
  · obtain ⟨log, hw, -, b', hb', htakes⟩ := kept_of_explained he ho
    rw [hw] at hb'
    rw [Function.update_self, filterMap_lineOf _ hdef, List.map_map] at htakes
    exact ⟨b', hb', htakes⟩
  · refine ⟨b, fun i => ?_, .refl [] b⟩
    rw [he.outside.read (hnot i)]
    exact hb i

/-- RUN: so do the processes together. -/
theorem holds_lifetime {syss : List (System T D H)} {rss : List (List Record)}
    (hlife : Lifetime hasher host syss host') (hb : Holds path b host.disk)
    (hlogged : List.Forall₂ (Logged path) syss rss) :
    ∃ b', Holds path b' host'.disk ∧ Slots.Takes (rss.flatten.map Record.block) b b' := by
  induction hlife generalizing b rss with
  | nil host =>
    cases hlogged
    exact ⟨b, hb, .refl [] b⟩
  | cons hok hrun rest ih =>
    obtain _ | ⟨hhead, htail⟩ := hlogged
    obtain ⟨b₁, hb₁, ht₁⟩ := holds_process hok hrun hb hhead
    obtain ⟨b₂, hb₂, ht₂⟩ := ih hb₁ htail
    refine ⟨b₂, hb₂, ?_⟩
    rw [List.flatten_cons, List.map_append]
    exact ht₁.trans ht₂

/-- LIFETIME: a family of readable files on which processes log readable records with the default
    formatter, each process with any threads, any failing removes, renames and opens and any end, is
    readable at the end of every process, and the records in it, read from the highest index down,
    are some of those that were there and then some of those logged, process by process, in order
    and none twice. -/
theorem lifetime_reads_back (hasher : Str → H) (host host' : Host) (syss : List (System T D H))
    (hlife : Lifetime hasher host syss host') (path : Str) (before : Slots Record)
    (hbefore : ∀ i, readSlot (host.disk.read (family path i)) = some (before i))
    (rss : List (List Record)) (hlogged : List.Forall₂ (Logged path) syss rss)
    (hrs : ∀ rs ∈ rss, ∀ r ∈ rs, r.Readable) :
    ∃ kept : Slots Record, (∀ i, readSlot (host'.disk.read (family path i)) = some (kept i)) ∧
      Slots.Takes rss.flatten before kept := by
  have hb : Holds path (fun i => (before i).map Record.block) host.disk :=
    fun i => (reads_of_readSlot (hbefore i)).2
  obtain ⟨b, hfiles, htakes⟩ := holds_lifetime hlife hb hlogged
  refine exists_kept hbefore (fun r hr => ?_) hfiles htakes
  obtain ⟨rs, hmem, hr⟩ := List.mem_flatten.mp hr
  exact hrs rs hmem r hr

/-- What thread 1 logs in `oneLogRun`. -/
def oneLogRecords : List Record :=
  [⟨['x'], .InfoLevel, ⟨[], noon⟩⟩, ⟨['y'], .ErrorLevel, ⟨[], noon⟩⟩]

theorem readable_oneLogRecords : ∀ r ∈ oneLogRecords, r.Readable := by
  have hplain : ∀ c : Char, c ≠ '[' → CanonicalTail [] [c] := by
    intro c hc
    rw [CanonicalTail, if_pos rfl]
    rintro ⟨x, t, -, -, heq⟩
    exact hc (List.cons.inj heq).1
  simp only [oneLogRecords, List.forall_mem_cons]
  exact ⟨⟨⟨by decide, hplain 'x' (by decide)⟩, by decide⟩,
    ⟨⟨by decide, hplain 'y' (by decide)⟩, by decide⟩, by simp⟩

/-- Two processes log two records each; in the first one the current file cannot be renamed. -/
theorem lifetime_reads_back_two_processes :
    ∃ (sys sys' : System ℕ ℕ UInt64) (kept : Slots Record),
      Lifetime fnv1a {} [sys, sys'] sys'.outputs.host ∧
      (∀ i, readSlot (sys'.outputs.host.disk.read (family "log".toList i)) = some (kept i)) ∧
      Slots.Takes (oneLogRecords ++ oneLogRecords) (fun _ => []) kept := by
  obtain ⟨sys, sys', sink, sink', hrun, hrun', hobj, hobj', hrs, hrs'⟩ :
      ∃ (sys sys' : System ℕ ℕ UInt64) (sink sink' : Sink),
        run (step fnv1a) (init 0 {}) (oneLogRun currentStuck) = some sys ∧
        run (step fnv1a) (init 0 sys.outputs.host) (oneLogRun Faults.none) = some sys' ∧
        sys.outputs.objects 7 = some (.file "log".toList (.size (.new 10 2)) {}, sink) ∧
        sys'.outputs.objects 7 = some (.file "log".toList (.size (.new 10 2)) {}, sink') ∧
        sys.shared.records 7 = oneLogRecords ∧ sys'.shared.records 7 = oneLogRecords :=
    ⟨_, _, _, _, rfl, rfl, rfl, rfl, rfl, rfl⟩
  have hlife : Lifetime fnv1a {} [sys, sys'] sys'.outputs.host :=
    .cons (guarded_oneLogRun {} trivial trivial) hrun
      (.cons (guarded_oneLogRun sys.outputs.host trivial trivial) hrun' (.nil _))
  have hfilter : (oneLogRecords.filter fun r => ({} : FormattedDestination).filter r.level) =
      oneLogRecords := by
    decide
  obtain ⟨kept, hkept, htakes⟩ := lifetime_reads_back fnv1a {} sys'.outputs.host [sys, sys'] hlife
    "log".toList (fun _ => []) (fun _ => rfl) [oneLogRecords, oneLogRecords]
    (.cons (Or.inl ⟨7, _, {}, sink, hobj, rfl, by rw [hrs, hfilter]⟩)
      (.cons (Or.inl ⟨7, _, {}, sink', hobj', rfl, by rw [hrs', hfilter]⟩) .nil))
    (by simpa using readable_oneLogRecords)
  exact ⟨sys, sys', kept, hlife, hkept, by simpa using htakes⟩

end System

end GtLogging
