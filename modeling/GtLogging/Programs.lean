import GtLogging.SystemLogs
import GtLogging.Linearization
import GtLogging.Macros
import GtLogging.ReadBack
import GtLogging.Lib.Merge

/-! @src src/gt_logging.h, src/gt_logging.cpp, src/gt_logdestfile.cpp | layer:refinement,result |
    from statements to the bytes of a log

    Every thread runs a program of log statements. What a statement delivers is a call of
    `Logger::log`, and each call is one `Logger::write` of the thread, in its order; so a
    destination that is registered throughout receives a merge of the programs, and its file holds
    the lines of that merge. -/

namespace GtLogging
open Rotation StepMachine

/-- The statements of a thread, each as its translation unit has it. -/
abbrev Program := List (GlobalDefines × LogStatement)

namespace Program

/-- What the statements deliver. -/
def delivered (g : Settings) (p : Program) : List Message :=
  p.filterMap fun x => (x.2.expand x.1).delivered g

/-- REFERENCE: what they mean. -/
def meaning (g : Settings) (p : Program) : List Message := p.filterMap fun x => x.2.meaning x.1 g

theorem delivered_eq {g : Settings} {p : Program} (h : ∀ x ∈ p, keepFormat x.2.ops = true) :
    p.delivered g = p.meaning g := by
  exact List.filterMap_congr fun x hx => delivered_eq_meaning x.1 g x.2 (h x hx)

end Program

/-- A record without its time. -/
def Record.said (r : Record) : Message := ⟨r.message, r.details.id, r.level⟩

/-- The message of a call of `log` by the thread. -/
def Ev.callOf {T D : Type*} [DecidableEq T] (t : T) : Ev T D → Option Message
  | .call u (.log level message id) => if u = t then some ⟨message, id, level⟩ else none
  | _ => none

/-- The record such a call writes. -/
def Ev.writeOf {T D : Type*} [DecidableEq T] (t : T) : Ev T D → Option Record
  | .write u r => if u = t then some r else none
  | _ => none

/-- The record that a log-once statement writes. -/
def Ev.onceOf {T D : Type*} : Ev T D → Option Record
  | .writeOnce _ m time => some (m.record time)
  | _ => none

/-- The message of a call of `log` that has not written yet. -/
def Pc.waiting {D : Type*} : Pc D → List Message
  | .called (.log level message id) => [⟨message, id, level⟩]
  | _ => []

theorem filterMap_cons_toList {α β : Type*} (f : α → Option β) (a : α) (l : List α) :
    (a :: l).filterMap f = (f a).toList ++ l.filterMap f := by
  rw [List.filterMap_cons]
  cases f a <;> rfl

namespace Shared

variable {T D H : Type*} {hasher : Str → H} {s s' : Shared T D H} {e : Ev T D} {t : T}
  {evs : List (Ev T D)}

/-! ### The writes of a run -/

/-- The writes of a run, each with the thread whose `log` call it is; `none` for a log-once
    statement. -/
def labelled (evs : List (Ev T D)) : List (Option T × Record) :=
  evs.filterMap fun e => match e with
    | .write t r => some (some t, r)
    | .writeOnce _ m time => some (none, m.record time)
    | _ => none

theorem labelled_snd (evs : List (Ev T D)) : (labelled evs).map Prod.snd = writesOf evs := by
  rw [labelled, List.map_filterMap, writesOf]
  refine List.filterMap_congr fun e _ => ?_
  cases e <;> rfl

theorem labelled_once (evs : List (Ev T D)) :
    ((labelled evs).filter (·.1 = none)).map Prod.snd = evs.filterMap Ev.onceOf := by
  rw [labelled, List.filter_filterMap, List.map_filterMap]
  refine List.filterMap_congr fun e _ => ?_
  cases e <;> simp [Ev.onceOf]

variable [DecidableEq T]

theorem labelled_filter (t : T) (evs : List (Ev T D)) :
    ((labelled evs).filter (·.1 = some t)).map Prod.snd = evs.filterMap (Ev.writeOf t) := by
  rw [labelled, List.filter_filterMap, List.map_filterMap]
  refine List.filterMap_congr fun e _ => ?_
  cases e with
  | write u r =>
    by_cases hu : u = t
    · simp [Ev.writeOf, hu]
    · simp [Ev.writeOf, hu]
  | writeOnce u m time => simp [Ev.writeOf]
  | _ => rfl

/-! ### Calls and writes -/

theorem callOf_of_ne (h : e.thread ≠ t) : e.callOf t = none := by
  cases e with
  | call u c =>
    cases c with
    | log level message id => exact if_neg h
    | _ => rfl
  | _ => rfl

theorem writeOf_of_ne (h : e.thread ≠ t) : e.writeOf t = none := by
  cases e with
  | write u r => exact if_neg h
  | _ => rfl

variable [DecidableEq H]

/-- A thread that takes a step calls, writes, or does neither. -/
theorem waiting_target (hasher : Str → H) (he : s.Enabled e) :
    (source e).waiting ++ (e.callOf e.thread).toList =
      ((e.writeOf e.thread).map Record.said).toList ++ (s.target hasher e).waiting := by
  cases e with
  | call t c =>
    cases c with
    | log level message id => simp [source, target, Ev.callOf, Ev.writeOf, Pc.waiting, Ev.thread]
    | _ => rfl
  | leave t c =>
    obtain ⟨-, hearly⟩ := he
    cases c with
    | log level message id => cases hearly
    | _ => rfl
  | write t r => simp [source, target, Ev.callOf, Ev.writeOf, Pc.waiting, Ev.thread, Record.said]
  | check t id o =>
    rw [target]
    split_ifs <;> rfl
  | find t o m =>
    rw [target]
    split_ifs <;> rfl
  | _ => rfl

variable [DecidableEq D]

/-- STEP: what was called and not written. -/
theorem waiting_step (hasher : Str → H) (t : T) (he : s.Enabled e) :
    (s.pc t).waiting ++ (e.callOf t).toList =
      ((e.writeOf t).map Record.said).toList ++ ((s.next hasher e).pc t).waiting := by
  by_cases ht : e.thread = t
  · subst ht
    rw [pc_next_self, pc_of_enabled he]
    exact waiting_target hasher he
  · rw [pc_next_of_ne hasher s ht, callOf_of_ne ht, writeOf_of_ne ht]
    exact List.append_nil _

/-- RUN: the writes of a thread are its calls in their order, up to the one under way. -/
theorem waiting_run (t : T) (hrun : run (step hasher) s evs = some s') :
    (s.pc t).waiting ++ evs.filterMap (Ev.callOf t) =
      (evs.filterMap (Ev.writeOf t)).map Record.said ++ (s'.pc t).waiting := by
  induction evs generalizing s with
  | nil =>
    cases hrun
    rw [List.filterMap_nil, List.filterMap_nil, List.append_nil]
    rfl
  | cons e evs ih =>
    obtain ⟨he, hrest⟩ := run_cons.mp hrun
    have hstep := waiting_step hasher t he
    have h := ih hrest
    rw [filterMap_cons_toList, filterMap_cons_toList, ← List.append_assoc, hstep, List.append_assoc,
      h, List.map_append, List.append_assoc]
    cases e.writeOf t <;> rfl

/-! ### A session -/

/-- The threads make the calls `said` of `log`, all of them written by now, while `o` is
    registered. -/
structure Session (said : T → List Message) (o : D) (evs : List (Ev T D)) (s : Shared T D H) :
    Prop where
  registered : ∃ pre t id post, evs = pre ++ .push t id o :: post ∧ writesOf pre = [] ∧
    ∀ e ∈ post, e.erases id = false
  calls : ∀ t, evs.filterMap (Ev.callOf t) = said t
  done : ∀ t, (s.pc t).waiting = []

/-- RUN: an object that is registered throughout receives a merge of the calls of the threads, and
    of what log-once statements wrote. -/
theorem records_of_session {verbosity : ℤ} {said : T → List Message} {o : D}
    (hrun : run (step hasher) (init verbosity) evs = some s') (h : Session said o evs s') :
    ∃ recs : T → List Record, (∀ t, (recs t).map Record.said = said t) ∧
      Merge (fun k : Option T => (k.elim (evs.filterMap Ev.onceOf) recs).map ([·]))
        (s'.records o) := by
  obtain ⟨pre, u, id, post, rfl, hpre, hkeep⟩ := h.registered
  -- everything is written after the registration
  have hall : s'.records o = writesOf (pre ++ .push u id o :: post) := by
    have hslice := received_pushed hrun
    have hpost : post.takeWhile (!·.erases id) = post :=
      List.takeWhile_eq_self_iff.mpr fun e he => by rw [hkeep e he]; rfl
    rw [records, hslice, hpost, hpre, List.zipIdx_map_fst, writesOf_append, hpre, writesOf_cons]
    rfl
  refine ⟨fun t => (pre ++ .push u id o :: post).filterMap (Ev.writeOf t), fun t => ?_, ?_⟩
  · have hcalls := waiting_run t hrun
    rw [h.calls, h.done, List.append_nil] at hcalls
    exact hcalls.symm
  · have hmerge := Merge.ofLabelled (labelled (pre ++ .push u id o :: post))
    rw [labelled_snd, ← hall] at hmerge
    refine (congrArg (Merge · _) ?_).mp hmerge
    funext k
    cases k with
    | none => exact congrArg (List.map ([·])) (labelled_once _)
    | some t => exact congrArg (List.map ([·])) (labelled_filter t _)

end Shared

namespace System
open Outputs FileLog

variable {T D H : Type*} [DecidableEq T] [DecidableEq D] [DecidableEq H]
variable {hasher : Str → H} {sys : System T D H} {es : List (SysEv T D)} {host : Host}

/-- The lines of a destination with the default formatter. -/
theorem filterMap_lineOf {formatted : FormattedDestination} (recs : List Record)
    (hdef : formatted.formatter = Formatter.Default) :
    recs.filterMap formatted.lineOf =
      (recs.filter fun r => formatted.filter r.level).map Record.text := by
  rw [← List.filterMap_eq_map, List.filterMap_filter]
  refine List.filterMap_congr fun r _ => ?_
  rw [FormattedDestination.lineOf, FormattedDestination.write, hdef]
  rfl

/-- Default lines of readable records are read back. -/
theorem readFile_accepted {formatted : FormattedDestination} {recs : List Record}
    (hdef : formatted.formatter = Formatter.Default) (hrecs : ∀ r ∈ recs, r.Readable) :
    readFile (lines (recs.filterMap formatted.lineOf)) =
      some (recs.filter fun r => formatted.filter r.level) := by
  rw [filterMap_lineOf recs hdef]
  exact (readFile_iff _ _).mpr ⟨fun r hr => hrecs r (List.mem_of_mem_filter hr), rfl⟩

/-- PROGRAMS: threads run programs of statements without manipulators, in any interleaving, while a
    file destination is registered and no file operation fails. Then the files hold exactly what
    the strategy keeps of the lines of one merge of the programs, each statement with its meaning,
    and of what log-once statements wrote; and without rotation, default lines of readable records
    are read back as the records of that merge which the filter lets through. -/
theorem programs_read_back (hasher : Str → H) (g : Settings) (host : Host)
    (es : List (SysEv T D)) (sys : System T D H) (prog : T → Program) (o : D) (path : Str)
    (rot : RotationStrategy) (formatted : FormattedDestination) (sink : Sink)
    (hok : Guarded (step hasher) (Lawful (· = Faults.none) Outputs.Fits) (init g.verbosity host) es)
    (hrun : run (step hasher) (init g.verbosity host) es = some sys)
    (hobj : sys.outputs.objects o = some (.file path rot formatted, sink))
    (hsession : Shared.Session (fun t => (prog t).delivered g) o (es.filterMap SysEv.event)
      sys.shared)
    (hprog : ∀ t, ∀ x ∈ prog t, keepFormat x.2.ops = true) :
    ∃ (recs : T → List Record) (all : List Record),
      (∀ t, (recs t).map Record.said = (prog t).meaning g) ∧
      Merge (fun k : Option T =>
        (k.elim ((es.filterMap SysEv.event).filterMap Ev.onceOf) recs).map ([·])) all ∧
      HoldsExactly path host.disk sys.outputs.host.disk (all.filterMap formatted.lineOf) rot ∧
      (rot = .null → formatted.formatter = Formatter.Default → (∀ r ∈ all, r.Readable) →
        (sys.outputs.host.disk.read path).bind readFile =
          some (all.filter fun r => formatted.filter r.level)) := by
  obtain ⟨recs, hsaid, hmerge⟩ := Shared.records_of_session (run_shared hrun) hsession
  have hholds : HoldsExactly path host.disk sys.outputs.host.disk
      ((sys.shared.records o).filterMap formatted.lineOf) rot :=
    holdsExactly_of_explained (explained_run (undisturbed host.disk) hok hrun) hobj
  refine ⟨recs, sys.shared.records o, fun t => ?_, hmerge, hholds, ?_⟩
  · exact (hsaid t).trans (Program.delivered_eq (hprog t))
  · rintro rfl hdef hread
    rw [hholds, Option.bind_some]
    exact readFile_accepted hdef hread

/-- A thread says one thing with its line, the other one thing and a trace that is gated. -/
def twoPrograms : Bool → Program
  | false => [({ lineNumbers := some ("m.cpp".toList, 3) },
      { level := .ErrorLevel, ops := [.value (.cstring ['x'])] })]
  | true => [({}, { level := .InfoLevel, ops := [.value (.int .int 7)] }),
      ({}, { level := .TraceLevel, ops := [.value (.cstring ['y'])] })]

/-- They run while the first of them has registered a log. -/
def twoProgramSteps : List (Faults × Ev Bool Unit) :=
  [.call false (.addDestination ['a'] (some ()) true), .check false ['a'] (),
    .call true (.log .InfoLevel "7 ".toList []), .push false ['a'] (), .ret false (some true),
    .call false (.log .ErrorLevel "m.cpp@3: x ".toList []),
    .write false ⟨"m.cpp@3: x ".toList, .ErrorLevel, ⟨[], noon⟩⟩,
    .write true ⟨"7 ".toList, .InfoLevel, ⟨[], noon⟩⟩].map (Faults.none, ·)

def twoProgramRun : List (SysEv Bool Unit) :=
  .make Faults.none () (makeFileDestination "log".toList) ::
    twoProgramSteps.map fun st => .thread st.1 st.2

theorem exists_run_twoProgramRun : ∃ (sys : System Bool Unit UInt64) (sink : Sink),
    run (step fnv1a) (init 0 {}) twoProgramRun = some sys ∧
      sys.outputs.objects () = some (makeFileDestination "log".toList, sink) ∧
      (sys.shared.pc false).waiting = [] ∧ (sys.shared.pc true).waiting = [] :=
  ⟨_, _, rfl, rfl, rfl, rfl⟩

theorem programs_read_back_two :
    ∃ (sys : System Bool Unit UInt64) (recs : Bool → List Record) (all : List Record),
      run (step fnv1a) (init 0 {}) twoProgramRun = some sys ∧
      (∀ t, (recs t).map Record.said = (twoPrograms t).meaning {}) ∧
      Merge (fun k : Option Bool => (k.elim [] recs).map ([·])) all ∧
      sys.outputs.host.disk.read "log".toList = some (lines (all.filterMap
        (FormattedDestination.lineOf {}))) := by
  obtain ⟨sys, sink, hrun, hobj, hfalse, htrue⟩ := exists_run_twoProgramRun
  have hok : Guarded (step fnv1a) (Lawful (· = Faults.none) Outputs.Fits)
      (init 0 {} : System Bool Unit UInt64) twoProgramRun := by
    refine ⟨⟨rfl, ?_⟩, fun m _ => guarded_threads _ ?_ m⟩
    · rintro _ _ _ ⟨⟩ _ _ _ _ _ _ ⟨_, _, _, ⟨⟩⟩
    · rintro st hst
      obtain ⟨e, -, rfl⟩ := List.mem_map.mp hst
      rfl
  have hsession : Shared.Session (fun t => (twoPrograms t).delivered {}) ()
      (twoProgramRun.filterMap SysEv.event) sys.shared := by
    refine ⟨⟨(twoProgramRun.filterMap SysEv.event).take 3, false, ['a'],
      (twoProgramRun.filterMap SysEv.event).drop 4, rfl, rfl, by decide⟩, by decide, ?_⟩
    rintro (_ | _)
    · exact hfalse
    · exact htrue
  obtain ⟨recs, all, hmeaning, hmerge, hholds, -⟩ := programs_read_back fnv1a {} {}
    twoProgramRun sys twoPrograms () "log".toList .null {} sink hok hrun hobj hsession (by decide)
  exact ⟨sys, recs, all, hrun, hmeaning, hmerge, hholds⟩

end System

end GtLogging
