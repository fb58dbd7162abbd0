import GtLogging.Registry
import GtLogging.Lib.OrderedMap

/-! @src src/gt_logging.cpp | layer:model,refinement,result | the registry as an ordered map

    The calls of one thread on the registry of a logger, with the checks they make and the messages
    they print. `Represents` relates the vector of entries to an insertion-ordered map from
    non-empty ids to destination objects; every call answers as the map does, and whatever it
    refuses leaves the vector alone. -/

namespace GtLogging

/-! ### The calls -/

/-- The registry of a logger, and what was printed to `std::cerr`. -/
structure LoggerRegistry (D : Type*) where
  destinations : List (DestinationEntry D) := []
  cerr : Str := []

namespace LoggerRegistry

variable {D : Type*} (isValid : D → Bool)

def warn (msg : Str) (r : LoggerRegistry D) : LoggerRegistry D := { r with cerr := r.cerr ++ msg }

/-- `none` is a null pointer. -/
def addDestination (id : Str) (destination : Option D) (r : LoggerRegistry D) :
    Bool × LoggerRegistry D :=
  match destination with
  | none => (false, r.warn "GtLogging: Invalid destination!\n".toList)
  | some ptr =>
    if !isValid ptr then (false, r.warn "GtLogging: Invalid destination!\n".toList)
    else if id = [] then (false, r.warn "GtLogging: Invalid destination id!\n".toList)
    else if Registry.hasDestination r.destinations id then
      (false, r.warn
        ("GtLogging: A destination named '".toList ++ id ++ "' already exists!\n".toList))
    else (true, { r with destinations := r.destinations ++ [⟨id, ptr⟩] })

def removeDestination (id : Str) (r : LoggerRegistry D) : Bool × LoggerRegistry D :=
  if id = [] then (false, r)
  else
    ((Registry.eraseId id r.destinations).1,
      { r with destinations := (Registry.eraseId id r.destinations).2 })

def hasDestination (id : Str) (r : LoggerRegistry D) : Bool :=
  Registry.hasDestination r.destinations id

/-- A null pointer where no entry has the id. -/
def destination (id : Str) (r : LoggerRegistry D) : Option D :=
  (r.destinations.find? (·.id = id)).map (·.ptr)

def destinationIds (r : LoggerRegistry D) : List Str := r.destinations.map (·.id)

end LoggerRegistry

inductive RegistryOp (D : Type*) where
  | addDestination (id : Str) (ptr : Option D)
  | removeDestination (id : Str)
  | hasDestination (id : Str)
  | destination (id : Str)
  | destinationIds

/-- What a call returns. -/
inductive Reply (D : Type*) where
  | bool (b : Bool)
  | ptr (o : Option D)
  | ids (l : List Str)
  deriving DecidableEq

/-- A non-empty id. -/
abbrev NonEmptyId := { id : Str // id ≠ [] }

def toKey (id : Str) : Option NonEmptyId := if h : id ≠ [] then some ⟨id, h⟩ else none

theorem toKey_eq_some {id : Str} (h : id ≠ []) : toKey id = some ⟨id, h⟩ := dif_pos h

namespace RegistryOp

variable {D : Type*} (isValid : D → Bool)

def exec : RegistryOp D → LoggerRegistry D → Reply D × LoggerRegistry D
  | addDestination id ptr, r =>
    (.bool (r.addDestination isValid id ptr).1, (r.addDestination isValid id ptr).2)
  | removeDestination id, r => (.bool (r.removeDestination id).1, (r.removeDestination id).2)
  | hasDestination id, r => (.bool (r.hasDestination id), r)
  | destination id, r => (.ptr (r.destination id), r)
  | destinationIds, r => (.ids r.destinationIds, r)

/-- ABSTRACT: the same calls on an ordered map. -/
def spec : RegistryOp D → OrderedMap NonEmptyId D → Reply D × OrderedMap NonEmptyId D
  | addDestination id ptr, m =>
    match toKey id, ptr.filter isValid with
    | some k, some o => (.bool (k ∉ m.keys), m.insertNew k o)
    | _, _ => (.bool false, m)
  | removeDestination id, m =>
    match toKey id with
    | some k => (.bool (k ∈ m.keys), m.erase k)
    | none => (.bool false, m)
  | hasDestination id, m => (.bool (((toKey id).bind m.lookup).isSome), m)
  | destination id, m => (.ptr ((toKey id).bind m.lookup), m)
  | destinationIds, m => (.ids (m.keys.map Subtype.val), m)

/-- The replies of a sequence of calls, and the state afterwards. -/
def run {σ : Type*} (step : RegistryOp D → σ → Reply D × σ) :
    List (RegistryOp D) → σ → List (Reply D) × σ
  | [], s => ([], s)
  | op :: ops, s =>
    ((step op s).1 :: (run step ops (step op s).2).1, (run step ops (step op s).2).2)

end RegistryOp

/-! ### The representation -/

/-- SIMULATION: the vector lists the entries of the map in order. -/
def Represents {D : Type*} (r : LoggerRegistry D) (m : OrderedMap NonEmptyId D) : Prop :=
  r.destinations = m.entries.map fun e => ⟨e.1.val, e.2⟩

section Refinement
variable {D : Type*} {isValid : D → Bool} {r : LoggerRegistry D} {m : OrderedMap NonEmptyId D}
open LoggerRegistry

/-- What stands in the vector under an id is what stands in the map under it. -/
theorem destination_eq (h : Represents r m) (id : Str) :
    r.destination id = (toKey id).bind m.lookup := by
  rw [LoggerRegistry.destination, h, List.find?_map, Option.map_map]
  by_cases hid : id = []
  · have hnone : m.entries.find? ((fun d : DestinationEntry D => decide (d.id = id)) ∘
        fun e => ⟨e.1.val, e.2⟩) = none := by
      rw [List.find?_eq_none]
      intro e _
      simpa [hid] using e.1.property
    rw [hnone, toKey, dif_neg (not_not.mpr hid)]
    rfl
  · have hfind : ((fun d : DestinationEntry D => decide (d.id = id)) ∘
        fun e => ⟨e.1.val, e.2⟩) = fun e : NonEmptyId × D => decide (e.1 = ⟨id, hid⟩) := by
      funext e
      simp [Subtype.ext_iff]
    rw [toKey_eq_some hid, Option.bind_some, OrderedMap.lookup, hfind]
    rfl

theorem hasDestination_eq (h : Represents r m) (id : Str) :
    r.hasDestination id = ((toKey id).bind m.lookup).isSome := by
  rw [← destination_eq h, LoggerRegistry.destination, Option.isSome_map, List.isSome_find?]
  rfl

theorem hasDestination_iff_mem (h : Represents r m) {id : Str} (hid : id ≠ []) :
    r.hasDestination id = true ↔ ⟨id, hid⟩ ∈ m.keys := by
  rw [hasDestination_eq h, toKey_eq_some hid, Option.bind_some, OrderedMap.isSome_lookup]

theorem destinationIds_eq (h : Represents r m) : r.destinationIds = m.keys.map Subtype.val := by
  rw [LoggerRegistry.destinationIds, h, OrderedMap.keys, List.map_map, List.map_map]
  rfl

/-- A registry that only printed a message. -/
theorem Represents.warn (h : Represents r m) (msg : Str) : Represents (r.warn msg) m := h

/-- A null or invalid destination is refused. -/
theorem addDestination_invalid {ptr : Option D} (hptr : ptr.filter isValid = none) (id : Str) :
    (r.addDestination isValid id ptr).1 = false ∧
      (r.addDestination isValid id ptr).2.destinations = r.destinations := by
  cases ptr with
  | none => exact ⟨rfl, rfl⟩
  | some o =>
    have hv : isValid o = false := by simpa using hptr
    rw [LoggerRegistry.addDestination, hv]
    exact ⟨rfl, rfl⟩

/-- `addDestination` refuses, or appends. -/
theorem addDestination_eq (isValid : D → Bool) (h : Represents r m) (id : Str) (ptr : Option D) :
    (r.addDestination isValid id ptr).1 =
      (match toKey id, ptr.filter isValid with
        | some k, some _ => decide (k ∉ m.keys)
        | _, _ => false) ∧
    Represents (r.addDestination isValid id ptr).2
      (match toKey id, ptr.filter isValid with
        | some k, some o => m.insertNew k o
        | _, _ => m) := by
  cases hptr : ptr.filter isValid with
  | none =>
    obtain ⟨hreply, hsame⟩ := addDestination_invalid (r := r) hptr id
    rw [hreply]
    cases toKey id with
    | none => exact ⟨rfl, hsame.trans h⟩
    | some k => exact ⟨rfl, hsame.trans h⟩
  | some o =>
    obtain ⟨rfl, hv⟩ := Option.filter_eq_some_iff.mp hptr
    rw [LoggerRegistry.addDestination, hv, if_neg (by decide)]
    by_cases hid : id = []
    · rw [if_pos hid, toKey, dif_neg (not_not.mpr hid)]
      exact ⟨rfl, h.warn _⟩
    · have hhas := hasDestination_iff_mem h hid
      rw [if_neg hid, toKey_eq_some hid]
      by_cases hmem : (⟨id, hid⟩ : NonEmptyId) ∈ m.keys
      · have hyes : Registry.hasDestination r.destinations id = true := hhas.mpr hmem
        rw [if_pos hyes]
        refine ⟨by simp [hmem], ?_⟩
        change Represents _ (m.insertNew _ o)
        rw [OrderedMap.insertNew_of_mem hmem]
        exact h.warn _
      · have hno : ¬ Registry.hasDestination r.destinations id = true :=
          fun hyes => hmem (hhas.mp hyes)
        rw [if_neg hno]
        refine ⟨by simp [hmem], ?_⟩
        rw [Represents, OrderedMap.entries_insertNew hmem, List.map_append, ← h]
        rfl

theorem removeDestination_eq (h : Represents r m) (id : Str) :
    (r.removeDestination id).1 =
      (match toKey id with
        | some k => decide (k ∈ m.keys)
        | none => false) ∧
    Represents (r.removeDestination id).2
      (match toKey id with
        | some k => m.erase k
        | none => m) := by
  by_cases hid : id = []
  · rw [LoggerRegistry.removeDestination, if_pos hid, toKey, dif_neg (not_not.mpr hid)]
    exact ⟨rfl, h⟩
  · rw [LoggerRegistry.removeDestination, if_neg hid, toKey_eq_some hid]
    have hhas := hasDestination_iff_mem h hid
    refine ⟨?_, ?_⟩
    · rw [Registry.eraseId, Registry.erase_fst]
      exact (Bool.eq_iff_iff.mpr (hhas.trans decide_eq_true_iff.symm))
    · have hfilter : (fun d : DestinationEntry D => !decide (d.id = id)) ∘
          (fun e : NonEmptyId × D => (⟨e.1.val, e.2⟩ : DestinationEntry D)) =
          fun e => decide (e.1 ≠ ⟨id, hid⟩) := by
        funext e
        simp [Subtype.ext_iff]
      rw [Represents, Registry.eraseId, Registry.erase_snd, h, List.filter_map, hfilter]
      rfl

/-- STEP: every call answers as the map does and keeps the representation. -/
theorem represents_exec (isValid : D → Bool) (h : Represents r m) (op : RegistryOp D) :
    (op.exec isValid r).1 = (op.spec isValid m).1 ∧
      Represents (op.exec isValid r).2 (op.spec isValid m).2 := by
  cases op with
  | addDestination id ptr =>
    obtain ⟨hreply, hrep⟩ := addDestination_eq isValid h id ptr
    rw [RegistryOp.exec, RegistryOp.spec, hreply]
    revert hrep
    cases toKey id with
    | none => exact fun hrep => ⟨rfl, hrep⟩
    | some k =>
      cases ptr.filter isValid with
      | none => exact fun hrep => ⟨rfl, hrep⟩
      | some o => exact fun hrep => ⟨rfl, hrep⟩
  | removeDestination id =>
    obtain ⟨hreply, hrep⟩ := removeDestination_eq h id
    rw [RegistryOp.exec, RegistryOp.spec, hreply]
    revert hrep
    cases toKey id with
    | none => exact fun hrep => ⟨rfl, hrep⟩
    | some k => exact fun hrep => ⟨rfl, hrep⟩
  | hasDestination id => exact ⟨congrArg Reply.bool (hasDestination_eq h id), h⟩
  | destination id => exact ⟨congrArg Reply.ptr (destination_eq h id), h⟩
  | destinationIds => exact ⟨congrArg Reply.ids (destinationIds_eq h), h⟩

/-- RUN: so does every sequence of calls. -/
theorem represents_run (isValid : D → Bool) (h : Represents r m) (ops : List (RegistryOp D)) :
    (RegistryOp.run (RegistryOp.exec isValid) ops r).1 =
      (RegistryOp.run (RegistryOp.spec isValid) ops m).1 ∧
    Represents (RegistryOp.run (RegistryOp.exec isValid) ops r).2
      (RegistryOp.run (RegistryOp.spec isValid) ops m).2 := by
  induction ops generalizing r m with
  | nil => exact ⟨rfl, h⟩
  | cons op ops ih =>
    obtain ⟨hreply, hrep⟩ := represents_exec isValid h op
    obtain ⟨hreplies, hreps⟩ := ih hrep
    rw [RegistryOp.run, RegistryOp.run, hreply]
    exact ⟨congrArg _ hreplies, hreps⟩

/-- A call that returns false changes nothing in the map. -/
theorem spec_refused {op : RegistryOp D} (h : (op.spec isValid m).1 = .bool false) :
    (op.spec isValid m).2 = m := by
  cases op with
  | addDestination id ptr =>
    rw [RegistryOp.spec] at h ⊢
    cases hk : toKey id with
    | none => rfl
    | some k =>
      cases hp : ptr.filter isValid with
      | none => rfl
      | some o =>
        simp only [hk, hp, Reply.bool.injEq, decide_eq_false_iff_not, not_not] at h
        exact OrderedMap.insertNew_of_mem h o
  | removeDestination id =>
    rw [RegistryOp.spec] at h ⊢
    cases hk : toKey id with
    | none => rfl
    | some k =>
      simp only [hk, Reply.bool.injEq, decide_eq_false_iff_not] at h
      exact OrderedMap.erase_of_not_mem h
  | _ => rfl

/-- What holds of the registry after any sequence of calls, as an ordered map has it. -/
structure OrderedRegistry (isValid : D → Bool) (r : LoggerRegistry D) : Prop where
  refused : ∀ op : RegistryOp D, (op.exec isValid r).1 = .bool false →
    (op.exec isValid r).2.destinations = r.destinations
  present : ∀ id, r.hasDestination id = true ↔ (r.destination id).isSome = true
  found : ∀ id o, r.destination id = some o ↔ ⟨id, o⟩ ∈ r.destinations
  nodup : r.destinationIds.Nodup
  nonEmpty : ∀ id ∈ r.destinationIds, id ≠ []

theorem orderedRegistry_of_represents (h : Represents r m) : OrderedRegistry isValid r := by
  refine ⟨fun op hop => ?_, fun id => ?_, fun id o => ?_, ?_, ?_⟩
  · obtain ⟨hreply, hrep⟩ := represents_exec isValid h op
    have hspec := spec_refused (hreply.symm.trans hop)
    rw [hspec] at hrep
    exact hrep.trans h.symm
  · rw [hasDestination_eq h, destination_eq h]
  · rw [destination_eq h, h, List.mem_map]
    by_cases hid : id = []
    · rw [toKey, dif_neg (not_not.mpr hid), Option.bind_none]
      refine ⟨fun hn => (by cases hn), ?_⟩
      rintro ⟨e, -, he⟩
      exact absurd ((congrArg DestinationEntry.id he).trans hid) e.1.property
    · rw [toKey_eq_some hid, Option.bind_some, OrderedMap.lookup_eq_some_iff]
      refine ⟨fun hmem => ⟨_, hmem, rfl⟩, ?_⟩
      rintro ⟨⟨k, o'⟩, hmem, he⟩
      obtain ⟨rfl, rfl⟩ := DestinationEntry.mk.inj he
      exact hmem
  · rw [destinationIds_eq h]
    exact m.nodup_keys.map Subtype.val_injective
  · rw [destinationIds_eq h]
    intro id hid
    obtain ⟨k, -, rfl⟩ := List.mem_map.mp hid
    exact k.property

/-- REFINEMENT: over any sequence of calls the registry answers exactly as an insertion-ordered map
    from non-empty ids to destinations, keeps its entries in order, and leaves the registry alone
    whenever it returns false. -/
theorem registry_refines_ordered_map (isValid : D → Bool) (ops : List (RegistryOp D)) :
    (RegistryOp.run (RegistryOp.exec isValid) ops {}).1 =
      (RegistryOp.run (RegistryOp.spec isValid) ops OrderedMap.empty).1 ∧
    Represents (RegistryOp.run (RegistryOp.exec isValid) ops {}).2
      (RegistryOp.run (RegistryOp.spec isValid) ops OrderedMap.empty).2 ∧
    OrderedRegistry isValid (RegistryOp.run (RegistryOp.exec isValid) ops {}).2 := by
  have h₀ : Represents ({} : LoggerRegistry D) OrderedMap.empty := rfl
  obtain ⟨hreplies, hrep⟩ := represents_run isValid h₀ ops
  exact ⟨hreplies, hrep, orderedRegistry_of_represents hrep⟩

end Refinement

end GtLogging
