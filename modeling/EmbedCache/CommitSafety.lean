import EmbedCache.CommitProtocol

/-! Lookups read complete rows of their own key, whatever the interleaving. -/

namespace EmbedCache

open Lib Function Option List

variable {w : Nat} {C : Type*} {streams : Nat}

/-- A lookup of an existing table, of keys no empty slot is taken for, that reads no more bytes
than a row has. -/
structure Lookup.Within (cfg : CacheConfig w C) (lookup : Lookup w) : Prop where
  table : lookup.tableIndex < cfg.numTables
  bytes : lookup.bytes cfg ≤ cfg.embedWidthInBytes
  real : ∀ key ∈ lookup.keys, RealKey cfg key

section Within

variable [LinearOrder C] [Zero C] [Add C] [Mul C]

/-- A call on an existing table with distinct keys no empty slot is taken for; on the device its
kernels stay in range. -/
structure CommitRequest.Within (cfg : CacheConfig w C) (kind : CacheClass) (tags : Tags w)
    (request : CommitRequest w C) : Prop where
  table : request.table < cfg.numTables
  nodup : request.call.keys.Nodup
  real : ∀ key ∈ request.call.keys, RealKey cfg key
  inRange : kind = .deviceModify → request.call.InRange cfg request.table tags
  whole : request.call.rows.Whole cfg.embedWidthInBytes

def Event.Within (cfg : CacheConfig w C) (kind : CacheClass) (m : Machine streams w C) :
    Event streams w C → Prop
  | .lookup _ _ flow | .startCustomFlow _ _ flow => Lookup.Within cfg flow
  | .call request => request.Within cfg kind m.cache.tags
  | _ => True

structure Machine.StepWithin (cfg : CacheConfig w C) (kind : CacheClass)
    (arithmetic : RowArithmetic)
    (m : Machine streams w C) (event : Event streams w C) (next : Machine streams w C) : Prop where
  within : event.Within cfg kind m
  taken : m.Step cfg kind arithmetic event next

end Within

namespace CacheContents

variable (cfg : CacheConfig w C) (arithmetic : RowArithmetic) (cache : CacheContents w C)

def Contains (i : Nat) (key : BitVec w) (row : Nat → UInt8) : Prop :=
  cache.installed i = some (key, row) ∧
    ∀ offset < cfg.embedWidthInBytes, cache.memory (i * cfg.embedWidthInBytes + offset) = row offset

def Stored : Prop :=
  ∀ i, cache.tags i ≠ cfg.sentinelKey → ∃ key row, cache.Contains cfg i key row ∧ RealKey cfg key ∧
    hashSetIdx key cfg.numSets = i / numWays % cfg.numSets ∧
      cache.tags i = constructTag key cfg.numSets

/-- A job on its way through the protocol, which started from the tags `before`. -/
structure Underway (slots : Set Nat) (job : ModifyJob w C) (before : Tags w) : Prop where
  active : cache.job = some job
  named : slots = job.slots cfg
  table : job.table < cfg.numTables
  sound : job.Sound cfg arithmetic before
  others : ∀ i, i ∉ slots → cache.tags i = before i
  mirror : cache.mirror = job.tags

def InPhase : Phase (Fin streams) Nat → Prop
  | .idle => cache.mirror = cache.tags
  | .concealing slots | .hidden slots | .recording slots _ | .waiting slots _ =>
    ∃ job before, cache.Underway cfg arithmetic slots job before
  | .writing slots => ∃ job before, cache.Underway cfg arithmetic slots job before ∧
      ∀ a, ¬ job.Stores cfg a → cache.memory a = cache.source a
  | .written slots => ∃ job before, cache.Underway cfg arithmetic slots job before ∧
      ∀ entry ∈ job.entries, ∃ key row, job.Places cfg arithmetic entry key ∧
        cache.Contains cfg (entry.slot (tableBase cfg job.table)) key row

variable {cfg arithmetic cache}

theorem Stored.owned (stored : cache.Stored cfg) : Owned cfg cache.tags := by
  intro i used
  rcases stored i used with ⟨key, row, _, real, set, tag⟩
  exact ⟨key, real, set, tag⟩

theorem Stored.shrink (stored : cache.Stored cfg) {after : CacheContents w C}
    (tags : ∀ i, after.tags i = cfg.sentinelKey ∨ after.tags i = cache.tags i)
    (rows : ∀ i, cache.tags i ≠ cfg.sentinelKey → after.installed i = cache.installed i ∧
      ∀ offset < cfg.embedWidthInBytes,
        after.memory (i * cfg.embedWidthInBytes + offset) =
          cache.memory (i * cfg.embedWidthInBytes + offset)) :
    after.Stored cfg := by
  intro i used
  rcases tags i with empty | same
  · exact absurd empty used
  · have before : cache.tags i ≠ cfg.sentinelKey := same ▸ used
    rcases stored i before with ⟨key, row, ⟨owner, bytes⟩, real, set, tag⟩
    rcases rows i before with ⟨installed, memory⟩
    refine ⟨key, row, ⟨installed.trans owner, fun offset bound => ?_⟩, real, set, same.trans tag⟩
    rw [memory offset bound, bytes offset bound]

variable {job : ModifyJob w C} {slots : Set Nat}

/-- While a sound job writes, rows of other slots are what they were. -/
theorem Underway.row_frame {before : Tags w}
    (underway : cache.Underway cfg arithmetic slots job before)
    (sized : Sized cfg job.table)
    (unchanged : ∀ a, ¬ job.Stores cfg a → cache.memory a = cache.source a)
    {i offset : Nat} (free : i ∉ slots) (bound : offset < cfg.embedWidthInBytes) :
    job.write cfg arithmetic cache.source (i * cfg.embedWidthInBytes + offset) =
      cache.memory (i * cfg.embedWidthInBytes + offset) := by
  have apart := underway.sound.not_stores sized (underway.named ▸ free) bound
  rw [underway.sound.write_frame sized _ _ apart, unchanged _ apart]

theorem install_other {i : Nat} (free : i ∉ job.slots cfg) :
    cache.install cfg job i = cache.installed i := by
  have missing :
      (job.entries.find? fun entry => entry.slot (tableBase cfg job.table) = i) = none := by
    rw [find?_eq_none]
    intro entry member same
    exact free ⟨entry, member, by simpa using same⟩
  rw [install, missing]

theorem install_named {tags : Tags w} (sized : Sized cfg job.table)
    (sound : job.Sound cfg arithmetic tags) {entry : ModifyEntry w} (member : entry ∈ job.entries)
    {key : BitVec w}
    (places : job.Places cfg arithmetic entry key) :
    cache.install cfg job (entry.slot (tableBase cfg job.table)) = some (key, job.given key
      (rowBytes cache.source (entry.slot (tableBase cfg job.table) * cfg.embedWidthInBytes)
        cfg.embedWidthInBytes)) := by
  have found : (job.entries.find? fun other =>
      other.slot (tableBase cfg job.table) = entry.slot (tableBase cfg job.table)) =
        some entry := by
    cases search : job.entries.find? fun other =>
        other.slot (tableBase cfg job.table) = entry.slot (tableBase cfg job.table) with
    | none =>
      have absent := find?_eq_none.mp search entry member
      simp at absent
    | some other =>
      have same := find?_some search
      rw [entry_eq_of_slot sound.nodup (mem_of_find?_eq_some search) member (by simpa using same)]
  rw [install, found]
  simp only [places.key_eq sized]

end CacheContents

variable {action : Action (Fin streams) Nat Nat}

/-- Silent steps take the operation at most from hidden tags to waiting for the events. -/
theorem IsSilent.phase {core after : Core (Fin streams) Nat Nat} (quiet : IsSilent action)
    (taken : core.Step action after) (P : Phase (Fin streams) Nat → Prop)
    (locked : ∀ slots event, P (.hidden slots) → P (.recording slots event))
    (marked : ∀ slots event later, P (.recording slots event) → P (.recording slots later))
    (waiting : ∀ slots event later, P (.recording slots event) → P (.waiting slots later))
    (holds : P core.phase) :
    P after.phase := by
  cases quiet with
  | enqueue | endCustomFlow | complete | unlock =>
    cases taken
    exact holds
  | lock =>
    cases taken with
    | lock slots here free closed => exact locked slots _ (here ▸ holds)
  | record =>
    cases taken with
    | record slots event s here => exact marked slots event _ (here ▸ holds)
  | recorded =>
    cases taken with
    | recorded slots event here => exact waiting slots _ event (here ▸ holds)

namespace Machine

structure Reading (cfg : CacheConfig w C) (memory : Memory) (completed : Fin streams → Nat)
    (reader : Reader (Fin streams) Nat) (snapshot : Snapshot w) : Prop where
  held : snapshot.slot ∈ reader.holds
  address : snapshot.address = snapshot.slot * cfg.embedWidthInBytes
  kept : ¬ reader.Finished completed → ∃ row, snapshot.owner = some (snapshot.key, row) ∧
    ∀ offset < cfg.embedWidthInBytes,
      memory (snapshot.slot * cfg.embedWidthInBytes + offset) = row offset

structure Consistent (cfg : CacheConfig w C) (kind : CacheClass)
    (arithmetic : RowArithmetic) [LE C] [Zero C]
    (m : Machine streams w C) : Prop where
  safe : m.core.Safe {i | m.cache.tags i ≠ cfg.sentinelKey}
  stored : m.cache.Stored cfg
  inPhase : m.cache.InPhase cfg arithmetic m.core.phase
  counters : kind = .deviceModify → ∀ i, 0 ≤ m.cache.counters i
  lookups : ∀ r reader, m.core.readers r = some reader → (m.lookups r).Within cfg
  reading : ∀ r reader snapshot, m.core.readers r = some reader → snapshot ∈ m.matched r →
    Reading cfg m.cache.memory m.core.completed reader snapshot

theorem init_consistent (cfg : CacheConfig w C) (kind : CacheClass)
    (arithmetic : RowArithmetic) [Preorder C] [Zero C]
    (memory : Memory) : (init cfg memory : Machine streams w C).Consistent cfg kind arithmetic where
  safe := Core.init_safe _
  stored := fun i used => absurd rfl used
  inPhase := rfl
  counters := fun _ _ => le_refl _
  lookups := fun r reader known => absurd known (by simp [init, Core.init])
  reading := fun r reader snapshot known => absurd known (by simp [init, Core.init])

section Preserved

variable {cfg : CacheConfig w C} {kind : CacheClass} {arithmetic : RowArithmetic}
  {m : Machine streams w C}
  [LE C] [Zero C] (before : m.Consistent cfg kind arithmetic) {core : Core (Fin streams) Nat Nat}

include before

/-- Readers keep what they read as long as the rows they hold stay. -/
theorem Consistent.reading_follows (follows : m.core.Follows core) {memory : Memory}
    (rows : ∀ r reader, m.core.readers r = some reader → ¬ reader.Finished m.core.completed →
      ∀ slot ∈ reader.holds, ∀ offset < cfg.embedWidthInBytes,
        memory (slot * cfg.embedWidthInBytes + offset) =
          m.cache.memory (slot * cfg.embedWidthInBytes + offset))
    (r : Nat) (reader : Reader (Fin streams) Nat) (snapshot : Snapshot w)
    (known : core.readers r = some reader) (member : snapshot ∈ m.matched r) :
    Reading cfg memory core.completed reader snapshot := by
  rcases follows r reader known with ⟨old, found, holds, ends⟩
  have reading := before.reading r old snapshot found member
  refine ⟨holds reading.held, reading.address, fun running => ?_⟩
  have unfinished := mt ends running
  rcases reading.kept unfinished with ⟨row, owner, bytes⟩
  refine ⟨row, owner, fun offset bound => ?_⟩
  rw [rows r old found unfinished snapshot.slot reading.held offset bound, bytes offset bound]

theorem Consistent.lookups_follow (follows : m.core.Follows core) (r : Nat)
    (reader : Reader (Fin streams) Nat)
    (known : core.readers r = some reader) : (m.lookups r).Within cfg := by
  rcases follows r reader known with ⟨old, found, _⟩
  exact before.lookups r old found

/-- A step of the operation: readers go on as before if the rows they hold stay. -/
theorem Consistent.operation {cache : CacheContents w C} (follows : m.core.Follows core)
    (safe : core.Safe {i | cache.tags i ≠ cfg.sentinelKey}) (stored : cache.Stored cfg)
    (inPhase : cache.InPhase cfg arithmetic core.phase)
    (counters : kind = .deviceModify → ∀ i, 0 ≤ cache.counters i)
    (rows : ∀ r reader, m.core.readers r = some reader → ¬ reader.Finished m.core.completed →
      ∀ slot ∈ reader.holds, ∀ offset < cfg.embedWidthInBytes,
        cache.memory (slot * cfg.embedWidthInBytes + offset) =
          m.cache.memory (slot * cfg.embedWidthInBytes + offset)) :
    Consistent cfg kind arithmetic { m with core := core, cache := cache } :=
  ⟨safe, stored, inPhase, counters, before.lookups_follow follows,
    before.reading_follows follows rows⟩

theorem start_consistent {r : Nat} {s : Fin streams} {flow : Lookup w}
    (starts : action = .launch r s ∨ action = .openFlow r s) (within : flow.Within cfg)
    (taken : m.core.Step action core) : Consistent cfg kind arithmetic (m.start r flow core) := by
  rcases taken.starts starts with ⟨completed, phase, others⟩
  refine ⟨?_, before.stored, ?_, before.counters, ?_, ?_⟩
  · apply before.safe.step taken
    · intro q x held
      rcases starts with launch | opened
      · exact absurd (launch.symm.trans held) (by simp)
      · exact absurd (opened.symm.trans held) (by simp)
    · rw [phase]
      exact before.safe.concealed
  · change m.cache.InPhase cfg arithmetic core.phase
    rw [phase]
    exact before.inPhase
  · intro q reader known
    change core.readers q = some reader at known
    by_cases here : q = r
    · rw [here]
      simp only [start, update_self]
      exact within
    · simp only [start, update_of_ne here]
      rw [others q here] at known
      exact before.lookups q reader known
  · intro q reader snapshot known member
    change core.readers q = some reader at known
    by_cases here : q = r
    · rw [here] at member
      simp only [start, update_self, not_mem_nil] at member
    · simp only [start, update_of_ne here] at member
      rw [others q here] at known
      have reading := before.reading q reader snapshot known member
      refine ⟨reading.held, reading.address, fun running => reading.kept ?_⟩
      rw [← completed]
      exact running

theorem silent_consistent (quiet : IsSilent action) (taken : m.core.Step action core) :
    Consistent cfg kind arithmetic { m with core := core } := by
  have follows : m.core.Follows core :=
    taken.follows (by cases quiet <;> simp) (by cases quiet <;> simp)
  refine before.operation follows ?_ before.stored ?_ before.counters fun _ _ _ _ _ _ _ _ => rfl
  · apply before.safe.step taken
    · intro r x held
      rw [held] at quiet
      cases quiet
    · exact quiet.phase taken (Phase.Conceals _) (fun _ _ => id) (fun _ _ _ => id) (fun _ _ _ => id)
        before.safe.concealed
  · exact quiet.phase taken (m.cache.InPhase cfg arithmetic) (fun _ _ => id) (fun _ _ _ => id)
      (fun _ _ _ => id)
      before.inPhase

variable {slots : Set Nat}

/-- The rows a running reader holds are out of reach of the row kernel. -/
theorem Consistent.held_free (writing : m.core.phase = .writing slots) {r : Nat}
    {reader : Reader (Fin streams) Nat} (known : m.core.readers r = some reader)
    (running : ¬ reader.Finished m.core.completed) {slot : Nat} (held : slot ∈ reader.holds) :
      slot ∉ slots :=
  fun member => running (before.safe.finished writing known held member)

/-- Tags in use are not among those being overwritten. -/
theorem Consistent.used_free (writing : m.core.phase = .writing slots) {i : Nat}
    (used : m.cache.tags i ≠ cfg.sentinelKey) : i ∉ slots := by
  have concealed := before.safe.concealed
  rw [writing] at concealed
  exact fun member => concealed i member used

theorem hideTag_consistent {i : Nat} (here : m.core.phase = .concealing slots)
    (member : i ∈ slots) :
    Consistent cfg kind arithmetic { m with
      cache := { m.cache with tags := update m.cache.tags i cfg.sentinelKey } } := by
  refine before.operation (Core.Follows.refl _) ?_ ?_ ?_ before.counters fun _ _ _ _ _ _ _ _ => rfl
  · apply before.safe.reshow
    rw [here]
    trivial
  · apply before.stored.shrink
    · intro j
      by_cases same : j = i
      · exact .inl (same ▸ update_self _ _ _)
      · exact .inr (update_of_ne same _ _)
    · exact fun _ _ => ⟨rfl, fun _ _ => rfl⟩
  · have holds := before.inPhase
    rw [here] at holds ⊢
    rcases holds with ⟨job, tags, underway⟩
    refine ⟨job, tags, underway.active, underway.named, underway.table, underway.sound, ?_,
      underway.mirror⟩
    intro j free
    have apart : j ≠ i := fun same => free (same ▸ member)
    exact (update_of_ne apart _ _).trans (underway.others j free)

theorem invalidated_consistent {job : ModifyJob w C} (active : m.cache.job = some job)
    (taken : m.core.Step .hide core) :
    Consistent cfg kind arithmetic { m with
      core := core
      cache := { m.cache with tags := job.conceal cfg m.cache.tags } } := by
  have follows : m.core.Follows core := taken.follows (by simp) (by simp)
  have holds := before.inPhase
  have steps := taken
  cases taken with
  | hide slots here =>
    rw [here] at holds
    rcases holds with ⟨other, tags, underway⟩
    obtain rfl : other = job := some.inj (underway.active.symm.trans active)
    have cleared := underway.sound.conceal_eq m.cache.tags
    refine before.operation follows ?_ ?_ ?_ before.counters fun _ _ _ _ _ _ _ _ => rfl
    · apply before.safe.step steps (by simp)
      intro i member
      rw [underway.named] at member
      rcases member with ⟨entry, listed, rfl⟩
      simp only [Set.mem_ofPred_eq, not_not, cleared]
      exact invalidateTagKernel_present _ _ _ _ entry listed
    · apply before.stored.shrink
      · intro i
        rw [cleared]
        exact invalidateTagKernel_shrinks _ _ _ _ i
      · exact fun _ _ => ⟨rfl, fun _ _ => rfl⟩
    · refine ⟨other, tags, underway.active, underway.named, underway.table, underway.sound, ?_,
        underway.mirror⟩
      intro i free
      refine Eq.trans ?_ (underway.others i free)
      simp only [cleared]
      apply invalidateTagKernel_absent
      intro entry listed same
      exact free (underway.named ▸ ⟨entry, listed, same⟩)

theorem startCopy_consistent (taken : m.core.Step .startWrite core) :
    Consistent cfg kind arithmetic { m with
      core := core
      cache := { m.cache with source := m.cache.memory } } := by
  have follows : m.core.Follows core := taken.follows (by simp) (by simp)
  have holds := before.inPhase
  have concealed := before.safe.concealed
  have steps := taken
  cases taken with
  | startWrite slots event here reached =>
    rw [here] at holds concealed
    rcases holds with ⟨job, tags, underway⟩
    refine before.operation follows (before.safe.step steps (by simp) concealed) ?_ ?_
      before.counters
      fun _ _ _ _ _ _ _ _ => rfl
    · exact before.stored.shrink (fun _ => .inr rfl) fun _ _ => ⟨rfl, fun _ _ => rfl⟩
    · exact ⟨job, tags,
        ⟨underway.active, underway.named, underway.table, underway.sound, underway.others,
        underway.mirror⟩, fun _ _ => rfl⟩

section Rows

variable (sized : ∀ table < cfg.numTables, Sized cfg table)

include sized

variable {job : ModifyJob w C}

theorem store_consistent {a : Nat} {value : UInt8} (active : m.cache.job = some job)
    (here : m.core.phase = .writing slots) (reached : job.Stores cfg a) :
    Consistent cfg kind arithmetic { m with
      cache := { m.cache with memory := update m.cache.memory a value } } := by
  have holds := before.inPhase
  rw [here] at holds
  rcases holds with ⟨other, tags, underway, unchanged⟩
  obtain rfl : other = job := some.inj (underway.active.symm.trans active)
  have rows : ∀ i, i ∉ slots → ∀ offset < cfg.embedWidthInBytes,
      update m.cache.memory a value (i * cfg.embedWidthInBytes + offset) =
        m.cache.memory (i * cfg.embedWidthInBytes + offset) := by
    intro i free offset bound
    have apart := underway.sound.not_stores (sized _ underway.table) (underway.named ▸ free) bound
    apply update_of_ne
    intro same
    rw [same] at apart
    exact apart reached
  refine before.operation (Core.Follows.refl _) (before.safe.reshow before.safe.concealed) ?_ ?_
    before.counters ?_
  · apply before.stored.shrink
    · exact fun _ => .inr rfl
    · exact fun i used => ⟨rfl, rows i (before.used_free here used)⟩
  · rw [here]
    refine ⟨other, tags,
      ⟨underway.active, underway.named, underway.table, underway.sound, underway.others,
      underway.mirror⟩, fun b outside => ?_⟩
    have apart : b ≠ a := fun same => outside (same ▸ reached)
    exact (update_of_ne apart _ _).trans (unchanged b outside)
  · exact fun r reader known running slot held =>
      rows slot (before.held_free here known running held)

theorem copied_consistent (active : m.cache.job = some job)
    (taken : m.core.Step .endWrite core) :
    Consistent cfg kind arithmetic { m with
      core := core
      cache := { m.cache with
        memory := job.write cfg arithmetic m.cache.source
        installed := m.cache.install cfg job } } := by
  have follows : m.core.Follows core := taken.follows (by simp) (by simp)
  have holds := before.inPhase
  have steps := taken
  cases taken with
  | endWrite slots here =>
    rw [here] at holds
    rcases holds with ⟨other, tags, underway, unchanged⟩
    obtain rfl : other = job := some.inj (underway.active.symm.trans active)
    have size := sized _ underway.table
    refine before.operation follows (before.safe.step steps (by simp) trivial) ?_ ?_
      before.counters ?_
    · apply before.stored.shrink
      · exact fun _ => .inr rfl
      · intro i used
        have free := before.used_free here used
        exact ⟨CacheContents.install_other (underway.named ▸ free),
          fun offset bound => underway.row_frame size unchanged free bound⟩
    · refine ⟨other, tags,
        ⟨underway.active, underway.named, underway.table, underway.sound, underway.others,
        underway.mirror⟩, fun entry member => ?_⟩
      rcases underway.sound.placed entry member with ⟨key, places⟩
      exact ⟨key, _, places, CacheContents.install_named size underway.sound member places,
        fun offset bound => underway.sound.write_row size _ member places offset bound⟩
    · intro r reader known running slot held offset bound
      exact underway.row_frame size unchanged (before.held_free here known running held) bound

variable {key : BitVec w}

omit [LE C] [Zero C] before in
theorem stored_of_placed (table : job.table < cfg.numTables) {cache : CacheContents w C}
    {entry : ModifyEntry w} {row : Nat → UInt8} (places : job.Places cfg arithmetic entry key)
    (contains : cache.Contains cfg (entry.slot (tableBase cfg job.table)) key row)
    (tag : cache.tags (entry.slot (tableBase cfg job.table)) = entry.tag) :
    ∃ key row, cache.Contains cfg (entry.slot (tableBase cfg job.table)) key row ∧ RealKey cfg key ∧
      hashSetIdx key cfg.numSets = entry.slot (tableBase cfg job.table) / numWays % cfg.numSets ∧
      cache.tags (entry.slot (tableBase cfg job.table)) = constructTag key cfg.numSets :=
  ⟨key, row, contains, places.real, places.slot_set (sized _ table), tag.trans places.tag⟩

theorem publishTag_consistent {entry : ModifyEntry w} (active : m.cache.job = some job)
    (here : m.core.phase = .written slots) (member : entry ∈ job.entries) :
    Consistent cfg kind arithmetic { m with
      cache := { m.cache with
        tags := update m.cache.tags (entry.slot (tableBase cfg job.table)) entry.tag } } := by
  have holds := before.inPhase
  rw [here] at holds
  rcases holds with ⟨other, tags, underway, written⟩
  obtain rfl : other = job := some.inj (underway.active.symm.trans active)
  refine before.operation (Core.Follows.refl _) ?_ ?_ ?_ before.counters fun _ _ _ _ _ _ _ _ => rfl
  · apply before.safe.reshow
    rw [here]
    trivial
  · intro i used
    by_cases same : i = entry.slot (tableBase cfg other.table)
    · rcases written entry member with ⟨key, row, places, contains⟩
      subst same
      exact stored_of_placed sized underway.table places contains (update_self _ _ _)
    · have kept : update m.cache.tags (entry.slot (tableBase cfg other.table)) entry.tag i =
          m.cache.tags i := update_of_ne same _ _
      change update _ _ _ _ ≠ _ at used
      rw [kept] at used
      rcases before.stored i used with ⟨key, row, contains, real, set, tag⟩
      exact ⟨key, row, contains, real, set, kept.trans tag⟩
  · rw [here]
    refine ⟨other, tags,
      ⟨underway.active, underway.named, underway.table, underway.sound, ?_, underway.mirror⟩,
      written⟩
    intro i free
    have apart : i ≠ entry.slot (tableBase cfg other.table) := by
      intro same
      exact free (underway.named ▸ ⟨entry, member, same.symm⟩)
    exact (update_of_ne apart _ _).trans (underway.others i free)

theorem published_consistent (active : m.cache.job = some job)
    (taken : m.core.Step .publish core) :
    Consistent cfg kind arithmetic { m with
      core := core
      cache := { m.cache with tags := job.publish cfg m.cache.tags, job := none } } := by
  have follows : m.core.Follows core := taken.follows (by simp) (by simp)
  have holds := before.inPhase
  have steps := taken
  cases taken with
  | publish slots here =>
    rw [here] at holds
    rcases holds with ⟨other, tags, underway, written⟩
    obtain rfl : other = job := some.inj (underway.active.symm.trans active)
    have published := underway.sound.publish_eq m.cache.tags
    refine before.operation follows (before.safe.step steps (by simp) trivial) ?_ ?_ before.counters
      fun _ _ _ _ _ _ _ _ => rfl
    · intro i used
      change other.publish cfg m.cache.tags i ≠ _ at used
      rcases tagUpdateKernel_cases other.entries (tableBase cfg other.table) m.cache.tags i with
        kept | ⟨entry, member, rfl, value⟩
      · rw [published, kept] at used
        rcases before.stored i used with ⟨key, row, contains, real, set, tag⟩
        exact ⟨key, row, contains, real, set, (published ▸ kept).trans tag⟩
      · rcases written entry member with ⟨key, row, places, contains⟩
        exact stored_of_placed sized underway.table places contains (published ▸ value)
    · change m.cache.mirror = other.publish cfg m.cache.tags
      rw [underway.mirror, underway.sound.tags, published]
      apply tagUpdateKernel_congr
      intro i absent
      refine (underway.others i ?_).symm
      rw [underway.named]
      exact fun ⟨entry, member, same⟩ => absent entry member same

omit [LE C] [Zero C] before in
/-- For a lookup of an existing table no slot computation wraps. -/
theorem tagSlot_eq {flow : Lookup w} (within : flow.Within cfg) (key : BitVec w) {way : Nat}
    (bound : way < numWays) :
    flow.tagSlot cfg key way = tableBase cfg flow.tableIndex + hashSetIdx key cfg.numSets *
      numWays + way ∧
      flow.rowAddress cfg key way = flow.tagSlot cfg key way * cfg.embedWidthInBytes := by
  have size := sized _ within.table
  have slot : flow.tagSlot cfg key way =
      tableBase cfg flow.tableIndex + hashSetIdx key cfg.numSets * numWays + way := by
    simp only [Lookup.tagSlot, size.wrap32_numSets, tableBase]
  refine ⟨slot, ?_⟩
  have small : wrap32 (flow.tagSlot cfg key way) = flow.tagSlot cfg key way := by
    apply wrap32_of_lt
    rw [slot]
    exact size.index_lt (CacheSlot.ofKey size key ⟨way, bound⟩)
  unfold Lookup.rowAddress
  split
  · rfl
  · rw [small]

theorem Consistent.matched_owner {r : Nat} {reader : Reader (Fin streams) Nat}
    (known : m.core.readers r = some reader)
    (member : key ∈ (m.lookups r).keys) {way : Nat} (bound : way < numWays)
    (rebuilt : constructKey (m.cache.tags ((m.lookups r).tagSlot cfg key way))
      (hashSetIdx key (wrap32 cfg.numSets)) (wrap32 cfg.numSets) = key) :
    m.cache.tags ((m.lookups r).tagSlot cfg key way) ≠ cfg.sentinelKey ∧
      ∃ row, m.cache.Contains cfg ((m.lookups r).tagSlot cfg key way) key row := by
  have within := before.lookups r reader known
  have size := sized _ within.table
  rw [size.wrap32_numSets] at rebuilt
  have used : m.cache.tags ((m.lookups r).tagSlot cfg key way) ≠ cfg.sentinelKey := by
    intro empty
    rw [empty] at rebuilt
    exact within.real key member rebuilt
  refine ⟨used, ?_⟩
  rcases before.stored _ used with ⟨owner, row, contains, _, set, tag⟩
  rw [(tagSlot_eq sized within key bound).1, setOf_index _ _ (size.hash_lt key) bound] at set
  rw [rebuilt_owner size tag set rebuilt] at contains
  exact ⟨row, contains⟩

theorem matchTag_consistent {r : Nat} {way : Nat} (member : key ∈ (m.lookups r).keys)
    (bound : way < numWays)
    (rebuilt : constructKey (m.cache.tags ((m.lookups r).tagSlot cfg key way))
      (hashSetIdx key (wrap32 cfg.numSets)) (wrap32 cfg.numSets) = key)
    (taken : m.core.Step (.hold r ((m.lookups r).tagSlot cfg key way)) core) :
    Consistent cfg kind arithmetic { m with
      core := core
      matched := update m.matched r (m.snapshot cfg r key way :: m.matched r) } := by
  have follows : m.core.Follows core := taken.follows (by simp) (by simp)
  have steps := taken
  cases taken with
  | hold q x reader known running =>
    rcases before.matched_owner sized known member bound rebuilt with ⟨used, row, contains⟩
    refine ⟨?_, before.stored, before.inPhase, before.counters, before.lookups_follow follows, ?_⟩
    · apply before.safe.step steps
      · intro q x held
        cases held
        exact used
      · exact before.safe.concealed
    · intro q second snapshot found inside
      by_cases old : snapshot ∈ m.matched q
      · exact before.reading_follows follows (fun _ _ _ _ _ _ _ _ => rfl) q second
          snapshot found old
      · have here : q = r := by
          by_contra apart
          simp only [update_of_ne apart] at inside
          exact old inside
        subst here
        simp only [update_self] at found inside
        rcases mem_cons.mp inside with rfl | earlier
        · obtain rfl := some.inj found
          exact ⟨Set.mem_insert _ _, (tagSlot_eq sized (before.lookups _ _ known) key bound).2,
            fun _ => ⟨row, contains⟩⟩
        · exact absurd earlier old

end Rows

end Preserved

section Completes

variable [LinearOrder C] [Zero C] [Add C] [Mul C] {cfg : CacheConfig w C} {kind : CacheClass}
  {arithmetic : RowArithmetic}

def atPhase (m : Machine streams w C) (locked : Bool) (phase : Phase (Fin streams) Nat)
    (cache : CacheContents w C) :
    Machine streams w C :=
  { m with
    core := { m.core with
      locked := locked
      phase := phase }
    cache := cache }

theorem run_records (cfg : CacheConfig w C) (kind : CacheClass) (arithmetic : RowArithmetic)
    (m : Machine streams w C) (slots : Set Nat) (cache : CacheContents w C)
    (marked : List (Fin streams))
    (event : Fin streams → Option Nat) :
    Run (StepWithin cfg kind arithmetic) (m.atPhase true (.recording slots event) cache)
      (marked.map fun _ => Event.silent)
      (m.atPhase true (.recording slots fun s =>
        if s ∈ marked then some (m.core.enqueued s) else event s) cache) := by
  induction marked generalizing event with
  | nil => simpa using Run.done _
  | cons s rest ih =>
    have later := ih (update event s (some (m.core.enqueued s)))
    have same : (fun t => if t ∈ rest then some (m.core.enqueued t)
        else update event s (some (m.core.enqueued s)) t) =
        fun t => if t ∈ s :: rest then some (m.core.enqueued t) else event t := by
      funext t
      by_cases here : t = s
      · subst here
        simp
      · simp [here]
    rw [same] at later
    exact .step ⟨trivial, .silent _ _ (.record s) (.record slots event s rfl)⟩ later

def committed (cfg : CacheConfig w C) (arithmetic : RowArithmetic) (cache : CacheContents w C)
    (job : ModifyJob w C) :
    CacheContents w C where
  tags := job.publish cfg (job.conceal cfg cache.tags)
  mirror := job.tags
  counters := job.counters
  memory := job.write cfg arithmetic cache.memory
  installed := CacheContents.install cfg { cache with source := cache.memory } job
  job := none
  source := cache.memory

/-- An operation can run to its end when no flow is open and the streams are drained. -/
theorem run_call (m : Machine streams w C) (request : CommitRequest w C) (job : ModifyJob w C)
    (within : request.Within cfg kind m.cache.tags)
    (built : m.cache.build cfg kind arithmetic request = some job)
    (accepted : job.refusal = none) (idle : m.core.phase = .idle) (free : m.core.locked = false)
    (closed : ∀ r reader, m.core.readers r = some reader → reader.guarded = true →
      reader.isOpen = false)
    (drained : ∀ s, m.core.enqueued s ≤ m.core.completed s) :
    ∃ events, Run (StepWithin cfg kind arithmetic) m events
      { m with cache := committed cfg arithmetic m.cache job } := by
  rcases m with ⟨⟨enqueued, completed, readers, locked, phase⟩, cache, lookups, matched⟩
  simp only at idle free closed drained built within ⊢
  subst idle free
  let m : Machine streams w C :=
    ⟨⟨enqueued, completed, readers, false, .idle⟩, cache, lookups, matched⟩
  have records := run_records cfg kind arithmetic m (job.slots cfg)
    { m.cache with
      tags := job.conceal cfg m.cache.tags
      mirror := job.tags
      counters := job.counters
      job := some job } (finRange streams) fun _ => none
  simp only [mem_finRange, if_true] at records
  refine ⟨[.call request, .invalidated, .silent] ++ _ ++
    [.silent, .startCopy, .copied, .published, .silent],
    ((Run.append ?_ records).append ?_)⟩
  · refine .step ⟨within, .call request job _ built accepted (.begin _ rfl)⟩ ?_
    refine .step ⟨trivial, .invalidated job _ rfl (.hide _ rfl)⟩ ?_
    refine .step ⟨trivial, .silent _ _ .lock (.lock _ rfl rfl closed)⟩ ?_
    exact .done _
  · refine .step ⟨trivial, .silent _ _ .recorded (.recorded _ m.core.enqueued rfl)⟩ ?_
    refine .step ⟨trivial, .startCopy _ (.startWrite _ m.core.enqueued rfl drained)⟩ ?_
    refine .step ⟨trivial, .copied job _ rfl (.endWrite _ rfl)⟩ ?_
    refine .step ⟨trivial, .published job _ rfl (.publish _ rfl)⟩ ?_
    refine .step ⟨trivial, .silent _ _ .unlock (.unlock rfl (by simp))⟩ ?_
    exact .done _

end Completes

section Run

variable [LinearOrder C] [Zero C] [Add C] [Mul C] {cfg : CacheConfig w C} {kind : CacheClass}
  {arithmetic : RowArithmetic} (sized : ∀ table < cfg.numTables, Sized cfg table)
  (laws : SetWork.CounterLaws C) (decay : 0 ≤ cfg.decayRate)

include sized laws decay

theorem build_sound {m : Machine streams w C} (before : m.Consistent cfg kind arithmetic)
    {request : CommitRequest w C} {job : ModifyJob w C}
    (within : request.Within cfg kind m.cache.tags)
    (idle : m.core.phase = .idle) (built : m.cache.build cfg kind arithmetic request = some job) :
    job.Sound cfg arithmetic m.cache.tags ∧ job.table = request.table ∧
      (kind = .deviceModify → ∀ i, 0 ≤ job.counters i) := by
  have owned := before.stored.owned
  have size := sized _ within.table
  cases kind with
  | hostModify =>
    have holds := before.inPhase
    rw [idle] at holds
    have made := some.inj built
    rw [holds] at made
    subst made
    exact ⟨CacheSAHostModify.job_sound arithmetic request size _ _ within.nodup within.real owned
      within.whole, rfl,
      by simp⟩
  | deviceModify =>
    have sound :=
      CacheSADeviceModify.job_sound arithmetic request size m.cache.tags m.cache.counters
        within.nodup
      within.real laws decay (before.counters rfl) (within.inRange rfl) within.whole built
    rcases map_eq_some_iff.mp built with ⟨list, _, rfl⟩
    exact ⟨sound.1, rfl, fun _ => sound.2⟩

theorem step_consistent {m next : Machine streams w C} {event : Event streams w C}
    (step : m.StepWithin cfg kind arithmetic event next)
    (before : m.Consistent cfg kind arithmetic) :
    next.Consistent cfg kind arithmetic := by
  have within := step.within
  cases step.taken with
  | lookup r s flow core plain taken => exact start_consistent before (.inl rfl) within taken
  | startCustomFlow r s flow core guarded taken =>
    exact start_consistent before (.inr rfl) within taken
  | silent action core quiet taken => exact silent_consistent before quiet taken
  | matchTag r key way core member bound rebuilt taken =>
    exact matchTag_consistent before sized member bound rebuilt taken
  | call request job core built accepted taken =>
    have follows : m.core.Follows core := taken.follows (by simp) (by simp)
    have steps := taken
    cases taken with
    | begin slots idle =>
      rcases build_sound sized laws decay before within idle built with ⟨sound, table, counters⟩
      refine before.operation follows (before.safe.step steps (by simp) trivial) ?_ ?_ counters
        fun _ _ _ _ _ _ _ _ => rfl
      · exact before.stored.shrink (fun _ => .inr rfl) fun _ _ => ⟨rfl, fun _ _ => rfl⟩
      · exact ⟨job, m.cache.tags, rfl, rfl, table ▸ within.table, sound, fun _ _ => rfl, rfl⟩
  | nothingToDo request job host built empty idle =>
    rcases build_sound sized laws decay before within idle built with ⟨sound, table, counters⟩
    refine before.operation (Core.Follows.refl _) before.safe ?_ ?_ counters fun _ _ _ _ _ _ _ _ =>
      rfl
    · exact before.stored.shrink (fun _ => .inr rfl) fun _ _ => ⟨rfl, fun _ _ => rfl⟩
    · rw [idle]
      change job.tags = m.cache.tags
      rw [sound.tags, empty]
      rfl
  | hideTag slots i here member => exact hideTag_consistent before here member
  | invalidated job core active taken => exact invalidated_consistent before active taken
  | startCopy core taken => exact startCopy_consistent before taken
  | store job slots a value active here reached =>
    exact store_consistent before sized active here reached
  | copied job core active taken => exact copied_consistent before sized active taken
  | publishTag job slots entry active here member =>
    exact publishTag_consistent before sized active here member
  | published job core active taken => exact published_consistent before sized active taken

/-- In every run whose steps meet the condition, every byte that a running lookup may read for a
key it matched belongs to the one row its slot contained for that key when it matched, and that
row is not being overwritten. -/
theorem lookups_read_own_rows (memory : Memory) (events : List (Event streams w C))
    (final : Machine streams w C)
    (run : Run (StepWithin cfg kind arithmetic) (init cfg memory) events final) (r : Nat)
    (reader : Reader (Fin streams) Nat) (known : final.core.readers r = some reader)
    (running : ¬ reader.Finished final.core.completed) (snapshot : Snapshot w)
    (matched : snapshot ∈ final.matched r) :
    (∃ row, snapshot.owner = some (snapshot.key, row) ∧
      ∀ offset < (final.lookups r).bytes cfg, offset < cfg.embedWidthInBytes ∧
        final.cache.memory (snapshot.address + offset) = row offset) ∧
    ∀ slots, final.core.phase = .writing slots → snapshot.slot ∉ slots := by
  have consistent : final.Consistent cfg kind arithmetic :=
    run.invariant _ (fun _ _ _ taken => step_consistent sized laws decay taken)
      (init_consistent cfg kind arithmetic memory)
  have reading := consistent.reading r reader snapshot known matched
  have within := (consistent.lookups r reader known).bytes
  rcases reading.kept running with ⟨row, owner, bytes⟩
  refine ⟨⟨row, owner, fun offset bound => ?_⟩, fun slots writing =>
    consistent.held_free writing known running reading.held⟩
  have inside : offset < cfg.embedWidthInBytes := by omega
  rw [reading.address]
  exact ⟨inside, bytes offset inside⟩

end Run

/-! ### A small cache: one set, rows of one byte -/

def insertRequest (items : List (InsertItem 64 Nat)) : CommitRequest 64 Nat where
  call := .insert items.length items
  table := 0
  mapOrder := inOrder
  atomicOrder := inOrder

def twoItems : List (InsertItem 64 Nat) := [⟨5, 1, fun _ => 42⟩, ⟨7, 1, fun _ => 43⟩]

theorem twoItems_within (tags : Tags 64) :
    (insertRequest twoItems).Within oneSet .hostModify tags where
  table := by decide
  nodup := by decide
  real := by
    intro key member
    have either : key = 5 ∨
        key = 7 := by simpa [insertRequest, twoItems, CommitCall.keys] using member
    apply RealKey.of_nonNegative oneSet_sized rfl
    rcases either with rfl | rfl <;> simp [NonNegative]
  inRange := fun device => absurd device (by decide)
  whole := trivial

def twoRows : Machine 1 64 Nat :=
  { (init oneSet fun _ => 0) with
    cache := committed oneSet addBytes (init oneSet (fun _ => 0) : Machine 1 64 Nat).cache
      (CacheSAHostModify.job oneSet addBytes (insertRequest twoItems) (fun _ => -1) fun _ => 0) }

theorem run_twoRows : ∃ events,
    Run (StepWithin oneSet .hostModify addBytes) (init oneSet fun _ => 0) events twoRows :=
  run_call _ (insertRequest twoItems) _ (twoItems_within _) rfl rfl rfl rfl
    (fun _ _ known => absurd known (by simp [init, Core.init])) fun _ => le_refl _

def queryFive : Lookup 64 := ⟨.query, 0, [5]⟩

theorem queryFive_within : queryFive.Within oneSet where
  table := by decide
  bytes := by decide
  real := by
    intro key member
    rw [mem_singleton.mp member]
    exact RealKey.of_nonNegative oneSet_sized rfl (by simp [NonNegative])

theorem run_queryFive : ∃ final reader snapshot,
    Run (StepWithin oneSet .hostModify addBytes) twoRows
      [.lookup 0 0 queryFive, .matchTag 0 5 0] final ∧
    final.core.readers 0 = some reader ∧ ¬ reader.Finished final.core.completed ∧
      snapshot ∈ final.matched 0 ∧
    snapshot.key = 5 := by
  refine ⟨_, _, _, .step ⟨queryFive_within, .lookup 0 0 queryFive _ rfl (.launch 0 0 rfl)⟩
    (.step ⟨trivial, .matchTag 0 5 0 _ ?_ (by decide) ?_ (.hold 0 _ _ rfl ?_)⟩ (.done _)), rfl, ?_,
    mem_cons_self, rfl⟩
  · simp [start, queryFive]
  · decide
  · decide
  · intro finished
    exact absurd (finished.2 0 mem_cons_self) (by decide)

/-- Two keys in the cache, and the kernel of a lookup of key 5 running with a matched tag. -/
theorem lookups_read_own_rows_query : ∃ events final reader snapshot,
    Run (StepWithin oneSet .hostModify addBytes) (init oneSet (fun _ => 0) : Machine 1 64 Nat)
      events final ∧
    final.core.readers 0 = some reader ∧ ¬ reader.Finished final.core.completed ∧
      snapshot ∈ final.matched 0 ∧
    snapshot.key = 5 ∧
    (∃ row, snapshot.owner = some (snapshot.key, row) ∧
      ∀ offset < (final.lookups 0).bytes oneSet, offset < oneSet.embedWidthInBytes ∧
        final.cache.memory (snapshot.address + offset) = row offset) ∧
    ∀ slots, final.core.phase = .writing slots → snapshot.slot ∉ slots := by
  rcases run_twoRows with ⟨events, run⟩
  rcases run_queryFive with ⟨final, reader, snapshot, later, known, running, matched, key⟩
  have sizes : ∀ table < oneSet.numTables, Sized oneSet table := by
    intro table bound
    obtain rfl : table = 0 := Nat.lt_one_iff.mp bound
    exact oneSet_sized
  exact ⟨_, final, reader, snapshot, run.append later, known, running, matched, key,
    lookups_read_own_rows sizes ⟨fun _ _ _ _ => Nat.zero_le _, fun _ _ _ _ => Nat.zero_le _⟩
      (Nat.zero_le _) _ _ final
      (run.append later) 0 reader known running snapshot matched⟩

def sortGatherFive (stride : Nat) : Lookup 64 := ⟨.sortGather stride, 0, [5]⟩

/-- With an output stride of two bytes over rows of one byte, the gather kernel of a lookup of
key 5 reads the row of key 7 as well. -/
theorem sortGather_reads_next_row : ∃ events final reader snapshot row,
    Run (Step oneSet .hostModify addBytes) (init oneSet (fun _ => 0) : Machine 1 64 Nat)
      events final ∧
    final.core.readers 0 = some reader ∧ ¬ reader.Finished final.core.completed ∧
      snapshot ∈ final.matched 0 ∧
    snapshot.key = 5 ∧ final.cache.Contains oneSet 1 7 row ∧
    ∃ offset < (final.lookups 0).bytes oneSet, snapshot.address + offset =
      1 * oneSet.embedWidthInBytes := by
  rcases run_twoRows with ⟨events, run⟩
  have before := run.mono fun _ _ _ taken => taken.taken
  have later : ∃ final reader snapshot,
      Run (Step oneSet .hostModify addBytes) twoRows
        [.startCustomFlow 0 0 (sortGatherFive 2), .silent, .matchTag 0 5 0] final ∧
      final.core.readers 0 = some reader ∧ ¬ reader.Finished final.core.completed ∧
        snapshot ∈ final.matched 0 ∧
      snapshot.key = 5 ∧ snapshot.address = 0 ∧
        (final.lookups 0).bytes oneSet = 2 ∧ final.cache = twoRows.cache := by
    refine ⟨_, _, _, .step (.startCustomFlow 0 0 (sortGatherFive 2) _ rfl (.openFlow 0 0 rfl rfl))
      (.step (.silent _ _ (.enqueue 0) (.enqueue 0 _ rfl rfl))
        (.step (.matchTag 0 5 0 _ ?_ (by decide) ?_ (.hold 0 _ _ rfl ?_)) (.done _))), rfl, ?_,
      List.mem_cons_self, rfl, ?_, ?_, rfl⟩
    · simp [start, sortGatherFive]
    · decide
    · decide
    · exact fun finished => absurd finished.1 (by decide)
    · decide
    · decide
  rcases later with ⟨final, reader, snapshot, steps, known, running, matched, key, address,
    bytes, same⟩
  refine ⟨_, final, reader, snapshot, fun _ => 43, before.append steps, known, running, matched,
    key, ?_, 1, ?_, ?_⟩
  · rw [same]
    exact ⟨rfl, by decide⟩
  · rw [bytes]
    decide
  · rw [address]
    rfl

end Machine

end EmbedCache
