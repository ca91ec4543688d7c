import EmbedCache.StlRefinement

/-! What the stored bytes of a key of `STLContainerTable` depend on.

`knownRow` follows the writes to one key: after a write of a whole row the row is known, and an
insert of fewer bytes makes it unknown, since the slot may be new to the key. -/

namespace EmbedCache.STLContainerTable

open Lib HostTable Bitmask List Option Function

variable {Key : Type*} [DecidableEq Key] {b : Nat}

inductive Write
  | insert (bytes : List UInt8)
  | update (bytes : List UInt8)
  | updateAccumulate (updateDtype : DataTypeT) (updateSize : Int) (bytes : List UInt8)
  deriving DecidableEq

def asBuffer (bytes : List UInt8) : Nat → UInt8 := fun i => bytes.getD i 0

namespace Setup

variable (table : Setup Key b)

def writesTo (key : Key) (batch : Batch Key) (write : (Nat → UInt8) → Write) : List Write :=
  (batch.keys.zipIdx.filter fun item => item.1 = key).map fun item => write (batch.row item.2)

def writes (key : Key) (call : Call Key b) : List Write :=
  if table.rejects call then []
  else
    match call with
    | .insert batch valueSize _ _ _ => writesTo key batch fun row =>
      .insert (readRange row 0 valueSize.toNat)
    | .update batch valueSize _ => writesTo key batch fun row =>
      .update (readRange row 0 valueSize.toNat)
    | .updateAccumulate batch updateSize updateDtype _ => writesTo key batch fun row =>
      .updateAccumulate updateDtype updateSize
        (readRange row 0 (elementCount updateDtype updateSize * updateDtype.size))
    | _ => []

/-- The row that a key with a row has after a write, if that is certain. -/
def afterWrite (known : Option (List UInt8)) : Write → Option (List UInt8)
  | .insert bytes => if bytes.length = table.config.maxValueSize then some bytes else none
  | .update bytes =>
    if bytes.length = table.config.maxValueSize then some bytes
    else known.map (patch bytes.length (asBuffer bytes))
  | .updateAccumulate updateDtype updateSize bytes =>
    known.map (accumulated table.add table.config.valueDtype updateDtype updateSize
      (asBuffer bytes))

/-- The row after these writes, if they fix it. -/
def knownRow (writes : List Write) : Option (List UInt8) := writes.foldl table.afterWrite none

/-- `find` returns these bytes for the key, whatever the schedule. -/
def FindReturns (parts : Nat → Partition Key) (key : Key) (row : List UInt8) : Prop :=
  ∀ (buffers : FindBuffers b) (lruTime : Nat → BitVec 64) (schedule : List Nat),
    buffers.hitMask 0 = 0 →
    FairSchedule table.config b 1 schedule →
    ∃ parts' result, table.exec parts (.find (table.oneKey key) buffers lruTime schedule) =
      some (parts', .found result 1) ∧
      readRange result.values 0 table.config.maxValueSize = row

def Agrees (key : Key) (rows : Key → Option (List UInt8)) (known : Option (List UInt8)) : Prop :=
  ∀ row, rows key = some row → row.length = table.config.maxValueSize ∧
    ∀ certain, known = some certain → row = certain

section Proofs

variable {table} {key : Key}

/-! ### The bytes a write reads -/

theorem asBuffer_readRange (value : Nat → UInt8) {size i : Nat} (inside : i < size) :
    asBuffer (readRange value 0 size) i = value i := by
  rw [asBuffer, readRange_getD value 0 size inside, Nat.zero_add]

theorem patch_bytes (value : Nat → UInt8) (size : Nat) (row : List UInt8) :
    patch size (asBuffer (readRange value 0 size)) row = patch size value row := by
  rw [patch, patch]
  apply readRange_congr
  intro i _
  by_cases written : i < size
  · rw [blit_inside _ _ _ _ _ (by omega) (by omega), blit_inside _ _ _ _ _ (by omega) (by omega)]
    exact asBuffer_readRange value (by omega)
  · rw [blit_outside _ _ _ _ _ (by omega), blit_outside _ _ _ _ _ (by omega)]

variable (add : Arithmetic) (tableType updateType : DataTypeT)

theorem cpuUpdateKernel_bytes {update other : Nat → UInt8} {count : Nat}
    (agree : ∀ i < count * updateType.size, update i = other i) (memory : Nat → UInt8) (off : Nat) :
    cpuUpdateKernel add tableType updateType count update memory off =
      cpuUpdateKernel add tableType updateType count other memory off := by
  induction count with
  | zero => rfl
  | succ count ih =>
    rw [Nat.succ_mul] at agree
    have element : readRange update (count * updateType.size) updateType.size =
        readRange other (count * updateType.size) updateType.size := by
      apply readRange_congr
      intro i inside
      exact agree _ (by omega)
    rw [cpuUpdateKernel_succ, cpuUpdateKernel_succ, ih fun i inside => agree i (by omega), element]

theorem accumulated_bytes (updateSize : Int) (value : Nat → UInt8) (row : List UInt8) :
    accumulated add tableType updateType updateSize
        (asBuffer (readRange value 0 (elementCount updateType updateSize * updateType.size))) row =
      accumulated add tableType updateType updateSize value row := by
  rw [accumulated, accumulated, cpuUpdateKernel_bytes]
  intro i inside
  exact asBuffer_readRange value inside

/-! ### One write -/

variable {known : Option (List UInt8)} {before after : Key → Option (List UInt8)}

omit [DecidableEq Key] in
theorem Agrees.other
    (agrees : table.Agrees key before known) (same : after key = before key ∨ after key = none) :
    table.Agrees key after known := by
  intro row present
  rcases same with same | gone
  · exact agrees row (same ▸ present)
  · rw [gone] at present
    exact absurd present (some_ne_none _).symm

variable {value : Nat → UInt8}

theorem Agrees.insert {size : Nat}
    (agrees : table.Agrees key before known)
    (inserted : table.Inserted size key value before after) :
    table.Agrees key after (table.afterWrite known (.insert (readRange value 0 size))) := by
  obtain ⟨old, length, rows⟩ : ∃ old : List UInt8, old.length = table.config.maxValueSize ∧
      after key = some (patch size value old) := by
    cases inserted with
    | @replaced row present rows => exact ⟨row, (agrees row present).1, by rw [rows, update_self]⟩
    | added absent kept drops garbage length rows =>
      exact ⟨garbage, length, by rw [rows, update_self]⟩
  intro row present
  rw [rows] at present
  obtain rfl := Option.some.inj present
  refine ⟨(patch_length _ _ _).trans length, fun certain follows => ?_⟩
  rw [afterWrite, readRange_length] at follows
  split at follows
  · rename_i whole
    rw [← Option.some.inj follows, whole]
    exact patch_full value length
  · exact absurd follows (some_ne_none _).symm

variable {before : Key → Option (List UInt8)}

theorem Agrees.change (agrees : table.Agrees key before known) (change : List UInt8 → List UInt8)
    (length : ∀ row, (change row).length = row.length) :
    table.Agrees key (changeRow change key before) (known.map change) := by
  intro row present
  rw [changeRow, update_self] at present
  obtain ⟨old, stored, rfl⟩ := map_eq_some_iff.mp present
  obtain ⟨width, certainly⟩ := agrees old stored
  refine ⟨(length old).trans width, fun certain follows => ?_⟩
  obtain ⟨knownOld, knows, rfl⟩ := map_eq_some_iff.mp follows
  rw [certainly knownOld knows]

theorem Agrees.update {size : Nat} (agrees : table.Agrees key before known) :
    table.Agrees key (changeRow (patch size value) key before)
      (table.afterWrite known (.update (readRange value 0 size))) := by
  have changed := agrees.change (patch size value) (patch_length _ _)
  rw [afterWrite, readRange_length]
  split
  · rename_i whole
    intro row present
    refine ⟨(changed row present).1, fun certain follows => ?_⟩
    rw [changeRow, update_self] at present
    obtain ⟨old, stored, rfl⟩ := map_eq_some_iff.mp present
    rw [← Option.some.inj follows, whole]
    exact patch_full value (agrees old stored).1
  · have same : patch size (asBuffer (readRange value 0 size)) = patch size value :=
      funext (patch_bytes value size)
    rw [same]
    exact changed

theorem Agrees.updateAccumulate {updateDtype : DataTypeT} {updateSize : Int}
    (agrees : table.Agrees key before known) :
    table.Agrees key
      (changeRow (accumulated table.add table.config.valueDtype updateDtype updateSize value) key
      before)
      (table.afterWrite known (.updateAccumulate updateDtype updateSize
        (readRange value 0 (elementCount updateDtype updateSize * updateDtype.size)))) := by
  have same :=
    funext (accumulated_bytes table.add table.config.valueDtype updateDtype updateSize value)
  rw [afterWrite, same]
  exact agrees.change _ (fun _ => readRange_length _ _ _)

theorem Inserted.other {size : Nat} {other : Key}
    (inserted : table.Inserted size other value before after) (different : key ≠ other) :
    after key = before key ∨ after key = none := by
  cases inserted with
  | replaced present rows =>
    rw [rows, update_of_ne different]
    exact .inl rfl
  | added absent kept drops garbage length rows =>
    rw [rows, update_of_ne different]
    rcases drops with same | ⟨-, each⟩
    · exact .inl (congrFun same key)
    · exact (each key).imp_right And.right

/-! ### Calls and runs -/

theorem Agrees.batch {step : (Key → Option (List UInt8)) → Key × Nat →
      (Key → Option (List UInt8)) → Prop}
    {write : Key × Nat → Write}
    (own : ∀ before item after known, item.1 = key → step before item after →
      table.Agrees key before known →
      table.Agrees key after (table.afterWrite known (write item)))
    (other : ∀ before item after, key ≠ item.1 → step before item after → after key = before key ∨
      after key = none)
    {items : List (Key × Nat)} (run : Run step before items after)
    (agrees : table.Agrees key before known) :
    table.Agrees key after
      (((items.filter fun item => item.1 = key).map write).foldl table.afterWrite known) := by
  induction run generalizing known with
  | done rows => exact agrees
  | @step first second last item rest taken _ ih =>
    by_cases mine : item.1 = key
    · rw [filter_cons_of_pos (by simpa using mine), map_cons, foldl_cons]
      exact ih (own _ _ _ _ mine taken agrees)
    · rw [filter_cons_of_neg (by simpa using mine)]
      exact ih (agrees.other (other _ _ _ (Ne.symm mine) taken))

theorem changeRow_other {change : List UInt8 → List UInt8} {other : Key}
    (different : key ≠ other) (changed : after = changeRow change other before) :
      after key = before key := by
  rw [changed, changeRow, update_of_ne different]

theorem erased (keys : List Key) (rows : Key → Option (List UInt8)) :
    keys.foldl (fun rows key => update rows key none) rows key = rows key ∨
      keys.foldl (fun rows key => update rows key none) rows key = none := by
  induction keys generalizing rows with
  | nil => exact .inl rfl
  | cons gone rest ih =>
    rw [foldl_cons]
    rcases ih (update rows gone none) with same | absent
    · by_cases here : key = gone
      · right
        rw [same, here, update_self]
      · left
        rw [same, update_of_ne here]
    · exact .inr absent

theorem CallEffect.agrees {call : Call Key b} {outcome : Outcome b}
    (effect : table.CallEffect before call outcome after)
    (agrees : table.Agrees key before known) :
    table.Agrees key after ((table.writes key call).foldl table.afterWrite known) := by
  unfold CallEffect at effect
  unfold writes
  by_cases rejected : table.rejects call = true
  · rw [if_pos rejected] at effect ⊢
    rw [effect.2]
    exact agrees
  · rw [if_neg rejected] at effect ⊢
    cases call with
    | insert batch valueSize order lruValue shuffle =>
      refine Agrees.batch ?_ ?_ effect.2 agrees
      · rintro before item after known rfl inserted agrees
        exact agrees.insert inserted
      · intro before item after different inserted
        exact inserted.other different
    | update batch valueSize order =>
      refine Agrees.batch ?_ ?_ (effect.2 ▸ Run.of_foldl _ _ _) agrees
      · rintro before item after known rfl rfl agrees
        exact agrees.update
      · intro before item after different changed
        exact .inl (changeRow_other different changed)
    | updateAccumulate batch updateSize updateDtype order =>
      refine Agrees.batch ?_ ?_ (effect.2 ▸ Run.of_foldl _ _ _) agrees
      · rintro before item after known rfl rfl agrees
        exact agrees.updateAccumulate
      · intro before item after different changed
        exact .inl (changeRow_other different changed)
    | erase keys order =>
      apply agrees.other
      rw [effect.2]
      exact erased keys before
    | clear order =>
      apply agrees.other
      rw [effect.2]
      exact .inr rfl
    | find request buffers lruTime schedule =>
      rw [effect.1]
      exact agrees

theorem runCalls_agrees {calls : List (Call Key b)}
    (all : ∀ call ∈ calls, table.Scheduled call ∧ table.Contained call)
    {parts ended : Nat → Partition Key}
    {outcomes : List (Outcome b)} (ran : table.runCalls parts calls = some (ended, outcomes))
    (formed : table.WellFormed parts)
    (agrees : table.Agrees key (table.contents parts) known) :
    table.WellFormed ended ∧
      table.Agrees key (table.contents ended)
        ((calls.flatMap (table.writes key)).foldl table.afterWrite known) := by
  have run := run_of_runCalls ran
  clear ran
  induction run generalizing known with
  | done parts => exact ⟨formed, agrees⟩
  | step taken _ ih =>
    obtain ⟨outcome, executed⟩ := taken
    obtain ⟨scheduled, contained⟩ := all _ mem_cons_self
    obtain ⟨nextFormed, effect⟩ := effect_of_exec formed scheduled contained executed
    rw [flatMap_cons, foldl_append]
    exact ih (fun call member => all call (mem_cons_of_mem _ member)) nextFormed
      (effect.agrees agrees)

theorem agrees_empty (key : Key) :
    table.Agrees key (table.contents fun _ => Partition.empty) none := by
  intro row present
  exact absurd present (some_ne_none _).symm

theorem findReturns_contents {parts : Nat → Partition Key} (formed : table.WellFormed parts)
    {row : List UInt8}
    (present : table.contents parts key = some row) : table.FindReturns parts key row := by
  intro buffers lruTime schedule fresh fair
  obtain ⟨parts', result, numHits, executed, -, -, isExact⟩ :=
    exec_find formed (table.oneKey key) buffers lruTime fair
    (.inr ⟨le_refl _, table.fits_one⟩)
  obtain ⟨_, _, counted⟩ := find_one formed key buffers lruTime fresh fair
  rw [present, if_pos isSome_some, executed, some_inj, Prod.mk.injEq,
    Outcome.found.injEq] at counted
  refine ⟨parts', result, by rw [executed, counted.2.2], ?_⟩
  have hit : NewHit (table.contents parts) (table.oneKey key) buffers 0 := by
    rw [NewHit, Nat.zero_div, fresh]
    exact ⟨Nat.one_pos, BitVec.getLsbD_zero, isSome_of_eq_some present⟩
  have copied := isExact.values 0 row hit present rfl
  rw [Nat.zero_mul] at copied
  exact copied

end Proofs

/-- Two runs with the same writes to a key, the last of which fix its row: if the key is stored at
the end of both, `find` returns the same bytes. -/
theorem own_writes_fix_row (key : Key) {first second : List (Call Key b)}
    {parts others : Nat → Partition Key}
    {outcomes results : List (Outcome b)}
    (ran : table.runCalls (fun _ => .empty) first = some (parts, outcomes))
    (ranOther : table.runCalls (fun _ => .empty) second = some (others, results))
    (calls : ∀ call ∈ first ++ second, table.Scheduled call ∧ table.Contained call)
    (same : first.flatMap (table.writes key) = second.flatMap (table.writes key))
    (known : (table.knownRow (first.flatMap (table.writes key))).isSome)
    (present : table.WouldHit parts key) (presentOther : table.WouldHit others key) :
    ∃ row, table.FindReturns parts key row ∧ table.FindReturns others key row := by
  obtain ⟨row, certain⟩ := isSome_iff_exists.mp known
  obtain ⟨formed, agrees⟩ :=
    runCalls_agrees (fun call member => calls call (mem_append_left _ member)) ran
    wellFormed_empty (agrees_empty key)
  obtain ⟨formedOther, agreesOther⟩ :=
    runCalls_agrees (fun call member => calls call (mem_append_right _ member))
    ranOther wellFormed_empty (agrees_empty key)
  obtain ⟨stored, found⟩ := isSome_iff_exists.mp ((wouldHit_iff formed).mp present)
  obtain ⟨storedOther, foundOther⟩ :=
    isSome_iff_exists.mp ((wouldHit_iff formedOther).mp presentOther)
  obtain rfl := (agrees stored found).2 row certain
  obtain rfl := (agreesOther storedOther foundOther).2 stored (by rw [← same]; exact certain)
  exact ⟨_, findReturns_contents formed found, findReturns_contents formedOther foundOther⟩

end Setup

variable (valueSize : Int)

def insertRecycled : List (Call Nat 64) :=
  [insertAll [1] 4 5, .erase [1] [0], insertAll [7] valueSize 9]

theorem insertRecycled_scheduled :
    ∀ call ∈ insertRecycled valueSize,
      (floatTable unlimited).Scheduled call ∧ (floatTable unlimited).Contained call := by
  intro call listed
  have order : [0].Perm (List.range 1) := List.Perm.refl _
  rcases mem_cons.mp listed with rfl | later
  · exact ⟨order, trivial⟩
  · rcases mem_cons.mp later with rfl | last
    · exact ⟨order, trivial⟩
    · rw [mem_singleton.mp last]
      exact ⟨order, trivial⟩

theorem insertAll_scheduled :
    ∀ call ∈ [insertAll [7] valueSize 9],
      (floatTable unlimited).Scheduled call ∧ (floatTable unlimited).Contained call := by
  intro call listed
  rw [mem_singleton.mp listed]
  exact ⟨List.Perm.refl _, trivial⟩

theorem own_writes_fix_row_whole :
    ∃ parts others outcomes results,
      (floatTable unlimited).runCalls (fun _ => .empty) [insertAll [7] 4 9] =
        some (parts, outcomes) ∧
      (floatTable unlimited).runCalls (fun _ => .empty) (insertRecycled 4) =
        some (others, results) ∧
      ∃ row, (floatTable unlimited).FindReturns parts 7 row ∧
        (floatTable unlimited).FindReturns others 7 row := by
  refine ⟨_, _, _, _, rfl, rfl, ?_⟩
  have formed :=
    (Setup.runCalls_agrees (insertAll_scheduled 4) rfl Setup.wellFormed_empty
      (Setup.agrees_empty 7)).1
  have formedOther :=
    (Setup.runCalls_agrees (insertRecycled_scheduled 4) rfl Setup.wellFormed_empty
      (Setup.agrees_empty 7)).1
  refine @Setup.own_writes_fix_row _ _ _ (floatTable unlimited) 7 [insertAll [7] 4 9]
    (insertRecycled 4) _ _ _ _
    rfl rfl ?_ (by decide) (by decide) ((Setup.wouldHit_iff formed).mpr (by decide))
    ((Setup.wouldHit_iff formedOther).mpr (by decide))
  intro call member
  rcases mem_append.mp member with early | late
  · exact insertAll_scheduled 4 call early
  · exact insertRecycled_scheduled 4 call late

/-- An insert of two of four bytes: the other two are zero in a new slot, and those of the erased
key in its slot. -/
theorem insert_keeps_bytes_of_erased_key :
    ∃ parts others outcomes results,
      (floatTable unlimited).runCalls (fun _ => .empty) [insertAll [7] 2 9] =
        some (parts, outcomes) ∧
      (floatTable unlimited).runCalls (fun _ => .empty) (insertRecycled 2) =
        some (others, results) ∧
      [insertAll [7] 2 9].flatMap ((floatTable unlimited).writes 7) =
        (insertRecycled 2).flatMap ((floatTable unlimited).writes 7) ∧
      (floatTable unlimited).FindReturns parts 7 [9, 9, 0, 0] ∧
      (floatTable unlimited).FindReturns others 7 [9, 9, 5, 5] := by
  have formed :=
    (Setup.runCalls_agrees (insertAll_scheduled 2) rfl Setup.wellFormed_empty
      (Setup.agrees_empty 7)).1
  have formedOther :=
    (Setup.runCalls_agrees (insertRecycled_scheduled 2) rfl Setup.wellFormed_empty
      (Setup.agrees_empty 7)).1
  exact ⟨_, _, _, _, rfl, rfl, by decide, Setup.findReturns_contents formed (by decide),
    Setup.findReturns_contents formedOther (by decide)⟩

end EmbedCache.STLContainerTable
