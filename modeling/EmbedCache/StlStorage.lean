import EmbedCache.StlRefinement

/-! Where `insert` of an STL table puts a new key.

A buffer has `allocation_rate / slot_stride()` slots, and `check` compares `allocation_rate` with
the size of a value alone. -/

namespace EmbedCache.STLContainerTable

open Lib HostTable

variable {Key : Type*} [DecidableEq Key] {b : Nat} {config : STLContainerTableConfig}

/-- The key has a slot with room for value and metadata, inside a buffer, aligned, and apart from
those of other keys. -/
structure HasSlot (config : STLContainerTableConfig) (part : Partition Key) (key : Key)
    (slot : Slot) : Prop where
  held : part.slotMap.lookup key = some slot
  buffer : slot.buffer < part.slotBuffers
  inside : slot.off + config.slotSize ≤ config.slotsPerBuffer * config.slotStride
  aligned : config.valueAlignment ∣ slot.off
  alone : ∀ other taken, other ≠ key → part.slotMap.lookup other = some taken →
    taken.buffer = slot.buffer →
    slot.off + config.slotSize ≤ taken.off ∨ taken.off + config.slotSize ≤ slot.off

theorem Partition.WellFormed.hasSlot {home : Key → Nat} {task : Nat} {part : Partition Key}
    (checked : config.Checked)
    (formed : part.WellFormed config home task) {key : Key} {slot : Slot}
    (held : part.slotMap.lookup key = some slot) :
    HasSlot config part key slot := by
  have here := formed.held_allocated held
  obtain ⟨buffer, i, small, off⟩ := Partition.mem_allocated.mp here
  have wide := checked.slotSize_le_slotStride
  refine ⟨held, buffer, ?_, ?_, ?_⟩
  · have last := Nat.mul_le_mul_right config.slotStride small
    rw [Nat.succ_mul] at last
    rw [off]
    omega
  · rw [off]
    exact (Dvd.intro_left _ rfl).mul_left i
  · intro other taken different there same
    have apart : slot ≠ taken := by
      rintro rfl
      exact different (SlotPool.held_injective (formed.slots_nodup checked) there held)
    rcases Partition.allocated_apart here (formed.held_allocated there) apart
      same.symm with before | after
    · exact .inl (by omega)
    · exact .inr (by omega)

namespace Setup

variable {table : Setup Key b} {parts : Nat → Partition Key} {after : Nat → Partition Key}

/-- The slots stay in order even when an update writes past its row. -/
theorem wellFormed_of_exec (formed : table.WellFormed parts) {call : Call Key b}
    (scheduled : table.Scheduled call)
    {outcome : Outcome b} (executed : table.exec parts call = some (after, outcome)) :
    table.WellFormed after := by
  by_cases contained : table.Contained call
  · exact (effect_of_exec formed scheduled contained executed).1
  cases call with
  | insert | update | erase | clear => exact absurd trivial contained
  | updateAccumulate batch updateSize updateDtype order =>
    rw [exec] at executed
    split at executed
    · cases executed
      exact formed
    · obtain ⟨swept, ran, same⟩ := Option.map_eq_some_iff.mp executed
      cases same
      rw [execute_eq_sweep scheduled] at ran
      apply sweep_preserves table.WellFormed _ ran formed
      intro item _ before part held done
      rw [← Option.some.inj done]
      exact held.update ((held _).updateAccumulate table.add updateDtype updateSize item.1 _)
  | find request buffers lruTime schedule =>
    have some_keys : 0 < request.n := Nat.pos_of_ne_zero fun none => contained (.inl none)
    have overflow : ¬ FitsInt64 table.config b request.n := fun fits => contained (.inr (.inl fits))
    rw [exec, if_neg fun rejected => contained (.inr (.inr rejected))] at executed
    simp [STLContainerTable.find, some_keys, overflow] at executed

theorem wellFormed_of_runCalls {calls : List (Call Key b)}
    (scheduled : ∀ call ∈ calls, table.Scheduled call)
    {outcomes : List (Outcome b)}
    (ran : table.runCalls (fun _ => .empty) calls = some (after, outcomes)) :
    table.WellFormed after := by
  apply (run_of_runCalls ran).invariant_of_mem table.WellFormed _ wellFormed_empty
  intro call member first second step formed
  obtain ⟨outcome, executed⟩ := step
  exact wellFormed_of_exec formed (scheduled call member) executed

/-- In every state after scheduled calls a new key gets a slot, exactly if a slot fits into a
buffer. -/
theorem insert_gets_slot_iff (table : Setup Key b) (key : Key) :
    (∀ calls parts outcomes, (∀ call ∈ calls, table.Scheduled call) →
      table.runCalls (fun _ => .empty) calls = some (parts, outcomes) →
      (parts (table.home key)).slotMap.lookup key = none →
      ∀ shuffle lruValue size value, size ≤ table.config.maxValueSize →
        ∃ result slot, (parts (table.home key)).insert table.config shuffle lruValue size key
          value = some result ∧
          HasSlot table.config result key slot) ↔
      table.config.slotStride ≤ table.config.allocationRate := by
  constructor
  · intro all
    obtain ⟨result, -, inserted, -⟩ :=
      all [] _ [] nofun rfl rfl ⟨id, fun _ => .refl _⟩ 0 0 (fun _ => 0) (Nat.zero_le _)
    have slots :=
      Partition.slots_of_insert _ table.checked (wellFormed_empty (table.home key)) inserted
    exact Nat.le_of_not_lt fun short => slots.ne' (Nat.div_eq_of_lt short)
  · intro fits calls parts outcomes scheduled ran absent shuffle lruValue size value small
    have formed := wellFormed_of_runCalls scheduled ran (table.home key)
    obtain ⟨result, inserted, done, effect⟩ := Partition.insert_spec shuffle table.checked
      (Nat.div_pos fits table.checked.slotStride_pos) formed lruValue small rfl value
    have stored : (result.get table.config key).isSome := by
      cases effect with
      | replaced present _ rows => simp [rows]
      | added _ _ _ _ _ _ rows => simp [rows]
    rw [Partition.get, Option.isSome_map] at stored
    obtain ⟨slot, held⟩ := Option.isSome_iff_exists.mp stored
    exact ⟨result, slot, inserted, done.hasSlot table.checked held⟩

end Setup

def tightConfig : STLContainerTableConfig :=
  { floatConfig 128 unlimited with valueAlignment := 8, allocationRate := 4 }

theorem tight_config_stores_nothing : tightConfig.Checked ∧ ∀ key : Nat,
    (Partition.empty : Partition Nat).insert tightConfig ⟨id, fun _ => .refl _⟩ 0 4 key
      (fun _ => 0) = none := by
  constructor
  · have checked := floatConfig_checked (by decide : 0 < 128) (by decide) unlimited
    exact { checked with
      valueAlignment_pow := ⟨3, by decide, (by decide : 8 = 2 ^ 3)⟩
      allocationRate_ge := (by decide : 4 ≤ 4)
      allocationRate_lt := (by decide : 4 < 2 ^ 63) }
  · intro key
    rfl

end EmbedCache.STLContainerTable
