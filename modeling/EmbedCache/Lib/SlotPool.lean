import Mathlib.Data.List.AList
import Mathlib.Tactic

/-! Slots that keys hold and give back.

Whatever is done with a pool, its slots are those it was given: the rules below
say so up to the order of the list `SlotPool.slots`. -/

namespace EmbedCache.Lib

open List

variable {κ σ : Type*} [DecidableEq κ] {β : κ → Type*} {map : AList β}

theorem entries_perm_erase {key : κ} {value : β key}
    (found : map.lookup key = some value) :
      map.entries.Perm (⟨key, value⟩ :: (map.erase key).entries) := by
  have member : key ∈ map.entries.keys := AList.lookup_isSome.mp (by rw [found]; rfl)
  obtain ⟨other, front, back, fresh, split, rest⟩ := exists_of_kerase member
  have entry : (⟨key, other⟩ : Sigma β) ∈ map.entries := by
    rw [split]
    exact mem_append_right _ mem_cons_self
  have same : value = other := by
    rw [AList.mem_lookup_iff.mpr entry] at found
    exact (Option.some.inj found).symm
  subst same
  change map.entries.Perm (_ :: List.kerase key map.entries)
  rw [rest, split]
  exact perm_middle

theorem length_erase {key : κ} {value : β key} (found : map.lookup key = some value) :
    (map.erase key).entries.length + 1 = map.entries.length :=
  (entries_perm_erase found).length_eq.symm

theorem length_eraseMany {keys : List κ} (distinct : keys.Nodup)
    (present : ∀ key ∈ keys, key ∈ map) :
    (keys.foldl (fun map key => map.erase key) map).entries.length + keys.length =
      map.entries.length := by
  induction keys generalizing map with
  | nil => rfl
  | cons key rest ih =>
    obtain ⟨fresh, later⟩ := nodup_cons.mp distinct
    obtain ⟨value, found⟩ :=
      Option.isSome_iff_exists.mp (AList.lookup_isSome.mpr (present key mem_cons_self))
    have still : ∀ other ∈ rest, other ∈ map.erase key := by
      intro other member
      exact AList.mem_erase.mpr
        ⟨fun same => fresh (same ▸ member), present other (mem_cons_of_mem _ member)⟩
    have tail := ih later still
    have head := length_erase found
    rw [foldl_cons, length_cons]
    omega

theorem lookup_eraseMany (keys : List κ) (map : AList β) (key : κ) :
    (keys.foldl (fun map key => map.erase key) map).lookup key = if key ∈ keys then none
      else map.lookup key := by
  induction keys generalizing map with
  | nil => rfl
  | cons first rest ih =>
    rw [foldl_cons, ih]
    by_cases same : key = first
    · subst same
      simp
    · rw [AList.lookup_erase_ne same]
      simp [same]

structure SlotPool (κ σ : Type*) where
  held : AList fun _ : κ => σ
  free : List σ

namespace SlotPool

def empty : SlotPool κ σ := ⟨∅, []⟩

variable (pool : SlotPool κ σ)

def slots : List σ := pool.free ++ pool.held.entries.map Sigma.snd

def release (key : κ) (slot : σ) : SlotPool κ σ := ⟨pool.held.erase key, slot :: pool.free⟩

def releaseMany (entries : List (κ × σ)) : SlotPool κ σ :=
  entries.foldl (fun pool entry => pool.release entry.1 entry.2) pool

def grow (fresh : List σ) : SlotPool κ σ := ⟨pool.held, fresh ++ pool.free⟩

/-- The key gets the slot, and `rest` stays free. -/
def hold (key : κ) (slot : σ) (rest : List σ) : SlotPool κ σ := ⟨pool.held.insert key slot, rest⟩

variable {pool : SlotPool κ σ} {slot : σ} {key : κ}

theorem held_mem_slots (found : pool.held.lookup key = some slot) : slot ∈ pool.slots :=
  mem_append_right _ (mem_map.mpr ⟨⟨key, slot⟩, AList.mem_lookup_iff.mp found, rfl⟩)

theorem held_injective (distinct : pool.slots.Nodup) {key other : κ}
    (first : pool.held.lookup key = some slot)
    (second : pool.held.lookup other = some slot) : key = other := by
  have values : (pool.held.entries.map Sigma.snd).Nodup := (nodup_append.mp distinct).2.1
  have same :=
    inj_on_of_nodup_map values (AList.mem_lookup_iff.mp first) (AList.mem_lookup_iff.mp second) rfl
  exact congrArg Sigma.fst same

theorem free_ne_held (distinct : pool.slots.Nodup) {slot other : σ} (free : slot ∈ pool.free)
    (held : pool.held.lookup key = some other) : slot ≠ other := by
  rintro rfl
  exact (nodup_append.mp distinct).2.2 slot free slot
    (mem_map.mpr ⟨⟨key, slot⟩, AList.mem_lookup_iff.mp held, rfl⟩) rfl

theorem release_slots (found : pool.held.lookup key = some slot) :
    (pool.release key slot).slots.Perm pool.slots := by
  have entry := (entries_perm_erase found).map Sigma.snd
  exact (perm_middle.symm.trans (List.Perm.append_left pool.free entry.symm))

omit [DecidableEq κ] in
@[simp] theorem grow_slots (fresh : List σ) : (pool.grow fresh).slots = fresh ++ pool.slots :=
  append_assoc _ _ _

theorem hold_slots {rest : List σ} (new : key ∉ pool.held) (next : pool.free = slot :: rest) :
    (pool.hold key slot rest).slots.Perm pool.slots := by
  have entries : (pool.held.insert key slot).entries = ⟨key, slot⟩ :: pool.held.entries :=
    AList.entries_insert_of_notMem new
  simp only [slots, hold, entries, next, map_cons]
  exact perm_middle

theorem releaseMany_held (entries : List (κ × σ)) :
    (pool.releaseMany entries).held =
      (entries.map Prod.fst).foldl (fun map key => map.erase key) pool.held := by
  induction entries generalizing pool with
  | nil => rfl
  | cons entry rest ih => exact ih

theorem releaseMany_slots {entries : List (κ × σ)} (distinct : (entries.map Prod.fst).Nodup)
    (present : ∀ entry ∈ entries, pool.held.lookup entry.1 = some entry.2) :
    (pool.releaseMany entries).slots.Perm pool.slots := by
  induction entries generalizing pool with
  | nil => exact List.Perm.refl _
  | cons entry rest ih =>
    obtain ⟨fresh, later⟩ := nodup_cons.mp distinct
    have still : ∀ other ∈ rest, (pool.release entry.1 entry.2).held.lookup other.1 =
        some other.2 := by
      intro other member
      have apart : other.1 ≠ entry.1 := fun same => fresh (same ▸ mem_map_of_mem member)
      rw [release, AList.lookup_erase_ne apart]
      exact present other (mem_cons_of_mem _ member)
    exact (ih later still).trans (release_slots (present entry mem_cons_self))

end SlotPool

end EmbedCache.Lib
