import Mathlib.Data.List.AList
import Mathlib.Tactic

/-! Stores of values under keys, seen through what they hold: a lookup and a list of the keys. -/

namespace EmbedCache.Lib

/-- What can be read from a store, whatever it is made of. -/
structure KeyValue (Store Key Value : Type*) where
  get : Store → Key → Option Value
  keys : Store → List Key
  keys_nodup : ∀ store, (keys store).Nodup
  mem_keys : ∀ store key, key ∈ keys store ↔ (get store key).isSome

namespace KeyValue

open List

variable {Store Key Value : Type*} (kv : KeyValue Store Key Value)

def size (store : Store) : Nat := (kv.keys store).length

variable {kv} {before after : Store}

theorem size_eq_zero_iff : kv.size before = 0 ↔ ∀ key, kv.get before key = none := by
  rw [size, length_eq_zero_iff, eq_nil_iff_forall_not_mem]
  simp only [kv.mem_keys, Bool.not_eq_true, Option.isSome_eq_false_iff, Option.isNone_iff_eq_none]

theorem size_congr (same : ∀ key, (kv.get after key).isSome ↔ (kv.get before key).isSome) :
    kv.size after = kv.size before := by
  refine Perm.length_eq ((perm_ext_iff_of_nodup (kv.keys_nodup _) (kv.keys_nodup _)).mpr fun key =>
    ?_)
  rw [kv.mem_keys, kv.mem_keys]
  exact same key

theorem size_of_added {key : Key} (fresh : kv.get before key = none)
    (added : ∀ other, (kv.get after other).isSome ↔ other = key ∨ (kv.get before other).isSome) :
    kv.size after = kv.size before + 1 := by
  have new : key ∉ kv.keys before := by
    rw [kv.mem_keys, fresh]
    exact Bool.false_ne_true
  have all : (kv.keys after).Perm (key :: kv.keys before) := by
    apply (perm_ext_iff_of_nodup (kv.keys_nodup _) (nodup_cons.mpr ⟨new, kv.keys_nodup _⟩)).mpr
    intro other
    rw [kv.mem_keys, added, mem_cons, kv.mem_keys]
  exact all.length_eq

theorem size_of_erased {gone : List Key} (distinct : gone.Nodup)
    (present : ∀ key ∈ gone, (kv.get before key).isSome)
    (left : ∀ key, (kv.get after key).isSome ↔ key ∉ gone ∧ (kv.get before key).isSome) :
    kv.size after + gone.length = kv.size before := by
  have apart : (kv.keys after ++ gone).Nodup := by
    refine nodup_append.mpr ⟨kv.keys_nodup _, distinct, fun key kept other erased same => ?_⟩
    exact ((left key).mp ((kv.mem_keys _ _).mp kept)).1 (same ▸ erased)
  rw [size, size, ← length_append]
  refine Perm.length_eq ((perm_ext_iff_of_nodup apart (kv.keys_nodup _)).mpr fun key => ?_)
  rw [mem_append, kv.mem_keys, kv.mem_keys, left]
  constructor
  · rintro (⟨-, kept⟩ | erased)
    · exact kept
    · exact present key erased
  · intro held
    by_cases erased : key ∈ gone
    · exact .inr erased
    · exact .inl ⟨erased, held⟩

section Alist

variable [DecidableEq Key]

def alist : KeyValue (AList fun _ : Key => Value) Key Value where
  get map key := map.lookup key
  keys map := map.keys
  keys_nodup map := map.keys_nodup
  mem_keys _ _ := AList.lookup_isSome.symm

variable (map : AList fun _ : Key => Value) (key other : Key)

theorem lookup_insert_eq (value : Value) :
    (map.insert key value).lookup other = if other = key then some value else map.lookup other := by
  split
  · rename_i same
    rw [same, AList.lookup_insert]
  · rename_i apart
    exact AList.lookup_insert_ne apart

theorem lookup_erase_eq :
    (map.erase key).lookup other = if other = key then none else map.lookup other := by
  split
  · rename_i same
    rw [same, AList.lookup_erase]
  · rename_i apart
    exact AList.lookup_erase_ne apart

end Alist

end KeyValue

end EmbedCache.Lib
