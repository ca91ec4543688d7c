import EmbedCache.RedisNames

/-! `clear` and `size` of a namespace: a `SCAN` with a glob pattern made from the bytes of the
namespace. -/

namespace EmbedCache.RedisClusterTable

open Lib List

def star : UInt8 := 42
def question : UInt8 := 63
def opening : UInt8 := 91
def closing : UInt8 := 93
def backslash : UInt8 := 92

/-! ### The glob rules of the server -/

-- how the server reads a class behind its opening bracket: whether it has the character, and the
-- rest of the pattern
variable (classMatch : UInt8 → List UInt8 → Bool × List UInt8)

inductive Glob : List UInt8 → List UInt8 → Prop
  | done : Glob [] []
  | star {pattern text} (skipped : List UInt8) :
    Glob pattern text → Glob (star :: pattern) (skipped ++ text)
  | any {c pattern text} : Glob pattern text → Glob (question :: pattern) (c :: text)
  | oneOf {c pattern text} : (classMatch c pattern).1 = true → Glob (classMatch c pattern).2 text →
      Glob (opening :: pattern) (c :: text)
  | escaped {c pattern text} : Glob pattern text → Glob (backslash :: c :: pattern) (c :: text)
  | last : Glob [backslash] [backslash]
  | plain {c pattern text} : c ∉ [RedisClusterTable.star, question, opening, backslash] →
    Glob pattern text →
      Glob (c :: pattern) (c :: text)

/-! ### The pattern of a namespace -/

def escape (c : UInt8) : List UInt8 :=
  if c = star ∨ c = question ∨ c = opening ∨ c = closing ∨ c = backslash then [backslash, c]
  else [c]

def namespaceBytes (namespaceId : BitVec 64) : List UInt8 :=
  readRange (littleEndian namespaceId.toNat) 0 8

def makePrefixScanPattern (namespaceId : BitVec 64) : List UInt8 :=
  (namespaceBytes namespaceId).flatMap escape ++ [star]

theorem glob_escape_iff (c : UInt8) (pattern text : List UInt8) :
    Glob classMatch (escape c ++ pattern) text ↔ ∃ rest, text = c :: rest ∧
      Glob classMatch pattern rest := by
  rw [escape]
  split
  · constructor
    · intro matched
      cases matched with
      | escaped behind => exact ⟨_, rfl, behind⟩
      | plain ordinary _ => exact absurd ordinary (by decide)
    · rintro ⟨rest, rfl, behind⟩
      exact Glob.escaped behind
  · rename_i ordinary
    simp only [not_or] at ordinary
    constructor
    · intro matched
      cases matched with
      | star | any | oneOf | escaped | last => simp at ordinary
      | plain _ behind => exact ⟨_, rfl, behind⟩
    · rintro ⟨rest, rfl, behind⟩
      exact Glob.plain (by simp [ordinary]) behind

theorem glob_escaped_iff (bytes text : List UInt8) :
    Glob classMatch (bytes.flatMap escape ++ [star]) text ↔ bytes <+: text := by
  induction bytes generalizing text with
  | nil =>
    have all : Glob classMatch [star] (text ++ []) := Glob.star text Glob.done
    rw [append_nil] at all
    exact iff_of_true all nil_prefix
  | cons c bytes ih =>
    rw [flatMap_cons, append_assoc, glob_escape_iff]
    constructor
    · rintro ⟨rest, rfl, behind⟩
      exact cons_prefix_cons.mpr ⟨rfl, (ih rest).mp behind⟩
    · rintro ⟨rest, rfl⟩
      exact ⟨bytes ++ rest, rfl, (ih _).mpr (prefix_append bytes rest)⟩

theorem namespaceBytes_prefix_iff {namespaceId other : BitVec 64} (used : 0 ≤ other.toInt)
    {keySize : Nat}
    (buffer : Nat → UInt8) (slot : Nat) (key : BitVec (8 * keySize)) :
    namespaceBytes namespaceId <+: writeStringKey buffer slot other key ↔ namespaceId = other := by
  have own : namespaceBytes other = (writeStringKey buffer slot other key).take 8 := by
    rw [writeStringKey_eq buffer slot used, readRange, ← map_take, take_range,
      min_eq_left (Nat.le_add_right 8 _)]
    refine map_congr_left fun i inside => ?_
    simp [mem_range.mp inside]
  rw [prefix_iff_eq_take, namespaceBytes, readRange_length, ← own, namespaceBytes, readRange_eq_iff]
  constructor
  · intro bytes
    exact eq_of_bytes fun i inside => by simpa using bytes i inside
  · rintro rfl _ _
    rfl

/-! ### Scans -/

/-- A full iteration of `SCAN`, from cursor `0` back to it. The keys change between the replies; one
that is there all the time is returned, perhaps more than once. -/
structure Scanned (pattern : List UInt8) (keys : Nat → Set (List UInt8))
    (batches : List (List (List UInt8))) : Prop where
  returned : ∀ batch ∈ batches, ∀ key ∈ batch, Glob classMatch pattern key ∧
    ∃ i ≤ batches.length, key ∈ keys i
  complete : ∀ key, (∀ i ≤ batches.length, key ∈ keys i) → Glob classMatch pattern key →
    key ∈ batches.flatten

/-- The keys when `clear` has deleted `i` batches. -/
def cleared (keys : Set (List UInt8)) (batches : List (List (List UInt8))) (i : Nat) :
    Set (List UInt8) :=
  {key | key ∈ keys ∧ key ∉ (batches.take i).flatten}

def scanSize (batches : List (List (List UInt8))) : Nat := (batches.map length).sum

/-- One reply with all keys of the namespace is a full iteration, whatever happens after it. -/
theorem scanned_once (namespaceId : BitVec 64) (stored : List (List UInt8))
    {keys : Nat → Set (List UInt8)}
    (start : keys 0 = {key | key ∈ stored}) :
    Scanned classMatch (makePrefixScanPattern namespaceId) keys
      [stored.filter fun key => (namespaceBytes namespaceId).isPrefixOf key] where
  returned batch listed key member := by
    rw [mem_singleton.mp listed, mem_filter, isPrefixOf_iff_prefix] at member
    exact ⟨(glob_escaped_iff classMatch _ key).mpr member.2, 0, Nat.zero_le _, start ▸ member.1⟩
  complete key present matched := by
    have first : key ∈ {key | key ∈ stored} := start ▸ present 0 (Nat.zero_le _)
    rw [flatten_singleton, mem_filter, isPrefixOf_iff_prefix]
    exact ⟨first, (glob_escaped_iff classMatch _ key).mp matched⟩

/-- One key in each of two namespaces; the first byte of one of these is a star. -/
def twoTables : List (List UInt8) :=
  [writeStringKey (fun _ => 0) 0 42 (5 : BitVec (8 * 8)),
    writeStringKey (fun _ => 0) 0 7 (5 : BitVec (8 * 8))]

/-- The pattern stands for the keys that begin with the namespace, which are those of its table. -/
theorem namespace_scan_exact (namespaceId : BitVec 64) :
    (∀ text, Glob classMatch (makePrefixScanPattern namespaceId) text ↔
      namespaceBytes namespaceId <+: text) ∧
    (∀ other : BitVec 64, 0 ≤ other.toInt →
      ∀ (keySize : Nat) buffer slot (key : BitVec (8 * keySize)),
      namespaceBytes namespaceId <+: writeStringKey buffer slot other key ↔ namespaceId = other) ∧
    (∀ keys batches, Scanned classMatch (makePrefixScanPattern namespaceId)
      (cleared keys batches) batches → ∀ key,
      key ∈ cleared keys batches batches.length ↔ key ∈ keys ∧
        ¬ namespaceBytes namespaceId <+: key) ∧
    (∀ keys batches, Scanned classMatch (makePrefixScanPattern namespaceId)
      (fun _ => keys) batches →
      scanSize batches = batches.flatten.length ∧
      ∀ key, key ∈ batches.flatten ↔ key ∈ keys ∧ namespaceBytes namespaceId <+: key) := by
  have pattern : ∀ text, Glob classMatch (makePrefixScanPattern namespaceId) text ↔
      namespaceBytes namespaceId <+: text :=
    glob_escaped_iff classMatch _
  refine ⟨pattern, fun other used keySize buffer slot key => namespaceBytes_prefix_iff used buffer
    slot key, ?_, ?_⟩
  · intro keys batches scan key
    rw [cleared, take_length, Set.mem_ofPred_eq]
    refine and_congr_right fun present => not_congr ⟨?_, fun own => by_contra fun kept => ?_⟩
    · intro deleted
      obtain ⟨batch, listed, member⟩ := mem_flatten.mp deleted
      exact (pattern key).mp (scan.returned batch listed key member).1
    · refine kept
        (scan.complete key (fun i _ => ⟨present, fun early => kept ?_⟩) ((pattern key).mpr own))
      exact (take_sublist i batches).flatten.subset early
  · intro keys batches scan
    refine ⟨length_flatten.symm, fun key => ⟨fun found => ?_, fun own => ?_⟩⟩
    · obtain ⟨batch, listed, member⟩ := mem_flatten.mp found
      obtain ⟨matched, _, _, present⟩ := scan.returned batch listed key member
      exact ⟨present, (pattern key).mp matched⟩
    · exact scan.complete key (fun _ _ => own.1) ((pattern key).mpr own.2)

theorem namespace_scan_exact_star :
    ∃ batches, Scanned (fun _ rest => (false, rest)) (makePrefixScanPattern 42)
      (cleared {key | key ∈ twoTables} batches) batches ∧
      Scanned (fun _ rest => (false, rest)) (makePrefixScanPattern 42)
        (fun _ => {key | key ∈ twoTables}) batches ∧
      scanSize batches = 1 ∧
      ∀ key, key ∈ cleared {key | key ∈ twoTables} batches batches.length ↔
        key ∈ twoTables ∧ ¬ namespaceBytes 42 <+: key := by
  obtain ⟨-, -, clears, -⟩ := namespace_scan_exact (fun _ rest => (false, rest)) 42
  have whole : ∀ batches, cleared {key | key ∈ twoTables} batches 0 = {key | key ∈ twoTables} := by
    intro batches
    ext key
    exact and_iff_left not_mem_nil
  refine ⟨_, scanned_once _ 42 twoTables (whole _), scanned_once _ 42 twoTables rfl, by decide, ?_⟩
  exact clears _ _ (scanned_once _ 42 twoTables (whole _))

end EmbedCache.RedisClusterTable
