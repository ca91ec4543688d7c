import EmbedCache.Lib.Bytes

/-! Rows copied by subwarps.

A subwarp of `width` lanes looks up `width` rows, one a lane, and then copies them one
after another with all its lanes: in every round lane `l` moves the element at
`k + l * element`. The loop counter `k` is an unsigned number of a fixed range, so the
loop ends only if the last row element is far enough from the end of that range. -/

namespace EmbedCache.Lib

open List Nat

variable {α β σ : Type*}

/-- The lists that `f` produces, one after another; `none` as soon as one of them is missing. -/
def gather (f : α → Option (List β)) : List α → Option (List β)
  | [] => some []
  | item :: rest => (f item).bind fun here => (gather f rest).map (here ++ ·)

theorem gather_isSome_iff (f : α → Option (List β)) (items : List α) :
    (gather f items).isSome = true ↔ ∀ item ∈ items, (f item).isSome = true := by
  induction items with
  | nil => simp [gather]
  | cons item rest ih =>
    cases produced : f item with
    | none => simp [gather, produced]
    | some here => simp [gather, produced, ih]

theorem mem_gather_iff {f : α → Option (List β)} {items : List α} {all : List β}
    (gathered : gather f items = some all) (x : β) :
    x ∈ all ↔ ∃ item ∈ items, ∃ here, f item = some here ∧ x ∈ here := by
  induction items generalizing all with
  | nil =>
    cases gathered
    simp
  | cons item rest ih =>
    cases produced : f item with
    | none => simp [gather, produced] at gathered
    | some here =>
      cases following : gather f rest with
      | none => simp [gather, produced, following] at gathered
      | some others =>
        have whole : here ++ others = all := by simpa [gather, produced, following] using gathered
        rw [← whole, mem_append, ih following]
        simp [produced]

theorem gather_congr {f g : α → Option (List β)} {items : List α}
    (same : ∀ item ∈ items, f item = g item) :
    gather f items = gather g items := by
  induction items with
  | nil => rfl
  | cons item rest ih =>
    rw [gather, gather, same item mem_cons_self,
      ih fun other member => same other (mem_cons_of_mem _ member)]

/-! ### The loop over a row -/

/-- A counter from `k` on in steps below `limit`, in a type of `modulus` values: the values
the loop body sees, `none` when the fuel ends before the loop. -/
def countUp (modulus limit step : Nat) : Nat → Nat → Option (List Nat)
  | 0, _ => none
  | fuel + 1, k =>
    if k < limit then (countUp modulus limit step fuel ((k + step) % modulus)).map (k :: ·)
    else some []

section Loop

variable {modulus limit step : Nat}

theorem mem_countUp_iff (room : limit + step ≤ modulus) {fuel k : Nat} {ks : List Nat}
    (ended : countUp modulus limit step fuel k = some ks) (x : Nat) :
    x ∈ ks ↔ ∃ round, x = k + round * step ∧ x < limit := by
  induction fuel generalizing k ks with
  | zero => cases ended
  | succ fuel ih =>
    rw [countUp] at ended
    by_cases inside : k < limit
    · have unwrapped : (k + step) % modulus = k + step := mod_eq_of_lt (by omega)
      rw [if_pos inside, unwrapped] at ended
      obtain ⟨rest, later, rfl⟩ := Option.map_eq_some_iff.mp ended
      rw [mem_cons, ih later]
      constructor
      · rintro (rfl | ⟨round, place, below⟩)
        · exact ⟨0, by omega, inside⟩
        · exact ⟨round + 1, by rw [Nat.succ_mul]; omega, below⟩
      · rintro ⟨round, place, below⟩
        cases round with
        | zero => exact .inl (by omega)
        | succ round => exact .inr ⟨round, by rw [Nat.succ_mul] at place; omega, below⟩
    · rw [if_neg inside] at ended
      cases ended
      simp only [not_mem_nil, false_iff, not_exists, not_and]
      intro round place
      omega

theorem countUp_isSome (room : limit + step ≤ modulus) {fuel k : Nat}
    (enough : limit ≤ k + fuel * step) :
    (countUp modulus limit step (fuel + 1) k).isSome = true := by
  induction fuel generalizing k with
  | zero =>
    have outside : ¬ k < limit := by omega
    rw [countUp, if_neg outside]
    rfl
  | succ fuel ih =>
    rw [countUp]
    by_cases inside : k < limit
    · have unwrapped : (k + step) % modulus = k + step := mod_eq_of_lt (by omega)
      rw [if_pos inside, unwrapped, Option.isSome_map]
      exact ih (by rw [Nat.succ_mul] at enough; omega)
    · rw [if_neg inside]
      rfl

theorem countUp_eq_none (whole : step ∣ modulus) (room : modulus < limit + step)
    (positive : 0 < modulus)
    (fuel : Nat) {k : Nat} (multiple : step ∣ k) (range : k < modulus) :
    countUp modulus limit step fuel k = none := by
  induction fuel generalizing k with
  | zero => rfl
  | succ fuel ih =>
    have last : k + step ≤ modulus := by
      obtain ⟨count, rfl⟩ := whole
      obtain ⟨round, rfl⟩ := multiple
      have fewer : round < count := Nat.lt_of_mul_lt_mul_left range
      calc
        step * round + step = step * (round + 1) := by ring
        _ ≤ step * count := Nat.mul_le_mul_left _ fewer
    have inside : k < limit := by omega
    have divides : step ∣ (k + step) % modulus :=
      (Nat.dvd_mod_iff whole).mpr (Nat.dvd_add multiple (Nat.dvd_refl step))
    rw [countUp, if_pos inside, ih divides (mod_lt _ positive)]
    rfl

end Loop

/-! ### The rows of a subwarp -/

structure LaneCopy (σ : Type*) where
  position : Nat
  offset : Nat
  source : σ

def laneOffsets (modulus row element width fuel lane : Nat) : Option (List Nat) :=
  (countUp modulus row (element * width) fuel 0).map fun ks =>
    (ks.map fun k => (k + lane * element) % modulus).filter (· < row)

/-- What one lane of the subwarp that starts at row `first` moves; lane `s` found `shuffled s`. -/
def laneCopies (modulus row element width fuel first lane : Nat) (shuffled : Nat → Option σ) :
    Option (List (LaneCopy σ)) :=
  gather (fun s => match shuffled s with
      | none => some []
      | some source => (laneOffsets modulus row element width fuel lane).map fun offsets =>
        offsets.map fun offset => ⟨(first + s) % modulus, offset, source⟩)
    (List.range width)

section Copies

variable {modulus row element width fuel : Nat}

variable (room : row + element * width ≤ modulus)

include room in
theorem mem_laneOffsets_iff {lane : Nat} (inside : lane < width)
    {offsets : List Nat} (ended : laneOffsets modulus row element width fuel lane = some offsets)
    (x : Nat) :
    x ∈ offsets ↔ x < row ∧ ∃ round, x = (round * width + lane) * element := by
  obtain ⟨ks, counted, rfl⟩ := Option.map_eq_some_iff.mp ended
  have lanes : lane * element ≤ element * width := by
    rw [mul_comm]
    exact Nat.mul_le_mul_left _ inside.le
  have places : ∀ round, 0 + round * (element * width) + lane * element =
      (round * width + lane) * element := by
    intro round
    ring
  rw [mem_filter, mem_map]
  simp only [decide_eq_true_eq]
  constructor
  · rintro ⟨⟨k, listed, rfl⟩, below⟩
    obtain ⟨round, rfl, started⟩ := (mem_countUp_iff room counted k).mp listed
    have unwrapped :=
      mod_eq_of_lt (show 0 + round * (element * width) + lane * element < modulus by omega)
    rw [unwrapped] at below ⊢
    exact ⟨below, round, places round⟩
  · rintro ⟨below, round, rfl⟩
    have place := places round
    refine ⟨⟨0 + round * (element * width),
      (mem_countUp_iff room counted _).mpr ⟨round, rfl, by omega⟩, ?_⟩, below⟩
    rw [place]
    exact mod_eq_of_lt (by omega)

variable {shuffled : Nat → Option σ}

include room in
theorem mem_laneCopies_iff {first lane : Nat} (inside : lane < width)
    (rows : first + width ≤ modulus) {copies : List (LaneCopy σ)}
    (ended : laneCopies modulus row element width fuel first lane shuffled = some copies)
    (copy : LaneCopy σ) :
    copy ∈ copies ↔ ∃ s < width, copy.position = first + s ∧ shuffled s = some copy.source ∧
      copy.offset < row ∧
      ∃ round, copy.offset = (round * width + lane) * element := by
  rw [mem_gather_iff ended]
  constructor
  · rintro ⟨s, listed, here, produced, member⟩
    have range := mem_range.mp listed
    have position : (first + s) % modulus = first + s := mod_eq_of_lt (by omega)
    cases found : shuffled s with
    | none =>
      simp only [found, Option.some.injEq] at produced
      subst produced
      simp at member
    | some source =>
      simp only [found] at produced
      obtain ⟨offsets, moved, rfl⟩ := Option.map_eq_some_iff.mp produced
      obtain ⟨offset, chosen, rfl⟩ := mem_map.mp member
      obtain ⟨below, round⟩ := (mem_laneOffsets_iff room inside moved offset).mp chosen
      exact ⟨s, range, position, found, below, round⟩
  · rintro ⟨s, range, position, found, below, round⟩
    have unwrapped : (first + s) % modulus = first + s := mod_eq_of_lt (by omega)
    have listed := mem_range.mpr range
    have all := (gather_isSome_iff _ _).mp (Option.isSome_of_eq_some ended) s listed
    simp only [found, Option.isSome_map] at all
    obtain ⟨offsets, moved⟩ := Option.isSome_iff_exists.mp all
    have chosen := (mem_laneOffsets_iff room inside moved copy.offset).mpr ⟨below, round⟩
    refine ⟨s, listed, offsets.map fun offset => ⟨(first + s) % modulus, offset, copy.source⟩, ?_,
      ?_⟩
    · simp only [found, moved, Option.map_some]
    · exact mem_map.mpr ⟨copy.offset, chosen, by rw [unwrapped, ← position]⟩

theorem laneCopies_congr (first lane : Nat) {one other : Nat → Option σ}
    (same : ∀ s < width, one s = other s) :
    laneCopies modulus row element width fuel first lane one =
      laneCopies modulus row element width fuel first lane other := by
  apply gather_congr
  intro s listed
  rw [same s (mem_range.mp listed)]

theorem laneCopies_of_none (first lane : Nat) (nothing : ∀ s < width, shuffled s = none) :
    laneCopies modulus row element width fuel first lane shuffled = some [] := by
  have empty : ∀ items : List Nat, gather (fun _ => (some [] : Option (List (LaneCopy σ)))) items =
      some [] := by
    intro items
    induction items with
    | nil => rfl
    | cons item rest ih => simp [gather, ih]
  rw [← empty (List.range width)]
  apply gather_congr
  intro s listed
  rw [nothing s (mem_range.mp listed)]

include room in
theorem laneCopies_isSome (enough : row ≤ fuel * (element * width))
    (first lane : Nat) (shuffled : Nat → Option σ) :
    (laneCopies modulus row element width (fuel + 1) first lane shuffled).isSome = true := by
  have ended : (laneOffsets modulus row element width (fuel + 1) lane).isSome = true := by
    rw [laneOffsets, Option.isSome_map]
    exact countUp_isSome room (by omega)
  rw [laneCopies, gather_isSome_iff]
  intro s _
  cases shuffled s with
  | none => rfl
  | some source => rw [Option.isSome_map, ended]

/-- A lane that has a row to copy gets stuck in a loop without room. -/
theorem laneCopies_eq_none (whole : element * width ∣ modulus)
    (room : modulus < row + element * width)
    (positive : 0 < modulus) (first lane : Nat) {s : Nat} (range : s < width)
    (found : (shuffled s).isSome = true) :
    laneCopies modulus row element width fuel first lane shuffled = none := by
  have stuck : laneOffsets modulus row element width fuel lane = none := by
    rw [laneOffsets, countUp_eq_none whole room positive fuel (Nat.dvd_zero _) positive]
    rfl
  rw [← Option.not_isSome_iff_eq_none, laneCopies, gather_isSome_iff]
  intro all
  have here := all s (mem_range.mpr range)
  obtain ⟨source, shown⟩ := Option.isSome_iff_exists.mp found
  rw [shown] at here
  simp only [stuck] at here
  exact absurd here (by simp)

/-- `total` threads in subwarps: thread `n` is lane `n % width` of the subwarp of row `n / width *
width`. -/
def gridCopies (modulus row element width fuel total : Nat) (pointer : Nat → Option σ) :
    Option (List (LaneCopy σ)) :=
  gather (fun n => laneCopies modulus row element width fuel (n / width * width) (n % width)
    fun s => pointer (n / width * width + s)) (List.range total)

include room in
/-- The threads move every element of every row that was found, and nothing else. -/
theorem mem_gridCopies_iff (lanes : 0 < width)
    {total : Nat} (full : width ∣ total) (bound : total ≤ modulus) {pointer : Nat → Option σ}
    {copies : List (LaneCopy σ)}
    (ended : gridCopies modulus row element width fuel total pointer = some copies)
    (copy : LaneCopy σ) :
    copy ∈ copies ↔ copy.position < total ∧ pointer copy.position = some copy.source ∧
      copy.offset < row ∧
      element ∣ copy.offset := by
  -- a subwarp that starts below `total` also ends there
  have subwarp : ∀ n < total, n / width * width + width ≤ total := by
    intro n range
    obtain ⟨count, rfl⟩ := full
    have fewer : n / width < count :=
      (Nat.div_lt_iff_lt_mul lanes).mpr (by rw [mul_comm]; exact range)
    calc
      n / width * width + width = width * (n / width + 1) := by ring
      _ ≤ width * count := Nat.mul_le_mul_left _ fewer
  rw [mem_gather_iff ended]
  constructor
  · rintro ⟨n, listed, here, produced, member⟩
    have fits := subwarp n (mem_range.mp listed)
    obtain ⟨s, range, position, found, below, round, place⟩ :=
      (mem_laneCopies_iff room (mod_lt n lanes) (by omega) produced copy).mp member
    rw [← position] at found
    exact ⟨by omega, found, below, Dvd.intro_left _ place.symm⟩
  · rintro ⟨range, found, below, index, place⟩
    have lane : index % width < width := mod_lt _ lanes
    have fits := subwarp copy.position range
    have start : (copy.position / width * width + index % width) / width =
        copy.position / width := by
      rw [mul_comm, Nat.mul_add_div lanes, Nat.div_eq_of_lt lane, Nat.add_zero]
    have rest : (copy.position / width * width + index % width) % width = index % width := by
      rw [mul_comm, Nat.mul_add_mod, mod_eq_of_lt lane]
    have division := Nat.div_add_mod' copy.position width
    have listed : copy.position / width * width + index % width ∈ List.range total :=
      mem_range.mpr (by omega)
    have some_lane := (gather_isSome_iff _ _).mp (Option.isSome_of_eq_some ended) _ listed
    obtain ⟨here, produced⟩ := Option.isSome_iff_exists.mp some_lane
    refine ⟨_, listed, here, produced, ?_⟩
    rw [start, rest] at produced
    refine (mem_laneCopies_iff room lane (by omega) produced copy).mpr
      ⟨copy.position % width, mod_lt _ lanes, division.symm, ?_, below, index / width, ?_⟩
    · rw [division]
      exact found
    · rw [Nat.div_add_mod', mul_comm, place]

end Copies

end EmbedCache.Lib
