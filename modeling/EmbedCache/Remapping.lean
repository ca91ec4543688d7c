import EmbedCache.LayerDirectory

/-! Remapped storage references. -/

namespace EmbedCache.NveLoader

open Lib HostTable
open Throwing (Triple)

variable {W P : Type}

def dtypeSize : DataTypeT → Nat
  | .float32 => 4
  | .float16 | .bfloat => 2
  | .float64 => 8
  | _ => 1

/-- What the directory has under a key, for layers of one kind. -/
def Process.holding (process : Process W) (hierarchical : Bool) (key : String) : Option Storage :=
  if hierarchical then (process.psTables key).map .table else (process.memblocks key).map .block

def Entry.hierarchical (entry : Entry P) : Bool := entry.layerType == some .hierarchical

/-- The object has the layer's rows, row size and type. -/
def Process.Fits (process : Process W) (entry : Entry P) (dtype : DataTypeT) : Storage → Prop
  | .block block => process.blockGeometry block = entry.geometry dtype
  | .table table => process.tableGeometry table = ⟨entry.embeddingSize * dtypeSize dtype, dtype⟩

/-- The layer gets the object under `key`: the one that was there, if it fits, else one that is put
there. It gets none only if nothing was there or what was there does not fit. -/
def Follows {α : Type} (hierarchical : Bool) (storage : α → Storage) (key : String)
    (fits : Storage → Prop)
    (before : Loading W) : Except Point α × Loading W → Prop
  | (.ok value, after) => after.holding hierarchical key = some (storage value) ∧
      ∀ known ∈ before.holding hierarchical key, known = storage value ∧ fits known
  | (.error _, _) => ∀ known ∈ before.holding hierarchical key, ¬ fits known

/-! ### Directories only grow -/

structure Grows (before after : Process W) : Prop where
  remap : after.remap = before.remap
  memblocks : ∀ key block, before.memblocks key = some block → after.memblocks key = some block
  psTables : ∀ key table, before.psTables key = some table → after.psTables key = some table
  bindings : before.bindings <+: after.bindings

theorem Grows.refl (process : Process W) : Grows process process :=
  ⟨rfl, fun _ _ held => held, fun _ _ held => held, List.prefix_refl _⟩

theorem Grows.trans {first second third : Process W} (one : Grows first second)
    (two : Grows second third) :
    Grows first third :=
  ⟨two.remap.trans one.remap,
    fun key block held => two.memblocks key block (one.memblocks key block held),
    fun key table held => two.psTables key table (one.psTables key table held),
      one.bindings.trans two.bindings⟩

theorem Grows.holding {before after : Process W} (grows : Grows before after) {hierarchical : Bool}
    {key : String}
    {storage : Storage} (held : before.holding hierarchical key = some storage) :
    after.holding hierarchical key = some storage := by
  cases hierarchical with
  | false =>
    obtain ⟨block, there, rfl⟩ := Option.map_eq_some_iff.mp held
    exact Option.map_eq_some_iff.mpr ⟨block, grows.memblocks key block there, rfl⟩
  | true =>
    obtain ⟨table, there, rfl⟩ := Option.map_eq_some_iff.mp held
    exact Option.map_eq_some_iff.mpr ⟨table, grows.psTables key table there, rfl⟩

theorem Grows.binding {before after : Process W} (grows : Grows before after) {index : Nat}
    {storage : Storage}
    (there : before.bindings[index]? = some storage) : after.bindings[index]? = some storage := by
  obtain ⟨rest, whole⟩ := grows.bindings
  rw [← whole, List.getElem?_append_left (List.getElem?_eq_some_iff.mp there).1, there]

theorem update_missing {held : String → Option Nat} {key : String}
    (missing : held key = none) (new : Nat)
    (other : String) (object : Nat) (there : held other = some object) :
    Function.update held key (some new) other = some object := by
  rw [Function.update_of_ne (fun same => by simp [← same, there] at missing), there]

section Turns

variable {env : Surroundings W P} {layer : Nat} {before middle after : Loading W} {entry : Entry P}
  {dtype : DataTypeT}

theorem Chosen.grows {chosen : Nat × Bool} (choice : Chosen before entry dtype chosen after) :
    Grows before.toProcess after.toProcess := by
  cases choice with
  | hit => exact .refl _
  | built ref missing => exact ⟨rfl, update_missing (show before.memblocks _ = none from missing) _,
    fun _ _ held => held, List.prefix_refl _⟩
  | own => exact ⟨rfl, fun _ _ held => held, fun _ _ held => held, List.prefix_refl _⟩

theorem Tabled.grows {remotePs : String → Option (Option (PsConfig P))} {table : Nat}
    (tabled : Tabled env remotePs before entry table after) :
      Grows before.toProcess after.toProcess := by
  cases tabled with
  | hit => exact .refl _
  | built missing =>
    exact ⟨rfl, fun _ _ held => held, update_missing (show before.psTables _ = none from missing) _,
    List.prefix_refl _⟩

theorem Weighted.grows {block : Nat} {needsWeightLoad : Bool}
    (weighted : Weighted env entry block needsWeightLoad before after) :
      Grows before.toProcess after.toProcess := by
  cases weighted with
  | skipped => exact .refl _
  | loaded => exact ⟨rfl, fun _ _ held => held, fun _ _ held => held, List.prefix_refl _⟩

theorem Chosen.holds {chosen : Nat × Bool} (choice : Chosen before entry dtype chosen after)
    (ref : entry.storageRef ≠ "")
    (once : before.remap (before.remap entry.storageRef) = before.remap entry.storageRef) :
    after.holding false (before.remap entry.storageRef) = some (.block chosen.1) := by
  cases choice with
  | hit _ found => simpa [Process.holding, Process.findMemblock, once] using found
  | built => simp [Process.holding, once]
  | own none => exact absurd none ref

theorem Tabled.holds {remotePs : String → Option (Option (PsConfig P))} {table : Nat}
    (tabled : Tabled env remotePs before entry table after)
    (once : before.remap (before.remap entry.storageRef) = before.remap entry.storageRef) :
    after.holding true (before.remap entry.storageRef) = some (.table table) := by
  cases tabled with
  | hit found => simpa [Process.holding, Process.findPs, once] using found
  | built => simp [Process.holding, once]

/-- A layer with a reference is bound to what the directory has under the target. -/
structure Bound (entry : Entry P) (before after : Process W) : Prop where
  grows : Grows before after
  last : ∃ storage, after.bindings = before.bindings ++ [storage] ∧ (entry.storageRef ≠ "" →
    before.remap (before.remap entry.storageRef) = before.remap entry.storageRef →
      after.holding entry.hierarchical (before.remap entry.storageRef) = some storage)

theorem Bound.later {last : Process W} (bound : Bound entry before.toProcess middle.toProcess)
    (grows : Grows middle.toProcess last) (same : last.bindings = middle.bindings) :
      Bound entry before.toProcess last := by
  obtain ⟨storage, bindings, held⟩ := bound.last
  exact ⟨bound.grows.trans grows, storage, same.trans bindings, fun ref once =>
    grows.holding (held ref once)⟩

theorem construct_bound (storage : Storage) (grows : Grows before.toProcess middle.toProcess)
    (same : middle.bindings = before.bindings) (held : entry.storageRef ≠ "" →
      before.remap (before.remap entry.storageRef) = before.remap entry.storageRef →
        middle.holding entry.hierarchical (before.remap entry.storageRef) = some storage) :
    Triple (· = middle) (construct env layer storage)
      (fun _ after => Bound entry before.toProcess after.toProcess)
      (fun _ after => Grows before.toProcess after.toProcess) := by
  refine (construct_spec storage).mono (fun _ after both => ?_) fun _ _ midway => midway.2.2 ▸ grows
  obtain ⟨-, rfl⟩ := both
  have added : Grows middle.toProcess { middle.toProcess with
    bindings := middle.bindings ++ [storage] } :=
    ⟨rfl, fun _ _ held => held, fun _ _ held => held, List.prefix_append ..⟩
  exact ⟨grows.trans added, storage, by rw [same], held⟩

theorem construct_grows {start : Process W} {storage : Storage} :
    Triple (fun state => Grows start state.toProcess)
    (construct env layer storage) (fun _ state => Grows start state.toProcess)
    (fun _ state => Grows start state.toProcess) := by
  refine fun middle grows => ((construct_spec storage).mono (fun _ after both => ?_)
    fun _ _ midway => midway.2.2 ▸ grows) middle rfl
  obtain ⟨-, rfl⟩ := both
  exact grows.trans ⟨rfl, fun _ _ held => held, fun _ _ held => held, List.prefix_append ..⟩

theorem readWeights_grows {start : Process W} {file : Int → Option W} {id : Int} {block : Nat} :
    Triple (fun state => Grows start state.toProcess) (readWeights env layer file id block)
      (fun _ state => Grows start state.toProcess)
        (fun _ state => Grows start state.toProcess) := by
  refine fun middle grows => ((readWeights_spec file id block).mono (fun _ after read => ?_)
    fun _ _ midway => midway.2.2 ▸ grows) middle rfl
  obtain ⟨contents, -, rfl⟩ := read
  exact grows.trans ⟨rfl, fun _ _ held => held, fun _ _ held => held, List.prefix_refl _⟩

theorem Early.grows {point : Point} (early : Early layer before point after) :
    Grows before.toProcess after.toProcess :=
  early.2.2.2 ▸ .refl _

variable (memblocks : String → Option (Option MemblockConfig))
  (remotePs : String → Option (Option (PsConfig P)))

theorem makeLayerV2_bound {layerType : LayerType} (type : entry.layerType = some layerType) :
    Triple (· = before) (makeLayerV2 env layer memblocks remotePs entry dtype layerType)
      (fun _ after => Bound entry before.toProcess after.toProcess)
      (fun _ after => Grows before.toProcess after.toProcess) := by
  by_cases hierarchical : layerType = .hierarchical
  · have kind : entry.hierarchical = true := by simp [Entry.hierarchical, type, hierarchical]
    rw [makeLayerV2, if_pos hierarchical]
    refine .bind ((require_early).rethrow fun _ _ => Early.grows) fun _ => ?_
    refine .bind ((getOrBuildPs_spec remotePs entry dtype).rethrow fun _ _ => Early.grows)
      fun table middle tabled => ?_
    exact construct_bound (.table table) tabled.grows tabled.frame.2
      (fun _ once => kind ▸ tabled.holds once) _ rfl
  · have kind : entry.hierarchical = false := by simp [Entry.hierarchical, type, hierarchical]
    rw [makeLayerV2, if_neg hierarchical]
    refine .bind ((chooseBlock_spec memblocks entry dtype layerType).rethrow fun _ _ => Early.grows)
      fun chosen middle choice => ?_
    refine Triple.bind (construct_bound (.block chosen.1) choice.grows choice.frame.2
      fun ref once => kind ▸ choice.holds ref once) (fun binding made bound => ?_) _ rfl
    refine Triple.bind ((loadWeights_spec entry chosen.1 chosen.2).mono
      (fun _ after weighted => bound.later weighted.grows weighted.frame.2)
      fun _ _ midway => midway.2.2 ▸ bound.grows) (fun _ => .pure fun _ bound => bound) _ rfl

theorem registerLayer_grows (binding : Nat) :
    Triple (· = before) (registerLayer env layer entry binding)
    (fun _ after => Grows before.toProcess after.toProcess ∧ after.bindings = before.bindings)
    (fun _ after => Grows before.toProcess after.toProcess) := by
  have added : Grows before.toProcess (before.registered (env.marker binding) binding).toProcess :=
    ⟨rfl, fun _ _ held => held, fun _ _ held => held, List.prefix_refl _⟩
  refine (registerLayer_spec entry binding).mono (fun _ after loaded => ?_) fun _ after thrown => ?_
  · obtain ⟨layers, rfl⟩ := loaded
    exact ⟨added, rfl⟩
  · rcases thrown with early | ⟨-, rfl⟩
    · exact early.grows
    · exact added

theorem loadLayerV2_bound (read : Option (Entry P)) :
    Triple (· = before) (loadLayerV2 env layer memblocks remotePs read)
    (fun _ after => ∃ entry, read = some entry ∧ Bound entry before.toProcess after.toProcess)
    (fun _ after => Grows before.toProcess after.toProcess) := by
  refine .bind ((demand_early).rethrow fun _ _ => Early.grows) fun entry => ?_
  rintro middle ⟨rfl, here⟩
  refine Triple.bind ((demand_early).mono (fun _ _ both => both.1) fun _ _ => Early.grows)
    (fun dtype => ?_) middle rfl
  refine .bind ((demand_early).rethrow fun _ _ => Early.grows) fun layerType => ?_
  rintro before ⟨rfl, type⟩
  refine Triple.bind (makeLayerV2_bound memblocks remotePs type)
    (fun binding made bound => ?_) before rfl
  exact ((registerLayer_grows binding).mono (fun _ _ both =>
    ⟨entry, here, bound.later both.1 both.2⟩)
    fun _ _ later => bound.grows.trans later) made rfl

omit memblocks remotePs in
theorem makeLayerV1_grows (dtype : DataTypeT) (layerType : LayerType) :
    Triple (· = before) (makeLayerV1 env layer entry dtype layerType)
      (fun _ after => Grows before.toProcess after.toProcess)
        (fun _ after => Grows before.toProcess after.toProcess) := by
  by_cases hierarchical : layerType = .hierarchical
  · rw [makeLayerV1, if_pos hierarchical]
    refine .bind ((demand_early).mono (fun _ _ both => both.1) fun _ _ => Early.grows) fun config =>
      ?_
    refine .bind ((createTable_spec config dtype).rethrow fun _ _ => Early.grows) fun table => ?_
    rintro middle ⟨rfl, rfl⟩
    exact construct_grows _ ⟨rfl, fun _ _ held => held, fun _ _ held => held, List.prefix_refl _⟩
  · rw [makeLayerV1, if_neg hierarchical]
    refine .bind ((createMemblock_spec _ _).rethrow fun _ _ => Early.grows) fun block => ?_
    rintro middle ⟨rfl, rfl⟩
    have added : Grows before.toProcess (before.withBlock (entry.geometry dtype)).toProcess :=
      ⟨rfl, fun _ _ held => held, fun _ _ held => held, List.prefix_refl _⟩
    refine Triple.bind ((openWeights_spec _).mono (fun _ _ both => both.1 ▸ added) fun _ _ midway =>
      midway.2.2 ▸ added)
      (fun file => ?_) _ rfl
    exact .bind construct_grows fun binding => .bind readWeights_grows fun _ =>
      .pure fun _ grows => grows

omit memblocks remotePs in
theorem loadLayerV1_grows (read : Option (Entry P)) :
    Triple (· = before) (loadLayerV1 env layer read)
    (fun _ after => Grows before.toProcess after.toProcess)
      (fun _ after => Grows before.toProcess after.toProcess) := by
  refine .bind ((demand_early).mono (fun _ _ both => both.1) fun _ _ => Early.grows) fun entry => ?_
  refine .bind ((demand_early).mono (fun _ _ both => both.1) fun _ _ => Early.grows) fun dtype => ?_
  refine .bind ((demand_early).mono (fun _ _ both => both.1) fun _ _ => Early.grows)
    fun layerType => ?_
  refine .bind (makeLayerV1_grows dtype layerType) fun binding made grows => ?_
  exact ((registerLayer_grows binding).mono (fun _ _ both => grows.trans both.1) fun _ _ later =>
    grows.trans later) made rfl

end Turns

/-! ### Loads -/

section Loads

variable {env : Surroundings W P} {layers : List (Option (Entry P))} {start state : Process W}

/-- The layers below `index` have been bound. -/
structure Progress (layers : List (Option (Entry P))) (start : Process W) (index : Nat)
    (state : Process W) : Prop where
  grows : Grows start state
  count : state.bindings.length = start.bindings.length + index
  bound : ∀ i < index, ∀ entry, layers[i]? = some (some entry) → entry.storageRef ≠ "" →
    start.remap (start.remap entry.storageRef) = start.remap entry.storageRef →
    ∃ storage, state.bindings[start.bindings.length + i]? = some storage ∧
      state.holding entry.hierarchical (start.remap entry.storageRef) = some storage

theorem Progress.next {index : Nat} {entry : Entry P} {after : Process W}
    (progress : Progress layers start index state)
    (here : layers[index]? = some (some entry)) (bound : Bound entry state after) :
    Progress layers start (index + 1) after := by
  obtain ⟨storage, bindings, held⟩ := bound.last
  rw [progress.grows.remap] at held
  refine ⟨progress.grows.trans bound.grows,
    by simp [bindings, progress.count, Nat.add_assoc], fun i below other there => ?_⟩
  rcases Nat.lt_succ_iff_lt_or_eq.mp below with earlier | rfl
  · intro ref once
    obtain ⟨old, place, known⟩ := progress.bound i earlier other there ref once
    exact ⟨old, bound.grows.binding place, bound.grows.holding known⟩
  · cases here.symm.trans there
    exact fun ref once => ⟨storage, by simp [bindings, progress.count], held ref once⟩

theorem legacy_grows :
    Triple (fun later => Grows start later.toProcess) (.forEach (loadLayerV1 env) 0 layers)
    (fun _ later => Grows start later.toProcess) (fun _ later => Grows start later.toProcess) :=
  .forEach (I := fun _ (later : Loading W) => Grows start later.toProcess) layers 0
    fun _ read _ later grows =>
    ((loadLayerV1_grows read).mono (fun _ _ => grows.trans) fun _ _ => grows.trans) later rfl

theorem versioned_progress {memblocks : String → Option (Option MemblockConfig)}
    {remotePs : String → Option (Option (PsConfig P))} :
      Triple (fun later => Progress layers start 0 later.toProcess)
    (.forEach (fun layer => loadLayerV2 env layer memblocks remotePs) 0 layers)
    (fun _ later => Progress layers start (0 + layers.length) later.toProcess)
    (fun _ later => Grows start later.toProcess) := by
  refine .forEach (I := fun index (later : Loading W) =>
    Progress layers start index later.toProcess) layers 0
    fun position read here later progress => ?_
  rw [Nat.zero_add] at progress ⊢
  refine ((loadLayerV2_bound memblocks remotePs read).mono (fun _ after turned => ?_)
    fun _ _ => progress.grows.trans) later rfl
  obtain ⟨entry, rfl, bound⟩ := turned
  exact progress.next here bound

theorem construction_progress {start : Loading W} : Triple (· = start) (construction env)
    (fun _ after => Grows start.toProcess after.toProcess ∧ ∀ version layers memblocks remotePs,
      env.metadata = some (.versioned version layers memblocks remotePs) →
        Progress layers start.toProcess layers.length after.toProcess)
    (fun _ after => Grows start.toProcess after.toProcess) := by
  refine .bind ((attempt_early).rethrow fun _ _ => Early.grows) fun _ => ?_
  refine .bind ((demand_early).rethrow fun _ _ => Early.grows) fun document => ?_
  rintro state ⟨rfl, metadata⟩
  cases document with
  | legacy layers =>
    refine (legacy_grows.mono (fun _ after grows => ⟨grows, fun _ _ _ _ other => ?_⟩)
      fun _ _ grows => grows) _ (.refl _)
    cases metadata.symm.trans other
  | versioned version layers memblocks remotePs =>
    refine Triple.bind ((require_early).rethrow fun _ _ => Early.grows) (fun _ => ?_) state rfl
    refine versioned_progress.weaken (fun _ same => same ▸ ⟨.refl _, rfl, nofun⟩)
      (fun _ after progress => ?_) fun _ _ grows => grows
    rw [Nat.zero_add] at progress
    refine ⟨progress.grows, fun _ _ _ _ other => ?_⟩
    cases metadata.symm.trans other
    exact progress

/-- The process after some loads, whether they failed or not. -/
def loads (envs : List (Surroundings W P)) (process : Process W) : Process W :=
  envs.foldl (fun process env => (layerDirectory env process).2.toProcess) process

theorem layerDirectory_grows (env : Surroundings W P) (process : Process W) :
    Grows process (layerDirectory env process).2.toProcess := by
  cases run : layerDirectory env process with
  | mk outcome after =>
    cases outcome with
    | ok => exact (construction_progress.returned rfl run).1
    | error => exact construction_progress.threw rfl run

theorem loads_grows (envs : List (Surroundings W P)) (process : Process W) :
    Grows process (loads envs process) := by
  induction envs generalizing process with
  | nil => exact .refl _
  | cons env rest ih => exact (layerDirectory_grows env process).trans (ih _)

/-- Every layer of a load that refers to `key` gets the object. -/
def Receives (env : Surroundings W P) (process : Process W) (hierarchical : Bool) (key : String)
    (storage : Storage) : Prop :=
  ∀ after, layerDirectory env process = (.ok (), after) → ∀ version layers memblocks remotePs,
    env.metadata = some (.versioned version layers memblocks remotePs) →
      ∀ i entry, layers[i]? = some (some entry) →
      entry.storageRef ≠ "" → entry.hierarchical = hierarchical →
        process.remap entry.storageRef = key →
        after.bindings[process.bindings.length + i]? = some storage ∧
          after.holding hierarchical key = some storage

theorem receives_of_holding {hierarchical : Bool} {key : String} {storage : Storage}
    (held : start.holding hierarchical key = some storage) (once : start.remap key = key)
    (env : Surroundings W P) :
    Receives env start hierarchical key storage := by
  intro after run version layers memblocks remotePs metadata i entry here ref kind target
  obtain ⟨grows, progress⟩ := construction_progress.returned rfl run
  subst kind target
  obtain ⟨other, place, known⟩ :=
    (progress _ _ _ _ metadata).bound i (List.getElem?_eq_some_iff.mp here).1 entry here ref once
  cases (grows.holding held).symm.trans known
  exact ⟨place, known⟩

/-- A layer's object is under the target after the load, and whatever loads follow, each later one
gives it to all its layers with that target. -/
def Registers (env : Surroundings W P) (process : Process W) (entry : Entry P) (key : String) :
    Prop :=
  ∀ after, layerDirectory env process = (.ok (), after) → ∀ version layers memblocks remotePs,
    env.metadata = some (.versioned version layers memblocks remotePs) →
      ∀ i, layers[i]? = some (some entry) →
      ∃ storage, after.bindings[process.bindings.length + i]? = some storage ∧
        after.holding entry.hierarchical key = some storage ∧
        ∀ (envs : List (Surroundings W P)) (later : Surroundings W P),
          Receives later (loads envs after.toProcess) entry.hierarchical key storage

theorem registers_of_once {entry : Entry P} (ref : entry.storageRef ≠ "")
    (once : start.remap (start.remap entry.storageRef) = start.remap entry.storageRef)
    (env : Surroundings W P) :
    Registers env start entry (start.remap entry.storageRef) := by
  intro after run version layers memblocks remotePs metadata i here
  obtain ⟨grows, progress⟩ := construction_progress.returned rfl run
  obtain ⟨storage, place, held⟩ :=
    (progress _ _ _ _ metadata).bound i (List.getElem?_eq_some_iff.mp here).1 entry here ref once
  refine ⟨storage, place, held, fun envs later => ?_⟩
  have more := loads_grows envs after.toProcess
  refine receives_of_holding (more.holding held) ?_ later
  rw [more.remap, grows.remap]
  exact once

end Loads

section Calls

variable {env : Surroundings W P} {layer : Nat} {before : Loading W} {entry : Entry P}
  {dtype : DataTypeT} {key : String}

theorem follows_iff {α : Type} {hierarchical : Bool} {storage : α → Storage} {call : Loader W α}
    {fits : Storage → Prop}
    (hit : ∀ known, before.holding hierarchical key = some known →
      ∃ value, call before = (.ok value, before) ∧ known = storage value)
    (miss : Triple (· = before) call (fun value after =>
      after.holding hierarchical key = some (storage value))
      fun _ _ => True) :
    Follows hierarchical storage key fits before (call before) ↔
      ∀ known ∈ before.holding hierarchical key, fits known := by
  cases held : before.holding hierarchical key with
  | some known =>
    obtain ⟨value, run, rfl⟩ := hit known held
    simp [Follows, run, held]
  | none =>
    refine iff_of_true ?_ (by simp)
    have result := miss before rfl
    split at result
    · rename_i run
      simpa [Follows, run, held] using result
    · rename_i run
      simp [Follows, run, held]

variable (target : before.remap entry.storageRef = key) (once : before.remap key = key)

include target once

theorem getOrBuildMemblock_follows (ref : entry.storageRef ≠ "") (fits : Storage → Prop)
    (memblocks : String → Option (Option MemblockConfig)) (deviceResident : Bool) :
    Follows false (fun chosen : Nat × Bool => .block chosen.1) key fits before
        (getOrBuildMemblock env layer memblocks entry dtype deviceResident before) ↔
      ∀ known ∈ before.holding false key, fits known := by
  subst target
  refine follows_iff (fun known held => ?_)
    ((getOrBuildMemblock_spec memblocks entry dtype deviceResident ref).mono
    (fun _ _ choice => choice.holds ref once) fun _ _ _ => trivial)
  obtain ⟨block, there, rfl⟩ := Option.map_eq_some_iff.mp held
  have found : before.findMemblock (before.remap entry.storageRef) = some block := by
    rw [Process.findMemblock, once, there]
  refine ⟨(block, false), ?_, rfl⟩
  simp only [getOrBuildMemblock, bind, Throwing.get, found]
  rfl

theorem getOrBuildPs_follows (fits : Storage → Prop)
    (remotePs : String → Option (Option (PsConfig P))) :
    Follows true .table key fits before (getOrBuildPs env layer remotePs entry dtype before) ↔
      ∀ known ∈ before.holding true key, fits known := by
  subst target
  refine follows_iff (fun known held => ?_) ((getOrBuildPs_spec remotePs entry dtype).mono
    (fun _ _ tabled => tabled.holds once) fun _ _ _ => trivial)
  obtain ⟨table, there, rfl⟩ := Option.map_eq_some_iff.mp held
  have found : before.findPs (before.remap entry.storageRef) = some table := by
    rw [Process.findPs, once, there]
  refine ⟨table, ?_, rfl⟩
  simp only [getOrBuildPs, bind, Throwing.get, found]
  rfl

end Calls

/-- A directory with one block of the given geometry, under `key`. -/
def oneBlock (remap : String → String) (key : String) (geometry : BlockGeometry) : Loading W where
  entries _ := none
  memblocks other := if other = key then some 0 else none
  psTables _ := none
  remap := remap
  blocks := [none]
  tables := []
  bindings := []
  blockGeometry _ := geometry
  tableGeometry _ := ⟨0, .unknown⟩
  weightsLoaded := []
  layers := []

/-- If the target is remapped again, a fitting block under it is not given to the layer. -/
theorem not_follows_of_remapped {env : Surroundings W P} {layer : Nat} {remap : String → String}
    {entry : Entry P}
    {dtype : DataTypeT} (ref : entry.storageRef ≠ "")
    (again : remap (remap entry.storageRef) ≠ remap entry.storageRef)
    (memblocks : String → Option (Option MemblockConfig)) (deviceResident : Bool)
    {before : Loading W}
    (one : before = oneBlock remap (remap entry.storageRef) (entry.geometry dtype)) :
    ¬ Follows false (fun chosen : Nat × Bool => .block chosen.1) (remap entry.storageRef)
      (before.Fits entry dtype) before
      (getOrBuildMemblock env layer memblocks entry dtype deviceResident before) := by
  have held : before.holding false (remap entry.storageRef) =
      some (.block 0) := by simp [one, oneBlock, Process.holding]
  have fits : before.Fits entry dtype (.block 0) := by simp [one, oneBlock, Process.Fits]
  have missing : before.findMemblock (before.remap entry.storageRef) = none := by
    simp [one, oneBlock, Process.findMemblock, again]
  have spec :
      Triple (· = before) (getOrBuildMemblock env layer memblocks entry dtype deviceResident)
      (Chosen before entry dtype) (Early layer before) :=
        getOrBuildMemblock_spec memblocks entry dtype deviceResident ref
  have result := spec before rfl
  intro follows
  split at result
  · rename_i chosen after run
    rw [run] at follows
    have same := (follows.2 _ held).1
    cases result with
    | hit _ found => simp [missing] at found
    | built => simp [one, oneBlock] at same
    | own none => exact ref none
  · rename_i run
    rw [run] at follows
    exact follows _ held fits

def aliased (key : String) : String := if key = "a" then "b" else key

def swapped (key : String) : String := if key = "a" then "b" else if key = "b" then "a" else key

def firstLayer (numEmbeddings : Nat) : Entry Unit :=
  ⟨1, "first", numEmbeddings, 2, "float32", some .hostLayer, "a", "", none⟩

def getBlock (numEmbeddings : Nat) : Loader Nat (Nat × Bool) :=
  getOrBuildMemblock (twoLayers (fun _ => none) fun _ => true) 0
    (fun _ => some (some ⟨2, 4, "MemBlockType.Host"⟩))
    (firstLayer numEmbeddings) .float32 false

end EmbedCache.NveLoader
