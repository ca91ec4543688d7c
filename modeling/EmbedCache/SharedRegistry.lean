import EmbedCache.Lib.Interning
import EmbedCache.ModelExport

/-! Exported models loaded one after another with one shared registry, by `_load_nve_layers_v2`
(`nve_export.py`) and by `LayerDirectory` (`nve_loader.hpp`).

Both look storage up under the names of the export, and do not load weights into storage that they
find. -/

namespace EmbedCache.SharedRegistry

open Lib NveLoader NveExport List Function
open Throwing (Triple)
open Directory (Answered Fetched Fetches Request answered_start forEach_answered)

variable {W P D : Type}

/-! ### The Python loader -/

/-- The registry of `load_nve_layers`, the objects made so far, and the storage of the layers made
so far. -/
structure Session (W : Type) where
  registry : String → Option Storage
  blocks : List (Option W)
  tables : List W
  layers : List Storage

abbrev PyLoader (W : Type) := Throwing (Session W) Point

section PyLoader

variable (env : Surroundings W P) (remap : String → String) (layer : Nat)

def pyAttempt (stage : Stage) : PyLoader W Unit :=
  .require (!env.fails ⟨layer, stage⟩) ⟨layer, stage⟩

def sameGeometry (config : MemblockConfig) (entry : Entry P) : Bool :=
  config.rowElements == entry.embeddingSize && config.numRows == entry.numEmbeddings

variable (memblocks : String → Option (Option MemblockConfig))

def pyBuildMemblock (entry : Entry P) : PyLoader W (Storage × Bool) := do
  let resource ← .demand (memblocks (remap entry.storageRef)) ⟨layer, .resource⟩
  let config ← .demand resource ⟨layer, .geometry⟩
  .require (sameGeometry config entry) ⟨layer, .geometry⟩
  pyAttempt env layer .allocate
  let state ← .get
  .modify fun state => { state with
    blocks := state.blocks ++ [none]
    registry :=
      Function.update state.registry (remap entry.storageRef) (some (.block state.blocks.length)) }
  pure (.block state.blocks.length, true)

def pyGetOrBuildMemblock (entry : Entry P) :
    PyLoader W (Storage × Bool) := do
  let state ← .get
  match state.registry (remap entry.storageRef), memblocks (remap entry.storageRef) with
  | some storage, some (some config) => do
      .require (sameGeometry config entry) ⟨layer, .geometry⟩
      pure (storage, false)
  | some storage, _ => pure (storage, false)
  | none, _ => pyBuildMemblock env remap layer memblocks entry

variable (remotePs : String → Option (Option (PsConfig P)))

def pyBuildPs (entry : Entry P) : PyLoader W Storage := do
  let resource ← .demand (remotePs (remap entry.storageRef)) ⟨layer, .resource⟩
  let config ← .demand resource ⟨layer, .plugin⟩
  .require (config.remotePsType == "plugin") ⟨layer, .plugin⟩
  pyAttempt env layer .plugin
  pyAttempt env layer .insertKeys
  let state ← .get
  .modify fun state => { state with
    tables := state.tables ++ [env.tableContents config.table]
    registry :=
      Function.update state.registry (remap entry.storageRef) (some (.table state.tables.length)) }
  pure (.table state.tables.length)

def pyGetOrBuildPs (entry : Entry P) : PyLoader W Storage := do
  let state ← .get
  match state.registry (remap entry.storageRef) with
  | some storage => pure storage
  | none => pyBuildPs env remap layer remotePs entry

def accepts (layerType : LayerType) : Storage → Bool
  | .block _ => layerType != .hierarchical
  | .table _ => layerType == .hierarchical

def makeLayer (layerType : LayerType) (storage : Storage) : PyLoader W Unit := do
  .require (accepts layerType storage) ⟨layer, .construct⟩
  pyAttempt env layer .construct
  .modify fun state => { state with layers := state.layers ++ [storage] }

/-- `load_from_stream` of the file of the layer's own reference. -/
def loadFromStream (entry : Entry P) (storage : Storage) : PyLoader W Unit := do
  pyAttempt env layer .openWeights
  let file ← .demand (env.weights entry.storageRef) ⟨layer, .openWeights⟩
  pyAttempt env layer .readWeights
  let contents ← .demand (file entry.id) ⟨layer, .readWeights⟩
  .modify fun state => match storage with
    | .block block => { state with blocks := state.blocks.set block (some contents) }
    | .table _ => state

/-- A turn of the loop in `_load_nve_layers_v2`. -/
def pyLoadLayer (read : Option (Entry P)) : PyLoader W Unit := do
  let entry ← .demand read ⟨layer, .fields⟩
  pyAttempt env layer .dtype
  let layerType ← .demand entry.layerType ⟨layer, .layerType⟩
  pyAttempt env layer .layerType
  .require (entry.storageRef != "") ⟨layer, .storageRef⟩
  if layerType = .hierarchical then do
    let storage ← pyGetOrBuildPs env remap layer remotePs entry
    makeLayer env layer layerType storage
  else do
    let (storage, isNew) ← pyGetOrBuildMemblock env remap layer memblocks entry
    makeLayer env layer layerType storage
    if isNew then loadFromStream env layer entry storage else pure ()

end PyLoader

/-- `_load_nve_layers_v2`; documents of the old schema are not given to it. -/
def loadNveLayersV2 (env : Surroundings W P) (remap : String → String) :
    Document P → PyLoader W Unit
  | .legacy _ => pure ()
  | .versioned _ layers memblocks remotePs =>
    .forEach (fun layer => pyLoadLayer env remap layer memblocks remotePs) 0 layers

/-! ### The directories that the loaders show -/

variable (blocks : List (Option W)) (tables : List W)

def contentsOf : Storage → Option W
  | .block index => blocks[index]?.join
  | .table index => tables[index]?

def resourceView (process : Process W) : Directory (Bool × String) Storage W :=
  ⟨fun key => if key.1 then (process.memblocks key.2).map .block
    else (process.psTables key.2).map .table,
    contentsOf process.blocks process.tables⟩

def registryView (session : Session W) : Directory String Storage W :=
  ⟨session.registry, contentsOf session.blocks session.tables⟩

theorem contentsOf_block (contents : W) :
    contentsOf ((blocks ++ [none]).set blocks.length (some contents)) tables =
      update (contentsOf blocks tables) (.block blocks.length) (some contents) := by
  funext storage
  cases storage with
  | table index =>
    have other : Storage.table index ≠ .block blocks.length := nofun
    rw [update_of_ne other]
    rfl
  | block index =>
    by_cases same : index = blocks.length
    · subst same
      rw [update_self, contentsOf, getElem?_set_self (by simp)]
      rfl
    · rw [update_of_ne (fun equal => same (Storage.block.inj equal)), contentsOf, contentsOf,
        getElem?_set_ne (Ne.symm same)]
      by_cases less : index < blocks.length
      · rw [getElem?_append_left less]
      · rw [getElem?_eq_none (by simp; omega), getElem?_eq_none (by omega)]

theorem contentsOf_table (contents : W) :
    contentsOf blocks (tables ++ [contents]) =
      update (contentsOf blocks tables) (.table tables.length) (some contents) := by
  funext storage
  cases storage with
  | block index =>
    have other : Storage.block index ≠ .table tables.length := nofun
    rw [update_of_ne other]
    rfl
  | table index =>
    by_cases same : index = tables.length
    · subst same
      rw [update_self, contentsOf, getElem?_concat_length]
    · rw [update_of_ne (fun equal => same (Storage.table.inj equal)), contentsOf, contentsOf]
      by_cases less : index < tables.length
      · rw [getElem?_append_left less]
      · rw [getElem?_eq_none (by simp; omega), getElem?_eq_none (by omega)]

theorem require_any {σ ε : Type} {before : σ} {condition : Bool} {error : ε} :
    Triple (· = before) (.require condition error)
    (fun _ after => after = before) (fun _ _ => True) :=
  .require (fun _ same _ => same) fun _ _ _ => trivial

theorem demand_any {σ ε α : Type} {before : σ} {value : Option α} {error : ε} :
    Triple (· = before) (.demand value error)
    (fun found after => after = before ∧ value = some found) (fun _ _ => True) :=
  .demand (fun _ _ same found => ⟨same, found⟩) fun _ _ _ => trivial

/-! ### One layer -/

section Layers

-- the plugins and the data files are those of all processes
variable (tableContents : P → W) (withData : P → D → P) (psDataPaths : String → Option D)
  (model : Model W P)

variable (layer : Module)

def resourceRequest : Directory.Request (Bool × String) W :=
  ⟨((model.object layer.storage).isMemblock, keyOf model layer.storage),
    savedWeights withData psDataPaths model tableContents layer⟩

def registryRequest : Directory.Request String W :=
  ⟨keyOf model layer.storage, savedWeights withData psDataPaths model tableContents layer⟩

structure Reads (env : Surroundings W P) : Prop where
  metadata : env.metadata = some (exportMetadata withData psDataPaths model)
  weights : env.weights = exportWeights withData psDataPaths model
  tableContents : env.tableContents = tableContents

structure Settled (state : Loading W) : Prop where
  remap : state.remap = id
  blocks : ∀ key block, state.memblocks key = some block → block < state.blocks.length
  tables : ∀ key table, state.psTables key = some table → table < state.tables.length
  loaded : ∀ key ∈ state.weightsLoaded, ∃ block, state.memblocks key = some block

def Served (before after : Loading W) : Prop :=
  Settled after ∧ ∃ storage, after.bindings = before.bindings ++ [storage] ∧
    Directory.Fetched (resourceView before.toProcess)
      (resourceRequest tableContents withData psDataPaths model layer) storage
      (resourceView after.toProcess)

variable {tableContents withData psDataPaths model} {env : Surroundings W P}
  {before after middle : Loading W} {layer : Module}

theorem Settled.fresh (settled : Settled before) {key : Bool × String} {storage : Storage}
    (held : (resourceView before.toProcess).held key = some storage) :
    storage ≠ .block before.blocks.length ∧ storage ≠ .table before.tables.length := by
  simp only [resourceView] at held
  split at held
  · obtain ⟨block, there, rfl⟩ := Option.map_eq_some_iff.mp held
    have bound := settled.blocks _ _ there
    exact ⟨fun same => bound.ne (Storage.block.inj same), nofun⟩
  · obtain ⟨table, there, rfl⟩ := Option.map_eq_some_iff.mp held
    have bound := settled.tables _ _ there
    exact ⟨nofun, fun same => bound.ne (Storage.table.inj same)⟩

section

variable (reads : Reads tableContents withData psDataPaths model env) (settled : Settled before)

include reads

theorem table_saved {config other : PsConfig P} (object : model.object layer.storage = .ps config)
    (resource : ((collectResources withData psDataPaths model).remotePs
      (keyOf model layer.storage)).map some = some (some other)) :
    env.tableContents other.table =
      savedWeights withData psDataPaths model tableContents layer := by
  obtain ⟨config', there, same⟩ := Option.map_eq_some_iff.mp resource
  cases same
  rw [keyOf, object] at there
  rw [reads.tableContents, savedWeights]
  simp only [object, there, Option.getD_some]

theorem weights_saved {memblockType : String} {contents weights : W}
    {file : Int → Option W} {id : Int}
    (object : model.object layer.storage = .memblock memblockType contents)
    (opened : env.weights (keyOf model layer.storage) = some file) (read : file id = some weights) :
    weights = savedWeights withData psDataPaths model tableContents layer := by
  rw [reads.weights] at opened
  rw [savedWeights]
  simp only [object]
  obtain ⟨other, otherType, others, there, same, only⟩ :=
    exportWeights_written withData psDataPaths _ file opened
  obtain ⟨-, equal⟩ := resourceKey_inj.mp same
  rw [← equal, object] at there
  cases there
  exact only id weights read

include settled

/-- A table comes from the directory, or is what the export's own resource makes. -/
theorem served_of_tabled {config : PsConfig P}
    (object : model.object layer.storage = .ps config) {table : Nat}
    (tabled : Tabled env (fun key =>
      ((collectResources withData psDataPaths model).remotePs key).map some) before
      (entryOf model layer) table middle) :
    Served tableContents withData psDataPaths model layer before
      { middle with bindings := middle.bindings ++ [.table table] } := by
  have kind : (model.object layer.storage).isMemblock = false := by rw [object]; rfl
  cases tabled with
  | hit found =>
    simp only [Process.findPs, settled.remap, id] at found
    refine ⟨⟨settled.remap, settled.blocks, settled.tables, settled.loaded⟩, .table table,
      rfl, .hit ?_⟩
    simp only [resourceView, resourceRequest, kind, Bool.false_eq_true, if_false]
    rw [show before.psTables (keyOf model layer.storage) = some table from found]
    rfl
  | @built other missing resource =>
    simp only [Process.findPs, settled.remap, id] at missing resource
    have key : (entryOf model layer).storageRef = keyOf model layer.storage := rfl
    have contents := table_saved reads object resource
    refine ⟨⟨settled.remap, settled.blocks, fun asked index held => ?_, settled.loaded⟩,
      .table before.tables.length, rfl, ?_⟩
    · simp only [Loading.withTable, length_append, length_singleton]
      rcases update_cases held with ⟨-, rfl⟩ | ⟨-, old⟩
      · exact Nat.lt_succ_self _
      · exact Nat.lt_succ_of_lt (settled.tables _ _ old)
    · have absent : (resourceView before.toProcess).held
          (resourceRequest tableContents withData psDataPaths model layer).key = none := by
        simp only [resourceView, resourceRequest, kind, Bool.false_eq_true, if_false]
        rw [show before.psTables (keyOf model layer.storage) = none from missing]
        rfl
      convert Fetched.built absent fun _ held => (settled.fresh held).2 rfl using 1
      simp only [resourceView, Loading.withTable, settled.remap, id, resourceRequest, kind, key,
        contents, contentsOf_table]
      congr 1
      funext pair
      obtain ⟨kind, asked⟩ := pair
      cases kind with
      | true => simp
      | false => by_cases same : asked = keyOf model layer.storage <;> simp [same]

theorem served_of_chosen
    {memblockType : String} {contents : W}
    (object : model.object layer.storage = .memblock memblockType contents)
    {chosen : Nat × Bool} {dtype : HostTable.DataTypeT}
    (choice : Chosen before (entryOf model layer) dtype chosen middle)
    (weighted : Weighted env (entryOf model layer) chosen.1 chosen.2 { middle with
      bindings := middle.bindings ++ [.block chosen.1] }
      after) :
    Served tableContents withData psDataPaths model layer before after := by
  have kind : (model.object layer.storage).isMemblock = true := by rw [object]; rfl
  have key : (entryOf model layer).storageRef = keyOf model layer.storage := rfl
  have weightKey : weightKey (entryOf model layer) = keyOf model layer.storage :=
    if_neg (keyOf_ne_empty model layer.storage)
  cases choice with
  | own ref => exact absurd ref (keyOf_ne_empty model layer.storage)
  | @hit block ref found =>
    simp only [Process.findMemblock, settled.remap, id] at found
    cases weighted with
    | loaded needed => cases needed
    | skipped reason =>
      refine ⟨⟨settled.remap, settled.blocks, settled.tables, settled.loaded⟩, .block block,
        rfl, .hit ?_⟩
      simp only [resourceView, resourceRequest, kind, if_true]
      rw [show before.memblocks (keyOf model layer.storage) = some block from found]
      rfl
  | built ref missing =>
    simp only [Process.findMemblock, settled.remap, id] at missing
    cases weighted with
    | skipped reason =>
      rcases reason with needless | loaded
      · cases needless
      · obtain ⟨block, there⟩ := settled.loaded _ (weightKey ▸ loaded)
        rw [key, there] at missing
        cases missing
    | @loaded file weights needed opened read =>
      have saved := weights_saved reads object (weightKey ▸ opened) read
      refine ⟨⟨settled.remap, fun asked index held => ?_, settled.tables, fun asked member => ?_⟩,
        .block before.blocks.length, rfl, ?_⟩
      · simp only [Loading.withContents, Loading.withBlock, length_set, length_append,
          length_singleton]
        rcases update_cases held with ⟨-, rfl⟩ | ⟨-, old⟩
        · exact Nat.lt_succ_self _
        · exact Nat.lt_succ_of_lt (settled.blocks _ _ old)
      · simp only [Loading.withContents, Loading.withBlock, settled.remap, id, key]
        by_cases here : asked = keyOf model layer.storage
        · exact ⟨before.blocks.length, by rw [here, update_self]⟩
        · rcases mem_cons.mp member with new | old
          · exact absurd (new.trans weightKey) here
          · rw [update_of_ne here]
            exact settled.loaded asked old
      · have absent : (resourceView before.toProcess).held
            (resourceRequest tableContents withData psDataPaths model layer).key = none := by
          simp only [resourceView, resourceRequest, kind, if_true]
          rw [show before.memblocks (keyOf model layer.storage) = none from missing]
          rfl
        convert Fetched.built absent fun _ held => (settled.fresh held).1 rfl using 1
        simp only [resourceView, Loading.withContents, Loading.withBlock, settled.remap, id,
          resourceRequest, kind, key, ← saved,
          contentsOf_block]
        congr 1
        funext pair
        obtain ⟨kind, asked⟩ := pair
        cases kind with
        | false => simp
        | true => by_cases same : asked = keyOf model layer.storage <;> simp [same]

theorem makeLayerV2_served
    (member : layer ∈ model.modules) (index : Nat)
    (memblocks : String → Option (Option MemblockConfig)) (dtype : HostTable.DataTypeT) :
    Triple (· = before) (makeLayerV2 env index memblocks
      (fun key => ((collectResources withData psDataPaths model).remotePs key).map some)
        (entryOf model layer) dtype layer.layerType)
      (fun _ after => Served tableContents withData psDataPaths model layer before after)
        (fun _ _ => True) := by
  cases object : model.object layer.storage with
  | ps config =>
    have hierarchical : layer.layerType = .hierarchical :=
      (model.typed layer member).mpr (by rw [object]; rfl)
    rw [makeLayerV2, if_pos hierarchical]
    refine .bind require_any fun _ => ?_
    refine .bind ((getOrBuildPs_spec _ _ dtype).rethrow fun _ _ _ => trivial)
      fun table => ?_
    intro middle tabled
    refine ((construct_spec (.table table)).mono (fun binding after both => ?_)
      fun _ _ _ => trivial) middle rfl
    rw [both.2]
    exact served_of_tabled reads settled object tabled
  | memblock memblockType contents =>
    have flat : layer.layerType ≠ .hierarchical := by
      intro hierarchical
      have kind := (model.typed layer member).mp hierarchical
      rw [object] at kind
      cases kind
    rw [makeLayerV2, if_neg flat]
    refine .bind ((chooseBlock_spec memblocks _ _ _).rethrow fun _ _ _ => trivial)
      fun chosen => ?_
    intro middle choice
    refine Triple.bind ((construct_spec _).rethrow fun _ _ _ => trivial)
      (fun binding => ?_) middle rfl
    rintro made ⟨rfl, rfl⟩
    refine Triple.bind ((loadWeights_spec _ chosen.1 chosen.2).rethrow fun _ _ _ => trivial)
      (fun _ => ?_) _ rfl
    exact .pure fun after weighted => served_of_chosen reads settled object choice weighted

/-- A turn of `load_layers_v2` over an exported layer. -/
theorem loadLayerV2_served
    (member : layer ∈ model.modules) (index : Nat)
    (memblocks : String → Option (Option MemblockConfig)) :
    Triple (· = before) (loadLayerV2 env index memblocks
      (fun key => ((collectResources withData psDataPaths model).remotePs key).map some)
        (some (entryOf model layer)))
      (fun _ after => Served tableContents withData psDataPaths model layer before after)
        (fun _ _ => True) := by
  refine .bind demand_any fun entry => ?_
  rintro state ⟨same, here⟩
  cases here
  refine Triple.bind (demand_any.mono (fun _ _ both => both.1) fun _ _ thrown => thrown)
    (fun dtype => ?_) state same
  refine .bind demand_any fun layerType => ?_
  rintro state ⟨same, type⟩
  cases type
  refine Triple.bind (makeLayerV2_served reads settled member index memblocks dtype)
    (fun binding made served => ?_) state same
  refine ((registerLayer_spec _ binding).mono (fun _ after loaded => ?_) fun _ _ _ =>
    trivial) made rfl
  obtain ⟨layers, rfl⟩ := loaded
  obtain ⟨kept, storage, bindings, fetched⟩ := served
  exact ⟨⟨kept.remap, kept.blocks, kept.tables, kept.loaded⟩, storage, bindings, fetched⟩

end

theorem construction_answered (reads : Reads tableContents withData psDataPaths model env)
    (settled : Settled before) :
    Triple (· = before) (construction env) (fun _ after => Settled after ∧
      Answered (fun state : Loading W => resourceView state.toProcess)
        (fun state => state.bindings) before
        (model.modules.map (resourceRequest tableContents withData psDataPaths model)) after)
          (fun _ _ => True) := by
  refine .bind require_any fun _ => ?_
  refine .bind demand_any fun document => ?_
  rintro state ⟨same, metadata⟩
  rw [reads.metadata, exportMetadata_eq] at metadata
  cases metadata
  refine Triple.bind require_any (fun _ => ?_) state same
  exact forEach_answered (resourceRequest tableContents withData psDataPaths model)
    (fun layer => some (entryOf model layer)) _ model.modules settled
    fun index layer member state kept => loadLayerV2_served reads kept member index _

/-! The same for the Python loader. -/

section Python

variable {before : Session W} {index : Nat}

structure Bounded (session : Session W) : Prop where
  blocks : ∀ key block, session.registry key = some (.block block) → block < session.blocks.length
  tables : ∀ key table, session.registry key = some (.table table) → table < session.tables.length

inductive PyChosen (before : Session W) (key : String) : Storage × Bool → Session W → Prop
  | hit {storage : Storage} (found : before.registry key = some storage) :
    PyChosen before key (storage, false) before
  | built (missing : before.registry key = none) :
    PyChosen before key (.block before.blocks.length, true) { before with
      blocks := before.blocks ++ [none]
      registry := Function.update before.registry key (some (.block before.blocks.length)) }

theorem pyGetOrBuildMemblock_spec (memblocks : String → Option (Option MemblockConfig))
    (entry : Entry P) :
    Triple (· = before) (pyGetOrBuildMemblock env id index memblocks entry)
      (PyChosen before entry.storageRef)
      (fun _ _ => True) := by
  refine .bind_get fun after same => ?_
  cases found : before.registry entry.storageRef with
  | some storage =>
    have hit : Triple (· = before) (Pure.pure (storage, false) : PyLoader W (Storage × Bool))
        (PyChosen before entry.storageRef) (fun _ _ => True) := .pure fun last equal => by
      rw [equal]
      exact .hit found
    cases resource : memblocks entry.storageRef with
    | none =>
      simp only [id, found, resource]
      exact hit after same
    | some read =>
      cases read with
      | none =>
        simp only [id, found, resource]
        exact hit after same
      | some config =>
        simp only [id, found, resource]
        exact Triple.bind require_any (fun _ => hit) after same
  | none =>
    have build : Triple (· = before) (pyBuildMemblock env id index memblocks entry)
        (PyChosen before entry.storageRef)
        (fun _ _ => True) := by
      refine .bind demand_any fun resource => ?_
      refine .bind (demand_any.weaken (fun _ both => both.1) (fun _ _ both => both.1)
        fun _ _ thrown => thrown) fun config => ?_
      refine .bind require_any fun _ => .bind require_any fun _ => ?_
      refine .bind_get fun last equal => ?_
      subst equal
      exact .built found
    simp only [id, found]
    exact build after same

inductive PyTabled (env : Surroundings W P) (remotePs : String → Option (Option (PsConfig P)))
    (before : Session W) (key : String) :
    Storage → Session W → Prop
  | hit {storage : Storage} (found : before.registry key = some storage) :
    PyTabled env remotePs before key storage before
  | built {config : PsConfig P} (missing : before.registry key = none)
    (resource : remotePs key = some (some config)) :
      PyTabled env remotePs before key (.table before.tables.length) { before with
        tables := before.tables ++ [env.tableContents config.table]
        registry := Function.update before.registry key (some (.table before.tables.length)) }

theorem pyGetOrBuildPs_spec (remotePs : String → Option (Option (PsConfig P))) (entry : Entry P) :
    Triple (· = before) (pyGetOrBuildPs env id index remotePs entry)
      (PyTabled env remotePs before entry.storageRef)
      (fun _ _ => True) := by
  refine .bind_get fun after same => ?_
  cases found : before.registry entry.storageRef with
  | some storage =>
    simp only [id, found]
    rw [same]
    exact .hit found
  | none =>
    have build : Triple (· = before) (pyBuildPs env id index remotePs entry)
        (PyTabled env remotePs before entry.storageRef)
        (fun _ _ => True) := by
      refine .bind demand_any fun resource => ?_
      refine .bind (m := fun config last => last = before ∧
        remotePs entry.storageRef = some (some config)) ?_ fun config => ?_
      · rintro last ⟨rfl, first⟩
        cases resource with
        | some config => exact ⟨rfl, first⟩
        | none => trivial
      · rintro last ⟨equal, first⟩
        refine Triple.bind require_any (fun _ => ?_) last equal
        refine .bind require_any fun _ => .bind require_any fun _ => ?_
        refine .bind_get fun last equal => ?_
        subst equal
        exact .built found first
    simp only [id, found]
    exact build after same

theorem makeLayer_spec (layerType : LayerType) (storage : Storage) :
    Triple (· = before) (makeLayer env index layerType storage)
      (fun _ after => after = { before with layers := before.layers ++ [storage] })
        (fun _ _ => True) :=
  .bind require_any fun _ => .bind require_any fun _ => .modify fun _ same => same ▸ rfl

def PyServed (tableContents : P → W) (withData : P → D → P) (psDataPaths : String → Option D)
    (model : Model W P) (layer : Module)
    (before after : Session W) : Prop :=
  Bounded after ∧ ∃ storage, after.layers = before.layers ++ [storage] ∧
    Directory.Fetched (registryView before)
      (registryRequest tableContents withData psDataPaths model layer) storage
      (registryView after)

theorem registry_cases {registry : String → Option Storage} {key other : String}
    {new storage : Storage}
    (found : update registry key (some new) other = some storage) :
      new = storage ∨ registry other = some storage := by
  by_cases here : other = key
  · rw [here, update_self] at found
    exact .inl (Option.some.inj found)
  · rw [update_of_ne here] at found
    exact .inr found

theorem Bounded.withBlock (bounded : Bounded before) (key : String) (contents : Option W)
    (layers : List Storage) :
    Bounded ⟨update before.registry key (some (.block before.blocks.length)),
      (before.blocks ++ [none]).set before.blocks.length contents, before.tables, layers⟩ := by
  refine ⟨fun other block held => ?_, fun other table held => ?_⟩
  · simp only [length_set, length_append, length_singleton]
    rcases registry_cases held with new | old
    · cases new
      exact Nat.lt_succ_self _
    · exact Nat.lt_succ_of_lt (bounded.blocks _ _ old)
  · rcases registry_cases held with new | old
    · cases new
    · exact bounded.tables _ _ old

theorem Bounded.withTable (bounded : Bounded before) (key : String) (contents : W)
    (layers : List Storage) :
    Bounded ⟨update before.registry key (some (.table before.tables.length)), before.blocks,
      before.tables ++ [contents], layers⟩ := by
  refine ⟨fun other block held => ?_, fun other table held => ?_⟩
  · rcases registry_cases held with new | old
    · cases new
    · exact bounded.blocks _ _ old
  · simp only [length_append, length_singleton]
    rcases registry_cases held with new | old
    · cases new
      exact Nat.lt_succ_self _
    · exact Nat.lt_succ_of_lt (bounded.tables _ _ old)

theorem loadFromStream_spec (entry : Entry P) (block : Nat) :
    Triple (· = before) (loadFromStream env index entry (.block block))
      (fun _ after => ∃ file contents,
      env.weights entry.storageRef = some file ∧ file entry.id = some contents ∧
        after = { before with blocks := before.blocks.set block (some contents) })
          (fun _ _ => True) := by
  refine .bind require_any fun _ => .bind demand_any fun file => ?_
  rintro state ⟨same, opened⟩
  refine Triple.bind require_any (fun _ => ?_) state same
  refine .bind demand_any fun contents => ?_
  rintro last ⟨rfl, read⟩
  exact ⟨file, contents, opened, read, rfl⟩

section

variable (reads : Reads tableContents withData psDataPaths model env) (bounded : Bounded before)

include reads bounded

theorem pyServed_of_tabled
    {config : PsConfig P} (object : model.object layer.storage = .ps config) {storage : Storage}
    {middle : Session W}
    (tabled : PyTabled env (fun key =>
      ((collectResources withData psDataPaths model).remotePs key).map some) before
      (keyOf model layer.storage) storage middle) :
    PyServed tableContents withData psDataPaths model layer before { middle with
      layers := middle.layers ++ [storage] } := by
  cases tabled with
  | hit found => exact ⟨⟨bounded.blocks, bounded.tables⟩, storage, rfl, .hit found⟩
  | @built other missing resource =>
    have contents := table_saved reads object resource
    have absent :
        (registryView before).held
        (registryRequest tableContents withData psDataPaths model layer).key = none := missing
    refine ⟨bounded.withTable _ _ _, .table before.tables.length, rfl, ?_⟩
    convert Fetched.built absent fun key held =>
      (bounded.tables key before.tables.length held).false using 1
    simp only [registryView, contentsOf_table, contents, registryRequest]

theorem pyServed_of_chosen
    {memblockType : String} {contents weights : W}
    (object : model.object layer.storage = .memblock memblockType contents)
    {file : Int → Option W} {id : Int}
    (missing : before.registry (keyOf model layer.storage) = none)
    (opened : env.weights (keyOf model layer.storage) = some file) (read : file id = some weights) :
    PyServed tableContents withData psDataPaths model layer before
      ⟨update before.registry (keyOf model layer.storage) (some (.block before.blocks.length)),
        (before.blocks ++ [none]).set before.blocks.length (some weights), before.tables,
        before.layers ++ [.block before.blocks.length]⟩ := by
  have saved := weights_saved reads object opened read
  have absent :
      (registryView before).held
      (registryRequest tableContents withData psDataPaths model layer).key = none := missing
  refine ⟨bounded.withBlock _ _ _, .block before.blocks.length, rfl, ?_⟩
  convert Fetched.built absent fun key held =>
    (bounded.blocks key before.blocks.length held).false using 1
  simp only [registryView, contentsOf_block, ← saved, registryRequest]

/-- A turn of `_load_nve_layers_v2` over an exported layer. -/
theorem pyLoadLayer_served
    (member : layer ∈ model.modules) (index : Nat)
    (memblocks : String → Option (Option MemblockConfig)) :
    Triple (· = before) (pyLoadLayer env id index memblocks
      (fun key => ((collectResources withData psDataPaths model).remotePs key).map some)
        (some (entryOf model layer)))
      (fun _ after => PyServed tableContents withData psDataPaths model layer before after)
        (fun _ _ => True) := by
  refine .bind demand_any fun entry => ?_
  rintro state ⟨same, here⟩
  cases here
  refine Triple.bind require_any (fun _ => ?_) state same
  refine .bind demand_any fun layerType => ?_
  rintro state ⟨same, type⟩
  cases type
  refine Triple.bind require_any (fun _ => .bind require_any fun _ => ?_) state same
  cases object : model.object layer.storage with
  | ps config =>
    have hierarchical : layer.layerType = .hierarchical :=
      (model.typed layer member).mpr (by rw [object]; rfl)
    rw [if_pos hierarchical]
    refine .bind (pyGetOrBuildPs_spec _ _) fun storage => ?_
    intro middle tabled
    refine ((makeLayer_spec _ storage).mono (fun _ after made => ?_) fun _ _ thrown =>
      thrown) middle rfl
    rw [made]
    exact pyServed_of_tabled reads bounded object tabled
  | memblock memblockType contents =>
    have flat : layer.layerType ≠ .hierarchical := by
      intro hierarchical
      have kind := (model.typed layer member).mp hierarchical
      rw [object] at kind
      cases kind
    rw [if_neg flat]
    refine .bind (pyGetOrBuildMemblock_spec _ _) fun chosen => ?_
    intro middle choice
    cases choice with
    | @hit storage found =>
      refine Triple.bind (makeLayer_spec _ storage) (fun _ => ?_) _ rfl
      rintro made rfl
      exact ⟨⟨bounded.blocks, bounded.tables⟩, storage, rfl, .hit found⟩
    | built missing =>
      refine Triple.bind (makeLayer_spec _ _) (fun _ => ?_) _ rfl
      refine (loadFromStream_spec _ _).mono (fun _ after loaded => ?_) fun _ _ thrown => thrown
      obtain ⟨file, weights, opened, read, rfl⟩ := loaded
      exact pyServed_of_chosen reads bounded object missing opened read

theorem loadNveLayersV2_answered :
    Triple (· = before) (loadNveLayersV2 env id (exportMetadata withData psDataPaths model))
    (fun _ after => Bounded after ∧ Answered registryView (fun session => session.layers) before
      (model.modules.map (registryRequest tableContents withData psDataPaths model)) after)
        (fun _ _ => True) := by
  rw [exportMetadata_eq]
  exact forEach_answered (registryRequest tableContents withData psDataPaths model)
    (fun layer => some (entryOf model layer)) _ model.modules bounded
    fun index layer member state kept => pyLoadLayer_served reads kept member index _

end

end Python

end Layers

/-! ### Sequences of loads -/

section Sequences

variable {ε κ : Type} [DecidableEq κ]

-- exports by the process that wrote them
variable (tableContents : P → W) (withData : P → D → P) (psDataPaths : ε → String → Option D)
  (exported : ε → Model W P)

def layersOf (loads : List ε) : List (ε × Module) :=
  loads.flatMap fun source => (exported source).modules.map (source, ·)

def savedOf (layer : ε × Module) : W :=
  savedWeights withData (psDataPaths layer.1) (exported layer.1) tableContents layer.2

def requestOf (key : ε × Module → κ) (layer : ε × Module) : Request κ W :=
  ⟨key layer, savedOf tableContents withData psDataPaths exported layer⟩

def isMemblockOf (layer : ε × Module) : Bool :=
  ((exported layer.1).object layer.2.storage).isMemblock

/-- Every layer's storage holds what its own export has saved, and layers share storage only if they
did so then. -/
structure Apart (loads : List ε) (storages : List Storage) (contents : Storage → Option W) :
    Prop where
  all : storages.length = (layersOf exported loads).length
  weights : ∀ layer ∈ (layersOf exported loads).zip storages,
    contents layer.2 = some (savedOf tableContents withData psDataPaths exported layer.1)
  sharing : ∀ one ∈ (layersOf exported loads).zip storages,
    ∀ two ∈ (layersOf exported loads).zip storages,
    one.2 = two.2 → one.1.1 = two.1.1 ∧ one.1.2.storage = two.1.2.storage

/-- No identity of a storage object comes up again in another of the exports, for an object of the
same kind. -/
def Unrepeated (loads : List ε) : Prop :=
  ∀ one ∈ layersOf exported loads, ∀ two ∈ layersOf exported loads,
    isMemblockOf exported one = isMemblockOf exported two → one.2.storage = two.2.storage →
      one.1 = two.1

variable {tableContents withData psDataPaths exported}

theorem savedOf_congr {one two : ε × Module} (source : one.1 = two.1)
    (storage : one.2.storage = two.2.storage) :
    savedOf tableContents withData psDataPaths exported one =
      savedOf tableContents withData psDataPaths exported two := by
  obtain ⟨first, layer⟩ := one
  obtain ⟨second, other⟩ := two
  simp only at source storage
  subst source
  simp only [savedOf, savedWeights, storage]

/-- Requests under keys that tell objects of one process apart keep exports apart exactly if no
identity is repeated. -/
theorem apart_iff {loads : List ε} (key : ε × Module → κ) {storages : List Storage}
    {start last : Directory κ Storage W}
    (tells : ∀ one two, key one = key two ↔
      isMemblockOf exported one = isMemblockOf exported two ∧ one.2.storage = two.2.storage)
    (empty : start.Empty) (length : storages.length = (layersOf exported loads).length)
    (run : Fetches start (((layersOf exported loads).map
      (requestOf tableContents withData psDataPaths exported key)).zip storages) last) :
    Apart tableContents withData psDataPaths exported loads storages last.contents ↔
      Unrepeated exported loads := by
  -- the fetch of a layer
  have fetch {layer : ε × Module} {storage : Storage}
      (member : (layer, storage) ∈ (layersOf exported loads).zip storages) :
      (requestOf tableContents withData psDataPaths exported key layer, storage) ∈
        ((layersOf exported loads).map
          (requestOf tableContents withData psDataPaths exported key)).zip storages := by
    rw [zip_map_left]
    exact mem_map_of_mem (f := Prod.map _ id) member
  have exists_storage {layer : ε × Module} (member : layer ∈ layersOf exported loads) :
      ∃ storage, (layer, storage) ∈ (layersOf exported loads).zip storages := by
    obtain ⟨index, bound, rfl⟩ := getElem_of_mem member
    exact ⟨storages[index], by
      rw [mem_iff_getElem]
      exact ⟨index, by simp [length, bound], by simp⟩⟩
  constructor
  · intro apart one first two second kind storage
    obtain ⟨here, held⟩ := exists_storage first
    obtain ⟨there, kept⟩ := exists_storage second
    have same :=
      (run.same_object_iff empty (fetch held) (fetch kept)).mpr
        ((tells one two).mpr ⟨kind, storage⟩)
    exact (apart.sharing (one, here) held (two, there) kept same).1
  · intro unrepeated
    -- layers with one key are layers over one object
    have owner {one two : ε × Module} (first : one ∈ layersOf exported loads)
        (second : two ∈ layersOf exported loads)
        (same : key one = key two) : one.1 = two.1 ∧ one.2.storage = two.2.storage := by
      obtain ⟨kind, storage⟩ := (tells one two).mp same
      exact ⟨unrepeated one first two second kind storage, storage⟩
    refine ⟨length, fun layer member => ?_, fun one first two second same => ?_⟩
    · refine run.contents_eq empty (fun one first two second equal => ?_) (fetch member)
      rw [zip_map_left] at first second
      obtain ⟨⟨layerOne, _⟩, memberOne, rfl⟩ := mem_map.mp first
      obtain ⟨⟨layerTwo, _⟩, memberTwo, rfl⟩ := mem_map.mp second
      obtain ⟨source, storage⟩ := owner (of_mem_zip memberOne).1 (of_mem_zip memberTwo).1 equal
      exact savedOf_congr source storage
    · exact owner (of_mem_zip first).1 (of_mem_zip second).1
        ((run.same_object_iff empty (fetch first) (fetch second)).mp same)

variable (tableContents withData psDataPaths exported)

inductive DirectoryLoads (start : Process W) : List ε → Process W → Prop
  | none : DirectoryLoads start [] start
  | load {loads : List ε} {process : Process W} {source : ε} {env : Surroundings W P}
    {after : Loading W}
      (earlier : DirectoryLoads start loads process)
      (reads : Reads tableContents withData (psDataPaths source) (exported source) env)
      (ran : layerDirectory env process = (.ok (), after)) :
        DirectoryLoads start (loads ++ [source]) after.toProcess

inductive RegistryLoads (start : Session W) : List ε → Session W → Prop
  | none : RegistryLoads start [] start
  | load {loads : List ε} {session after : Session W} {source : ε} {env : Surroundings W P}
      (earlier : RegistryLoads start loads session)
      (reads : Reads tableContents withData (psDataPaths source) (exported source) env)
      (ran : loadNveLayersV2 env id (exportMetadata withData (psDataPaths source) (exported source))
        session = (.ok (), after)) :
      RegistryLoads start (loads ++ [source]) after

variable {tableContents withData psDataPaths exported}

structure Blank (process : Process W) : Prop where
  memblocks : ∀ key, process.memblocks key = none
  psTables : ∀ key, process.psTables key = none
  remap : process.remap = id
  bindings : process.bindings = []

structure PyBlank (session : Session W) : Prop where
  registry : ∀ key, session.registry key = none
  layers : session.layers = []

theorem layersOf_append (loads : List ε) (source : ε) :
    layersOf exported (loads ++ [source]) = layersOf exported loads ++
      (exported source).modules.map (source, ·) := by
  simp [layersOf]

theorem Blank.settled {process : Process W} (blank : Blank process) :
    Settled ⟨process, [], []⟩ := by
  refine ⟨blank.remap, fun key block held => ?_, fun key table held => ?_, fun key member =>
    absurd member not_mem_nil⟩
  · exact absurd ((blank.memblocks key).symm.trans held) nofun
  · exact absurd ((blank.psTables key).symm.trans held) nofun

theorem PyBlank.bounded {session : Session W} (blank : PyBlank session) : Bounded session := by
  refine ⟨fun key block held => ?_, fun key table held => ?_⟩
  · exact absurd ((blank.registry key).symm.trans held) nofun
  · exact absurd ((blank.registry key).symm.trans held) nofun

theorem DirectoryLoads.answered {start process : Process W} {loads : List ε} (blank : Blank start)
    (run : DirectoryLoads tableContents withData psDataPaths exported start loads process) :
    Settled ⟨process, [], []⟩ ∧ Answered resourceView (fun process => process.bindings) start
      ((layersOf exported loads).map fun layer =>
        resourceRequest tableContents withData (psDataPaths layer.1) (exported layer.1) layer.2)
          process := by
  induction run with
  | none => exact ⟨blank.settled, answered_start⟩
  | @load loads process source env after earlier reads ran ih =>
    obtain ⟨settled, answered⟩ := ih
    obtain ⟨kept, later⟩ := (construction_answered reads settled).returned rfl ran
    refine ⟨⟨kept.remap, kept.blocks, kept.tables, fun _ member => absurd member not_mem_nil⟩, ?_⟩
    rw [layersOf_append, map_append, map_map]
    exact answered.append later

theorem RegistryLoads.answered {start session : Session W} {loads : List ε} (blank : PyBlank start)
    (run : RegistryLoads tableContents withData psDataPaths exported start loads session) :
    Bounded session ∧ Answered registryView (fun session => session.layers) start
      ((layersOf exported loads).map fun layer =>
        registryRequest tableContents withData (psDataPaths layer.1) (exported layer.1) layer.2)
          session := by
  induction run with
  | none => exact ⟨blank.bounded, answered_start⟩
  | @load loads session after source env earlier reads ran ih =>
    obtain ⟨bounded, answered⟩ := ih
    obtain ⟨kept, later⟩ := (loadNveLayersV2_answered reads bounded).returned rfl ran
    refine ⟨kept, ?_⟩
    rw [layersOf_append, map_append, map_map]
    exact answered.append later

end Sequences

/-- Loads with one registry, by either loader, keep exports apart exactly if no identity of a
storage object comes up in two of them. -/
theorem shared_registry_apart_iff {ε : Type} (tableContents : P → W) (withData : P → D → P)
    (psDataPaths : ε → String → Option D)
    (exported : ε → Model W P) :
    (∀ start process loads, Blank start →
      DirectoryLoads tableContents withData psDataPaths exported start loads process →
      (Apart tableContents withData psDataPaths exported loads process.bindings
        (contentsOf process.blocks process.tables) ↔
        Unrepeated exported loads)) ∧
    (∀ start session loads, PyBlank start →
      RegistryLoads tableContents withData psDataPaths exported start loads session →
      (Apart tableContents withData psDataPaths exported loads session.layers
        (contentsOf session.blocks session.tables) ↔
        Unrepeated exported loads)) := by
  constructor
  · intro start process loads blank run
    obtain ⟨-, storages, log, length, fetches⟩ := run.answered blank
    have grown : process.bindings = start.bindings ++ storages := log
    rw [grown, blank.bindings, nil_append]
    rw [length_map] at length
    refine apart_iff (fun layer =>
      (isMemblockOf exported layer, keyOf (exported layer.1) layer.2.storage)) ?_ ?_ length fetches
    · intro one two
      rw [Prod.mk.injEq, keyOf, keyOf, resourceKey_inj]
      exact ⟨fun both => both.2, fun both => ⟨both.1, both⟩⟩
    · rintro ⟨kind, key⟩
      simp [resourceView, blank.memblocks, blank.psTables]
  · intro start session loads blank run
    obtain ⟨-, storages, log, length, fetches⟩ := run.answered blank
    have grown : session.layers = start.layers ++ storages := log
    rw [grown, blank.layers, nil_append]
    rw [length_map] at length
    have empty : (registryView start).Empty := blank.registry
    exact apart_iff (fun layer => keyOf (exported layer.1) layer.2.storage)
      (fun one two => resourceKey_inj) empty length fetches

def twoModels (first second : Nat) (source : Bool) : Model Nat Unit where
  modules := [⟨"emb", 1, 4, 2, "float32", .hostLayer, if source then second else first⟩]
  object _ := .memblock "MemBlockType.Host" (if source then 20 else 10)
  named := by simp
  typed := by simp [StorageObject.isMemblock]

def calm (model : Model Nat Unit) : Surroundings Nat Unit where
  metadata := some (exportMetadata (fun config (_ : Unit) => config) (fun _ => none) model)
  weights := exportWeights (fun config (_ : Unit) => config) (fun _ => none) model
  tableGeometry _ := ⟨8, .float32⟩
  tableContents _ := 0
  updatable _ := true
  marker binding := binding
  fails _ := false

theorem calm_reads (model : Model Nat Unit) :
    Reads (fun _ => 0) (fun config (_ : Unit) => config) (fun _ => none) model (calm model) :=
  ⟨rfl, rfl, rfl⟩

theorem shared_registry_apart_two :
    ∃ process, DirectoryLoads (fun _ => 0) (fun config (_ : Unit) => config)
    (fun _ _ => none) (twoModels 7 8) emptyProcess [false, true] process ∧
    Apart (fun _ => 0) (fun config (_ : Unit) => config) (fun _ _ => none)
      (twoModels 7 8) [false, true] process.bindings
      (contentsOf process.blocks process.tables) := by
  have run : ∃ process, DirectoryLoads (fun _ => 0) (fun config (_ : Unit) => config)
      (fun _ _ => none) (twoModels 7 8) emptyProcess
      [false, true] process :=
    ⟨_, .load (.load .none (calm_reads _) rfl) (calm_reads _) rfl⟩
  obtain ⟨process, run⟩ := run
  refine ⟨process, run,
    ((shared_registry_apart_iff (fun _ => 0) (fun config (_ : Unit) => config) (fun _ _ => none)
    (twoModels 7 8)).1 emptyProcess process [false, true] ⟨fun _ => rfl, fun _ => rfl, rfl, rfl⟩
      run).mpr ?_⟩
  simp [Unrepeated, layersOf, twoModels]

/-- Two processes have given the same identity to their blocks: the second model is loaded over the
first one's weights. -/
theorem shared_registry_mixes :
    (∃ process, DirectoryLoads (fun _ => 0) (fun config (_ : Unit) => config) (fun _ _ => none)
      (twoModels 7 7) emptyProcess
      [false, true] process ∧ process.bindings = [.block 0, .block 0] ∧
        process.blocks = [some 10]) ∧
    (∃ session, RegistryLoads (fun _ => 0) (fun config (_ : Unit) => config) (fun _ _ => none)
      (twoModels 7 7)
      ⟨fun _ => none, [], [], []⟩ [false, true] session ∧ session.layers = [.block 0, .block 0] ∧
        session.blocks = [some 10]) :=
  ⟨⟨_, .load (.load .none (calm_reads _) rfl) (calm_reads _) rfl, rfl, rfl⟩,
    _, .load (.load .none (calm_reads _) rfl) (calm_reads _) rfl, rfl, rfl⟩

end EmbedCache.SharedRegistry
