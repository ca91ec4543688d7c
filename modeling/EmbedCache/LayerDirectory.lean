import EmbedCache.Lib.Throwing
import EmbedCache.HostTable

/-! `LayerDirectory` and `ResourceDirectory` (`nve_loader.hpp`), and the layer registry
(`nve_registry.cu`).

The constructor goes through the layers of `metadata.json`. Storage is looked up in the resource
directory and put there if it is new, and every layer is registered under the address of its
marker. -/

namespace EmbedCache.NveLoader

open Lib HostTable Function
open Throwing (Triple)

inductive LayerType
  | linearUVM
  | gpuLayer
  | hostLayer
  | hierarchical
  deriving DecidableEq, Repr

structure MemblockConfig where
  rowElements : Nat
  numRows : Nat
  type : String
  deriving DecidableEq, Repr

/-- An entry of `resources.remote_ps`: what the plugin makes its table from, data files included. -/
structure PsConfig (P : Type) where
  remotePsType : String
  table : P
  deriving DecidableEq, Repr

/-- An entry of `layers`, as it is read. Without a reference the layer has storage of its own. -/
structure Entry (P : Type) where
  id : Int
  modulePath : String
  numEmbeddings : Nat
  embeddingSize : Nat
  dtype : String
  layerType : Option LayerType
  storageRef : String
  memblockType : String
  remotePs : Option (PsConfig P)

/-- `metadata.json`: an array in the old schema, else an object. Entries that cannot be read are
`none`. -/
inductive Document (P : Type)
  | legacy (layers : List (Option (Entry P)))
  | versioned (version : Int) (layers : List (Option (Entry P)))
    (memblocks : String → Option (Option MemblockConfig))
      (remotePs : String → Option (Option (PsConfig P)))

inductive Stage
  | metadata
  | version
  | fields
  | dtype
  | storageRef
  | layerType
  | resource
  | geometry
  | allocate
  | plugin
  | tableDtype
  | insertKeys
  | openWeights
  | construct
  | readWeights
  | markerConstant
  | markerTensor
  | register
  | record
  deriving DecidableEq, Repr

structure Point where
  layer : Nat
  stage : Stage
  deriving DecidableEq, Repr

structure BlockGeometry where
  numRows : Nat
  rowElements : Nat
  dtype : DataTypeT
  deriving DecidableEq, Repr

/-- Of a table's `config()`; a table has no number of rows. -/
structure TableGeometry where
  maxValueSize : Nat
  valueDtype : DataTypeT
  deriving DecidableEq, Repr

inductive Storage
  | block (index : Nat)
  | table (index : Nat)
  deriving DecidableEq, Repr

/-- The process: the registry by marker address, the resource directory and all objects made so far.
Blocks have contents once they are loaded. -/
structure Process (W : Type) where
  entries : Nat → Option Nat
  memblocks : String → Option Nat
  psTables : String → Option Nat
  remap : String → String
  blocks : List (Option W)
  tables : List W
  bindings : List Storage
  blockGeometry : Nat → BlockGeometry
  tableGeometry : Nat → TableGeometry

/-- `weights_loaded` and `layers_` are the constructor's own. -/
structure Loading (W : Type) extends Process W where
  weightsLoaded : List String
  layers : List (Int × Nat)

/-- What the construction meets: the files, the plugins, the package and the failures that no check
of the loader foresees. -/
structure Surroundings (W P : Type) where
  metadata : Option (Document P)
  weights : String → Option (Int → Option W)
  tableGeometry : P → TableGeometry
  tableContents : P → W
  updatable : String → Bool
  marker : Nat → Nat
  fails : Point → Bool

variable {W P : Type}

abbrev Loader (W : Type) := Throwing (Loading W) Point

def contains (text part : String) : Bool := decide (part.toList <:+: text.toList)

def parseDtype (text : String) : Option DataTypeT :=
  if contains text "float32" then some .float32
  else if contains text "float16" then some .float16
  else none

def markerFqn (modulePath : String) : String :=
  if modulePath = "" then "marker_tensor" else modulePath ++ ".marker_tensor"

def weightName (modulePath : String) : String :=
  .ofList (modulePath.toList.map fun letter => if letter = '.' then '_' else letter)

/-- The types that `create_memblock` knows. -/
def knownMemblock (memblockType : String) (deviceResident : Bool) : Bool :=
  contains memblockType "Managed" || contains memblockType "Host" ||
    contains memblockType "Linear" ||
    (if contains memblockType "User" then deviceResident else contains memblockType "NVL")

def Process.findMemblock (process : Process W) (key : String) : Option Nat :=
  process.memblocks (process.remap key)

def Process.findPs (process : Process W) (key : String) : Option Nat :=
  process.psTables (process.remap key)

section Loader

variable (env : Surroundings W P) (layer : Nat)

def attempt (stage : Stage) : Loader W Unit := .require (!env.fails ⟨layer, stage⟩) ⟨layer, stage⟩

def newBlock (geometry : BlockGeometry) : Loader W Nat := do
  let state ← .get
  .modify fun state => { state with
    blocks := state.blocks ++ [none]
    blockGeometry := Function.update state.blockGeometry state.blocks.length geometry }
  pure state.blocks.length

def createMemblock (memblockType : String) (geometry : BlockGeometry) (deviceResident : Bool) :
    Loader W Nat := do
  .require (knownMemblock memblockType deviceResident) ⟨layer, .allocate⟩
  attempt env layer .allocate
  newBlock geometry

/-- NVL blocks span devices; the others are `create_memblock`'s. -/
def createResource (config : MemblockConfig) (geometry : BlockGeometry) (deviceResident : Bool) :
    Loader W Nat :=
  if contains config.type "NVL" then do
    attempt env layer .allocate
    newBlock geometry
  else createMemblock env layer config.type geometry deviceResident

def Entry.geometry (entry : Entry P) (dtype : DataTypeT) : BlockGeometry :=
  ⟨entry.numEmbeddings, entry.embeddingSize, dtype⟩

variable (memblocks : String → Option (Option MemblockConfig))

def buildMemblock (entry : Entry P) (dtype : DataTypeT) (deviceResident : Bool) (eff : String) :
    Loader W (Nat × Bool) := do
  let resource ← .demand (memblocks eff) ⟨layer, .resource⟩
  let config ← .demand resource ⟨layer, .geometry⟩
  .require (config.rowElements == entry.embeddingSize) ⟨layer, .geometry⟩
  .require (config.numRows == entry.numEmbeddings) ⟨layer, .geometry⟩
  let block ← createResource env layer config (entry.geometry dtype) deviceResident
  .modify fun state =>
    { state with memblocks := Function.update state.memblocks (state.remap eff) (some block) }
  pure (block, true)

/-- `get_or_build_memblock`: the block, and whether its weights are still to be loaded. -/
def getOrBuildMemblock (entry : Entry P) (dtype : DataTypeT) (deviceResident : Bool) :
    Loader W (Nat × Bool) := do
  let state ← .get
  let eff := state.remap entry.storageRef
  match state.findMemblock eff with
  | some block => pure (block, false)
  | none => buildMemblock env layer memblocks entry dtype deviceResident eff

def createTable (config : PsConfig P) (dtype : DataTypeT) : Loader W Nat := do
  .require (config.remotePsType == "plugin") ⟨layer, .plugin⟩
  attempt env layer .plugin
  .require ((env.tableGeometry config.table).valueDtype == dtype) ⟨layer, .tableDtype⟩
  attempt env layer .insertKeys
  let state ← .get
  .modify fun state => { state with
    tables := state.tables ++ [env.tableContents config.table]
    tableGeometry :=
      Function.update state.tableGeometry state.tables.length (env.tableGeometry config.table) }
  pure state.tables.length

variable (remotePs : String → Option (Option (PsConfig P)))

def buildPs (dtype : DataTypeT) (eff : String) : Loader W Nat := do
  let resource ← .demand (remotePs eff) ⟨layer, .resource⟩
  let config ← .demand resource ⟨layer, .plugin⟩
  let table ← createTable env layer config dtype
  .modify fun state =>
    { state with psTables := Function.update state.psTables (state.remap eff) (some table) }
  pure table

def getOrBuildPs (entry : Entry P) (dtype : DataTypeT) : Loader W Nat := do
  let state ← .get
  let eff := state.remap entry.storageRef
  match state.findPs eff with
  | some table => pure table
  | none => buildPs env layer remotePs dtype eff

def openWeights (key : String) : Loader W (Int → Option W) := do
  attempt env layer .openWeights
  .demand (env.weights key) ⟨layer, .openWeights⟩

/-- `load_tensor_from_stream`; a block whose reading fails stays without contents. -/
def readWeights (file : Int → Option W) (id : Int) (block : Nat) : Loader W Unit := do
  attempt env layer .readWeights
  let contents ← .demand (file id) ⟨layer, .readWeights⟩
  .modify fun state => { state with blocks := state.blocks.set block (some contents) }

def construct (storage : Storage) : Loader W Nat := do
  attempt env layer .construct
  let state ← .get
  .modify fun state => { state with bindings := state.bindings ++ [storage] }
  pure state.bindings.length

def registerLayer (entry : Entry P) (binding : Nat) : Loader W Unit := do
  .require (env.updatable (markerFqn entry.modulePath)) ⟨layer, .markerConstant⟩
  attempt env layer .markerTensor
  attempt env layer .register
  .modify fun state =>
    { state with entries := Function.update state.entries (env.marker binding) (some binding) }
  attempt env layer .record
  .modify fun state =>
    { state with
    layers := state.layers.filter (fun other => other.1 != entry.id) ++ [(entry.id, binding)] }

def makeLayerV1 (entry : Entry P) (dtype : DataTypeT) (layerType : LayerType) : Loader W Nat :=
  if layerType = .hierarchical then do
    let config ← .demand entry.remotePs ⟨layer, .resource⟩
    let table ← createTable env layer config dtype
    construct env layer (.table table)
  else do
    let block ← createMemblock env layer
        (if layerType = .hostLayer then "MemBlockType.Host" else entry.memblockType)
      (entry.geometry dtype) (layerType = .gpuLayer)
    let file ← openWeights env layer (weightName entry.modulePath)
    let binding ← construct env layer (.block block)
    readWeights env layer file entry.id block
    pure binding

/-- A turn of the loop in `load_layers_v1`. -/
def loadLayerV1 (read : Option (Entry P)) : Loader W Unit := do
  let entry ← .demand read ⟨layer, .fields⟩
  let dtype ← .demand (parseDtype entry.dtype) ⟨layer, .dtype⟩
  let layerType ← .demand entry.layerType ⟨layer, .layerType⟩
  let binding ← makeLayerV1 env layer entry dtype layerType
  registerLayer env layer entry binding

/-- The block of a layer in `load_layers_v2`. -/
def chooseBlock (entry : Entry P) (dtype : DataTypeT) (layerType : LayerType) :
    Loader W (Nat × Bool) :=
  if entry.storageRef = "" then do
    let block ← createMemblock env
        layer (if layerType = .hostLayer then "MemBlockType.Host" else "MemBlockType.Managed")
      (entry.geometry dtype) (layerType = .gpuLayer)
    pure (block, true)
  else getOrBuildMemblock env layer memblocks entry dtype (layerType = .gpuLayer)

def weightKey (entry : Entry P) : String :=
  if entry.storageRef = "" then weightName entry.modulePath else entry.storageRef

/-- The weights of a new block, unless a layer of this construction has loaded the same file. -/
def loadWeights (entry : Entry P) (block : Nat) (needsWeightLoad : Bool) : Loader W Unit := do
  let state ← .get
  if needsWeightLoad && !state.weightsLoaded.contains (weightKey entry) then do
    let file ← openWeights env layer (weightKey entry)
    readWeights env layer file entry.id block
    .modify fun state => { state with weightsLoaded := weightKey entry :: state.weightsLoaded }
  else pure ()

def makeLayerV2 (entry : Entry P) (dtype : DataTypeT) (layerType : LayerType) : Loader W Nat :=
  if layerType = .hierarchical then do
    .require (entry.storageRef != "") ⟨layer, .storageRef⟩
    let table ← getOrBuildPs env layer remotePs entry dtype
    construct env layer (.table table)
  else do
    let (block, needsWeightLoad) ← chooseBlock env layer memblocks entry dtype layerType
    let binding ← construct env layer (.block block)
    loadWeights env layer entry block needsWeightLoad
    pure binding

/-- A turn of the loop in `load_layers_v2`. -/
def loadLayerV2 (read : Option (Entry P)) : Loader W Unit := do
  let entry ← .demand read ⟨layer, .fields⟩
  let dtype ← .demand (parseDtype entry.dtype) ⟨layer, .dtype⟩
  let layerType ← .demand entry.layerType ⟨layer, .layerType⟩
  let binding ← makeLayerV2 env layer memblocks remotePs entry dtype layerType
  registerLayer env layer entry binding

end Loader

def construction (env : Surroundings W P) : Loader W Unit := do
  attempt env 0 .metadata
  let document ← .demand env.metadata ⟨0, .metadata⟩
  match document with
  | .legacy layers => .forEach (loadLayerV1 env) 0 layers
  | .versioned version layers memblocks remotePs => do
      .require (decide (version ≤ 2)) ⟨0, .version⟩
      .forEach (fun layer => loadLayerV2 env layer memblocks remotePs) 0 layers

/-- A construction in a process. If it throws, its own members are destroyed and the process
stays. -/
def layerDirectory (env : Surroundings W P) (process : Process W) : Except Point Unit × Loading W :=
  construction env ⟨process, [], []⟩

/-! ### What each step does -/

section Steps

variable {env : Surroundings W P} {layer : Nat} {before : Loading W}

theorem attempt_spec (stage : Stage) :
    Triple (· = before) (attempt env layer stage) (fun _ after => after = before)
    (fun point after => point = ⟨layer, stage⟩ ∧ after = before) :=
  .require (fun _ same _ => same) (fun _ same _ => ⟨rfl, same⟩)

/-- Stages at which nothing has been put anywhere yet, or everything that was is complete. -/
def Stage.midway : Stage → Bool
  | .construct => true
  | .openWeights => true
  | .readWeights => true
  | _ => false

def Early (layer : Nat) (before : Loading W) (point : Point) (after : Loading W) : Prop :=
  point.layer = layer ∧ point.stage.midway = false ∧ point.stage ≠ .record ∧ after = before

variable {stage : Stage}

theorem require_early {condition : Bool}
    (early : stage.midway = false ∧ stage ≠ .record := by decide) :
    Triple (· = before) (.require condition ⟨layer, stage⟩) (fun _ after => after = before)
      (Early layer before) :=
  .require (fun _ same _ => same) (fun _ same _ => ⟨rfl, early.1, early.2, same⟩)

theorem attempt_early (early : stage.midway = false ∧ stage ≠ .record := by decide) :
    Triple (· = before) (attempt env layer stage) (fun _ after => after = before)
      (Early layer before) :=
  require_early early

theorem demand_early {α : Type} {value : Option α}
    (early : stage.midway = false ∧ stage ≠ .record := by decide) :
    Triple (· = before) (.demand value ⟨layer, stage⟩)
      (fun found after => after = before ∧ value = some found)
      (Early layer before) :=
  .demand (fun _ _ same found => ⟨same, found⟩) (fun _ same _ => ⟨rfl, early.1, early.2, same⟩)

def Loading.withBlock (state : Loading W) (geometry : BlockGeometry) : Loading W := { state with
  blocks := state.blocks ++ [none]
  blockGeometry := Function.update state.blockGeometry state.blocks.length geometry }

variable {geometry : BlockGeometry}

theorem newBlock_spec {thrown : Point → Loading W → Prop} : Triple (· = before) (newBlock geometry)
    (fun block after => block = before.blocks.length ∧ after = before.withBlock geometry)
      thrown := by
  rintro state rfl
  exact ⟨rfl, rfl⟩

theorem createMemblock_spec (memblockType : String) (deviceResident : Bool) :
    Triple (· = before) (createMemblock env layer memblockType geometry deviceResident)
      (fun block after => block = before.blocks.length ∧ after = before.withBlock geometry)
        (Early layer before) :=
  .bind require_early fun _ => .bind attempt_early fun _ => newBlock_spec

inductive Chosen (before : Loading W) (entry : Entry P) (dtype : DataTypeT) :
    Nat × Bool → Loading W → Prop
  | hit {block : Nat} (ref : entry.storageRef ≠ "")
      (found : before.findMemblock (before.remap entry.storageRef) = some block) :
        Chosen before entry dtype (block, false) before
  | built (ref : entry.storageRef ≠ "")
    (missing : before.findMemblock (before.remap entry.storageRef) = none) :
      Chosen before entry dtype (before.blocks.length, true)
        { before.withBlock (entry.geometry dtype) with
        memblocks :=
          Function.update before.memblocks (before.remap (before.remap entry.storageRef))
            (some before.blocks.length) }
  | own (ref : entry.storageRef = "") : Chosen before entry dtype (before.blocks.length, true)
      (before.withBlock (entry.geometry dtype))

section

variable (memblocks : String → Option (Option MemblockConfig)) (entry : Entry P) (dtype : DataTypeT)

include memblocks entry

theorem buildMemblock_spec (deviceResident : Bool)
    (ref : entry.storageRef ≠ "")
    (missing : before.findMemblock (before.remap entry.storageRef) = none) :
    Triple (· = before) (buildMemblock env layer memblocks entry dtype deviceResident
      (before.remap entry.storageRef))
      (Chosen before entry dtype) (Early layer before) := by
  refine .bind demand_early fun resource => ?_
  refine .bind ((demand_early).weaken (fun _ both => both.1) (fun _ _ both => both.1)
    fun _ _ early => early)
    fun config => ?_
  refine .bind require_early fun _ => .bind require_early fun _ => ?_
  have created :
      Triple (· = before) (createResource env layer config (entry.geometry dtype) deviceResident)
      (fun block after => block = before.blocks.length ∧
        after = before.withBlock (entry.geometry dtype)) (Early layer before) := by
    rw [createResource]
    split
    · exact .bind attempt_early fun _ => newBlock_spec
    · exact createMemblock_spec config.type deviceResident
  refine .bind created fun block => ?_
  rintro after ⟨rfl, rfl⟩
  exact .built ref missing

theorem getOrBuildMemblock_spec (deviceResident : Bool)
    (ref : entry.storageRef ≠ "") :
    Triple (· = before)
      (getOrBuildMemblock env layer memblocks entry dtype deviceResident)
      (Chosen before entry dtype)
      (Early layer before) := by
  refine .bind_get fun after same => ?_
  cases found : before.findMemblock (before.remap entry.storageRef) with
  | some block =>
    subst same
    exact .hit ref found
  | none =>
    exact buildMemblock_spec memblocks entry dtype deviceResident ref found after same

theorem chooseBlock_spec (layerType : LayerType) :
    Triple (· = before) (chooseBlock env layer memblocks entry dtype layerType) (Chosen before entry
      dtype) (Early layer before) := by
  by_cases ref : entry.storageRef = ""
  · rw [chooseBlock, if_pos ref]
    refine .bind (createMemblock_spec _ _) fun block => .pure fun after ⟨new, here⟩ => ?_
    subst new here
    exact .own ref
  · rw [chooseBlock, if_neg ref]
    exact getOrBuildMemblock_spec memblocks entry dtype _ ref

end

def Loading.withTable (state : Loading W) (geometry : TableGeometry) (contents : W) : Loading W :=
  { state with
  tables := state.tables ++ [contents]
  tableGeometry := Function.update state.tableGeometry state.tables.length geometry }

theorem createTable_spec (config : PsConfig P) (dtype : DataTypeT) :
    Triple (· = before) (createTable env layer config dtype)
      (fun table after => table = before.tables.length ∧
        after = before.withTable (env.tableGeometry config.table) (env.tableContents config.table))
      (Early layer before) := by
  refine .bind require_early fun _ => .bind attempt_early fun _ => ?_
  refine .bind require_early fun _ => .bind attempt_early fun _ => ?_
  refine .bind_get fun after same => ?_
  subst same
  exact ⟨rfl, rfl⟩

inductive Tabled (env : Surroundings W P) (remotePs : String → Option (Option (PsConfig P)))
    (before : Loading W) (entry : Entry P) :
    Nat → Loading W → Prop
  | hit {table : Nat} (found : before.findPs (before.remap entry.storageRef) = some table) :
      Tabled env remotePs before entry table before
  | built {config : PsConfig P} (missing : before.findPs (before.remap entry.storageRef) = none)
      (resource : remotePs (before.remap entry.storageRef) = some (some config)) :
      Tabled env remotePs before entry before.tables.length
        { before.withTable (env.tableGeometry config.table) (env.tableContents config.table) with
        psTables := Function.update before.psTables (before.remap (before.remap entry.storageRef))
          (some before.tables.length) }

theorem getOrBuildPs_spec (remotePs : String → Option (Option (PsConfig P))) (entry : Entry P)
    (dtype : DataTypeT) :
    Triple (· = before)
      (getOrBuildPs env layer remotePs entry dtype) (Tabled env remotePs before entry)
      (Early layer before) := by
  refine .bind_get fun after same => ?_
  cases found : before.findPs (before.remap entry.storageRef) with
  | some table =>
    subst same
    exact .hit found
  | none =>
    have build : Triple (· = before)
        (buildPs env layer remotePs dtype (before.remap entry.storageRef))
        (Tabled env remotePs before entry) (Early layer before) := by
      refine .bind demand_early fun resource => ?_
      refine .bind (m := fun config after => after = before ∧
        remotePs (before.remap entry.storageRef) = some (some config)) ?_
        fun config => ?_
      · rintro after ⟨rfl, first⟩
        cases resource with
        | some config => exact ⟨rfl, first⟩
        | none => exact ⟨rfl, rfl, nofun, rfl⟩
      · rintro after ⟨rfl, first⟩
        refine Triple.bind (createTable_spec config dtype) (fun table => ?_) after rfl
        rintro between ⟨rfl, rfl⟩
        exact .built found first
    exact build after same

def Midway (layer : Nat) (before : Loading W) (point : Point) (after : Loading W) : Prop :=
  point.layer = layer ∧ point.stage.midway = true ∧ after = before

theorem attempt_midway (midway : stage.midway = true) :
    Triple (· = before) (attempt env layer stage) (fun _ after => after = before)
      (Midway layer before) :=
  .require (fun _ same _ => same) (fun _ same _ => ⟨rfl, midway, same⟩)

theorem demand_midway {α : Type} {value : Option α} (midway : stage.midway = true) :
    Triple (· = before) (.demand value ⟨layer, stage⟩)
      (fun found after => after = before ∧ value = some found)
      (Midway layer before) :=
  .demand (fun _ _ same found => ⟨same, found⟩) (fun _ same _ => ⟨rfl, midway, same⟩)

theorem openWeights_spec (key : String) :
    Triple (· = before) (openWeights env layer key)
      (fun file after => after = before ∧ env.weights key = some file)
      (Midway layer before) :=
  .bind (attempt_midway rfl) fun _ => demand_midway rfl

def Loading.withContents (state : Loading W) (block : Nat) (contents : W) : Loading W :=
  { state with blocks := state.blocks.set block (some contents) }

theorem readWeights_spec (file : Int → Option W) (id : Int) (block : Nat) :
    Triple (· = before) (readWeights env layer file id block)
      (fun _ after => ∃ contents, file id = some contents ∧
        after = before.withContents block contents) (Midway layer before) := by
  refine .bind (attempt_midway rfl) fun _ => .bind (demand_midway rfl) fun contents => ?_
  rintro after ⟨rfl, found⟩
  exact ⟨contents, found, rfl⟩

inductive Weighted (env : Surroundings W P) (entry : Entry P) (block : Nat) (needsWeightLoad : Bool)
    (before : Loading W) :
    Loading W → Prop
  | skipped (reason : needsWeightLoad = false ∨ weightKey entry ∈ before.weightsLoaded) :
      Weighted env entry block needsWeightLoad before before
  | loaded {file : Int → Option W} {contents : W} (needed : needsWeightLoad = true)
      (opened : env.weights (weightKey entry) = some file) (read : file entry.id = some contents) :
      Weighted env entry block needsWeightLoad before { before.withContents block contents with
        weightsLoaded := weightKey entry :: before.weightsLoaded }

theorem loadWeights_spec (entry : Entry P) (block : Nat) (needsWeightLoad : Bool) :
    Triple (· = before) (loadWeights env layer entry block needsWeightLoad)
      (fun _ after => Weighted env entry block needsWeightLoad before after)
        (Midway layer before) := by
  refine .bind_get fun after same => ?_
  by_cases loads : (needsWeightLoad && !before.weightsLoaded.contains (weightKey entry)) = true
  · have run : Triple (· = before) (do
        let file ← openWeights env layer (weightKey entry)
        readWeights env layer file entry.id block
        .modify fun state => { state with weightsLoaded := weightKey entry :: state.weightsLoaded })
        (fun _ after => Weighted env entry block needsWeightLoad before after)
          (Midway layer before) := by
      refine .bind (openWeights_spec (weightKey entry)) fun file => ?_
      rintro between ⟨rfl, opened⟩
      refine Triple.bind (readWeights_spec file entry.id block) (fun _ => ?_) between rfl
      rintro later ⟨contents, read, rfl⟩
      exact .loaded (Bool.and_eq_true_iff.mp loads).1 opened read
    rw [if_pos loads]
    exact run after same
  · rw [if_neg loads]
    subst same
    refine .skipped ?_
    cases needsWeightLoad with
    | false => exact .inl rfl
    | true => exact .inr (by simpa using loads)

theorem construct_spec (storage : Storage) :
    Triple (· = before) (construct env layer storage)
      (fun binding after => binding = before.bindings.length ∧
        after = { before with bindings := before.bindings ++ [storage] })
      (Midway layer before) := by
  refine .bind (attempt_midway rfl) fun _ => ?_
  refine .bind_get fun after same => ?_
  subst same
  exact ⟨rfl, rfl⟩

def Loading.registered (state : Loading W) (marker binding : Nat) : Loading W :=
  { state with entries := Function.update state.entries marker (some binding) }

theorem registerLayer_spec (entry : Entry P) (binding : Nat) :
    Triple (· = before) (registerLayer env layer entry binding)
      (fun _ after => ∃ layers,
        after = { before.registered (env.marker binding) binding with layers := layers })
      (fun point after => Early layer before point after ∨
        point = ⟨layer, .record⟩ ∧ after = before.registered (env.marker binding) binding) := by
  refine .bind ((require_early).rethrow fun _ _ => .inl) fun _ => ?_
  refine .bind ((attempt_early).rethrow fun _ _ => .inl) fun _ => ?_
  refine .bind ((attempt_early).rethrow fun _ _ => .inl) fun _ => ?_
  refine .bind (m := fun _ after => after = before.registered (env.marker binding) binding)
    (.modify fun state same => by subst same; rfl) fun _ => ?_
  refine .bind ((attempt_spec .record).rethrow fun _ _ both => .inr both) fun _ => ?_
  exact .modify fun state same => ⟨_, by subst same; rfl⟩

end Steps

/-! ### Failed constructions -/

/-- Blocks and tables of the directory have been loaded. -/
structure Complete (process : Process W) : Prop where
  memblocks : ∀ key block, process.memblocks key = some block →
    ∃ contents, process.blocks[block]? = some (some contents)
  psTables : ∀ key table, process.psTables key = some table →
    ∃ contents, process.tables[table]? = some contents

/-- The registry is as before, and the directory holds nothing that was not completely loaded. -/
structure Clean (before after : Process W) : Prop where
  entries : after.entries = before.entries
  complete : Complete after

def Builds (process : Process W) (entry : Entry P) : Prop :=
  entry.layerType ≠ some .hierarchical ∧ entry.storageRef ≠ "" ∧
    process.findMemblock (process.remap entry.storageRef) = none

section Failures

variable {env : Surroundings W P} {layer : Nat} {before after : Loading W} {entry : Entry P}

theorem update_cases {held : String → Option Nat} {key other : String} {new value : Nat}
    (found : update held key (some new) other = some value) :
    (other = key ∧ new = value) ∨ (other ≠ key ∧ held other = some value) := by
  by_cases here : other = key
  · subst here
    rw [update_self] at found
    exact .inl ⟨rfl, Option.some.inj found⟩
  · rw [update_of_ne here] at found
    exact .inr ⟨here, found⟩

theorem Complete.withBlock (complete : Complete before.toProcess) (geometry : BlockGeometry) :
    Complete (before.withBlock geometry).toProcess := by
  refine ⟨fun key block held => ?_, complete.psTables⟩
  obtain ⟨contents, here⟩ := complete.memblocks key block held
  exact ⟨contents, List.getElem?_append_left (List.getElem?_eq_some_iff.mp here).1 ▸ here⟩

theorem Complete.withTable (complete : Complete before.toProcess) (geometry : TableGeometry)
    (contents : W) :
    Complete (before.withTable geometry contents).toProcess := by
  refine ⟨complete.memblocks, fun key table held => ?_⟩
  obtain ⟨old, here⟩ := complete.psTables key table held
  exact ⟨old, (List.getElem?_append_left (List.getElem?_eq_some_iff.mp here).1).trans here⟩

theorem not_complete_built (geometry : BlockGeometry) (key : String) :
    ¬ Complete { (before.withBlock geometry).toProcess with
    memblocks := update before.memblocks key (some before.blocks.length) } := by
  intro complete
  obtain ⟨contents, here⟩ := complete.memblocks key before.blocks.length (update_self ..)
  simp [Loading.withBlock] at here

theorem Complete.withContents (complete : Complete before.toProcess) (block : Nat) (contents : W) :
    Complete (before.withContents block contents).toProcess := by
  refine ⟨fun key other held => ?_, complete.psTables⟩
  obtain ⟨old, here⟩ := complete.memblocks key other held
  by_cases same : block = other
  · subst same
    exact ⟨contents, List.getElem?_set_self (List.getElem?_eq_some_iff.mp here).1⟩
  · exact ⟨old, (List.getElem?_set_ne same).trans here⟩

variable {remotePs : String → Option (Option (PsConfig P))}

theorem Complete.tabled {table : Nat} (complete : Complete before.toProcess)
    (tabled : Tabled env remotePs before entry table after) : Complete after.toProcess := by
  cases tabled with
  | hit found => exact complete
  | @built config missing resource =>
    refine ⟨complete.memblocks, fun key other held => ?_⟩
    rcases update_cases held with ⟨-, rfl⟩ | ⟨-, old⟩
    · exact ⟨_, List.getElem?_concat_length⟩
    · exact (complete.withTable (env.tableGeometry config.table) _).psTables key other old

variable {chosen : Nat × Bool} {middle : Loading W} {dtype : DataTypeT}

theorem complete_weighted (complete : Complete before.toProcess)
    (first : before.weightsLoaded = []) (choice : Chosen before entry dtype chosen middle)
    (storage : Storage)
    (weighted : Weighted env entry chosen.1 chosen.2 { middle with
      bindings := middle.bindings ++ [storage] } after) :
    Complete after.toProcess := by
  cases choice with
  | hit ref found =>
    cases weighted with
    | skipped reason => exact ⟨complete.memblocks, complete.psTables⟩
    | loaded needed => cases needed
  | built ref missing =>
    cases weighted with
    | skipped reason =>
      rcases reason with needless | loaded
      · cases needless
      · exact absurd (first ▸ loaded) List.not_mem_nil
    | @loaded file contents needed opened read =>
      refine ⟨fun key block held => ?_, complete.psTables⟩
      rcases update_cases held with ⟨-, rfl⟩ | ⟨-, old⟩
      · exact ⟨contents, List.getElem?_set_self (by simp [Loading.withBlock])⟩
      · have added := complete.withBlock (entry.geometry dtype)
        exact (Complete.withContents added before.blocks.length contents).memblocks key block old
  | own ref =>
    have added := complete.withBlock (entry.geometry dtype)
    cases weighted with
    | skipped reason => exact ⟨added.memblocks, added.psTables⟩
    | @loaded file contents needed opened read =>
      have filled := Complete.withContents added before.blocks.length contents
      exact ⟨filled.memblocks, filled.psTables⟩

theorem complete_chosen_iff (complete : Complete before.toProcess)
    (choice : Chosen before entry dtype chosen middle)
    (layerType : entry.layerType ≠ some .hierarchical) :
    Complete middle.toProcess ↔ ¬ Builds before.toProcess entry := by
  cases choice with
  | hit ref found =>
    refine iff_of_true complete fun builds => ?_
    have missing := builds.2.2
    rw [found] at missing
    cases missing
  | built ref missing =>
    exact iff_of_false (not_complete_built _ _) (not_not_intro ⟨layerType, ref, missing⟩)
  | own ref => exact iff_of_true (complete.withBlock _) fun builds => builds.2.1 ref

structure Made (before : Loading W) (binding : Nat) (after : Loading W) : Prop where
  binding : binding = before.bindings.length
  entries : after.entries = before.entries
  bindings : after.bindings.length = before.bindings.length + 1
  complete : Complete before.toProcess → before.weightsLoaded = [] → Complete after.toProcess

/-- The turn of a layer has thrown; `builds` tells whether it puts a block into the directory. -/
structure Halted (layer : Nat) (builds : Prop) (before : Loading W) (point : Point)
    (after : Loading W) : Prop where
  layer : point.layer = layer
  entries : (point.stage ≠ .record ∧ after.entries = before.entries) ∨
    (point.stage = .record ∧ ∃ marker, after.entries =
      Function.update before.entries marker (some before.bindings.length))
  bindings : before.bindings.length ≤ after.bindings.length
  complete : Complete before.toProcess → before.weightsLoaded = [] →
    (Complete after.toProcess ↔ ¬ (point.stage.midway = true ∧ builds))

variable {builds : Prop} {point : Point}

theorem Early.halted (early : Early layer before point after) :
    Halted layer builds before point after := by
  obtain ⟨here, notMidway, notRecord, rfl⟩ := early
  refine ⟨here, .inl ⟨notRecord, rfl⟩, le_rfl, fun complete _ =>
    iff_of_true complete fun both => ?_⟩
  exact Bool.false_ne_true (notMidway.symm.trans both.1)

theorem Midway.halted (midway : Midway layer middle point after)
    (entries : middle.entries = before.entries)
    (bindings : before.bindings.length ≤ middle.bindings.length)
    (complete : Complete before.toProcess → (Complete middle.toProcess ↔ ¬ builds)) :
      Halted layer builds before point after := by
  obtain ⟨here, atMidway, rfl⟩ := midway
  refine ⟨here, .inl ⟨fun record => ?_, entries⟩, bindings, fun whole _ => ?_⟩
  · rw [record] at atMidway
    cases atMidway
  · rw [complete whole]
    exact not_congr ⟨fun built => ⟨atMidway, built⟩, fun both => both.2⟩

theorem Chosen.frame (choice : Chosen before entry dtype chosen middle) :
    middle.entries = before.entries ∧ middle.bindings = before.bindings := by
  cases choice with
  | hit => exact ⟨rfl, rfl⟩
  | built => exact ⟨rfl, rfl⟩
  | own => exact ⟨rfl, rfl⟩

theorem Tabled.frame {table : Nat} (tabled : Tabled env remotePs before entry table middle) :
    middle.entries = before.entries ∧ middle.bindings = before.bindings := by
  cases tabled with
  | hit => exact ⟨rfl, rfl⟩
  | built => exact ⟨rfl, rfl⟩

theorem Weighted.frame {block : Nat} {needsWeightLoad : Bool}
    (weighted : Weighted env entry block needsWeightLoad before after) :
    after.entries = before.entries ∧ after.bindings = before.bindings := by
  cases weighted with
  | skipped => exact ⟨rfl, rfl⟩
  | loaded => exact ⟨rfl, rfl⟩

theorem construct_table {table : Nat} (entries : middle.entries = before.entries)
    (bindings : middle.bindings = before.bindings)
    (complete : Complete before.toProcess → Complete middle.toProcess)
    (never : ¬ builds) :
    Triple (· = middle) (construct env layer (.table table)) (Made before)
      (Halted layer builds before) := by
  refine (construct_spec (.table table)).mono (fun binding after both => ?_)
    fun point after midway => ?_
  · obtain ⟨rfl, rfl⟩ := both
    refine ⟨by rw [bindings], entries, by simp [bindings], fun whole _ => ?_⟩
    have kept := complete whole
    exact ⟨kept.memblocks, kept.psTables⟩
  · exact midway.halted entries (by rw [bindings]) fun whole => iff_of_true (complete whole) never

theorem makeLayerV1_spec (entry : Entry P) (dtype : DataTypeT) (layerType : LayerType) :
    Triple (· = before) (makeLayerV1 env layer entry dtype layerType) (Made before)
      (Halted layer False before) := by
  by_cases hierarchical : layerType = .hierarchical
  · rw [makeLayerV1, if_pos hierarchical]
    refine .bind ((demand_early).mono (fun _ _ both => both.1) fun _ _ => Early.halted)
      fun config => ?_
    refine .bind ((createTable_spec config dtype).rethrow fun _ _ => Early.halted) fun table => ?_
    rintro middle ⟨rfl, rfl⟩
    have object :
        Triple (· = before.withTable (env.tableGeometry config.table)
        (env.tableContents config.table))
        (construct env layer (.table before.tables.length)) (Made before)
          (Halted layer False before) :=
      construct_table rfl rfl (fun whole => whole.withTable _ _) fun never => never
    exact object _ rfl
  · rw [makeLayerV1, if_neg hierarchical]
    refine .bind ((createMemblock_spec _ _).rethrow fun _ _ => Early.halted) fun block => ?_
    rintro middle ⟨rfl, rfl⟩
    have own {point : Point} {after : Loading W}
        (midway : Midway layer (before.withBlock (entry.geometry dtype)) point after) :
        Halted layer False before point after :=
      midway.halted rfl le_rfl fun complete => iff_of_true (complete.withBlock _) fun never => never
    refine Triple.bind ((openWeights_spec _).mono (fun _ _ both => both.1) fun _ _ => own)
      (fun file => ?_) _ rfl
    refine .bind ((construct_spec _).rethrow fun _ _ => own) fun binding => ?_
    rintro made ⟨rfl, rfl⟩
    refine Triple.bind ((readWeights_spec file entry.id _).rethrow fun point after midway => ?_)
      (fun _ => ?_) _ rfl
    · refine midway.halted rfl (by simp [Loading.withBlock]) fun complete =>
        iff_of_true ?_ fun never => never
      exact ⟨(complete.withBlock (entry.geometry dtype)).memblocks, complete.psTables⟩
    · rintro after ⟨contents, -, rfl⟩
      refine ⟨rfl, rfl, by simp [Loading.withBlock, Loading.withContents], fun complete _ => ?_⟩
      have filled :=
        Complete.withContents (complete.withBlock (entry.geometry dtype))
          before.blocks.length contents
      exact ⟨filled.memblocks, filled.psTables⟩

variable (memblocks : String → Option (Option MemblockConfig))
  (remotePs : String → Option (Option (PsConfig P)))

theorem makeLayerV2_spec (entry : Entry P) (dtype : DataTypeT) {layerType : LayerType}
    (type : entry.layerType = some layerType) :
    Triple (· = before)
      (makeLayerV2 env layer memblocks remotePs entry dtype layerType) (Made before)
      (Halted layer (Builds before.toProcess entry) before) := by
  by_cases hierarchical : layerType = .hierarchical
  · rw [makeLayerV2, if_pos hierarchical]
    refine .bind ((require_early).rethrow fun _ _ => Early.halted) fun _ => ?_
    refine .bind ((getOrBuildPs_spec remotePs entry dtype).rethrow fun _ _ => Early.halted)
      fun table => ?_
    intro middle tabled
    have never : ¬ Builds before.toProcess entry :=
      fun builds => builds.1 (by rw [type, hierarchical])
    have object : Triple (· = middle) (construct env layer (.table table)) (Made before)
        (Halted layer (Builds before.toProcess entry) before) :=
      construct_table tabled.frame.1 tabled.frame.2 (fun complete => complete.tabled tabled) never
    exact object _ rfl
  · rw [makeLayerV2, if_neg hierarchical]
    refine .bind ((chooseBlock_spec memblocks entry dtype layerType).rethrow fun _ _ =>
      Early.halted) fun chosen => ?_
    intro middle choice
    have iff (complete : Complete before.toProcess) :
        Complete middle.toProcess ↔ ¬ Builds before.toProcess entry :=
      complete_chosen_iff complete choice fun other =>
        hierarchical (Option.some.inj (type.symm.trans other))
    obtain ⟨entries, bindings⟩ := choice.frame
    refine Triple.bind ((construct_spec _).rethrow fun point after midway =>
      midway.halted entries (by rw [bindings]) iff) (fun binding => ?_) _ rfl
    rintro made ⟨rfl, rfl⟩
    refine Triple.bind ((loadWeights_spec entry chosen.1 chosen.2).rethrow fun point after midway =>
      ?_) (fun _ => ?_) _ rfl
    · refine midway.halted entries (by simp [bindings]) fun complete => ?_
      rw [← iff complete]
      exact ⟨fun whole => ⟨whole.memblocks, whole.psTables⟩, fun whole =>
        ⟨whole.memblocks, whole.psTables⟩⟩
    · intro after weighted
      refine ⟨by rw [bindings], weighted.frame.1.trans entries, ?_, fun complete first => ?_⟩
      · rw [weighted.frame.2, List.length_append, bindings, List.length_singleton]
      · exact complete_weighted complete first choice _ weighted

structure Turned (before after : Loading W) : Prop where
  entries : ∃ marker, after.entries =
    Function.update before.entries marker (some before.bindings.length)
  bindings : after.bindings.length = before.bindings.length + 1

theorem registerLayer_turn {binding : Nat} {made : Loading W} (object : Made before binding made) :
    Triple (· = made) (registerLayer env layer entry binding)
      (fun _ => Turned before) (Halted layer builds before) := by
  have same := object.binding
  refine (registerLayer_spec entry binding).mono (fun _ after loaded => ?_)
    fun point after thrown => ?_
  · obtain ⟨layers, rfl⟩ := loaded
    refine ⟨⟨env.marker binding, ?_⟩, object.bindings⟩
    simp only [Loading.registered, object.entries, same]
  · rcases thrown with ⟨here, notMidway, notRecord, rfl⟩ | ⟨rfl, rfl⟩
    · refine ⟨here,
        .inl ⟨notRecord, object.entries⟩, by rw [object.bindings]; omega, fun complete first => ?_⟩
      refine iff_of_true (object.complete complete first) fun both => ?_
      exact Bool.false_ne_true (notMidway.symm.trans both.1)
    · refine ⟨rfl, .inr ⟨rfl, env.marker binding, ?_⟩, ?_, fun complete first => ?_⟩
      · simp only [Loading.registered, object.entries, same]
      · simp only [Loading.registered, object.bindings]
        omega
      · have whole := object.complete complete first
        exact iff_of_true ⟨whole.memblocks, whole.psTables⟩ fun both => Bool.false_ne_true both.1

theorem loadLayerV1_turn (read : Option (Entry P)) :
    Triple (· = before) (loadLayerV1 env layer read) (fun _ => Turned before)
      (Halted layer False before) := by
  refine .bind ((demand_early).mono (fun _ _ both => both.1) fun _ _ => Early.halted) fun entry =>
    ?_
  refine .bind ((demand_early).mono (fun _ _ both => both.1) fun _ _ => Early.halted) fun dtype =>
    ?_
  refine .bind ((demand_early).mono (fun _ _ both => both.1) fun _ _ => Early.halted)
    fun layerType => ?_
  refine .bind (makeLayerV1_spec entry dtype layerType) fun binding made object => ?_
  exact registerLayer_turn object made rfl

def BuildsRead (process : Process W) (read : Option (Entry P)) : Prop :=
  ∃ entry, read = some entry ∧ Builds process entry

theorem loadLayerV2_turn (read : Option (Entry P)) :
    Triple (· = before) (loadLayerV2 env layer memblocks remotePs read) (fun _ => Turned before)
      (Halted layer (BuildsRead before.toProcess read) before) := by
  refine .bind ((demand_early).rethrow fun _ _ => Early.halted) fun entry => ?_
  rintro middle ⟨rfl, here⟩
  have same : BuildsRead middle.toProcess read = Builds middle.toProcess entry := by
    refine propext ⟨fun ⟨other, found, builds⟩ => ?_, fun builds => ⟨entry, here, builds⟩⟩
    exact Option.some.inj (here.symm.trans found) ▸ builds
  rw [same]
  refine Triple.bind ((demand_early).mono (fun _ _ both => both.1)
    fun _ _ => Early.halted) (fun dtype => ?_) middle rfl
  refine .bind ((demand_early).rethrow fun _ _ => Early.halted) fun layerType => ?_
  rintro before ⟨rfl, type⟩
  refine Triple.bind (makeLayerV2_spec memblocks remotePs entry dtype type)
    (fun binding made object => ?_) before rfl
  exact registerLayer_turn object made rfl

def Dirty (count : Nat) (state : Loading W) : Prop :=
  count ≤ state.bindings.length ∧ ∃ marker binding, state.entries marker = some binding ∧
    count ≤ binding

theorem dirty_of_update {count marker : Nat} (counted : count ≤ before.bindings.length)
    (bindings : before.bindings.length ≤ after.bindings.length)
    (entries : after.entries = update before.entries marker (some before.bindings.length)) :
      Dirty count after :=
  ⟨counted.trans bindings, marker, before.bindings.length, by rw [entries, update_self], counted⟩

theorem Turned.dirty {count : Nat} (turned : Turned before after)
    (counted : count ≤ before.bindings.length) :
    Dirty count after := by
  obtain ⟨marker, entries⟩ := turned.entries
  exact dirty_of_update counted (by rw [turned.bindings]; omega) entries

/-- Bindings of the construction stay in the registry whatever is thrown. -/
theorem Halted.dirty {count : Nat} (halted : Halted layer builds before point after)
    (dirty : Dirty count before) : Dirty count after := by
  rcases halted.entries with ⟨-, same⟩ | ⟨-, marker, entries⟩
  · obtain ⟨counted, marker, binding, held, new⟩ := dirty
    exact ⟨counted.trans halted.bindings, marker, binding, by rw [same, held], new⟩
  · exact dirty_of_update dirty.1 halted.bindings entries

def Reached (start : Loading W) (index : Nat) (state : Loading W) : Prop :=
  if index = 0 then state = start else Dirty start.bindings.length state

def Aborted (builds : Process W → Option (Entry P) → Prop) (layers : List (Option (Entry P)))
    (start : Loading W) (point : Point)
    (after : Loading W) : Prop :=
  (∃ read rest, layers = read :: rest ∧ Halted 0 (builds start.toProcess read) start point after) ∨
    (point.layer ≠ 0 ∧ Dirty start.bindings.length after)

theorem loop_spec {body : Nat → Option (Entry P) → Loader W Unit}
    {builds : Process W → Option (Entry P) → Prop}
    (turn : ∀ layer read before, Triple (· = before) (body layer read) (fun _ => Turned before)
      (Halted layer (builds before.toProcess read) before)) (layers : List (Option (Entry P)))
        (start : Loading W) :
    Triple (Reached start 0) (.forEach body 0 layers) (fun _ => Reached start (0 + layers.length))
      (Aborted builds layers start) := by
  refine .forEach layers 0 fun position read found => ?_
  cases position with
  | zero =>
    refine (turn 0 read start).weaken (fun _ same => by simpa [Reached] using same)
      (fun _ after turned => by simpa [Reached] using turned.dirty le_rfl) fun point after halted =>
        ?_
    cases layers with
    | nil => cases found
    | cons first rest =>
      cases found
      exact .inl ⟨read, rest, rfl, halted⟩
  | succ position =>
    intro state held
    have dirty : Dirty start.bindings.length state := by simpa [Reached] using held
    rw [Nat.zero_add]
    refine ((turn (position + 1) read state).mono (fun _ after turned => ?_)
      fun point after halted => ?_) state rfl
    · rw [Reached, if_neg (Nat.succ_ne_zero _)]
      exact turned.dirty dirty.1
    · refine .inr ⟨?_, halted.dirty dirty⟩
      rw [halted.layer]
      exact Nat.succ_ne_zero _

end Failures

def FirstBuilds (env : Surroundings W P) (process : Process W) : Prop :=
  ∃ version read rest memblocks remotePs, env.metadata =
    some (.versioned version (read :: rest) memblocks remotePs) ∧
    BuildsRead process read

/-- The exception comes before the first layer is registered, and not while a block that this layer
has put into the directory is still to be loaded. -/
def CleanPoint (env : Surroundings W P) (process : Process W) (point : Point) : Prop :=
  point.layer = 0 ∧ point.stage ≠ .record ∧ ¬ (point.stage.midway = true ∧ FirstBuilds env process)

def Refused (start : Loading W) (point : Point) (after : Loading W) : Prop :=
  point.layer = 0 ∧ point.stage.midway = false ∧ point.stage ≠ .record ∧ after = start

section Construction

variable {env : Surroundings W P} {process : Process W} {point : Point} {after : Loading W}

theorem construction_thrown {start : Loading W} :
    Triple (· = start) (construction env) (fun _ _ => True) (fun point after =>
    Refused start point after ∨
    (∃ layers, env.metadata = some (.legacy layers) ∧
      Aborted (fun _ _ => False) layers start point after) ∨
    (∃ version layers memblocks remotePs, env.metadata =
      some (.versioned version layers memblocks remotePs) ∧
      Aborted BuildsRead layers start point after)) := by
  refine .bind ((attempt_early).rethrow fun _ _ => .inl) fun _ => ?_
  refine .bind ((demand_early).rethrow fun _ _ => .inl) fun document => ?_
  rintro state ⟨same, metadata⟩
  cases document with
  | legacy layers =>
    have loop : Triple (Reached start 0) (.forEach (loadLayerV1 env) 0 layers)
        (fun _ => Reached start (0 + layers.length)) (Aborted (fun _ _ => False) layers start) :=
      loop_spec (fun layer read before => loadLayerV1_turn read) layers start
    refine (loop.mono (fun _ _ _ => trivial) fun point after aborted => ?_) _ same
    exact .inr (.inl ⟨layers, metadata, aborted⟩)
  | versioned version layers memblocks remotePs =>
    refine Triple.bind ((require_early).rethrow fun _ _ => .inl) (fun _ => ?_) _ same
    refine (loop_spec (fun layer read before => loadLayerV2_turn memblocks remotePs read)
      layers start).weaken
      (fun _ same => same) (fun _ _ _ => trivial) fun point after aborted => ?_
    exact .inr (.inr ⟨version, layers, memblocks, remotePs, metadata, aborted⟩)

def Registered (process : Process W) : Prop :=
  ∀ marker binding, process.entries marker = some binding → binding < process.bindings.length

theorem not_clean_of_dirty (registered : Registered process)
    (dirty : Dirty process.bindings.length after) :
    ¬ Clean process after.toProcess := by
  intro clean
  obtain ⟨-, marker, binding, held, new⟩ := dirty
  rw [clean.entries] at held
  exact absurd (registered marker binding held) (Nat.not_lt.mpr new)

/-- An aborted loop leaves the registries clean exactly if it was aborted at the right point of its
first turn. -/
theorem Aborted.clean_iff {builds : Process W → Option (Entry P) → Prop}
    {layers : List (Option (Entry P))}
    (aborted : Aborted builds layers ⟨process, [], []⟩ point after)
    (registered : Registered process) (complete : Complete process) :
    Clean process after.toProcess ↔ point.layer = 0 ∧ point.stage ≠ .record ∧
      ¬ (point.stage.midway = true ∧ ∃ read rest, layers = read :: rest ∧ builds process read) := by
  rcases aborted with ⟨read, rest, rfl, halted⟩ | ⟨later, dirty⟩
  · have first : (∃ other more, read :: rest = other :: more ∧ builds process other) ↔
        builds process read := by
      refine ⟨fun ⟨other, more, same, built⟩ => ?_, fun built => ⟨read, rest, rfl, built⟩⟩
      cases same
      exact built
    rw [first]
    rcases halted.entries with ⟨notRecord, same⟩ | ⟨record, marker, entries⟩
    · refine ⟨fun clean => ⟨halted.layer, notRecord, ?_⟩, fun ⟨_, _, allowed⟩ => ⟨same, ?_⟩⟩
      · exact (halted.complete complete rfl).mp clean.complete
      · exact (halted.complete complete rfl).mpr allowed
    · have dirty : Dirty process.bindings.length after :=
        dirty_of_update le_rfl halted.bindings entries
      exact iff_of_false (not_clean_of_dirty registered dirty) fun right => right.2.1 record
  · exact iff_of_false (not_clean_of_dirty registered dirty) fun right => later right.1

/-- A failed construction leaves the registries clean exactly if its exception comes before the
first layer is registered, and not while a block that this layer has put into the directory is still
to be loaded. -/
theorem failed_load_clean_iff (env : Surroundings W P) (process : Process W)
    (registered : Registered process)
    (complete : Complete process) (point : Point) (after : Loading W)
    (threw : layerDirectory env process = (.error point, after)) :
    Clean process after.toProcess ↔ CleanPoint env process point := by
  rcases construction_thrown.threw rfl threw with ⟨here, notMidway, notRecord, rfl⟩ | ⟨layers,
    metadata, aborted⟩ |
      ⟨version, layers, memblocks, remotePs, metadata, aborted⟩
  · refine iff_of_true ⟨rfl, complete⟩ ⟨here, notRecord, fun both => ?_⟩
    exact Bool.false_ne_true (notMidway.symm.trans both.1)
  · rw [aborted.clean_iff registered complete, CleanPoint]
    have none : ¬ FirstBuilds env process := by
      rintro ⟨_, _, _, _, _, other, -⟩
      rw [metadata] at other
      cases other
    simp only [none, and_false, exists_false]
  · rw [aborted.clean_iff registered complete, CleanPoint]
    have same : FirstBuilds env process ↔ ∃ read rest, layers = read :: rest ∧
        BuildsRead process read := by
      constructor
      · rintro ⟨_, read, rest, _, _, other, built⟩
        rw [metadata] at other
        cases other
        exact ⟨read, rest, rfl, built⟩
      · rintro ⟨read, rest, rfl, built⟩
        exact ⟨version, read, rest, memblocks, remotePs, metadata, built⟩
    rw [same]

end Construction

def emptyProcess : Process Nat :=
  ⟨fun _ => none, fun _ => none, fun _ => none, id, [], [], [], fun _ => ⟨0, 0, .unknown⟩, fun _ =>
    ⟨0, .unknown⟩⟩

def twoLayers (weights : String → Option (Int → Option Nat)) (updatable : String → Bool) :
    Surroundings Nat Unit where
  metadata := some (.versioned 2
    [some ⟨1, "first", 4, 2, "float32", some .hostLayer, "mb-7", "", none⟩,
      some ⟨2, "second", 4, 2, "float32", some .hostLayer, "mb-7", "", none⟩]
    (fun key => if key = "mb-7" then some (some ⟨2, 4, "MemBlockType.Host"⟩) else none) fun _ =>
      none)
  weights := weights
  tableGeometry _ := ⟨8, .float32⟩
  tableContents _ := 0
  updatable := updatable
  marker binding := 100 + binding
  fails _ := false

theorem failed_load_clean_unknown_marker :
    ∃ after, layerDirectory (twoLayers (fun _ => some fun _ => some 5) fun _ => false)
    emptyProcess = (.error ⟨0, .markerConstant⟩, after) ∧ Clean emptyProcess after.toProcess := by
  refine ⟨_,
    rfl, (failed_load_clean_iff (twoLayers (fun _ => some fun _ => some 5) fun _ => false)
    emptyProcess ?_ ?_
    ⟨0, .markerConstant⟩ _ rfl).mpr ?_⟩
  · exact fun _ _ held => (nomatch held)
  · exact ⟨fun _ _ held => (nomatch held), fun _ _ held => (nomatch held)⟩
  · exact ⟨rfl, nofun, fun both => Bool.false_ne_true both.1⟩

/-- The second layer has no marker constant, and the first one stays registered. And without its
weight file a block stays in the directory: when the file is there, the layers are loaded over a
block without contents. -/
theorem failed_load_leaves_entries :
    (∃ after, layerDirectory (twoLayers (fun _ => some fun _ => some 5) fun fqn =>
      fqn == "first.marker_tensor") emptyProcess =
      (.error ⟨1, .markerConstant⟩, after) ∧ emptyProcess.entries 100 = none ∧
        after.entries 100 = some 0) ∧
    (∃ after later, layerDirectory (twoLayers (fun _ => none) fun _ => true) emptyProcess =
      (.error ⟨0, .openWeights⟩, after) ∧
      layerDirectory (twoLayers (fun _ => some fun _ => some 5) fun _ => true) after.toProcess =
        (.ok (), later) ∧
      later.layers = [(1, 1), (2, 2)] ∧
        later.bindings[1]? = some (.block 0) ∧ later.blocks[0]? = some none) :=
  ⟨⟨_, rfl, rfl, rfl⟩, _, _, rfl, rfl, rfl, rfl, rfl⟩

end EmbedCache.NveLoader
