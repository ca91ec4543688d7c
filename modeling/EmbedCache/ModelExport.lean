import EmbedCache.LayerDirectory

/-! The export of models (`nve_export.py`): resources named after object identities, metadata and
weight files. -/

namespace EmbedCache.NveExport

open Lib NveLoader Function List

/-- An embedding module as `named_modules` yields it; `storage` is the identity of its storage
object. -/
structure Module where
  name : String
  id : Int
  numEmbeddings : Nat
  embeddingSize : Nat
  dtype : String
  layerType : LayerType
  storage : Nat

/-- A memory block with its weights, or the `export_config` of a parameter server. -/
inductive StorageObject (W P : Type)
  | memblock (memblockType : String) (contents : W)
  | ps (config : PsConfig P)

def StorageObject.isMemblock {W P : Type} : StorageObject W P → Bool
  | .memblock .. => true
  | .ps _ => false

/-- A model in the process that exports it. Only hierarchical layers are made over parameter
servers. -/
structure Model (W P : Type) where
  modules : List Module
  object : Nat → StorageObject W P
  named : (modules.map Module.name).Nodup
  typed : ∀ layer ∈ modules, layer.layerType = .hierarchical ↔
    (object layer.storage).isMemblock = false

variable {W P D : Type}

def memblockResourceDescriptor (layer : Module) (memblockType : String) : MemblockConfig :=
  ⟨layer.embeddingSize, layer.numEmbeddings, if contains memblockType "User" then
    "MemBlockType.Managed"
    else memblockType⟩

/-- The dictionaries of `_collect_resources`. -/
structure Resources (P : Type) where
  remotePs : String → Option (PsConfig P)
  memblocks : String → Option MemblockConfig
  objToKey : Nat → Option String
  layerStorageRefs : String → Option String

def resourceKey (object : StorageObject W P) (id : Nat) : String :=
  if object.isMemblock then "mb-" ++ toString id else "ps-" ++ toString id

section Export

-- `withData` notes data files in the configuration of a parameter server
variable (withData : P → D → P) (psDataPaths : String → Option D) (model : Model W P)
  (resources : Resources P)

variable (layer : Module)

def addResource : Resources P :=
  let key := resourceKey (model.object layer.storage) layer.storage
  match resources.objToKey layer.storage, model.object layer.storage with
  | some _, _ => resources
  | none, .memblock memblockType _ => { resources with
      memblocks :=
        Function.update resources.memblocks key
          (some (memblockResourceDescriptor layer memblockType))
      objToKey := Function.update resources.objToKey layer.storage (some key) }
  | none, .ps config => { resources with
      remotePs := Function.update resources.remotePs key (some config)
      objToKey := Function.update resources.objToKey layer.storage (some key) }

def addData : Resources P :=
  match (model.object layer.storage).isMemblock, psDataPaths layer.name,
    resources.objToKey layer.storage with
  | false, some paths, some key => { resources with
      remotePs := Function.update resources.remotePs key
        ((resources.remotePs key).map fun config =>
          { config with table := withData config.table paths }) }
  | _, _, _ => resources

def collectLayer : Resources P :=
  let resources := addData withData psDataPaths model (addResource model resources layer) layer
  { resources with
    layerStorageRefs :=
      Function.update resources.layerStorageRefs layer.name (resources.objToKey layer.storage) }

def collectResources : Resources P :=
  model.modules.foldl (collectLayer withData psDataPaths model)
    ⟨fun _ => none, fun _ => none, fun _ => none, fun _ => none⟩

def exportMetadata : Document P :=
  let resources := collectResources withData psDataPaths model
  .versioned 2
    (model.modules.map fun layer =>
      some ⟨layer.id, layer.name, layer.numEmbeddings, layer.embeddingSize, layer.dtype,
      some layer.layerType, (resources.layerStorageRefs layer.name).getD "", "", none⟩)
    (fun key => (resources.memblocks key).map some) (fun key => (resources.remotePs key).map some)

/-- A turn of the loop in `_export_weights`: the first layer of a block writes its file, under its
own id. -/
def exportWeight (objToKey : Nat → Option String) (files : String → Option (Int → Option W))
    (layer : Module) :
    String → Option (Int → Option W) :=
  match model.object layer.storage with
  | .ps _ => files
  | .memblock _ contents =>
    let key := (objToKey layer.storage).getD (weightName layer.name)
    if (files key).isSome then files
    else Function.update files key (some fun id => if id = layer.id then some contents else none)

def exportWeights : String → Option (Int → Option W) :=
  model.modules.foldl (exportWeight model (collectResources withData psDataPaths model).objToKey)
    fun _ => none

/-- What the export saves for a layer: the weights of its block, or what the plugin makes of the
resource. -/
def savedWeights (tableContents : P → W) (layer : Module) : W :=
  match model.object layer.storage with
  | .memblock _ contents => contents
  | .ps config =>
    tableContents (((collectResources withData psDataPaths model).remotePs
      (resourceKey (.ps config : StorageObject W P) layer.storage)).getD config).table

end Export

/-! ### Names -/

theorem resourceKey_inj {one two : StorageObject W P} {first second : Nat} :
    resourceKey one first = resourceKey two second ↔ one.isMemblock = two.isMemblock ∧
      first = second := by
  constructor
  · intro same
    have list := congrArg String.toList same
    have digits (equal : Nat.toDigits 10 first = Nat.toDigits 10 second) : first = second := by
      rw [← Nat.ofDigitChars_toDigits (by decide : 1 < 10) le_rfl (n := first), equal,
        Nat.ofDigitChars_toDigits (by decide) le_rfl]
    unfold resourceKey at list
    cases kind : one.isMemblock <;> cases other : two.isMemblock <;> simp [kind, other] at list
    · exact ⟨rfl, digits list⟩
    · exact ⟨rfl, digits list⟩
  · rintro ⟨kind, rfl⟩
    rw [resourceKey, resourceKey, kind]

section Facts

variable (withData : P → D → P) (psDataPaths : String → Option D) {model : Model W P}

def keyOf (model : Model W P) (storage : Nat) : String := resourceKey (model.object storage) storage

theorem addData_objToKey (resources : Resources P) (layer : Module) :
    (addData withData psDataPaths model resources layer).objToKey = resources.objToKey := by
  rw [addData]
  split <;> rfl

theorem addData_layerStorageRefs (resources : Resources P) (layer : Module) :
    (addData withData psDataPaths model resources layer).layerStorageRefs =
      resources.layerStorageRefs := by
  rw [addData]
  split <;> rfl

def Keyed (model : Model W P) (resources : Resources P) : Prop :=
  ∀ storage key, resources.objToKey storage = some key → key = keyOf model storage

section

variable {resources : Resources P} (keyed : Keyed model resources) (layer : Module)

include keyed layer

theorem addResource_spec :
    (addResource model resources layer).objToKey =
        update resources.objToKey layer.storage (some (keyOf model layer.storage)) ∧
      (addResource model resources layer).layerStorageRefs = resources.layerStorageRefs := by
  rw [addResource]
  cases known : resources.objToKey layer.storage with
  | some key =>
    have same : some (keyOf model layer.storage) = resources.objToKey layer.storage := by
      rw [known, keyed layer.storage key known]
    rw [same, update_eq_self]
    exact ⟨rfl, rfl⟩
  | none =>
    cases object : model.object layer.storage with
    | memblock memblockType contents =>
      refine ⟨?_, rfl⟩
      rw [keyOf, object]
    | ps config =>
      refine ⟨?_, rfl⟩
      rw [keyOf, object]

theorem collectLayer_spec :
    (collectLayer withData psDataPaths model resources layer).objToKey =
        update resources.objToKey layer.storage (some (keyOf model layer.storage)) ∧
      (collectLayer withData psDataPaths model resources layer).layerStorageRefs =
        update resources.layerStorageRefs layer.name (some (keyOf model layer.storage)) := by
  obtain ⟨objToKey, refs⟩ := addResource_spec keyed layer
  simp only [collectLayer, addData_objToKey, addData_layerStorageRefs, objToKey, refs,
    update_self, and_self]

theorem Keyed.collectLayer :
    Keyed model (collectLayer withData psDataPaths model resources layer) := by
  intro storage key known
  rw [(collectLayer_spec withData psDataPaths keyed layer).1] at known
  by_cases here : storage = layer.storage
  · subst here
    rw [update_self] at known
    exact (Option.some.inj known).symm
  · rw [update_of_ne here] at known
    exact keyed storage key known

end

/-- The loop of `_collect_resources`: every module gets the key of its storage object. -/
theorem foldl_collectLayer (modules : List Module) (named : (modules.map Module.name).Nodup) :
    ∀ {resources : Resources P}, Keyed model resources → ∀ layer : Module,
      (layer ∈ modules →
        (modules.foldl (collectLayer withData psDataPaths model) resources).objToKey layer.storage =
          some (keyOf model layer.storage)) ∧
      (resources.objToKey layer.storage = some (keyOf model layer.storage) →
        (modules.foldl (collectLayer withData psDataPaths model) resources).objToKey layer.storage =
          some (keyOf model layer.storage)) ∧
      (layer ∈ modules →
        (modules.foldl (collectLayer withData psDataPaths model) resources).layerStorageRefs
        layer.name =
          some (keyOf model layer.storage)) ∧
      (layer.name ∉ modules.map Module.name →
        (modules.foldl (collectLayer withData psDataPaths model) resources).layerStorageRefs
          layer.name =
          resources.layerStorageRefs layer.name) := by
  induction modules with
  | nil =>
    intro resources keyed layer
    exact ⟨fun member => absurd member not_mem_nil, fun known => known,
      fun member => absurd member not_mem_nil,
      fun _ => rfl⟩
  | cons first rest ih =>
    intro resources keyed layer
    obtain ⟨fresh, distinct⟩ := nodup_cons.mp named
    obtain ⟨objToKey, refs⟩ := collectLayer_spec withData psDataPaths keyed first
    obtain ⟨laterKey, keptKey, laterRef, keptRef⟩ :=
      ih distinct (keyed.collectLayer withData psDataPaths first) layer
    have here (known : resources.objToKey layer.storage = some (keyOf model layer.storage) ∨
        layer = first) :
        (collectLayer withData psDataPaths model resources first).objToKey layer.storage =
          some (keyOf model layer.storage) := by
      rw [objToKey]
      by_cases same : layer.storage = first.storage
      · rw [same, update_self]
      · rw [update_of_ne same]
        rcases known with known | rfl
        · exact known
        · exact absurd rfl same
    refine ⟨fun member => ?_, fun known => keptKey (here (.inl known)), fun member => ?_,
      fun absent => ?_⟩
    · rcases mem_cons.mp member with rfl | later
      · exact keptKey (here (.inr rfl))
      · exact laterKey later
    · rcases mem_cons.mp member with rfl | later
      · rw [foldl_cons, keptRef fresh, refs, update_self]
      · exact laterRef later
    · rw [map_cons, mem_cons, not_or] at absent
      rw [foldl_cons, keptRef absent.2, refs, update_of_ne absent.1]

theorem keyed_empty : Keyed model ⟨fun _ => none, fun _ => none, fun _ => none, fun _ => none⟩ := by
  intro storage key known
  cases known

variable {layer : Module}

def Written (model : Model W P) (files : String → Option (Int → Option W)) : Prop :=
  ∀ key file, files key = some file → ∃ storage memblockType contents,
    model.object storage = .memblock memblockType contents ∧
    key = keyOf model storage ∧ ∀ id weights, file id = some weights → weights = contents

theorem Written.exportWeight {files : String → Option (Int → Option W)}
    (written : Written model files)
    {objToKey : Nat → Option String}
    (keyed : objToKey layer.storage = some (keyOf model layer.storage)) :
    Written model (exportWeight model objToKey files layer) := by
  rw [NveExport.exportWeight]
  split
  · exact written
  · rename_i memblockType contents object
    simp only [keyed, Option.getD_some]
    split
    · exact written
    · intro key file found
      by_cases here : key = keyOf model layer.storage
      · subst here
        rw [update_self] at found
        cases found
        refine ⟨layer.storage, memblockType, contents, object, rfl, fun id weights read => ?_⟩
        simp only at read
        split at read
        · exact (Option.some.inj read).symm
        · cases read
      · rw [update_of_ne here] at found
        exact written key file found

theorem exportWeights_written : Written model (exportWeights withData psDataPaths model) := by
  apply foldlRecOn (motive := fun files => Written model files) model.modules
  · intro key file found
    cases found
  · intro files written layer member
    exact written.exportWeight
      ((foldl_collectLayer withData psDataPaths _ model.named keyed_empty layer).1 member)

def entryOf (model : Model W P) (layer : Module) : Entry P :=
  ⟨layer.id, layer.name, layer.numEmbeddings, layer.embeddingSize, layer.dtype,
    some layer.layerType,
    keyOf model layer.storage, "", none⟩

theorem exportMetadata_eq : exportMetadata withData psDataPaths model = .versioned 2
    (model.modules.map fun layer => some (entryOf model layer))
    (fun key => ((collectResources withData psDataPaths model).memblocks key).map some)
    (fun key => ((collectResources withData psDataPaths model).remotePs key).map some) := by
  rw [exportMetadata]
  congr 1
  refine map_congr_left fun layer member => ?_
  rw [collectResources,
    (foldl_collectLayer withData psDataPaths _ model.named keyed_empty layer).2.2.1 member]
  rfl

theorem keyOf_ne_empty (model : Model W P) (storage : Nat) : keyOf model storage ≠ "" := by
  intro empty
  have list := congrArg String.toList empty
  rw [keyOf, resourceKey] at list
  split at list <;> simp at list

end Facts

end EmbedCache.NveExport
