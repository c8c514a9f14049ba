import Mathlib.Data.List.Sort
import Mathlib.Logic.Relation
import Minicrond.Library.Machine
import Minicrond.Store.Registry

/-! Alert channels and the operations on the registry as steps of one machine, with the single changes of
definitions and channels that an operation is made of. -/

namespace Minicrond.Store

open Minicrond.Library Transaction

namespace Registry

def maxAlertChannels : ℕ := 100

def live (r : Registry) : List DefinitionRow :=
  (r.definitions.filter (·.deletedUs.isNone)).insertionSort fun a b => a.name ≤ b.name

def putAlertChannel (name : String) (valid : Bool) : RegistryTx Unit := do
  let r ← get
  refuse (!r.channels.contains name && maxAlertChannels ≤ r.channels.length) .alertChannelLimit
  refuse (!valid) .invalidAlertChannel
  set (if r.channels.contains name then r else { r with channels := r.channels ++ [name] })

def withoutReference (name : String) (row : DefinitionRow) : Definition :=
  { row.spec with
    id := row.definitionID, revision := row.revision, source := row.source, enabled := some row.enabled,
    alerts := row.spec.alerts.filter (· ≠ name) }

def collectChanges (name : String) (removeReferences : Bool) : List DefinitionRow → RegistryTx (List Definition)
  | [] => return []
  | row :: rows => do
    if !row.spec.alerts.contains name then
      collectChanges name removeReferences rows
    else
      refuse (!removeReferences) (.alertChannelReferenced row.spec.name)
      refuse (row.source = .config)
        (.readOnly ("edit alerts in config-owned definition " ++ row.spec.name ++ " first"))
      let changes ← collectChanges name removeReferences rows
      return withoutReference name row :: changes

variable (specHash : Definition → String)

def removeReference (actor : String) (nowUs : ℤ) (d : Definition) : RegistryTx Unit := do
  let revision := d.revision + 1
  modify <| updateDefinitions (·.definitionID = d.id) fun old =>
    { old with spec := d.canonical, specHash := specHash d.canonical, revision := revision, updatedUs := nowUs }
  insertRevision ⟨d.id, revision, d.canonical, specHash d.canonical, actor, nowUs⟩

def deleteAlertChannel (name : String) (removeReferences : Bool) (actor : String) (nowUs : ℤ) :
    RegistryTx Unit := do
  let r ← get
  refuse (!r.channels.contains name) .noRows
  let changes ← collectChanges name removeReferences r.live
  changes.forM (removeReference specHash actor nowUs)
  modify fun r => { r with channels := deleteWhere (· = name) r.channels }

end Registry

inductive RegistryOp
  | put (d : Definition) (expected : ℕ) (actor : String) (createOnly : Bool) (nowUs : ℤ)
  | importAll (defs : List Definition) (actor : String) (nowUs : ℤ)
  | sync (defs : List Definition) (nowUs : ℤ)
  | setEnabled (name : String) (enabled : Bool) (nowUs : ℤ)
  | delete (name : String) (nowUs : ℤ)
  | putChannel (name : String) (valid : Bool)
  | deleteChannel (name : String) (removeReferences : Bool) (actor : String) (nowUs : ℤ)
  | prune

def RegistryOp.tx (specHash : Definition → String) : RegistryOp → RegistryTx Unit
  | .put d expected actor createOnly nowUs =>
    discard (Registry.putDefinition specHash d expected actor createOnly nowUs)
  | .importAll defs actor nowUs => Registry.importDefinitions specHash defs actor nowUs
  | .sync defs nowUs => Registry.syncConfigDefinitions specHash defs nowUs
  | .setEnabled name enabled nowUs => discard (Registry.setEnabled name enabled nowUs)
  | .delete name nowUs => discard (Registry.deleteDefinition name nowUs)
  | .putChannel name valid => Registry.putAlertChannel name valid
  | .deleteChannel name removeReferences actor nowUs =>
    Registry.deleteAlertChannel specHash name removeReferences actor nowUs
  | .prune => Registry.pruneRevisions

def RegistryStep (specHash : Definition → String) (r : Registry) (op : RegistryOp) (r' : Registry) : Prop :=
  r' = r ∨ (op.tx specHash).Commits r r'

end Minicrond.Store
