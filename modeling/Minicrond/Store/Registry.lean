import Minicrond.Library.Table
import Minicrond.Library.Transaction
import Minicrond.Time.Instant

/-! The definition registry of the store: definitions with their revision history, and the alert
channels they name. -/

namespace Minicrond.Store

open Minicrond.Library Minicrond.Time Transaction

inductive StoreError
  | queueFull (detail : String)
  | queueDuplicate
  | idempotencyConflict
  | invalidTransition (detail : String)
  | revisionConflict (detail : String)
  | readOnly (detail : String)
  | conflict (detail : String)
  | unknownAlertChannel (detail : String)
  | alertChannelReferenced (detail : String)
  | alertChannelLimit
  | invalidAlertChannel
  | noRows
  -- a violated primary key, unique index or foreign key
  | constraint
deriving DecidableEq, Repr

inductive Kind
  | job
  | worker
deriving DecidableEq, Repr

inductive Source
  | api
  | config
deriving DecidableEq, Repr

structure Definition where
  id : ℕ
  name : String
  kind : Kind
  revision : ℕ
  source : Source
  enabled : Option Bool
  alerts : List String
  settings : String
deriving DecidableEq, Repr

namespace Definition

def isEnabled (d : Definition) : Bool := d.enabled.getD true

def canonical (d : Definition) : Definition := { d with id := 0, revision := 0 }

end Definition

structure DefinitionRow where
  definitionID : ℕ
  name : String
  kind : Kind
  spec : Definition
  specHash : String
  revision : ℕ
  enabled : Bool
  source : Source
  createdUs : ℤ
  updatedUs : ℤ
  deletedUs : Option ℤ
deriving DecidableEq, Repr

structure RevisionRow where
  definitionID : ℕ
  revision : ℕ
  spec : Definition
  specHash : String
  actor : String
  atUs : ℤ
deriving DecidableEq, Repr

structure Registry where
  definitions : List DefinitionRow
  revisions : List RevisionRow
  channels : List String
deriving DecidableEq, Repr

abbrev RegistryTx := Transaction Registry StoreError

namespace Registry

def nextID (r : Registry) : ℕ := (r.definitions.map (·.definitionID)).foldr max 0 + 1

def byName (name : String) (r : Registry) : Option DefinitionRow := r.definitions.find? (·.name = name)

def liveByName (name : String) (r : Registry) : Option DefinitionRow :=
  r.definitions.find? fun row => row.name = name && row.deletedUs.isNone

def updateDefinitions (p : DefinitionRow → Bool) (f : DefinitionRow → DefinitionRow) (r : Registry) : Registry :=
  { r with definitions := updateWhere p f r.definitions }

def insertRevision (row : RevisionRow) : RegistryTx Unit := do
  let r ← get
  refuse (r.revisions.any fun v => v.definitionID = row.definitionID && v.revision = row.revision) .constraint
  set { r with revisions := r.revisions ++ [row] }

variable (specHash : Definition → String)

def writeDefinition (d : Definition) (source : Source) (actor : String) (now : ℤ) (found : Option DefinitionRow) :
    RegistryTx (ℕ × ℕ) := do
  let spec := { d with source := source }.canonical
  match found with
  | none =>
    let r ← get
    let id := r.nextID
    let row : DefinitionRow := ⟨id, d.name, d.kind, spec, specHash spec, 1, d.isEnabled, source, now, now, none⟩
    set { r with definitions := r.definitions ++ [row] }
    insertRevision ⟨id, 1, spec, specHash spec, actor, now⟩
    return (id, 1)
  | some row =>
    let revision := row.revision + 1
    modify <| updateDefinitions (·.definitionID = row.definitionID) fun old =>
      { old with kind := d.kind, spec := spec, specHash := specHash spec, revision := revision,
                 enabled := d.isEnabled, updatedUs := now, deletedUs := none }
    insertRevision ⟨row.definitionID, revision, spec, specHash spec, actor, now⟩
    return (row.definitionID, revision)

def validateAlerts (d : Definition) : List String → List String → RegistryTx Unit
  | _, [] => return ()
  | seen, name :: names => do
    refuse (seen.contains name) (.unknownAlertChannel (d.name ++ ".alerts"))
    let r ← get
    refuse (!r.channels.contains name) (.unknownAlertChannel (d.name ++ ".alerts: " ++ name.quote))
    validateAlerts d (name :: seen) names

def validateAlertReferences (d : Definition) : RegistryTx Unit := validateAlerts d [] d.alerts

def putDefinition (d : Definition) (expected : ℕ) (actor : String) (createOnly : Bool) (nowUs : ℤ) :
    RegistryTx Definition := do
  validateAlertReferences d
  let r ← get
  let found := r.byName d.name
  match found with
  | none => pure ()
  | some row =>
    refuse (row.source = .config) (.readOnly "")
    refuse createOnly (.revisionConflict ("definition name " ++ d.name.quote ++ " already exists"))
    refuse (row.deletedUs.isNone && expected != 0 && expected != row.revision)
      (.revisionConflict ("expected " ++ toString expected ++ ", current " ++ toString row.revision))
    refuse (row.deletedUs.isSome && expected != 0) (.revisionConflict "definition was deleted")
  let (id, revision) ← writeDefinition specHash d .api actor nowUs found
  return { d with source := .api, id := id, revision := revision }

def importDefinition (actor : String) (nowUs : ℤ) (d : Definition) : RegistryTx Unit := do
  validateAlertReferences d
  let r ← get
  let found := r.byName d.name
  match found with
  | none => pure ()
  | some row => refuse (row.source = .config) (.readOnly "")
  let _ ← writeDefinition specHash d .api actor nowUs found

def importDefinitions (defs : List Definition) (actor : String) (nowUs : ℤ) : RegistryTx Unit :=
  defs.forM (importDefinition specHash actor nowUs)

def syncConfigDefinition (nowUs : ℤ) (d : Definition) : RegistryTx Unit := do
  validateAlertReferences d
  let r ← get
  match r.byName d.name with
  | none =>
    let _ ← writeDefinition specHash d .config "config" nowUs none
  | some row =>
    refuse (row.source ≠ .config)
      (.conflict ("config definition " ++ d.name.quote ++ " conflicts with registry definition"))
    -- an unchanged definition keeps its revision
    if row.specHash = specHash { d with source := .config }.canonical && row.deletedUs.isNone then
      return ()
    else
      let _ ← writeDefinition specHash d .config "config" nowUs (some row)

def removeByName (nowUs : ℤ) (name : String) : RegistryTx Unit :=
  modify <| updateDefinitions (·.name = name) fun row =>
    { row with deletedUs := some nowUs, enabled := false, updatedUs := nowUs }

def syncConfigDefinitions (defs : List Definition) (nowUs : ℤ) : RegistryTx Unit := do
  defs.forM (syncConfigDefinition specHash nowUs)
  let r ← get
  let live := r.definitions.filter fun row => row.source = .config && row.deletedUs.isNone
  let removed := (live.map (·.name)).filter fun name => !(defs.map (·.name)).contains name
  removed.forM (removeByName nowUs)

def deleteDefinition (name : String) (nowUs : ℤ) : RegistryTx ℕ := do
  let r ← get
  match r.liveByName name with
  | none => throw .noRows
  | some row =>
    refuse (row.source = .config) (.readOnly "")
    removeByName nowUs name
    return row.definitionID

def setEnabled (name : String) (enabled : Bool) (nowUs : ℤ) : RegistryTx ℕ := do
  let r ← get
  match r.liveByName name with
  | none => throw .noRows
  | some row =>
    refuse (row.source = .config) (.readOnly "")
    let revision := row.revision + 1
    modify <| updateDefinitions (·.definitionID = row.definitionID) fun old =>
      { old with enabled := enabled, revision := revision, updatedUs := nowUs }
    insertRevision ⟨row.definitionID, revision, row.spec, row.specHash, "api", nowUs⟩
    return row.definitionID

def pruneRevisions : RegistryTx Unit :=
  modify fun r => { r with revisions := deleteWhere (fun row =>
    100 ≤ r.revisions.countP fun v => v.definitionID = row.definitionID && row.revision < v.revision) r.revisions }

end Registry

end Minicrond.Store
