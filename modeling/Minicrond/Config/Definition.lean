import Mathlib.Data.Int.Notation
import Minicrond.Store.Registry

/-! Job and worker definitions as the API exchanges them: the fields, their JSON object with its omission rules,
and the input form that tells an absent timeout or retry count from an explicit zero. -/

namespace Minicrond.Config

open Store (Kind)

/-- The entries of a map in the order of their keys. A map that is absent is `none`, an empty one `some []`. -/
abbrev StringMap := List (String × String)

structure Definition where
  id : ℤ := 0
  name : String := ""
  kind : Option Kind := none
  revision : ℤ := 0
  source : String := ""
  enabled : Option Bool := none
  command : String := ""
  argv : Option (List String) := none
  shell : String := ""
  schedule : String := ""
  timezone : String := ""
  catchUp : String := ""
  onOverlap : String := ""
  onHistoryUnavailable : String := ""
  retries : ℤ := 0
  retryDelay : ℤ := 0
  runOnStart : Bool := false
  runAs : String := ""
  workingDir : String := ""
  envBase : String := ""
  env : Option StringMap := none
  secretEnv : Option StringMap := none
  envFile : String := ""
  timeout : ℤ := 0
  grace : ℤ := 0
  stopSignal : String := ""
  successCodes : Option (List ℤ) := none
  keepRuns : ℤ := 0
  keepFor : ℤ := 0
  logMax : ℤ := 0
  logOnFull : String := ""
  labels : Option StringMap := none
  alerts : Option (List String) := none
  autostart : Option Bool := none
  restart : String := ""
  restartDelay : ℤ := 0
  maxRestartAttempts : ℤ := 0
  restartBackoffMax : ℤ := 0
  healthyAfter : ℤ := 0
  priority : ℤ := 0
  nextFireAt : Option String := none
deriving DecidableEq, Repr

inductive Json
  | null
  | bool (b : Bool)
  | num (n : ℤ)
  | str (s : String)
  | arr (xs : List Json)
  | obj (members : List (String × Json))

inductive Key
  | definitionID
  | name
  | kind
  | revision
  | source
  | enabled
  | command
  | argv
  | shell
  | schedule
  | timezone
  | catchUp
  | onOverlap
  | onHistoryUnavailable
  | retries
  | retryDelay
  | runOnStart
  | runAs
  | workingDir
  | envBase
  | env
  | secretEnv
  | envFile
  | timeout
  | grace
  | stopSignal
  | successCodes
  | keepRuns
  | keepFor
  | logMax
  | logOnFull
  | labels
  | alerts
  | autostart
  | restart
  | restartDelay
  | maxRestartAttempts
  | restartBackoffMax
  | healthyAfter
  | priority
  | nextFireAt
deriving DecidableEq, Repr

abbrev Object := Key → Option Json

namespace Encode

-- a string, number or flag of its zero value is left out, and so is a list or map without elements
def str (s : String) : Option Json := if s = "" then none else some (.str s)

def int (n : ℤ) : Option Json := if n = 0 then none else some (.num n)

def flag (b : Bool) : Option Json := if b then some (.bool b) else none

def ptr (b : Option Bool) : Option Json := b.map .bool

def time (t : Option String) : Option Json := t.map .str

def list {α : Type} (value : α → Json) : Option (List α) → Option Json
  | none | some [] => none
  | some (x :: xs) => some (.arr ((x :: xs).map value))

def strs (xs : Option (List String)) : Option Json := list .str xs

def ints (xs : Option (List ℤ)) : Option Json := list .num xs

def map : Option StringMap → Option Json
  | none | some [] => none
  | some (e :: es) => some (.obj ((e :: es).map fun (k, v) => (k, .str v)))

-- these two are always there
def text (s : String) : Option Json := some (.str s)

def kind : Option Kind → Option Json
  | none => some (.str "")
  | some .job => some (.str "job")
  | some .worker => some (.str "worker")

end Encode

def encodeDefinition (d : Definition) : Object
  | .definitionID => Encode.int d.id
  | .name => Encode.text d.name
  | .kind => Encode.kind d.kind
  | .revision => Encode.int d.revision
  | .source => Encode.str d.source
  | .enabled => Encode.ptr d.enabled
  | .command => Encode.str d.command
  | .argv => Encode.strs d.argv
  | .shell => Encode.str d.shell
  | .schedule => Encode.str d.schedule
  | .timezone => Encode.str d.timezone
  | .catchUp => Encode.str d.catchUp
  | .onOverlap => Encode.str d.onOverlap
  | .onHistoryUnavailable => Encode.str d.onHistoryUnavailable
  | .retries => Encode.int d.retries
  | .retryDelay => Encode.int d.retryDelay
  | .runOnStart => Encode.flag d.runOnStart
  | .runAs => Encode.str d.runAs
  | .workingDir => Encode.str d.workingDir
  | .envBase => Encode.str d.envBase
  | .env => Encode.map d.env
  | .secretEnv => Encode.map d.secretEnv
  | .envFile => Encode.str d.envFile
  | .timeout => Encode.int d.timeout
  | .grace => Encode.int d.grace
  | .stopSignal => Encode.str d.stopSignal
  | .successCodes => Encode.ints d.successCodes
  | .keepRuns => Encode.int d.keepRuns
  | .keepFor => Encode.int d.keepFor
  | .logMax => Encode.int d.logMax
  | .logOnFull => Encode.str d.logOnFull
  | .labels => Encode.map d.labels
  | .alerts => Encode.strs d.alerts
  | .autostart => Encode.ptr d.autostart
  | .restart => Encode.str d.restart
  | .restartDelay => Encode.int d.restartDelay
  | .maxRestartAttempts => Encode.int d.maxRestartAttempts
  | .restartBackoffMax => Encode.int d.restartBackoffMax
  | .healthyAfter => Encode.int d.healthyAfter
  | .priority => Encode.int d.priority
  | .nextFireAt => Encode.time d.nextFireAt

structure DefinitionInput where
  definition : Definition := {}
  timeout : Option ℤ := none
  retries : Option ℤ := none
deriving DecidableEq, Repr

def encodeInput (input : DefinitionInput) : Object
  | .timeout => input.timeout.map .num
  | .retries => input.retries.map .num
  | k => encodeDefinition input.definition k

namespace Decode

-- an absent member and null leave the zero value; a value of another type is an error
def str : Option Json → Option String
  | none | some .null => some ""
  | some (.str s) => some s
  | _ => none

def int : Option Json → Option ℤ
  | none | some .null => some 0
  | some (.num n) => some n
  | _ => none

def flag : Option Json → Option Bool
  | none | some .null => some false
  | some (.bool b) => some b
  | _ => none

def ptr : Option Json → Option (Option Bool)
  | none | some .null => some none
  | some (.bool b) => some (some b)
  | _ => none

def ptrInt : Option Json → Option (Option ℤ)
  | none | some .null => some none
  | some (.num n) => some (some n)
  | _ => none

def time : Option Json → Option (Option String)
  | none | some .null => some none
  | some (.str s) => some (some s)
  | _ => none

def list {α : Type} (value : Option Json → Option α) : Option Json → Option (Option (List α))
  | none | some .null => some none
  | some (.arr xs) => (xs.mapM fun x => value (some x)).map some
  | _ => none

def strs : Option Json → Option (Option (List String)) := list str

def ints : Option Json → Option (Option (List ℤ)) := list int

def map : Option Json → Option (Option StringMap)
  | none | some .null => some none
  | some (.obj members) => (members.mapM fun m => (str (some m.2)).map fun s => (m.1, s)).map some
  | _ => none

def text : Option Json → Option String := str

-- a kind of another name is no kind that the registry stores
def kind (j : Option Json) : Option (Option Kind) :=
  match str j with
  | some "" => some none
  | some "job" => some (some .job)
  | some "worker" => some (some .worker)
  | _ => none

end Decode

def decodeInput (o : Object) : Option DefinitionInput := do
  let id ← Decode.int (o .definitionID)
  let name ← Decode.text (o .name)
  let kind ← Decode.kind (o .kind)
  let revision ← Decode.int (o .revision)
  let source ← Decode.str (o .source)
  let enabled ← Decode.ptr (o .enabled)
  let command ← Decode.str (o .command)
  let argv ← Decode.strs (o .argv)
  let shell ← Decode.str (o .shell)
  let schedule ← Decode.str (o .schedule)
  let timezone ← Decode.str (o .timezone)
  let catchUp ← Decode.str (o .catchUp)
  let onOverlap ← Decode.str (o .onOverlap)
  let onHistoryUnavailable ← Decode.str (o .onHistoryUnavailable)
  let retries ← Decode.ptrInt (o .retries)
  let retryDelay ← Decode.int (o .retryDelay)
  let runOnStart ← Decode.flag (o .runOnStart)
  let runAs ← Decode.str (o .runAs)
  let workingDir ← Decode.str (o .workingDir)
  let envBase ← Decode.str (o .envBase)
  let env ← Decode.map (o .env)
  let secretEnv ← Decode.map (o .secretEnv)
  let envFile ← Decode.str (o .envFile)
  let timeout ← Decode.ptrInt (o .timeout)
  let grace ← Decode.int (o .grace)
  let stopSignal ← Decode.str (o .stopSignal)
  let successCodes ← Decode.ints (o .successCodes)
  let keepRuns ← Decode.int (o .keepRuns)
  let keepFor ← Decode.int (o .keepFor)
  let logMax ← Decode.int (o .logMax)
  let logOnFull ← Decode.str (o .logOnFull)
  let labels ← Decode.map (o .labels)
  let alerts ← Decode.strs (o .alerts)
  let autostart ← Decode.ptr (o .autostart)
  let restart ← Decode.str (o .restart)
  let restartDelay ← Decode.int (o .restartDelay)
  let maxRestartAttempts ← Decode.int (o .maxRestartAttempts)
  let restartBackoffMax ← Decode.int (o .restartBackoffMax)
  let healthyAfter ← Decode.int (o .healthyAfter)
  let priority ← Decode.int (o .priority)
  let nextFireAt ← Decode.time (o .nextFireAt)
  let definition : Definition := {
    id, name, kind, revision, source, enabled, command, argv, shell, schedule, timezone, catchUp, onOverlap,
    onHistoryUnavailable, retryDelay, runOnStart, runAs, workingDir, envBase, env, secretEnv, envFile, grace,
    stopSignal, successCodes, keepRuns, keepFor, logMax, logOnFull, labels, alerts, autostart, restart,
    restartDelay, maxRestartAttempts, restartBackoffMax, healthyAfter, priority, nextFireAt }
  return { definition, timeout, retries }

end Minicrond.Config
