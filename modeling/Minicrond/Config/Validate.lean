import Minicrond.Config.Definition

/-! Defaults and validation of a definition, and the form in which the API hands it back for editing. -/

namespace Minicrond.Config

open Store (Kind)

def cmpOr {α : Type} [Inhabited α] [DecidableEq α] (a b : α) : α := if a = default then b else a

structure Explicit where
  timeout : Bool := false
  retries : Bool := false

def mergeDefinitionDefaults (d defaults : Definition) (ex : Explicit) : Definition :=
  let d := { d with
    shell := cmpOr d.shell defaults.shell
    timezone := cmpOr d.timezone defaults.timezone
    catchUp := cmpOr d.catchUp defaults.catchUp
    onOverlap := cmpOr d.onOverlap defaults.onOverlap
    retries := if d.kind = some .job && !ex.retries then cmpOr d.retries defaults.retries else d.retries
    retryDelay := if d.kind = some .job then cmpOr d.retryDelay defaults.retryDelay else d.retryDelay
    onHistoryUnavailable :=
      if d.kind = some .job then cmpOr d.onHistoryUnavailable
        defaults.onHistoryUnavailable else d.onHistoryUnavailable
    runAs := cmpOr d.runAs defaults.runAs
    workingDir := cmpOr d.workingDir defaults.workingDir
    envBase := cmpOr d.envBase defaults.envBase
    env := d.env.or defaults.env
    secretEnv := d.secretEnv.or defaults.secretEnv
    envFile := cmpOr d.envFile defaults.envFile
    timeout := if !ex.timeout then cmpOr d.timeout defaults.timeout else d.timeout
    grace := cmpOr d.grace defaults.grace
    stopSignal := cmpOr d.stopSignal defaults.stopSignal
    successCodes := d.successCodes.or defaults.successCodes
    keepRuns := cmpOr d.keepRuns defaults.keepRuns
    keepFor := cmpOr d.keepFor defaults.keepFor
    logMax := cmpOr d.logMax defaults.logMax
    logOnFull := cmpOr d.logOnFull defaults.logOnFull
    labels := d.labels.or defaults.labels
    alerts := d.alerts.or defaults.alerts
    enabled := d.enabled.or defaults.enabled }
  if d.kind = some .worker then
    { d with
      autostart := d.autostart.or defaults.autostart
      restart := cmpOr d.restart defaults.restart
      restartDelay := cmpOr d.restartDelay defaults.restartDelay
      healthyAfter := cmpOr d.healthyAfter defaults.healthyAfter
      maxRestartAttempts := cmpOr d.maxRestartAttempts defaults.maxRestartAttempts
      restartBackoffMax := cmpOr d.restartBackoffMax defaults.restartBackoffMax }
  else d

def applyDefinitionDefaults (d defaults : Definition) (ex : Explicit) : Definition :=
  let d := mergeDefinitionDefaults d defaults ex
  { d with
    shell := cmpOr d.shell "/bin/sh"
    catchUp := cmpOr d.catchUp "none"
    onOverlap := cmpOr d.onOverlap "skip"
    retryDelay := if d.kind = some .job then cmpOr d.retryDelay 5 else d.retryDelay
    envBase := cmpOr d.envBase "clean"
    grace := cmpOr d.grace 10
    stopSignal := cmpOr d.stopSignal "SIGTERM"
    restart := cmpOr d.restart "always"
    restartDelay := cmpOr d.restartDelay 5
    healthyAfter := cmpOr d.healthyAfter 30
    logOnFull := cmpOr d.logOnFull "drop_old"
    successCodes := if d.successCodes.getD [] = [] then some [0] else d.successCodes
    maxRestartAttempts := cmpOr d.maxRestartAttempts 5 }

/-- What the checks ask of the host: the error of a schedule, a time zone or an account, if there is one. -/
structure Host where
  validateSchedule : String → Option String
  loadLocation : String → Option String
  validateRunAs : String → Option String

inductive DefinitionError
  | invalidName
  | duplicate
  | commandOrArgv
  | notPositive (field : Key)
  | durationRange (field : Key)
  | notOneOf (field : Key)
  | outOfRange (field : Key)
  | workerCannotHave (field : Key)
  | notSupported (field : Key)
  | notAbsolute (field : Key)
  | secretRef
  | host (field : Key) (error : String)
deriving DecidableEq, Repr

structure DefinitionFailure where
  name : String
  error : DefinitionError
deriving DecidableEq, Repr

def isNameChar (c : Char) : Bool := c.isLower || c.isDigit

-- ^[a-z0-9][a-z0-9_.-]{0,99}$
def validName (name : String) : Bool :=
  match name.toList with
  | [] => false
  | c :: cs => isNameChar c && cs.length ≤ 99 && cs.all fun c => isNameChar c || c = '_' || c = '.' || c = '-'

def isAbs (path : String) : Bool := path.startsWith "/"

def exceedsSeconds (value : ℤ) : Bool := 9223372036854775807 / 1000000000 < value

def exceedsDays (value : ℤ) : Bool := 9223372036854775807 / 86400000000000 < value

def validSignal (v : String) : Bool :=
  ["INT", "HUP", "QUIT", "USR1", "USR2", "TERM", "KILL"].any fun name => v = name || v = "SIG" ++ name

def validSecretRef (ref : String) : Bool :=
  match ref.toList with
  | 'e' :: 'n' :: 'v' :: ':' :: name => name ≠ [] && !name.contains '=' && !name.contains '\x00'
  | 'f' :: 'i' :: 'l' :: 'e' :: ':' :: path => path.head? = some '/'
  | _ => false

section

variable (host : Host)

def check (bad : Bool) (e : DefinitionError) : Bool × DefinitionError := (bad, e)

/-- The checks in their order, each with its error. Those of the four durations stand in one order of the many that
the iteration over a map may take. -/
def checks (d : Definition) : List (Bool × DefinitionError) :=
  let worker := d.kind = some .worker
  let job := d.kind = some .job
  [ check (decide (d.command = "") == decide (d.argv.getD [] = [])) .commandOrArgv,
    check (d.timeout < 0) (.notPositive .timeout),
    check (exceedsSeconds d.timeout) (.durationRange .timeout),
    check (d.grace ≤ 0) (.notPositive .grace),
    check (exceedsSeconds d.grace) (.durationRange .grace),
    check (d.restartDelay ≤ 0) (.notPositive .restartDelay),
    check (exceedsSeconds d.restartDelay) (.durationRange .restartDelay),
    check (d.healthyAfter ≤ 0) (.notPositive .healthyAfter),
    check (exceedsSeconds d.healthyAfter) (.durationRange .healthyAfter),
    check (d.envBase ≠ "clean" && d.envBase ≠ "inherit") (.notOneOf .envBase),
    check (d.restart ≠ "always" && d.restart ≠ "on-failure" && d.restart ≠ "never") (.notOneOf .restart),
    check (d.retries < 0 || 1000 < d.retries) (.outOfRange .retries),
    check (job && (d.retryDelay < 1 || 86400 < d.retryDelay)) (.outOfRange .retryDelay),
    check (worker && d.retries ≠ 0) (.workerCannotHave .retries),
    check (worker && d.retryDelay ≠ 0) (.workerCannotHave .retryDelay),
    check (d.maxRestartAttempts < 1 || 1000 < d.maxRestartAttempts) (.outOfRange .maxRestartAttempts),
    check (d.restartBackoffMax ≠ 0 && (d.restartBackoffMax < d.restartDelay || 86400 < d.restartBackoffMax))
      (.outOfRange .restartBackoffMax),
    check ((d.successCodes.getD []).any fun code => code < 0 || 255 < code) (.outOfRange .successCodes),
    check (d.keepRuns < 0) (.outOfRange .keepRuns),
    check (d.priority ≠ 0) (.notSupported .priority),
    check (d.runOnStart && (d.source ≠ "config" || !job || d.schedule ≠ "")) (.notSupported .runOnStart),
    check (job && d.schedule ≠ "" && (host.validateSchedule d.schedule).isSome)
      (.host .schedule ((host.validateSchedule d.schedule).getD "")),
    check ((host.loadLocation d.timezone).isSome) (.host .timezone ((host.loadLocation d.timezone).getD "")),
    check (d.catchUp ≠ "none" && d.catchUp ≠ "latest") (.notOneOf .catchUp),
    check (d.onOverlap ≠ "skip" && d.onOverlap ≠ "parallel") (.notOneOf .onOverlap),
    check (worker && d.onHistoryUnavailable ≠ "") (.workerCannotHave .onHistoryUnavailable),
    check (d.onHistoryUnavailable ≠ "" && d.onHistoryUnavailable ≠ "run" && d.onHistoryUnavailable ≠ "skip")
      (.notOneOf .onHistoryUnavailable),
    check (d.logOnFull ≠ "drop_old" && d.logOnFull ≠ "drop_new") (.notOneOf .logOnFull),
    check (!validSignal d.stopSignal) (.notOneOf .stopSignal),
    check (d.keepFor < 0) (.outOfRange .keepFor),
    check (exceedsDays d.keepFor) (.durationRange .keepFor),
    check (d.logMax < 0 || 1048576 < d.logMax) (.outOfRange .logMax),
    check (d.envFile ≠ "" && !isAbs d.envFile) (.notAbsolute .envFile),
    check ((d.secretEnv.getD []).any fun e => e.1 = "" || !validSecretRef e.2) .secretRef,
    check (worker && d.schedule ≠ "") (.workerCannotHave .schedule),
    check ((host.validateRunAs d.runAs).isSome) (.host .runAs ((host.validateRunAs d.runAs).getD "")) ]

/-- The checks of one definition. An absent time zone is filled in among them; no check before that reads it. -/
def checkDefinition (schedulerTimezone : String) (d : Definition) : Except DefinitionFailure Definition :=
  let d := { d with timezone := if d.timezone = "" then schedulerTimezone else d.timezone }
  match (checks host d).find? (·.1) with
  | some (_, e) => .error ⟨d.name, e⟩
  | none => .ok d

def validateDefinitions (schedulerTimezone : String) :
    List String → List Definition → Except DefinitionFailure (List Definition)
  | _, [] => .ok []
  | seen, d :: ds => do
    if !validName d.name then throw ⟨d.name, .invalidName⟩
    if d.name ∈ seen then throw ⟨d.name, .duplicate⟩
    let d ← checkDefinition host schedulerTimezone d
    let ds ← validateDefinitions schedulerTimezone (d.name :: seen) ds
    return d :: ds

def validateDefinition (d : Definition) (ex : Explicit) (jobDefaults : List Definition) :
    Except DefinitionFailure Definition := do
  let d := { d with kind := d.kind.or (some .job) }
  let defaults := jobDefaults.head?.getD {}
  let d := applyDefinitionDefaults d defaults ex
  let definitions ← validateDefinitions host "UTC" [] [d]
  return definitions.head?.getD d

def DefinitionInput.resolve (input : DefinitionInput) : Definition :=
  { input.definition with
    timeout := input.timeout.getD input.definition.timeout
    retries := input.retries.getD input.definition.retries }

def inputExplicit (input : DefinitionInput) : Explicit := ⟨input.timeout.isSome, input.retries.isSome⟩

def validateDefinitionInput (input : DefinitionInput) (jobDefaults : List Definition) :
    Except DefinitionFailure Definition :=
  validateDefinition host input.resolve (inputExplicit input) jobDefaults

end

def editableInput (d : Definition) (jobDefaults : List Definition) : DefinitionInput :=
  let defaults := jobDefaults.head?.getD {}
  { definition := { d with timeout := 0, retries := 0 }
    timeout := if d.timeout ≠ 0 || defaults.timeout ≠ 0 then some d.timeout else none
    retries := if d.kind = some .job && (d.retries ≠ 0 || defaults.retries ≠ 0) then some d.retries else none }

def canonical (d : Definition) : Object := encodeDefinition { d with id := 0, revision := 0 }

end Minicrond.Config
