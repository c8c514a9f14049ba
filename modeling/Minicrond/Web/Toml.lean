import Minicrond.Library.Toml
import Minicrond.Web.Text
import Mathlib.Data.Nat.Digits.Defs

/-! A definition as the TOML text that the web interface shows and exports. -/

namespace Minicrond.Web

open Minicrond.Library

inductive Kind where
  | job
  | worker
  deriving DecidableEq

abbrev WholeNumber := {n : ℤ // |n| < 2 ^ 53}

structure Record where
  entries : List (Text × Text) := []
  nodup : (entries.map Prod.fst).Nodup := by decide

structure Definition where
  name : Text
  kind : Kind
  source : Option Text := none
  command : Option Text := none
  argv : Option (List Text) := none
  shell : Option Text := none
  schedule : Option Text := none
  timezone : Option Text := none
  catchUp : Option Text := none
  onOverlap : Option Text := none
  onHistoryUnavailable : Option Text := none
  retries : Option WholeNumber := none
  retryDelay : Option WholeNumber := none
  runOnStart : Option Bool := none
  runAs : Option Text := none
  workingDir : Option Text := none
  envBase : Option Text := none
  env : Option Record := none
  secretEnv : Option Record := none
  envFile : Option Text := none
  timeout : Option WholeNumber := none
  grace : Option WholeNumber := none
  stopSignal : Option Text := none
  successCodes : Option (List WholeNumber) := none
  keepRuns : Option WholeNumber := none
  keepFor : Option WholeNumber := none
  logMax : Option WholeNumber := none
  logOnFull : Option Text := none
  labels : Option Record := none
  alerts : Option (List Text) := none
  autostart : Option Bool := none
  restart : Option Text := none
  restartDelay : Option WholeNumber := none
  maxRestartAttempts : Option WholeNumber := none
  restartBackoffMax : Option WholeNumber := none
  healthyAfter : Option WholeNumber := none
  priority : Option WholeNumber := none

def replaceChar (c : ℕ) (s t : Text) : Text := t.flatMap fun x => if x = c then s else [x]

def literal (t : Text) : Text :=
  if singleQuote ∉ t ∧ lineFeed ∉ t ∧ 0 ∉ t then singleQuote :: (t ++ [singleQuote])
  else
    let escaped := replaceChar backslash [backslash, backslash] t
    let escaped := replaceChar doubleQuote [backslash, doubleQuote] escaped
    let escaped := replaceChar lineFeed [backslash, 'n'.toNat] escaped
    doubleQuote :: (escaped ++ [doubleQuote])

def natText (n : ℕ) : Text := if n = 0 then text "0" else (Nat.digits 10 n).reverse.map (· + '0'.toNat)

def numberText (n : ℤ) : Text := if n < 0 then '-'.toNat :: natText n.natAbs else natText n.natAbs

def scalarText : Toml.Scalar → Text
  | .str s => literal s
  | .int n => numberText n
  | .bool b => text (if b then "true" else "false")

def valueText : Toml.Value → Text
  | .scalar s => scalarText s
  | .array items => '['.toNat :: ((text ", ").intercalate (items.map scalarText) ++ text "]")

def keyText (bare : ℕ → Bool) (key : Text) : Text := if key ≠ [] ∧ key.all bare then key else literal key

def isWordChar (c : ℕ) : Bool := inRange 'A' 'Z' c || inRange 'a' 'z' c || isDigit c || c = '_'.toNat

def isLabelChar (c : ℕ) : Bool := isWordChar c || c = '-'.toNat

inductive TomlLine where
  | header (name : Text)
  | blank
  | table (name sub : Text)
  | setting (key : Text) (value : Toml.Value)
  | item (sub : Text) (bare : ℕ → Bool) (key value : Text)

namespace TomlLine

def render : TomlLine → Text
  | header name => text "[[" ++ name ++ text "]]"
  | blank => []
  | table name sub => text "[" ++ name ++ text "." ++ sub ++ text "]"
  | setting key value => key ++ text " = " ++ valueText value
  | item _ bare key value => keyText bare key ++ text " = " ++ literal value

def field : TomlLine → Option Text
  | setting key _ => some key
  | item sub _ _ _ => some sub
  | _ => none

end TomlLine

def truthyText (t : Option Text) : Option Toml.Value := (t.filter (· ≠ [])).map fun t => .scalar (.str t)

def presentNumber (n : Option WholeNumber) : Option Toml.Value := n.map fun n => .scalar (.int n)

def truthyNumber (n : Option WholeNumber) : Option Toml.Value := presentNumber (n.filter (·.val ≠ 0))

def nonemptyList {α : Type*} (item : α → Toml.Scalar) (xs : Option (List α)) : Option Toml.Value :=
  (xs.filter (!·.isEmpty)).map fun xs => .array (xs.map item)

namespace Definition

variable (d : Definition)

def isInit : Bool := d.source = some (text "config") && d.runOnStart = some true

def header : Text := text (if d.kind = .worker then "worker" else if d.isInit then "init" else "job")

def workerFields : List (String × Option Toml.Value) :=
  [("autostart", d.autostart.map fun b => .scalar (.bool b)),
    ("restart", truthyText d.restart),
    ("restart_delay", presentNumber d.restartDelay),
    ("max_restart_attempts", truthyNumber d.maxRestartAttempts),
    ("restart_backoff_max", truthyNumber d.restartBackoffMax),
    ("healthy_after", presentNumber d.healthyAfter),
    ("priority", truthyNumber d.priority)]

def jobFields : List (String × Option Toml.Value) :=
  [("schedule", truthyText d.schedule),
    ("catch_up", truthyText d.catchUp),
    ("on_overlap", truthyText d.onOverlap),
    ("on_history_unavailable", truthyText d.onHistoryUnavailable),
    ("retries", presentNumber d.retries),
    ("retry_delay", presentNumber d.retryDelay),
    ("run_on_start", if d.runOnStart = some true ∧ !d.isInit then some (.scalar (.bool true)) else none)]

def fields : List (String × Option Toml.Value) :=
  [("name", truthyText (some d.name)),
    ("command", truthyText d.command),
    ("argv", nonemptyList .str d.argv),
    ("shell", truthyText d.shell)] ++
  (if d.kind = .worker then d.workerFields else d.jobFields) ++
  [("timezone", truthyText d.timezone),
    ("run_as", truthyText d.runAs),
    ("working_dir", truthyText d.workingDir),
    ("env_base", truthyText (d.envBase.filter (· ≠ text "clean"))),
    ("timeout", presentNumber d.timeout),
    ("grace", presentNumber d.grace),
    ("stop_signal", truthyText d.stopSignal),
    ("success_codes", nonemptyList (fun n : WholeNumber => .int n) d.successCodes),
    ("keep_runs", truthyNumber d.keepRuns),
    ("keep_for", truthyNumber d.keepFor),
    ("log_max", presentNumber d.logMax),
    ("log_on_full", truthyText d.logOnFull),
    ("alerts", nonemptyList .str d.alerts)]

end Definition

def written (fields : List (String × Option Toml.Value)) : List (Text × Toml.Value) :=
  fields.filterMap fun f => f.2.map fun value => (text f.1, value)

def entriesOf (r : Option Record) : List (Text × Text) := (r.map (·.entries)).getD []

namespace Definition

variable (d : Definition)

def envFileField : List (Text × Toml.Value) := written [("env_file", truthyText d.envFile)]

def tableLines (sub : Text) (bare : ℕ → Bool) (r : Option Record) : List TomlLine :=
  if entriesOf r = [] then []
  else .blank :: .table d.header sub :: (entriesOf r).map fun e => .item sub bare e.1 e.2

def settingLines (settings : List (Text × Toml.Value)) : List TomlLine := settings.map fun s => .setting s.1 s.2

def lines : List TomlLine :=
  .header d.header :: (settingLines (written d.fields) ++ d.tableLines (text "env") isWordChar d.env ++
    d.tableLines (text "secret_env") isWordChar d.secretEnv ++ settingLines d.envFileField ++
    d.tableLines (text "labels") isLabelChar d.labels)

end Definition

structure TomlText where
  text : Text
  lineOf : Text → Option ℕ

def definitionToToml (d : Definition) : TomlText where
  text := [lineFeed].intercalate (d.lines.map TomlLine.render) ++ [lineFeed]
  lineOf field := (d.lines.findIdx? fun l => l.field = some field).map (· + 1)

end Minicrond.Web
