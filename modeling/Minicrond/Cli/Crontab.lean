import Minicrond.Library.Table
import Minicrond.Library.Words

/-! The migration of a crontab: its entries become jobs, and their lines are commented out. -/

namespace Minicrond.Cli

open Minicrond.Library

/-- A text by its runes. A byte that is no part of a rune stands for itself, with a number beyond those
of the runes. -/
abbrev Line := List ℕ

def newline : ℕ := 0x0a

def isSpace (c : ℕ) : Bool :=
  0x09 ≤ c && c ≤ 0x0d || c = 0x20 || c = 0x85 || c = 0xa0 || c = 0x1680 || 0x2000 ≤ c && c ≤ 0x200a ||
    c = 0x2028 || c = 0x2029 || c = 0x202f || c = 0x205f || c = 0x3000

/-! ## Lines -/

def isNameChar (c : ℕ) : Bool := inRange 'A' 'Z' c || inRange 'a' 'z' c || isDigit c || c = '_'.toNat

def isPatternSpace (c : ℕ) : Bool := c = 0x09 || c = 0x0a || c = 0x0c || c = 0x0d || c = 0x20

def cronAssignment (line : Line) : Option (Line × Line) :=
  let name := line.takeWhile isNameChar
  if name.head?.any fun c => !isDigit c then
    match (line.drop name.length).dropWhile isPatternSpace with
    | c :: value => if c = '='.toNat then some (name, value.dropWhile isPatternSpace) else none
    | [] => none
  else none

def isQuotedBy (quote : ℕ) (value : Line) : Bool := value.head? = some quote && value.getLast? = some quote

def unquote (value : Line) : Line :=
  if 2 ≤ value.length && (isQuotedBy 0x22 value || isQuotedBy 0x27 value) then (value.drop 1).dropLast else value

inductive CronProblem where
  | timezone
  | shell
  | directive
  | fields
  | stdin
  deriving DecidableEq

structure CronError where
  line : ℕ
  problem : CronProblem

inductive CronLine where
  | blank
  | assignment (name value : Line)
  | shell (value : Line)
  | entry (schedule command : Line)
  deriving DecidableEq

def cronLine (schedule command : Line) : Except CronProblem CronLine :=
  if command.contains '%'.toNat then .error .stdin else .ok (.entry schedule command)

def parseLine (raw : Line) : Except CronProblem CronLine :=
  let line := trim isSpace raw
  if line = [] || line.head? = some '#'.toNat then .ok .blank
  else
    match cronAssignment line with
    | some (name, quoted) =>
      let value := unquote quoted
      if name = text "CRON_TZ" || name = text "TZ" then .error .timezone
      else if name = text "SHELL" then if value.head? = some '/'.toNat then .ok (.shell value) else .error .shell
      else .ok (.assignment name value)
    | none =>
      let parts := fields isSpace line
      if line.head? = some '@'.toNat then
        let schedule := parts.headD []
        if parts.length < 2 || schedule = text "@reboot" then .error .directive
        else
          cronLine schedule (trim isSpace (if schedule.isPrefixOf line then line.drop schedule.length else line))
      else if parts.length < 6 then .error .fields
      else cronLine ([0x20].intercalate (parts.take 5)) (trim isSpace ((skipField isSpace)^[5] line))

/-! ## The crontab -/

structure CronJob where
  name : Line
  schedule : Line
  command : Line
  shell : Line
  timezone : Line
  env : Line → Option Line

structure CronEntry where
  line : ℕ
  text : Line
  job : CronJob

structure CronHost where
  digest : Line → Line
  zone : Line

structure CronState where
  entries : List CronEntry := []
  env : Line → Option Line := fun _ => none
  shell : Line := text "/bin/sh"

variable (host : CronHost)

-- the line number distinguishes identical entries
def CronHost.job (line : ℕ) (raw schedule command : Line) (env : Line → Option Line) (shell : Line) : CronJob :=
  ⟨text "crontab-" ++ host.digest (text (toString line) ++ text ":" ++ raw), schedule, command, shell, host.zone,
    env⟩

def CronState.step (s : CronState) (i : ℕ) (raw : Line) : Except CronError CronState :=
  match parseLine raw with
  | .error problem => .error ⟨i + 1, problem⟩
  | .ok .blank => .ok s
  | .ok (.assignment name value) => .ok { s with env := Function.update s.env name (some value) }
  | .ok (.shell value) => .ok { s with shell := value }
  | .ok (.entry schedule command) =>
    .ok { s with entries := s.entries ++ [⟨i + 1, raw, host.job (i + 1) raw schedule command s.env s.shell⟩] }

def parseLines : ℕ → CronState → List Line → Except CronError CronState
  | _, s, [] => .ok s
  | i, s, raw :: lines =>
    match s.step host i raw with
    | .ok s' => parseLines (i + 1) s' lines
    | .error e => .error e

def trimNewline (content : Line) : Line := if content.getLast? = some newline then content.dropLast else content

def parseCrontab (content : Line) : Except CronError (List CronEntry) :=
  (parseLines host 0 {} ((trimNewline content).splitOn newline)).map CronState.entries

def withNewlines : List Line → List Line
  | [] => []
  | [line] => [line]
  | line :: lines => (line ++ [newline]) :: withNewlines lines

def importedComment : Line := text "# minicrond imported: "

def commentCrontab (original : Line) (entries : List CronEntry) : Line :=
  (entries.foldl (fun lines entry => lines.modify (entry.line - 1) (importedComment ++ ·))
    (withNewlines (original.splitOn newline))).flatten

/-! ## What is in force at a line -/

def assigned (name : Line) (raw : Line) : Option Line :=
  match parseLine raw with
  | .ok (.assignment name' value) => if name' = name then some value else none
  | _ => none

def assignedShell (raw : Line) : Option Line :=
  match parseLine raw with
  | .ok (.shell value) => some value
  | _ => none

def lastAssigned (lines : List Line) (name : Line) : Option Line := lines.reverse.findSome? (assigned name)

def lastShell (lines : List Line) : Line := (lines.reverse.findSome? assignedShell).getD (text "/bin/sh")

def isEntry (raw : Line) : Bool :=
  match parseLine raw with
  | .ok (.entry _ _) => true
  | _ => false

/-! ## The loop -/

section

variable {host} {done lines : List Line} {raw : Line} {s s' : CronState}

lemma lastAssigned_append (done : List Line) (raw name : Line) :
    lastAssigned (done ++ [raw]) name = (assigned name raw).or (lastAssigned done name) := by
  rw [lastAssigned, List.reverse_append, List.findSome?_append]
  cases h : assigned name raw <;> simp [h, lastAssigned]

lemma lastShell_append (done : List Line) (raw : Line) :
    lastShell (done ++ [raw]) = (assignedShell raw).getD (lastShell done) := by
  rw [lastShell, List.reverse_append, List.findSome?_append]
  cases h : assignedShell raw <;> simp [h, lastShell]

def CronEntry.index (e : CronEntry) : ℕ := e.line - 1

structure CronEntry.Sound (host : CronHost) (lines : List Line) (e : CronEntry) : Prop where
  positive : 1 ≤ e.line
  text : lines[e.line - 1]? = some e.text
  job : ∃ schedule command, parseLine e.text = .ok (.entry schedule command) ∧
    e.job = host.job e.line e.text schedule command (lastAssigned (lines.take (e.line - 1)))
      (lastShell (lines.take (e.line - 1)))

structure Parsed (host : CronHost) (done : List Line) (s : CronState) : Prop where
  accepted : ∀ raw ∈ done, ∃ l, parseLine raw = .ok l
  env : s.env = lastAssigned done
  shell : s.shell = lastShell done
  entries : ∀ e ∈ s.entries, e.Sound host done
  nodup : (s.entries.map CronEntry.index).Nodup
  complete : ∀ i raw, done[i]? = some raw → isEntry raw = true → i ∈ s.entries.map CronEntry.index

lemma CronEntry.Sound.lt {e : CronEntry} (h : e.Sound host done) : e.line - 1 < done.length :=
  (List.getElem?_eq_some_iff.mp h.text).1

lemma CronEntry.Sound.append {e : CronEntry} (h : e.Sound host done) (more : List Line) :
    e.Sound host (done ++ more) where
  positive := h.positive
  text := by rw [List.getElem?_append_left h.lt, h.text]
  job := by
    rw [List.take_append_of_le_length h.lt.le]
    exact h.job

lemma getElem?_concat_eq_some {i : ℕ} {raw' : Line} (h : (done ++ [raw])[i]? = some raw') :
    done[i]? = some raw' ∨ i = done.length ∧ raw' = raw := by
  obtain hi | hi := Nat.lt_or_ge i done.length
  · rw [List.getElem?_append_left hi] at h
    exact .inl h
  · rw [List.getElem?_append_right hi, List.getElem?_singleton] at h
    split_ifs at h with hzero
    exact .inr ⟨by omega, (Option.some.inj h).symm⟩

namespace Parsed

lemma start : Parsed host [] {} := by
  constructor <;> simp [lastShell]
  rfl

lemma env_keep (h : Parsed host done s) (hraw : ∀ name, assigned name raw = none) :
    s.env = lastAssigned (done ++ [raw]) := by
  funext name
  rw [lastAssigned_append, hraw, Option.none_or, h.env]

lemma shell_keep (h : Parsed host done s) (hraw : assignedShell raw = none) :
    s.shell = lastShell (done ++ [raw]) := by
  rw [lastShell_append, hraw, Option.getD_none, h.shell]

lemma pass (h : Parsed host done s) (haccepted : ∃ l, parseLine raw = .ok l) (hentry : isEntry raw = false)
    (henv : s'.env = lastAssigned (done ++ [raw])) (hshell : s'.shell = lastShell (done ++ [raw]))
    (hentries : s'.entries = s.entries) : Parsed host (done ++ [raw]) s' where
  accepted := List.forall_mem_append.mpr ⟨h.accepted, by simpa using haccepted⟩
  env := henv
  shell := hshell
  entries := fun e he => (h.entries e (hentries ▸ he)).append [raw]
  nodup := hentries ▸ h.nodup
  complete := by
    intro i raw' hi hraw'
    rw [hentries]
    obtain hi | ⟨-, rfl⟩ := getElem?_concat_eq_some hi
    · exact h.complete i raw' hi hraw'
    · exact absurd hraw' (by simp [hentry])

lemma entry (h : Parsed host done s) {schedule command : Line}
    (hraw : parseLine raw = .ok (.entry schedule command)) :
    Parsed host (done ++ [raw]) { s with
      entries := s.entries ++ [⟨done.length + 1, raw,
        host.job (done.length + 1) raw schedule command s.env s.shell⟩] } where
  accepted := List.forall_mem_append.mpr ⟨h.accepted, by simpa using ⟨_, hraw⟩⟩
  env := h.env_keep fun _ => by rw [assigned, hraw]
  shell := h.shell_keep (by rw [assignedShell, hraw])
  entries := by
    rw [List.forall_mem_append]
    refine ⟨fun e he => (h.entries e he).append [raw], ?_⟩
    simp only [List.forall_mem_singleton]
    refine ⟨Nat.succ_pos _, List.getElem?_concat_length, schedule, command, hraw, ?_⟩
    rw [Nat.add_sub_cancel, List.take_left, h.env, h.shell]
  nodup := by
    refine nodup_append_fresh h.nodup fun e he => ?_
    exact (h.entries e he).lt.ne
  complete := by
    intro i raw' hi hraw'
    rw [List.map_append]
    obtain hi | ⟨rfl, -⟩ := getElem?_concat_eq_some hi
    · exact List.mem_append_left _ (h.complete i raw' hi hraw')
    · exact List.mem_append_right _ (List.mem_singleton_self _)

lemma step (h : Parsed host done s) (hs : s.step host done.length raw = .ok s') :
    Parsed host (done ++ [raw]) s' := by
  unfold CronState.step at hs
  cases hraw : parseLine raw with
  | error problem =>
    rw [hraw] at hs
    cases hs
  | ok l =>
    rw [hraw] at hs
    cases l with
    | entry schedule command => exact Except.ok.inj hs ▸ h.entry hraw
    | blank =>
      refine Except.ok.inj hs ▸ h.pass ⟨_, hraw⟩ (by simp [isEntry, hraw]) (h.env_keep fun _ => ?_)
        (h.shell_keep ?_) rfl
      · rw [assigned, hraw]
      · rw [assignedShell, hraw]
    | shell value =>
      refine Except.ok.inj hs ▸ h.pass ⟨_, hraw⟩ (by simp [isEntry, hraw]) (h.env_keep fun _ => ?_) ?_ rfl
      · rw [assigned, hraw]
      · rw [lastShell_append, assignedShell, hraw]
        rfl
    | assignment name value =>
      refine Except.ok.inj hs ▸ h.pass ⟨_, hraw⟩ (by simp [isEntry, hraw]) ?_ (h.shell_keep ?_) rfl
      · funext name'
        rw [lastAssigned_append, assigned, hraw, ← h.env]
        dsimp only
        by_cases hname : name = name'
        · rw [hname, Function.update_self, if_pos rfl, Option.some_or]
        · rw [Function.update_of_ne (Ne.symm hname), if_neg hname, Option.none_or]
      · rw [assignedShell, hraw]

lemma steps (h : Parsed host done s) (hs : parseLines host done.length s lines = .ok s') :
    Parsed host (done ++ lines) s' := by
  induction lines generalizing done s with
  | nil =>
    rw [List.append_nil]
    exact Except.ok.inj hs ▸ h
  | cons raw lines ih =>
    rw [parseLines] at hs
    cases hstep : s.step host done.length raw with
    | error e =>
      rw [hstep] at hs
      cases hs
    | ok t =>
      rw [hstep] at hs
      rw [List.append_cons]
      exact ih (h.step hstep) (by rw [List.length_append]; exact hs)

end Parsed

lemma parseLines_of_no_entry (i : ℕ) (s : CronState)
    (h : ∀ raw ∈ lines, (∃ l, parseLine raw = .ok l) ∧ isEntry raw = false) :
    ∃ s', parseLines host i s lines = .ok s' ∧ s'.entries = s.entries := by
  induction lines generalizing i s with
  | nil => exact ⟨s, rfl, rfl⟩
  | cons raw lines ih =>
    obtain ⟨⟨⟨l, hl⟩, hentry⟩, hlines⟩ := List.forall_mem_cons.mp h
    have hstep : ∃ t, s.step host i raw = .ok t ∧ t.entries = s.entries := by
      rw [CronState.step, hl]
      cases l with
      | entry schedule command => simp [isEntry, hl] at hentry
      | _ => exact ⟨_, rfl, rfl⟩
    obtain ⟨t, ht, hentries⟩ := hstep
    obtain ⟨s', hs', hsame⟩ := ih (i + 1) t hlines
    rw [parseLines, ht]
    exact ⟨s', hs', hsame.trans hentries⟩

lemma parseLines_append_blank (i : ℕ) (s : CronState) (lines : List Line) :
    parseLines host i s (lines ++ [[]]) = parseLines host i s lines := by
  induction lines generalizing i s with
  | nil => rfl
  | cons raw lines ih =>
    rw [List.cons_append, parseLines, parseLines]
    cases s.step host i raw with
    | error e => rfl
    | ok t => exact ih (i + 1) t

lemma parseCrontab_eq (content : Line) :
    parseCrontab host content = (parseLines host 0 {} (content.splitOn newline)).map CronState.entries := by
  rw [parseCrontab, trimNewline]
  split_ifs with hlast
  case pos =>
    obtain ⟨front, rfl⟩ := List.getLast?_eq_some_iff.mp hlast
    rw [List.dropLast_concat, List.splitOn_append_cons_self, List.splitOn_nil, parseLines_append_blank]
  case neg => rfl

end

/-! ## The comments -/

section

variable {lines : List Line} {entries : List CronEntry} {f : Line → Line}

def atEntries (f : Line → Line) (lines : List Line) (entries : List CronEntry) : List Line :=
  entries.foldl (fun lines entry => lines.modify (entry.line - 1) f) lines

def uncommentCrontab (updated : Line) (entries : List CronEntry) : Line :=
  [newline].intercalate (atEntries (List.drop importedComment.length) (updated.splitOn newline) entries)

lemma withNewlines_cons (line line' : Line) (lines : List Line) :
    withNewlines (line :: line' :: lines) = (line ++ [newline]) :: withNewlines (line' :: lines) := rfl

lemma withNewlines_modify (lines : List Line) (i : ℕ) :
    (withNewlines lines).modify i (importedComment ++ ·) = withNewlines
      (lines.modify i (importedComment ++ ·)) := by
  induction lines generalizing i with
  | nil => cases i <;> rfl
  | cons line lines ih =>
    cases lines with
    | nil => cases i <;> simp [withNewlines]
    | cons line' lines =>
      cases i with
      | zero => simp [withNewlines_cons]
      | succ i =>
        rw [withNewlines_cons, List.modify_succ_cons, ih, List.modify_succ_cons]
        cases i <;> rfl

lemma flatten_withNewlines (lines : List Line) : (withNewlines lines).flatten = [newline].intercalate lines := by
  induction lines with
  | nil => rfl
  | cons line lines ih =>
    cases lines with
    | nil => simp [withNewlines]
    | cons line' lines => rw [withNewlines_cons, List.flatten_cons, ih, List.intercalate_cons_cons]

lemma atEntries_withNewlines (lines : List Line) (entries : List CronEntry) :
    atEntries (importedComment ++ ·) (withNewlines lines) entries =
      withNewlines (atEntries (importedComment ++ ·) lines entries) := by
  induction entries generalizing lines with
  | nil => rfl
  | cons e entries ih =>
    change atEntries _ ((withNewlines lines).modify _ _) entries = _
    rw [withNewlines_modify, ih]
    rfl

lemma commentCrontab_eq (content : Line) (entries : List CronEntry) : commentCrontab content entries =
    [newline].intercalate (atEntries (importedComment ++ ·) (content.splitOn newline) entries) := by
  rw [← flatten_withNewlines, ← atEntries_withNewlines]
  rfl

lemma length_atEntries (f : Line → Line) (lines : List Line) (entries : List CronEntry) :
    (atEntries f lines entries).length = lines.length := by
  induction entries generalizing lines with
  | nil => rfl
  | cons e entries ih =>
    change (atEntries f (lines.modify _ f) entries).length = _
    rw [ih, List.length_modify]

lemma getElem?_atEntries (hnodup : (entries.map CronEntry.index).Nodup) (i : ℕ) :
    (atEntries f lines entries)[i]? =
      if i ∈ entries.map CronEntry.index then lines[i]?.map f else lines[i]? := by
  induction entries generalizing lines with
  | nil => rfl
  | cons e entries ih =>
    rw [List.map_cons, List.nodup_cons] at hnodup
    change (atEntries f (lines.modify e.index f) entries)[i]? = _
    rw [ih hnodup.2, List.getElem?_modify]
    by_cases hi : e.index = i
    · subst hi
      simp [hnodup.1]
    · simp [hi, Ne.symm hi]

lemma mem_atEntries (hnodup : (entries.map CronEntry.index).Nodup) {raw : Line}
    (h : raw ∈ atEntries f lines entries) : ∃ i raw', lines[i]? = some raw' ∧
      (i ∈ entries.map CronEntry.index ∧ raw = f raw' ∨ i ∉ entries.map CronEntry.index ∧ raw = raw') := by
  obtain ⟨i, hi⟩ := List.mem_iff_getElem?.mp h
  rw [getElem?_atEntries hnodup] at hi
  split_ifs at hi with hmem
  · obtain ⟨raw', hraw', rfl⟩ := Option.map_eq_some_iff.mp hi
    exact ⟨i, raw', hraw', .inl ⟨hmem, rfl⟩⟩
  · exact ⟨i, raw, hi, .inr ⟨hmem, rfl⟩⟩

lemma atEntries_drop (hnodup : (entries.map CronEntry.index).Nodup) (lines : List Line) :
    atEntries (List.drop importedComment.length) (atEntries (importedComment ++ ·) lines entries)
      entries = lines := by
  apply List.ext_getElem?
  intro i
  rw [getElem?_atEntries hnodup, getElem?_atEntries hnodup]
  split_ifs
  · cases lines[i]? <;> simp
  · rfl

lemma not_mem_of_mem_splitOn {α : Type*} [DecidableEq α] {a : α} {xs l : List α} (h : l ∈ xs.splitOn a) :
    a ∉ l := by
  induction xs generalizing l with
  | nil => simp_all
  | cons x xs ih =>
    rw [List.splitOn_cons_eq_if_modifyHead] at h
    split_ifs at h with hx
    · obtain rfl | h := List.mem_cons.mp h
      · exact List.not_mem_nil
      · exact ih h
    · obtain ⟨first, rest, hsplit⟩ := List.exists_cons_of_ne_nil (List.splitOn_ne_nil a xs)
      rw [hsplit, List.modifyHead_cons, List.mem_cons] at h
      obtain rfl | h := h
      · have hfirst := ih (hsplit ▸ List.mem_cons_self)
        simp only [List.mem_cons, not_or]
        exact ⟨fun heq => hx (by simp [heq]), hfirst⟩
      · exact ih (hsplit ▸ List.mem_cons_of_mem _ h)

lemma parseLine_comment (raw : Line) : parseLine (importedComment ++ raw) = .ok .blank := by
  obtain ⟨rest, hrest⟩ : ∃ rest, trim isSpace (importedComment ++ raw) = '#'.toNat :: rest := trim_cons (by decide)
  simp [parseLine, hrest]

lemma cronLine_eq_entry {schedule command schedule' command' : Line}
    (h : cronLine schedule command = .ok (.entry schedule' command')) : command' = command := by
  rw [cronLine] at h
  split_ifs at h
  cases h
  rfl

lemma command_of_entry {raw schedule command : Line} (h : parseLine raw = .ok (.entry schedule command))
    (hfields : (trim isSpace raw).head? ≠ some '@'.toNat) :
    command = trim isSpace ((afterField isSpace)^[5] raw) := by
  dsimp only [parseLine] at h
  by_cases hblank : (decide (trim isSpace raw = []) || decide ((trim isSpace raw).head? = some '#'.toNat)) = true
  case pos =>
    rw [if_pos hblank] at h
    cases h
  rw [if_neg hblank] at h
  cases hassign : cronAssignment (trim isSpace raw) with
  | some pair =>
    rw [hassign] at h
    dsimp only at h
    split_ifs at h <;> cases h
  | none =>
    rw [hassign] at h
    dsimp only at h
    rw [if_neg hfields] at h
    split_ifs at h
    rw [cronLine_eq_entry h, trim_skipField_iterate_trim]

/-- Removing the comments of the entries gives the crontab back, and with them it has no entries. -/
theorem crontab_migrated {host : CronHost} {content : Line} (h : parseCrontab host content = .ok entries) :
    let lines := content.splitOn newline
    let updated := commentCrontab content entries
    parseCrontab host updated = .ok [] ∧ (updated.splitOn newline).length = lines.length ∧
      (∀ i, (∀ e ∈ entries, e.line ≠ i + 1) → (updated.splitOn newline)[i]? = lines[i]?) ∧
      uncommentCrontab updated entries = content ∧
      ∀ e ∈ entries, lines[e.line - 1]? = some e.text ∧
        (updated.splitOn newline)[e.line - 1]? = some (importedComment ++ e.text) ∧
        e.job.env = lastAssigned (lines.take (e.line - 1)) ∧ e.job.shell = lastShell (lines.take (e.line - 1)) ∧
        ((trim isSpace e.text).head? ≠ some '@'.toNat →
          e.job.command = trim isSpace ((afterField isSpace)^[5] e.text)) := by
  intro lines updated
  rw [parseCrontab_eq] at h
  obtain ⟨s, hs, rfl⟩ : ∃ s, parseLines host 0 {} lines = .ok s ∧ s.entries = entries := by
    cases hs : parseLines host 0 {} lines with
    | error e =>
      rw [hs] at h
      cases h
    | ok s =>
      rw [hs] at h
      exact ⟨s, rfl, Except.ok.inj h⟩
  have hparsed : Parsed host lines s := Parsed.start.steps hs
  have hmem : ∀ i, i ∈ s.entries.map CronEntry.index ↔ ∃ e ∈ s.entries, e.line = i + 1 := by
    intro i
    rw [List.mem_map]
    refine exists_congr fun e => and_congr_right fun he => ?_
    have hpositive := (hparsed.entries e he).positive
    rw [CronEntry.index]
    omega
  have hsplit : updated.splitOn newline = atEntries (importedComment ++ ·) lines s.entries := by
    rw [show updated = _ from commentCrontab_eq content s.entries]
    apply List.splitOn_intercalate
    · intro raw hraw
      obtain ⟨i, raw', hraw', ⟨-, rfl⟩ | ⟨-, rfl⟩⟩ := mem_atEntries hparsed.nodup hraw
      · rw [List.mem_append, not_or]
        exact ⟨by decide, not_mem_of_mem_splitOn (List.mem_of_getElem? hraw')⟩
      · exact not_mem_of_mem_splitOn (List.mem_of_getElem? hraw')
    · apply List.ne_nil_of_length_pos
      rw [length_atEntries]
      exact List.length_pos_of_ne_nil (List.splitOn_ne_nil _ _)
  refine ⟨?_, by rw [hsplit, length_atEntries], ?_, ?_, ?_⟩
  case refine_1 =>
    obtain ⟨s', hs', hentries⟩ :=
      @parseLines_of_no_entry host (atEntries (importedComment ++ ·) lines s.entries) 0 {}
        fun raw hraw => by
      obtain ⟨i, raw', hraw', ⟨-, rfl⟩ | ⟨hi, rfl⟩⟩ := mem_atEntries hparsed.nodup hraw
      · exact ⟨⟨_, parseLine_comment raw'⟩, by simp [isEntry, parseLine_comment]⟩
      · refine ⟨hparsed.accepted raw (List.mem_of_getElem? hraw'), Bool.eq_false_iff.mpr fun hentry => ?_⟩
        exact hi (hparsed.complete i raw hraw' hentry)
    rw [parseCrontab_eq, hsplit, hs']
    exact congrArg Except.ok hentries
  case refine_2 =>
    intro i hi
    rw [hsplit, getElem?_atEntries hparsed.nodup, if_neg]
    rw [hmem]
    push Not
    exact hi
  case refine_3 =>
    rw [uncommentCrontab, hsplit, atEntries_drop hparsed.nodup]
    exact List.intercalate_splitOn newline
  case refine_4 =>
    intro e he
    obtain ⟨-, htext, schedule, command, hentry, hjob⟩ := hparsed.entries e he
    have hindex : e.line - 1 ∈ s.entries.map CronEntry.index := List.mem_map_of_mem he
    refine ⟨htext, ?_, by rw [hjob]; rfl, by rw [hjob]; rfl, fun hfields => ?_⟩
    · rw [hsplit, getElem?_atEntries hparsed.nodup, if_pos hindex, htext, Option.map_some]
    · rw [hjob]
      exact command_of_entry hentry hfields

theorem crontab_migrated_example : ∃ (host : CronHost) (content : Line) (entries : List CronEntry),
    content = text
        ("# keep\nPATH=/custom/bin\nSHELL=/bin/bash\n0 2 * * * echo hello  world\n\n@daily /bin/date\n") ∧
      parseCrontab host content = .ok entries ∧ entries.map CronEntry.line = [4, 6] ∧
      parseCrontab host (commentCrontab content entries) = .ok [] ∧
      uncommentCrontab (commentCrontab content entries) entries = content ∧
      ∀ e ∈ entries, e.job.env (text "PATH") = some (text "/custom/bin") := by
  let host : CronHost := ⟨fun t => if t = text "4:0 2 * * * echo hello  world" then text "7c8b0e0928315e90" else
    text "da4a08c34b5a1357", text "UTC"⟩
  let content :=
    text "# keep\nPATH=/custom/bin\nSHELL=/bin/bash\n0 2 * * * echo hello  world\n\n@daily /bin/date\n"
  have hlines : (parseCrontab host content).toOption.map (·.map CronEntry.line) = some [4, 6] := by decide +kernel
  cases hentries : parseCrontab host content with
  | error e =>
    rw [hentries] at hlines
    cases hlines
  | ok entries =>
    rw [hentries] at hlines
    have hlines : entries.map CronEntry.line = [4, 6] := Option.some.inj hlines
    obtain ⟨hnone, -, -, hrestored, hjobs⟩ := crontab_migrated hentries
    refine ⟨host, content, entries, rfl, hentries, hlines, hnone, hrestored, fun e he => ?_⟩
    obtain ⟨-, -, henv, -⟩ := hjobs e he
    rw [henv]
    have hline : e.line = 4 ∨ e.line = 6 := by simpa [hlines] using List.mem_map_of_mem (f := CronEntry.line) he
    obtain hline | hline := hline <;> rw [hline] <;> decide +kernel

end

end Minicrond.Cli
