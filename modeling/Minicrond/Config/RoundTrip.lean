import Mathlib.Data.List.Basic
import Minicrond.Config.Validate

/-! What a GET of a definition followed by a PUT of the same JSON preserves. -/

namespace Minicrond.Config

open Store (Kind)

/-! ## The JSON of an input -/

def nonEmpty {α : Type} : Option (List α) → Option (List α)
  | some [] => none
  | xs => xs

def compact (d : Definition) : Definition :=
  { d with
    argv := nonEmpty d.argv
    env := nonEmpty d.env
    secretEnv := nonEmpty d.secretEnv
    successCodes := nonEmpty d.successCodes
    labels := nonEmpty d.labels
    alerts := nonEmpty d.alerts }

def withColumns (id revision : ℤ) (enabled : Option Bool) (d : Definition) : Definition :=
  { d with id := id, revision := revision, enabled := enabled }

lemma nonEmpty_getD {α : Type} (xs : Option (List α)) : (nonEmpty xs).getD [] = xs.getD [] := by
  rcases xs with _ | _ | _ <;> rfl

lemma nonEmpty_again {α : Type} (xs : Option (List α)) : nonEmpty (nonEmpty xs) = nonEmpty xs := by
  rcases xs with _ | _ | _ <;> rfl

section Codec

@[simp]
lemma decode_str (s : String) : Decode.str (Encode.str s) = some s := by
  rw [Encode.str]
  split_ifs with h
  · rw [h]
    rfl
  · rfl

@[simp]
lemma decode_int (n : ℤ) : Decode.int (Encode.int n) = some n := by
  rw [Encode.int]
  split_ifs with h
  · rw [h]
    rfl
  · rfl

@[simp]
lemma decode_flag (b : Bool) : Decode.flag (Encode.flag b) = some b := by cases b <;> rfl

@[simp]
lemma decode_ptr (b : Option Bool) : Decode.ptr (Encode.ptr b) = some b := by cases b <;> rfl

@[simp]
lemma decode_time (t : Option String) : Decode.time (Encode.time t) = some t := by cases t <;> rfl

@[simp]
lemma decode_kind (k : Option Kind) : Decode.kind (Encode.kind k) = some k := by
  rcases k with _ | k
  · rfl
  · cases k <;> rfl

@[simp]
lemma decode_ptrInt (n : Option ℤ) : Decode.ptrInt (n.map .num) = some n := by cases n <;> rfl

lemma decode_list {α : Type} {encode : α → Json} {decode : Option Json → Option α}
    (h : ∀ x, decode (some (encode x)) = some x) (xs : Option (List α)) :
    Decode.list decode (Encode.list encode xs) = some (nonEmpty xs) := by
  match xs with
  | none => rfl
  | some [] => rfl
  | some (x :: xs) =>
    have hall : ((x :: xs).map encode).mapM (fun j => decode (some j)) = some (x :: xs) := by
      generalize x :: xs = ys
      induction ys with
      | nil => rfl
      | cons y ys ih => rw [List.map_cons, List.mapM_cons, h, ih]; rfl
    exact congrArg (Option.map some) hall

@[simp]
lemma decode_strs (xs : Option (List String)) : Decode.strs (Encode.strs xs) = some (nonEmpty xs) :=
  decode_list (fun _ => rfl) xs

@[simp]
lemma decode_ints (xs : Option (List ℤ)) : Decode.ints (Encode.ints xs) = some (nonEmpty xs) :=
  decode_list (fun _ => rfl) xs

@[simp]
lemma decode_map (m : Option StringMap) : Decode.map (Encode.map m) = some (nonEmpty m) := by
  match m with
  | none => rfl
  | some [] => rfl
  | some (e :: es) =>
    have hall : ((e :: es).map fun x => (x.1, Json.str x.2)).mapM
        (fun m => (Decode.str (some m.2)).map fun s => (m.1, s)) = some (e :: es) := by
      generalize e :: es = entries
      induction entries with
      | nil => rfl
      | cons e es ih => rw [List.map_cons, List.mapM_cons, ih]; rfl
    exact congrArg (Option.map some) hall

end Codec

lemma decodeInput_encodeInput (input : DefinitionInput) :
    decodeInput (encodeInput input) =
      some { input with definition := compact { input.definition with timeout := 0, retries := 0 } } := by
  simp only [decodeInput, encodeInput, encodeDefinition, decode_str, decode_int, decode_flag, decode_ptr,
    decode_time, decode_kind, decode_ptrInt, decode_strs, decode_ints, decode_map]
  rfl

/-! ## Defaults -/

def normalize (d : Definition) (ex : Explicit) (defaults : Definition) : Definition :=
  let d := applyDefinitionDefaults { d with kind := d.kind.or (some .job) } defaults ex
  { d with timezone := if d.timezone = "" then "UTC" else d.timezone }

structure Valid (host : Host) (d : Definition) : Prop where
  name : validName d.name = true
  checks : (checks host d).find? (·.1) = none

lemma checkDefinition_ok {host : Host} {timezone : String} {d d' : Definition} :
    checkDefinition host timezone d = .ok d' ↔
      d' = { d with timezone := if d.timezone = "" then timezone else d.timezone } ∧
        (checks host d').find? (·.1) = none := by
  rw [checkDefinition]
  dsimp only
  generalize { d with timezone := if d.timezone = "" then timezone else d.timezone } = filled
  constructor
  · intro h
    split at h
    · cases h
    · cases h
      exact ⟨rfl, by assumption⟩
  · rintro ⟨rfl, h⟩
    rw [h]

lemma validateDefinitions_one (host : Host) (timezone : String) (d : Definition) :
    validateDefinitions host timezone [] [d] =
      if validName d.name then (checkDefinition host timezone d).map fun d => [d]
      else .error ⟨d.name, .invalidName⟩ := by
  rw [validateDefinitions]
  cases validName d.name with
  | false => rfl
  | true =>
    cases hcheck : checkDefinition host timezone d with
    | error e => simp [bind, Except.bind, Except.map]
    | ok d => simp [bind, Except.bind, Except.map, validateDefinitions, pure, Except.pure]

lemma validateDefinition_ok {host : Host} {d d' : Definition} {ex : Explicit} {jobDefaults : List Definition} :
    validateDefinition host d ex jobDefaults = .ok d' ↔
      d' = normalize d ex (jobDefaults.head?.getD {}) ∧ Valid host d' := by
  rw [validateDefinition, normalize]
  generalize
    applyDefinitionDefaults { d with kind := d.kind.or (some .job) } (jobDefaults.head?.getD {}) ex = applied
  rw [validateDefinitions_one]
  cases hname : validName applied.name with
  | false =>
    refine iff_of_false (fun h => nomatch h) ?_
    rintro ⟨rfl, hvalid⟩
    exact Bool.false_ne_true (hname.symm.trans hvalid.name)
  | true =>
    rw [if_pos rfl]
    cases hcheck : checkDefinition host "UTC" applied with
    | error e =>
      refine iff_of_false (fun h => nomatch h) ?_
      rintro ⟨rfl, hvalid⟩
      rw [checkDefinition_ok.2 ⟨rfl, hvalid.checks⟩] at hcheck
      cases hcheck
    | ok checked =>
      obtain ⟨rfl, hchecks⟩ := checkDefinition_ok.1 hcheck
      constructor
      · intro h
        cases h
        exact ⟨rfl, hname, hchecks⟩
      · rintro ⟨rfl, -⟩
        rfl

section CmpOr

variable {α : Type} [Inhabited α] [DecidableEq α]

lemma cmpOr_again (a b : α) : cmpOr (cmpOr a b) b = cmpOr a b := by
  unfold cmpOr
  split_ifs <;> simp_all

lemma cmpOr_cmpOr_again (a b c : α) : cmpOr (cmpOr (cmpOr (cmpOr a b) c) b) c = cmpOr (cmpOr a b) c := by
  unfold cmpOr
  split_ifs <;> simp_all

end CmpOr

/-- What the second pass of the defaults makes of an accepted definition: lists and maps that are empty are
inherited again, everything else stays. -/
def inheritAgain (defaults d : Definition) : Definition :=
  { d with
    argv := nonEmpty d.argv
    env := (nonEmpty d.env).or defaults.env
    secretEnv := (nonEmpty d.secretEnv).or defaults.secretEnv
    labels := (nonEmpty d.labels).or defaults.labels
    alerts := (nonEmpty d.alerts).or defaults.alerts
    enabled := d.enabled.or defaults.enabled }

lemma timezone_again (a b : String) :
    let filled := if cmpOr a b = "" then "UTC" else cmpOr a b
    (if cmpOr filled b = "" then "UTC" else cmpOr filled b) = filled := by
  have hfilled : (if cmpOr a b = "" then "UTC" else cmpOr a b) ≠ "" := by
    split_ifs with h
    · decide
    · exact h
  generalize (if cmpOr a b = "" then "UTC" else cmpOr a b) = filled at hfilled
  have hkept : cmpOr filled b = filled := if_neg hfilled
  dsimp only
  rw [hkept, if_neg hfilled]

lemma successCodes_again (a b : Option (List ℤ)) :
    let filled := if (a.or b).getD [] = [] then some [0] else a.or b
    (if ((nonEmpty filled).or b).getD [] = [] then some [0] else (nonEmpty filled).or b) = filled := by
  have hfilled : ∃ x xs, (if (a.or b).getD [] = [] then some [0] else a.or b) = some (x :: xs) := by
    split_ifs with h
    · exact ⟨0, [], rfl⟩
    · match hab : a.or b with
      | none => simp [hab] at h
      | some [] => simp [hab] at h
      | some (x :: xs) => exact ⟨x, xs, rfl⟩
  obtain ⟨x, xs, hx⟩ := hfilled
  rw [hx]
  rfl

lemma normalize_kind (d defaults : Definition) (ex : Explicit) :
    (normalize d ex defaults).kind = d.kind.or (some .job) := by
  rw [normalize, applyDefinitionDefaults, mergeDefinitionDefaults]
  dsimp only
  split_ifs <;> rfl

lemma normalize_timeout (d defaults : Definition) (ex : Explicit) :
    (normalize d ex defaults).timeout = if !ex.timeout then cmpOr d.timeout defaults.timeout else d.timeout := by
  rw [normalize, applyDefinitionDefaults, mergeDefinitionDefaults]
  dsimp only
  split_ifs <;> rfl

lemma normalize_retries (d defaults : Definition) (ex : Explicit) :
    (normalize d ex defaults).retries =
      if d.kind.or (some .job) = some .job && !ex.retries then cmpOr d.retries
      defaults.retries else d.retries := by
  rw [normalize, applyDefinitionDefaults, mergeDefinitionDefaults]
  dsimp only
  split_ifs <;> rfl

lemma explicit_again {explicit : Bool} {a b : ℤ} (h : explicit = false → a = 0 ∧ b = 0) :
    (if !explicit then cmpOr a b else a) = a := by
  cases explicit with
  | true => rfl
  | false =>
    obtain ⟨rfl, rfl⟩ := h rfl
    rfl

lemma normalize_again (d defaults : Definition) (ex ex' : Explicit) (id revision : ℤ) (enabled : Option Bool)
    (htimeout : ex'.timeout = false → (normalize d ex defaults).timeout = 0 ∧ defaults.timeout = 0)
    (hretries : (normalize d ex defaults).kind = some .job → ex'.retries = false →
      (normalize d ex defaults).retries = 0 ∧ defaults.retries = 0) :
    normalize (withColumns id revision enabled (compact (normalize d ex defaults))) ex' defaults =
      inheritAgain defaults (withColumns id revision enabled (normalize d ex defaults)) := by
  have htimeout := explicit_again htimeout
  have hcodes := successCodes_again d.successCodes defaults.successCodes
  have htimezone := timezone_again d.timezone defaults.timezone
  rw [normalize_timeout] at htimeout
  rw [normalize_kind, normalize_retries] at hretries
  have hkind : d.kind.or (some .job) = some .job ∨ d.kind.or (some .job) = some .worker := by
    rcases d.kind with _ | _ | _ <;> simp
  rcases hkind with hk | hk
  · have hretries := explicit_again (hretries hk)
    simp only [hk, decide_true, Bool.true_and] at hretries
    simp only [normalize, applyDefinitionDefaults, mergeDefinitionDefaults, compact, inheritAgain, withColumns, hk,
      Option.or_some, Option.getD_some, ↓reduceIte, Option.some.injEq, reduceCtorEq, decide_true, Bool.true_and,
        cmpOr_again, cmpOr_cmpOr_again, htimeout, hretries, hcodes, htimezone]
  · simp only [normalize, applyDefinitionDefaults, mergeDefinitionDefaults, compact, inheritAgain, withColumns, hk,
      Option.or_some, Option.getD_some, ↓reduceIte, Option.some.injEq, reduceCtorEq, decide_false, Bool.false_and,
      Bool.false_eq_true, cmpOr_again, cmpOr_cmpOr_again, htimeout, hcodes, htimezone, Option.or_assoc,
      Option.or_self]

/-! ## Editing -/

/-- A definition as the registry hands it back: with its id and revision, the column that enables it, and empty
lists and maps dropped or not. -/
structure StoredAs (d e : Definition) : Prop where
  same : compact e = withColumns e.id e.revision e.enabled (compact d)
  enabled : e.enabled = d.enabled ∨ e.enabled.isSome = true

def putBack (host : Host) (jobDefaults : List Definition) (e : Definition) :
    Option (Except DefinitionFailure Definition) :=
  (decodeInput (encodeInput (editableInput e jobDefaults))).map fun input =>
    validateDefinitionInput host input jobDefaults

lemma storedAs_decode (d : Definition) (id revision : ℤ) (enabled : Bool) :
    ∃ input, decodeInput (canonical d) = some input ∧
      StoredAs d (withColumns id revision (some enabled) input.resolve) := by
  have hcanonical : canonical d = encodeInput
      ⟨{ d with id := 0, revision := 0 }, if d.timeout = 0 then none else some d.timeout,
        if d.retries = 0 then none else some d.retries⟩ := by
    funext k
    cases k with
    | timeout => exact (apply_ite (Option.map Json.num) (d.timeout = 0) none (some d.timeout)).symm
    | retries => exact (apply_ite (Option.map Json.num) (d.retries = 0) none (some d.retries)).symm
    | _ => rfl
  refine ⟨_, by rw [hcanonical, decodeInput_encodeInput], ⟨?_, .inr rfl⟩⟩
  have hint : ∀ n : ℤ, (if n = 0 then none else some n).getD 0 = n := fun n => by
    split_ifs with h
    · exact h.symm
    · rfl
  simp only [DefinitionInput.resolve, withColumns, compact, nonEmpty_again, hint]

def editedExplicit (defaults e : Definition) : Explicit where
  timeout := e.timeout ≠ 0 || defaults.timeout ≠ 0
  retries := e.kind = some .job && (e.retries ≠ 0 || defaults.retries ≠ 0)

lemma putBack_eq (host : Host) (jobDefaults : List Definition) {e : Definition}
    (hretries : e.kind ≠ some .job → e.retries = 0) :
    putBack host jobDefaults e = some (validateDefinition host (compact e)
      (editedExplicit (jobDefaults.head?.getD {}) e) jobDefaults) := by
  have hsome : ∀ (c : Bool) (n : ℤ), (if c then some n else none).isSome = c := fun c n => by cases c <;> rfl
  have hvalue : ∀ (c : Bool) (n : ℤ), (c = false → n = 0) → (if c then some n else none).getD 0 = n :=
    fun c n h => by
    cases c with
    | false => exact (h rfl).symm
    | true => rfl
  rw [putBack, decodeInput_encodeInput, Option.map_some, validateDefinitionInput, inputExplicit, editableInput]
  generalize jobDefaults.head?.getD {} = defaults
  simp only [DefinitionInput.resolve, compact, hsome]
  rw [hvalue, hvalue]
  · rfl
  · intro h
    simp_all
  · intro h
    by_cases hk : e.kind = some .job
    · simp_all
    · exact hretries hk

lemma encode_list_inj {α : Type} {value : α → Json} (hvalue : Function.Injective value) {xs ys : Option (List α)} :
    Encode.list value xs = Encode.list value ys ↔ xs.getD [] = ys.getD [] := by
  rcases xs with _ | _ | ⟨x, xs⟩ <;> rcases ys with _ | _ | ⟨y, ys⟩ <;>
    simp [Encode.list, hvalue.eq_iff, (List.map_injective_iff.2 hvalue).eq_iff]

lemma encode_map_inj {m n : Option StringMap} : Encode.map m = Encode.map n ↔ m.getD [] = n.getD [] := by
  have hentry : Function.Injective fun e : String × String => (e.1, Json.str e.2) := by
    rintro ⟨k, v⟩ ⟨k', v'⟩ h
    simpa using h
  rcases m with _ | _ | ⟨e, es⟩ <;> rcases n with _ | _ | ⟨f, fs⟩ <;>
    simp [Encode.map, Prod.ext_iff, (List.map_injective_iff.2 hentry).eq_iff]

def EmptyOverride (defaults d : Definition) : Prop :=
  (d.env = some [] ∧ defaults.env.getD [] ≠ []) ∨ (d.secretEnv = some [] ∧ defaults.secretEnv.getD [] ≠ []) ∨
    (d.labels = some [] ∧ defaults.labels.getD [] ≠ []) ∨ (d.alerts = some [] ∧ defaults.alerts.getD [] ≠ [])

lemma inherit_iff {α : Type} (a b : Option (List α)) :
    ((nonEmpty (a.or b)).or b).getD [] = (a.or b).getD [] ↔ ¬(a = some [] ∧ b.getD [] ≠ []) := by
  rcases a with _ | _ | _ <;> rcases b with _ | _ | _ <;> simp [nonEmpty]

lemma checks_congr (host : Host) {d d' : Definition}
    (h : d' = { d with id := d'.id, revision := d'.revision, enabled := d'.enabled, argv := d'.argv, env := d'.env,
                       secretEnv := d'.secretEnv, labels := d'.labels, alerts := d'.alerts })
    (hargv : d'.argv.getD [] = d.argv.getD []) (hsecret : d'.secretEnv.getD [] = d.secretEnv.getD []) :
    checks host d' = checks host d := by
  rw [checks, hargv, hsecret, h]
  rfl

lemma normalize_inherited (d defaults : Definition) (ex : Explicit) :
    (normalize d ex defaults).env = d.env.or defaults.env ∧
      (normalize d ex defaults).secretEnv = d.secretEnv.or defaults.secretEnv ∧
      (normalize d ex defaults).labels = d.labels.or defaults.labels ∧
      (normalize d ex defaults).alerts = d.alerts.or defaults.alerts ∧
      (normalize d ex defaults).enabled = d.enabled.or defaults.enabled := by
  rw [normalize, applyDefinitionDefaults, mergeDefinitionDefaults]
  dsimp only
  split_ifs <;> exact ⟨rfl, rfl, rfl, rfl, rfl⟩

lemma canonical_compact (d : Definition) : canonical (compact d) = canonical d := by
  have hlist : ∀ {α : Type} (value : α → Json) (xs : Option (List α)),
      Encode.list value (nonEmpty xs) = Encode.list value xs := fun value xs => by
    rcases xs with _ | _ | _ <;> rfl
  have hmap : ∀ m : Option StringMap, Encode.map (nonEmpty m) = Encode.map m := fun m => by
    rcases m with _ | _ | _ <;> rfl
  funext k
  cases k with
  | argv | successCodes | alerts => exact hlist _ _
  | env | secretEnv | labels => exact hmap _
  | _ => rfl

lemma canonical_inheritAgain {defaults s : Definition} (henabled : s.enabled.or defaults.enabled = s.enabled) :
    canonical (inheritAgain defaults s) = canonical s ↔
      ((nonEmpty s.env).or defaults.env).getD [] = s.env.getD [] ∧
      ((nonEmpty s.secretEnv).or defaults.secretEnv).getD [] = s.secretEnv.getD [] ∧
      ((nonEmpty s.labels).or defaults.labels).getD [] = s.labels.getD [] ∧
      ((nonEmpty s.alerts).or defaults.alerts).getD [] = s.alerts.getD [] := by
  constructor
  · intro h
    exact ⟨encode_map_inj.1 (congrFun h .env), encode_map_inj.1 (congrFun h .secretEnv),
      encode_map_inj.1 (congrFun h .labels), (encode_list_inj fun _ _ => Json.str.inj).1 (congrFun h .alerts)⟩
  · rintro ⟨henv, hsecret, hlabels, halerts⟩
    funext k
    cases k with
    | env => exact encode_map_inj.2 henv
    | secretEnv => exact encode_map_inj.2 hsecret
    | labels => exact encode_map_inj.2 hlabels
    | alerts => exact (encode_list_inj fun _ _ => Json.str.inj).2 halerts
    | argv => exact congrFun (canonical_compact s) .argv
    | enabled => exact congrArg Encode.ptr henabled
    | _ => rfl

lemma Valid.worker_retries {host : Host} {d : Definition} (h : Valid host d) (hk : d.kind = some .worker) :
    d.retries = 0 := by
  have hmem : check (d.kind = some .worker && d.retries ≠ 0) (.workerCannotHave .retries) ∈
      Config.checks host d := by
    simp [Config.checks]
  simpa [check, hk] using List.find?_eq_none.1 h.checks _ hmem

section RoundTrip

variable {host : Host} {d defaults : Definition} {ex : Explicit}

lemma inheritAgain_preserves_iff (id revision : ℤ) {enabled : Option Bool}
    (henabled : enabled = (normalize d ex defaults).enabled ∨ enabled.isSome = true) :
    canonical (inheritAgain defaults (withColumns id revision enabled (normalize d ex defaults))) =
        canonical (withColumns id revision enabled (normalize d ex defaults)) ↔ ¬EmptyOverride defaults d := by
  obtain ⟨henv, hsecret, hlabels, halerts, hen⟩ := normalize_inherited d defaults ex
  rw [canonical_inheritAgain, EmptyOverride, not_or, not_or, not_or]
  · dsimp only [withColumns]
    rw [henv, hsecret, hlabels, halerts, inherit_iff, inherit_iff, inherit_iff, inherit_iff]
  · rcases henabled with rfl | hsome
    · dsimp only [withColumns]
      rw [hen, Option.or_assoc, Option.or_self]
    · exact Option.or_of_isSome hsome

lemma inheritAgain_valid (hvalid : Valid host (normalize d ex defaults)) (hempty : ¬EmptyOverride defaults d)
    (id revision : ℤ) (enabled : Option Bool) :
    Valid host (inheritAgain defaults (withColumns id revision enabled (normalize d ex defaults))) := by
  have hsecret := (normalize_inherited d defaults ex).2.1
  rw [EmptyOverride, not_or, not_or] at hempty
  have hchecks := @checks_congr host (normalize d ex defaults)
    (inheritAgain defaults (withColumns id revision enabled (normalize d ex defaults))) rfl (nonEmpty_getD _)
  refine ⟨hvalid.name, ?_⟩
  rw [hchecks]
  · exact hvalid.checks
  · dsimp only [inheritAgain, withColumns]
    rw [hsecret]
    exact (inherit_iff _ _).2 hempty.2.1

end RoundTrip

theorem editable_preserves_iff (host : Host) (jobDefaults : List Definition) (input : DefinitionInput)
    {d e : Definition} (haccepted : validateDefinitionInput host input jobDefaults = .ok d)
    (hstored : StoredAs d e) : (∃ d', putBack host jobDefaults e = some (.ok d') ∧ canonical d' = canonical e) ↔
      ¬EmptyOverride (jobDefaults.head?.getD {}) input.definition := by
  obtain ⟨hd, hvalid⟩ := validateDefinition_ok.1 haccepted
  have hkind : e.kind = d.kind := by
    have := congrArg Definition.kind hstored.same
    exact this
  have htimeout : e.timeout = d.timeout := by
    have := congrArg Definition.timeout hstored.same
    exact this
  have hretries : e.retries = d.retries := by
    have := congrArg Definition.retries hstored.same
    exact this
  have hworker : e.kind ≠ some .job → e.retries = 0 := fun hk => by
    have : d.kind = some .job ∨ d.kind = some .worker := by
      rw [hd, normalize_kind]
      rcases input.resolve.kind with _ | _ | _ <;> simp
    rw [hretries]
    exact hvalid.worker_retries (this.resolve_left (hkind ▸ hk))
  have hcanonical : canonical e = canonical (withColumns e.id e.revision e.enabled d) := by
    rw [← canonical_compact e, hstored.same, ← canonical_compact (withColumns e.id e.revision e.enabled d)]
    rfl
  have hnormal : normalize (compact e) (editedExplicit (jobDefaults.head?.getD {}) e) (jobDefaults.head?.getD {}) =
      inheritAgain (jobDefaults.head?.getD {}) (withColumns e.id e.revision e.enabled d) := by
    rw [hstored.same, hd]
    refine normalize_again _ _ _ _ _ _ _ (fun h => ?_) fun hk h => ?_
    · rw [← hd, ← htimeout]
      simpa [editedExplicit] using h
    · rw [← hd] at hk ⊢
      rw [← hretries]
      simpa [editedExplicit, hkind, hk] using h
  have hpreserves :=
    @inheritAgain_preserves_iff input.resolve (jobDefaults.head?.getD {}) (inputExplicit input) e.id
    e.revision e.enabled (hd ▸ hstored.enabled)
  rw [← hd] at hpreserves
  rw [putBack_eq host jobDefaults hworker, hcanonical]
  constructor
  · rintro ⟨d', hput, hsame⟩
    obtain ⟨rfl, -⟩ := validateDefinition_ok.1 (Option.some.inj hput)
    rw [hnormal] at hsame
    exact hpreserves.1 hsame
  · intro hempty
    refine ⟨_, congrArg some (validateDefinition_ok.2 ⟨rfl, ?_⟩), ?_⟩
    · rw [hnormal, hd]
      exact inheritAgain_valid (d := input.resolve) (hd ▸ hvalid) hempty _ _ _
    · rw [hnormal]
      exact hpreserves.2 hempty

def anyHost : Host := ⟨fun _ => none, fun _ => none, fun _ => none⟩

def siteDefaults : Definition := { timeout := 60, retries := 3, env := some [("REGION", "eu")] }

def zeroInput : DefinitionInput :=
  { definition := { name := "backup", command := "true" }, timeout := some 0, retries := some 0 }

theorem editable_preserves_iff_zeros :
    ∃ d e, validateDefinitionInput anyHost zeroInput [siteDefaults] = .ok d ∧ d.timeout = 0 ∧ d.retries = 0 ∧
      StoredAs d e ∧ ∃ d', putBack anyHost [siteDefaults] e = some (.ok d') ∧ canonical d' = canonical e := by
  have haccepted : validateDefinitionInput anyHost zeroInput [siteDefaults] =
      .ok (normalize zeroInput.resolve (inputExplicit zeroInput) siteDefaults) :=
    validateDefinition_ok.2 ⟨rfl, by decide +kernel, by decide +kernel⟩
  obtain ⟨stored, -, hstored⟩ :=
    storedAs_decode (normalize zeroInput.resolve (inputExplicit zeroInput) siteDefaults) 7 2 true
  have hempty : ¬EmptyOverride siteDefaults zeroInput.definition := by
    simp [EmptyOverride, zeroInput]
  exact ⟨_, _, haccepted, by decide +kernel, by decide +kernel, hstored,
    (editable_preserves_iff anyHost [siteDefaults] zeroInput haccepted hstored).2 hempty⟩

def emptyEnvInput : DefinitionInput := { definition := { name := "backup", command := "true", env := some [] } }

theorem empty_environment_lost :
    ∃ d d', validateDefinitionInput anyHost emptyEnvInput [siteDefaults] = .ok d ∧ d.env = some [] ∧
      putBack anyHost [siteDefaults] d = some (.ok d') ∧ d'.env = some [("REGION", "eu")] ∧
      canonical d' ≠ canonical d := by
  set d := normalize emptyEnvInput.resolve (inputExplicit emptyEnvInput) siteDefaults
  refine ⟨d, inheritAgain siteDefaults d,
    validateDefinition_ok.2 ⟨rfl, by decide +kernel, by decide +kernel⟩, by decide +kernel, ?_, by decide +kernel,
    fun h => ?_⟩
  · rw [putBack_eq _ _ fun hkind => absurd (by decide +kernel) hkind]
    exact congrArg some (validateDefinition_ok.2 ⟨by decide +kernel, by decide +kernel, by decide +kernel⟩)
  · have henv : (inheritAgain siteDefaults d).env.getD [] = d.env.getD [] := encode_map_inj.1 (congrFun h .env)
    exact absurd henv (by decide +kernel)

end Minicrond.Config
