import Minicrond.Web.TomlRead

/-! What the TOML text of a definition says: the entry it makes, and the tables and values in it. -/

namespace Minicrond.Web

open Minicrond.Library

/-! ## What it should say -/

def tableNames : List Text := ["env", "secret_env", "labels"].map text

def entryPath (header : Text) : Toml.Path := [.key header, .item 0]

def tablePath (header sub : Text) : Toml.Path := entryPath header ++ [.key sub]

def placed (path : Toml.Path) (settings : List (Text × Toml.Value)) : List (Toml.Path × Toml.Value) :=
  settings.map fun s => (path ++ [.key s.1], s.2)

def itemsOf (r : Option Record) : List (Text × Toml.Value) := (entriesOf r).map fun e => (e.1, .scalar (.str e.2))

namespace Definition

variable (d : Definition)

def settings : List (Toml.Path × Toml.Value) :=
  placed (entryPath d.header) (written d.fields ++ d.envFileField) ++
    placed (tablePath d.header (text "env")) (itemsOf d.env) ++
    placed (tablePath d.header (text "secret_env")) (itemsOf d.secretEnv) ++
    placed (tablePath d.header (text "labels")) (itemsOf d.labels)

def tables : List Toml.Path :=
  entryPath d.header :: ([(text "env", d.env), (text "secret_env", d.secretEnv), (text "labels", d.labels)].filter
    fun t => entriesOf t.2 ≠ []).map fun t => tablePath d.header t.1

def Means : Prop :=
  ∃ doc, Toml.read (definitionToToml d).text = some doc ∧ doc.tables = d.tables ∧
    ∀ setting, setting ∈ doc.values ↔ setting ∈ d.settings

def strings : List Text :=
  (written d.fields ++ d.envFileField).flatMap (fun s => valueStrings s.2) ++
    (entriesOf d.env ++ entriesOf d.secretEnv ++ entriesOf d.labels).flatMap fun e => [e.1, e.2]

def Fits : Prop :=
  (d.envFileField = [] ∨ entriesOf d.env = [] ∧ entriesOf d.secretEnv = []) ∧ ∀ t ∈ d.strings, Readable t

end Definition

/-! ## The fields -/

def fieldNames (kind : Kind) : List String :=
  ["name", "command", "argv", "shell"] ++
  (if kind = .worker then ["autostart", "restart", "restart_delay", "max_restart_attempts", "restart_backoff_max",
    "healthy_after", "priority"] else ["schedule", "catch_up", "on_overlap", "on_history_unavailable", "retries",
    "retry_delay", "run_on_start"]) ++
  ["timezone", "run_as", "working_dir", "env_base", "timeout", "grace", "stop_signal", "success_codes",
    "keep_runs", "keep_for", "log_max", "log_on_full", "alerts"]

lemma written_sublist (fields : List (String × Option Toml.Value)) :
    ((written fields).map Prod.fst).Sublist (fields.map fun f => text f.1) := by
  induction fields with
  | nil => exact List.Sublist.refl _
  | cons f fields ih =>
    rw [written, List.filterMap_cons]
    cases f.2 with
    | none => exact ih.cons _
    | some value => exact ih.cons_cons _

namespace Definition

variable (d : Definition)

lemma fields_names : d.fields.map Prod.fst = fieldNames d.kind := by
  simp only [fields, fieldNames, workerFields, jobFields]
  split_ifs <;> rfl

lemma keys_sublist : ((written d.fields).map Prod.fst).Sublist ((fieldNames d.kind).map text) := by
  rw [← d.fields_names, List.map_map]
  exact written_sublist d.fields

lemma header_cases : d.header = text "worker" ∨ d.header = text "init" ∨ d.header = text "job" := by
  simp only [header]
  split_ifs
  · exact .inl rfl
  · exact .inr (.inl rfl)
  · exact .inr (.inr rfl)

end Definition

lemma fieldNames_nodup (kind : Kind) : ((fieldNames kind).map text).Nodup := by
  cases kind <;> decide +kernel

lemma fieldNames_bare (kind : Kind) : ∀ k ∈ (fieldNames kind).map text, k ≠ [] ∧ k.all Toml.isBare = true := by
  cases kind <;> decide +kernel

lemma fieldNames_other (kind : Kind) : ∀ k ∈ (fieldNames kind).map text, k ∉ tableNames ∧ k ≠ text "env_file" := by
  cases kind <;> decide +kernel

lemma truthyText_ne (t : Option Text) : truthyText t ≠ some (.array []) := by
  simp [truthyText]

lemma presentNumber_ne (n : Option WholeNumber) : presentNumber n ≠ some (.array []) := by
  simp [presentNumber]

lemma truthyNumber_ne (n : Option WholeNumber) : truthyNumber n ≠ some (.array []) := presentNumber_ne _

lemma nonemptyList_ne {α : Type*} (item : α → Toml.Scalar) (xs : Option (List α)) :
    nonemptyList item xs ≠ some (.array []) := by
  intro h
  obtain ⟨l, hl, he⟩ := Option.map_eq_some_iff.mp h
  have hne := (Option.filter_eq_some_iff.mp hl).2
  simp_all

namespace Definition

variable (d : Definition)

lemma fields_value : ∀ f ∈ d.fields, f.2 ≠ some (.array []) := by
  simp only [fields, List.forall_mem_append]
  refine ⟨⟨?_, ?_⟩, ?_⟩
  · simp [truthyText_ne, nonemptyList_ne]
  · split_ifs
    · simp [workerFields, truthyText_ne, presentNumber_ne, truthyNumber_ne]
    · simp [jobFields, truthyText_ne, presentNumber_ne]
  · simp [truthyText_ne, presentNumber_ne, truthyNumber_ne, nonemptyList_ne]

lemma mem_written {fields : List (String × Option Toml.Value)} {s : Text × Toml.Value} (h : s ∈ written fields) :
    ∃ f ∈ fields, s.1 = text f.1 ∧ f.2 = some s.2 := by
  obtain ⟨f, hf, hs⟩ := List.mem_filterMap.mp h
  obtain ⟨value, hvalue, rfl⟩ := Option.map_eq_some_iff.mp hs
  exact ⟨f, hf, rfl, hvalue⟩

lemma settingLines_formed {settings : List (Text × Toml.Value)}
    (h : ∀ s ∈ settings, s.1 ≠ [] ∧ s.1.all Toml.isBare = true ∧ s.2 ≠ .array []) :
    ∀ l ∈ settingLines settings, l.Formed := by
  intro l hl
  obtain ⟨s, hs, rfl⟩ := List.mem_map.mp hl
  exact h s hs

lemma tableLines_formed {sub : Text} (hsub : sub = text "env" ∨ sub = text "secret_env" ∨ sub = text "labels")
    {bare : ℕ → Bool} (hbare : ∀ c, bare c = true → Toml.isBare c = true) (r : Option Record) :
    ∀ l ∈ d.tableLines sub bare r, l.Formed := by
  intro l hl
  rw [tableLines] at hl
  split_ifs at hl
  · exact nomatch hl
  · rcases List.mem_cons.mp hl with rfl | hl
    · trivial
    rcases List.mem_cons.mp hl with rfl | hl
    · exact ⟨d.header_cases, hsub⟩
    · obtain ⟨e, -, rfl⟩ := List.mem_map.mp hl
      exact hbare

lemma lines_formed : ∀ l ∈ d.lines, l.Formed := by
  have hword : ∀ c, isWordChar c = true → Toml.isBare c = true := by
    intro c hc
    simp only [isWordChar, Toml.isBare, Bool.or_eq_true] at hc ⊢
    tauto
  have hlabel : ∀ c, isLabelChar c = true → Toml.isBare c = true := by
    intro c hc
    simp only [isLabelChar, isWordChar, Toml.isBare, Bool.or_eq_true] at hc ⊢
    tauto
  have hfields : ∀ s ∈ written d.fields, s.1 ≠ [] ∧ s.1.all Toml.isBare = true ∧ s.2 ≠ .array [] := by
    intro s hs
    obtain ⟨f, hf, -, hvalue⟩ := mem_written hs
    obtain ⟨hne, hbare⟩ := fieldNames_bare d.kind s.1 (d.keys_sublist.subset (List.mem_map_of_mem hs))
    exact ⟨hne, hbare, fun h => d.fields_value f hf (hvalue.trans (congrArg some h))⟩
  have hfile : ∀ s ∈ d.envFileField, s.1 ≠ [] ∧ s.1.all Toml.isBare = true ∧ s.2 ≠ .array [] := by
    intro s hs
    obtain ⟨f, hf, hkey, hvalue⟩ := mem_written hs
    rw [List.mem_singleton] at hf
    subst hf
    rw [show s.1 = text "env_file" from hkey]
    exact ⟨by decide, by decide, fun h => truthyText_ne _ (hvalue.trans (congrArg some h))⟩
  simp only [lines, List.forall_mem_cons, List.forall_mem_append]
  exact ⟨d.header_cases, ⟨⟨⟨settingLines_formed hfields, d.tableLines_formed (.inl rfl) hword d.env⟩,
    d.tableLines_formed (.inr (.inl rfl)) hword d.secretEnv⟩, settingLines_formed hfile⟩,
    d.tableLines_formed (.inr (.inr rfl)) hlabel d.labels⟩

lemma tableLines_strings (sub : Text) (bare : ℕ → Bool) (r : Option Record) :
    (d.tableLines sub bare r).flatMap TomlLine.strings = (entriesOf r).flatMap fun e => [e.1, e.2] := by
  rw [tableLines]
  split_ifs with h
  · rw [h]
    rfl
  · rw [List.flatMap_cons, List.flatMap_cons, List.flatMap_map]
    rfl

lemma lines_strings : (∀ l ∈ d.lines, ∀ t ∈ l.strings, Readable t) ↔ ∀ t ∈ d.strings, Readable t := by
  have hsettings : ∀ settings, (settingLines settings).flatMap TomlLine.strings =
      settings.flatMap fun s => valueStrings s.2 := fun settings => List.flatMap_map _ _ _
  have hflat : (∀ l ∈ d.lines, ∀ t ∈ l.strings, Readable t) ↔
      ∀ t ∈ d.lines.flatMap TomlLine.strings, Readable t := by
    simp only [List.mem_flatMap, forall_exists_index, and_imp]
    exact ⟨fun h t l hl ht => h l hl t ht, fun h l hl t ht => h t l hl ht⟩
  rw [hflat]
  simp only [lines, List.flatMap_cons, List.flatMap_append, hsettings, tableLines_strings, strings,
    List.forall_mem_append]
  constructor
  · rintro ⟨-, ⟨⟨⟨hfields, henv⟩, hsecret⟩, hfile⟩, hlabels⟩
    exact ⟨⟨hfields, hfile⟩, ⟨henv, hsecret⟩, hlabels⟩
  · rintro ⟨⟨hfields, hfile⟩, ⟨henv, hsecret⟩, hlabels⟩
    exact ⟨fun _ h => absurd h List.not_mem_nil, ⟨⟨⟨hfields, henv⟩, hsecret⟩, hfile⟩, hlabels⟩

end Definition

/-! ## The document -/

structure Shape (header : Text) (subs : List Text) (doc : Toml.Doc) : Prop where
  tables : doc.tables = entryPath header :: subs.map (tablePath header)
  values : ∀ v ∈ doc.values, (∃ k, v.1 = entryPath header ++ [.key k] ∧ k ∉ tableNames) ∨
    ∃ sub ∈ subs, ∃ k, v.1 = tablePath header sub ++ [.key k]

lemma itemsOf_nodup (r : Option Record) : ((itemsOf r).map Prod.fst).Nodup := by
  rw [itemsOf, List.map_map]
  cases r with
  | none => exact List.nodup_nil
  | some r => exact r.nodup

lemma itemsOf_eq_nil (r : Option Record) : itemsOf r = [] ↔ entriesOf r = [] := List.map_eq_nil_iff

def addTable (doc : Toml.Doc) (path : Toml.Path) (items : List (Text × Toml.Value)) : Toml.Doc :=
  if items = [] then doc else (doc.openTable path).add items

namespace Shape

variable {header sub : Text} {subs : List Text} {doc : Toml.Doc} {d : Definition}

lemma resolve (h : Shape header subs doc) : doc.resolve [header] = entryPath header := by
  have hsize : doc.size [.key header] = 1 := by
    rw [Toml.Doc.size, h.tables, List.countP_cons]
    have hzero : (subs.map (tablePath header)).countP (Toml.Doc.isItemOf [.key header]) = 0 := by
      rw [List.countP_eq_zero]
      intro q hq
      obtain ⟨s, -, rfl⟩ := List.mem_map.mp hq
      simp [Toml.Doc.isItemOf, tablePath]
    rw [hzero]
    simp [Toml.Doc.isItemOf, entryPath]
  simp [Toml.Doc.resolve, Toml.Doc.enter, hsize, entryPath]

lemma size_tablePath (h : Shape header subs doc) (sub : Text) : doc.size (tablePath header sub) = 0 := by
  rw [Toml.Doc.size, h.tables, List.countP_eq_zero]
  intro q hq
  rcases List.mem_cons.mp hq with rfl | hq
  · simp [Toml.Doc.isItemOf, entryPath, tablePath]
  · obtain ⟨s, -, rfl⟩ := List.mem_map.mp hq
    simp [Toml.Doc.isItemOf, tablePath]

lemma not_blocked (h : Shape header subs doc) (hsub : sub ∈ tableNames) :
    ¬ doc.Blocked (tablePath header sub) := by
  rintro ⟨v, hv, hle⟩
  rcases h.values v hv with ⟨k, hk, hother⟩ | ⟨s, -, k, hk⟩
  · rw [hk] at hle
    have heq := hle.eq_of_length (by simp [tablePath])
    simp only [tablePath, List.append_cancel_left_eq, List.cons.injEq, Toml.Step.key.injEq, and_true] at heq
    exact hother (heq ▸ hsub)
  · rw [hk] at hle
    have := hle.length_le
    simp [tablePath] at this

lemma step_table (h : Shape header subs doc) (hsub : sub ∈ tableNames) (hnew : sub ∉ subs) :
    doc.step (.table [header] sub) = some (doc.openTable (tablePath header sub)) := by
  have hnotMem : tablePath header sub ∉ doc.tables := by
    rw [h.tables, List.mem_cons, not_or]
    refine ⟨by simp [tablePath], ?_⟩
    intro hmem
    obtain ⟨s, hs, heq⟩ := List.mem_map.mp hmem
    simp only [tablePath, List.append_cancel_left_eq, List.cons.injEq, Toml.Step.key.injEq, and_true] at heq
    exact hnew (heq ▸ hs)
  rw [Toml.Doc.step, h.resolve]
  change (if tablePath header sub ∈ doc.tables ∨ doc.size (tablePath header sub) ≠ 0 ∨
    doc.Blocked (tablePath header sub)
    then none else some (doc.openTable (tablePath header sub))) = _
  rw [if_neg]
  simp [hnotMem, h.size_tablePath, h.not_blocked hsub]

lemma openTable (h : Shape header subs doc) (sub : Text) :
    Shape header (subs ++ [sub]) (doc.openTable (tablePath header sub)) where
  tables := by simp [Toml.Doc.openTable, h.tables]
  values v hv := by
    rcases h.values v hv with hfield | ⟨s, hs, hitem⟩
    · exact .inl hfield
    · exact .inr ⟨s, List.mem_append_left _ hs, hitem⟩

lemma free (h : Shape header subs doc) (hsub : sub ∈ tableNames) (hnew : sub ∉ subs) (k : Text) :
    (doc.openTable (tablePath header sub)).Free k := by
  constructor
  · rintro ⟨q, hq, hle⟩
    rw [(h.openTable sub).tables] at hq
    have hlength : q.length ≤ 3 := by
      rcases List.mem_cons.mp hq with rfl | hq
      · exact Nat.le_succ 2
      · obtain ⟨s, -, rfl⟩ := List.mem_map.mp hq
        exact le_rfl
    have := hle.length_le
    simp [Toml.Doc.openTable, tablePath, entryPath] at this
    omega
  · rintro ⟨v, hv, hle⟩
    rcases h.values v hv with ⟨k', hk, hother⟩ | ⟨s, hs, k', hk⟩
    · simp only [hk, Toml.Doc.openTable, tablePath, List.append_assoc, List.prefix_append_right_inj,
        List.singleton_append, List.cons_prefix_cons, Toml.Step.key.injEq] at hle
      exact hother (hle.1 ▸ hsub)
    · simp only [hk, Toml.Doc.openTable, tablePath, List.append_assoc, List.prefix_append_right_inj,
        List.singleton_append, List.cons_prefix_cons, Toml.Step.key.injEq] at hle
      exact hnew (hle.1 ▸ hs)

lemma add (h : Shape header subs doc) {items : List (Text × Toml.Value)}
    (hcurrent : (doc.current = entryPath header ∧ ∀ e ∈ items, e.1 ∉ tableNames) ∨
      ∃ sub ∈ subs, doc.current = tablePath header sub) : Shape header subs (doc.add items) where
  tables := h.tables
  values v hv := by
    rcases List.mem_append.mp hv with hv | hv
    · exact h.values v hv
    obtain ⟨e, he, rfl⟩ := List.mem_map.mp hv
    rcases hcurrent with ⟨hentry, hother⟩ | ⟨sub, hsub, htable⟩
    · exact .inl ⟨e.1, by rw [hentry], hother e he⟩
    · exact .inr ⟨sub, hsub, e.1, by rw [htable]⟩

lemma run_tableLines (h : Shape d.header subs doc) (hsub : sub ∈ tableNames) (hnew : sub ∉ subs) (bare : ℕ → Bool)
    (r : Option Record) :
    doc.run ((d.tableLines sub bare r).map TomlLine.line) = some
      (addTable doc (tablePath d.header sub) (itemsOf r)) := by
  rw [Definition.tableLines, addTable]
  by_cases hr : entriesOf r = []
  · rw [if_pos hr, if_pos ((itemsOf_eq_nil r).mpr hr)]
    rfl
  · have hlines : ((entriesOf r).map fun e => TomlLine.item sub bare e.1 e.2).map TomlLine.line =
        (itemsOf r).map fun e => .entry e.1 e.2 := by
      rw [itemsOf, List.map_map, List.map_map]
      rfl
    rw [if_neg hr, if_neg (mt (itemsOf_eq_nil r).mp hr), List.map_cons, List.map_cons, hlines, Toml.Doc.run_cons]
    change doc.run (.table [d.header] sub :: _) = _
    rw [Toml.Doc.run_cons, h.step_table hsub hnew, Option.bind_some]
    exact Toml.Doc.run_entries (itemsOf_nodup r) fun e _ => h.free hsub hnew e.1

lemma addTable (h : Shape header subs doc) (sub : Text) (items : List (Text × Toml.Value)) :
    Shape header (if items = [] then subs else subs ++ [sub]) (addTable doc (tablePath header sub) items) := by
  rw [Web.addTable]
  split_ifs with hitems
  · exact h
  · exact (h.openTable sub).add (.inr ⟨sub, by simp, rfl⟩)

end Shape

lemma addTable_values (doc : Toml.Doc) (path : Toml.Path) (items : List (Text × Toml.Value)) :
    (addTable doc path items).values = doc.values ++ placed path items := by
  rw [addTable]
  split_ifs with h
  · rw [h, placed, List.map_nil, List.append_nil]
  · rfl

lemma addTable_tables (doc : Toml.Doc) (path : Toml.Path) (items : List (Text × Toml.Value)) :
    (addTable doc path items).tables = doc.tables ++ if items = [] then [] else [path] := by
  rw [addTable]
  split_ifs
  · rw [List.append_nil]
  · rfl

lemma addTable_current (doc : Toml.Doc) (path : Toml.Path) (items : List (Text × Toml.Value)) :
    (addTable doc path items).current = if items = [] then doc.current else path := by
  rw [addTable]
  split_ifs <;> rfl

namespace Definition

variable (d : Definition)

def fieldDoc : Toml.Doc :=
  Toml.Doc.add { current := entryPath d.header, tables := [entryPath d.header] } (written d.fields)

def envDoc : Toml.Doc :=
  addTable (addTable d.fieldDoc (tablePath d.header (text "env")) (itemsOf d.env))
    (tablePath d.header (text "secret_env")) (itemsOf d.secretEnv)

def tomlDoc : Toml.Doc :=
  addTable (d.envDoc.add d.envFileField) (tablePath d.header (text "labels")) (itemsOf d.labels)

lemma run_fields : Toml.Doc.run {} (.item [] d.header :: (written d.fields).map fun s => .entry s.1 s.2) =
    some d.fieldDoc := by
  have hstart : Toml.Doc.step {} (.item [] d.header) =
      some { current := entryPath d.header, tables := [entryPath d.header] } := rfl
  rw [Toml.Doc.run_cons, hstart, Option.bind_some]
  apply Toml.Doc.run_entries
  · exact d.keys_sublist.nodup (fieldNames_nodup d.kind)
  · intro s _
    constructor
    · rintro ⟨q, hq, hle⟩
      rw [List.mem_singleton.mp hq] at hle
      exact absurd hle.length_le (by simp)
    · rintro ⟨v, hv, -⟩
      exact nomatch hv

lemma fieldDoc_shape : Shape d.header [] d.fieldDoc := by
  refine Shape.add ⟨rfl, fun _ hv => (List.not_mem_nil hv).elim⟩ (.inl ⟨rfl, ?_⟩)
  intro s hs
  exact (fieldNames_other d.kind s.1 (d.keys_sublist.subset (List.mem_map_of_mem hs))).1

def envTables : List Text :=
  (if itemsOf d.env = [] then [] else [text "env"]) ++ if itemsOf d.secretEnv = [] then [] else [text "secret_env"]

lemma envDoc_shape : Shape d.header d.envTables d.envDoc := by
  have h :=
    (d.fieldDoc_shape.addTable (text "env") (itemsOf d.env)).addTable (text "secret_env") (itemsOf d.secretEnv)
  have hsubs : d.envTables = if itemsOf d.secretEnv = [] then if itemsOf d.env = [] then [] else [text "env"]
      else (if itemsOf d.env = [] then [] else [text "env"]) ++ [text "secret_env"] := by
    rw [envTables]
    split_ifs <;> rfl
  rw [hsubs]
  exact h

lemma envDoc_current :
    (d.envTables = [] ∧ d.envDoc.current = entryPath d.header) ∨
      ∃ sub ∈ d.envTables, d.envDoc.current = tablePath d.header sub := by
  rw [envDoc, addTable_current, addTable_current, envTables]
  split_ifs
  · exact .inl ⟨rfl, rfl⟩
  · exact .inr ⟨_, List.mem_singleton_self _, rfl⟩
  · exact .inr ⟨_, List.mem_singleton_self _, rfl⟩
  · exact .inr ⟨_, List.mem_append_right _ (List.mem_singleton_self _), rfl⟩

lemma mem_envFileField {s : Text × Toml.Value} (h : s ∈ d.envFileField) : s.1 = text "env_file" := by
  obtain ⟨f, hf, hkey, -⟩ := mem_written h
  rw [List.mem_singleton] at hf
  rw [hkey, hf]

lemma fileDoc_shape : Shape d.header d.envTables (d.envDoc.add d.envFileField) := by
  apply d.envDoc_shape.add
  rcases d.envDoc_current with ⟨-, hentry⟩ | htable
  · refine .inl ⟨hentry, fun s hs => ?_⟩
    rw [d.mem_envFileField hs]
    decide
  · exact .inr htable

lemma run_lines : Toml.Doc.run {} (d.lines.map TomlLine.line ++ [.blank]) =
    (d.envDoc.run (d.envFileField.map fun s => .entry s.1 s.2)).bind fun doc =>
      doc.run ((d.tableLines (text "labels") isLabelChar d.labels).map TomlLine.line ++ [.blank]) := by
  have hsettings : ∀ settings, (settingLines settings).map TomlLine.line =
      settings.map fun s => .entry s.1 s.2 := fun settings => List.map_map ..
  have henv :=
    d.fieldDoc_shape.run_tableLines (show text "env" ∈ tableNames by decide) List.not_mem_nil isWordChar d.env
  have hsecret := (d.fieldDoc_shape.addTable (text "env") (itemsOf d.env)).run_tableLines
    (show text "secret_env" ∈ tableNames by decide) (by split_ifs <;> decide) isWordChar d.secretEnv
  have hlines : d.lines.map TomlLine.line ++ [.blank] =
      (.item [] d.header :: (written d.fields).map fun s => .entry s.1 s.2) ++
        ((d.tableLines (text "env") isWordChar d.env).map TomlLine.line ++
          ((d.tableLines (text "secret_env") isWordChar d.secretEnv).map TomlLine.line ++
            ((d.envFileField.map fun s => .entry s.1 s.2) ++
              ((d.tableLines (text "labels") isLabelChar d.labels).map TomlLine.line ++ [.blank])))) := by
    simp only [lines, List.map_cons, List.map_append, hsettings, List.append_assoc, List.cons_append]
    rfl
  rw [hlines, Toml.Doc.run_append, d.run_fields, Option.bind_some, Toml.Doc.run_append, henv, Option.bind_some,
    Toml.Doc.run_append, hsecret, Option.bind_some, Toml.Doc.run_append]
  rfl

lemma run_labels : (d.envDoc.add d.envFileField).run
    ((d.tableLines (text "labels") isLabelChar d.labels).map TomlLine.line ++ [.blank]) = some d.tomlDoc := by
  have hnew : text "labels" ∉ d.envTables := by
    rw [envTables]
    split_ifs <;> decide
  rw [Toml.Doc.run_append, d.fileDoc_shape.run_tableLines (by decide) hnew]
  rfl

lemma run_eq {doc : Toml.Doc} (h : Toml.Doc.run {} (d.lines.map TomlLine.line ++ [.blank]) = some doc) :
    doc = d.tomlDoc := by
  rw [run_lines] at h
  obtain ⟨doc', hfile, h⟩ := Option.bind_eq_some_iff.mp h
  rw [Toml.Doc.run_entries_eq hfile, run_labels] at h
  exact (Option.some.inj h).symm

lemma run_of_free (h : ∀ s ∈ d.envFileField, d.envDoc.Free s.1) :
    Toml.Doc.run {} (d.lines.map TomlLine.line ++ [.blank]) = some d.tomlDoc := by
  have hnodup : (d.envFileField.map Prod.fst).Nodup := (written_sublist _).nodup (List.nodup_singleton _)
  rw [run_lines, Toml.Doc.run_entries hnodup h, Option.bind_some, run_labels]

end Definition

/-! ## The meaning -/

section

variable {header sub : Text} {items : List (Text × Toml.Value)}

lemma placed_append (path : Toml.Path) (settings settings' : List (Text × Toml.Value)) :
    placed path (settings ++ settings') = placed path settings ++ placed path settings' := List.map_append

lemma mem_placed_entry {k : Text} {v : Toml.Value}
    (h : (entryPath header ++ [.key k], v) ∈ placed (entryPath header) items) : (k, v) ∈ items := by
  obtain ⟨s, hs, heq⟩ := List.mem_map.mp h
  simp only [Prod.mk.injEq, List.append_cancel_left_eq, List.cons.injEq, Toml.Step.key.injEq, and_true] at heq
  obtain ⟨rfl, rfl⟩ := heq
  exact hs

lemma notMem_placed_table (k : Text) (v : Toml.Value) :
    (entryPath header ++ [.key k], v) ∉ placed (tablePath header sub) items := by
  intro h
  obtain ⟨s, -, heq⟩ := List.mem_map.mp h
  have hlength := congrArg (fun p => p.1.length) heq
  simp [tablePath] at hlength

end

namespace Definition

variable (d : Definition)

lemma tomlDoc_values : d.tomlDoc.values =
    placed (entryPath d.header) (written d.fields) ++ placed (tablePath d.header (text "env")) (itemsOf d.env) ++
      placed (tablePath d.header (text "secret_env")) (itemsOf d.secretEnv) ++
      placed d.envDoc.current d.envFileField ++ placed (tablePath d.header (text "labels"))
      (itemsOf d.labels) := by
  have henv : d.envDoc.values = placed (entryPath d.header) (written d.fields) ++
      placed (tablePath d.header (text "env")) (itemsOf d.env) ++
      placed (tablePath d.header (text "secret_env")) (itemsOf d.secretEnv) := by
    rw [envDoc, addTable_values, addTable_values]
    rfl
  rw [tomlDoc, addTable_values, ← henv]
  rfl

lemma tomlDoc_tables : d.tomlDoc.tables = d.tables := by
  have henv : d.envDoc.tables = entryPath d.header :: d.envTables.map (tablePath d.header) := d.envDoc_shape.tables
  rw [tomlDoc, addTable_tables, Toml.Doc.add, henv, envTables, tables]
  simp only [itemsOf_eq_nil, List.filter_cons, List.filter_nil]
  split_ifs <;> simp_all

lemma notMem_fields (v : Toml.Value) : (text "env_file", v) ∉ written d.fields := fun h =>
  (fieldNames_other d.kind _ (d.keys_sublist.subset (List.mem_map_of_mem h))).2 rfl

lemma notMem_tomlDoc {sub : Text} (hcurrent : d.envDoc.current = tablePath d.header sub) (v : Toml.Value) :
    (entryPath d.header ++ [.key (text "env_file")], v) ∉ d.tomlDoc.values := by
  rw [tomlDoc_values, hcurrent]
  simp only [List.mem_append, notMem_placed_table, or_false]
  exact fun h => d.notMem_fields v (mem_placed_entry h)

lemma fits_of_means (h : d.Means) : d.Fits := by
  obtain ⟨doc, hread, -, hvalues⟩ := h
  rw [read_text d.lines_formed] at hread
  obtain ⟨hstrings, hrun⟩ := Option.ite_none_right_eq_some.mp hread
  rw [d.run_eq hrun] at hvalues
  refine ⟨?_, d.lines_strings.mp hstrings⟩
  rcases d.envDoc_current with ⟨hnone, -⟩ | ⟨sub, -, hcurrent⟩
  · rw [envTables, List.append_eq_nil_iff] at hnone
    exact .inr (by simpa [itemsOf_eq_nil] using hnone)
  · refine .inl (List.eq_nil_iff_forall_not_mem.mpr fun s hs => d.notMem_tomlDoc hcurrent s.2 ((hvalues _).mpr ?_))
    rw [settings, placed_append, ← d.mem_envFileField hs]
    simp only [List.mem_append]
    exact .inl (.inl (.inl (.inr (List.mem_map_of_mem hs))))

lemma envDoc_of_nil (henv : entriesOf d.env = []) (hsecret : entriesOf d.secretEnv = []) :
    d.envDoc = d.fieldDoc := by
  rw [envDoc, addTable, if_pos ((itemsOf_eq_nil _).mpr hsecret), addTable, if_pos ((itemsOf_eq_nil _).mpr henv)]

lemma fieldDoc_free : d.fieldDoc.Free (text "env_file") := by
  constructor
  · rintro ⟨q, hq, hle⟩
    rw [List.mem_singleton.mp hq] at hle
    exact absurd hle.length_le (by simp [fieldDoc, Toml.Doc.add])
  · rintro ⟨v, hv, hle⟩
    obtain ⟨s, hs, rfl⟩ := List.mem_map.mp hv
    have heq := hle.eq_of_length (by simp [fieldDoc, Toml.Doc.add])
    simp only [fieldDoc, Toml.Doc.add, List.append_cancel_left_eq, List.cons.injEq, Toml.Step.key.injEq,
      and_true] at heq
    exact d.notMem_fields s.2 (heq ▸ hs)

lemma means_of_fits (h : d.Fits) : d.Means := by
  obtain ⟨hfile, hstrings⟩ := h
  have hfree : ∀ s ∈ d.envFileField, d.envDoc.Free s.1 := by
    intro s hs
    rcases hfile with hnone | ⟨henv, hsecret⟩
    · exact (List.not_mem_nil (hnone ▸ hs)).elim
    · rw [d.envDoc_of_nil henv hsecret, d.mem_envFileField hs]
      exact d.fieldDoc_free
  have hplaced : placed d.envDoc.current d.envFileField = placed (entryPath d.header) d.envFileField := by
    rcases hfile with hnone | ⟨henv, hsecret⟩
    · rw [hnone]
      rfl
    · rw [d.envDoc_of_nil henv hsecret]
      rfl
  refine ⟨d.tomlDoc, ?_, d.tomlDoc_tables, ?_⟩
  · rw [read_text d.lines_formed, if_pos (d.lines_strings.mpr hstrings), d.run_of_free hfree]
  · intro setting
    rw [tomlDoc_values, hplaced, settings, placed_append]
    simp only [List.mem_append]
    constructor
    · rintro ((((h | h) | h) | h) | h) <;> simp only [h, true_or, or_true]
    · rintro ((((h | h) | h) | h) | h) <;> simp only [h, true_or, or_true]

end Definition

/-- The text means a definition exactly if it has no file of environment variables beside variables, and its
strings have only line feeds and what TOML allows in a string, so no other control characters but tabs. -/
theorem definitionToToml_means_iff (d : Definition) : d.Means ↔ d.Fits := ⟨d.fits_of_means, d.means_of_fits⟩

theorem definitionToToml_not_means :
    ∃ d : Definition, d.envFile = some (text "/f") ∧ ¬ d.Means ∧
      (Toml.read (definitionToToml d).text).map Toml.Doc.values = some
        [([.key (text "job"), .item 0, .key (text "name")], .scalar (.str (text "j"))),
          ([.key (text "job"), .item 0, .key (text "env"), .key (text "A")], .scalar (.str (text "1"))),
          ([.key (text "job"), .item 0, .key (text "env"), .key (text "env_file")],
          .scalar (.str (text "/f")))] := by
  refine ⟨{ name := text "j", kind := .job,
            env := some { entries := [(text "A", text "1")] }, envFile := some (text "/f") },
    rfl, fun h => ?_, by decide +kernel⟩
  rcases (Definition.fits_of_means _ h).1 with hfile | ⟨henv, -⟩
  · exact absurd hfile (by decide)
  · exact absurd henv (by decide)

end Minicrond.Web
