import Minicrond.Store.Revisions

/-! The channels that definitions name exist: no operation on the registry leaves a reference behind, so the check
of the references at boot succeeds. -/

namespace Minicrond.Daemon

open Minicrond.Store

def validateAlertReferences (defs : List Definition) (channels : List String) : Except String Unit :=
  defs.forM fun d => d.alerts.forM fun name =>
    if channels.contains name then pure () else throw (d.name ++ ".alerts: unknown channel " ++ name.quote)

end Minicrond.Daemon

namespace Minicrond.Store

open Minicrond.Library Transaction Registry

def Registry.storedDefinitions (r : Registry) : List Definition :=
  r.live.map fun row =>
    { row.spec with
      id := row.definitionID, revision := row.revision, source := row.source, enabled := some row.enabled }

def References (r : Registry) : Prop :=
  ∀ x ∈ r.definitions, x.deletedUs = none → ∀ a ∈ x.spec.alerts, a ∈ r.channels

section

variable {specHash : Definition → String} {op : RegistryOp} {ops : List RegistryOp} {r r' : Registry}
    {defs : List Definition} {nowUs : ℤ}

lemma Registry.Change.references {owner : Source} (h : Change specHash owner r r') (hr : References r) :
    References r' := by
  intro y hy hlive a ha
  cases h with
  | create x v hid hname hrev hv hhash hsource halerts h =>
    subst h
    rcases List.mem_append.mp hy with hy | hy
    · exact hr y hy hlive a ha
    · obtain rfl := List.mem_singleton.mp hy
      exact halerts a ha
  | revise x x' v hx hid hname hrev hv hhash hsource halerts h =>
    subst h
    rcases mem_revised.mp hy with ⟨rfl, _⟩ | ⟨hy, _⟩
    · rcases halerts a ha with ha | ⟨hxlive, ha⟩
      · exact ha
      · exact hr x hx hxlive a ha
    · exact hr y hy hlive a ha
  | delete name nowUs hsource h =>
    subst h
    obtain ⟨x, hx, rfl⟩ := mem_updateWhere.mp hy
    split_ifs at hlive ha
    · simp [DefinitionRow.removed] at hlive
    · exact hr x hx hlive a ha
  | prune h =>
    obtain rfl := pruneRevisions_ok h
    exact hr y hy hlive a ha
  | addChannel name h =>
    subst h
    exact List.mem_append_left _ (hr y hy hlive a ha)
  | dropChannel name hfree h =>
    subst h
    refine mem_deleteWhere.mpr ⟨hr y hy hlive a ha, ?_⟩
    simp only [decide_eq_false_iff_not]
    rintro rfl
    exact hfree y hy hlive ha

lemma RegistryStep.references (hr : Sound specHash r) (href : References r) (h : RegistryStep specHash r op r') :
    References r' := by
  obtain ⟨-, hpath⟩ := h.changes hr
  clear h
  induction hpath with
  | refl => exact href
  | tail _ hchange ih => exact hchange.references ih

lemma references_run (h : Library.Run (RegistryStep specHash) r ops r') (hr : Sound specHash r)
    (href : References r) : References r' :=
  (h.invariant (P := fun r => Sound specHash r ∧ References r)
    (fun _ _ _ hstep h => ⟨(hstep.changes h.1).sound, hstep.references h.1 h.2⟩) ⟨hr, href⟩).2

lemma forM_ok {α ε : Type} {f : α → Except ε PUnit} {xs : List α} (h : ∀ x ∈ xs, f x = .ok ⟨⟩) :
    xs.forM f = .ok ⟨⟩ := by
  induction xs with
  | nil => rfl
  | cons x xs ih =>
    obtain ⟨hx, hxs⟩ := List.forall_mem_cons.mp h
    rw [List.forM, hx]
    exact ih hxs

lemma validateAlertReferences_ok {channels : List String}
    (h : ∀ d ∈ defs, ∀ a ∈ d.alerts, a ∈ channels) : Daemon.validateAlertReferences defs channels = .ok () :=
  forM_ok fun d hd => forM_ok fun a ha => if_pos (by simpa using h d hd a ha)

lemma References.storedDefinitions (h : References r) :
    ∀ d ∈ r.storedDefinitions, ∀ a ∈ d.alerts, a ∈ r.channels := by
  intro d hd a ha
  obtain ⟨x, hx, rfl⟩ := List.mem_map.mp hd
  obtain ⟨hx, hlive⟩ := mem_live.mp hx
  exact h x hx hlive a ha

def Mirrored (defs : List Definition) (rows : List DefinitionRow) : Prop :=
  ∀ d ∈ defs, ∃ x ∈ rows, x.name = d.name ∧ x.source = .config ∧ x.deletedUs = none ∧ x.spec.alerts = d.alerts

lemma Registry.Change.config_row {x : DefinitionRow} (h : Change specHash .api r r') (hr : Sound specHash r)
    (hx : x ∈ r.definitions) (hconfig : x.source = .config) : x ∈ r'.definitions := by
  cases h with
  | create y v hid hname hrev hv hhash hsource halerts h => exact h ▸ List.mem_append_left _ hx
  | revise y y' v hy hid hname hrev hv hhash hsource halerts h =>
    subst h
    refine mem_revised.mpr (.inr ⟨hx, fun he => ?_⟩)
    obtain rfl := hr.row_unique hx hy he
    simp [hconfig] at hsource
  | delete name nowUs hsource h =>
    subst h
    refine mem_updateWhere.mpr ⟨x, hx, if_neg fun hname => ?_⟩
    have := hsource x hx (by simpa using hname)
    simp [hconfig] at this
  | prune h => exact (pruneRevisions_ok h) ▸ hx
  | addChannel name h | dropChannel name hfree h => exact h ▸ hx

lemma Registry.From.config_row {x : DefinitionRow} (h : From specHash .api r r') (hr : Sound specHash r)
    (hx : x ∈ r.definitions) (hconfig : x.source = .config) : x ∈ r'.definitions := by
  obtain ⟨-, hpath⟩ := h
  induction hpath using Relation.ReflTransGen.head_induction_on with
  | refl => exact hx
  | head hchange _ ih => exact ih (hchange.sound hr) (hchange.config_row hr hx hconfig)

lemma mirrored_run (h : Library.Run (RegistryStep specHash) r ops r') (hr : Sound specHash r)
    (hapi : ∀ op ∈ ops, op.owner = .api) (hdefs : Mirrored defs r.definitions) : Mirrored defs r'.definitions := by
  induction h with
  | nil => exact hdefs
  | cons hstep _ ih =>
    obtain ⟨hop, hops⟩ := List.forall_mem_cons.mp hapi
    have hfrom := hstep.changes hr
    rw [hop] at hfrom
    refine ih hfrom.sound hops fun d hd => ?_
    obtain ⟨x, hx, hname, hconfig, hrest⟩ := hdefs d hd
    exact ⟨x, hfrom.config_row hr hx hconfig, hname, hconfig, hrest⟩

lemma mirrored_writeDefinition {d : Definition} {ds : List Definition} {actor : String}
    {found : Option DefinitionRow} (hds : ∀ d' ∈ ds, d'.name ≠ d.name)
    (hsource : ∀ x, found = some x → x.source = .config) :
    Triple (fun t => t.byName d.name = found ∧ Sound specHash t ∧ Mirrored ds t.definitions)
      (writeDefinition specHash d .config actor nowUs found) (fun _ t => Mirrored (d :: ds) t.definitions)
      fun _ => True := by
  cases found with
  | none =>
    refine .bind .get fun t => .bind (.set ?_) fun _ => .bind (definitions_insertRevision _) fun _ =>
      .pure fun _ h => h
    rintro _ ⟨rfl, _, _, hmirrored⟩
    refine List.forall_mem_cons.mpr ⟨⟨_, List.mem_append_right _ (List.mem_singleton_self _), rfl, rfl, rfl, rfl⟩,
      ?_⟩
    intro d' hd'
    obtain ⟨y, hy, h⟩ := hmirrored d' hd'
    exact ⟨y, List.mem_append_left _ hy, h⟩
  | some x =>
    refine .bind (.modify ?_) fun _ => .bind (definitions_insertRevision _) fun _ => .pure fun _ h => h
    rintro t ⟨hfound, ht, hmirrored⟩
    obtain ⟨hx, hname⟩ := byName_eq_some hfound
    refine List.forall_mem_cons.mpr ⟨⟨_, mem_updateWhere.mpr ⟨x, hx, if_pos (by simp)⟩, hname, hsource x rfl, rfl,
      rfl⟩, ?_⟩
    intro d' hd'
    obtain ⟨y, hy, hyname, h⟩ := hmirrored d' hd'
    refine ⟨y, mem_updateWhere.mpr ⟨y, hy, if_neg fun he => ?_⟩, hyname, h⟩
    obtain rfl := ht.row_unique hy hx (by simpa using he)
    exact hds d' hd' (hyname.symm.trans hname)

lemma mirrored_syncConfigDefinition {d : Definition} {ds : List Definition}
    (hinj : Function.Injective specHash) (hds : ∀ d' ∈ ds, d'.name ≠ d.name) :
    Triple (fun t => Sound specHash t ∧ Mirrored ds t.definitions) (syncConfigDefinition specHash nowUs d)
      (fun _ t => Mirrored (d :: ds) t.definitions) fun _ => True := by
  refine .bind (triple_validateAlerts fun _ => trivial) fun _ => .bind .get fun t => ?_
  cases hfound : t.byName d.name with
  | none =>
    refine .bind (.pre (mirrored_writeDefinition hds (by simp)) ?_) fun _ => .pure fun _ h => h
    rintro _ ⟨rfl, h, _⟩
    exact ⟨hfound, h⟩
  | some x =>
    refine .bind (.refuse trivial) fun _ => .assume fun hsource => .ite (fun hsame => .pure ?_) fun _ =>
      .bind (.pre (mirrored_writeDefinition hds ?_) ?_) fun _ => .pure fun _ h => h
    · rintro _ ⟨rfl, ⟨ht, hmirrored⟩, _⟩
      obtain ⟨hx, hname⟩ := byName_eq_some hfound
      simp only [Bool.and_eq_true, decide_eq_true_eq, Option.isNone_iff_eq_none] at hsame
      rw [ht.hashes x hx] at hsame
      refine List.forall_mem_cons.mpr ⟨⟨x, hx, hname, by simpa using hsource, hsame.2, ?_⟩, hmirrored⟩
      rw [hinj hsame.1]
      rfl
    · rintro _ ⟨⟩
      simpa using hsource
    · rintro _ ⟨rfl, h, _⟩
      exact ⟨hfound, h⟩

lemma mirrored_removeByName {name : String} (hname : name ∉ defs.map (·.name)) :
    Triple (fun t => Mirrored defs t.definitions) (removeByName nowUs name)
      (fun _ t => Mirrored defs t.definitions) fun _ => True := by
  refine .modify fun t h d hd => ?_
  obtain ⟨x, hx, hxname, hrest⟩ := h d hd
  refine ⟨x, mem_updateWhere.mpr ⟨x, hx, if_neg fun he => hname ?_⟩, hxname, hrest⟩
  exact List.mem_map.mpr ⟨d, hd, by simpa [hxname] using he⟩

lemma mirrored_syncConfigDefinitions (hinj : Function.Injective specHash) (hdefs : (defs.map (·.name)).Nodup) :
    Triple (From specHash .config r) (syncConfigDefinitions specHash defs nowUs)
      (fun _ t => Mirrored defs t.definitions) fun _ => True := by
  -- the rows mirror the definitions that the loop has passed
  refine .bind (Q := fun _ t => Mirrored defs t.definitions) (.post (.pre (.forM (I := fun rest t =>
      rest ⊆ defs ∧ From specHash .config r t ∧ Mirrored (defs.filter (· ∉ rest)) t.definitions)
    (fun d rest => .assume fun hrest => ?_) defs) ?_) ?_) fun _ => .bind .get fun t => ?_
  · obtain ⟨hd, hrest⟩ := List.cons_subset.mp hrest
    have hds : ∀ d' ∈ defs.filter (· ∉ d :: rest), d'.name ≠ d.name := by
      intro d' hd' he
      obtain ⟨hd', hnew⟩ := List.mem_filter.mp hd'
      rw [List.inj_on_of_nodup_map hdefs hd' hd he] at hnew
      simp at hnew
    refine .post ((Triple.pre triple_syncConfigDefinition fun _ h => h.1).and
      (.pre (mirrored_syncConfigDefinition hinj hds) fun _ h => ⟨h.1.sound, h.2⟩)) ?_
    rintro _ t ⟨ht, h⟩
    refine ⟨hrest, ht, fun e he => h e ?_⟩
    obtain ⟨he, hnew⟩ := List.mem_filter.mp he
    by_cases hed : e = d
    · exact hed ▸ List.mem_cons_self
    · exact List.mem_cons_of_mem _ (List.mem_filter.mpr ⟨he, by simpa [hed] using hnew⟩)
  · exact fun t ht => ⟨List.Subset.refl _, ht, by simp [Mirrored]⟩
  · rintro _ t ⟨_, _, h⟩
    simpa using h
  · refine .post (.pre (.forM (I := fun names t => (∀ name ∈ names, name ∉ defs.map (·.name)) ∧
        Mirrored defs t.definitions) (fun name names => .assume fun hnames => ?_) _) ?_) fun _ _ h => h.2
    · obtain ⟨hname, hnames⟩ := List.forall_mem_cons.mp hnames
      exact .post (mirrored_removeByName hname) fun _ _ h => ⟨hnames, h⟩
    · rintro _ ⟨rfl, h⟩
      exact ⟨fun name hname => by simpa using (List.mem_filter.mp hname).2, h⟩

lemma Mirrored.references {defs : List Definition} (h : Mirrored defs r.definitions) (hr : References r) :
    ∀ d ∈ defs, ∀ a ∈ d.alerts, a ∈ r.channels := by
  intro d hd a ha
  obtain ⟨x, hx, _, _, hlive, halerts⟩ := h d hd
  exact hr x hx hlive a (halerts ▸ ha)

theorem alert_references_exist (hr : Sound specHash r) (href : References r)
    (h : Library.Run (RegistryStep specHash) r ops r') :
    References r' ∧
    Daemon.validateAlertReferences r'.storedDefinitions r'.channels = .ok () ∧
    ∀ defs nowUs r₁ ops' r₂, Function.Injective specHash → (defs.map (·.name)).Nodup →
      ((RegistryOp.sync defs nowUs).tx specHash).Commits r' r₁ →
      Library.Run (RegistryStep specHash) r₁ ops' r₂ → (∀ op ∈ ops', op.owner = .api) →
      Daemon.validateAlertReferences defs r₂.channels = .ok () := by
  have href' := references_run h hr href
  refine ⟨href', validateAlertReferences_ok href'.storedDefinitions, ?_⟩
  intro defs nowUs r₁ ops' r₂ hinj hdefs hsync hrun hapi
  have hr' := sound_run h hr
  have hr₁ := (from_commits hr' hsync).sound
  have href₁ := RegistryStep.references hr' href' (.inr hsync)
  have hmirrored : Mirrored defs r₁.definitions := by
    obtain ⟨a, hsync⟩ := hsync
    exact (mirrored_syncConfigDefinitions hinj hdefs r' ⟨hr', .refl⟩).1 a r₁ hsync
  exact validateAlertReferences_ok ((mirrored_run hrun hr₁ hapi hmirrored).references
    (references_run hrun hr₁ href₁))

end

def report : Definition := ⟨0, "report", .job, 0, .api, none, ["ops"], "hourly"⟩

theorem alert_references_exist_report :
    Daemon.validateAlertReferences (Registry.storedDefinitions
      ⟨[⟨1, "report", .job, report, "hourly", 1, true, .api, 0, 0, none⟩],
        [⟨1, 1, report, "hourly", "api", 0⟩], ["ops"]⟩) ["ops"] = .ok () :=
  (@alert_references_exist (·.settings)
    [.putChannel "ops" true, .put report 0 "api" false 0, .deleteChannel "ops" false "api" 1] empty _ sound_empty
    (by simp [References, empty])
    (.cons (t := ⟨[], [], ["ops"]⟩) (.inr ⟨(), by decide +kernel⟩) <|
      .cons (t := ⟨[⟨1, "report", .job, report, "hourly", 1, true, .api, 0, 0, none⟩],
        [⟨1, 1, report, "hourly", "api", 0⟩], ["ops"]⟩) (.inr ⟨(), by decide +kernel⟩) <|
      .cons (.inl rfl) <| .nil _)).2.1

end Minicrond.Store
