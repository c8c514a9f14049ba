import Minicrond.Store.Changes

/-! Every operation on the registry is a sequence of changes of single definitions. So definitions and their
revision history stay in step, and of several puts that expect the same revision only one succeeds. -/

namespace Minicrond.Store

open Minicrond.Library Transaction

namespace Registry

/-! ## Operations are sequences of changes -/

structure From (specHash : Definition → String) (owner : Source) (r t : Registry) : Prop where
  sound : Sound specHash t
  path : Relation.ReflTransGen (Change specHash owner) r t

section

variable {specHash : Definition → String} {owner : Source} {r t : Registry} {d : Definition} {x : DefinitionRow}
  {nowUs : ℤ} {name : String} {actor : String} {v : RevisionRow}

lemma From.change {t' : Registry} (ht : From specHash owner r t) (h : Change specHash owner t t') :
    From specHash owner r t' :=
  ⟨h.sound ht.sound, ht.path.tail h⟩

lemma insertRevision_eq (h : ∀ w ∈ t.revisions, w.definitionID = v.definitionID → w.revision ≠ v.revision) :
    insertRevision v t = .ok ((), { t with revisions := t.revisions ++ [v] }) := by
  have hany : (t.revisions.any fun w => w.definitionID = v.definitionID && w.revision = v.revision) = false := by
    rw [List.any_eq_false]
    intro w hw
    simpa using h w hw
  rw [insertRevision, bind_of_ok (a := t) (t := t) (by rw [get_ok]; exact ⟨rfl, rfl⟩), hany]
  rfl

lemma byName_eq_some (h : t.byName name = some x) : x ∈ t.definitions ∧ x.name = name :=
  ⟨List.mem_of_find?_eq_some h, by simpa using List.find?_some h⟩

lemma byName_eq_none (h : t.byName name = none) : ∀ y ∈ t.definitions, y.name ≠ name := by
  simpa [byName] using h

lemma byName_mem (ht : Sound specHash t) (hx : x ∈ t.definitions) : t.byName x.name = some x := by
  cases hfound : t.byName x.name with
  | none => exact (byName_eq_none hfound x hx rfl).elim
  | some y =>
    obtain ⟨hy, hname⟩ := byName_eq_some hfound
    rw [List.inj_on_of_nodup_map ht.names hy hx hname]

lemma lt_nextID (hx : x ∈ t.definitions) : x.definitionID < t.nextID := by
  rw [nextID]
  generalize t.definitions = rows at hx
  induction rows with
  | nil => simp at hx
  | cons y rows ih =>
    simp only [List.map_cons, List.foldr_cons]
    rcases List.mem_cons.mp hx with rfl | hx
    · omega
    · have := ih hx
      omega

lemma triple_insertRevision {Q : Registry → Prop} {E : StoreError → Prop} :
    Triple (fun t => (∀ w ∈ t.revisions, w.definitionID = v.definitionID → w.revision ≠ v.revision) ∧
        Q { t with revisions := t.revisions ++ [v] }) (insertRevision v) (fun _ => Q) E :=
  .of_eq (fun _ h => insertRevision_eq h.1) fun _ h => h.2

lemma liveByName_eq_some (h : t.liveByName name = some x) :
    x ∈ t.definitions ∧ x.name = name ∧ x.deletedUs = none := by
  refine ⟨List.mem_of_find?_eq_some h, ?_⟩
  simpa using List.find?_some h

lemma updateWhere_row (hr : Sound specHash r) (hx : x ∈ r.definitions) (f : DefinitionRow → DefinitionRow) :
    updateWhere (·.definitionID = x.definitionID) f r.definitions =
      updateWhere (·.definitionID = x.definitionID) (fun _ => f x) r.definitions := by
  apply updateWhere_congr
  intro y hy h
  rw [hr.row_unique hy hx (by simpa using h)]

lemma From.revise {f : DefinitionRow → DefinitionRow} (ht : From specHash owner r t)
    (hx : x ∈ t.definitions) (hid : (f x).definitionID = x.definitionID) (hname : (f x).name = x.name)
    (hrev : (f x).revision = x.revision + 1) (hv : v.Records (f x)) (hhash : (f x).specHash = specHash (f x).spec)
    (hsource : x.source = owner)
    (halerts : ∀ a ∈ (f x).spec.alerts, a ∈ t.channels ∨ x.deletedUs = none ∧ a ∈ x.spec.alerts) :
    (∀ w ∈ t.revisions, w.definitionID = v.definitionID → w.revision ≠ v.revision) ∧
      From specHash owner r { t with
        definitions := updateWhere (·.definitionID = x.definitionID) f t.definitions
        revisions := t.revisions ++ [v] } := by
  refine ⟨fun w hw h => ?_, ht.change (.revise x (f x) v hx hid hname hrev hv hhash hsource halerts ?_)⟩
  · rw [hv.2.1, hrev]
    exact ht.sound.fresh_key hx hw (h.trans (hv.1.trans hid))
  · rw [updateWhere_row ht.sound hx]

lemma triple_writeDefinition {found : Option DefinitionRow} (hsource : ∀ x, found = some x → x.source = owner) :
    Triple (fun t => t.byName d.name = found ∧ From specHash owner r t ∧ ∀ a ∈ d.alerts, a ∈ t.channels)
      (writeDefinition specHash d owner actor nowUs found) (fun _ => From specHash owner r) (· ≠ .constraint) := by
  cases found with
  | none =>
    refine .bind .get fun t => .bind (.set ?_) fun _ => .bind triple_insertRevision fun _ => .pure fun _ h => h
    rintro _ ⟨rfl, hfound, ht, halerts⟩
    have hid : ∀ y ∈ t.definitions, y.definitionID ≠ t.nextID := fun y hy => (lt_nextID hy).ne
    refine ⟨fun w hw h => ?_,
      ht.change (.create _ _ hid (byName_eq_none hfound) rfl ⟨rfl, rfl, rfl, rfl⟩ rfl rfl halerts rfl)⟩
    obtain ⟨z, hz, hzw⟩ := ht.sound.owned w hw
    exact (hid z hz (hzw.trans h)).elim
  | some x =>
    refine .bind (.modify ?_) fun _ => .bind triple_insertRevision fun _ => .pure fun _ h => h
    rintro t ⟨hfound, ht, halerts⟩
    exact ht.revise (byName_eq_some hfound).1 rfl rfl rfl ⟨rfl, rfl, rfl, rfl⟩ rfl (hsource x rfl)
      fun a ha => .inl (halerts a ha)

lemma triple_validateAlerts {P : Registry → Prop} {E : StoreError → Prop} {seen names : List String}
    (hE : ∀ detail, E (.unknownAlertChannel detail)) :
    Triple P (validateAlerts d seen names) (fun _ t => P t ∧ ∀ a ∈ names, a ∈ t.channels) E := by
  induction names generalizing seen P with
  | nil => exact .pure fun _ h => ⟨h, by simp⟩
  | cons name names ih =>
    refine .bind (.refuse (hE _)) fun _ => .bind .get fun t => .bind (.refuse (hE _)) fun _ => ?_
    refine .post ih fun _ u h => ?_
    obtain ⟨⟨hc, rfl, _, hP⟩, hnames⟩ := h
    exact ⟨hP, List.forall_mem_cons.mpr ⟨by simpa using hc, hnames⟩⟩

lemma source_of_refuse (h : decide (x.source = .config) = false) : x.source = .api := by
  cases hx : x.source with
  | api => rfl
  | config => simp [hx] at h

lemma triple_putDefinition {expected : ℕ} {createOnly : Bool} :
    Triple (From specHash .api r) (putDefinition specHash d expected actor createOnly nowUs)
      (fun _ => From specHash .api r) (· ≠ .constraint) := by
  refine .bind (triple_validateAlerts (by simp)) fun _ => .bind .get fun t => ?_
  have hwrite : ∀ found, (∀ x, found = some x → x.source = .api) →
      Triple (fun u => u.byName d.name = found ∧ From specHash .api r u ∧ ∀ a ∈ d.alerts, a ∈ u.channels)
        (do
          let written ← writeDefinition specHash d .api actor nowUs found
          return { d with source := .api, id := written.1, revision := written.2 })
        (fun _ => From specHash .api r) (· ≠ .constraint) := fun found hsource =>
    .bind (triple_writeDefinition hsource) fun _ => .pure fun _ h => h
  cases hfound : t.byName d.name with
  | none =>
    refine .pre (hwrite none (by simp)) ?_
    rintro _ ⟨rfl, h⟩
    exact ⟨hfound, h⟩
  | some x =>
    refine .bind (.refuse (by simp)) fun _ => .assume fun hconfig => .bind (.refuse (by simp)) fun _ =>
      .bind (.refuse (by simp)) fun _ => .bind (.refuse (by simp)) fun _ => .pre (hwrite (some x) ?_) ?_
    · rintro _ ⟨⟩
      exact source_of_refuse hconfig
    · rintro _ ⟨_, _, _, rfl, h⟩
      exact ⟨hfound, h⟩

lemma triple_importDefinition :
    Triple (From specHash .api r) (importDefinition specHash actor nowUs d) (fun _ => From specHash .api r)
      (· ≠ .constraint) := by
  refine .bind (triple_validateAlerts (by simp)) fun _ => .bind .get fun t => ?_
  cases hfound : t.byName d.name with
  | none =>
    refine .bind (.pre (triple_writeDefinition (by simp)) ?_) fun _ => .pure fun _ h => h
    rintro _ ⟨rfl, h⟩
    exact ⟨hfound, h⟩
  | some x =>
    refine .bind (.refuse (by simp)) fun _ => .assume fun hconfig =>
      .bind (.pre (triple_writeDefinition ?_) ?_) fun _ => .pure fun _ h => h
    · rintro _ ⟨⟩
      exact source_of_refuse hconfig
    · rintro _ ⟨rfl, h⟩
      exact ⟨hfound, h⟩

lemma triple_importDefinitions {defs : List Definition} :
    Triple (From specHash .api r) (importDefinitions specHash defs actor nowUs) (fun _ => From specHash .api r)
      (· ≠ .constraint) :=
  .forM (I := fun _ => From specHash .api r) (fun _ _ => triple_importDefinition) defs

lemma triple_setEnabled {enabled : Bool} :
    Triple (From specHash .api r) (setEnabled name enabled nowUs) (fun _ => From specHash .api r)
      (· ≠ .constraint) := by
  refine .bind .get fun t => ?_
  cases hfound : t.liveByName name with
  | none => exact .throw (by simp)
  | some x =>
    obtain ⟨hx, _, hlive⟩ := liveByName_eq_some hfound
    refine .bind (.refuse (by simp)) fun _ => .assume fun hconfig => .bind (.modify ?_) fun _ =>
      .bind triple_insertRevision fun _ => .pure fun _ h => h
    rintro _ ⟨rfl, ht⟩
    exact ht.revise hx rfl rfl rfl ⟨rfl, rfl, rfl, rfl⟩ (ht.sound.hashes x hx) (source_of_refuse hconfig)
      fun a ha => .inr ⟨hlive, ha⟩

lemma triple_deleteDefinition :
    Triple (From specHash .api r) (deleteDefinition name nowUs) (fun _ => From specHash .api r)
      (· ≠ .constraint) := by
  refine .bind .get fun t => ?_
  cases hfound : t.liveByName name with
  | none => exact .throw (by simp)
  | some x =>
    obtain ⟨hx, hname, _⟩ := liveByName_eq_some hfound
    refine .bind (.refuse (by simp)) fun _ => .assume fun hconfig => .bind (.modify ?_) fun _ => .pure fun _ h => h
    rintro _ ⟨rfl, ht⟩
    refine ht.change (.delete name nowUs (fun y hy h => ?_) rfl)
    rw [List.inj_on_of_nodup_map ht.sound.names hy hx (h.trans hname.symm)]
    exact source_of_refuse hconfig

lemma triple_syncConfigDefinition :
    Triple (From specHash .config r) (syncConfigDefinition specHash nowUs d) (fun _ => From specHash .config r)
      (· ≠ .constraint) := by
  refine .bind (triple_validateAlerts (by simp)) fun _ => .bind .get fun t => ?_
  cases hfound : t.byName d.name with
  | none =>
    refine .bind (.pre (triple_writeDefinition (by simp)) ?_) fun _ => .pure fun _ h => h
    rintro _ ⟨rfl, h⟩
    exact ⟨hfound, h⟩
  | some x =>
    refine .bind (.refuse (by simp)) fun _ => .assume fun hsource => .ite (fun _ => .pure fun _ h => h.2.1)
      fun _ => .bind (.pre (triple_writeDefinition ?_) ?_) fun _ => .pure fun _ h => h
    · rintro _ ⟨⟩
      simpa using hsource
    · rintro _ ⟨rfl, h⟩
      exact ⟨hfound, h⟩

def ConfigOwned (names : List String) (t : Registry) : Prop :=
  ∀ x ∈ t.definitions, x.name ∈ names → x.source = .config

lemma triple_removeByName {names : List String} :
    Triple (fun t => From specHash .config r t ∧ ConfigOwned (name :: names) t) (removeByName nowUs name)
      (fun _ t => From specHash .config r t ∧ ConfigOwned names t) (· ≠ .constraint) := by
  refine .modify fun t ⟨ht, hnames⟩ =>
    ⟨ht.change (.delete name nowUs (fun x hx h => hnames x hx (by simp [h])) rfl), ?_⟩
  intro y hy hmem
  obtain ⟨x, hx, rfl⟩ := mem_updateWhere.mp hy
  split_ifs at hmem ⊢
  · exact hnames x hx (List.mem_cons_of_mem _ hmem)
  · exact hnames x hx (List.mem_cons_of_mem _ hmem)

lemma triple_syncConfigDefinitions {defs : List Definition} :
    Triple (From specHash .config r) (syncConfigDefinitions specHash defs nowUs) (fun _ => From specHash .config r)
      (· ≠ .constraint) := by
  refine .bind
    (.forM (I := fun _ => From specHash .config r) (fun _ _ => triple_syncConfigDefinition) defs) fun _ =>
    .bind .get fun t => .post (.pre (.forM (I := fun names t => From specHash .config r t ∧ ConfigOwned names t)
      (fun _ _ => triple_removeByName) _) ?_) fun _ _ h => h.1
  rintro _ ⟨rfl, ht⟩
  refine ⟨ht, fun x hx hmem => ?_⟩
  obtain ⟨y, hy, hname⟩ := List.mem_map.mp (List.mem_of_mem_filter hmem)
  obtain ⟨hy, hconfig⟩ := List.mem_filter.mp hy
  rw [List.inj_on_of_nodup_map ht.sound.names hx hy hname.symm]
  simp only [Bool.and_eq_true, decide_eq_true_eq] at hconfig
  exact hconfig.1

lemma triple_putAlertChannel {valid : Bool} :
    Triple (From specHash owner r) (putAlertChannel name valid) (fun _ => From specHash owner r)
      (· ≠ .constraint) := by
  refine .bind .get fun t => .bind (.refuse (by simp)) fun _ => .bind (.refuse (by simp)) fun _ => .set ?_
  rintro _ ⟨_, _, rfl, ht⟩
  split_ifs
  · exact ht
  · exact ht.change (.addChannel name rfl)

lemma triple_pruneRevisions :
    Triple (From specHash owner r) pruneRevisions (fun _ => From specHash owner r) (· ≠ .constraint) :=
  .modify fun _ ht => ht.change (.prune ⟨(), rfl⟩)

/-! ## The removal of a channel -/

structure Pending (name : String) (changes : List Definition) (rows : List DefinitionRow)
    (t : Registry) : Prop where
  changes : changes = rows.map (withoutReference name)
  distinct : (rows.map (·.definitionID)).Nodup
  current : ∀ x ∈ rows, x ∈ t.definitions ∧ x.deletedUs = none ∧ x.source = .api
  complete : ∀ x ∈ t.definitions, x.deletedUs = none → name ∈ x.spec.alerts → x ∈ rows

lemma triple_collectChanges {P : Registry → Prop} {removeReferences : Bool} {rows : List DefinitionRow} :
    Triple P (collectChanges name removeReferences rows)
      (fun changes t => P t ∧ changes = (rows.filter (·.spec.alerts.contains name)).map (withoutReference name) ∧
        ∀ x ∈ rows, name ∈ x.spec.alerts → x.source = .api) (· ≠ .constraint) := by
  induction rows with
  | nil => exact .pure fun _ h => ⟨h, rfl, by simp⟩
  | cons x rows ih =>
    refine .ite (fun hfree => ?_) fun hnamed => ?_
    · refine .post ih fun changes t ⟨hP, hchanges, hsource⟩ => ⟨hP, ?_, ?_⟩
      · rw [hchanges, List.filter_cons_of_neg (by simpa using hfree)]
      · exact List.forall_mem_cons.mpr ⟨fun hname => by simp [hname] at hfree, hsource⟩
    · refine .bind (.refuse (by simp)) fun _ => .bind (.refuse (by simp)) fun _ => .assume fun hconfig =>
        .bind (.pre ih fun _ h => h.2) fun changes => .pure fun t ⟨hP, hchanges, hsource⟩ => ⟨hP, ?_, ?_⟩
      · rw [hchanges, List.filter_cons_of_pos (by simpa using hnamed), List.map_cons]
      · exact List.forall_mem_cons.mpr ⟨fun _ => source_of_refuse hconfig, hsource⟩

lemma triple_removeReference {name actor : String} {changes : List Definition} :
    Triple (fun t => From specHash .api r t ∧ ∃ rows, Pending name (d :: changes) rows t)
      (removeReference specHash actor nowUs d)
      (fun _ t => From specHash .api r t ∧ ∃ rows, Pending name changes rows t) (· ≠ .constraint) := by
  refine .bind (.modify ?_) fun _ => triple_insertRevision
  rintro t ⟨ht, rows, h⟩
  cases rows with
  | nil => simpa using h.changes
  | cons x rows =>
    obtain ⟨rfl, hchanges⟩ := List.cons.inj h.changes
    obtain ⟨hx, hlive, hsource⟩ := h.current x List.mem_cons_self
    obtain ⟨hfresh, hfrom⟩ := ht.revise (v := ⟨x.definitionID, x.revision + 1, (withoutReference name x).canonical,
        specHash (withoutReference name x).canonical, actor, nowUs⟩)
      (f := fun old => { old with
        spec := (withoutReference name x).canonical, specHash := specHash (withoutReference name x).canonical
        revision := x.revision + 1, updatedUs := nowUs })
      hx rfl rfl rfl ⟨rfl, rfl, rfl, rfl⟩ rfl hsource fun a ha => .inr ⟨hlive, List.mem_of_mem_filter ha⟩
    refine ⟨hfresh, hfrom, rows, hchanges, (List.nodup_cons.mp h.distinct).2, fun y hy => ?_,
      fun y hy hylive hname => ?_⟩
    · obtain ⟨hmem, hrest⟩ := h.current y (List.mem_cons_of_mem _ hy)
      have hne : y.definitionID ≠ x.definitionID := fun he =>
        (List.nodup_cons.mp h.distinct).1 (List.mem_map.mpr ⟨y, hy, he⟩)
      exact ⟨mem_updateWhere.mpr ⟨y, hmem, by simp [withoutReference, hne]⟩, hrest⟩
    · obtain ⟨z, hz, rfl⟩ := mem_updateWhere.mp hy
      split_ifs at hylive hname ⊢ with he
      · simp [withoutReference, Definition.canonical] at hname
      · refine (List.mem_cons.mp (h.complete z hz hylive hname)).resolve_left ?_
        rintro rfl
        simp [withoutReference] at he

lemma mem_live : x ∈ t.live ↔ x ∈ t.definitions ∧ x.deletedUs = none := by
  simp [live]

lemma pending_live (ht : Sound specHash t) (hsource : ∀ x ∈ t.live, name ∈ x.spec.alerts → x.source = .api) :
    Pending name ((t.live.filter (·.spec.alerts.contains name)).map (withoutReference name))
      (t.live.filter (·.spec.alerts.contains name)) t where
  changes := rfl
  distinct := by
    have hlive : (t.live.map (·.definitionID)).Nodup :=
      ((List.perm_insertionSort _ _).map _).nodup_iff.mpr ((List.filter_sublist.map _).nodup ht.ids)
    exact (List.filter_sublist.map _).nodup hlive
  current x hx := by
    obtain ⟨hx, hname⟩ := List.mem_filter.mp hx
    exact ⟨(mem_live.mp hx).1, (mem_live.mp hx).2, hsource x hx (by simpa using hname)⟩
  complete x hx hlive hname := List.mem_filter.mpr ⟨mem_live.mpr ⟨hx, hlive⟩, by simpa using hname⟩

lemma triple_deleteAlertChannel {name actor : String} {removeReferences : Bool} :
    Triple (From specHash .api r) (deleteAlertChannel specHash name removeReferences actor nowUs)
      (fun _ => From specHash .api r) (· ≠ .constraint) := by
  refine .bind .get fun t => .bind (.refuse (by simp)) fun _ => .bind triple_collectChanges fun changes =>
    .bind (.pre (.forM (I := fun changes t => From specHash .api r t ∧ ∃ rows, Pending name changes rows t)
      (fun _ _ => triple_removeReference) _) ?_) fun _ => .modify ?_
  · rintro _ ⟨⟨_, rfl, ht⟩, rfl, hsource⟩
    exact ⟨ht, _, pending_live ht.sound hsource⟩
  · rintro u ⟨ht, rows, h⟩
    refine ht.change (.dropChannel name (fun x hx hlive hname => ?_) rfl)
    have hmem := h.complete x hx hlive hname
    rw [List.map_eq_nil_iff.mp h.changes.symm] at hmem
    simp at hmem

end

end Registry

open Registry

def RegistryOp.owner : RegistryOp → Source
  | .sync _ _ => .config
  | _ => .api

section

variable {specHash : Definition → String} {op : RegistryOp} {ops : List RegistryOp} {r r' : Registry}

lemma triple_tx : Triple (From specHash op.owner r) (op.tx specHash) (fun _ => From specHash op.owner r)
    (· ≠ .constraint) := by
  cases op with
  | put => exact .discard triple_putDefinition
  | importAll => exact triple_importDefinitions
  | sync => exact triple_syncConfigDefinitions
  | setEnabled => exact .discard triple_setEnabled
  | delete => exact .discard triple_deleteDefinition
  | putChannel => exact triple_putAlertChannel
  | deleteChannel => exact triple_deleteAlertChannel
  | prune => exact triple_pruneRevisions

lemma from_self (hr : Sound specHash r) : From specHash op.owner r r := ⟨hr, .refl⟩

lemma from_commits (hr : Sound specHash r) (h : (op.tx specHash).Commits r r') : From specHash op.owner r r' := by
  obtain ⟨a, h⟩ := h
  exact (triple_tx r (from_self hr)).1 a r' h

lemma RegistryStep.changes (hr : Sound specHash r) (h : RegistryStep specHash r op r') :
    From specHash op.owner r r' := by
  rcases h with rfl | h
  · exact from_self hr
  · exact from_commits hr h

lemma sound_run (h : Library.Run (RegistryStep specHash) r ops r') (hr : Sound specHash r) : Sound specHash r' :=
  h.invariant (fun _ _ _ hstep hs => (hstep.changes hs).sound) hr

def Carried (r r' : Registry) : Prop := ∀ x ∈ r.definitions, ∃ x' ∈ r'.definitions, Carries x x'

lemma Registry.From.carried {owner : Source} (hr : Sound specHash r) (h : From specHash owner r r') :
    Relation.ReflTransGen (fun t t' => Change specHash owner t t' ∧ Carried t t') r r' := by
  obtain ⟨-, hpath⟩ := h
  induction hpath using Relation.ReflTransGen.head_induction_on with
  | refl => exact .refl
  | head hchange _ ih =>
    exact .head ⟨hchange, fun _ hx => hchange.carries hr hx⟩ (ih (hchange.sound hr))

def DefinitionRow.NewerThan (x' x : DefinitionRow) : Prop :=
  x'.definitionID = x.definitionID ∧ x'.name = x.name ∧ x.revision ≤ x'.revision

lemma Registry.Carries.newerThan {x x' : DefinitionRow} (h : Carries x x') : x'.NewerThan x := by
  rcases h with rfl | ⟨hid, hname, hrev⟩ | ⟨nowUs, rfl⟩
  · exact ⟨rfl, rfl, le_rfl⟩
  · exact ⟨hid, hname, by omega⟩
  · exact ⟨rfl, rfl, le_rfl⟩

def Kept (r r' : Registry) : Prop := ∀ x ∈ r.definitions, ∃ x' ∈ r'.definitions, x'.NewerThan x

lemma Kept.trans {t : Registry} (h : Kept r r') (h' : Kept r' t) : Kept r t := by
  intro x hx
  obtain ⟨y, hy, hyx⟩ := h x hx
  obtain ⟨z, hz, hzy⟩ := h' y hy
  exact ⟨z, hz, hzy.1.trans hyx.1, hzy.2.1.trans hyx.2.1, hyx.2.2.trans hzy.2.2⟩

lemma RegistryStep.kept (hr : Sound specHash r) (h : RegistryStep specHash r op r') : Kept r r' := by
  have hpath := (h.changes hr).carried hr
  clear h
  induction hpath with
  | refl => exact fun x hx => ⟨x, hx, rfl, rfl, le_rfl⟩
  | tail _ hstep ih =>
    refine Kept.trans ih fun x hx => ?_
    obtain ⟨x', hx', hcarries⟩ := hstep.2 x hx
    exact ⟨x', hx', hcarries.newerThan⟩

lemma kept_run (hr : Sound specHash r) (h : Library.Run (RegistryStep specHash) r ops r') : Kept r r' := by
  induction h with
  | nil => exact fun x hx => ⟨x, hx, rfl, rfl, le_rfl⟩
  | cons hstep _ ih => exact (hstep.kept hr).trans (ih (hstep.changes hr).sound)

/-! ## Puts that expect a revision -/

def Raised (d : Definition) (revision : ℕ) (rows : List DefinitionRow) : Prop :=
  ∃ y ∈ rows, y.name = d.name ∧ y.revision = revision

lemma definitions_insertRevision {v : RevisionRow} (Q : List DefinitionRow → Prop) :
    Triple (fun t => Q t.definitions) (insertRevision v) (fun _ t => Q t.definitions) fun _ => True := by
  refine .bind .get fun t => .bind (.refuse trivial) fun _ => .set ?_
  rintro _ ⟨_, rfl, h⟩
  exact h

lemma raised_putDefinition {d : Definition} {x : DefinitionRow} {expected : ℕ} {actor : String} {createOnly : Bool}
    {nowUs : ℤ} :
    Triple (fun t => t.byName d.name = some x) (putDefinition specHash d expected actor createOnly nowUs)
      (fun _ t => (expected ≠ 0 → x.revision = expected) ∧ Raised d (x.revision + 1) t.definitions)
      fun _ => True := by
  refine .bind (triple_validateAlerts fun _ => trivial) fun _ => .bind .get fun t => ?_
  refine .pre (P := fun u => t.byName d.name = some x ∧ t = u) (.assume fun hfound => ?_) ?_
  · simp only [hfound]
    refine .bind (.refuse trivial) fun _ => .bind (.refuse trivial) fun _ => .bind (.refuse trivial) fun _ =>
      .assume fun hlive => .bind (.refuse trivial) fun _ => .assume fun hdeleted =>
      .bind (.bind (.modify ?_) fun _ => .bind (definitions_insertRevision (Raised d (x.revision + 1)))
        fun _ => .pure fun _ h => h) fun _ =>
      .pure fun _ h => ⟨?_, h⟩
    · rintro _ ⟨_, _, rfl⟩
      obtain ⟨hx, hname⟩ := byName_eq_some hfound
      exact ⟨_, mem_updateWhere.mpr ⟨x, hx, rfl⟩, by simpa using hname, by simp⟩
    · intro hexpected
      cases hdel : x.deletedUs with
      | none =>
        have : expected = x.revision := by simpa [hdel, hexpected] using hlive
        exact this.symm
      | some at' => simp [hdel, hexpected] at hdeleted
  · rintro _ ⟨rfl, h, _⟩
    exact ⟨h, rfl⟩

lemma put_commits {d : Definition} {x : DefinitionRow} {expected : ℕ} {actor : String} {createOnly : Bool}
    {nowUs : ℤ} (hx : r.byName d.name = some x) (hexpected : expected ≠ 0)
    (h : ((RegistryOp.put d expected actor createOnly nowUs).tx specHash).Commits r r') :
    x.revision = expected ∧ Raised d (expected + 1) r'.definitions := by
  obtain ⟨a, h⟩ := h
  obtain ⟨hrev, hraised⟩ := (Triple.discard (.post raised_putDefinition fun _ _ h => h) r hx).1 a r' h
  rw [hrev hexpected] at hraised
  exact ⟨hrev hexpected, hraised⟩

theorem definition_updates_kept (h : Library.Run (RegistryStep specHash) Registry.empty ops r) :
    (∀ x ∈ r.definitions, (∃ v ∈ r.revisions, v.Records x) ∧
      ∀ v ∈ r.revisions, v.definitionID = x.definitionID →
        v.revision ≤ x.revision ∧ (v.revision = x.revision → v.Records x)) ∧
    (∀ op : RegistryOp, op.tx specHash r ≠ .error .constraint) ∧
    (∀ op r', (RegistryOp.tx specHash op).Commits r r' →
      Relation.ReflTransGen (fun t t' => Change specHash op.owner t t' ∧ Carried t t') r r') ∧
    (∀ ops' r', Library.Run (RegistryStep specHash) r ops' r' → Kept r r') ∧
    ∀ d expected actor createOnly nowUs r₁ ops' r₂, expected ≠ 0 → r.byName d.name ≠ none →
      ((RegistryOp.put d expected actor createOnly nowUs).tx specHash).Commits r r₁ →
      Library.Run (RegistryStep specHash) r₁ ops' r₂ →
      ∀ d' actor' createOnly' nowUs' r₃, d'.name = d.name →
        ¬((RegistryOp.put d' expected actor' createOnly' nowUs').tx specHash).Commits r₂ r₃ := by
  have hr := sound_run h sound_empty
  refine ⟨fun x hx => ⟨hr.newest x hx, fun v hv hid => ⟨hr.bound x hx v hv hid, fun hrev => ?_⟩⟩, fun op => ?_,
    fun op r' h => (from_commits hr h).carried hr, fun ops' r' => kept_run hr, ?_⟩
  · -- the key of the history makes the newest row unique
    obtain ⟨w, hw, hrec⟩ := hr.newest x hx
    rw [List.inj_on_of_nodup_map hr.keys hv hw (Prod.ext (hid.trans hrec.1.symm) (hrev.trans hrec.2.1.symm))]
    exact hrec
  · exact fun herror => (triple_tx r (from_self hr)).2 _ herror rfl
  · intro d expected actor createOnly nowUs r₁ ops' r₂ hexpected hex hput hrun d' actor' createOnly' nowUs' r₃
      hname hput'
    obtain ⟨x, hx⟩ := Option.ne_none_iff_exists'.mp hex
    obtain ⟨_, y, hy, hyname, hyrev⟩ := put_commits hx hexpected hput
    have hr₁ := (from_commits hr hput).sound
    obtain ⟨z, hz, _, hzname, hzrev⟩ := kept_run hr₁ hrun y hy
    have hfound : r₂.byName d'.name = some z := by
      rw [hname, ← hyname, ← hzname]
      exact byName_mem (sound_run hrun hr₁) hz
    obtain ⟨hrev, _⟩ := put_commits hfound hexpected hput'
    omega

end

def nightly (settings : String) : Definition := ⟨0, "nightly", .job, 0, .api, none, [], settings⟩

def nightlyRow (settings : String) (revision : ℕ) (updatedUs : ℤ) : DefinitionRow :=
  ⟨1, "nightly", .job, nightly settings, settings, revision, true, .api, 0, updatedUs, none⟩

theorem definition_updates_kept_nightly :
    ¬∃ r, ((RegistryOp.put (nightly "weekly") 1 "b" false 2).tx (·.settings)).Commits
      ⟨[nightlyRow "daily" 2 1],
        [⟨1, 1, nightly "hourly", "hourly", "a", 0⟩, ⟨1, 2, nightly "daily", "daily", "a", 1⟩], []⟩ r :=
  fun ⟨r, h⟩ => (@definition_updates_kept (·.settings) [.put (nightly "hourly") 0 "a" false 0]
    ⟨[nightlyRow "hourly" 1 0], [⟨1, 1, nightly "hourly", "hourly", "a", 0⟩], []⟩
    (.cons (.inr ⟨(), by decide +kernel⟩) (.nil _))).2.2.2.2 (nightly "daily") 1 "a" false 1 _ [] _ (by decide)
      (by decide) ⟨(), by decide +kernel⟩ (.nil _) (nightly "weekly") "b" false 2 r rfl h

end Minicrond.Store
