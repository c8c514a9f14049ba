import Minicrond.Store.AlertChannels

/-! Changes of single definitions and channels, and what they keep of the registry: each change of a definition but
its deletion raises the revision by one and adds the row that records it. -/

namespace Minicrond.Store

open Minicrond.Library Transaction

def RevisionRow.Records (v : RevisionRow) (x : DefinitionRow) : Prop :=
  v.definitionID = x.definitionID ∧ v.revision = x.revision ∧ v.spec = x.spec ∧ v.specHash = x.specHash

def DefinitionRow.removed (nowUs : ℤ) (x : DefinitionRow) : DefinitionRow :=
  { x with deletedUs := some nowUs, enabled := false, updatedUs := nowUs }

namespace Registry

def empty : Registry := ⟨[], [], []⟩

/-- One change of one definition or channel. A definition is created, revised or deleted by its owner; what a
revision names in its alerts is checked or was there before. -/
inductive Change (specHash : Definition → String) (owner : Source) (r r' : Registry) : Prop
  | create (x : DefinitionRow) (v : RevisionRow) (hid : ∀ y ∈ r.definitions, y.definitionID ≠ x.definitionID)
      (hname : ∀ y ∈ r.definitions, y.name ≠ x.name) (hrev : x.revision = 1) (hv : v.Records x)
      (hhash : x.specHash = specHash x.spec) (hsource : x.source = owner)
      (halerts : ∀ a ∈ x.spec.alerts, a ∈ r.channels)
      (h : r' = { r with definitions := r.definitions ++ [x], revisions := r.revisions ++ [v] })
  | revise (x x' : DefinitionRow) (v : RevisionRow) (hx : x ∈ r.definitions)
      (hid : x'.definitionID = x.definitionID) (hname : x'.name = x.name)
      (hrev : x'.revision = x.revision + 1) (hv : v.Records x')
      (hhash : x'.specHash = specHash x'.spec) (hsource : x.source = owner)
      (halerts : ∀ a ∈ x'.spec.alerts, a ∈ r.channels ∨ x.deletedUs = none ∧ a ∈ x.spec.alerts)
      (h : r' = { r with
        definitions := updateWhere (·.definitionID = x.definitionID) (fun _ => x') r.definitions
        revisions := r.revisions ++ [v] })
  | delete (name : String) (nowUs : ℤ) (hsource : ∀ x ∈ r.definitions, x.name = name → x.source = owner)
      (h : r' = r.updateDefinitions (·.name = name) (·.removed nowUs))
  | prune (h : pruneRevisions.Commits r r')
  | addChannel (name : String) (h : r' = { r with channels := r.channels ++ [name] })
  | dropChannel (name : String) (hfree : ∀ x ∈ r.definitions, x.deletedUs = none → name ∉ x.spec.alerts)
      (h : r' = { r with channels := deleteWhere (· = name) r.channels })

structure Sound (specHash : Definition → String) (r : Registry) : Prop where
  ids : (r.definitions.map (·.definitionID)).Nodup
  names : (r.definitions.map (·.name)).Nodup
  newest : ∀ x ∈ r.definitions, ∃ v ∈ r.revisions, v.Records x
  bound : ∀ x ∈ r.definitions, ∀ v ∈ r.revisions, v.definitionID = x.definitionID → v.revision ≤ x.revision
  owned : ∀ v ∈ r.revisions, ∃ x ∈ r.definitions, x.definitionID = v.definitionID
  keys : (r.revisions.map fun v => (v.definitionID, v.revision)).Nodup
  hashes : ∀ x ∈ r.definitions, x.specHash = specHash x.spec

section

variable {specHash : Definition → String} {owner : Source} {r r' : Registry} {x x' : DefinitionRow}
    {v : RevisionRow}

lemma sound_empty : Sound specHash empty where
  ids := List.nodup_nil
  names := List.nodup_nil
  newest := by simp [empty]
  bound := by simp [empty]
  owned := by simp [empty]
  keys := List.nodup_nil
  hashes := by simp [empty]

lemma Sound.row_unique (hr : Sound specHash r) {y : DefinitionRow} (hx : x ∈ r.definitions)
    (hy : y ∈ r.definitions) (h : x.definitionID = y.definitionID) : x = y :=
  List.inj_on_of_nodup_map hr.ids hx hy h

lemma Sound.fresh_key (hr : Sound specHash r) (hx : x ∈ r.definitions) (hv : v ∈ r.revisions)
    (hid : v.definitionID = x.definitionID) : v.revision ≠ x.revision + 1 := by
  have := hr.bound x hx v hv hid
  omega

lemma mem_revised {y : DefinitionRow} :
    y ∈ updateWhere (·.definitionID = x.definitionID) (fun _ => x') r.definitions ↔
      (y = x' ∧ ∃ z ∈ r.definitions, z.definitionID = x.definitionID) ∨
        (y ∈ r.definitions ∧ y.definitionID ≠ x.definitionID) := by
  rw [mem_updateWhere]
  constructor
  · rintro ⟨z, hz, rfl⟩
    by_cases h : z.definitionID = x.definitionID
    · exact .inl ⟨by simp [h], z, hz, h⟩
    · exact .inr (by simpa [h] using hz)
  · rintro (⟨rfl, z, hz, h⟩ | ⟨hy, h⟩)
    · exact ⟨z, hz, by simp [h]⟩
    · exact ⟨y, hy, by simp [h]⟩

lemma map_revised {α : Type} {g : DefinitionRow → α} (hr : Sound specHash r) (hx : x ∈ r.definitions)
    (hg : g x' = g x) :
    (updateWhere (·.definitionID = x.definitionID) (fun _ => x') r.definitions).map g = r.definitions.map g := by
  rw [updateWhere, List.map_map]
  apply List.map_congr_left
  intro y hy
  simp only [Function.comp_apply, decide_eq_true_eq]
  split_ifs with h
  · rw [hg, hr.row_unique hy hx h]
  · rfl

lemma Sound.create (hr : Sound specHash r) (hid : ∀ y ∈ r.definitions, y.definitionID ≠ x.definitionID)
    (hname : ∀ y ∈ r.definitions, y.name ≠ x.name) (hv : v.Records x) (hhash : x.specHash = specHash x.spec) :
    Sound specHash { r with definitions := r.definitions ++ [x], revisions := r.revisions ++ [v] } where
  ids := nodup_append_fresh hr.ids hid
  names := nodup_append_fresh hr.names hname
  newest y hy := by
    rcases List.mem_append.mp hy with hy | hy
    · obtain ⟨w, hw, hrec⟩ := hr.newest y hy
      exact ⟨w, List.mem_append_left _ hw, hrec⟩
    · obtain rfl := List.mem_singleton.mp hy
      exact ⟨v, List.mem_append_right _ (List.mem_singleton_self _), hv⟩
  bound y hy w hw h := by
    simp only [List.mem_append, List.mem_singleton] at hy hw
    rcases hy with hy | rfl <;> rcases hw with hw | rfl
    · exact hr.bound y hy w hw h
    · exact (hid y hy (h.symm.trans hv.1)).elim
    · obtain ⟨z, hz, hzw⟩ := hr.owned w hw
      exact (hid z hz (hzw.trans h)).elim
    · exact hv.2.1.le
  owned w hw := by
    rcases List.mem_append.mp hw with hw | hw
    · obtain ⟨z, hz, hzw⟩ := hr.owned w hw
      exact ⟨z, List.mem_append_left _ hz, hzw⟩
    · obtain rfl := List.mem_singleton.mp hw
      exact ⟨x, List.mem_append_right _ (List.mem_singleton_self _), hv.1.symm⟩
  keys := by
    refine nodup_append_fresh hr.keys fun w hw h => ?_
    obtain ⟨z, hz, hzw⟩ := hr.owned w hw
    exact hid z hz (hzw.trans ((Prod.ext_iff.mp h).1.trans hv.1))
  hashes y hy := by
    simp only [List.mem_append, List.mem_singleton] at hy
    rcases hy with hy | rfl
    · exact hr.hashes y hy
    · exact hhash

lemma Sound.revise (hr : Sound specHash r) (hx : x ∈ r.definitions) (hid : x'.definitionID = x.definitionID)
    (hname : x'.name = x.name) (hrev : x'.revision = x.revision + 1) (hv : v.Records x')
    (hhash : x'.specHash = specHash x'.spec) :
    Sound specHash { r with
      definitions := updateWhere (·.definitionID = x.definitionID) (fun _ => x') r.definitions
      revisions := r.revisions ++ [v] } where
  ids := by
    rw [map_revised hr hx hid]
    exact hr.ids
  names := by
    rw [map_revised hr hx hname]
    exact hr.names
  newest y hy := by
    rcases mem_revised.mp hy with ⟨rfl, _⟩ | ⟨hy, _⟩
    · exact ⟨v, List.mem_append_right _ (List.mem_singleton_self _), hv⟩
    · obtain ⟨w, hw, hrec⟩ := hr.newest y hy
      exact ⟨w, List.mem_append_left _ hw, hrec⟩
  bound y hy w hw h := by
    simp only [List.mem_append, List.mem_singleton] at hw
    rcases mem_revised.mp hy with ⟨rfl, _⟩ | ⟨hy, hne⟩ <;> rcases hw with hw | rfl
    · have := hr.bound x hx w hw (h.trans hid)
      omega
    · exact hv.2.1.le
    · exact hr.bound y hy w hw h
    · exact (hne (h.symm.trans (hv.1.trans hid))).elim
  owned w hw := by
    have hself : x' ∈ updateWhere (·.definitionID = x.definitionID) (fun _ => x') r.definitions :=
      mem_revised.mpr (.inl ⟨rfl, x, hx, rfl⟩)
    rcases List.mem_append.mp hw with hw | hw
    · obtain ⟨z, hz, hzw⟩ := hr.owned w hw
      by_cases h : z.definitionID = x.definitionID
      · exact ⟨x', hself, hid.trans (h.symm.trans hzw)⟩
      · exact ⟨z, mem_revised.mpr (.inr ⟨hz, h⟩), hzw⟩
    · obtain rfl := List.mem_singleton.mp hw
      exact ⟨x', hself, hv.1.symm⟩
  keys := by
    refine nodup_append_fresh hr.keys fun w hw h => ?_
    obtain ⟨h1, h2⟩ := Prod.ext_iff.mp h
    exact hr.fresh_key hx hw (h1.trans (hv.1.trans hid)) (h2.trans (hv.2.1.trans hrev))
  hashes y hy := by
    rcases mem_revised.mp hy with ⟨rfl, _⟩ | ⟨hy, _⟩
    · exact hhash
    · exact hr.hashes y hy

lemma Sound.delete (hr : Sound specHash r) (name : String) (nowUs : ℤ) :
    Sound specHash (r.updateDefinitions (·.name = name) (·.removed nowUs)) where
  ids := by
    rw [updateDefinitions, map_updateWhere (f := DefinitionRow.removed nowUs) fun _ => rfl]
    exact hr.ids
  names := by
    rw [updateDefinitions, map_updateWhere (f := DefinitionRow.removed nowUs) fun _ => rfl]
    exact hr.names
  newest y hy := by
    obtain ⟨z, hz, rfl⟩ := mem_updateWhere.mp hy
    obtain ⟨w, hw, hrec⟩ := hr.newest z hz
    refine ⟨w, hw, ?_⟩
    split_ifs
    · exact hrec
    · exact hrec
  bound y hy w hw := by
    obtain ⟨z, hz, rfl⟩ := mem_updateWhere.mp hy
    split_ifs
    · exact hr.bound z hz w hw
    · exact hr.bound z hz w hw
  owned w hw := by
    obtain ⟨z, hz, hzw⟩ := hr.owned w hw
    refine ⟨_, mem_updateWhere.mpr ⟨z, hz, rfl⟩, ?_⟩
    split_ifs
    · exact hzw
    · exact hzw
  keys := hr.keys
  hashes y hy := by
    obtain ⟨z, hz, rfl⟩ := mem_updateWhere.mp hy
    split_ifs
    · exact hr.hashes z hz
    · exact hr.hashes z hz

lemma pruneRevisions_ok (h : pruneRevisions.Commits r r') :
    r' = { r with revisions := deleteWhere (fun row =>
      100 ≤ r.revisions.countP fun v => v.definitionID = row.definitionID &&
        row.revision < v.revision) r.revisions } := by
  obtain ⟨_, h⟩ := h
  rw [pruneRevisions, modify_ok] at h
  exact h.symm

lemma Sound.prune (hr : Sound specHash r) (h : pruneRevisions.Commits r r') : Sound specHash r' := by
  obtain rfl := pruneRevisions_ok h
  refine ⟨hr.ids, hr.names, fun x hx => ?_, fun x hx w hw => ?_, fun w hw => ?_, ?_, hr.hashes⟩
  · obtain ⟨w, hw, hrec⟩ := hr.newest x hx
    refine ⟨w, mem_deleteWhere.mpr ⟨hw, ?_⟩, hrec⟩
    -- no row of the definition is newer than the newest
    have hnone : (r.revisions.countP fun v => v.definitionID = w.definitionID && w.revision < v.revision) = 0 := by
      rw [List.countP_eq_zero]
      intro v hv
      have hle := hr.bound x hx v hv
      simp only [Bool.and_eq_true, decide_eq_true_eq, not_and, not_lt]
      intro he
      rw [hrec.2.1]
      exact hle (he.trans hrec.1)
    rw [hnone]
    rfl
  · exact hr.bound x hx w (mem_deleteWhere.mp hw).1
  · exact hr.owned w (mem_deleteWhere.mp hw).1
  · exact (deleteWhere_sublist.map _).nodup hr.keys

lemma Change.sound (h : Change specHash owner r r') (hr : Sound specHash r) : Sound specHash r' := by
  cases h with
  | create x v hid hname hrev hv hhash hsource halerts h => exact h ▸ hr.create hid hname hv hhash
  | revise x x' v hx hid hname hrev hv hhash hsource halerts h => exact h ▸ hr.revise hx hid hname hrev hv hhash
  | delete name nowUs hsource h => exact h ▸ hr.delete name nowUs
  | prune h => exact hr.prune h
  | addChannel name h | dropChannel name hfree h =>
    exact h ▸ ⟨hr.ids, hr.names, hr.newest, hr.bound, hr.owned, hr.keys, hr.hashes⟩

def Carries (x x' : DefinitionRow) : Prop :=
  x' = x ∨ x'.definitionID = x.definitionID ∧ x'.name = x.name ∧ x'.revision = x.revision + 1 ∨
    ∃ nowUs, x' = x.removed nowUs

lemma Change.carries (h : Change specHash owner r r') (hr : Sound specHash r) (hx : x ∈ r.definitions) :
    ∃ x' ∈ r'.definitions, Carries x x' := by
  cases h with
  | create y v hid hname hrev hv hhash hsource halerts h => exact ⟨x, h ▸ List.mem_append_left _ hx, .inl rfl⟩
  | revise y y' v hy hid hname hrev hv hhash hsource halerts h =>
    subst h
    by_cases he : x.definitionID = y.definitionID
    · obtain rfl := hr.row_unique hx hy he
      exact ⟨y', mem_revised.mpr (.inl ⟨rfl, x, hx, rfl⟩), .inr (.inl ⟨hid, hname, hrev⟩)⟩
    · exact ⟨x, mem_revised.mpr (.inr ⟨hx, he⟩), .inl rfl⟩
  | delete name nowUs hsource h =>
    subst h
    refine ⟨_, mem_updateWhere.mpr ⟨x, hx, rfl⟩, ?_⟩
    split_ifs
    · exact .inr (.inr ⟨nowUs, rfl⟩)
    · exact .inl rfl
  | prune h => exact ⟨x, (pruneRevisions_ok h) ▸ hx, .inl rfl⟩
  | addChannel name h | dropChannel name hfree h => exact ⟨x, h ▸ hx, .inl rfl⟩

end

end Registry

end Minicrond.Store
