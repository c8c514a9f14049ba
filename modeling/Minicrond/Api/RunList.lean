import Minicrond.Library.Machine
import Minicrond.Store.RunsPage

/-! Following the run list from page to page while the store changes between any two of its queries. -/

namespace Minicrond.Api

open Minicrond.Library Minicrond.Store

/-- The page size of a request; `limit` is what its parameter reads as a number, 0 if it is absent or not one. -/
def pageLimit (limit : ℤ) : ℤ :=
  let limit := if limit = 0 then 50 else limit
  min (max limit 1) 500

structure RunsResponse where
  items : List RunRow
  nextBefore : String

def runsResponse (limit : ℤ) (runs : List RunRow) : RunsResponse :=
  if limit < runs.length then
    let items := runs.take limit.toNat
    ⟨items, (items.getLast?.map (·.runID)).getD ""⟩
  else ⟨runs, ""⟩

/-- A client that follows next_before. `reading` is the cursor that the request under way has read, and `steady`
the runs that were present and matched in every state since the listing began. -/
structure Listing where
  db : DB
  before : String := ""
  reading : Option (Option (ℤ × String)) := none
  items : List RunRow := []
  finished : Bool := false
  notFound : Bool := false
  steady : List String

inductive ListEvent
  | store (op : Op)
  | look
  | answer (limit : ℤ)

section Machine

variable (specHash : Definition → String) (queued : String → ℤ) (job : String) (filter : RunFilter)

def shows (db : DB) (id : String) : Bool := db.runs.any fun r => r.runID = id && r.listed job filter

namespace Listing

def start (db : DB) : Listing where
  db := db
  steady := (db.runs.filter (·.listed job filter)).map (·.runID)

def change (db : DB) (s : Listing) : Listing :=
  { s with db := db, steady := s.steady.filter (shows job filter db) }

def look (s : Listing) : Listing :=
  match runsCursor s.before s.db with
  | none => { s with notFound := true }
  | some cursor => { s with reading := some cursor }

def answer (limit : ℤ) (cursor : Option (ℤ × String)) (s : Listing) : Listing :=
  let limit := pageLimit limit
  let response := runsResponse limit (runsPage job filter (limit + 1) cursor s.db)
  { s with
    items := s.items ++ response.items
    before := response.nextBefore
    reading := none
    finished := response.nextBefore = "" }

end Listing

inductive ListStep : Listing → ListEvent → Listing → Prop
  | store {s : Listing} {op : Op} {db : DB} (h : Step specHash s.db op db) (hop : op.Keyed queued)
      (hcursor : ∀ r ∈ s.db.runs, r.runID = s.before → ∃ r' ∈ db.runs, r'.runID = s.before) :
      ListStep s (.store op) (s.change job filter db)
  | look {s : Listing} (hidle : s.reading = none) (hopen : s.finished = false) (hfound : s.notFound = false) :
      ListStep s .look s.look
  | answer {s : Listing} {limit : ℤ} {cursor : Option (ℤ × String)} (h : s.reading = some cursor) :
      ListStep s (.answer limit) (s.answer job filter limit cursor)

end Machine

section Page

variable {specHash : Definition → String} {queued : String → ℤ} {job : String} {filter : RunFilter}

lemma pageLimit_pos (limit : ℤ) : 1 ≤ pageLimit limit ∧ pageLimit limit ≤ 500 := by
  simp only [pageLimit]
  omega

lemma runsResponse_page (limit : ℤ) (cursor : Option (ℤ × String)) (db : DB) :
    let rest := db.remaining job filter cursor
    let n := (pageLimit limit).toNat
    runsResponse (pageLimit limit) (runsPage job filter (pageLimit limit + 1) cursor db) =
      ⟨rest.take n, if n < rest.length then ((rest.take n).getLast?.map (·.runID)).getD "" else ""⟩ := by
  obtain ⟨hpos, hle⟩ := pageLimit_pos limit
  generalize pageLimit limit = m at hpos hle
  obtain ⟨n, rfl⟩ := Int.eq_ofNat_of_zero_le (by omega : 0 ≤ m)
  have hlimit : (min (max ((n : ℤ) + 1) 1) 501).toNat = n + 1 := by omega
  simp only [runsPage, hlimit, runsResponse, Int.toNat_natCast, List.length_take, List.take_take]
  split_ifs with h₁ h₂
  · rw [min_eq_left (Nat.le_succ n)]
  · omega
  · omega
  · rw [List.take_of_length_le (by omega), List.take_of_length_le (by omega)]

end Page

section Listing

variable {specHash : Definition → String} {queued : String → ℤ} {job : String} {filter : RunFilter}

/-- The invariant of a listing: what it has returned is in order, and every steady run it has not returned is after
all that it has. -/
structure Listed (queued : String → ℤ) (job : String) (filter : RunFilter) (s : Listing) : Prop where
  consistent : Consistent s.db
  keyed : s.db.Keyed queued
  sorted : s.items.Pairwise (·.place < ·.place)
  itemsKeyed : ∀ r ∈ s.items, r.Keyed queued
  shown : ∀ id ∈ s.steady, shows job filter s.db id = true
  covered : ∀ r : RunRow, r.Keyed queued → r.runID ∈ s.steady → r.runID ∈ s.items.map (·.runID) ∨
    s.finished = false ∧ ∀ x ∈ s.items, x.place < r.place
  cursor : s.finished = false → s.before = "" ∧ s.items = [] ∨
    s.before ≠ "" ∧ (s.items.getLast?.map (·.runID)) = some s.before ∧ ∃ r ∈ s.db.runs, r.runID = s.before
  reading : ∀ cursor, s.reading = some cursor → s.finished = false ∧
    cursor = if s.before = "" then none else some (queued s.before, s.before)
  found : s.notFound = false

lemma shows_iff {db : DB} {id : String} :
    shows job filter db id = true ↔ ∃ r ∈ db.runs, r.runID = id ∧ r.listed job filter = true := by
  simp [shows]

lemma Listed.start {db : DB} (hdb : Consistent db) (hkeyed : db.Keyed queued) :
    Listed queued job filter (.start job filter db) where
  consistent := hdb
  keyed := hkeyed
  sorted := .nil
  itemsKeyed _ h := absurd h List.not_mem_nil
  shown id h := by
    obtain ⟨r, hr, rfl⟩ := List.mem_map.1 h
    exact shows_iff.2 ⟨r, (List.mem_filter.1 hr).1, rfl, (List.mem_filter.1 hr).2⟩
  covered _ _ _ := .inr ⟨rfl, fun _ h => absurd h List.not_mem_nil⟩
  cursor _ := .inl ⟨rfl, rfl⟩
  reading _ h := nomatch h
  found := rfl

lemma Listed.change {s : Listing} {op : Op} {db : DB} (hs : Listed queued job filter s)
    (h : Step specHash s.db op db) (hop : op.Keyed queued)
    (hcursor : ∀ r ∈ s.db.runs, r.runID = s.before → ∃ r' ∈ db.runs, r'.runID = s.before) :
    Listed queued job filter (s.change job filter db) where
  consistent := h.consistent hs.consistent
  keyed := h.keyed hop hs.keyed
  sorted := hs.sorted
  itemsKeyed := hs.itemsKeyed
  shown _ hid := (List.mem_filter.1 hid).2
  covered r hr hid := hs.covered r hr (List.mem_filter.1 hid).1
  cursor hopen := (hs.cursor hopen).imp_right fun ⟨hne, hlast, r, hr, hid⟩ => ⟨hne, hlast, hcursor r hr hid⟩
  reading := hs.reading
  found := hs.found

lemma Listed.look {s : Listing} (hs : Listed queued job filter s) (hopen : s.finished = false) :
    Listed queued job filter s.look := by
  have hcursor : runsCursor s.before s.db =
      some (if s.before = "" then none else some (queued s.before, s.before)) := by
    rw [runsCursor]
    split_ifs with hempty
    · rfl
    · obtain ⟨h, -⟩ | ⟨-, -, r, hr, hid⟩ := hs.cursor hopen
      · exact absurd h hempty
      have hsome : (s.db.runs.find? (·.runID = s.before)).isSome := List.find?_isSome.2 ⟨r, hr, decide_eq_true hid⟩
      obtain ⟨x, hx⟩ := Option.isSome_iff_exists.1 hsome
      have hname : x.runID = s.before := by simpa using List.find?_some hx
      rw [hx, Option.map_some, (hs.keyed x (List.mem_of_find?_eq_some hx)).2, hname]
  rw [Listing.look, hcursor]
  exact { hs with reading := fun _ h => ⟨hopen, (Option.some.inj h).symm⟩ }

lemma Listed.under_iff {s : Listing} (hs : Listed queued job filter s) (hopen : s.finished = false) (r : RunRow) :
    r.under (if s.before = "" then none else some (queued s.before, s.before)) = true ↔
      ∀ x ∈ s.items, x.place < r.place := by
  obtain ⟨hempty, hitems⟩ | ⟨hne, hlast, -⟩ := hs.cursor hopen
  · rw [if_pos hempty, hitems]
    exact iff_of_true rfl fun x hx => absurd hx List.not_mem_nil
  · obtain ⟨last, hget, hid⟩ := Option.map_eq_some_iff.1 hlast
    obtain ⟨init, hinit⟩ := List.getLast?_eq_some_iff.1 hget
    have hmem : last ∈ s.items := hinit ▸ List.mem_append_right _ List.mem_cons_self
    have hplace : r.under (some (queued s.before, s.before)) = true ↔ last.place < r.place := by
      rw [RunRow.under_some, RunRow.place_lt, (hs.itemsKeyed last hmem).2, hid]
    rw [if_neg hne, hplace]
    refine ⟨fun hr x hx => ?_, fun h => h last hmem⟩
    have hsorted := hs.sorted
    rw [hinit] at hx hsorted
    rcases List.mem_append.1 hx with hx | hx
    · exact ((List.pairwise_append.1 hsorted).2.2 x hx last List.mem_cons_self).trans hr
    · rwa [List.mem_singleton.1 hx]

lemma Listed.answer {s : Listing} {cursor : Option (ℤ × String)} (hs : Listed queued job filter s)
    (h : s.reading = some cursor) (limit : ℤ) : Listed queued job filter (s.answer job filter limit cursor) := by
  obtain ⟨hopen, rfl⟩ := hs.reading cursor h
  have hunder := hs.under_iff hopen
  have hpos := (pageLimit_pos limit).1
  rw [Listing.answer, runsResponse_page]
  generalize hrest :
    s.db.remaining job filter (if s.before = "" then none else some (queued s.before, s.before)) = rest
  generalize hn : (pageLimit limit).toNat = n
  have hsorted : rest.Pairwise (·.place < ·.place) := hrest ▸ DB.remaining_sorted hs.consistent job filter _
  have hmem : ∀ r, r ∈ rest ↔ r ∈ s.db.runs ∧ r.listed job filter = true ∧ ∀ x ∈ s.items, x.place < r.place := by
    intro r
    rw [← hrest, DB.mem_remaining, hunder]
  have hpage : ∀ r ∈ rest.take n, r ∈ s.db.runs ∧ ∀ x ∈ s.items, x.place < r.place := fun r hr =>
    have := (hmem r).1 (List.mem_of_mem_take hr)
    ⟨this.1, this.2.2⟩
  have hkeyed : ∀ r ∈ rest.take n, r.Keyed queued := fun r hr => hs.keyed r (hpage r hr).1
  -- another page follows exactly if the last run of this one becomes the cursor
  have hnext : n < rest.length → ∃ last ∈ rest.take n, (rest.take n).getLast? = some last := fun hlt => by
    have hne : rest.take n ≠ [] := List.ne_nil_of_length_pos (by rw [List.length_take]; omega)
    exact ⟨_, List.getLast_mem hne, List.getLast?_eq_some_getLast hne⟩
  refine ⟨hs.consistent, hs.keyed, ?_, ?_, hs.shown, ?_, ?_, (fun _ h => nomatch h), hs.found⟩
  · exact List.pairwise_append.2 ⟨hs.sorted, hsorted.sublist (List.take_sublist _ _),
      fun x hx r hr => (hpage r hr).2 x hx⟩
  · exact fun r hr => (List.mem_append.1 hr).elim (hs.itemsKeyed r) (hkeyed r)
  · intro r hr hid
    dsimp only at hid ⊢
    rw [List.map_append, List.mem_append]
    rcases hs.covered r hr hid with hold | ⟨-, hafter⟩
    · exact .inl (.inl hold)
    obtain ⟨y, hy, hname, hlisted⟩ := shows_iff.1 (hs.shown _ hid)
    have hplace := (hs.keyed y hy).place_eq hr hname
    have hyrest : y ∈ rest := (hmem y).2 ⟨hy, hlisted, by rwa [hplace]⟩
    rcases mem_take_or_after hsorted hyrest n with htake | hlater
    · exact .inl (.inr (List.mem_map.2 ⟨y, htake, hname⟩))
    · by_cases hlt : n < rest.length
      · obtain ⟨last, hlast, hget⟩ := hnext hlt
        refine .inr ⟨?_, fun x hx => (List.mem_append.1 hx).elim (hafter x) fun hx => hplace ▸ hlater x hx⟩
        rw [if_pos hlt, hget]
        exact decide_eq_false (hkeyed last hlast).1
      · rw [List.take_of_length_le (not_lt.1 hlt)] at hlater ⊢
        exact .inl (.inr (List.mem_map.2 ⟨y, hyrest, hname⟩))
  · intro hopen'
    dsimp only at hopen' ⊢
    by_cases hlt : n < rest.length
    · obtain ⟨last, hlast, hget⟩ := hnext hlt
      rw [if_pos hlt, hget, List.getLast?_append, hget]
      exact .inr ⟨(hkeyed last hlast).1, rfl, last, (hpage last hlast).1, rfl⟩
    · rw [if_neg hlt] at hopen'
      exact absurd rfl (of_decide_eq_false hopen')

lemma ListStep.listed {s t : Listing} {e : ListEvent} (h : ListStep specHash queued job filter s e t)
    (hs : Listed queued job filter s) : Listed queued job filter t := by
  cases h with
  | store h hop hcursor => exact hs.change h hop hcursor
  | look _ hopen _ => exact hs.look hopen
  | answer h => exact hs.answer h _

theorem listing_complete {db : DB} (hdb : Consistent db) (hkeyed : db.Keyed queued) {events : List ListEvent}
    {s : Listing} (h : Library.Run (ListStep specHash queued job filter) (.start job filter db) events s) :
    (s.items.map (·.runID)).Nodup ∧
      s.items.Pairwise (fun a b => b.queuedUs < a.queuedUs ∨ b.queuedUs = a.queuedUs ∧ b.runID < a.runID) ∧
      s.notFound = false ∧
      (s.finished = true → ∀ id ∈ s.steady, id ∈ s.items.map (·.runID)) := by
  have hs := h.invariant (fun _ _ _ hstep => hstep.listed) (Listed.start hdb hkeyed)
  refine ⟨?_, hs.sorted.imp RunRow.place_lt.1, hs.found, fun hfinished id hid => ?_⟩
  · refine List.pairwise_map.2 (hs.sorted.imp_of_mem fun ha hb hlt heq => ?_)
    exact hlt.ne ((hs.itemsKeyed _ ha).place_eq (hs.itemsKeyed _ hb) heq)
  · obtain ⟨r, hr, rfl, -⟩ := shows_iff.1 (hs.shown id hid)
    refine (hs.covered r (hs.keyed r hr) hid).resolve_right fun ⟨hopen, _⟩ => ?_
    rw [hfinished] at hopen
    cases hopen

def threeSkipped : DB :=
  { backupDefined with
    runs :=
      [runArgs (backupSkipped "b" 20000), runArgs (backupSkipped "a" 30000), runArgs (backupSkipped "c" 20000)] }

def queuedMicros (id : String) : ℤ := if id = "a" then 30 else if id = "d" then 25 else 20

def lateInsert : Listing :=
  (((Listing.start "" .all threeSkipped).look.answer "" .all 1 none).change "" .all
    { threeSkipped with runs := threeSkipped.runs ++ [runArgs (backupSkipped "d" 25000)] }).look.answer "" .all 0
      (some (30, "a"))

theorem listing_complete_late_insert :
    lateInsert.finished = true ∧ lateInsert.steady = ["b", "a", "c"] ∧
      lateInsert.items.map (·.runID) = ["a", "d", "c", "b"] ∧ (lateInsert.items.map (·.runID)).Nodup ∧
      lateInsert.items.Pairwise
        (fun a b => b.queuedUs < a.queuedUs ∨ b.queuedUs = a.queuedUs ∧ b.runID < a.runID) ∧
      lateInsert.notFound = false ∧ ∀ id ∈ lateInsert.steady, id ∈ lateInsert.items.map (·.runID) := by
  have hrun : Library.Run (ListStep (fun _ => "hash") queuedMicros "" .all) (.start "" .all threeSkipped)
      [.look, .answer 1, .store (.create (backupSkipped "d" 25000)), .look, .answer 0] lateInsert :=
    .cons (.look rfl rfl rfl) <|
    .cons (.answer (by decide +kernel)) <|
    .cons (.store ⟨nofun, .inr ⟨(), rfl⟩⟩ ⟨by decide, rfl⟩ (by decide +kernel)) <|
    .cons (.look (by decide +kernel) (by decide +kernel) (by decide +kernel)) <|
    .cons (.answer (by decide +kernel)) <|
    .nil _
  have hconsistent : Consistent threeSkipped := by
    refine ⟨by decide +kernel, List.nodup_nil, ?_⟩
    simp [DB.queueIDs, DB.queuedRuns, threeSkipped, backupDefined, runArgs, backupSkipped]
  have hkeyed : threeSkipped.Keyed queuedMicros := by
    unfold DB.Keyed RunRow.Keyed
    decide +kernel
  have hfinished : lateInsert.finished = true := by decide +kernel
  obtain ⟨hnodup, hsorted, hfound, hall⟩ := listing_complete hconsistent hkeyed hrun
  exact ⟨hfinished, by decide +kernel, by decide +kernel, hnodup, hsorted, hfound, hall hfinished⟩

end Listing

end Minicrond.Api
