import Mathlib.Data.Prod.Lex
import Mathlib.Order.Lattice.Nat
import Minicrond.Library.Keyset
import Minicrond.Library.Quota

/-! Pressure pruning of the archive: the pass in batches under a keyset cursor takes the shortest oldest prefix. -/

namespace Minicrond.Logs.Pressure

open Library

abbrev Cursor := ℤ ×ₗ ℤ

structure ArchiveRow where
  rowid : ℤ
  archivedUS : ℤ
  runID : String
  number : ℕ
  blob : ℕ
  fileBytes : ℕ
  deriving DecidableEq, Repr

namespace ArchiveRow

def key (r : ArchiveRow) : Cursor := toLex (r.archivedUS, r.rowid)

-- LENGTH(blob)+file_bytes
def size (r : ArchiveRow) : ℕ := r.blob + r.fileBytes

end ArchiveRow

-- both halves of the cursor a pass starts with
def beforeAll : ℤ := -2 ^ 62

/-- The archive tables. Its chunks stand in the order of their archive time and row id; an archive time is a
reading of the clock in microseconds, far above the lowest cursor. -/
structure Archive where
  chunks : List ArchiveRow
  runs : List String
  ordered : chunks.Pairwise (·.key < ·.key)
  distinct : (chunks.map ArchiveRow.rowid).Nodup
  stamped : ∀ r ∈ chunks, beforeAll < r.archivedUS

structure PruneResult where
  chunks : ℕ := 0
  bytes : ℕ := 0
  runs : ℕ := 0
  deriving DecidableEq, Repr

structure Batch where
  chunks : ℕ
  bytes : ℕ
  scanned : ℕ
  next : Cursor
  gone : List (String × ℕ)

structure Pruned where
  archive : Archive
  result : PruneResult
  removed : List (String × ℕ)

namespace Archive

def after (a : Archive) (cursor : Cursor) : List ArchiveRow := a.chunks.filter (cursor < ·.key)

def delete (a : Archive) (ids : List ℤ) : Archive where
  chunks := a.chunks.filter (·.rowid ∉ ids)
  runs := a.runs
  ordered := a.ordered.filter _
  distinct := a.distinct.sublist (List.filter_sublist.map _)
  stamped r h := a.stamped r (List.mem_of_mem_filter h)

-- DELETE FROM log_runs WHERE NOT EXISTS (a chunk of the run)
def deleteEmptyRuns (a : Archive) : ℕ × Archive :=
  let full := a.runs.filter fun run => a.chunks.any (·.runID == run)
  (a.runs.length - full.length, { a with runs := full })

end Archive

def scanDeleted (rows : List ArchiveRow) : ℕ × List (String × ℕ) :=
  (rows.length, (rows.filter (0 < ·.fileBytes)).map fun r => (r.runID, r.number))

section Pass

variable (protect : Option (String → ℕ → Bool)) (wantBytes : ℤ) (pruneBatch : ℕ)

def guarded (r : ArchiveRow) : Bool := protect.any fun p => p r.runID r.number

def scan (freed : ℕ) : List ArchiveRow → Batch → List ℤ → Batch × List ℤ
  | [], b, ids => (b, ids)
  | r :: rows, b, ids =>
    let b := { b with scanned := b.scanned + 1, next := r.key }
    if guarded protect r then scan freed rows b ids
    else if wantBytes ≤ freed + b.bytes then (b, ids)
    else scan freed rows { b with bytes := b.bytes + r.size } (ids ++ [r.rowid])

def pruneTx (cursor : Cursor) (freed : ℕ) (_shared : Batch) (a : Archive) : Batch × Archive :=
  let shared : Batch := ⟨0, 0, 0, cursor, []⟩
  let (b, ids) := scan protect wantBytes freed ((a.after cursor).take pruneBatch) shared []
  if ids = [] then (b, a)
  else
    let (chunks, gone) := scanDeleted (a.chunks.filter (·.rowid ∈ ids))
    ({ b with chunks := chunks, gone := gone }, a.delete ids)

/-- A write transaction whose function ran once for each entry of `busy` before, each time rolled back by a busy
database at any point: the entry is what it left in the shared variables. -/
def writeTx {β : Type*} (busy : List Batch) (shared : Batch) (fn : Batch → Archive → β) (a : Archive) : β :=
  fn (busy.getLast?.getD shared) a

def pruneLoop : ℕ → (ℕ → List Batch) → Cursor → Pruned → Pruned
  | 0, _, _, p => p
  | fuel + 1, busy, cursor, p =>
    if wantBytes ≤ p.result.bytes then p
    else
      let (b, a) := writeTx (busy 0) ⟨0, 0, 0, cursor, []⟩
        (pruneTx protect wantBytes pruneBatch cursor p.result.bytes) p.archive
      let result :=
        { p.result with chunks := p.result.chunks + b.chunks, bytes := p.result.bytes + b.bytes }
      let p := ⟨a, result, p.removed ++ b.gone⟩
      if b.scanned = 0 then p else pruneLoop fuel (fun k => busy (k + 1)) b.next p

/-- PruneOldest; `busy k` are the runs of batch k's function that a busy database rolled back. A batch that scans a
row moves the cursor past one, so there are at most as many of them as rows, and an empty one. -/
def pruneOldest (busy : ℕ → List Batch) (a : Archive) : Pruned :=
  let p :=
    pruneLoop protect wantBytes pruneBatch (a.chunks.length + 1) busy (toLex (beforeAll, beforeAll)) ⟨a, {}, []⟩
  if 0 < p.result.chunks then
    let (runs, a) := p.archive.deleteEmptyRuns
    { p with archive := a, result.runs := runs }
  else p

end Pass

/-! ## One batch -/

variable {protect : Option (String → ℕ → Bool)} {wantBytes : ℤ} {pruneBatch : ℕ} {page : List ArchiveRow}
    {r : ArchiveRow} {want : ℤ}

def eligible (protect : Option (String → ℕ → Bool)) (rows : List ArchiveRow) : List ArchiveRow :=
  rows.filter fun r => !guarded protect r

lemma eligible_append (xs ys : List ArchiveRow) :
    eligible protect (xs ++ ys) = eligible protect xs ++ eligible protect ys := List.filter_append ..

def taken (protect : Option (String → ℕ → Bool)) (want : ℤ) (rows : List ArchiveRow) : List ArchiveRow :=
  quota ArchiveRow.size want (eligible protect rows)

lemma mem_of_mem_taken {rows : List ArchiveRow} (h : r ∈ taken protect want rows) :
    r ∈ rows ∧ guarded protect r = false := by
  have := List.mem_filter.1 ((quota_isPrefix _ _).mem h)
  exact ⟨this.1, by simpa using this.2⟩

lemma taken_cons_guarded (h : guarded protect r = true) (want : ℤ) (rows : List ArchiveRow) :
    taken protect want (r :: rows) = taken protect want rows := by
  rw [taken, eligible, List.filter_cons_of_neg (by simpa using h)]
  rfl

lemma eligible_cons (h : ¬guarded protect r = true) (rows : List ArchiveRow) :
    eligible protect (r :: rows) = r :: eligible protect rows := List.filter_cons_of_pos (by simpa using h)

/-- What the loop of a batch has done when it ends: it took the quota of the rows, and unless it stopped at a row
it did not take, the cursor is at the last one. -/
structure Scanned (protect : Option (String → ℕ → Bool)) (want : ℤ) (rows : List ArchiveRow) (b b' : Batch)
    (ids ids' : List ℤ) : Prop where
  ids : ids' = ids ++ (taken protect want rows).map ArchiveRow.rowid
  bytes : b'.bytes = b.bytes + total ArchiveRow.size (taken protect want rows)
  scanned : b'.scanned = b.scanned ↔ rows = []
  grows : b.scanned ≤ b'.scanned
  next : taken protect want rows = eligible protect rows → b'.next = (rows.getLast?.map ArchiveRow.key).getD b.next
  chunks : b'.chunks = b.chunks
  gone : b'.gone = b.gone

lemma getLast?_key_cons (r : ArchiveRow) (rows : List ArchiveRow) (c : Cursor) :
    ((r :: rows).getLast?.map ArchiveRow.key).getD c = (rows.getLast?.map ArchiveRow.key).getD r.key := by
  rw [List.getLast?_cons]
  cases rows.getLast? <;> rfl

lemma scan_scanned (freed : ℕ) (rows : List ArchiveRow) (b : Batch) (ids : List ℤ) :
    Scanned protect (wantBytes - (freed + b.bytes : ℕ)) rows b (scan protect wantBytes freed rows b ids).1 ids
      (scan protect wantBytes freed rows b ids).2 := by
  induction rows generalizing b ids with
  | nil => exact ⟨(List.append_nil _).symm, rfl, by simp [scan], le_rfl, fun _ => rfl, rfl, rfl⟩
  | cons r rows ih =>
    rw [scan]
    split_ifs with hguard hfull
    case pos =>
      have h := ih { b with scanned := b.scanned + 1, next := r.key } ids
      have hgrows := h.grows
      dsimp only at h hgrows ⊢
      refine ⟨?_, ?_, ?_, by omega, ?_, h.chunks, h.gone⟩
      · rw [taken_cons_guarded hguard]
        exact h.ids
      · rw [taken_cons_guarded hguard]
        exact h.bytes
      · exact iff_of_false (by omega) (List.cons_ne_nil r rows)
      · intro hall
        rw [getLast?_key_cons]
        refine h.next ?_
        rwa [taken_cons_guarded hguard, eligible, List.filter_cons_of_neg (by simpa using hguard)] at hall
    case pos =>
      have hnone : taken protect (wantBytes - (freed + b.bytes : ℕ)) (r :: rows) = [] :=
        quota_of_nonpos (by push_cast; dsimp only at hfull; omega) _
      refine ⟨by rw [hnone]; exact (List.append_nil ids).symm, by rw [hnone]; rfl, ?_, Nat.le_succ _, ?_, rfl, rfl⟩
      · exact iff_of_false (Nat.succ_ne_self _) (List.cons_ne_nil r rows)
      · intro hall
        rw [hnone, eligible_cons hguard] at hall
        cases hall
    case neg =>
      have h := ih { b with scanned := b.scanned + 1, next := r.key, bytes := b.bytes + r.size } (ids ++ [r.rowid])
      have hgrows := h.grows
      dsimp only at h hgrows hfull ⊢
      have hstep : taken protect (wantBytes - (freed + b.bytes : ℕ)) (r :: rows) =
          r :: taken protect (wantBytes - (freed + (b.bytes + r.size) : ℕ)) rows := by
        rw [taken, eligible_cons hguard, quota, if_neg (by push_cast; omega)]
        congr 2
        push_cast
        omega
      refine ⟨?_, ?_, ?_, by omega, ?_, h.chunks, h.gone⟩
      · rw [hstep, h.ids, List.append_assoc]
        rfl
      · rw [hstep, h.bytes, total_cons, Nat.add_assoc]
      · exact iff_of_false (by omega) (List.cons_ne_nil r rows)
      · intro hall
        rw [hstep, eligible_cons hguard] at hall
        rw [getLast?_key_cons]
        exact h.next (List.cons.inj hall).2

lemma filter_mem_of_sublist {xs ys : List ArchiveRow} (hnodup : ys.Nodup) (h : xs.Sublist ys) :
    ys.filter (· ∈ xs) = xs := by
  have hsub : xs.Sublist (ys.filter (· ∈ xs)) := by
    have := h.filter (· ∈ xs)
    rwa [List.filter_eq_self.2 fun r hr => decide_eq_true hr] at this
  have hperm : (ys.filter (· ∈ xs)).Perm xs :=
    (List.perm_ext_iff_of_nodup (hnodup.filter _) (hnodup.sublist h)).2 fun r => by
      rw [List.mem_filter, decide_eq_true_eq]
      exact ⟨And.right, fun hr => ⟨h.subset hr, hr⟩⟩
  exact (hsub.eq_of_length hperm.length_eq.symm).symm

namespace Archive

variable (a : Archive) {rows : List ArchiveRow}

lemma rowid_mem_iff (h : rows.Sublist a.chunks) {r : ArchiveRow} (hr : r ∈ a.chunks) :
    r.rowid ∈ rows.map ArchiveRow.rowid ↔ r ∈ rows := by
  refine ⟨fun hid => ?_, List.mem_map_of_mem⟩
  obtain ⟨r', hr', heq⟩ := List.mem_map.1 hid
  rwa [← List.inj_on_of_nodup_map a.distinct (h.subset hr') hr heq]

lemma delete_chunks (h : rows.Sublist a.chunks) :
    (a.delete (rows.map ArchiveRow.rowid)).chunks = a.chunks.filter (· ∉ rows) :=
  List.filter_congr fun _ hr => decide_eq_decide.2 (not_congr (rowid_mem_iff a h hr))

lemma deleted_rows (h : rows.Sublist a.chunks) :
    a.chunks.filter (·.rowid ∈ rows.map ArchiveRow.rowid) = rows := by
  rw [← filter_mem_of_sublist (List.Nodup.of_map _ a.distinct) h]
  refine List.filter_congr fun r hr => ?_
  rw [filter_mem_of_sublist (List.Nodup.of_map _ a.distinct) h]
  exact decide_eq_decide.2 (rowid_mem_iff a h hr)

end Archive

structure Committed (protect : Option (String → ℕ → Bool)) (want : ℤ) (cursor : Cursor) (page : List ArchiveRow)
    (a a' : Archive) (b : Batch) : Prop where
  kept : a'.chunks = a.chunks.filter (· ∉ taken protect want page)
  runs : a'.runs = a.runs
  counts : (b.chunks, b.gone) = scanDeleted (taken protect want page)
  bytes : b.bytes = total ArchiveRow.size (taken protect want page)
  scanned : b.scanned = 0 ↔ page = []
  next : taken protect want page = eligible protect page → b.next = (page.getLast?.map ArchiveRow.key).getD cursor

lemma taken_sublist (want : ℤ) (rows : List ArchiveRow) : (taken protect want rows).Sublist rows :=
  (quota_isPrefix _ _).sublist.trans List.filter_sublist

lemma pruneTx_committed (busy : List Batch) (shared : Batch) (cursor : Cursor) (freed : ℕ) (a : Archive) :
    Committed protect (wantBytes - freed) cursor ((a.after cursor).take pruneBatch) a
      (writeTx busy shared (pruneTx protect wantBytes pruneBatch cursor freed) a).2
      (writeTx busy shared (pruneTx protect wantBytes pruneBatch cursor freed) a).1 := by
  have hscan := @scan_scanned protect wantBytes freed ((a.after cursor).take pruneBatch) ⟨0, 0, 0, cursor, []⟩ []
  rw [writeTx, pruneTx]
  generalize scan protect wantBytes freed ((a.after cursor).take pruneBatch) ⟨0, 0, 0, cursor, []⟩
    [] = result at hscan ⊢
  obtain ⟨b, ids⟩ := result
  generalize hpage : (a.after cursor).take pruneBatch = page at hscan ⊢
  have hsub : (taken protect (wantBytes - freed) page).Sublist a.chunks :=
    (taken_sublist _ _).trans (hpage ▸ (List.take_sublist _ _).trans List.filter_sublist)
  have hids := hscan.ids
  have hbytes := hscan.bytes
  have hscanned := hscan.scanned
  have hnext := hscan.next
  simp only [List.nil_append, Nat.add_zero, Nat.zero_add] at hids hbytes hscanned hnext
  dsimp only
  split_ifs with hnone
  case pos =>
    have htaken : taken protect (wantBytes - freed) page = [] := List.map_eq_nil_iff.1 (hids ▸ hnone)
    refine ⟨?_, rfl, ?_, hbytes, hscanned, hnext⟩
    · rw [htaken, List.filter_eq_self.2 fun r _ => by simp]
    · rw [htaken, hscan.chunks, hscan.gone]
      rfl
  case neg =>
    subst hids
    refine ⟨a.delete_chunks hsub, rfl, ?_, hbytes, hscanned, hnext⟩
    rw [a.deleted_rows hsub]

/-! ## The pass -/

lemma taken_append_of_eq (h : taken protect want page = eligible protect page) (rest : List ArchiveRow) :
    taken protect want (page ++ rest) =
      taken protect want page ++ taken protect (want - total ArchiveRow.size (taken protect want page)) rest := by
  rw [taken, eligible_append, quota_append_of_eq h, h]
  rfl

lemma taken_append_of_ne (h : taken protect want page ≠ eligible protect page) (rest : List ArchiveRow) :
    taken protect want (page ++ rest) = taken protect want page := by
  rw [taken, eligible_append, quota_append_of_ne h]
  rfl

lemma taken_reaches (want : ℤ) (rows : List ArchiveRow) :
    want ≤ total ArchiveRow.size (taken protect want rows) ∨ taken protect want rows = eligible protect rows :=
  quota_reaches _ _

structure Took (protect : Option (String → ℕ → Bool)) (want : ℤ) (rows : List ArchiveRow)
    (p p' : Pruned) : Prop where
  kept : p'.archive.chunks = p.archive.chunks.filter (· ∉ taken protect want rows)
  runs : p'.archive.runs = p.archive.runs
  chunks : p'.result.chunks = p.result.chunks + (taken protect want rows).length
  bytes : p'.result.bytes = p.result.bytes + total ArchiveRow.size (taken protect want rows)
  removed : p'.removed = p.removed ++ (scanDeleted (taken protect want rows)).2

lemma Took.none {want : ℤ} {rows : List ArchiveRow} {p : Pruned} (h : taken protect want rows = []) :
    Took protect want rows p p := by
  refine ⟨?_, rfl, ?_, ?_, ?_⟩
  · rw [h, List.filter_eq_self.2 fun r _ => by simp]
  · rw [h]
    rfl
  · rw [h]
    rfl
  · rw [h]
    exact (List.append_nil _).symm

lemma Took.of_committed {cursor : Cursor} {p : Pruned}
    {a : Archive} {b : Batch} (h : Committed protect want cursor page p.archive a b) :
    Took protect want page p
      ⟨a, { p.result with chunks := p.result.chunks + b.chunks, bytes := p.result.bytes + b.bytes },
        p.removed ++ b.gone⟩ where
  kept := h.kept
  runs := h.runs
  chunks := congrArg (p.result.chunks + ·) (congrArg Prod.fst h.counts)
  bytes := congrArg (p.result.bytes + ·) h.bytes
  removed := congrArg (p.removed ++ ·) (congrArg Prod.snd h.counts)

lemma Took.trans {page rest : List ArchiveRow} {p p' p'' : Pruned} (h : Took protect want page p p')
    (hall : taken protect want page = eligible protect page)
    (h' : Took protect (want - total ArchiveRow.size (taken protect want page)) rest p' p'') :
    Took protect want (page ++ rest) p p'' := by
  have happend := taken_append_of_eq hall rest
  refine ⟨?_, h'.runs.trans h.runs, ?_, ?_, ?_⟩
  · rw [h'.kept, h.kept, List.filter_filter, happend]
    refine List.filter_congr fun r _ => ?_
    rw [← Bool.decide_and]
    exact decide_eq_decide.2 (by rw [List.mem_append, not_or, and_comm])
  · rw [h'.chunks, h.chunks, happend, List.length_append, Nat.add_assoc]
  · rw [h'.bytes, h.bytes, happend, total_append, Nat.add_assoc]
  · rw [h'.removed, h.removed, happend, List.append_assoc, scanDeleted, scanDeleted, scanDeleted,
      List.filter_append, List.map_append]

lemma Took.after_last {cursor : Cursor} {page rest : List ArchiveRow} {p p' : Pruned}
    (h : Took protect want page p p') (hpage : p.archive.after cursor = page ++ rest)
    (hlast : page.getLast? = some r) : p'.archive.after r.key = rest := by
  have hrest : p.archive.after r.key = rest := filter_after_last p.archive.ordered hpage hlast
  have hnodup : (page ++ rest).Nodup := hpage ▸ (List.Nodup.of_map _ p.archive.distinct).filter _
  rw [Archive.after, h.kept, List.filter_filter, ← hrest, Archive.after]
  refine List.filter_congr fun x hx => ?_
  by_cases hr : r.key < x.key
  · have hx : x ∈ rest := hrest ▸ List.mem_filter.2 ⟨hx, decide_eq_true hr⟩
    have : x ∉ taken protect want page := fun htaken =>
      (List.disjoint_of_nodup_append hnodup) (mem_of_mem_taken htaken).1 hx
    simp [hr, this]
  · simp [hr]

lemma pruneLoop_of_le (fuel : ℕ) (busy : ℕ → List Batch) (cursor : Cursor) {p : Pruned}
    (h : wantBytes ≤ p.result.bytes) : pruneLoop protect wantBytes pruneBatch fuel busy cursor p = p := by
  cases fuel with
  | zero => rfl
  | succ fuel => rw [pruneLoop, if_pos h]

lemma pruneLoop_took (hbatch : 0 < pruneBatch) (fuel : ℕ) (busy : ℕ → List Batch) (cursor : Cursor) (p : Pruned)
    (hfuel : (p.archive.after cursor).length < fuel) :
    Took protect (wantBytes - p.result.bytes) (p.archive.after cursor) p
      (pruneLoop protect wantBytes pruneBatch fuel busy cursor p) := by
  induction fuel generalizing busy cursor p with
  | zero => exact absurd hfuel (Nat.not_lt_zero _)
  | succ fuel ih =>
    rw [pruneLoop]
    split_ifs with hfull
    case pos => exact .none (quota_of_nonpos (sub_nonpos.2 hfull) _)
    have hcommit := @pruneTx_committed protect wantBytes pruneBatch (busy 0) ⟨0, 0, 0, cursor, []⟩ cursor
      p.result.bytes p.archive
    generalize writeTx (busy 0) ⟨0, 0, 0, cursor, []⟩
      (pruneTx protect wantBytes pruneBatch cursor p.result.bytes) p.archive = committed at hcommit ⊢
    obtain ⟨b, a⟩ := committed
    generalize hpage : (p.archive.after cursor).take pruneBatch = page at hcommit
    have hsplit : p.archive.after cursor = page ++ (p.archive.after cursor).drop pruneBatch := by
      rw [← hpage, List.take_append_drop]
    generalize (p.archive.after cursor).drop pruneBatch = rest at hsplit
    have htook := Took.of_committed hcommit
    dsimp only at hcommit htook ⊢
    split_ifs with hscanned
    case pos =>
      have hnil := hcommit.scanned.1 hscanned
      have hend : p.archive.after cursor = [] := by
        refine (List.take_eq_nil_iff.1 (hpage.trans hnil)).resolve_left (by omega)
      rwa [hend, ← hnil]
    case neg =>
      rw [hsplit]
      by_cases hall : taken protect (wantBytes - p.result.bytes) page = eligible protect page
      case neg =>
        have hreached := (taken_reaches _ _).resolve_right hall
        rw [pruneLoop_of_le]
        · refine ⟨?_, htook.runs, ?_, ?_, ?_⟩ <;> rw [taken_append_of_ne hall]
          exacts [htook.kept, htook.chunks, htook.bytes, htook.removed]
        · rw [← hcommit.bytes] at hreached
          push_cast
          omega
      case pos =>
        have hne : page ≠ [] := fun hnil => hscanned (hcommit.scanned.2 hnil)
        obtain ⟨r, hlast⟩ := Option.isSome_iff_exists.1 (List.getLast?_isSome.2 hne)
        have hnext : b.next = r.key := by
          rw [hcommit.next hall, hlast]
          rfl
        have hafter := htook.after_last hsplit hlast
        refine htook.trans hall ?_
        rw [hnext]
        have hshorter : rest.length < fuel := by
          rw [hsplit, List.length_append] at hfuel
          have := List.length_pos_iff.2 hne
          omega
        have hrest := ih (fun k => busy (k + 1)) r.key _ (by rw [hafter]; exact hshorter)
        rwa [hafter, htook.bytes, Nat.cast_add, ← sub_sub] at hrest

lemma after_beforeAll (a : Archive) : a.after (toLex (beforeAll, beforeAll)) = a.chunks :=
  List.filter_eq_self.2 fun r hr => decide_eq_true (Prod.Lex.toLex_lt_toLex.2 (.inl (a.stamped r hr)))

/-- The chunks that PruneOldest should delete are the first `n` eligible ones for the least `n` whose sizes reach
the wanted bytes, or all of them. -/
structure ShortestOldest (protect : Option (String → ℕ → Bool)) (wantBytes : ℤ) (a : Archive) (n : ℕ) : Prop where
  le : n ≤ (eligible protect a.chunks).length
  reaches : wantBytes ≤ total ArchiveRow.size ((eligible protect a.chunks).take n) ∨
    n = (eligible protect a.chunks).length
  shortest : ∀ m < n, (total ArchiveRow.size ((eligible protect a.chunks).take m) : ℤ) < wantBytes

lemma taken_shortest (a : Archive) :
    ShortestOldest protect wantBytes a (taken protect wantBytes a.chunks).length ∧
      (eligible protect a.chunks).take (taken protect wantBytes a.chunks).length =
        taken protect wantBytes a.chunks := by
  have hpre : taken protect wantBytes a.chunks <+: eligible protect a.chunks := quota_isPrefix _ _
  have htake := (List.prefix_iff_eq_take.1 hpre).symm
  refine ⟨⟨hpre.length_le, ?_, fun m => quota_minimal⟩, htake⟩
  rw [htake]
  exact (taken_reaches _ _).imp_right (congrArg List.length)

lemma pruneOldest_took (hbatch : 0 < pruneBatch) (busy : ℕ → List Batch) (a : Archive) :
    ∃ p, Took protect wantBytes a.chunks ⟨a, {}, []⟩ p ∧
      (pruneOldest protect wantBytes pruneBatch busy a).archive.chunks = p.archive.chunks ∧
      (pruneOldest protect wantBytes pruneBatch busy a).result.chunks = p.result.chunks ∧
      (pruneOldest protect wantBytes pruneBatch busy a).result.bytes = p.result.bytes := by
  have htook := @pruneLoop_took protect wantBytes pruneBatch hbatch (a.chunks.length + 1) busy
    (toLex (beforeAll, beforeAll)) ⟨a, {}, []⟩ (by rw [after_beforeAll]; exact Nat.lt_succ_self _)
  rw [after_beforeAll, Nat.cast_zero, sub_zero] at htook
  refine ⟨_, htook, ?_⟩
  rw [pruneOldest]
  split_ifs <;> exact ⟨rfl, rfl, rfl⟩

theorem pruneOldest_shortest (protect : Option (String → ℕ → Bool)) (wantBytes : ℤ) (pruneBatch : ℕ)
    (hbatch : 0 < pruneBatch) (busy : ℕ → List Batch) (a : Archive) :
    let p := pruneOldest protect wantBytes pruneBatch busy a
    ∃ n, ShortestOldest protect wantBytes a n ∧
      p.archive.chunks = a.chunks.filter (· ∉ (eligible protect a.chunks).take n) ∧
      p.result.chunks = n ∧
      p.result.bytes = total ArchiveRow.size ((eligible protect a.chunks).take n) ∧
      ∀ r ∈ a.chunks, guarded protect r = true → r ∈ p.archive.chunks := by
  obtain ⟨p, htook, hkept, hchunks, hbytes⟩ := @pruneOldest_took protect wantBytes pruneBatch hbatch busy a
  obtain ⟨hshortest, htake⟩ := @taken_shortest protect wantBytes a
  refine ⟨_, hshortest, ?_, ?_, ?_, fun r hr hguard => ?_⟩
  · rw [htake, hkept, htook.kept]
  · rw [hchunks, htook.chunks]
    exact Nat.zero_add _
  · rw [htake, hbytes, htook.bytes]
    exact Nat.zero_add _
  · rw [hkept, htook.kept]
    refine List.mem_filter.2 ⟨hr, decide_eq_true fun htaken => ?_⟩
    rw [(mem_of_mem_taken htaken).2] at hguard
    cases hguard

def fiveChunks : Archive where
  chunks := [⟨1, 100, "a", 1, 3, 0⟩, ⟨2, 100, "b", 1, 4, 0⟩, ⟨3, 200, "a", 2, 0, 4⟩, ⟨5, 300, "a", 3, 5, 0⟩,
    ⟨4, 400, "a", 4, 5, 0⟩]
  runs := ["a", "b"]
  ordered := by decide
  distinct := by decide
  stamped := by decide

theorem pruneOldest_shortest_two_batches :
    let protect := some fun run _ => run == "b"
    let busy := fun _ => [⟨7, 9, 1, toLex (300, 5), []⟩]
    let p := pruneOldest protect 8 2 busy fiveChunks
    (p.archive.chunks.map ArchiveRow.rowid, p.result, p.removed) = ([2, 4], ⟨3, 12, 0⟩, [("a", 2)]) ∧
      ∃ n, ShortestOldest protect 8 fiveChunks n ∧
        p.archive.chunks = fiveChunks.chunks.filter (· ∉ (eligible protect fiveChunks.chunks).take n) ∧
        p.result.chunks = n ∧
        p.result.bytes = total ArchiveRow.size ((eligible protect fiveChunks.chunks).take n) ∧
        ∀ r ∈ fiveChunks.chunks, guarded protect r = true → r ∈ p.archive.chunks :=
  ⟨by decide +kernel, pruneOldest_shortest _ 8 2 (by decide) _ fiveChunks⟩

end Minicrond.Logs.Pressure
