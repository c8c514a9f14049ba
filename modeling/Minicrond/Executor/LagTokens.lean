import Mathlib.Data.List.Nodup
import Mathlib.Data.List.Range
import Minicrond.Executor.History
import Minicrond.Library.Machine
import Minicrond.Library.Table

/-! The tokens of the persistence lag. Each terminal state that waits for the history writer has a token from the
moment it is handed over until its item leaves the spool. Here the spool is seen with all its items. -/

namespace Minicrond.Executor.LagTokens

open Minicrond.Library History

/-! ## The lag -/

/-- `pending` maps the tokens to the ends of the runs; `ended` are the tokens that `endPending` was called with. -/
structure PersistLag where
  next : ℕ := 0
  pending : List (ℕ × ℤ) := []
  ended : List ℕ := []

namespace PersistLag

variable (p : PersistLag)

def startPending (ended : ℤ) : ℕ × PersistLag :=
  (p.next + 1, { p with next := p.next + 1, pending := (p.next + 1, ended) :: p.pending })

def endPending (token : ℕ) : PersistLag :=
  { p with pending := p.pending.filter (·.1 ≠ token), ended := token :: p.ended }

def tokens : List ℕ := p.pending.map Prod.fst

end PersistLag

/-! ## The spool -/

structure Entry where
  id : String
  queuedAt : ℤ
  item : FinalItem
  token : ℕ := 0

/-- The closures that `spool` and `spooled` are called with: the row that was not stored, with the outcome of a run
that is skipped, the running transition and the terminal state. -/
inductive Update
  | row (t : Option Terminal)
  | start (info : StartInfo)
  | terminal (t : Terminal)

def Update.apply : Update → FinalItem → FinalItem
  | .row t => deferRow t
  | .start info => fun it => it.setStart info
  | .terminal t => fun it => it.setDone t

def Entry.update (x : Entry) (u : Update) (p : PersistLag) : Entry × PersistLag :=
  match x.item.done, (u.apply x.item).done with
  | none, some t =>
    ({ x with item := u.apply x.item, token := (p.startPending t.ended).1 }, (p.startPending t.ended).2)
  | _, _ => ({ x with item := u.apply x.item }, p)

structure PassView where
  id : String
  queuedAt : ℤ
  view : FinalItemView

inductive Writer
  | idle
  | passing (views : List PassView) (streak : ℕ)
  -- In `writeHistory` for the item of `id`.
  | writing (id : String) (pc : WriterPc) (views : List PassView) (streak : ℕ)
  | stopped

def finalizerFailStreak : ℕ := 3

structure Service where
  maxFinalizers : ℤ
  closing : Bool := false
  down : Bool := false
  finalizing : List Entry := []
  refs : ℕ := 0
  lag : PersistLag := {}
  writer : Writer := .idle

namespace Service

variable (s : Service)

def lookup (id : String) : Option Entry := s.finalizing.find? (·.id = id)

def put (x : Entry) (p : PersistLag) : Service :=
  { s with finalizing := updateWhere (·.id = x.id) (fun _ => x) s.finalizing, lag := p }

def add (x : Entry) (p : PersistLag) : Service :=
  { s with finalizing := s.finalizing ++ [x], refs := s.refs + 1, lag := p }

def newEntry (id : String) (queuedAt now : ℤ) : Entry :=
  ⟨id, queuedAt, ⟨s.refs, false, none, none, finalizerBackoffMin,
    if s.down then now + finalizerBackoffMin else now, 0⟩, 0⟩

def spool (id : String) (queuedAt now : ℤ) (u : Update) : Option Service :=
  if s.closing then none
  else
    match s.lookup id with
    | some x => let (y, p) := x.update u s.lag; some (s.put y p)
    | none =>
      if s.finalizing.length ≥ s.maxFinalizers then none
      else
        let (y, p) := (s.newEntry id queuedAt now).update u s.lag
        some (s.add y p)

def spooled (id : String) (u : Update) : Option Service :=
  (s.lookup id).map fun x => let (y, p) := x.update u s.lag; s.put y p

def remove (x : Entry) : Service :=
  { s with
    finalizing := deleteWhere (·.id = x.id) s.finalizing
    lag := if x.item.done.isSome then s.lag.endPending x.token else s.lag }

def dropFinalizer (id : String) : Service := ((s.lookup id).map s.remove).getD s

def abandonFinalizers : Service :=
  { s with
    finalizing := []
    lag := s.finalizing.foldl (fun p x => if x.item.done.isSome then p.endPending x.token else p) s.lag }

def modifyItem (ref : ℕ) (f : FinalItem → FinalItem) : Service :=
  { s with finalizing := updateWhere (·.item.ref = ref) (fun x => { x with item := f x.item }) s.finalizing }

def retire (id : String) (v : FinalItemView) : Service :=
  match s.lookup id with
  | some x =>
    if x.item.ref = v.ref && !x.item.create && x.item.start.isNone && (v.done.isSome || x.item.done.isNone) then
      s.remove x
    else s
  | none => s

def goto (w : Writer) : Service := { s with writer := w }

def due (now : ℤ) : List PassView :=
  (s.finalizing.filter (·.item.nextTry ≤ now)).map fun x => ⟨x.id, x.queuedAt, x.item.view⟩

end Service

inductive WriterMove : WriterPc → WriterPc → Prop
  | createNothing {v : FinalItemView} (hv : v.create = false) : WriterMove (.creating v) (.starting v)
  | create {v : FinalItemView} (hv : v.create = true) : WriterMove (.creating v) (.created v)
  | createRefused {v : FinalItemView} (hv : v.create = true) : WriterMove (.creating v) (.looking v)
  | createFailed {v : FinalItemView} (hv : v.create = true) : WriterMove (.creating v) (.delaying v)
  | found {v : FinalItemView} : WriterMove (.looking v) (.created v)
  | conflict {v : FinalItemView} : WriterMove (.looking v) .dropping
  | startNothing {v : FinalItemView} (hv : v.start = none) : WriterMove (.starting v) (.finishing v)
  | start {v : FinalItemView} (hv : v.start.isSome) : WriterMove (.starting v) (.started v)
  | startFailed {v : FinalItemView} (hv : v.start.isSome) : WriterMove (.starting v) (.delaying v)
  | finishNothing {v : FinalItemView} (hv : v.done = none) : WriterMove (.finishing v) (.retiring v)
  | finish {v : FinalItemView} (hv : v.done.isSome) : WriterMove (.finishing v) (.retiring v)
  | finishRefused {v : FinalItemView} (hv : v.done.isSome) : WriterMove (.finishing v) .dropping
  | finishFailed {v : FinalItemView} (hv : v.done.isSome) : WriterMove (.finishing v) (.delaying v)

inductive LagEvent
  | run
  | writer
  | environment

inductive LagStep : Service → LagEvent → Service → Prop
  | spool {s s' : Service} (id : String) (queuedAt now : ℤ) (u : Update)
      (h : s.spool id queuedAt now u = some s') :
      LagStep s .run s'
  | spooled {s s' : Service} (id : String) (u : Update) (h : s.spooled id u = some s') : LagStep s .run s'
  -- the writer's loop could not be started, or the run is not launched
  | drop {s : Service} (id : String) : LagStep s .run (s.dropFinalizer id)
  | health {s : Service} (down : Bool) : LagStep s .environment { s with down := down }
  | shutdown {s : Service} : LagStep s .environment { s with closing := true }
  | snapshot {s : Service} (now : ℤ) {views : List PassView} (hw : s.writer = .idle) (hc : s.closing = false)
      (hviews : views.Perm (s.due now)) (hsorted : views.Pairwise (·.queuedAt ≤ ·.queuedAt)) :
      LagStep s .writer (s.goto (.passing views 0))
  | turn {s : Service} {v : PassView} {views : List PassView} {streak : ℕ}
      (hw : s.writer = .passing (v :: views) streak) (hc : s.closing = false) :
      LagStep s .writer (s.goto (.writing v.id (.creating v.view) views streak))
  | finished {s : Service} {views : List PassView} {streak : ℕ} (hw : s.writer = .passing views streak)
      (h : views = [] ∨ s.closing = true) : LagStep s .writer (s.goto .idle)
  | move {s : Service} {id : String} {pc pc' : WriterPc} {views : List PassView} {streak : ℕ}
      (hw : s.writer = .writing id pc views streak) (h : WriterMove pc pc') :
      LagStep s .writer (s.goto (.writing id pc' views streak))
  | created {s : Service} {id : String} {v : FinalItemView} {views : List PassView} {streak : ℕ}
      (hw : s.writer = .writing id (.created v) views streak) :
      LagStep s .writer ((s.modifyItem v.ref FinalItem.stored).goto (.writing id (.starting v) views streak))
  | started {s : Service} {id : String} {v : FinalItemView} {views : List PassView} {streak : ℕ}
      (hw : s.writer = .writing id (.started v) views streak) :
      LagStep s .writer ((s.modifyItem v.ref FinalItem.running).goto (.writing id (.finishing v) views streak))
  | retire {s : Service} {id : String} {v : FinalItemView} {views : List PassView} {streak : ℕ}
      (hw : s.writer = .writing id (.retiring v) views streak) :
      LagStep s .writer ((s.retire id v).goto (.passing views 0))
  | rejected {s : Service} {id : String} {views : List PassView} {streak : ℕ}
      (hw : s.writer = .writing id .dropping views streak) :
      LagStep s .writer ((s.dropFinalizer id).goto (.passing views 0))
  | delayed {s : Service} {id : String} {v : FinalItemView} {views : List PassView} {streak : ℕ} (now : ℤ)
      (hw : s.writer = .writing id (.delaying v) views streak) :
      LagStep s .writer
        ((s.modifyItem v.ref (·.delay now)).goto
          (if streak + 1 ≥ finalizerFailStreak then .idle else .passing views (streak + 1)))
  -- a panic of the pass
  | panicked {s : Service} (hw : s.writer ≠ .stopped) : LagStep s .writer (s.goto .idle)
  | abandon {s : Service} (hw : s.writer = .idle) (hc : s.closing = true) :
      LagStep s .writer (s.abandonFinalizers.goto .stopped)

/-! ## Tokens of the items -/

def itemTokens (xs : List Entry) : List ℕ := (xs.filter (·.item.done.isSome)).map (·.token)

lemma itemTokens_append (xs ys : List Entry) : itemTokens (xs ++ ys) = itemTokens xs ++ itemTokens ys := by
  rw [itemTokens, List.filter_append, List.map_append]
  rfl

lemma itemTokens_cons (x : Entry) (xs : List Entry) :
    itemTokens (x :: xs) = if x.item.done.isSome then x.token :: itemTokens xs else itemTokens xs := by
  rw [itemTokens, List.filter_cons]
  split_ifs <;> rfl

/-- The tokens of some items are the pending ones, and every token that was issued is pending or was ended once. -/
structure PersistLag.Covers (p : PersistLag) (xs : List Entry) : Prop where
  pending : p.tokens.Perm (itemTokens xs)
  issued : (p.tokens ++ p.ended).Perm (List.range' 1 p.next)

namespace PersistLag.Covers

variable {p : PersistLag} {xs before after : List Entry} {x : Entry}

lemma congr {ys : List Entry} (h : p.Covers xs) (hxs : itemTokens ys = itemTokens xs) : p.Covers ys :=
  ⟨hxs ▸ h.pending, h.issued⟩

lemma nodup (h : p.Covers xs) : p.tokens.Nodup :=
  (List.nodup_append.mp (h.issued.nodup_iff.mpr List.nodup_range')).1

lemma startPending (h : p.Covers (before ++ after)) (hx : x.item.done.isSome) (ended : ℤ)
    (htoken : x.token = p.next + 1) : (p.startPending ended).2.Covers (before ++ x :: after) where
  pending := by
    rw [itemTokens_append, itemTokens_cons, if_pos hx, htoken]
    refine .trans (.cons _ ?_) List.perm_middle.symm
    rw [← itemTokens_append]
    exact h.pending
  issued := by
    change List.Perm ((p.next + 1) :: (p.tokens ++ p.ended)) (List.range' 1 (p.next + 1))
    rw [List.range'_1_concat, Nat.add_comm 1]
    exact (h.issued.cons _).trans (List.perm_append_singleton _ _).symm

lemma endPending (h : p.Covers (before ++ x :: after)) (hx : x.item.done.isSome) :
    (p.endPending x.token).Covers (before ++ after) := by
  have hpending := h.pending
  rw [itemTokens_append, itemTokens_cons, if_pos hx] at hpending
  replace hpending := hpending.trans List.perm_middle
  rw [← itemTokens_append] at hpending
  have hfilter : (p.endPending x.token).tokens = p.tokens.erase x.token := by
    rw [h.nodup.erase_eq_filter, tokens, tokens, List.filter_map]
    exact congrArg (List.map _) (List.filter_congr fun y _ => Bool.eq_iff_iff.mpr (by simp))
  have hmem : x.token ∈ p.tokens := hpending.mem_iff.mpr List.mem_cons_self
  constructor
  case pending =>
    rw [hfilter]
    exact (hpending.erase _).trans (by rw [List.erase_cons_head])
  case issued =>
    rw [hfilter]
    refine .trans ?_ h.issued
    exact List.perm_middle.trans ((List.perm_cons_erase hmem).symm.append_right p.ended)

end PersistLag.Covers

/-! ## Updates and removals -/

lemma Update.done_apply (u : Update) {it : FinalItem} (h : it.done.isSome) : (u.apply it).done.isSome := by
  cases u with
  | row t => cases t <;> simp [Update.apply, deferRow, FinalItem.setCreate, FinalItem.setDone, h]
  | start info => exact h
  | terminal t => rfl

section

variable {x : Entry} {p : PersistLag} {before after : List Entry}

lemma Entry.id_update (x : Entry) (u : Update) (p : PersistLag) : (x.update u p).1.id = x.id := by
  rw [Entry.update]
  split <;> rfl

lemma Entry.update_covers (u : Update) (h : p.Covers (before ++ x :: after)) :
    (x.update u p).2.Covers (before ++ (x.update u p).1 :: after) := by
  rw [Entry.update]
  split
  case h_1 t hold hnew =>
    have hothers : p.Covers (before ++ after) := h.congr (by
      rw [itemTokens_append, itemTokens_append, itemTokens_cons, if_neg (by simp [hold])])
    exact hothers.startPending (by simp [hnew]) t.ended rfl
  case h_2 hother =>
    apply h.congr
    rw [itemTokens_append, itemTokens_append, itemTokens_cons, itemTokens_cons]
    -- the item had a terminal state before, or has none now
    cases hold : x.item.done with
    | some t =>
      have hdone : x.item.done.isSome := by simp [hold]
      simp [u.done_apply hdone]
    | none =>
      cases hnew : (u.apply x.item).done with
      | none => simp
      | some t => exact absurd hnew (hother t hold)

lemma PersistLag.Covers.abandon (h : p.Covers before) :
    (before.foldl (fun p x => if x.item.done.isSome then p.endPending x.token else p) p).Covers [] := by
  induction before generalizing p with
  | nil => exact h
  | cons x before ih =>
    apply ih
    dsimp only
    split_ifs with hx
    case pos => exact @PersistLag.Covers.endPending p [] before x h hx
    case neg =>
      apply h.congr
      rw [itemTokens_cons, if_neg hx]

end

namespace Service

variable {s s' : Service} {x y : Entry} {id : String}

structure Sound (s : Service) : Prop where
  ids : (s.finalizing.map (·.id)).Nodup
  covers : s.lag.Covers s.finalizing

lemma Sound.start (limit : ℤ) : Sound { maxFinalizers := limit } := ⟨.nil, .rfl, .rfl⟩

lemma Sound.focus (h : s.Sound) (hx : s.lookup id = some x) : x.id = id ∧ ∃ before after,
    s.finalizing = before ++ x :: after ∧ ∀ z ∈ before ++ after, z.id ≠ x.id := by
  have hid : x.id = id := by simpa using List.find?_some hx
  obtain ⟨before, after, hfinalizing⟩ := List.append_of_mem (List.mem_of_find?_eq_some hx)
  refine ⟨hid, before, after, hfinalizing, ?_⟩
  have hids := h.ids
  rw [hfinalizing, List.map_append, List.map_cons, List.nodup_middle, List.nodup_cons, ← List.map_append] at hids
  exact fun z hz heq => hids.1 (List.mem_map.mpr ⟨z, hz, heq⟩)

lemma updateWhere_focus {before after : List Entry} (hne : ∀ z ∈ before ++ after, z.id ≠ x.id)
    (hid : y.id = x.id) :
    updateWhere (·.id = y.id) (fun _ => y) (before ++ x :: after) = before ++ y :: after := by
  have hkeep : ∀ zs : List Entry, (∀ z ∈ zs, z.id ≠ x.id) → updateWhere (·.id = y.id) (fun _ => y) zs = zs := by
    intro zs hzs
    refine (List.map_congr_left fun z hz => ?_).trans (List.map_id zs)
    simp [hid, hzs z hz]
  rw [List.forall_mem_append] at hne
  rw [updateWhere, List.map_append, List.map_cons]
  exact congrArg₂ _ (hkeep before hne.1) (congrArg₂ _ (by simp [hid]) (hkeep after hne.2))

lemma deleteWhere_focus {before after : List Entry} (hne : ∀ z ∈ before ++ after, z.id ≠ x.id) :
    deleteWhere (·.id = x.id) (before ++ x :: after) = before ++ after := by
  rw [deleteWhere, List.filter_append, List.filter_cons_of_neg (by simp), ← List.filter_append]
  exact List.filter_eq_self.mpr fun z hz => by simpa using hne z hz

lemma Sound.put (h : s.Sound) (hx : s.lookup id = some x) (u : Update) :
    (s.put (x.update u s.lag).1 (x.update u s.lag).2).Sound := by
  obtain ⟨-, before, after, hfinalizing, hne⟩ := h.focus hx
  have hput : (s.put (x.update u s.lag).1 (x.update u s.lag).2).finalizing =
      before ++ (x.update u s.lag).1 :: after := by
    rw [Service.put, hfinalizing]
    exact updateWhere_focus hne (x.id_update u s.lag)
  constructor
  case ids =>
    rw [hput, List.map_append, List.map_cons, x.id_update, ← List.map_cons, ← List.map_append, ← hfinalizing]
    exact h.ids
  case covers =>
    rw [hput]
    exact x.update_covers u (hfinalizing ▸ h.covers)

lemma Sound.remove (h : s.Sound) (hx : s.lookup id = some x) : (s.remove x).Sound := by
  obtain ⟨-, before, after, hfinalizing, hne⟩ := h.focus hx
  have hremove : (s.remove x).finalizing = before ++ after := by
    rw [Service.remove, hfinalizing]
    exact deleteWhere_focus hne
  have hcovers := hfinalizing ▸ h.covers
  constructor
  case ids => exact h.ids.sublist (deleteWhere_sublist.map _)
  case covers =>
    rw [hremove]
    dsimp only [Service.remove]
    split_ifs with hdone
    case pos => exact hcovers.endPending hdone
    case neg =>
      apply hcovers.congr
      rw [itemTokens_append, itemTokens_append, itemTokens_cons, if_neg hdone]

lemma Sound.dropFinalizer (h : s.Sound) (id : String) : (s.dropFinalizer id).Sound := by
  rw [Service.dropFinalizer]
  cases hx : s.lookup id with
  | none => exact h
  | some x => exact h.remove hx

lemma Sound.retire (h : s.Sound) (id : String) (v : FinalItemView) : (s.retire id v).Sound := by
  rw [Service.retire]
  cases hx : s.lookup id with
  | none => exact h
  | some x =>
    dsimp only
    split_ifs
    · exact h.remove hx
    · exact h

lemma Sound.spooled (h : s.Sound) {u : Update} (hs : s.spooled id u = some s') : s'.Sound := by
  obtain ⟨x, hx, rfl⟩ := Option.map_eq_some_iff.mp hs
  exact h.put hx u

lemma Sound.add (h : s.Sound) (hfresh : ∀ z ∈ s.finalizing, z.id ≠ x.id) (hx : x.item.done = none) (u : Update) :
    (s.add (x.update u s.lag).1 (x.update u s.lag).2).Sound := by
  constructor
  case ids =>
    apply nodup_append_fresh h.ids
    rw [Entry.id_update]
    exact hfresh
  case covers =>
    apply Entry.update_covers
    apply h.covers.congr
    rw [itemTokens_append, itemTokens_cons, if_neg (by simp [hx])]
    exact List.append_nil _

lemma Sound.spool (h : s.Sound) {queuedAt now : ℤ} {u : Update} (hs : s.spool id queuedAt now u = some s') :
    s'.Sound := by
  rw [Service.spool, Option.ite_none_left_eq_some] at hs
  obtain ⟨-, hs⟩ := hs
  cases hx : s.lookup id with
  | some x =>
    rw [hx] at hs
    obtain rfl := Option.some.inj hs
    exact h.put hx u
  | none =>
    rw [hx] at hs
    obtain ⟨-, hs⟩ := Option.ite_none_left_eq_some.mp hs
    obtain rfl := Option.some.inj hs
    refine h.add ?_ rfl u
    simpa [Service.lookup, Service.newEntry] using hx

lemma Sound.modifyItem (h : s.Sound) (ref : ℕ) {f : FinalItem → FinalItem} (hf : ∀ it, (f it).done = it.done) :
    (s.modifyItem ref f).Sound := by
  constructor
  case ids =>
    have hmap : (s.modifyItem ref f).finalizing.map (·.id) = s.finalizing.map (·.id) :=
      map_updateWhere fun _ => rfl
    rw [hmap]
    exact h.ids
  case covers =>
    apply h.covers.congr
    rw [Service.modifyItem]
    induction s.finalizing with
    | nil => rfl
    | cons x xs ih =>
      change itemTokens ((if _ then _ else x) :: updateWhere _ _ xs) = _
      rw [itemTokens_cons, itemTokens_cons, ih]
      split_ifs <;> simp_all

lemma Sound.goto (h : s.Sound) (w : Writer) : (s.goto w).Sound := ⟨h.ids, h.covers⟩

lemma Sound.abandonFinalizers (h : s.Sound) : s.abandonFinalizers.Sound := ⟨.nil, h.covers.abandon⟩

end Service

lemma LagStep.sound {s t : Service} {e : LagEvent} (h : LagStep s e t) (hs : s.Sound) : t.Sound := by
  cases h with
  | spool id queuedAt now u h => exact hs.spool h
  | spooled id u h => exact hs.spooled h
  | drop id => exact hs.dropFinalizer id
  | health down | shutdown => exact ⟨hs.ids, hs.covers⟩
  | created hw => exact (hs.modifyItem _ (f := FinalItem.stored) fun _ => rfl).goto _
  | started hw => exact (hs.modifyItem _ (f := FinalItem.running) fun _ => rfl).goto _
  | delayed now hw => exact (hs.modifyItem _ (f := (·.delay now)) fun _ => rfl).goto _
  | retire hw => exact (hs.retire _ _).goto _
  | rejected hw => exact (hs.dropFinalizer _).goto _
  | abandon hw hc => exact hs.abandonFinalizers.goto _
  | _ => exact hs.goto _

/-- In every state of the spool and the writer, the pending tokens are those of the items with a terminal outcome,
which have one each, and every token that was issued is either pending or was ended exactly once. -/
theorem lag_tokens_match {limit : ℤ} {events : List LagEvent} {s : Service}
    (h : Run LagStep { maxFinalizers := limit } events s) :
    (∀ k, k ∈ s.lag.tokens ↔ ∃ x ∈ s.finalizing, x.item.done.isSome ∧ x.token = k) ∧
      s.lag.tokens.Nodup ∧ (itemTokens s.finalizing).Nodup ∧ s.lag.ended.Nodup ∧
      (∀ k ∈ s.lag.ended, k ∉ s.lag.tokens) ∧
      ∀ k, (1 ≤ k ∧ k ≤ s.lag.next) ↔ k ∈ s.lag.tokens ∨ k ∈ s.lag.ended := by
  have hs : s.Sound := h.invariant (fun _ _ _ => LagStep.sound) (.start limit)
  have hissued := hs.covers.issued
  obtain ⟨hpending, hended, hdisjoint⟩ := List.nodup_append.mp (hissued.nodup_iff.mpr List.nodup_range')
  refine ⟨fun k => ?_, hpending, hs.covers.pending.nodup_iff.mp hpending, hended, ?_, fun k => ?_⟩
  · rw [hs.covers.pending.mem_iff]
    simp [itemTokens, and_assoc]
  · exact fun k hk hk' => hdisjoint k hk' k hk rfl
  · rw [← List.mem_append, hissued.mem_iff, List.mem_range'_1]
    omega

theorem lag_tokens_match_late : ∃ (events : List LagEvent) (s : Service) (x : Entry),
    Run LagStep { maxFinalizers := 256 } events s ∧ s.finalizing = [x] ∧ x.item.done.isSome ∧
      s.writer = .passing [] 0 ∧ x.token ∈ s.lag.tokens ∧ x.token ∉ s.lag.ended := by
  let t : Terminal := ⟨⟨.succeeded, "exit", some 0, "", 5, 0, false, none⟩, true⟩
  have hrun : Run LagStep { maxFinalizers := 256 }
      [.run, .writer, .writer, .writer, .writer, .run, .writer, .writer, .writer] _ :=
    .cons (.spool "a" 0 0 (.row none) rfl) <|
    .cons (.snapshot 0 rfl rfl .rfl (List.pairwise_singleton _ _)) <|
    .cons (.turn rfl rfl) <|
    .cons (.move rfl (.create rfl)) <|
    .cons (.created rfl) <|
    .cons (.spooled "a" (.terminal t) rfl) <|
    .cons (.move rfl (.startNothing rfl)) <|
    .cons (.move rfl (.finishNothing rfl)) <|
    .cons (.retire rfl) (.nil _)
  obtain ⟨hpending, -, -, -, hended, -⟩ := lag_tokens_match hrun
  have hmem := (hpending 1).mpr ⟨_, List.mem_singleton_self _, rfl, rfl⟩
  exact ⟨_, _, _, hrun, rfl, rfl, rfl, hmem, fun h => hended _ h hmem⟩

end Minicrond.Executor.LagTokens
