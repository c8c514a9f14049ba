import Minicrond.Logs.Capture

/-! The books of a writer: what the buffer holds, which chunks are indexed, and that the size limit is
kept, whatever fails. -/

namespace Minicrond.Logs.Capture

def raws (idx : List ChunkMeta) : ℕ := (idx.map (·.raw)).sum

lemma raws_singleton (m : ChunkMeta) : raws [m] = m.raw := List.sum_singleton

lemma raws_append (idx : List ChunkMeta) (m : ChunkMeta) : raws (idx ++ [m]) = raws idx + m.raw := by
  rw [raws, List.map_append, List.sum_append]
  rfl

namespace Buffer

def Settled (b : Buffer) : Prop := b.indexed = true ∨ b.chunkRaw = 0

structure Books (b : Buffer) : Prop where
  balance : b.buffered = raws b.idx + if b.indexed then 0 else b.chunkRaw
  numbers : b.idx.Pairwise (·.number < ·.number)
  nonempty : ∀ m ∈ b.idx, m.first ≤ m.last
  disjoint : b.idx.Pairwise (·.last < ·.first)
  number_le : ∀ m ∈ b.idx, m.number ≤ b.chunk
  last_le : ∀ m ∈ b.idx, m.last ≤ b.seq
  last_lt : ∀ m ∈ b.idx, m.number < b.chunk → m.last < b.chunkFirst
  first_le : b.chunkFirst ≤ b.seq + 1
  stored_le : b.lastStored ≤ b.seq
  stored : 0 < b.chunkRaw → b.enc = true ∧ b.chunkFirst ≤ b.lastStored
  writable : b.file = true → b.indexed = false ∧ b.chunkErr = none
  abandoned : b.file = false → b.chunkErr = none → b.Settled
  sealed : ∀ f, b.chunkErr = some f → f.indexOnly = true → b.Settled

variable {b : Buffer}

lemma indexed_eq_true : b.indexed = true ↔ ∃ m ∈ b.idx, m.number = b.chunk := by
  simp only [indexed, List.any_eq_true, decide_eq_true_eq]

lemma indexed_eq_false : b.indexed = false ↔ ∀ m ∈ b.idx, m.number ≠ b.chunk := by
  simp only [indexed, List.any_eq_false, decide_eq_true_eq, ne_eq]

def push (b : Buffer) (last size raw : ℕ) : Buffer :=
  { b with
    file := false, chunkErr := none, chunkRaw := raw
    idx := b.idx ++ [⟨b.chunk, b.chunkFirst, last, size, b.chunkRaw⟩] }

lemma indexed_push (b : Buffer) (last size raw : ℕ) : (b.push last size raw).indexed = true :=
  indexed_eq_true.2 ⟨_, List.mem_append_right _ (List.mem_singleton_self _), rfl⟩

namespace Books

lemma balance_of_settled (h : b.Books) (hsettled : b.Settled) : b.buffered = raws b.idx := by
  rw [h.balance]
  rcases hsettled with hindexed | hraw
  · rw [if_pos hindexed]
    exact add_zero _
  · rw [hraw]
    simp

lemma balance_of_not_indexed (h : b.Books) (hindexed : b.indexed = false) :
    b.buffered = raws b.idx + b.chunkRaw := by
  rw [h.balance, hindexed]
  rfl

lemma empty : Buffer.empty.Books := by
  constructor <;> simp [Buffer.empty, raws, indexed, Settled]

lemma startChunk (h : b.Books) (hsettled : b.Settled) (herr : b.chunkErr = none) : b.startChunk.Books := by
  have hindexed : b.startChunk.indexed = false :=
    indexed_eq_false.2 fun m hm => ((h.number_le m hm).trans_lt (Nat.lt_succ_self _)).ne
  constructor
  case balance =>
    rw [hindexed]
    exact h.balance_of_settled hsettled
  case numbers => exact h.numbers
  case nonempty => exact h.nonempty
  case disjoint => exact h.disjoint
  case number_le => exact fun m hm => (h.number_le m hm).trans (Nat.le_succ _)
  case last_le => exact h.last_le
  case last_lt => exact fun m hm _ => Nat.lt_succ_of_le (h.last_le m hm)
  case first_le => exact le_rfl
  case stored_le => exact h.stored_le
  case stored => exact fun hraw => absurd hraw (Nat.lt_irrefl 0)
  case writable => exact fun _ => ⟨hindexed, herr⟩
  case abandoned => exact nofun
  case sealed => exact fun f hf => nomatch herr.symm.trans hf

lemma push (h : b.Books) (hindexed : b.indexed = false) {last raw : ℕ} (size : ℕ) (hfirst : b.chunkFirst ≤ last)
    (hlast : last ≤ b.seq) (hraw : 0 < raw → raw = b.chunkRaw) : (b.push last size raw).Books := by
  have hlt : ∀ m ∈ b.idx, m.number < b.chunk :=
    fun m hm => lt_of_le_of_ne (h.number_le m hm) (indexed_eq_false.1 hindexed m hm)
  have hpush : ∀ {r : ChunkMeta → ChunkMeta → Prop} {m : ChunkMeta}, b.idx.Pairwise r → (∀ a ∈ b.idx, r a m) →
      (b.idx ++ [m]).Pairwise r := fun hr hm =>
    List.pairwise_append.2 ⟨hr, List.pairwise_singleton _ _, fun a ha c hc => List.mem_singleton.1 hc ▸ hm a ha⟩
  have hall : ∀ {P : ChunkMeta → Prop} {m : ChunkMeta}, (∀ a ∈ b.idx, P a) → P m → ∀ a ∈ b.idx ++ [m], P a :=
    fun hP hm a ha => (List.mem_append.1 ha).elim (hP a) fun ha => List.mem_singleton.1 ha ▸ hm
  constructor
  case balance =>
    refine (h.balance_of_not_indexed hindexed).trans ?_
    rw [if_pos (indexed_push ..), Buffer.push, raws_append]
    dsimp only
    omega
  case numbers => exact hpush h.numbers hlt
  case nonempty => exact hall h.nonempty hfirst
  case disjoint => exact hpush h.disjoint fun m hm => h.last_lt m hm (hlt m hm)
  case number_le => exact hall h.number_le le_rfl
  case last_le => exact hall h.last_le hlast
  case last_lt => exact hall h.last_lt fun hchunk => absurd hchunk (Nat.lt_irrefl _)
  case first_le => exact h.first_le
  case stored_le => exact h.stored_le
  case stored => exact fun hpos => h.stored (hraw hpos ▸ hpos)
  case writable => exact nofun
  case abandoned => exact fun _ _ => .inl (indexed_push ..)
  case sealed => exact nofun

lemma abandon (h : b.Books) (hsettled : b.Settled) : Books { b with file := false, chunkErr := none } where
  balance := h.balance
  numbers := h.numbers
  nonempty := h.nonempty
  disjoint := h.disjoint
  number_le := h.number_le
  last_le := h.last_le
  last_lt := h.last_lt
  first_le := h.first_le
  stored_le := h.stored_le
  stored := h.stored
  writable := nofun
  abandoned := fun _ _ => hsettled
  sealed := nofun

lemma fail (h : b.Books) (f : ChunkFailure) (hindexOnly : f.indexOnly = true → b.Settled) :
    Books { b with file := false, chunkErr := some f } where
  balance := h.balance
  numbers := h.numbers
  nonempty := h.nonempty
  disjoint := h.disjoint
  number_le := h.number_le
  last_le := h.last_le
  last_lt := h.last_lt
  first_le := h.first_le
  stored_le := h.stored_le
  stored := h.stored
  writable := nofun
  abandoned := nofun
  sealed := fun _ hf hi => hindexOnly (Option.some.inj hf ▸ hi)

lemma relabel (h : b.Books) (err : Err) :
    Books { b with chunkErr := b.chunkErr.map fun f => { f with err := err } } where
  balance := h.balance
  numbers := h.numbers
  nonempty := h.nonempty
  disjoint := h.disjoint
  number_le := h.number_le
  last_le := h.last_le
  last_lt := h.last_lt
  first_le := h.first_le
  stored_le := h.stored_le
  stored := h.stored
  writable := fun hfile => ⟨(h.writable hfile).1, Option.map_eq_none_iff.2 (h.writable hfile).2⟩
  abandoned := fun hfile herr => h.abandoned hfile (Option.map_eq_none_iff.1 herr)
  sealed := by
    intro f hf hindexOnly
    obtain ⟨g, hg, rfl⟩ := Option.map_eq_some_iff.1 hf
    exact h.sealed g hg hindexOnly

lemma raw_eq_zero (h : b.Books) (hcold : ¬ (b.enc = true ∧ b.chunkFirst ≤ b.lastStored)) : b.chunkRaw = 0 :=
  Nat.eq_zero_of_not_pos fun hpos => hcold (h.stored hpos)

end Books

structure Kept (b b' : Buffer) : Prop where
  seq : b'.seq = b.seq
  buffered : b'.buffered = b.buffered
  chunk : b.chunk ≤ b'.chunk

lemma Kept.refl (b : Buffer) : b.Kept b := ⟨rfl, rfl, le_rfl⟩

lemma Kept.trans {b c d : Buffer} (h : b.Kept c) (h' : c.Kept d) : b.Kept d :=
  ⟨h'.seq.trans h.seq, h'.buffered.trans h.buffered, h.chunk.trans h'.chunk⟩

structure Keeps (Q : Buffer → Prop) (b : Buffer) (r : Buffer × Option Err) : Prop where
  books : r.1.Books
  kept : b.Kept r.1
  done : r.2 = none → Q r.1

structure Finished (b : Buffer) : Prop where
  settled : b.Settled
  err : b.chunkErr = none

structure Fresh (b : Buffer) : Prop where
  file : b.file = true
  enc : b.enc = true
  raw : b.chunkRaw = 0

lemma keeps_installIndex (h : b.Books) (hfile : b.file = false) (hdone : b.Finished) (index : Option Err) :
    Keeps Finished b (b.installIndex index) := by
  cases index with
  | some e =>
    have hfail := h.fail ⟨"index log chunk " ++ toString b.chunk ++ ": " ++ e, true⟩ fun _ => hdone.settled
    rw [← hfile] at hfail
    exact ⟨hfail, ⟨rfl, rfl, le_rfl⟩, nofun⟩
  | none => exact ⟨h, .refl b, fun _ => hdone⟩

lemma keeps_addSealed (h : b.Books) (hfile : b.file = true) (size : ℕ) :
    (addSealed { b with file := false } size).Books ∧ b.Kept (addSealed { b with file := false } size) ∧
      (addSealed { b with file := false } size).file = false ∧
      (addSealed { b with file := false } size).Finished := by
  obtain ⟨hindexed, herr⟩ := h.writable hfile
  unfold addSealed
  split
  case isTrue hle =>
    have hpush := h.push hindexed size hle le_rfl fun _ => rfl
    rw [Buffer.push, ← herr] at hpush
    refine ⟨hpush, ⟨rfl, rfl, le_rfl⟩, rfl, .inl ?_, herr⟩
    exact indexed_push b b.seq size b.chunkRaw
  case isFalse hlt =>
    have hraw : b.chunkRaw = 0 := h.raw_eq_zero fun hstored => hlt (hstored.2.trans h.stored_le)
    have habandon := h.abandon (.inr hraw)
    rw [← herr] at habandon
    exact ⟨habandon, ⟨rfl, rfl, le_rfl⟩, rfl, .inr hraw, herr⟩

lemma keeps_finishChunk (h : b.Books) (io : SealIO) : Keeps Finished b (b.finishChunk io) := by
  unfold finishChunk
  split
  case isTrue hfile =>
    cases io.close with
    | some e => exact ⟨h.fail ⟨_, false⟩ nofun, ⟨rfl, rfl, le_rfl⟩, nofun⟩
    | none =>
      obtain ⟨hbooks, hkept, hclosed, hdone⟩ := keeps_addSealed h hfile io.size
      have hinstall := keeps_installIndex hbooks hclosed hdone io.index
      exact ⟨hinstall.books, hkept.trans hinstall.kept, hinstall.done⟩
  case isFalse hfile =>
    have hfile : b.file = false := Bool.eq_false_iff.2 hfile
    split
    case isTrue hnone =>
      have herr : b.chunkErr = none := Option.isNone_iff_eq_none.1 (Bool.and_eq_true_iff.1 hnone).1
      exact keeps_installIndex h hfile ⟨h.abandoned hfile herr, herr⟩ io.index
    case isFalse =>
      refine ⟨h, .refl b, fun hnone => ?_⟩
      have herr : b.chunkErr = none := Option.map_eq_none_iff.1 hnone
      exact ⟨h.abandoned hfile herr, herr⟩

lemma keeps_rotate (h : b.Books) (io : RotateIO) : Keeps (fun b' => b'.Fresh) b (b.rotate io) := by
  unfold rotate
  cases herr : b.chunkErr with
  | some f => exact ⟨h, .refl b, nofun⟩
  | none =>
    cases io.create with
    | some e => exact ⟨h, .refl b, nofun⟩
    | none =>
      have hfinish : Keeps Finished b (if b.enc && b.file then b.finishChunk io.finish else (b, none)) := by
        split
        case isTrue => exact keeps_finishChunk h io.finish
        case isFalse hcold =>
          refine ⟨h, .refl b, fun _ => ⟨?_, herr⟩⟩
          cases hfile : b.file with
          | false => exact h.abandoned hfile herr
          | true => exact .inr (h.raw_eq_zero fun hstored => hcold (by rw [hstored.1, hfile]; rfl))
      revert hfinish
      generalize (if b.enc && b.file then b.finishChunk io.finish else (b, none)) = r
      obtain ⟨c, err⟩ := r
      rintro ⟨hbooks, hkept, hdone⟩
      cases err with
      | some e => exact ⟨hbooks.relabel _, ⟨hkept.seq, hkept.buffered, hkept.chunk⟩, nofun⟩
      | none =>
        dsimp only
        cases (if c.enc then none else io.encoder) with
        | some e => exact ⟨hbooks, hkept, nofun⟩
        | none =>
          have hkept' : b.Kept c.startChunk := ⟨hkept.seq, hkept.buffered, hkept.chunk.trans (Nat.le_succ _)⟩
          exact ⟨hbooks.startChunk (hdone rfl).settled (hdone rfl).err, hkept', fun _ => ⟨rfl, rfl, rfl⟩⟩

lemma Books.getLast_of_indexed (h : b.Books) (hindexed : b.indexed = true) :
    b.idx.getLast?.any (·.number = b.chunk) = true := by
  obtain ⟨m, hm, hnumber⟩ := indexed_eq_true.1 hindexed
  have hne : b.idx ≠ [] := List.ne_nil_of_mem hm
  have hsplit := List.dropLast_append_getLast hne
  have hlast : b.idx.getLast hne ∈ b.idx := List.getLast_mem hne
  rw [List.getLast?_eq_getLast_of_ne_nil hne, Option.any_some, decide_eq_true_eq]
  rw [← hsplit, List.mem_append, List.mem_singleton] at hm
  rcases hm with hm | rfl
  · have hnumbers := h.numbers
    rw [← hsplit] at hnumbers
    have hlt := (List.pairwise_append.1 hnumbers).2.2 m hm _ (List.mem_singleton_self _)
    exact absurd (h.number_le _ hlast) (Nat.not_le.2 (hnumber ▸ hlt))
  · exact hnumber

lemma keeps_abandoned (h : b.Books) (size : ℕ) :
    (indexAbandonedChunk { b with file := false, chunkErr := none } size).Books ∧
      b.Kept (indexAbandonedChunk { b with file := false, chunkErr := none } size) := by
  unfold indexAbandonedChunk
  split
  case isTrue hcold =>
    refine ⟨h.abandon (.inr (Nat.eq_zero_of_not_pos fun hpos => ?_)), ⟨rfl, rfl, le_rfl⟩⟩
    obtain ⟨henc, hfirst⟩ := h.stored hpos
    simp only [henc, Bool.not_true, Bool.false_or, Bool.or_eq_true, beq_iff_eq, decide_eq_true_eq] at hcold
    omega
  case isFalse hwarm =>
    split
    case isTrue hlast =>
      obtain ⟨m, hm, hnumber⟩ := (Option.any_eq_true _ _).1 hlast
      refine ⟨h.abandon (.inl ?_), ⟨rfl, rfl, le_rfl⟩⟩
      exact indexed_eq_true.2 ⟨m, List.mem_of_getLast? hm, of_decide_eq_true hnumber⟩
    case isFalse hlast =>
      have hindexed : b.indexed = false :=
        Bool.eq_false_iff.2 fun hindexed => hlast (h.getLast_of_indexed hindexed)
      simp only [Bool.or_eq_true, decide_eq_true_eq, not_or, Nat.not_lt] at hwarm
      exact ⟨h.push hindexed size hwarm.2 h.stored_le fun hpos => absurd hpos (Nat.lt_irrefl 0),
        ⟨rfl, rfl, le_rfl⟩⟩

lemma keeps_reopenChunk (h : b.Books) (io : ReopenIO) : Keeps (fun b' => b'.Fresh) b (b.reopenChunk io) := by
  have hrestart : Keeps (fun b' => b'.Fresh) b (b.restart io) := by
    obtain ⟨hbooks, hkept⟩ := keeps_abandoned h io.size
    unfold restart
    cases io.mkdir with
    | some e => exact ⟨hbooks, hkept, nofun⟩
    | none =>
      have hrotate := keeps_rotate hbooks io.rotate
      exact ⟨hrotate.books, hkept.trans hrotate.kept, hrotate.done⟩
  unfold reopenChunk
  split
  case h_1 => exact ⟨h, .refl b, nofun⟩
  case h_2 => exact hrestart

lemma Books.drop (h : b.Books) (n : ℕ) (total : ℤ)
    (hindexed : (b.idx.drop n).any (·.number = b.chunk) = b.indexed) :
    Books { b with idx := b.idx.drop n, total := total, buffered := b.buffered - raws (b.idx.take n) } where
  balance := by
    have hsplit : raws b.idx = raws (b.idx.take n) + raws (b.idx.drop n) := by
      rw [raws, raws, raws, ← List.sum_append, ← List.map_append, List.take_append_drop]
    change b.buffered - _ = raws (b.idx.drop n) + ((if (b.idx.drop n).any _ then 0 else b.chunkRaw : ℕ) : ℤ)
    rw [hindexed, h.balance, hsplit]
    push_cast
    omega
  numbers := h.numbers.sublist (List.drop_sublist ..)
  nonempty := fun m hm => h.nonempty m (List.mem_of_mem_drop hm)
  disjoint := h.disjoint.sublist (List.drop_sublist ..)
  number_le := fun m hm => h.number_le m (List.mem_of_mem_drop hm)
  last_le := fun m hm => h.last_le m (List.mem_of_mem_drop hm)
  last_lt := fun m hm => h.last_lt m (List.mem_of_mem_drop hm)
  first_le := h.first_le
  stored_le := h.stored_le
  stored := h.stored
  writable := fun hfile => ⟨hindexed.trans (h.writable hfile).1, (h.writable hfile).2⟩
  abandoned := fun hfile herr => (h.abandoned hfile herr).imp_left hindexed.trans
  sealed := fun f hf hi => (h.sealed f hf hi).imp_left hindexed.trans

structure Evicted (maxBytes size : ℕ) (b : Buffer) (r : Buffer × List ChunkMeta × Option Err) : Prop where
  books : r.1.Books
  file : r.1.file = b.file
  enc : r.1.enc = b.enc
  raw : r.1.chunkRaw = b.chunkRaw
  seq : r.1.seq = b.seq
  chunk : r.1.chunk = b.chunk
  le : r.1.buffered ≤ b.buffered
  room : r.2.2 = none → r.1.buffered + size ≤ maxBytes

lemma evict_evicted {remove : ℕ → Option Err} {maxBytes size : ℕ} (hsize : size ≤ maxBytes) (idx : List ChunkMeta)
    (h : b.Books) (hidx : b.idx = idx) (hfile : b.file = true) (hraw : b.chunkRaw = 0) :
    Evicted maxBytes size b (evict remove maxBytes size idx b) := by
  induction idx generalizing b with
  | nil =>
    refine ⟨h, rfl, rfl, rfl, rfl, rfl, le_rfl, fun _ => ?_⟩
    change b.buffered + size ≤ maxBytes
    rw [h.balance_of_settled (.inr hraw), hidx]
    simpa [raws] using hsize
  | cons m ms ih =>
    rw [evict]
    split
    case isFalse hfits => exact ⟨h, rfl, rfl, rfl, rfl, rfl, le_rfl, fun _ => not_lt.1 hfits⟩
    case isTrue =>
      cases remove m.number with
      | some e => exact ⟨h, rfl, rfl, rfl, rfl, rfl, le_rfl, nofun⟩
      | none =>
        have hindexed : (b.idx.drop 1).any (·.number = b.chunk) = b.indexed := by
          rw [(h.writable hfile).1, List.any_eq_false]
          intro a ha
          exact (List.any_eq_false.1 (h.writable hfile).1) a (List.mem_of_mem_drop ha)
        have hdrop := h.drop 1 (b.total - m.raw) hindexed
        simp only [hidx, List.drop_succ_cons, List.drop_zero, List.take_succ_cons, List.take_zero,
          raws_singleton] at hdrop
        have hrest := ih hdrop rfl hfile hraw
        refine ⟨hrest.books, hrest.file, hrest.enc, hrest.raw, hrest.seq, hrest.chunk, hrest.le.trans ?_,
          hrest.room⟩
        exact sub_le_self _ (Int.natCast_nonneg _)

lemma Books.encodeFrame (h : b.Books) (hfile : b.file = true) (henc : b.enc = true) (e : Entry)
    (encode : Option Err) : (b.encodeFrame e encode).1.Books ∧ (b.encodeFrame e encode).1.seq = b.seq + 1 ∧
      (b.encodeFrame e encode).1.chunk = b.chunk ∧ (b.encodeFrame e encode).1.buffered ≤ b.buffered + e.size := by
  obtain ⟨hindexed, herr⟩ := h.writable hfile
  cases encode with
  | some err =>
    refine ⟨?_, rfl, rfl, Int.le_add_of_nonneg_right (Int.natCast_nonneg _)⟩
    exact {
      h with
      last_le := fun m hm => (h.last_le m hm).trans (Nat.le_succ _)
      first_le := h.first_le.trans (Nat.le_succ _)
      stored_le := h.stored_le.trans (Nat.le_succ _) }
  | none =>
    refine ⟨?_, rfl, rfl, le_rfl⟩
    exact {
      h with
      balance := by
        change b.buffered + e.size = raws b.idx + ((if b.indexed then 0 else b.chunkRaw + e.size : ℕ) : ℤ)
        rw [h.balance_of_not_indexed hindexed, hindexed]
        push_cast
        omega
      last_le := fun m hm => (h.last_le m hm).trans (Nat.le_succ _)
      first_le := h.first_le.trans (Nat.le_succ _)
      stored_le := le_rfl
      stored := fun _ => ⟨henc, h.first_le⟩
      abandoned := fun hclosed => nomatch hclosed.symm.trans hfile
      sealed := fun f hf => nomatch herr.symm.trans hf }

end Buffer

/-! ## Writers -/

namespace Writer

structure Sound (w : Writer) : Prop where
  books : w.buffer.Books
  limit : 0 < w.maxBytes → w.buffer.buffered ≤ w.maxBytes

variable {w : Writer}

lemma Sound.of_kept (h : w.Sound) {b : Buffer} (hbooks : b.Books) (hkept : w.buffer.Kept b) :
    Sound { w with buffer := b } := ⟨hbooks, fun hmax => hkept.buffered ▸ h.limit hmax⟩

structure Numbered (n n' : ℕ) (frames : List (ℕ × Entry)) : Prop where
  increasing : (frames.map (·.1)).Pairwise (· < ·)
  fresh : ∀ f ∈ frames, n < f.1 ∧ f.1 ≤ n'
  le : n ≤ n'

lemma Numbered.nil {n n' : ℕ} (h : n' = n) : Numbered n n' [] := ⟨.nil, nofun, h.ge⟩

lemma Numbered.append {n n' n'' : ℕ} {frames more : List (ℕ × Entry)} (h : Numbered n n' frames)
    (h' : Numbered n' n'' more) : Numbered n n'' (frames ++ more) := by
  refine ⟨?_, ?_, h.le.trans h'.le⟩
  · rw [List.map_append, List.pairwise_append]
    refine ⟨h.increasing, h'.increasing, ?_⟩
    intro i hi k hk
    obtain ⟨f, hf, rfl⟩ := List.mem_map.1 hi
    obtain ⟨g, hg, rfl⟩ := List.mem_map.1 hk
    exact (h.fresh f hf).2.trans_lt (h'.fresh g hg).1
  · intro f hf
    rcases List.mem_append.1 hf with hf | hf
    · exact ⟨(h.fresh f hf).1, (h.fresh f hf).2.trans h'.le⟩
    · exact ⟨h.le.trans_lt (h'.fresh f hf).1, (h'.fresh f hf).2⟩

structure Accounted (options : WriterOptions) (b : Buffer) (w : Writer) (frames : List (ℕ × Entry)) : Prop where
  sound : w.Sound
  numbered : Numbered b.seq w.buffer.seq frames
  chunk : b.chunk ≤ w.buffer.chunk
  options : w.toWriterOptions = options

lemma Sound.accounted (h : w.Sound) : Accounted w.toWriterOptions w.buffer w [] := ⟨h, .nil rfl, le_rfl, rfl⟩

lemma accounted_append (h : w.Sound) (hfile : w.buffer.file = true) (henc : w.buffer.enc = true) (e : Entry)
    (hroom : 0 < w.maxBytes → w.buffer.buffered + e.size ≤ w.maxBytes) (evicted : List ChunkMeta) (io : WriteIO) :
    Accounted w.toWriterOptions w.buffer (w.append evicted e io).writer (w.append evicted e io).frame.toList := by
  have hroll : ∀ full : Bool, Buffer.Keeps (fun b => b.file = true ∧ b.enc = true) w.buffer
      (if full then w.buffer.rotate io.roll else (w.buffer, none)) := by
    intro full
    cases full with
    | true =>
      have hrotate := Buffer.keeps_rotate h.books io.roll
      exact ⟨hrotate.books, hrotate.kept, fun hnone => ⟨(hrotate.done hnone).file, (hrotate.done hnone).enc⟩⟩
    | false => exact ⟨h.books, .refl _, fun _ => ⟨hfile, henc⟩⟩
  unfold append
  dsimp only
  generalize (decide (chunkLimit < w.buffer.chunkRaw + e.size) && decide (0 < w.buffer.chunkRaw)) = full
  specialize hroll full
  revert hroll
  generalize (if full = true then w.buffer.rotate io.roll else (w.buffer, none)) = r
  obtain ⟨b, err⟩ := r
  rintro ⟨hbooks, hkept, hopen⟩
  cases err with
  | some err => exact ⟨h.of_kept hbooks hkept, .nil hkept.seq, hkept.chunk, rfl⟩
  | none =>
    obtain ⟨hbooks', hseq, hchunk, hle⟩ := hbooks.encodeFrame (hopen rfl).1 (hopen rfl).2 e io.encode
    refine ⟨⟨hbooks', fun hmax => hle.trans ?_⟩, ?_, hkept.chunk.trans hchunk.ge, rfl⟩
    · rw [hkept.buffered]
      exact hroom hmax
    · refine ⟨List.pairwise_singleton _ _, ?_, ?_⟩
      · intro f hf
        cases List.mem_singleton.1 hf
        exact ⟨Nat.lt_succ_of_le hkept.seq.ge, hseq.ge⟩
      · exact (hkept.seq.ge.trans (Nat.le_succ _)).trans hseq.ge

lemma accounted_makeRoom (h : w.Sound) (hfile : w.buffer.file = true) (henc : w.buffer.enc = true) (e : Entry)
    (hsize : e.size ≤ w.maxBytes) (io : WriteIO) :
    Accounted w.toWriterOptions w.buffer (w.makeRoom e io).writer (w.makeRoom e io).frame.toList := by
  have hrotate : Buffer.Keeps (fun b => b.Fresh) w.buffer
      (if 0 < w.buffer.chunkRaw then w.buffer.rotate io.evict else (w.buffer, none)) := by
    split
    case isTrue => exact Buffer.keeps_rotate h.books io.evict
    case isFalse hraw => exact ⟨h.books, .refl _, fun _ => ⟨hfile, henc, Nat.eq_zero_of_not_pos hraw⟩⟩
  unfold makeRoom
  revert hrotate
  generalize (if 0 < w.buffer.chunkRaw then w.buffer.rotate io.evict else (w.buffer, none)) = r
  obtain ⟨b, err⟩ := r
  rintro ⟨hbooks, hkept, hfresh⟩
  cases err with
  | some err => exact ⟨h.of_kept hbooks hkept, .nil hkept.seq, hkept.chunk, rfl⟩
  | none =>
    have hevicted :=
      @Buffer.evict_evicted b io.remove _ _ hsize b.idx hbooks rfl (hfresh rfl).file (hfresh rfl).raw
    dsimp only
    revert hevicted
    generalize Buffer.evict io.remove w.maxBytes e.size b.idx b = x
    obtain ⟨c, gone, err⟩ := x
    intro hevicted
    have hseq : c.seq = w.buffer.seq := hevicted.seq.trans hkept.seq
    have hchunk : w.buffer.chunk ≤ c.chunk := hkept.chunk.trans hevicted.chunk.ge
    have hsound : Sound { w with buffer := c, truncated := true } :=
      ⟨hevicted.books, fun hmax => hevicted.le.trans (hkept.buffered.le.trans (h.limit hmax))⟩
    cases err with
    | some err => exact ⟨hsound, .nil hseq, hchunk, rfl⟩
    | none =>
      have happend :=
        accounted_append hsound (hevicted.file.trans (hfresh rfl).file) (hevicted.enc.trans (hfresh rfl).enc) e
        (fun _ => hevicted.room rfl) gone io
      exact ⟨happend.sound, (Numbered.nil hseq).append happend.numbered, hchunk.trans happend.chunk,
        happend.options⟩

lemma accounted_writeFrame (h : w.Sound) (hfile : w.buffer.file = true) (henc : w.buffer.enc = true) (e : Entry)
    (io : WriteIO) :
    Accounted w.toWriterOptions w.buffer (w.writeFrame e io).writer (w.writeFrame e io).frame.toList := by
  unfold writeFrame
  split
  case isTrue hover =>
    split
    case isTrue => exact ⟨⟨h.books, h.limit⟩, .nil rfl, le_rfl, rfl⟩
    case isFalse hfits =>
      simp only [Bool.or_eq_true, decide_eq_true_eq, not_or, Nat.not_lt] at hfits
      exact accounted_makeRoom h hfile henc e hfits.2 io
  case isFalse hover =>
    refine accounted_append h hfile henc e (fun hmax => ?_) [] io
    simp only [overflows, Bool.and_eq_true, decide_eq_true_eq, not_and, not_lt] at hover
    exact hover hmax

lemma accounted_writeLocked (h : w.Sound) (e : Entry) (io : WriteIO) :
    Accounted w.toWriterOptions w.buffer (w.writeLocked e io).writer (w.writeLocked e io).frame.toList := by
  unfold writeLocked
  split
  case isTrue => exact h.accounted
  case isFalse =>
    cases w.buffer.chunkErr with
    | some f => exact h.accounted
    | none =>
      dsimp only
      split
      case isTrue => exact h.accounted
      case isFalse hopen =>
        simp only [Bool.or_eq_true, Bool.not_eq_true', not_or, Bool.not_eq_false] at hopen
        have hmarked : Sound { w with truncated := w.truncated || e.flagged || w.tooLong e } := ⟨h.books, h.limit⟩
        exact accounted_writeFrame hmarked hopen.1 hopen.2 (w.cut e) io

lemma Sound.enterDegraded (h : w.Sound) (err : Err) (now : ℤ) : (w.enterDegraded err now).Sound :=
  ⟨h.books, h.limit⟩

lemma Sound.discard (h : w.Sound) (e : Entry) : (w.discard e).Sound := ⟨h.books, h.limit⟩

lemma accounted_recoverLocked (h : w.Sound) (now : ℤ) (io : RecoverIO) :
    Accounted w.toWriterOptions w.buffer (w.recoverLocked now io).writer (w.recoverLocked now io).frames := by
  have hreopen := Buffer.keeps_reopenChunk h.books io.reopen
  unfold recoverLocked
  revert hreopen
  generalize w.buffer.reopenChunk io.reopen = r
  obtain ⟨b, err⟩ := r
  rintro ⟨hbooks, hkept, -⟩
  cases err with
  | some err => exact ⟨⟨hbooks, fun hmax => hkept.buffered ▸ h.limit hmax⟩, .nil hkept.seq, hkept.chunk, rfl⟩
  | none =>
    have hwrite := accounted_writeLocked (h.of_kept hbooks hkept)
      (Capture.summary w.episodeFrames w.episodeBytes w.degradedErr) io.summary
    have hnumbered := (Numbered.nil hkept.seq).append hwrite.numbered
    dsimp only
    split
    case h_1 => exact ⟨hwrite.sound.enterDegraded .., hnumbered, hkept.chunk.trans hwrite.chunk, hwrite.options⟩
    case h_2 =>
      exact ⟨⟨hwrite.sound.books, hwrite.sound.limit⟩, hnumbered, hkept.chunk.trans hwrite.chunk, hwrite.options⟩

lemma accounted_captureWrite (h : w.Sound) (e : Entry) (io : CaptureIO) :
    Accounted w.toWriterOptions w.buffer (w.captureWrite e io).writer (w.captureWrite e io).frames := by
  have hwrite := accounted_writeLocked h e io.write
  unfold captureWrite
  dsimp only
  split
  case h_1 => exact ⟨(hwrite.sound.enterDegraded ..).discard e, hwrite.numbered, hwrite.chunk, hwrite.options⟩
  case h_2 => exact hwrite

lemma accounted_captureLocked (h : w.Sound) (e : Entry) (now : ℤ) (io : CaptureIO) :
    Accounted w.toWriterOptions w.buffer (w.captureLocked e now io).writer (w.captureLocked e now io).frames := by
  unfold captureLocked
  split
  case isTrue => exact h.accounted
  case isFalse =>
    split
    case isFalse => exact accounted_captureWrite h e io
    case isTrue =>
      split
      case isTrue => exact (h.discard e).accounted
      case isFalse =>
        have hrecover := accounted_recoverLocked h now io.recover
        dsimp only
        split
        case h_1 => exact ⟨hrecover.sound.discard e, hrecover.numbered, hrecover.chunk, hrecover.options⟩
        case h_2 =>
          have hwrite := accounted_captureWrite hrecover.sound e io
          exact ⟨hwrite.sound, hrecover.numbered.append hwrite.numbered, hrecover.chunk.trans hwrite.chunk,
            hwrite.options.trans hrecover.options⟩

lemma accounted_close (h : w.Sound) (now : ℤ) (io : CloseIO) :
    Accounted w.toWriterOptions w.buffer (w.close now io).writer (w.close now io).frames := by
  unfold close
  split
  case isTrue => exact h.accounted
  case isFalse =>
    have hrecover : Accounted w.toWriterOptions w.buffer
      (if w.degraded then w.recoverLocked now io.recover else ⟨w, [], [], none⟩).writer
        (if w.degraded then w.recoverLocked now io.recover else ⟨w, [], [], none⟩).frames := by
      split
      case isTrue => exact accounted_recoverLocked h now io.recover
      case isFalse => exact h.accounted
    have hfinish := Buffer.keeps_finishChunk hrecover.sound.books io.finish
    refine ⟨⟨hfinish.books, fun hmax => hfinish.kept.buffered ▸ hrecover.sound.limit hmax⟩, ?_,
      hrecover.chunk.trans hfinish.kept.chunk, hrecover.options⟩
    have hnumbered := hrecover.numbered.append (.nil hfinish.kept.seq)
    rwa [List.append_nil] at hnumbered

lemma accounted_sealForArchive (h : w.Sound) (io : RotateIO) :
    Accounted w.toWriterOptions w.buffer (w.sealForArchive io).1 [] ∧
    ∀ n, (w.sealForArchive io).2 = .ok n → n ≠ 0 → n < (w.sealForArchive io).1.buffer.chunk := by
  unfold sealForArchive
  split
  case isTrue => exact ⟨h.accounted, fun n hn hpos => absurd (Except.ok.inj hn).symm hpos⟩
  case isFalse =>
    have hrotate : Buffer.Keeps (fun _ => True) w.buffer
        (if 0 < w.buffer.chunkRaw then w.buffer.rotate io else (w.buffer, none)) := by
      split
      case isTrue =>
        have hrotate := Buffer.keeps_rotate h.books io
        exact ⟨hrotate.books, hrotate.kept, fun _ => trivial⟩
      case isFalse => exact ⟨h.books, .refl _, fun _ => trivial⟩
    revert hrotate
    generalize (if 0 < w.buffer.chunkRaw then w.buffer.rotate io else (w.buffer, none)) = r
    obtain ⟨b, err⟩ := r
    rintro ⟨hbooks, hkept, -⟩
    cases err with
    | some err => exact ⟨⟨h.of_kept hbooks hkept, .nil hkept.seq, hkept.chunk, rfl⟩, nofun⟩
    | none =>
      refine ⟨⟨h.of_kept hbooks hkept, .nil hkept.seq, hkept.chunk, rfl⟩, fun n hn hpos => ?_⟩
      cases hn
      change b.chunk - 1 < b.chunk
      omega

end Writer

lemma pendingChunks_spec {read : ℕ → Except Err ℕ} {through count size : ℕ} {idx pending : List ChunkMeta}
    (h : pendingChunks read through count size idx = .ok pending) :
    pending <+: idx ∧ ∀ m ∈ pending, m.number ≤ through := by
  induction idx generalizing count size pending with
  | nil =>
    cases h
    exact ⟨List.prefix_rfl, nofun⟩
  | cons m ms ih =>
    have hcons : ∀ {count size : ℕ}, m.number ≤ through →
        (pendingChunks read through count size ms).map (m :: ·) = .ok pending →
        pending <+: m :: ms ∧ ∀ m ∈ pending, m.number ≤ through := by
      intro count size hm hmap
      cases hrest : pendingChunks read through count size ms with
      | error err => rw [hrest] at hmap; cases hmap
      | ok rest =>
        rw [hrest] at hmap
        cases hmap
        obtain ⟨htaken, hle⟩ := ih hrest
        exact ⟨(List.prefix_cons_inj m).2 htaken, List.forall_mem_cons.2 ⟨hm, hle⟩⟩
    rw [pendingChunks] at h
    split at h
    case isTrue =>
      cases h
      exact ⟨List.nil_prefix, nofun⟩
    case isFalse hstop =>
      have hm : m.number ≤ through := Nat.not_lt.1 fun hlt => hstop (.inl hlt)
      split at h
      case isTrue => exact hcons hm h
      case isFalse =>
        split at h
        case isTrue =>
          cases h
          exact ⟨List.nil_prefix, nofun⟩
        case isFalse =>
          split at h
          case h_1 => cases h
          case h_2 => exact hcons hm h

lemma Writer.Sound.archiveBatchLocked {w : Writer} (h : w.Sound) {through : ℕ}
    (hthrough : through < w.buffer.chunk) (io : BatchIO) :
    Writer.Accounted w.toWriterOptions w.buffer (w.archiveBatchLocked through io).1 [] := by
  unfold Writer.archiveBatchLocked
  split
  case h_1 => exact h.accounted
  case h_2 pending hpending =>
    split
    case isTrue => exact h.accounted
    case isFalse =>
      cases io.store with
      | some err => exact h.accounted
      | none =>
        obtain ⟨htaken, hle⟩ := pendingChunks_spec hpending
        dsimp only
        generalize hremoved : pending.takeWhile (fun m => (io.remove m.number).isNone) = removed
        have hpending : removed <+: pending := hremoved ▸ List.takeWhile_prefix _
        have htake : removed = w.buffer.idx.take removed.length :=
          List.prefix_iff_eq_take.1 (hpending.trans htaken)
        have hindexed : (w.buffer.idx.drop removed.length).any (·.number = w.buffer.chunk) = w.buffer.indexed := by
          have hold : removed.any (·.number = w.buffer.chunk) = false := by
            rw [List.any_eq_false]
            intro m hm hnumber
            have := hle m (hpending.subset hm)
            have := of_decide_eq_true hnumber
            omega
          rw [Buffer.indexed, ← List.take_append_drop removed.length w.buffer.idx, List.any_append, ← htake, hold,
            Bool.false_or, List.drop_left]
        have hdrop := h.books.drop removed.length w.buffer.total hindexed
        rw [← htake] at hdrop
        refine ⟨⟨hdrop, fun hmax => ?_⟩, .nil rfl, le_rfl, rfl⟩
        exact (sub_le_self _ (Int.natCast_nonneg _)).trans (h.limit hmax)

/-! ## Whole runs -/

namespace Log

structure Sound (options : WriterOptions) (s : Log) : Prop where
  writer : s.writer.Sound
  numbered : Writer.Numbered 0 s.writer.buffer.seq s.frames
  through : ∀ n, s.through = some n → n < s.writer.buffer.chunk
  options : s.writer.toWriterOptions = options

variable {options : WriterOptions} {s : Log}

lemma Sound.step (h : s.Sound options) {w : Writer} {frames : List (ℕ × Entry)}
    (hw : Writer.Accounted s.writer.toWriterOptions s.writer.buffer w frames) (evicted : List ChunkMeta)
    (history : List Item) :
    Sound options { s with writer := w, frames := s.frames ++ frames, evicted := evicted, history := history } :=
  ⟨hw.sound, h.numbered.append hw.numbered, fun n hn => (h.through n hn).trans_le hw.chunk,
    hw.options.trans h.options⟩

lemma Sound.next (h : s.Sound options) (e : Event) : (s.next e).Sound options := by
  cases e with
  | capture e now io =>
    have hcapture := Writer.accounted_captureLocked h.writer e now io
    unfold Log.next
    dsimp only
    split
    case h_1 => exact h.step hcapture _ _
    case h_2 => exact h.step hcapture _ _
  | write e io => exact h.step (Writer.accounted_writeLocked h.writer e io) _ _
  | checkpoint io =>
    unfold Log.next
    cases hthrough : s.through with
    | some n => exact h
    | none =>
      obtain ⟨hseal, hlt⟩ := Writer.accounted_sealForArchive h.writer io
      revert hseal hlt
      dsimp only
      generalize s.writer.sealForArchive io = r
      obtain ⟨w, result⟩ := r
      intro hseal hlt
      have hnumbered := h.numbered.append hseal.numbered
      rw [List.append_nil] at hnumbered
      cases result with
      | error err => exact ⟨hseal.sound, hnumbered, nofun, hseal.options.trans h.options⟩
      | ok n =>
        refine ⟨hseal.sound, hnumbered, fun k hk => ?_, hseal.options.trans h.options⟩
        dsimp only at hk
        split at hk
        case isTrue => cases hk
        case isFalse hpos =>
          cases hk
          exact hlt n rfl hpos
  | batch io =>
    unfold Log.next
    cases hthrough : s.through with
    | none => exact h
    | some n =>
      have hbatch := h.writer.archiveBatchLocked (h.through n hthrough) io
      have hstep := h.step hbatch s.evicted s.history
      rw [List.append_nil, hthrough] at hstep
      exact hstep
  | endCheckpoint => exact ⟨h.writer, h.numbered, nofun, h.options⟩
  | syncFailed => exact ⟨⟨h.writer.books, h.writer.limit⟩, h.numbered, h.through, h.options⟩
  | close now io => exact h.step (Writer.accounted_close h.writer now io) _ _

lemma sound_start (options : WriterOptions) (how : Start) : (start options how).Sound options := by
  cases how with
  | opened =>
    exact ⟨⟨Buffer.Books.empty.startChunk (.inr rfl) rfl, fun _ => Int.natCast_nonneg _⟩, ⟨.nil, nofun, le_rfl⟩,
      nofun, rfl⟩
  | degraded cause now =>
    exact ⟨⟨Buffer.Books.empty, fun _ => Int.natCast_nonneg _⟩, ⟨.nil, nofun, le_rfl⟩, nofun, rfl⟩

lemma Sound.run (h : s.Sound options) (es : List Event) : (s.run es).Sound options := by
  induction es generalizing s with
  | nil => exact h
  | cons e es ih => exact ih (h.next e)

/-- Whatever fails, the buffered byte count is that of the chunks, within the limit, the index is in order, and no
sequence number is given to two frames. -/
theorem buffer_accounted (options : WriterOptions) (how : Start) (es : List Event) :
    let b := ((start options how).run es).writer.buffer
    b.buffered = raws b.idx + (if b.indexed then 0 else b.chunkRaw) ∧
      (0 < options.maxBytes → b.buffered ≤ options.maxBytes) ∧
      b.idx.Pairwise (·.number < ·.number) ∧
      (∀ m ∈ b.idx, m.first ≤ m.last) ∧ b.idx.Pairwise (·.last < ·.first) ∧
      (((start options how).run es).frames.map (·.1)).Nodup := by
  have h := (sound_start options how).run es
  have hlimit := h.writer.limit
  rw [h.options] at hlimit
  exact ⟨h.writer.books.balance, hlimit, h.writer.books.numbers, h.writer.books.nonempty, h.writer.books.disjoint,
    h.numbered.increasing.imp fun hlt => hlt.ne⟩

def goodRotate : RotateIO := ⟨none, ⟨none, 40, none⟩, [], none⟩

def goodWrite : WriteIO := ⟨goodRotate, fun _ => none, goodRotate, none⟩

def goodCapture : CaptureIO := ⟨⟨⟨none, 40, none, goodRotate⟩, goodWrite, 0⟩, goodWrite, 0⟩

theorem buffer_accounted_evicting :
    let s := (start ⟨30, 0, false⟩ .opened).run
      [.capture ⟨.stdout, [97], 0⟩ 0 goodCapture, .capture ⟨.stdout, [98], 0⟩ 1 goodCapture]
    s.evicted = [⟨1, 1, 1, 40, 25⟩] ∧ s.writer.buffer.buffered = 25 ∧ s.writer.buffer.buffered ≤ 30 :=
  ⟨by decide +kernel, by decide +kernel, (buffer_accounted ⟨30, 0, false⟩ .opened
    [.capture ⟨.stdout, [97], 0⟩ 0 goodCapture, .capture ⟨.stdout, [98], 0⟩ 1 goodCapture]).2.1 (by decide)⟩

end Log

end Minicrond.Logs.Capture
