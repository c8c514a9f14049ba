import Mathlib.Data.List.Basic

/-! A buffered reader that hands out its input in slices up to a delimiter. The source under it answers with parts
of any size, the last perhaps together with the error that ends it. -/

namespace Minicrond.Library

structure SliceReader (α ε : Type*) where
  size : ℕ
  room : 0 < size
  buffer : List α
  -- what the source has still to answer, and how it ends
  reads : List (List α)
  final : ε
  joined : Bool
  ended : Bool
  drained : ended = true → reads = []

inductive SliceError (ε : Type*)
  | bufferFull
  | failed (e : ε)

namespace SliceReader

variable {α ε : Type*}

def stream (r : SliceReader α ε) : List α := r.buffer ++ r.reads.flatten

def start (size : ℕ) (room : 0 < size) (reads : List (List α)) (final : ε) (joined : Bool) : SliceReader α ε :=
  ⟨size, room, [], reads, final, joined, false, fun h => absurd h Bool.false_ne_true⟩

def fill (r : SliceReader α ε) : SliceReader α ε :=
  match r.reads with
  | [] => { r with reads := [], ended := true, drained := fun _ => rfl }
  | bytes :: rest =>
    if bytes.length ≤ r.size - r.buffer.length then
      { r with
        buffer := r.buffer ++ bytes
        reads := rest
        ended := r.joined && rest.isEmpty
        drained := fun h => List.isEmpty_iff.1 (Bool.and_eq_true_iff.1 h).2 }
    else
      { r with
        buffer := r.buffer ++ bytes.take (r.size - r.buffer.length)
        reads := bytes.drop (r.size - r.buffer.length) :: rest
        ended := false
        drained := fun h => absurd h Bool.false_ne_true }

def pending (r : SliceReader α ε) : ℕ := r.reads.length + r.reads.flatten.length + if r.ended then 0 else 1

lemma pending_fill_lt {r : SliceReader α ε} (hended : r.ended = false) (hroom : r.buffer.length < r.size) :
    r.fill.pending < r.pending := by
  unfold fill
  split
  case h_1 hreads => simp [pending, hended, hreads]
  case h_2 bytes rest hreads =>
    split
    case isTrue hle =>
      simp only [pending, hended, hreads, List.length_cons, List.flatten_cons, List.length_append]
      split <;> simp <;> omega
    case isFalse hlt =>
      simp only [pending, hended, hreads, List.length_cons, List.flatten_cons, List.length_append,
        List.length_drop]
      simp
      omega

lemma stream_fill (r : SliceReader α ε) : r.fill.stream = r.stream := by
  unfold fill
  split
  case h_1 hreads => simp [stream, hreads]
  case h_2 bytes rest hreads =>
    split
    case isTrue => simp [stream, hreads]
    case isFalse => simp [stream, hreads, ← List.append_assoc (List.take _ _)]

lemma final_fill (r : SliceReader α ε) : r.fill.final = r.final := by
  unfold fill
  split
  case h_1 => rfl
  case h_2 => split <;> rfl

variable [DecidableEq α]

/-- The input up to and with the next delimiter, or as much of it as the buffer holds or the source had. -/
def readSlice (delim : α) (r : SliceReader α ε) : List α × Option (SliceError ε) × SliceReader α ε :=
  if delim ∈ r.buffer then
    let n := r.buffer.idxOf delim + 1
    (r.buffer.take n, none, { r with buffer := r.buffer.drop n })
  else if hended : r.ended = true then (r.buffer, some (.failed r.final), { r with buffer := [] })
  else if hfull : r.size ≤ r.buffer.length then (r.buffer, some .bufferFull, { r with buffer := [] })
  else
    have := pending_fill_lt (Bool.not_eq_true _ ▸ hended) (Nat.not_le.1 hfull)
    readSlice delim r.fill
termination_by r.pending

/-- What a slice may be: one that ends with the only delimiter in it, a part without a delimiter when the buffer is
full, or all the rest when the source has ended. -/
inductive Sliced (delim : α) (r : SliceReader α ε) : List α × Option (SliceError ε) × SliceReader α ε → Prop
  | found {line : List α} {r' : SliceReader α ε} (hdelim : delim ∉ line) (hfinal : r'.final = r.final)
      (h : r.stream = line ++ delim :: r'.stream) : Sliced delim r (line ++ [delim], none, r')
  | full {part : List α} {r' : SliceReader α ε} (hdelim : delim ∉ part) (hpart : part ≠ [])
      (hfinal : r'.final = r.final)
      (h : r.stream = part ++ r'.stream) : Sliced delim r (part, some .bufferFull, r')
  | failed {part : List α} {r' : SliceReader α ε} (hdelim : delim ∉ part) (h : r.stream = part) :
    Sliced delim r (part, some (.failed r.final), r')

lemma idxOf_append_cons {delim : α} {line : List α} (hdelim : delim ∉ line) (rest : List α) :
    (line ++ delim :: rest).idxOf delim = line.length := by
  rw [List.idxOf_append_of_notMem hdelim, List.idxOf_cons_self, Nat.add_zero]

lemma readSlice_sliced (delim : α) (r : SliceReader α ε) : Sliced delim r (r.readSlice delim) := by
  fun_induction readSlice delim r with
  | case1 r hmem n =>
    obtain ⟨line, rest, hbuffer, hline⟩ := List.eq_append_cons_of_mem hmem
    have hn : n = line.length + 1 := congrArg (· + 1) (hbuffer ▸ idxOf_append_cons hline rest)
    have htake : r.buffer.take n = line ++ [delim] := by
      rw [hn, hbuffer, List.take_length_add_append]
      rfl
    have hdrop : r.buffer.drop n = rest := by
      rw [hn, hbuffer, List.drop_length_add_append]
      rfl
    rw [htake]
    refine .found hline rfl ?_
    change r.buffer ++ r.reads.flatten = line ++ delim :: (r.buffer.drop n ++ r.reads.flatten)
    rw [hdrop, hbuffer, List.append_assoc, List.cons_append]
  | case2 r hmem hended =>
    refine .failed hmem ?_
    rw [stream, r.drained hended, List.flatten_nil, List.append_nil]
  | case3 r hmem hended hfull =>
    exact .full hmem (List.ne_nil_of_length_pos (Nat.lt_of_lt_of_le r.room hfull)) rfl rfl
  | case4 r hmem hended hfull _ ih =>
    have hstream := r.stream_fill
    have hfinal := r.final_fill
    revert ih
    generalize r.fill.readSlice delim = x
    intro ih
    cases ih with
    | found hdelim hfinal' h => exact .found hdelim (hfinal'.trans hfinal) (hstream.symm.trans h)
    | full hdelim hpart hfinal' h => exact .full hdelim hpart (hfinal'.trans hfinal) (hstream.symm.trans h)
    | failed hdelim h => exact hfinal ▸ .failed hdelim (hstream.symm.trans h)

end SliceReader

end Minicrond.Library
