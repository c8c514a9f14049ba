import Minicrond.Library.SliceReader
import Minicrond.Logs.Archive

/-! The pump that copies a process's output into the log line by line. Storage failures do not reach it; it ends
when the pipe does, or when the writer is closed. -/

namespace Minicrond.Logs

open Minicrond.Library

variable {line : List UInt8}

def newline : UInt8 := 10

def carriageReturn : UInt8 := 13

def flagPartial : UInt8 := 1

def flagInvalidUTF8 : UInt8 := 2

inductive ReadError
  | eof
  | closed
  | other
deriving DecidableEq

inductive PipeError
  | read (e : ReadError)
  | writerClosed
deriving DecidableEq

structure Offer where
  payload : List UInt8
  flags : UInt8
deriving DecidableEq

def trimSuffix (line : List UInt8) : List UInt8 :=
  if line.getLast? = some carriageReturn then line.dropLast else line

def validUTF8 (payload : List UInt8) : Bool := ByteArray.validateUTF8 ⟨payload.toArray⟩

def offer (line : List UInt8) (truncated unterminated : Bool) : Offer where
  payload := trimSuffix line
  flags := (if unterminated then flagPartial else 0) ||| (if truncated then flagTruncated else 0) |||
    (if validUTF8 (trimSuffix line) then 0 else flagInvalidUTF8)

def lineLimit (maxLine : ℤ) : ℕ :=
  if maxLine ≤ 0 ∨ maxFramePayload < maxLine then maxFramePayload else maxLine.toNat

def readerSize (limit : ℕ) : ℕ := max (min (limit + 1) 65536) 16

/-! ## The loop -/

def isEOF : Option (SliceError ReadError) → Bool
  | some (.failed .eof) => true
  | _ => false

def returns : Option (SliceError ReadError) → Option (Except PipeError Unit)
  | some (.failed .eof) => some (.ok ())
  | some (.failed e) => some (.error (.read e))
  | _ => none

lemma returns_failed_ne_none (e : ReadError) : returns (some (.failed e)) ≠ none := by
  cases e <;> exact Option.some_ne_none _

structure Pump where
  line : List UInt8
  truncated : Bool
  offered : List Offer

namespace Pump

def append (limit : ℕ) (p : Pump) (fragment : List UInt8) : Pump :=
  if p.truncated then p
  else if limit - p.line.length < fragment.length then
    { p with line := p.line ++ fragment.take (limit - p.line.length), truncated := true }
  else { p with line := p.line ++ fragment }

def capture (p : Pump) (unterminated : Bool) : Pump where
  line := []
  truncated := false
  offered := p.offered ++ [offer p.line p.truncated unterminated]

def chop (fragment : List UInt8) : List UInt8 × Bool :=
  if fragment.getLast? = some newline then (fragment.dropLast, true) else (fragment, false)

/-- One round of the loop, and how `Pipe` returns if it does. `refused n` is whether `capture` reports a closed
writer for the line after the first `n`. -/
def round (limit : ℕ) (refused : ℕ → Bool) (p : Pump) (fragment : List UInt8)
    (err : Option (SliceError ReadError)) :
    Pump × Option (Except PipeError Unit) :=
  let (fragment, hasNewline) := chop fragment
  let p := p.append limit fragment
  if hasNewline || isEOF err && !p.line.isEmpty then
    (p.capture (!hasNewline), if refused p.offered.length then some (.error .writerClosed) else returns err)
  else (p, returns err)

lemma returns_of_round {limit : ℕ} {refused : ℕ → Bool} {p q : Pump} {fragment : List UInt8}
    {err : Option (SliceError ReadError)} (h : p.round limit refused fragment err = (q, none)) :
    returns err = none := by
  have hnone := congrArg Prod.snd h
  simp only [round] at hnone
  split at hnone
  case isTrue =>
    dsimp only at hnone
    split at hnone
    case isTrue => cases hnone
    case isFalse => exact hnone
  case isFalse => exact hnone

lemma length_stream_lt {r r' : SliceReader UInt8 ReadError} {fragment : List UInt8}
    {err : Option (SliceError ReadError)} (h : r.readSlice newline = (fragment, err, r'))
    (herr : returns err = none) : r'.stream.length < r.stream.length := by
  have hsliced := r.readSlice_sliced newline
  rw [h] at hsliced
  cases hsliced with
  | found _ _ h =>
    rw [h, List.length_append, List.length_cons]
    omega
  | full _ hpart _ h =>
    rw [h, List.length_append]
    exact Nat.lt_add_of_pos_left (List.length_pos_of_ne_nil hpart)
  | failed => exact absurd herr (returns_failed_ne_none _)

def loop (limit : ℕ) (refused : ℕ → Bool) (r : SliceReader UInt8 ReadError) (p : Pump) :
    List Offer × Except PipeError Unit :=
  match hslice : r.readSlice newline with
  | (fragment, err, r') =>
    match hround : p.round limit refused fragment err with
    | (q, some result) => (q.offered, result)
    | (q, none) =>
      have := length_stream_lt hslice (returns_of_round hround)
      loop limit refused r' q
termination_by r.stream.length

end Pump

/-- The lines that `Pipe` offers and what it returns, for a pipe that answers with `reads` and then
ends with `final`. -/
def pipe (maxLine : ℤ) (refused : ℕ → Bool) (reads : List (List UInt8)) (final : ReadError) (joined : Bool) :
    List Offer × Except PipeError Unit :=
  Pump.loop (lineLimit maxLine) refused
    (.start (readerSize (lineLimit maxLine)) (by simp [readerSize]) reads final joined) ⟨[], false, []⟩

/-! ## The reference -/

def terminated (stream : List UInt8) : List (List UInt8) := (stream.splitOn newline).dropLast

def remainder (stream : List UInt8) : List UInt8 := (stream.splitOn newline).getLastD []

def keep (limit : ℕ) (unterminated : Bool) (line : List UInt8) : Offer :=
  offer (line.take limit) (decide (limit < line.length)) unterminated

def unterminatedLine (limit : ℕ) (stream : List UInt8) : List Offer :=
  if remainder stream = [] then [] else [keep limit true (remainder stream)]

def reference (limit : ℕ) (stream : List UInt8) : List Offer :=
  (terminated stream).map (keep limit false) ++ unterminatedLine limit stream

def expected (limit : ℕ) (stream : List UInt8) : ReadError → List Offer
  | .eof => reference limit stream
  | _ => (terminated stream).map (keep limit false)

def ending : ReadError → Except PipeError Unit
  | .eof => .ok ()
  | e => .error (.read e)

def captureAll (refused : ℕ → Bool) (result : Except PipeError Unit) :
    List Offer → List Offer → List Offer × Except PipeError Unit
  | offered, [] => (offered, result)
  | offered, o :: os =>
    if refused offered.length then (offered ++ [o], .error .writerClosed)
    else captureAll refused result (offered ++ [o]) os

lemma splitOn_append_newline (h : newline ∉ line) (rest : List UInt8) :
    (line ++ newline :: rest).splitOn newline = line :: rest.splitOn newline :=
  List.splitOnP_append_cons_of_forall_mem (p := (· == newline))
    (fun _ hx => beq_false_of_ne fun hn => h (hn ▸ hx)) newline (beq_self_eq_true _) rest

lemma splitOn_of_notMem (h : newline ∉ line) : line.splitOn newline = [line] :=
  List.splitOnP_eq_singleton fun _ hx => beq_false_of_ne fun hn => h (hn ▸ hx)

lemma splitOn_newline_ne_nil (stream : List UInt8) : stream.splitOn newline ≠ [] := List.splitOnP_ne_nil _ _

lemma terminated_append_newline (h : newline ∉ line) (rest : List UInt8) :
    terminated (line ++ newline :: rest) = line :: terminated rest := by
  rw [terminated, splitOn_append_newline h, List.dropLast_cons_of_ne_nil (splitOn_newline_ne_nil _), terminated]

lemma remainder_append_newline (h : newline ∉ line) (rest : List UInt8) :
    remainder (line ++ newline :: rest) = remainder rest := by
  rw [remainder, splitOn_append_newline h, remainder]
  cases hrest : rest.splitOn newline with
  | nil => exact absurd hrest (splitOn_newline_ne_nil _)
  | cons a as => rfl

lemma terminated_of_notMem (h : newline ∉ line) : terminated line = [] := by
  rw [terminated, splitOn_of_notMem h]
  rfl

lemma remainder_of_notMem (h : newline ∉ line) : remainder line = line := by
  rw [remainder, splitOn_of_notMem h]
  rfl

lemma expected_append_newline {limit : ℕ} (h : newline ∉ line) (rest : List UInt8) (e : ReadError) :
    expected limit (line ++ newline :: rest) e = keep limit false line :: expected limit rest e := by
  cases e <;>
    simp only [expected, reference, unterminatedLine, terminated_append_newline h, remainder_append_newline h,
      List.map_cons, List.cons_append]

lemma expected_of_ne {limit : ℕ} {stream : List UInt8} {e : ReadError} (he : e ≠ .eof) :
    expected limit stream e = (terminated stream).map (keep limit false) := by
  cases e with
  | eof => exact absurd rfl he
  | closed | other => rfl

lemma ending_of_ne {e : ReadError} (he : e ≠ .eof) : ending e = .error (.read e) := by
  cases e with
  | eof => exact absurd rfl he
  | closed | other => rfl

namespace Pump

structure Holds (limit : ℕ) (p : Pump) (line : List UInt8) : Prop where
  kept : p.line = line.take limit
  cut : p.truncated = decide (limit < line.length)

lemma holds_nil (limit : ℕ) (offered : List Offer) : Holds limit ⟨[], false, offered⟩ [] :=
  ⟨List.take_nil.symm, (decide_eq_false (Nat.not_lt_zero _)).symm⟩

@[simp]
lemma offered_append (limit : ℕ) (p : Pump) (fragment : List UInt8) :
    (p.append limit fragment).offered = p.offered := by
  unfold append
  split
  case isTrue => rfl
  case isFalse => split <;> rfl

lemma Holds.append {limit : ℕ} {p : Pump} {line : List UInt8} (h : p.Holds limit line) (fragment : List UInt8) :
    (p.append limit fragment).Holds limit (line ++ fragment) := by
  have hlength : p.line.length = min limit line.length := by rw [h.kept, List.length_take]
  unfold Pump.append
  split
  case isTrue htruncated =>
    have hlt : limit < line.length := of_decide_eq_true (h.cut.symm.trans htruncated)
    refine ⟨?_, htruncated.trans (decide_eq_true ?_).symm⟩
    · rw [h.kept, List.take_append_of_le_length hlt.le]
    · rw [List.length_append]
      omega
  case isFalse htruncated =>
    have hle : line.length ≤ limit := by
      rw [h.cut, decide_eq_true_iff] at htruncated
      exact Nat.not_lt.1 htruncated
    have hline : p.line = line := by rw [h.kept, List.take_of_length_le hle]
    split
    case isTrue hlt =>
      refine ⟨?_, (decide_eq_true ?_).symm⟩
      · rw [List.take_append, List.take_of_length_le hle, ← hline]
      · rw [List.length_append]
        rw [hline] at hlt
        omega
    case isFalse hlt =>
      rw [hline] at hlt
      have hfits : (line ++ fragment).length ≤ limit := by
        rw [List.length_append]
        omega
      refine ⟨?_, (Bool.eq_false_of_not_eq_true htruncated).trans (decide_eq_false (Nat.not_lt.2 hfits)).symm⟩
      rw [List.take_of_length_le hfits, ← hline]

lemma Holds.offer {limit : ℕ} {p : Pump} {line : List UInt8} (h : p.Holds limit line) (unterminated : Bool) :
    p.capture unterminated = ⟨[], false, p.offered ++ [keep limit unterminated line]⟩ := by
  rw [capture, h.kept, h.cut, keep]

lemma chop_newline (line : List UInt8) : chop (line ++ [newline]) = (line, true) := by
  rw [chop, if_pos List.getLast?_concat, List.dropLast_concat]

lemma chop_of_notMem (h : newline ∉ part) : chop part = (part, false) :=
  if_neg fun hlast => h (List.mem_of_getLast? hlast)

variable {limit : ℕ} {refused : ℕ → Bool} {p : Pump} {cur part : List UInt8}

lemma round_found (h : p.Holds limit cur) (line : List UInt8) :
    p.round limit refused (line ++ [newline]) none =
      (⟨[], false, p.offered ++ [keep limit false (cur ++ line)]⟩,
        if refused p.offered.length then some (.error .writerClosed) else none) := by
  rw [round, chop_newline]
  dsimp only
  rw [if_pos (Bool.true_or _), (h.append line).offer, offered_append]
  rfl

lemma round_full (hpart : newline ∉ part) :
    p.round limit refused part (some .bufferFull) = (p.append limit part, none) := by
  rw [round, chop_of_notMem hpart]
  rfl

lemma round_eof (hlimit : 0 < limit) (h : p.Holds limit cur) (hpart : newline ∉ part) :
    ∃ q result, p.round limit refused part (some (.failed .eof)) = (q, some result) ∧
      (q.offered, result) = captureAll refused (.ok ()) p.offered
        (if cur ++ part = [] then [] else [keep limit true (cur ++ part)]) := by
  have hholds := h.append part
  by_cases hempty : cur ++ part = []
  case pos =>
    have hline : (p.append limit part).line = [] := by rw [hholds.kept, hempty, List.take_nil]
    refine ⟨p.append limit part, .ok (), ?_, ?_⟩
    · simp only [round, chop_of_notMem hpart, hline]
      rfl
    · rw [if_pos hempty, offered_append]
      rfl
  case neg =>
    have hline : (p.append limit part).line.isEmpty = false := by
      rw [hholds.kept, List.isEmpty_eq_false_iff, ne_eq, List.take_eq_nil_iff]
      exact fun hnil => hnil.elim hlimit.ne' hempty
    have hround : p.round limit refused part (some (.failed .eof)) =
        (⟨[], false, p.offered ++ [keep limit true (cur ++ part)]⟩,
          if refused p.offered.length then some (.error .writerClosed) else some (.ok ())) := by
      simp only [round, chop_of_notMem hpart, hline, hholds.offer, offered_append]
      rfl
    rw [hround, if_neg hempty]
    by_cases hrefused : refused p.offered.length = true
    case pos => exact ⟨_, _, by rw [if_pos hrefused], by rw [captureAll, if_pos hrefused]⟩
    case neg => exact ⟨_, _, by rw [if_neg hrefused], by rw [captureAll, if_neg hrefused]; rfl⟩

lemma round_failed {e : ReadError} (he : e ≠ .eof) (hpart : newline ∉ part) :
    p.round limit refused part (some (.failed e)) = (p.append limit part, some (.error (.read e))) := by
  simp only [round, chop_of_notMem hpart]
  cases e with
  | eof => exact absurd rfl he
  | closed | other => rfl

variable {r r' : SliceReader UInt8 ReadError} {fragment : List UInt8} {err : Option (SliceError ReadError)}
    {q : Pump}

lemma loop_of_done {result : Except PipeError Unit} (hslice : r.readSlice newline = (fragment, err, r'))
    (hround : p.round limit refused fragment err = (q, some result)) :
    loop limit refused r p = (q.offered, result) := by
  rw [loop]
  split
  case h_1 fragment' err' r'' hslice' =>
    cases hslice'.symm.trans hslice
    split
    case h_1 hround' => cases hround'.symm.trans hround; rfl
    case h_2 hround' => cases hround'.symm.trans hround

lemma loop_of_next (hslice : r.readSlice newline = (fragment, err, r'))
    (hround : p.round limit refused fragment err = (q, none)) :
    loop limit refused r p = loop limit refused r' q := by
  rw [loop]
  split
  case h_1 fragment' err' r'' hslice' =>
    cases hslice'.symm.trans hslice
    split
    case h_1 hround' => cases hround'.symm.trans hround
    case h_2 hround' => cases hround'.symm.trans hround; rfl

lemma loop_eq (hlimit : 0 < limit) (r : SliceReader UInt8 ReadError) (p : Pump) (cur : List UInt8)
    (hcur : newline ∉ cur) (h : p.Holds limit cur) :
    loop limit refused r p = captureAll refused (ending r.final) p.offered
      (expected limit (cur ++ r.stream) r.final) := by
  -- a round hands on a shorter stream
  induction hn : r.stream.length using Nat.strong_induction_on generalizing r p cur with
  | _ n ih =>
    subst hn
    have hsliced := r.readSlice_sliced newline
    rcases hslice : r.readSlice newline with ⟨fragment, err, r'⟩
    rw [hslice] at hsliced
    have hshorter := length_stream_lt hslice
    have hnotMem {part : List UInt8} (hpart : newline ∉ part) : newline ∉ cur ++ part := by
      rw [List.mem_append]
      exact fun hmem => hmem.elim hcur hpart
    cases hsliced with
    | @found line _ hline hfinal hstream =>
      have hround : p.round limit refused (line ++ [newline]) none = _ := round_found h line
      rw [hstream, ← List.append_assoc, expected_append_newline (hnotMem hline), captureAll]
      by_cases hrefused : refused p.offered.length = true
      case pos =>
        rw [if_pos hrefused] at hround ⊢
        exact loop_of_done hslice hround
      case neg =>
        rw [if_neg hrefused] at hround ⊢
        rw [loop_of_next hslice hround, ih _ (hshorter rfl) r' _ [] (List.not_mem_nil) (holds_nil ..) rfl, hfinal,
          List.nil_append]
    | full hpart hne hfinal hstream =>
      rw [loop_of_next hslice (round_full hpart), ih _ (hshorter rfl) r' _ _ (hnotMem hpart) (h.append _) rfl,
        hfinal, hstream, List.append_assoc, offered_append]
    | failed hpart hstream =>
      rw [hstream]
      by_cases he : r.final = .eof
      case pos =>
        rw [he] at hslice ⊢
        obtain ⟨q, result, hround, hresult⟩ := @round_eof limit refused p cur _ hlimit h hpart
        rw [loop_of_done hslice hround, hresult, expected, reference, unterminatedLine,
          terminated_of_notMem (hnotMem hpart), remainder_of_notMem (hnotMem hpart)]
        rfl
      case neg =>
        rw [loop_of_done hslice (round_failed he hpart), offered_append, expected_of_ne he,
          terminated_of_notMem (hnotMem hpart), ending_of_ne he]
        rfl

end Pump

lemma lineLimit_pos (maxLine : ℤ) : 0 < lineLimit maxLine := by
  unfold lineLimit
  split
  case isTrue => decide
  case isFalse h => omega

lemma pipe_eq (maxLine : ℤ) (refused : ℕ → Bool) (reads : List (List UInt8)) (final : ReadError) (joined : Bool) :
    pipe maxLine refused reads final joined =
      captureAll refused (ending final) [] (expected (lineLimit maxLine) reads.flatten final) :=
  Pump.loop_eq (lineLimit_pos maxLine) _ _ [] List.not_mem_nil (Pump.holds_nil ..)

lemma captureAll_of_accepted {refused : ℕ → Bool} (haccepted : ∀ n, refused n = false)
    (result : Except PipeError Unit) (offered lines : List Offer) :
    captureAll refused result offered lines = (offered ++ lines, result) := by
  induction lines generalizing offered with
  | nil => rw [captureAll, List.append_nil]
  | cons o os ih =>
    rw [captureAll, haccepted, if_neg Bool.false_ne_true, ih, List.append_assoc, List.singleton_append]

/-- What `Pipe` offers of a stream that ends in EOF is the reference split, up to the first line for which
`capture` reports a closed writer, and all of it when there is none. -/
theorem pipe_offers_reference (maxLine : ℤ) (refused : ℕ → Bool) (reads : List (List UInt8)) (joined : Bool) :
    pipe maxLine refused reads .eof joined =
        captureAll refused (.ok ()) [] (reference (lineLimit maxLine) reads.flatten) ∧
      ((∀ n, refused n = false) →
        pipe maxLine refused reads .eof joined = (reference (lineLimit maxLine) reads.flatten, .ok ())) := by
  have heq := pipe_eq maxLine refused reads .eof joined
  refine ⟨heq, fun haccepted => ?_⟩
  rw [heq, captureAll_of_accepted haccepted]
  rfl

theorem pipe_offers_reference_cut :
    pipe 3 (fun _ => false) [[97, 98], [99, 100, 13], [10, 255]] .eof false =
      ([⟨[97, 98, 99], flagTruncated⟩, ⟨[255], flagPartial ||| flagInvalidUTF8⟩], .ok ()) :=
  ((pipe_offers_reference 3 (fun _ => false) [[97, 98], [99, 100, 13], [10, 255]] false).2 fun _ => rfl).trans
    (by decide +kernel)

end Minicrond.Logs
