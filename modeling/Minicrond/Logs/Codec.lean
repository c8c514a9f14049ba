import Minicrond.Library.BigEndian
import Minicrond.Logs.Reader

/-! Log frames as bytes: a header of 24 bytes and the payload. A chunk is read up to its first problem, from what
the decompressor yields; that is a stream of bytes with a clean end. -/

namespace Minicrond.Logs.Codec

open Minicrond.Library

variable {src rest : List UInt8} {frames : List Frame} {f : Frame} {n : ℕ}

def version : UInt8 := 1

structure Frame where
  sequence : UInt64
  timestamp : Int64
  stream : UInt8
  flags : UInt8
  payload : List UInt8
  fits : payload.length ≤ maxFramePayload

def encodeHeader (f : Frame) : List UInt8 :=
  [version, f.stream, f.flags, 0] ++ BigEndian.put 8 f.sequence.toNat ++
    BigEndian.put 8 f.timestamp.toUInt64.toNat ++ BigEndian.put 4 f.payload.length

def encode (f : Frame) : List UInt8 := encodeHeader f ++ f.payload

def encodeFrames (frames : List Frame) : List UInt8 := frames.flatMap encode

inductive DecodeError
  | eof
  | unexpectedEOF
  | unsupportedVersion (v : UInt8)
  | payloadExceeds (n : ℕ)
deriving DecidableEq

def readFull (n : ℕ) (src : List UInt8) :
    Except DecodeError ({bytes : List UInt8 // bytes.length = n} × List UInt8) :=
  if h : n ≤ src.length then .ok (⟨src.take n, List.length_take_of_le h⟩, src.drop n)
  else .error (if src = [] then .eof else .unexpectedEOF)

structure Header where
  sequence : UInt64
  timestamp : Int64
  stream : UInt8
  flags : UInt8
  length : ℕ
  fits : length ≤ maxFramePayload

def parseHeader (h : List UInt8) : Except DecodeError Header :=
  if h.getD 0 0 ≠ version then .error (.unsupportedVersion (h.getD 0 0))
  else
    if hn : BigEndian.get ((h.drop 20).take 4) ≤ maxFramePayload then
      .ok {
        sequence := UInt64.ofNat (BigEndian.get ((h.drop 4).take 8))
        timestamp := (UInt64.ofNat (BigEndian.get ((h.drop 12).take 8))).toInt64
        stream := h.getD 1 0
        flags := h.getD 2 0
        length := BigEndian.get ((h.drop 20).take 4)
        fits := hn }
    else .error (.payloadExceeds (BigEndian.get ((h.drop 20).take 4)))

def decodeHeader (src : List UInt8) : Except DecodeError (Header × List UInt8) := do
  let (h, src) ← readFull frameHeader src
  let header ← parseHeader h.1
  return (header, src)

def torn : DecodeError → DecodeError
  | .eof => .unexpectedEOF
  | e => e

def decode (src : List UInt8) : Except DecodeError (Frame × List UInt8) := do
  let (h, src) ← decodeHeader src
  let (payload, src) ← (readFull h.length src).mapError torn
  return (⟨h.sequence, h.timestamp, h.stream, h.flags, payload.1, payload.2.trans_le h.fits⟩, src)

/-! ## Reading what is there -/

lemma readFull_append {bytes : List UInt8} (hn : bytes.length = n) (rest : List UInt8) :
    readFull n (bytes ++ rest) = .ok (⟨bytes, hn⟩, rest) := by
  have hle : n ≤ (bytes ++ rest).length := by
    rw [List.length_append, hn]
    exact Nat.le_add_right _ _
  rw [readFull, dif_pos hle]
  simp only [List.take_left' hn, List.drop_left' hn]

lemma readFull_of_length_lt {src : List UInt8} (h : src.length < n) :
    readFull n src = .error (if src = [] then .eof else .unexpectedEOF) := dif_neg (Nat.not_le.2 h)

lemma length_of_readFull {bytes : {bytes : List UInt8 // bytes.length = n}}
    (h : readFull n src = .ok (bytes, rest)) : src.length = n + rest.length := by
  unfold readFull at h
  split at h
  case isTrue hle =>
    cases h
    rw [List.length_drop]
    omega
  case isFalse => cases h

lemma length_of_decodeHeader {h : Header} (hok : decodeHeader src = .ok (h, rest)) :
    src.length = frameHeader + rest.length := by
  unfold decodeHeader at hok
  cases hread : readFull frameHeader src with
  | error e => rw [hread] at hok; cases hok
  | ok r =>
    rw [hread] at hok
    cases hparse : parseHeader r.1.1 with
    | error e => simp only [bind, Except.bind, hparse] at hok; cases hok
    | ok header =>
      simp only [bind, Except.bind, hparse, pure, Except.pure] at hok
      cases hok
      exact length_of_readFull hread

lemma decode_of_decodeHeader {h : Header} (hok : decodeHeader src = .ok (h, rest)) :
    decode src = ((readFull h.length rest).mapError torn).map fun r =>
      (⟨h.sequence, h.timestamp, h.stream, h.flags, r.1.1, r.1.2.trans_le h.fits⟩, r.2) := by
  unfold decode
  rw [hok]
  simp only [bind, Except.bind]
  cases readFull h.length rest <;> rfl

lemma length_lt_of_decode (hok : decode src = .ok (f, rest)) :
    rest.length < src.length := by
  cases hheader : decodeHeader src with
  | error e => rw [decode, hheader] at hok; cases hok
  | ok r =>
    obtain ⟨h, tail⟩ := r
    have hlength := length_of_decodeHeader hheader
    rw [decode_of_decodeHeader hheader] at hok
    cases hread : readFull h.length tail with
    | error e => rw [hread] at hok; cases hok
    | ok q =>
      rw [hread] at hok
      cases hok
      have := length_of_readFull hread
      have : 0 < frameHeader := by decide
      omega

def salvageFrames (src : List UInt8) : List Frame × Option DecodeError :=
  match h : decode src with
  | .error .eof => ([], none)
  | .error e => ([], some e)
  | .ok (f, rest) =>
    have := length_lt_of_decode h
    let (frames, err) := salvageFrames rest
    (f :: frames, err)
termination_by src.length

/-! ## Reading what was written -/

def Frame.header (f : Frame) : Header := ⟨f.sequence, f.timestamp, f.stream, f.flags, f.payload.length, f.fits⟩

@[simp]
lemma length_encodeHeader (f : Frame) : (encodeHeader f).length = frameHeader := by
  simp [encodeHeader, frameHeader]

lemma take_drop_append {a b c : List UInt8} {n m : ℕ} (hn : a.length = n) (hm : b.length = m) :
    ((a ++ (b ++ c)).drop n).take m = b := by
  rw [List.drop_left' hn, List.take_left' hm]

lemma parseHeader_encodeHeader (f : Frame) : parseHeader (encodeHeader f) = .ok f.header := by
  have hsequence : BigEndian.get (((encodeHeader f).drop 4).take 8) = f.sequence.toNat := by
    rw [encodeHeader, List.append_assoc, List.append_assoc, take_drop_append (by simp) (BigEndian.length_put ..),
      BigEndian.get_put_of_lt f.sequence.toNat_lt]
  have htimestamp : BigEndian.get (((encodeHeader f).drop 12).take 8) = f.timestamp.toUInt64.toNat := by
    rw [encodeHeader, List.append_assoc, take_drop_append (by simp) (BigEndian.length_put ..),
      BigEndian.get_put_of_lt f.timestamp.toUInt64.toNat_lt]
  have hlength : BigEndian.get (((encodeHeader f).drop 20).take 4) = f.payload.length := by
    rw [encodeHeader, List.drop_left' (by simp), List.take_of_length_le (by simp),
      BigEndian.get_put_of_lt (f.fits.trans_lt (by decide))]
  have hversion : ¬ (encodeHeader f).getD 0 0 ≠ version := fun h => h rfl
  rw [parseHeader, if_neg hversion, dif_pos (hlength.trans_le f.fits)]
  simp only [hsequence, htimestamp, hlength, UInt64.ofNat_toNat, Int64.toInt64_toUInt64]
  rfl

lemma decodeHeader_append (f : Frame) (rest : List UInt8) :
    decodeHeader (encodeHeader f ++ rest) = .ok (f.header, rest) := by
  rw [decodeHeader, readFull_append (length_encodeHeader f)]
  simp only [bind, Except.bind, parseHeader_encodeHeader, pure, Except.pure]

lemma decode_append (f : Frame) (rest : List UInt8) : decode (encode f ++ rest) = .ok (f, rest) := by
  have hread : readFull f.header.length (f.payload ++ rest) = .ok (⟨f.payload, rfl⟩, rest) :=
    readFull_append rfl rest
  rw [encode, List.append_assoc, decode_of_decodeHeader (decodeHeader_append f _), hread]
  rfl

lemma decode_nil : decode [] = .error .eof := by
  rw [decode, decodeHeader, readFull_of_length_lt (by decide)]
  rfl

lemma decode_cut (f : Frame) {k : ℕ} (hpos : 0 < k) (hcut : k < (encode f).length) :
    decode ((encode f).take k) = .error .unexpectedEOF := by
  have hsize : (encode f).length = frameHeader + f.payload.length := by
    rw [encode, List.length_append, length_encodeHeader]
  by_cases hheader : k < frameHeader
  case pos =>
    have hlength : ((encode f).take k).length = k := List.length_take_of_le hcut.le
    have hne : (encode f).take k ≠ [] := List.ne_nil_of_length_pos (hpos.trans_eq hlength.symm)
    rw [decode, decodeHeader, readFull_of_length_lt (hlength.trans_lt hheader), if_neg hne]
    rfl
  case neg =>
    have hsplit : (encode f).take k = encodeHeader f ++ f.payload.take (k - frameHeader) := by
      rw [encode, List.take_append, length_encodeHeader, List.take_of_length_le]
      rw [length_encodeHeader]
      exact Nat.not_lt.1 hheader
    have hpayload : (f.payload.take (k - frameHeader)).length < f.header.length := by
      rw [List.length_take]
      exact (Nat.min_le_left ..).trans_lt (by change _ < f.payload.length; omega)
    rw [hsplit, decode_of_decodeHeader (decodeHeader_append f _), readFull_of_length_lt hpayload]
    split <;> rfl

lemma salvageFrames_nil : salvageFrames [] = ([], none) := by
  rw [salvageFrames]
  split
  case h_1 => rfl
  case h_2 e hne h => exact absurd (Except.error.inj (h.symm.trans decode_nil)) hne
  case h_3 f rest h => cases h.symm.trans decode_nil

lemma salvageFrames_append (f : Frame) (rest : List UInt8) :
    salvageFrames (encode f ++ rest) = (f :: (salvageFrames rest).1, (salvageFrames rest).2) := by
  rw [salvageFrames]
  split
  case h_1 h => cases h.symm.trans (decode_append f rest)
  case h_2 e hne h => cases h.symm.trans (decode_append f rest)
  case h_3 g src h =>
    cases h.symm.trans (decode_append f rest)
    rfl

lemma salvageFrames_cut (f : Frame) {k : ℕ} (hpos : 0 < k) (hcut : k < (encode f).length) :
    salvageFrames ((encode f).take k) = ([], some .unexpectedEOF) := by
  rw [salvageFrames]
  split
  case h_1 h => cases h.symm.trans (decode_cut f hpos hcut)
  case h_2 e hne h =>
    cases h.symm.trans (decode_cut f hpos hcut)
    rfl
  case h_3 g src h => cases h.symm.trans (decode_cut f hpos hcut)

/-! ## A stream that is cut anywhere -/

lemma encodeFrames_cons (f : Frame) (frames : List Frame) :
    encodeFrames (f :: frames) = encode f ++ encodeFrames frames :=
  List.flatMap_cons

lemma encodeFrames_append (frames more : List Frame) :
    encodeFrames (frames ++ more) = encodeFrames frames ++ encodeFrames more := List.flatMap_append

lemma length_encode_pos (f : Frame) : 0 < (encode f).length := by
  rw [encode, List.length_append, length_encodeHeader]
  exact Nat.add_pos_left (by decide) _

lemma salvageFrames_encodeFrames_append (frames : List Frame) (rest : List UInt8) :
    salvageFrames (encodeFrames frames ++ rest) = (frames ++ (salvageFrames rest).1, (salvageFrames rest).2) := by
  induction frames with
  | nil => rfl
  | cons f frames ih => rw [encodeFrames_cons, List.append_assoc, salvageFrames_append, ih, List.cons_append]

lemma salvageFrames_encodeFrames (frames : List Frame) : salvageFrames (encodeFrames frames) = (frames, none) := by
  have h := salvageFrames_encodeFrames_append frames []
  rwa [List.append_nil, salvageFrames_nil, List.append_nil] at h

inductive CutAfter (frames : List Frame) (k n : ℕ) : Prop
  | boundary (h : (encodeFrames frames).take k = encodeFrames (frames.take n))
  | inside (f : Frame) (j : ℕ) (hnext : frames[n]? = some f) (hpos : 0 < j) (hcut : j < (encode f).length)
      (h : (encodeFrames frames).take k = encodeFrames (frames.take n) ++ (encode f).take j)

lemma CutAfter.cons {k n : ℕ} (f : Frame) (h : CutAfter frames k n) :
    CutAfter (f :: frames) ((encode f).length + k) (n + 1) := by
  have htake : (encodeFrames (f :: frames)).take ((encode f).length + k) = encode f ++
      (encodeFrames frames).take k := by
    rw [encodeFrames_cons, List.take_length_add_append]
  cases h with
  | boundary h =>
    refine .boundary ?_
    rw [htake, h, List.take_succ_cons, encodeFrames_cons]
  | inside g j hnext hpos hcut h =>
    refine .inside g j (by rwa [List.getElem?_cons_succ]) hpos hcut ?_
    rw [htake, h, List.take_succ_cons, encodeFrames_cons, List.append_assoc]

lemma exists_cutAfter (frames : List Frame) (k : ℕ) : ∃ n ≤ frames.length, CutAfter frames k n := by
  induction frames generalizing k with
  | nil => exact ⟨0, le_rfl, .boundary (List.take_nil ..)⟩
  | cons f frames ih =>
    by_cases hcut : k < (encode f).length
    case pos =>
      have htake : (encodeFrames (f :: frames)).take k = (encode f).take k := by
        rw [encodeFrames_cons, List.take_append_of_le_length hcut.le]
      refine ⟨0, Nat.zero_le _, ?_⟩
      rcases Nat.eq_zero_or_pos k with rfl | hpos
      · exact .boundary rfl
      · exact .inside f k rfl hpos hcut htake
    case neg =>
      obtain ⟨n, hn, h⟩ := ih (k - (encode f).length)
      refine ⟨n + 1, Nat.succ_le_succ hn, ?_⟩
      have := h.cons f
      rwa [Nat.add_sub_cancel' (Nat.not_lt.1 hcut)] at this

lemma encodeFrames_take_mono (frames : List Frame) {n m : ℕ} (h : n ≤ m) :
    encodeFrames (frames.take n) <+: encodeFrames (frames.take m) := by
  obtain ⟨more, hmore⟩ := List.take_prefix_take_left (l := frames) h
  rw [← hmore, encodeFrames_append]
  exact List.prefix_append ..

lemma length_encodeFrames_take_succ (hnext : frames[n]? = some f) :
    (encodeFrames (frames.take (n + 1))).length = (encodeFrames (frames.take n)).length + (encode f).length := by
  rw [List.take_add_one, hnext, encodeFrames_append, List.length_append]
  simp [encodeFrames]

namespace CutAfter

variable {frames : List Frame} {k n : ℕ} (h : CutAfter frames k n)

include h

lemma covers_of_le {m : ℕ} (hm : m ≤ n) : encodeFrames (frames.take m) <+: (encodeFrames frames).take k := by
  refine (encodeFrames_take_mono frames hm).trans ?_
  cases h with
  | boundary h => exact h ▸ List.prefix_rfl
  | inside f j hnext hpos hcut h => exact h ▸ List.prefix_append ..

lemma length_lt {m : ℕ} (hm : n < m) (hle : m ≤ frames.length) :
    ((encodeFrames frames).take k).length < (encodeFrames (frames.take m)).length := by
  obtain ⟨f, hnext⟩ : ∃ f, frames[n]? = some f := ⟨_, List.getElem?_eq_getElem (hm.trans_le hle)⟩
  refine lt_of_lt_of_le ?_ (encodeFrames_take_mono frames hm).length_le
  rw [length_encodeFrames_take_succ hnext]
  cases h with
  | boundary h =>
    rw [h]
    exact Nat.lt_add_of_pos_right (length_encode_pos f)
  | inside g j hnext' hpos hcut h =>
    cases hnext.symm.trans hnext'
    rw [h, List.length_append, List.length_take_of_le hcut.le]
    exact Nat.add_lt_add_left hcut _

lemma covers_iff {m : ℕ} (hle : m ≤ frames.length) :
    encodeFrames (frames.take m) <+: (encodeFrames frames).take k ↔ m ≤ n := by
  refine ⟨fun hm => ?_, h.covers_of_le⟩
  by_contra hlt
  exact absurd hm.length_le (Nat.not_le.2 (h.length_lt (Nat.not_le.1 hlt) hle))

end CutAfter

def AtBoundary (frames : List Frame) (cut : List UInt8) : Prop := ∃ m, cut = encodeFrames (frames.take m)

lemma not_atBoundary_of_inside {k n : ℕ} {j : ℕ} (hnext : frames[n]? = some f)
    (hpos : 0 < j) (hcut : j < (encode f).length)
    (h : (encodeFrames frames).take k = encodeFrames (frames.take n) ++ (encode f).take j) :
    ¬ AtBoundary frames ((encodeFrames frames).take k) := by
  rintro ⟨m, hm⟩
  have hlength := congrArg List.length (h.symm.trans hm)
  rw [List.length_append, List.length_take_of_le hcut.le] at hlength
  rcases Nat.lt_or_ge n m with hlt | hge
  · have := (encodeFrames_take_mono frames hlt).length_le
    rw [length_encodeFrames_take_succ hnext] at this
    omega
  · have := (encodeFrames_take_mono frames hge).length_le
    omega

lemma CutAfter.salvage {frames : List Frame} {k n : ℕ} (h : CutAfter frames k n) :
    salvageFrames ((encodeFrames frames).take k) = (frames.take n, none) ∧
        AtBoundary frames ((encodeFrames frames).take k) ∨
      salvageFrames ((encodeFrames frames).take k) = (frames.take n, some .unexpectedEOF) ∧
        ¬ AtBoundary frames ((encodeFrames frames).take k) := by
  cases h with
  | boundary h =>
    refine .inl ⟨?_, n, h⟩
    rw [h, salvageFrames_encodeFrames]
  | inside f j hnext hpos hcut h =>
    refine .inr ⟨?_, not_atBoundary_of_inside hnext hpos hcut h⟩
    rw [h, salvageFrames_encodeFrames_append, salvageFrames_cut f hpos hcut, List.append_nil]

/-- Salvaging the first `k` bytes of a stream of frames gives the frames that lie completely inside them, and
reports an unexpected end unless the cut is at a frame boundary. -/
theorem salvageFrames_take (frames : List Frame) (k : ℕ) :
    (∃ n ≤ frames.length, (salvageFrames ((encodeFrames frames).take k)).1 = frames.take n ∧
      ∀ m ≤ frames.length, encodeFrames (frames.take m) <+: (encodeFrames frames).take k ↔ m ≤ n) ∧
    ((salvageFrames ((encodeFrames frames).take k)).2 = none ↔ AtBoundary frames ((encodeFrames frames).take k)) ∧
    (¬ AtBoundary frames ((encodeFrames frames).take k) →
      (salvageFrames ((encodeFrames frames).take k)).2 = some .unexpectedEOF) ∧
    salvageFrames (encodeFrames frames) = (frames, none) := by
  obtain ⟨n, hn, hafter⟩ := exists_cutAfter frames k
  rcases hafter.salvage with ⟨hsalvage, hboundary⟩ | ⟨hsalvage, hboundary⟩
  · refine ⟨⟨n, hn, by rw [hsalvage], fun m hm => hafter.covers_iff hm⟩, ?_, fun h => absurd hboundary h,
      salvageFrames_encodeFrames frames⟩
    exact iff_of_true (by rw [hsalvage]) hboundary
  · refine ⟨⟨n, hn, by rw [hsalvage], fun m hm => hafter.covers_iff hm⟩, ?_, fun _ => by rw [hsalvage],
      salvageFrames_encodeFrames frames⟩
    refine iff_of_false ?_ hboundary
    rw [hsalvage]
    exact Option.some_ne_none _

end Minicrond.Logs.Codec
