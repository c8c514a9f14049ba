import Minicrond.Logs.WriterSync

/-! Strict durability. With per-frame sync `Write` calls `Sync` before it returns, and a seal syncs the chunk
before it closes the file. -/

namespace Minicrond.Logs.Capture.Durability

open Library

def Files.strict (synced : Bool) (f : Files) : FileEffect → Files
  | .frame payload => f.append payload
  | .finish ok => (f.fsync f.handle.chunk (f.written f.handle.chunk) (ok || synced)).shut
  | .abandon => f.shut
  | .start k => f.start k

def loses (synced : Bool) : FileEffect → Bool
  | .finish ok => !(ok || synced)
  | .abandon => true
  | _ => false

/-- A writer with per-frame sync and the goroutines that write through it: which of them have called `Sync`, the
frame a `Write` has stored before that, and the frames of the calls of `Write` that returned nil. -/
structure StrictState (τ : Type*) where
  writer : WriterSync τ
  calling : τ → Bool := fun _ => false
  frame : τ → Option (ℕ × ℕ) := fun _ => none
  acked : List (ℕ × ℕ) := []

namespace StrictState

variable {τ : Type*} [DecidableEq τ]

def locked (s : StrictState τ) (e : Event) (synced : Bool) : StrictState τ :=
  { s with
    writer.log := s.writer.log.next e
    writer.files := (s.writer.log.effects e).foldl (Files.strict synced) s.writer.files }

def stored (s : StrictState τ) (x : τ) : StrictState τ :=
  { s with
    calling := Function.update s.calling x true
    frame := Function.update s.frame x
      (some (s.writer.files.handle.chunk, s.writer.files.written s.writer.files.handle.chunk)) }

/-- `Write` up to its call of `Sync`. It returns at once if the frame was not stored: with an error, or because
there was no room for the line. -/
def write (s : StrictState τ) (x : τ) (e : Entry) (io : WriteIO) (synced : Bool) : StrictState τ :=
  let s' := s.locked (.write e io) synced
  match (s.writer.log.writer.writeLocked e io).outcome with
  | .ok (some _) => s'.stored x
  | _ => s'

def synced (s : StrictState τ) (x : τ) (w : WriterSync τ) : Option Bool → StrictState τ
  | none => { s with writer := w }
  | some err =>
    { writer := w
      calling := Function.update s.calling x false
      frame := Function.update s.frame x none
      acked := if err then s.acked else (s.frame x).toList ++ s.acked }

def start (options : WriterOptions) (how : Start) : StrictState τ :=
  { writer := { log := .start options how, files := { handle := (Writer.start options how).buffer.handle } } }

end StrictState

inductive StrictEvent (τ : Type*) where
  | locked (e : Event) (synced : Bool)
  | write (x : τ) (e : Entry) (io : WriteIO) (synced : Bool)
  | call (x : τ)
  | sync (x : τ)

section

variable {τ : Type*} [DecidableEq τ]

inductive StrictStep : StrictState τ → StrictEvent τ → StrictState τ → Prop
  -- A pump, a checkpoint, the archival of a batch or `Close`.
  | locked {s} (e synced) : StrictStep s (.locked e synced) (s.locked e synced)
  | write {s x} (e io synced) (hidle : s.calling x = false) :
      StrictStep s (.write x e io synced) (s.write x e io synced)
  -- A pump calls `Sync` after it has stored a line; it does not look at the result.
  | call {s x} (hidle : s.calling x = false) :
      StrictStep s (.call x) { s with calling := Function.update s.calling x true }
  | sync {s x w result} (hcall : s.calling x = true) (hsync : SyncCall s.writer x result w) :
      StrictStep s (.sync x) (s.synced x w result)

def Files.Synced (f : Files) (k i : ℕ) : Prop := f.Covers (·.ok = true) k i

/-- A chunk is left without a successful fsync only when every `Write` that waits for its sync has been covered. -/
def Keeps (s : StrictState τ) : StrictEvent τ → Prop
  | .locked e synced => (∃ x ∈ s.writer.log.effects e, loses synced x = true) →
      ∀ y k i, s.frame y = some (k, i) → s.writer.files.Synced k i
  | .write _ e io synced => (∃ x ∈ s.writer.log.effects (.write e io), loses synced x = true) →
      ∀ y k i, s.frame y = some (k, i) → s.writer.files.Synced k i
  | _ => True

end

/-! ## The files -/

namespace Files

variable {f : Files} {k i : ℕ} {synced : Bool}

lemma strict_handle {e : FileEffect} {h : Handle} (hstep : FileStep f.handle e h) :
    (f.strict synced e).handle = h := by
  generalize hf : f.handle = h₀ at hstep
  cases hstep with
  | frame payload => exact hf
  | finish ok | abandon => exact congrArg (Handle.mk · false) (congrArg Handle.chunk hf)
  | start => rfl

lemma strict_follows {e : FileEffect} {h : Handle} (hstep : FileStep f.handle e h) (hi : i ≤ f.written k)
    (hkeep : loses synced e = true → f.Synced k i) : Follows (·.ok = true) k i f (f.strict synced e) := by
  generalize hf : f.handle = h₀ at hstep
  cases hstep with
  | frame payload => exact .append f payload
  | finish ok =>
    refine ⟨le_rfl, covers_fsync _ _ _, fun hopen => .inr ?_⟩
    obtain rfl : f.handle.chunk = k := congrArg Handle.chunk hopen
    cases hok : (ok || synced) with
    | true => exact covers_of_fsync hok hi
    | false => exact covers_fsync _ _ _ (hkeep (by rw [loses, hok]; rfl))
  | abandon => exact ⟨le_rfl, id, fun _ => .inr (hkeep rfl)⟩
  | start => exact .start (congrArg Handle.isOpen hf) _

lemma strict_run_handle {es : List FileEffect} {h₀ h : Handle} (hrun : Run FileStep h₀ es h) (hf : f.handle = h₀) :
    (es.foldl (strict synced) f).handle = h := by
  induction hrun generalizing f with
  | nil => exact hf
  | cons hstep _ ih =>
    subst hf
    exact ih (strict_handle hstep)

lemma strict_run {es : List FileEffect} {h₀ h : Handle} (hrun : Run FileStep h₀ es h) (hf : f.handle = h₀)
    (hi : i ≤ f.written k) (hkeep : (∃ e ∈ es, loses synced e = true) → f.Synced k i) :
    Follows (·.ok = true) k i f (es.foldl (strict synced) f) := by
  induction hrun generalizing f with
  | nil => exact .refl f
  | @cons _ _ _ e es hstep _ ih =>
    subst hf
    have hfollows := strict_follows hstep hi fun he => hkeep ⟨e, List.mem_cons_self, he⟩
    refine hfollows.trans (ih (strict_handle hstep) (hi.trans hfollows.written) ?_)
    rintro ⟨e', he', hloses⟩
    exact hfollows.covers (hkeep ⟨e', List.mem_cons_of_mem _ he', hloses⟩)

lemma strict_fsyncs_subset (e : FileEffect) : f.fsyncs ⊆ (f.strict synced e).fsyncs := by
  cases e with
  | finish ok => exact List.subset_cons_self _ _
  | frame | abandon | start => exact List.Subset.refl _

lemma strict_synced (es : List FileEffect) (h : f.Synced k i) : (es.foldl (strict synced) f).Synced k i := by
  induction es generalizing f with
  | nil => exact h
  | cons e es ih =>
    obtain ⟨y, hy, hP⟩ := h
    exact ih ⟨y, strict_fsyncs_subset e hy, hP⟩

end Files

/-! ## Frames that wait for their sync -/

namespace WriterSync

variable {τ : Type*} {w w' : WriterSync τ} {x : τ} {k i : ℕ}

def Quiet (w : WriterSync τ) : Prop :=
  match w.sync with
  | some (_, .claimed _) | some (_, .syncing _ _) => False
  | _ => True

/-- The frame has been synced; or its chunk is open, and a call of `Sync` that finds nothing to do either waits for
the call that has taken the frame or reports its failure. -/
def Safe (w : WriterSync τ) (k i : ℕ) : Prop :=
  w.files.Synced k i ∨
    (w.files.handle = ⟨k, true⟩ ∧ (0 < w.files.unsynced ∨ w.InFlight k i ∨ (w.Quiet ∧ w.lastSyncErr = true)))

def Knows (w : WriterSync τ) (x : τ) (k i : ℕ) : Prop :=
  ∀ stage, w.sync = some (x, stage) → stage = .entered ∨ w.files.Synced k i ∨ w.InFlight k i

end WriterSync

section

variable {τ : Type*} {w w' : WriterSync τ} {x y : τ} {k i : ℕ} {result : Option Bool}

lemma SyncCall.safe (h : SyncCall w x result w') (hw : w.Tracks) (hi : i ≤ w.files.written k) (hs : w.Safe k i) :
    w'.Safe k i := by
  obtain hsynced | ⟨hfile, hwaits⟩ := hs
  · left
    cases h with
    | finish ok hsync => exact Files.covers_fsync _ _ _ hsynced
    | _ => exact hsynced
  cases h with
  | enter hsync | nothing hsync hnothing =>
    refine .inr ⟨hfile, hwaits.imp_right fun h => .inr ⟨trivial, ?_⟩⟩
    rw [WriterSync.InFlight, hsync] at h
    exact h.elim False.elim And.right
  | claim hsync hnothing => exact .inr ⟨hfile, .inr (.inl (hw.open hfile).2.2)⟩
  | errClosed hsync hclosed =>
    rw [WriterSync.InFlight, WriterSync.Quiet, hsync] at hwaits
    obtain hpos | rfl | ⟨hquiet, -⟩ := hwaits
    · exact .inr ⟨hfile, .inl hpos⟩
    · exact absurd hfile hclosed
    · exact hquiet.elim
  | issue hsync hopen =>
    rw [WriterSync.InFlight, WriterSync.Quiet, hsync] at hwaits
    obtain hpos | rfl | ⟨hquiet, -⟩ := hwaits
    · exact .inr ⟨hfile, .inl hpos⟩
    · exact .inr ⟨hfile, .inr (.inl ⟨rfl, hi⟩)⟩
    · exact hquiet.elim
  | finish ok hsync =>
    rw [WriterSync.InFlight, WriterSync.Quiet, hsync] at hwaits
    obtain hpos | ⟨rfl, hm⟩ | ⟨hquiet, -⟩ := hwaits
    · exact .inr ⟨hfile, .inl hpos⟩
    · cases ok with
      | true => exact .inl (Files.covers_of_fsync rfl hm)
      | false => exact .inr ⟨hfile, .inr (.inr ⟨trivial, rfl⟩)⟩
    · exact hquiet.elim

lemma SyncCall.knows (h : SyncCall w x result w') (hw : w.Tracks) (hi : i ≤ w.files.written k) (hs : w.Safe k i)
    (hx : w.Knows x k i) : w'.Knows x k i := by
  intro stage hstage
  cases h with
  | enter hsync => exact .inl (congrArg Prod.snd (Option.some.inj hstage)).symm
  | claim hsync hnothing =>
    refine .inr (hs.imp_right fun h => ?_)
    exact (hw.open h.1).2.2
  | issue hsync hopen =>
    obtain hentered | hsynced | hflight := hx _ hsync
    · cases hentered
    · exact .inr (.inl hsynced)
    · rw [WriterSync.InFlight, hsync] at hflight
      exact .inr (.inr ⟨hflight, hflight ▸ hi⟩)
  | nothing | errClosed | finish => cases hstage

lemma SyncCall.synced (h : SyncCall w x (some false) w') (hw : w.Tracks) (hs : w.Safe k i) (hx : w.Knows x k i) :
    w'.files.Synced k i := by
  generalize hresult : some false = result at h
  cases h with
  | nothing hsync hnothing =>
    obtain hsynced | ⟨hfile, hwaits⟩ := hs
    · exact hsynced
    · rw [WriterSync.InFlight, hsync, hw.unsynced_of_nothing hfile hnothing, ← Option.some.inj hresult] at hwaits
      simp at hwaits
  | errClosed hsync hclosed =>
    obtain hentered | hsynced | hflight := hx _ hsync
    · cases hentered
    · exact hsynced
    · rw [WriterSync.InFlight, hsync] at hflight
      exact hs.resolve_right fun h => hclosed (hflight ▸ h.1)
  | finish ok hsync =>
    obtain hentered | hsynced | hflight := hx _ hsync
    · cases hentered
    · exact Files.covers_fsync _ _ _ hsynced
    · rw [WriterSync.InFlight, hsync] at hflight
      obtain ⟨rfl, hm⟩ := hflight
      cases ok with
      | true => exact Files.covers_of_fsync rfl hm
      | false => cases hresult
  | enter | claim | issue => cases hresult

end

/-! ## Runs -/

namespace StrictState

variable {τ : Type*} {s : StrictState τ} {x : τ}

structure Sound (s : StrictState τ) : Prop where
  tracks : s.writer.Tracks
  calling : ∀ x stage, s.writer.sync = some (x, stage) → s.calling x = true
  frames : ∀ x k i, s.frame x = some (k, i) →
    i ≤ s.writer.files.written k ∧ s.writer.Safe k i ∧ s.writer.Knows x k i
  acked : ∀ c ∈ s.acked, s.writer.files.Synced c.1 c.2

lemma Sound.locked (h : s.Sound) (e : Event) (synced : Bool)
    (hkeep : (∃ x ∈ s.writer.log.effects e, loses synced x = true) →
      ∀ y k i, s.frame y = some (k, i) → s.writer.files.Synced k i) : (s.locked e synced).Sound where
  tracks := ⟨Files.strict_run_handle (s.writer.log.next_run e) h.tracks.handle, h.tracks.shut.next e⟩
  calling := h.calling
  frames y k i hy := by
    obtain ⟨hi, hsafe, hknows⟩ := h.frames y k i hy
    have hfollows :=
      Files.strict_run (s.writer.log.next_run e) h.tracks.handle hi fun hloses => hkeep hloses y k i hy
    refine ⟨hi.trans hfollows.written, ?_, fun stage hstage => ?_⟩
    · obtain hsynced | ⟨hfile, hwaits⟩ := hsafe
      · exact .inl (hfollows.covers hsynced)
      · obtain ⟨hfile', hle⟩ | hcovers := hfollows.current hfile
        · exact .inr ⟨hfile', hwaits.imp_left hle.trans_lt'⟩
        · exact .inl hcovers
    · exact (hknows stage hstage).imp_right (Or.imp_left hfollows.covers)
  acked c hc := Files.strict_synced _ (h.acked c hc)

lemma Sound.unsynced_of_stored (h : s.Sound) {e : Entry} {io : WriteIO} {n : ℕ} (synced : Bool)
    (hstored : (s.writer.log.writer.writeLocked e io).outcome = .ok (some n)) :
    (s.locked (.write e io) synced).writer.files.handle.isOpen = true ∧
      0 < (s.locked (.write e io) synced).writer.files.unsynced := by
  obtain ⟨es, payload, heffects⟩ := Writer.writeEffects_of_stored hstored
  have hrun := s.writer.log.next_run (.write e io)
  have hhandle : (s.locked (.write e io) synced).writer.files.handle = _ :=
    Files.strict_run_handle hrun h.tracks.handle
  change Run FileStep _ (s.writer.log.writer.writeEffects e io) _ at hrun
  rw [heffects] at hrun
  obtain ⟨h₀, -, hlast⟩ := hrun.of_append
  have hfiles : (s.locked (.write e io) synced).writer.files =
      (es.foldl (Files.strict synced) s.writer.files).append payload := by
    change (s.writer.log.writer.writeEffects e io).foldl (Files.strict synced) s.writer.files = _
    rw [heffects, List.foldl_append]
    rfl
  constructor
  · rw [hhandle]
    generalize (s.writer.log.next (.write e io)).writer.buffer.handle = h₁ at hlast
    obtain _ | ⟨hstep, _ | _⟩ := hlast
    cases hstep
    rfl
  · rw [hfiles]
    exact Nat.add_pos_right _ (Nat.add_pos_left (by decide) _)

lemma Sound.write [DecidableEq τ] (h : s.Sound) (hidle : s.calling x = false) (e : Entry) (io : WriteIO)
    (synced : Bool)
    (hkeep : (∃ x ∈ s.writer.log.effects (.write e io), loses synced x = true) →
      ∀ y k i, s.frame y = some (k, i) → s.writer.files.Synced k i) : (s.write x e io synced).Sound := by
  have hlocked := h.locked (.write e io) synced hkeep
  rw [StrictState.write]
  split
  case h_2 => exact hlocked
  case h_1 n hstored =>
    refine ⟨hlocked.tracks, fun y stage hy => ?_, fun y k i hy => ?_, hlocked.acked⟩
    · by_cases hyx : y = x
      · subst hyx
        exact Function.update_self _ _ _
      · exact (Function.update_of_ne hyx _ _).trans (hlocked.calling y stage hy)
    · by_cases hyx : y = x
      · subst hyx
        dsimp only [stored] at hy
        rw [Function.update_self] at hy
        obtain ⟨rfl, rfl⟩ := Prod.mk.inj (Option.some.inj hy)
        obtain ⟨hopen, hunsynced⟩ := h.unsynced_of_stored synced hstored
        refine ⟨le_rfl, .inr ⟨congrArg (Handle.mk _) hopen, .inl hunsynced⟩, fun stage hstage => ?_⟩
        exact nomatch hidle.symm.trans (h.calling y stage hstage)
      · exact hlocked.frames y k i ((Function.update_of_ne hyx _ _).symm.trans hy)

lemma Sound.sync [DecidableEq τ] (h : s.Sound) {w : WriterSync τ} {result : Option Bool}
    (hcall : s.calling x = true) (hsync : SyncCall s.writer x result w) : (s.synced x w result).Sound := by
  have hframes : ∀ y k i, s.frame y = some (k, i) → i ≤ w.files.written k ∧ w.Safe k i ∧ w.Knows y k i := by
    intro y k i hy
    obtain ⟨hi, hsafe, hknows⟩ := h.frames y k i hy
    refine ⟨hsync.written ▸ hi, hsync.safe h.tracks hi hsafe, fun stage hstage => ?_⟩
    obtain rfl := hsync.holder hstage
    exact hsync.knows h.tracks hi hsafe hknows stage hstage
  have hacked : ∀ c ∈ s.acked, w.files.Synced c.1 c.2 := fun c hc => by
    have := h.acked c hc
    cases hsync with
    | finish ok hsync => exact Files.covers_fsync _ _ _ this
    | _ => exact this
  cases result with
  | none => exact ⟨hsync.tracks h.tracks, fun y stage hy => hsync.holder hy ▸ hcall, hframes, hacked⟩
  | some err =>
    have hfree : w.sync = none := by
      generalize hresult : some err = result at hsync
      cases hsync with
      | nothing | errClosed | finish => rfl
      | enter | claim | issue => cases hresult
    refine ⟨hsync.tracks h.tracks, (fun y stage hy => nomatch hfree.symm.trans hy), fun y k i hy => ?_,
      fun c hc => ?_⟩
    · by_cases hyx : y = x
      · subst hyx
        exact nomatch (Function.update_self _ _ _).symm.trans hy
      · exact hframes y k i ((Function.update_of_ne hyx _ _).symm.trans hy)
    · cases err with
      | true => exact hacked c hc
      | false =>
        rcases List.mem_append.1 hc with hc | hc
        · obtain ⟨hi, hsafe, hknows⟩ := h.frames x c.1 c.2 (Option.mem_toList.1 hc)
          exact hsync.synced h.tracks hsafe hknows
        · exact hacked c hc

end StrictState

lemma StrictStep.sound {τ : Type*} [DecidableEq τ] {s t : StrictState τ} {e : StrictEvent τ}
    (h : StrictStep s e t) (hkeep : Keeps s e) (hs : s.Sound) : t.Sound := by
  cases h with
  | locked e synced => exact hs.locked e synced hkeep
  | write e io synced hidle => exact hs.write hidle e io synced hkeep
  | @call x hidle =>
    refine ⟨hs.tracks, fun y stage hy => ?_, hs.frames, hs.acked⟩
    by_cases hyx : y = x
    · subst hyx
      exact Function.update_self _ _ _
    · exact (Function.update_of_ne hyx _ _).trans (hs.calling y stage hy)
  | sync hcall hsync => exact hs.sync hcall hsync

lemma StrictState.sound_start {τ : Type*} (options : WriterOptions) (how : Start) :
    (start options how : StrictState τ).Sound where
  tracks := ⟨rfl, by cases how <;> exact nofun⟩
  calling := nofun
  frames := nofun
  acked := nofun

/-- In every run in which no chunk is left unsynced under a `Write` that waits for its sync, a `Write`
that returned nil has its frame covered by a successful fsync of the chunk that was issued after the
frame was written. -/
theorem acknowledged_synced {τ : Type*} [DecidableEq τ] (options : WriterOptions) (how : Start)
    {events : List (StrictEvent τ)} {s : StrictState τ}
    (hrun : Run (guarded StrictStep Keeps) (.start options how) events s) :
    ∀ c ∈ s.acked, s.writer.files.Synced c.1 c.2 :=
  (hrun.invariant (fun _ _ _ hstep => hstep.2.sound hstep.1) (StrictState.sound_start options how)).acked

def anyOptions : WriterOptions := ⟨0, 0, false⟩

def line : Entry := ⟨.system, [], 0⟩

def rotates : RotateIO := ⟨none, ⟨none, 0, none⟩, [], none⟩

def writes : WriteIO := ⟨rotates, fun _ => none, rotates, none⟩

theorem acknowledged_synced_sealed :
    ∃ events s, Run (guarded StrictStep Keeps) (.start anyOptions .opened : StrictState Unit) events s ∧
      s.acked = [(1, 1)] ∧ ∀ c ∈ s.acked, s.writer.files.Synced c.1 c.2 := by
  have hrun : Run (guarded StrictStep Keeps) (.start anyOptions .opened : StrictState Unit)
      [.write () line writes true, .sync (), .sync (), .locked (.checkpoint rotates) true, .sync ()] _ :=
    .cons ⟨fun _ => nofun, .write line writes true rfl⟩ <|
    .cons ⟨trivial, .sync rfl (.enter rfl)⟩ <|
    .cons ⟨trivial, .sync rfl (.claim rfl (by decide +kernel))⟩ <|
    .cons ⟨fun h => absurd h (by decide +kernel), .locked (.checkpoint rotates) true⟩ <|
    .cons ⟨trivial, .sync rfl (.errClosed rfl (by decide +kernel))⟩ <|
    .nil _
  exact ⟨_, _, hrun, by decide +kernel, acknowledged_synced anyOptions .opened hrun⟩

theorem acknowledged_unsynced :
    ∃ events s, Run StrictStep (.start anyOptions .opened : StrictState Unit) events s ∧
      s.acked = [(1, 1)] ∧ ¬s.writer.files.Synced 1 1 := by
  have hrun : Run StrictStep (.start anyOptions .opened : StrictState Unit)
      [.write () line writes true,
        .locked (.close 0 ⟨⟨⟨none, 0, none, rotates⟩, writes, 0⟩, ⟨some "sync: input/output error", 0, none⟩⟩)
          false, .sync (), .sync ()] _ :=
    .cons (.write line writes true rfl) <|
    .cons (.locked _ false) <|
    .cons (.sync rfl (.enter rfl)) <|
    .cons (.sync rfl (.nothing rfl (by decide +kernel))) <|
    .nil _
  refine ⟨_, _, hrun, by decide +kernel, ?_⟩
  rintro ⟨y, hy, hok, -⟩
  revert y
  decide +kernel

end Minicrond.Logs.Capture.Durability
