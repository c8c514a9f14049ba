import Minicrond.Library.Execution

/-! Metrics requests for one view share a computation: the first one leads it, the others wait for what it
publishes, and a result is kept until its timer fires. -/

namespace Minicrond.Api

open Minicrond.Library

/-- What a computation publishes: a result, `context.Canceled`, another error, or the error that stands
for a panic. -/
inductive MetricsOutcome (ρ : Type*) where
  | result (r : ρ)
  | canceled
  | failed
  | aborted
  deriving DecidableEq

def MetricsOutcome.ok {ρ : Type*} : MetricsOutcome ρ → Bool
  | .result _ => true
  | _ => false

def MetricsOutcome.isCanceled {ρ : Type*} : MetricsOutcome ρ → Bool
  | .canceled => true
  | _ => false

inductive GetStage (κ ρ : Type*) where
  | idle
  | entering (key : κ)
  | leading (key : κ) (flight : ℕ)
  | waiting (key : κ) (flight : ℕ)
  | answered (flight : ℕ) (outcome : MetricsOutcome ρ)
  | gone
  deriving DecidableEq

structure MetricsShare (κ τ ρ : Type*) where
  flights : κ → Option ℕ := fun _ => none
  outcome : ℕ → Option (MetricsOutcome ρ) := fun _ => none
  created : ℕ := 0
  timers : List (κ × ℕ) := []
  call : τ → GetStage κ ρ := fun _ => .idle
  ended : τ → Bool := fun _ => false
  -- The flights that had been published when the request arrived.
  late : τ → ℕ → Bool := fun _ _ => false

namespace MetricsShare

variable {κ τ ρ : Type*} [DecidableEq κ] [DecidableEq τ] (s : MetricsShare κ τ ρ)

def goto (x : τ) (stage : GetStage κ ρ) : MetricsShare κ τ ρ := { s with call := Function.update s.call x stage }

def arrive (x : τ) (key : κ) : MetricsShare κ τ ρ :=
  { s.goto x (.entering key) with late := Function.update s.late x fun f => (s.outcome f).isSome }

def get (x : τ) (key : κ) : MetricsShare κ τ ρ :=
  match s.flights key with
  | some f => s.goto x (.waiting key f)
  | none =>
    { s.goto x (.leading key s.created) with
      flights := Function.update s.flights key (some s.created), created := s.created + 1 }

def publish (x : τ) (key : κ) (f : ℕ) (o : MetricsOutcome ρ) : MetricsShare κ τ ρ :=
  { s.goto x (.answered f o) with
    outcome := Function.update s.outcome f (some o)
    flights := if o.ok then s.flights else Function.update s.flights key none
    timers := if o.ok then (key, f) :: s.timers else s.timers }

def wake (x : τ) (key : κ) (f : ℕ) (o : MetricsOutcome ρ) : MetricsShare κ τ ρ :=
  s.goto x (if o.isCanceled && !s.ended x then .entering key else .answered f o)

def expire (key : κ) (f : ℕ) : MetricsShare κ τ ρ :=
  { s with
    timers := s.timers.erase (key, f)
    flights := if s.flights key = some f then Function.update s.flights key none else s.flights }

end MetricsShare

inductive ShareEvent (κ τ ρ : Type*) where
  | arrive (x : τ) (key : κ)
  | get (x : τ)
  | publish (x : τ) (o : MetricsOutcome ρ)
  | wake (x : τ)
  | giveUp (x : τ)
  | cancel (x : τ)
  | expire (key : κ) (f : ℕ)

inductive ShareStep {κ τ ρ : Type*} [DecidableEq κ] [DecidableEq τ] :
    MetricsShare κ τ ρ → ShareEvent κ τ ρ → MetricsShare κ τ ρ → Prop
  | arrive {s x} (key) (h : s.call x = .idle) : ShareStep s (.arrive x key) (s.arrive x key)
  | get {s x key} (h : s.call x = .entering key) : ShareStep s (.get x) (s.get x key)
  | publish {s x key f} (o) (h : s.call x = .leading key f) : ShareStep s (.publish x o) (s.publish x key f o)
  | wake {s x key f o} (h : s.call x = .waiting key f) (ho : s.outcome f = some o) :
      ShareStep s (.wake x) (s.wake x key f o)
  | giveUp {s x key f} (h : s.call x = .waiting key f) (hended : s.ended x = true) :
      ShareStep s (.giveUp x) (s.goto x .gone)
  | cancel {s} (x) : ShareStep s (.cancel x) { s with ended := Function.update s.ended x true }
  | expire {s key f} (h : (key, f) ∈ s.timers) : ShareStep s (.expire key f) (s.expire key f)

namespace MetricsShare

variable {κ τ ρ : Type*} {s t : MetricsShare κ τ ρ} {x : τ} {key : κ} {f : ℕ}

/-! ## Flights -/

structure Sound (s : MetricsShare κ τ ρ) : Prop where
  fresh : ∀ f, s.created ≤ f → s.outcome f = none
  bound : ∀ key f, s.flights key = some f → f < s.created
  registered : ∀ key f, s.flights key = some f → s.outcome f = none → ∃ x, s.call x = .leading key f
  cached : ∀ key f o, s.flights key = some f → s.outcome f = some o → o.ok = true
  leading : ∀ x key f, s.call x = .leading key f → s.flights key = some f ∧ s.outcome f = none
  one : ∀ x y key key' f, s.call x = .leading key f → s.call y = .leading key' f → x = y
  late : ∀ x f, s.late x f = true → s.outcome f ≠ none
  led : ∀ x key f, s.call x = .waiting key f → s.outcome f = none → ∃ y, s.call y = .leading key f
  waiting : ∀ x key f o, s.call x = .waiting key f → s.outcome f = some o → o.ok = false → s.late x f = false
  answered : ∀ x f o, s.call x = .answered f o → o.ok = false → s.late x f = false
  timers : ∀ key f, (key, f) ∈ s.timers → ∃ o, s.outcome f = some o ∧ o.ok = true

section

variable [DecidableEq τ]

lemma call_goto_self (s : MetricsShare κ τ ρ) (x : τ) (stage : GetStage κ ρ) : (s.goto x stage).call x = stage :=
  Function.update_self _ _ _

lemma call_goto_of_ne {x y : τ} (hne : y ≠ x) (stage : GetStage κ ρ) : (s.goto x stage).call y = s.call y :=
  Function.update_of_ne hne _ _

lemma of_call_goto {y : τ} {stage stage' : GetStage κ ρ} (h : (s.goto x stage).call y = stage')
    (hne : stage ≠ stage') : y ≠ x ∧ s.call y = stage' := by
  have hyx : y ≠ x := by
    rintro rfl
    exact hne ((call_goto_self s y stage).symm.trans h)
  exact ⟨hyx, (call_goto_of_ne hyx stage).symm.trans h⟩

lemma Sound.goto (h : s.Sound) (hx : ∀ key f, s.call x ≠ .leading key f) {stage : GetStage κ ρ}
    (hstage : ∀ key f, stage ≠ .leading key f)
    (hled : ∀ key f, stage = .waiting key f → s.outcome f = none → ∃ y, s.call y = .leading key f)
    (hwaiting : ∀ key f o, stage = .waiting key f → s.outcome f = some o → o.ok = false → s.late x f = false)
    (hanswered : ∀ f o, stage = .answered f o → o.ok = false → s.late x f = false) : (s.goto x stage).Sound := by
  have hleads : ∀ y key f, (s.goto x stage).call y = .leading key f ↔ s.call y = .leading key f := by
    intro y key f
    rcases eq_or_ne y x with rfl | hne
    · rw [call_goto_self]
      exact ⟨fun heq => absurd heq (hstage key f), fun heq => absurd heq (hx key f)⟩
    · rw [call_goto_of_ne hne]
  refine { h with registered := ?_, leading := ?_, one := ?_, led := ?_, waiting := ?_, answered := ?_ }
  · intro key f hf hnone
    obtain ⟨y, hy⟩ := h.registered key f hf hnone
    exact ⟨y, (hleads y key f).2 hy⟩
  · exact fun y key f hy => h.leading y key f ((hleads y key f).1 hy)
  · exact fun y z key key' f hy hz => h.one y z key key' f ((hleads y key f).1 hy) ((hleads z key' f).1 hz)
  · intro y key f hy hnone
    have hleader : ∃ z, s.call z = .leading key f := by
      rcases eq_or_ne y x with rfl | hne
      · exact hled key f (call_goto_self s y stage ▸ hy) hnone
      · exact h.led y key f (call_goto_of_ne hne stage ▸ hy) hnone
    obtain ⟨z, hz⟩ := hleader
    exact ⟨z, (hleads z key f).2 hz⟩
  · intro y key f o hy ho hfailed
    rcases eq_or_ne y x with rfl | hne
    · exact hwaiting key f o (call_goto_self s y stage ▸ hy) ho hfailed
    · exact h.waiting y key f o (call_goto_of_ne hne stage ▸ hy) ho hfailed
  · intro y f o hy hfailed
    rcases eq_or_ne y x with rfl | hne
    · exact hanswered f o (call_goto_self s y stage ▸ hy) hfailed
    · exact h.answered y f o (call_goto_of_ne hne stage ▸ hy) hfailed

lemma Sound.arrive (h : s.Sound) (hx : s.call x = .idle) (key : κ) : (s.arrive x key).Sound := by
  have hgoto : (s.goto x (.entering key)).Sound := h.goto (fun _ _ => hx ▸ nofun) nofun nofun nofun nofun
  have hlate : ∀ y f, y ≠ x → (s.arrive x key).late y f = s.late y f := fun y f hne =>
    congrFun (Function.update_of_ne hne _ _) f
  refine { hgoto with late := ?_, waiting := ?_, answered := ?_ }
  · intro y f hy
    rcases eq_or_ne y x with rfl | hne
    · dsimp only [MetricsShare.arrive] at hy
      rw [Function.update_self] at hy
      exact Option.isSome_iff_ne_none.mp hy
    · exact h.late y f (hlate y f hne ▸ hy)
  · intro y key' f o hy ho hfailed
    exact (hlate y f (of_call_goto hy nofun).1).trans (hgoto.waiting y key' f o hy ho hfailed)
  · intro y f o hy hfailed
    exact (hlate y f (of_call_goto hy nofun).1).trans (hgoto.answered y f o hy hfailed)

lemma Sound.join (h : s.Sound) (hx : s.call x = .entering key) {f : ℕ} (hf : s.flights key = some f) :
    (s.goto x (.waiting key f)).Sound := by
  refine h.goto (fun _ _ => hx ▸ nofun) nofun ?_ ?_ nofun
  · rintro _ _ ⟨⟩ hnone
    exact h.registered key f hf hnone
  · rintro _ _ o ⟨⟩ ho hfailed
    exact nomatch hfailed.symm.trans (h.cached key f o hf ho)

end

lemma get_of_some [DecidableEq κ] [DecidableEq τ] (h : s.flights key = some f) :
    s.get x key = s.goto x (.waiting key f) := by
  rw [MetricsShare.get, h]

lemma get_of_none [DecidableEq κ] [DecidableEq τ] (h : s.flights key = none) :
    s.get x key = { s.goto x (.leading key s.created) with
      flights := Function.update s.flights key (some s.created), created := s.created + 1 } := by
  rw [MetricsShare.get, h]

lemma Sound.not_late (h : s.Sound) (hf : s.outcome f = none) (y : τ) : s.late y f = false := by
  by_contra hlate
  exact h.late y f (Bool.eq_true_of_not_eq_false hlate) hf

lemma Sound.create [DecidableEq κ] [DecidableEq τ] (h : s.Sound) (hx : s.call x = .entering key)
    (hkey : s.flights key = none) : ({ s.goto x (.leading key s.created) with
      flights := Function.update s.flights key (some s.created), created := s.created + 1 } :
      MetricsShare κ τ ρ).Sound := by
  have hflights : ∀ key' f, Function.update s.flights key (some s.created) key' = some f →
      (key' = key ∧ f = s.created) ∨ (key' ≠ key ∧ s.flights key' = some f) := by
    intro key' f hf
    rcases eq_or_ne key' key with rfl | hne
    · rw [Function.update_self] at hf
      exact .inl ⟨rfl, (Option.some.inj hf).symm⟩
    · rw [Function.update_of_ne hne] at hf
      exact .inr ⟨hne, hf⟩
  have hcall : ∀ y key' f, (s.goto x (.leading key s.created)).call y = .leading key' f →
      (y = x ∧ key' = key ∧ f = s.created) ∨ s.call y = .leading key' f := by
    intro y key' f hy
    rcases eq_or_ne y x with rfl | hne
    · rw [call_goto_self] at hy
      cases hy
      exact .inl ⟨rfl, rfl, rfl⟩
    · rw [call_goto_of_ne hne] at hy
      exact .inr hy
  have hkeep : ∀ y stage, s.call y = stage → (∀ key, stage ≠ .entering key) →
      (s.goto x (.leading key s.created)).call y = stage := by
    rintro y stage rfl hstage
    refine call_goto_of_ne ?_ _
    rintro rfl
    exact hstage key hx
  have hold : ∀ y key' f, s.call y = .leading key' f → f < s.created := fun y key' f hy =>
    h.bound key' f (h.leading y key' f hy).1
  refine ⟨fun f hf => h.fresh f (Nat.le_of_succ_le hf), ?_, ?_, ?_, ?_, ?_, h.late, ?_, ?_, ?_, h.timers⟩
  · intro key' f hf
    obtain ⟨-, rfl⟩ | ⟨-, hf⟩ := hflights key' f hf
    · exact Nat.lt_succ_self _
    · exact Nat.lt_succ_of_lt (h.bound key' f hf)
  · intro key' f hf hnone
    obtain ⟨rfl, rfl⟩ | ⟨-, hf⟩ := hflights key' f hf
    · exact ⟨x, call_goto_self s x _⟩
    · obtain ⟨y, hy⟩ := h.registered key' f hf hnone
      exact ⟨y, hkeep y _ hy nofun⟩
  · intro key' f o hf ho
    obtain ⟨-, rfl⟩ | ⟨-, hf⟩ := hflights key' f hf
    · exact nomatch (h.fresh _ le_rfl).symm.trans ho
    · exact h.cached key' f o hf ho
  · intro y key' f hy
    obtain ⟨rfl, rfl, rfl⟩ | hy := hcall y key' f hy
    · exact ⟨Function.update_self _ _ _, h.fresh _ le_rfl⟩
    · obtain ⟨hf, hnone⟩ := h.leading y key' f hy
      refine ⟨(Function.update_of_ne ?_ _ _).trans hf, hnone⟩
      rintro rfl
      exact nomatch hkey.symm.trans hf
  · intro y z key₁ key₂ f hy hz
    obtain ⟨rfl, -, hnew⟩ | hy' := hcall y key₁ f hy
    · obtain ⟨rfl, -, -⟩ | hz' := hcall z key₂ f hz
      · rfl
      · exact absurd hnew (hold z key₂ f hz').ne
    · obtain ⟨-, -, hnew⟩ | hz' := hcall z key₂ f hz
      · exact absurd hnew (hold y key₁ f hy').ne
      · exact h.one y z key₁ key₂ f hy' hz'
  · intro y key' f hy hnone
    obtain ⟨z, hz⟩ := h.led y key' f (of_call_goto hy nofun).2 hnone
    exact ⟨z, hkeep z _ hz nofun⟩
  · exact fun y key' f o hy => h.waiting y key' f o (of_call_goto hy nofun).2
  · exact fun y f o hy => h.answered y f o (of_call_goto hy nofun).2

section

variable [DecidableEq κ] [DecidableEq τ] {f g : ℕ} {o : MetricsOutcome ρ}

lemma of_outcome_publish {o' : MetricsOutcome ρ} (h : (s.publish x key f o).outcome g = some o') :
    (g = f ∧ o' = o) ∨ s.outcome g = some o' := by
  rcases eq_or_ne g f with rfl | hne
  · dsimp only [MetricsShare.publish] at h
    rw [Function.update_self] at h
    exact .inl ⟨rfl, (Option.some.inj h).symm⟩
  · exact .inr ((Function.update_of_ne hne _ _).symm.trans h)

lemma of_open_publish (h : (s.publish x key f o).outcome g = none) : g ≠ f ∧ s.outcome g = none := by
  rcases eq_or_ne g f with rfl | hne
  · exact nomatch (Function.update_self _ _ _).symm.trans h
  · exact ⟨hne, (Function.update_of_ne hne _ _).symm.trans h⟩

lemma of_flights_publish {key' : κ} (h : (s.publish x key f o).flights key' = some g) :
    s.flights key' = some g := by
  dsimp only [MetricsShare.publish] at h
  split_ifs at h
  case pos => exact h
  case neg =>
    rcases eq_or_ne key' key with rfl | hne
    · exact nomatch (Function.update_self _ _ _).symm.trans h
    · exact (Function.update_of_ne hne _ _).symm.trans h

end

lemma Sound.publish [DecidableEq κ] [DecidableEq τ] (h : s.Sound) (hx : s.call x = .leading key f)
    (o : MetricsOutcome ρ) : (s.publish x key f o).Sound := by
  obtain ⟨hkey, hnone⟩ := h.leading x key f hx
  have hleads : ∀ y key' g, (s.publish x key f o).call y = .leading key' g → y ≠ x ∧ s.call y = .leading key' g :=
    fun _ _ _ hy => of_call_goto hy nofun
  have hother : ∀ y key' g, g ≠ f → s.call y = .leading key' g →
      (s.publish x key f o).call y = .leading key' g := by
    intro y key' g hne hy
    refine (call_goto_of_ne ?_ _).trans hy
    rintro rfl
    rw [hx] at hy
    cases hy
    exact hne rfl
  refine ⟨fun g hg => ?_, fun key' g hg => h.bound key' g (of_flights_publish hg), ?_, ?_, ?_, ?_, ?_, ?_, ?_, ?_,
    ?_⟩
  · refine (Function.update_of_ne ?_ _ _).trans (h.fresh g hg)
    rintro rfl
    exact absurd (h.bound key g hkey) (not_lt.mpr hg)
  · intro key' g hg hopen'
    obtain ⟨hne, hg'⟩ := of_open_publish hopen'
    obtain ⟨y, hy⟩ := h.registered key' g (of_flights_publish hg) hg'
    exact ⟨y, hother y key' g hne hy⟩
  · intro key' g o' hg ho
    obtain ⟨rfl, rfl⟩ | ho := of_outcome_publish ho
    · -- only a result stays in the map
      by_contra hfailed
      have hsame : key' = key := by
        obtain ⟨y, hy⟩ := h.registered key' g (of_flights_publish hg) hnone
        obtain rfl := h.one y x key' key g hy hx
        rw [hx] at hy
        cases hy
        rfl
      subst hsame
      dsimp only [MetricsShare.publish] at hg
      rw [if_neg hfailed, Function.update_self] at hg
      cases hg
    · exact h.cached key' g o' (of_flights_publish hg) ho
  · intro y key' g hy
    obtain ⟨hne, hy'⟩ := hleads y key' g hy
    obtain ⟨hg, hg'⟩ := h.leading y key' g hy'
    have hgf : g ≠ f := fun heq => hne (h.one y x key' key f (heq ▸ hy') hx)
    refine ⟨?_, (Function.update_of_ne hgf _ _).trans hg'⟩
    dsimp only [MetricsShare.publish]
    split_ifs
    case pos => exact hg
    case neg =>
      refine (Function.update_of_ne ?_ _ _).trans hg
      rintro rfl
      exact hgf (Option.some.inj (hg.symm.trans hkey))
  · intro y z key₁ key₂ g hy hz
    exact h.one y z key₁ key₂ g (hleads y key₁ g hy).2 (hleads z key₂ g hz).2
  · intro y g hlate hopen'
    exact h.late y g hlate (of_open_publish hopen').2
  · intro y key' g hy hopen'
    obtain ⟨hne, hg⟩ := of_open_publish hopen'
    obtain ⟨z, hz⟩ := h.led y key' g (of_call_goto hy nofun).2 hg
    exact ⟨z, hother z key' g hne hz⟩
  · intro y key' g o' hy ho hfailed
    obtain ⟨rfl, -⟩ | ho := of_outcome_publish ho
    · exact h.not_late hnone y
    · exact h.waiting y key' g o' (of_call_goto hy nofun).2 ho hfailed
  · intro y g o' hy hfailed
    rcases eq_or_ne y x with rfl | hyx
    · have heq := (call_goto_self s y _).symm.trans hy
      cases heq
      exact h.not_late hnone y
    · exact h.answered y g o' ((call_goto_of_ne hyx _).symm.trans hy) hfailed
  · intro key' g hg
    have hold : (key', g) ∈ s.timers → ∃ o', (s.publish x key f o).outcome g = some o' ∧ o'.ok = true := by
      intro hmem
      obtain ⟨o', ho, hok⟩ := h.timers key' g hmem
      refine ⟨o', (Function.update_of_ne ?_ _ _).trans ho, hok⟩
      rintro rfl
      exact nomatch hnone.symm.trans ho
    dsimp only [MetricsShare.publish] at hg
    split_ifs at hg with hok
    case pos =>
      rcases List.mem_cons.mp hg with heq | hmem
      · cases heq
        exact ⟨o, Function.update_self _ _ _, hok⟩
      · exact hold hmem
    case neg => exact hold hg

lemma Sound.wake [DecidableEq τ] (h : s.Sound) {f : ℕ} {o : MetricsOutcome ρ} (hx : s.call x = .waiting key f)
    (ho : s.outcome f = some o) : (s.wake x key f o).Sound := by
  have hgoto : ∀ stage : GetStage κ ρ, stage = .entering key ∨ stage = .answered f o → (s.goto x stage).Sound := by
    rintro stage (rfl | rfl)
    · exact h.goto (fun _ _ => hx ▸ nofun) nofun nofun nofun nofun
    · refine h.goto (fun _ _ => hx ▸ nofun) nofun nofun nofun ?_
      rintro _ _ ⟨⟩ hfailed
      exact h.waiting x key f o hx ho hfailed
  rw [MetricsShare.wake]
  split_ifs
  case pos => exact hgoto _ (.inl rfl)
  case neg => exact hgoto _ (.inr rfl)

lemma flights_expire [DecidableEq κ] (s : MetricsShare κ τ ρ) (key : κ) (f : ℕ) (key' : κ) :
    (s.expire key f).flights key' = s.flights key' ∨
      (key' = key ∧ s.flights key' = some f ∧ (s.expire key f).flights key' = none) := by
  dsimp only [expire]
  split_ifs with hown
  case pos =>
    rcases eq_or_ne key' key with rfl | hne
    · exact .inr ⟨rfl, hown, Function.update_self _ _ _⟩
    · exact .inl (Function.update_of_ne hne _ _)
  case neg => exact .inl rfl

lemma Sound.expire [DecidableEq κ] (h : s.Sound) (hf : (key, f) ∈ s.timers) : (s.expire key f).Sound := by
  have hback : ∀ key' g, (s.expire key f).flights key' = some g → s.flights key' = some g := by
    intro key' g hg
    obtain hsame | ⟨-, -, hnone⟩ := s.flights_expire key f key'
    · exact hsame.symm.trans hg
    · exact nomatch hnone.symm.trans hg
  refine { h with bound := ?_, registered := ?_, cached := ?_, leading := ?_, timers := ?_ }
  · exact fun key' g hg => h.bound key' g (hback key' g hg)
  · exact fun key' g hg => h.registered key' g (hback key' g hg)
  · exact fun key' g o hg => h.cached key' g o (hback key' g hg)
  · intro y key' g hy
    obtain ⟨hg, hnone⟩ := h.leading y key' g hy
    refine ⟨?_, hnone⟩
    obtain hsame | ⟨rfl, hown, -⟩ := s.flights_expire key f key'
    · exact hsame.trans hg
    · -- the timer's own flight has been published, and this one has not
      obtain ⟨o, ho, -⟩ := h.timers key' f hf
      obtain rfl := Option.some.inj (hown.symm.trans hg)
      exact nomatch hnone.symm.trans ho
  · exact fun key' g hg => h.timers key' g (List.mem_of_mem_erase hg)

end MetricsShare

lemma ShareStep.sound {κ τ ρ : Type*} [DecidableEq κ] [DecidableEq τ] {s t : MetricsShare κ τ ρ}
    {e : ShareEvent κ τ ρ} (hstep : ShareStep s e t) (h : s.Sound) : t.Sound := by
  cases hstep with
  | arrive key hx => exact h.arrive hx key
  | @get x key hx =>
    cases hkey : s.flights key with
    | some f =>
      rw [MetricsShare.get_of_some hkey]
      exact h.join hx hkey
    | none =>
      rw [MetricsShare.get_of_none hkey]
      exact h.create hx hkey
  | publish o hx => exact h.publish hx o
  | wake hx ho => exact h.wake hx ho
  | giveUp hx hended => exact h.goto (fun _ _ => hx ▸ nofun) nofun nofun nofun nofun
  | cancel x => exact { h with }
  | expire hf => exact h.expire hf

/-! ## Waiters -/

def GetStage.settled {κ ρ : Type*} : GetStage κ ρ → Bool
  | .leading _ _ | .answered _ _ | .gone => true
  | _ => false

def GetStage.Pending {κ ρ : Type*} (key : κ) (stage : GetStage κ ρ) : Prop :=
  stage = .entering key ∨ ∃ f, stage = .waiting key f

section

variable {κ τ ρ : Type*} [DecidableEq κ] [DecidableEq τ] {s t : MetricsShare κ τ ρ} {i : ShareEvent κ τ ρ} {x : τ}

/-- How a call that stands at a stage leaves it. -/
inductive Moves (s : MetricsShare κ τ ρ) (x : τ) : GetStage κ ρ → MetricsShare κ τ ρ → Prop
  | arrive (t : MetricsShare κ τ ρ) : Moves s x .idle t
  | get (key) : Moves s x (.entering key) (s.get x key)
  | publish (key f o) : Moves s x (.leading key f) (s.publish x key f o)
  | wake {key f o} (ho : s.outcome f = some o) : Moves s x (.waiting key f) (s.wake x key f o)
  | giveUp (key f) : Moves s x (.waiting key f) (s.goto x .gone)

lemma ShareStep.moves (hstep : ShareStep s i t) (hne : t.call x ≠ s.call x) : Moves s x (s.call x) t := by
  have hother : ∀ y stage, (s.goto y stage).call x ≠ s.call x → x = y := fun y stage hne => by
    by_contra hxy
    exact hne (MetricsShare.call_goto_of_ne hxy stage)
  cases hstep with
  | arrive key h =>
    obtain rfl := hother _ _ hne
    exact h ▸ .arrive _
  | @get y key h =>
    have hxy : x = y := by
      rw [MetricsShare.get] at hne
      split at hne <;> exact hother _ _ hne
    subst hxy
    exact h ▸ .get key
  | publish o h =>
    obtain rfl := hother _ _ hne
    exact h ▸ .publish _ _ o
  | wake h ho =>
    obtain rfl := hother _ _ hne
    exact h ▸ .wake ho
  | giveUp h hended =>
    obtain rfl := hother _ _ hne
    exact h ▸ .giveUp _ _
  | cancel | expire => exact absurd rfl hne

lemma ShareStep.outcome (hstep : ShareStep s i t) (h : s.Sound) {f : ℕ} {o : MetricsOutcome ρ}
    (ho : s.outcome f = some o) : t.outcome f = some o := by
  cases hstep with
  | @publish y key g o' hy =>
    refine (Function.update_of_ne ?_ _ _).trans ho
    rintro rfl
    exact nomatch (h.leading y key f hy).2.symm.trans ho
  | get h =>
    rw [MetricsShare.get]
    split <;> exact ho
  | arrive | wake | giveUp | cancel | expire => exact ho

/-- Every call at the head of its loop moves on, every computation ends, and a waiter whose flight has been
published leaves it. -/
structure SharePrompt (e : Execution (@ShareStep κ τ ρ _ _)) : Prop where
  get : ∀ n x key, (e.state n).call x = .entering key → ∃ m, n ≤ m ∧ (e.state m).call x ≠ .entering key
  publish : ∀ n x key f, (e.state n).call x = .leading key f → ∃ m, n ≤ m ∧ (e.state m).call x ≠ .leading key f
  wake : ∀ n x key f o, (e.state n).call x = .waiting key f → (e.state n).outcome f = some o →
    ∃ m, n ≤ m ∧ (e.state m).call x ≠ .waiting key f

def Uncanceled (e : Execution (@ShareStep κ τ ρ _ _)) (key : κ) (n : ℕ) : Prop :=
  ∀ m, n ≤ m → ∀ x f, (e.state m).call x = .leading key f → (e.state (m + 1)).call x ≠ .answered f .canceled

variable {e : Execution (@ShareStep κ τ ρ _ _)} {key : κ} {n f : ℕ}

lemma call_leaves {stage : GetStage κ ρ} (hx : (e.state n).call x = stage)
    (hmoved : ∃ m, n ≤ m ∧ (e.state m).call x ≠ stage) :
    ∃ m, n ≤ m ∧ (∀ k, n ≤ k → k ≤ m → (e.state k).call x = stage) ∧
      Moves (e.state m) x stage (e.state (m + 1)) := by
  obtain ⟨m, i, hm, hstays, hstep, hleft⟩ :=
    Execution.leaves (P := fun s : MetricsShare κ τ ρ => s.call x = stage) hx hmoved
  have hxm := hstays m hm le_rfl
  exact ⟨m, hm, hstays, hxm ▸ hstep.moves fun heq => hleft (heq.trans hxm)⟩

lemma outcome_stays (hsound : ∀ m, (e.state m).Sound) {o : MetricsOutcome ρ} (ho : (e.state n).outcome f = some o)
    (m : ℕ) (hm : n ≤ m) : (e.state m).outcome f = some o := by
  refine Execution.stays (P := fun m => (e.state m).outcome f = some o) (fun k _ hk => ?_) ho m hm
  rcases e.step k with hsame | ⟨i, hi⟩
  · rw [hsame]
    exact hk
  · exact hi.outcome (hsound k) hk

lemma SharePrompt.woken (hprompt : SharePrompt e) (hsound : ∀ m, (e.state m).Sound) {o : MetricsOutcome ρ}
    (hx : (e.state n).call x = .waiting key f) (ho : (e.state n).outcome f = some o) :
    ∃ m, n ≤ m ∧ (((e.state m).call x).settled = true ∨ o = .canceled ∧ (e.state m).call x = .entering key) := by
  obtain ⟨m, hm, -, hmoves⟩ := call_leaves hx (hprompt.wake n x key f o hx ho)
  refine ⟨m + 1, Nat.le_succ_of_le hm, ?_⟩
  generalize e.state (m + 1) = t at hmoves ⊢
  cases hmoves with
  | @wake _ _ o' ho' =>
    obtain rfl := Option.some.inj (ho'.symm.trans (outcome_stays hsound ho m hm))
    rw [MetricsShare.wake, MetricsShare.call_goto_self]
    split_ifs with hretry
    case pos =>
      refine .inr ⟨?_, rfl⟩
      cases o' with
      | canceled => rfl
      | result | failed | aborted => cases hretry
    case neg => exact .inl rfl
  | giveUp =>
    rw [MetricsShare.call_goto_self]
    exact .inl rfl

lemma SharePrompt.published (hprompt : SharePrompt e) (hsound : ∀ m, (e.state m).Sound)
    (hx : (e.state n).call x = .waiting key f) (hf : (e.state n).outcome f = none) :
    ∃ m, n ≤ m ∧ (((e.state m).call x).settled = true ∨
      ∃ y o, (e.state m).call y = .leading key f ∧ (e.state (m + 1)).call y = .answered f o ∧
        (e.state (m + 1)).call x = .waiting key f ∧ (e.state (m + 1)).outcome f = some o) := by
  obtain ⟨y, hy⟩ := (hsound n).led x key f hx hf
  obtain ⟨m, hm, hleads, hmoves⟩ := call_leaves hy (hprompt.publish n y key f hy)
  by_cases hxm : (e.state (m + 1)).call x = .waiting key f
  · refine ⟨m, hm, .inr ?_⟩
    generalize e.state (m + 1) = t at hmoves hxm ⊢
    cases hmoves with
    | publish _ _ o =>
      exact ⟨y, o, hleads m hm le_rfl, MetricsShare.call_goto_self _ _ _, hxm, Function.update_self _ _ _⟩
  · -- the waiter has left before the outcome was published, so it has given up
    obtain ⟨j, hj, hstays, hmoves⟩ := call_leaves hx ⟨m + 1, Nat.le_succ_of_le hm, hxm⟩
    have hjm : j ≤ m := by
      by_contra hlt
      exact hxm (hstays (m + 1) (Nat.le_succ_of_le hm) (not_le.mp hlt))
    have hnone := ((hsound j).leading y key f (hleads j hj hjm)).2
    refine ⟨j + 1, Nat.le_succ_of_le hj, .inl ?_⟩
    generalize e.state (j + 1) = t at hmoves ⊢
    cases hmoves with
    | wake ho => exact nomatch hnone.symm.trans ho
    | giveUp =>
      rw [MetricsShare.call_goto_self]
      rfl

lemma SharePrompt.answers_waiting (hprompt : SharePrompt e) (hsound : ∀ m, (e.state m).Sound)
    (hquiet : Uncanceled e key n) (hx : (e.state n).call x = .waiting key f)
    (hf : ∀ o, (e.state n).outcome f = some o → o.ok = true) :
    ∃ m, n ≤ m ∧ ((e.state m).call x).settled = true := by
  cases hout : (e.state n).outcome f with
  | some o =>
    obtain ⟨m, hm, hsettled | ⟨rfl, -⟩⟩ := hprompt.woken hsound hx hout
    · exact ⟨m, hm, hsettled⟩
    · cases hf _ hout
  | none =>
    obtain ⟨m, hm, hsettled | ⟨y, o, hy, hy', hx', ho⟩⟩ := hprompt.published hsound hx hout
    · exact ⟨m, hm, hsettled⟩
    · obtain ⟨k, hk, hsettled | ⟨rfl, -⟩⟩ := hprompt.woken hsound hx' ho
      · exact ⟨k, by omega, hsettled⟩
      · exact absurd hy' (hquiet m hm y f hy)

lemma SharePrompt.answers_entering (hprompt : SharePrompt e) (hsound : ∀ m, (e.state m).Sound)
    (hquiet : Uncanceled e key n) (hx : (e.state n).call x = .entering key) :
    ∃ m, n ≤ m ∧ ((e.state m).call x).settled = true := by
  obtain ⟨m, hm, -, hmoves⟩ := call_leaves hx (hprompt.get n x key hx)
  obtain ⟨t, ht⟩ : ∃ t, t = e.state (m + 1) := ⟨_, rfl⟩
  rw [← ht] at hmoves
  cases hmoves with
  | get =>
    cases hkey : (e.state m).flights key with
    | none =>
      refine ⟨m + 1, Nat.le_succ_of_le hm, ?_⟩
      rw [← ht, MetricsShare.get_of_none hkey]
      exact congrArg GetStage.settled (MetricsShare.call_goto_self _ _ _)
    | some f =>
      rw [MetricsShare.get_of_some hkey] at ht
      have hwaits : (e.state (m + 1)).call x = .waiting key f := by
        rw [← ht]
        exact MetricsShare.call_goto_self _ _ _
      have hcached : ∀ o, (e.state (m + 1)).outcome f = some o → o.ok = true := by
        rw [← ht]
        exact fun o => (hsound m).cached key f o hkey
      obtain ⟨k, hk, hsettled⟩ :=
        hprompt.answers_waiting hsound (fun j hj => hquiet j (by omega)) hwaits hcached
      exact ⟨k, by omega, hsettled⟩

lemma pending_until (hx : ((e.state n).call x).Pending key) (m : ℕ) (hm : n ≤ m) :
    ((e.state m).call x).Pending key ∨ ∃ k, n ≤ k ∧ ((e.state k).call x).settled = true := by
  refine Execution.stays (P := fun m => ((e.state m).call x).Pending key ∨ ∃ k, n ≤ k ∧
    ((e.state k).call x).settled = true)
    (fun k hk ih => ?_) (.inl hx) m hm
  refine ih.elim (fun hpending => ?_) .inr
  by_cases hne : (e.state (k + 1)).call x = (e.state k).call x
  · exact .inl (hne ▸ hpending)
  obtain hsame | ⟨i, hstep⟩ := e.step k
  · exact absurd (by rw [hsame]) hne
  suffices h : ((e.state (k + 1)).call x).Pending key ∨ ((e.state (k + 1)).call x).settled = true from
    h.imp_right fun hsettled => ⟨k + 1, Nat.le_succ_of_le hk, hsettled⟩
  have hmoves := hstep.moves hne
  generalize e.state (k + 1) = t at hmoves ⊢
  generalize (e.state k).call x = stage at hmoves hpending
  obtain rfl | ⟨f, rfl⟩ := hpending
  · cases hmoves with
    | get =>
      rw [MetricsShare.get]
      split
      case h_1 f hf => exact .inl (.inr ⟨f, MetricsShare.call_goto_self _ _ _⟩)
      case h_2 => exact .inr (congrArg GetStage.settled (MetricsShare.call_goto_self _ _ _))
  · cases hmoves with
    | wake =>
      rw [MetricsShare.wake, MetricsShare.call_goto_self]
      split_ifs
      case pos => exact .inl (.inl rfl)
      case neg => exact .inr rfl
    | giveUp =>
      rw [MetricsShare.call_goto_self]
      exact .inr rfl

lemma SharePrompt.settles (hprompt : SharePrompt e) (hsound : ∀ m, (e.state m).Sound) {quiet : ℕ}
    (hquiet : Uncanceled e key quiet) (hx : ((e.state n).call x).Pending key) :
    ∃ m, n ≤ m ∧ ((e.state m).call x).settled = true := by
  have hlater : ∀ m, quiet ≤ m → Uncanceled e key m := fun m hm k hk => hquiet k (hm.trans hk)
  obtain hpending | hsettled := pending_until hx (max n quiet) (le_max_left _ _)
  · have hentering : ∀ m, max n quiet ≤ m → (e.state m).call x = .entering key →
        ∃ k, n ≤ k ∧ ((e.state k).call x).settled = true := by
      intro m hm hxm
      obtain ⟨k, hk, hsettled⟩ := hprompt.answers_entering hsound (hlater m ((le_max_right _ _).trans hm)) hxm
      exact ⟨k, (le_max_left n quiet).trans (hm.trans hk), hsettled⟩
    obtain hxm | ⟨f, hxm⟩ := hpending
    · exact hentering _ le_rfl hxm
    · cases hout : (e.state (max n quiet)).outcome f with
      | some o =>
        obtain ⟨k, hk, hsettled | ⟨-, hretry⟩⟩ := hprompt.woken hsound hxm hout
        · exact ⟨k, (le_max_left n quiet).trans hk, hsettled⟩
        · exact hentering k hk hretry
      | none =>
        obtain ⟨k, hk, hsettled⟩ := hprompt.answers_waiting hsound (hlater _ (le_max_right n quiet)) hxm
          fun o ho => nomatch hout.symm.trans ho
        exact ⟨k, (le_max_left n quiet).trans hk, hsettled⟩
  · exact hsettled

end

lemma MetricsShare.sound_start {κ τ ρ : Type*} : ({} : MetricsShare κ τ ρ).Sound := by
  constructor <;> simp

/-- At most one computation for each key is in flight, every waiter waits for one that is in flight or
published, no request gets a failure that was published before it arrived, and a timer removes only its own
finished flight. If the leaders of a key are not canceled again and again, everyone who waits for it is
answered, leads or gives up. -/
theorem metrics_computation_shared {κ τ ρ : Type*} [DecidableEq κ] [DecidableEq τ] :
    (∀ is s, Run (@ShareStep κ τ ρ _ _) {} is s →
      (∀ x y key f g, s.call x = .leading key f → s.call y = .leading key g → x = y) ∧
      (∀ x key f, s.call x = .waiting key f → s.outcome f = none → ∃ y, s.call y = .leading key f) ∧
      (∀ x f o, s.call x = .answered f o → o.ok = false → s.late x f = false) ∧
      ∀ key f t, ShareStep s (.expire key f) t → ∀ key' g, s.flights key' = some g →
        t.flights key' = some g ∨ (g = f ∧ ∃ r, s.outcome f = some (.result r))) ∧
    ∀ e : Execution (@ShareStep κ τ ρ _ _), e.state 0 = {} → SharePrompt e →
      ∀ key quiet, Uncanceled e key quiet → ∀ n x, ((e.state n).call x).Pending key →
        ∃ m, n ≤ m ∧ ((e.state m).call x).settled = true := by
  constructor
  · intro is s hrun
    have h : s.Sound := hrun.invariant (fun _ _ _ hstep => hstep.sound) MetricsShare.sound_start
    refine ⟨fun x y key f g hx hy => ?_, h.led, h.answered, ?_⟩
    · obtain rfl := Option.some.inj ((h.leading x key f hx).1.symm.trans (h.leading y key g hy).1)
      exact h.one x y key key f hx hy
    · intro key f t hstep key' g hg
      cases hstep with
      | expire hf =>
        obtain hsame | ⟨-, hown, -⟩ := s.flights_expire key f key'
        · exact .inl (hsame.trans hg)
        · obtain ⟨o, ho, hok⟩ := h.timers key f hf
          refine .inr ⟨Option.some.inj (hg.symm.trans hown), ?_⟩
          cases o with
          | result r => exact ⟨r, ho⟩
          | canceled | failed | aborted => cases hok
  · intro e hinit hprompt key quiet hquiet n x hx
    exact hprompt.settles (Execution.invariant (fun _ _ _ hstep => hstep.sound) (hinit ▸ MetricsShare.sound_start))
      hquiet hx

theorem metrics_computation_shared_retry :
    ∃ (e : Execution (@ShareStep Unit ℕ Unit _ _)) (n : ℕ), e.state 0 = {} ∧ SharePrompt e ∧
      (e.state n).call 1 = .waiting () 0 ∧ ∃ m, n ≤ m ∧ ((e.state m).call 1).settled = true := by
  obtain ⟨s, u, hwaits, hidle, is, js, hs, hu⟩ : ∃ s u : MetricsShare Unit ℕ Unit,
      s.call 1 = .waiting () 0 ∧ (∀ x, u.call x = .idle ∨ ∃ f o, u.call x = .answered f o) ∧
      ∃ is js, Run ShareStep {} is s ∧ Run ShareStep s js u := by
    refine (fun hs => ⟨_, _, rfl, ?_, _, _, hs,
      .cons (@ShareStep.publish _ _ _ _ _ _ 0 () 0 .canceled rfl)
      (.cons (@ShareStep.wake _ _ _ _ _ _ 1 () 0 .canceled rfl rfl)
      (.cons (@ShareStep.get _ _ _ _ _ _ 1 () rfl)
      (.cons (@ShareStep.publish _ _ _ _ _ _ 1 () 1 (.result ()) rfl) (.nil _))))⟩)
      (.cons (@ShareStep.arrive _ _ _ _ _ _ 0 () rfl) (.cons (@ShareStep.get _ _ _ _ _ _ 0 () rfl)
      (.cons (@ShareStep.arrive _ _ _ _ _ _ 1 () rfl) (.cons (@ShareStep.get _ _ _ _ _ _ 1 () rfl) (.nil _)))))
    intro x
    match x with
    | 0 => exact .inr ⟨_, _, rfl⟩
    | 1 => exact .inr ⟨_, _, rfl⟩
    | x + 2 => exact .inl rfl
  obtain ⟨e₁, k, hzero, hlast⟩ := Execution.prepend hu (.constant _ u) rfl
  obtain ⟨e, n, he, hn⟩ := Execution.prepend hs e₁ hzero
  have hfinal : ∀ m, n + k ≤ m → e.state m = u := by
    intro m hm
    obtain ⟨j, rfl⟩ := Nat.exists_eq_add_of_le hm
    rw [Nat.add_assoc, hn, hlast]
    rfl
  have hrest : ∀ m x stage, stage.settled = false ∨ (∃ key f, stage = .leading key f) → stage ≠ .idle →
      ∃ m', m ≤ m' ∧ (e.state m').call x ≠ stage := by
    intro m x stage hstage hne
    refine ⟨max m (n + k), le_max_left _ _, fun hx => ?_⟩
    rw [hfinal _ (le_max_right _ _)] at hx
    obtain hx' | ⟨f, o, hx'⟩ := hidle x
    · exact hne (hx.symm.trans hx')
    · obtain rfl := hx.symm.trans hx'
      obtain h | ⟨_, _, h⟩ := hstage <;> cases h
  have hprompt : SharePrompt e :=
    ⟨fun m x key _ => hrest m x _ (.inl rfl) nofun, fun m x key f _ => hrest m x _ (.inr ⟨key, f, rfl⟩) nofun,
      fun m x key f o _ _ => hrest m x _ (.inl rfl) nofun⟩
  have hquiet : Uncanceled e () (n + k) := by
    intro m hm x f hx
    rw [hfinal m hm] at hx
    obtain hx' | ⟨f, o, hx'⟩ := hidle x <;> exact nomatch hx.symm.trans hx'
  have hstate : e.state n = s := (hn 0).trans hzero
  have hx : (e.state n).call 1 = .waiting () 0 := by
    rw [hstate]
    exact hwaits
  exact ⟨e, n, he, hprompt, hx,
    (metrics_computation_shared.2 e he hprompt () (n + k) hquiet n 1 (.inr ⟨0, hx⟩))⟩

/-! ## A waiter that is overtaken again and again -/

namespace Overtaken

/-- In round `k` request `k + 2` arrives, the leader `k + 1` is canceled, the new request takes the lead, and
request 0 waits again. -/
def act (k : ℕ) (s : MetricsShare Unit ℕ Unit) : ℕ → MetricsShare Unit ℕ Unit
  | 0 => s.arrive (k + 2) ()
  | 1 => s.publish (k + 1) () k .canceled
  | 2 => s.get (k + 2) ()
  | 3 => s.wake 0 () k .canceled
  | _ => s.get 0 ()

def state : ℕ → MetricsShare Unit ℕ Unit
  | 0 => (((({} : MetricsShare Unit ℕ Unit).arrive 1 ()).get 1 ()).arrive 0 ()).get 0 ()
  | n + 1 => act (n / 5) (state n) (n % 5)

structure Begins (k : ℕ) (s : MetricsShare Unit ℕ Unit) : Prop where
  created : s.created = k + 1
  ended : s.ended 0 = false
  victim : s.call 0 = .waiting () k
  leader : s.call (k + 1) = .leading () k
  later : ∀ i, k + 1 < i → s.call i = .idle
  earlier : ∀ i, 0 < i → i ≤ k → ∃ f o, s.call i = .answered f o

structure Within (k : ℕ) (s : MetricsShare Unit ℕ Unit) : Prop where
  victim : (s.call 0).Pending ()
  later : ∀ i, k + 2 < i → s.call i = .idle

variable {k : ℕ} {s : MetricsShare Unit ℕ Unit}

lemma flights_publish (s : MetricsShare Unit ℕ Unit) (x f : ℕ) :
    (s.publish x () f .canceled).flights () = none := by
  simp [MetricsShare.publish, MetricsOutcome.ok]

lemma act_two (hflights : s.flights () = none) (hcreated : s.created = k + 1) :
    act k s 2 = { s.goto (k + 2) (.leading () (k + 1)) with
      flights := Function.update s.flights () (some (k + 1)), created := k + 2 } := by
  refine (MetricsShare.get_of_none hflights).trans ?_
  rw [hcreated]

lemma act_three (h : s.ended 0 = false) : act k s 3 = s.goto 0 (.entering ()) := by
  change s.goto 0 _ = _
  rw [h]
  rfl

lemma act_four (h : s.flights () = some (k + 1)) : act k s 4 = s.goto 0 (.waiting () (k + 1)) :=
  MetricsShare.get_of_some h

lemma call_of_ne {x i : ℕ} (hne : i ≠ x) (stage : GetStage Unit Unit) : (s.goto x stage).call i = s.call i :=
  MetricsShare.call_goto_of_ne hne stage

structure Round (k : ℕ) (s s₁ s₂ s₃ s₄ s₅ : MetricsShare Unit ℕ Unit) : Prop where
  begins : Begins k s
  one : s₁ = act k s 0
  two : s₂ = act k s₁ 1
  three : s₃ = act k s₂ 2
  four : s₄ = act k s₃ 3
  five : s₅ = act k s₄ 4

section

variable {s₁ s₂ s₃ s₄ s₅ : MetricsShare Unit ℕ Unit} (h : Round k s s₁ s₂ s₃ s₄ s₅) {i : ℕ}

include h

lemma Round.lead : s₃ = { s₂.goto (k + 2) (.leading () (k + 1)) with
    flights := Function.update s₂.flights () (some (k + 1)), created := k + 2 } :=
  h.three.trans (act_two (h.two ▸ flights_publish _ _ _) (h.two ▸ h.one ▸ h.begins.created))

lemma Round.retry : s₄ = s₃.goto 0 (.entering ()) :=
  h.four.trans (act_three (h.lead ▸ h.two ▸ h.one ▸ h.begins.ended))

lemma Round.rejoin : s₅ = s₄.goto 0 (.waiting () (k + 1)) := by
  refine h.five.trans (act_four ?_)
  rw [h.retry, h.lead]
  change Function.update s₂.flights () (some (k + 1)) () = _
  rw [Function.update_self]

lemma Round.call_one (hi : i ≠ k + 2) : s₁.call i = s.call i := h.one ▸ call_of_ne hi _

lemma Round.call_two (hi : i ≠ k + 2) (hi' : i ≠ k + 1) : s₂.call i = s.call i :=
  (h.two ▸ call_of_ne hi' _ : s₂.call i = s₁.call i).trans (h.call_one hi)

lemma Round.call_three (hi : i ≠ k + 2) : s₃.call i = s₂.call i := h.lead ▸ call_of_ne hi _

lemma Round.call_four (hi : i ≠ 0) : s₄.call i = s₃.call i := h.retry ▸ call_of_ne hi _

lemma Round.call_five (hi : i ≠ 0) : s₅.call i = s₃.call i :=
  (h.rejoin ▸ call_of_ne hi _ : s₅.call i = s₄.call i).trans (h.call_four hi)

lemma Round.within : Within k s ∧ Within k s₁ ∧ Within k s₂ ∧ Within k s₃ ∧ Within k s₄ := by
  have hvictim := h.begins.victim
  have hlater : ∀ i, k + 2 < i → s.call i = .idle := fun i hi => h.begins.later i (by omega)
  refine ⟨⟨.inr ⟨k, hvictim⟩, hlater⟩, ⟨.inr ⟨k, ?_⟩, fun i hi => ?_⟩, ⟨.inr ⟨k, ?_⟩, fun i hi => ?_⟩,
    ⟨.inr ⟨k, ?_⟩, fun i hi => ?_⟩, ⟨.inl ?_, fun i hi => ?_⟩⟩
  · rw [h.call_one (by omega), hvictim]
  · rw [h.call_one (by omega), hlater i hi]
  · rw [h.call_two (by omega) (by omega), hvictim]
  · rw [h.call_two (by omega) (by omega), hlater i hi]
  · rw [h.call_three (by omega), h.call_two (by omega) (by omega), hvictim]
  · rw [h.call_three (by omega), h.call_two (by omega) (by omega), hlater i hi]
  · rw [h.retry, MetricsShare.call_goto_self]
  · rw [h.call_four (by omega), h.call_three (by omega), h.call_two (by omega) (by omega), hlater i hi]

lemma Round.next : Begins (k + 1) s₅ := by
  have hended : s₅.ended 0 = false := by
    rw [h.rejoin, h.retry, h.lead, h.two, h.one]
    exact h.begins.ended
  refine ⟨?_, hended, ?_, ?_, fun i hi => ?_, fun i hpos hi => ?_⟩
  · rw [h.rejoin, h.retry, h.lead]
    rfl
  · rw [h.rejoin, MetricsShare.call_goto_self]
  · rw [h.call_five (by omega), h.lead]
    exact MetricsShare.call_goto_self _ _ _
  · rw [h.call_five (by omega), h.call_three (by omega), h.call_two (by omega) (by omega),
      h.begins.later i (by omega)]
  · rw [h.call_five (by omega), h.call_three (by omega)]
    rcases eq_or_ne i (k + 1) with rfl | hne
    · refine ⟨k, .canceled, ?_⟩
      rw [h.two]
      exact MetricsShare.call_goto_self _ _ _
    · rw [h.call_two (by omega) hne]
      exact h.begins.earlier i hpos (by omega)

lemma Round.steps : (∃ i, ShareStep s i s₁) ∧ (∃ i, ShareStep s₁ i s₂) ∧ (∃ i, ShareStep s₂ i s₃) ∧
    (∃ i, ShareStep s₃ i s₄) ∧ ∃ i, ShareStep s₄ i s₅ := by
  refine ⟨⟨.arrive (k + 2) (), ?_⟩, ⟨.publish (k + 1) .canceled, ?_⟩, ⟨.get (k + 2), ?_⟩, ⟨.wake 0, ?_⟩,
    ⟨.get 0, ?_⟩⟩
  · rw [h.one]
    exact .arrive () (h.begins.later (k + 2) (by omega))
  · rw [h.two]
    exact .publish .canceled ((h.call_one (by omega)).trans h.begins.leader)
  · rw [h.three]
    refine .get ?_
    rw [h.two]
    refine (call_of_ne (by omega) _).trans ?_
    rw [h.one]
    exact MetricsShare.call_goto_self _ _ _
  · rw [h.four]
    refine .wake ?_ ?_
    · rw [h.call_three (by omega), h.call_two (by omega) (by omega), h.begins.victim]
    · rw [h.lead, h.two]
      exact Function.update_self _ _ _
  · rw [h.five]
    refine .get ?_
    rw [h.retry, MetricsShare.call_goto_self]

end

lemma begins_zero : Begins 0 (state 0) where
  created := rfl
  ended := rfl
  victim := rfl
  leader := rfl
  later i hi := by
    obtain ⟨j, rfl⟩ := Nat.exists_eq_add_of_le' hi
    rfl
  earlier i hpos hi := absurd hi (by omega)

lemma state_succ (k j : ℕ) (hj : j < 5) : state (5 * k + j + 1) = act k (state (5 * k + j)) j := by
  have hdiv : (5 * k + j) / 5 = k := by omega
  have hmod : (5 * k + j) % 5 = j := by omega
  rw [state, hdiv, hmod]

lemma round (k : ℕ) : Round k (state (5 * k)) (state (5 * k + 1)) (state (5 * k + 2)) (state (5 * k + 3))
    (state (5 * k + 4)) (state (5 * k + 5)) := by
  have hround : ∀ k, Begins k (state (5 * k)) → Round k (state (5 * k)) (state (5 * k + 1)) (state (5 * k + 2))
      (state (5 * k + 3)) (state (5 * k + 4)) (state (5 * k + 5)) := fun k hk =>
    ⟨hk, state_succ k 0 (by omega), state_succ k 1 (by omega), state_succ k 2 (by omega),
      state_succ k 3 (by omega), state_succ k 4 (by omega)⟩
  induction k with
  | zero => exact hround 0 begins_zero
  | succ k ih => exact hround (k + 1) ih.next

lemma of_rounds {P : ℕ → Prop}
    (h : ∀ k, P (5 * k) ∧ P (5 * k + 1) ∧ P (5 * k + 2) ∧ P (5 * k + 3) ∧ P (5 * k + 4)) (n : ℕ) : P n := by
  obtain ⟨h₀, h₁, h₂, h₃, h₄⟩ := h (n / 5)
  have hn : n = 5 * (n / 5) ∨ n = 5 * (n / 5) + 1 ∨ n = 5 * (n / 5) + 2 ∨ n = 5 * (n / 5) + 3 ∨
      n = 5 * (n / 5) + 4 := by
    omega
  generalize n / 5 = k at hn h₀ h₁ h₂ h₃ h₄
  obtain rfl | rfl | rfl | rfl | rfl := hn <;> assumption

lemma within (n : ℕ) : ∃ k, Within k (state n) :=
  of_rounds (P := fun n => ∃ k, Within k (state n)) (fun k => by
    obtain ⟨h₀, h₁, h₂, h₃, h₄⟩ := (round k).within
    exact ⟨⟨k, h₀⟩, ⟨k, h₁⟩, ⟨k, h₂⟩, ⟨k, h₃⟩, k, h₄⟩) n

def execution : Execution (@ShareStep Unit ℕ Unit _ _) where
  state := state
  step n :=
    .inr (of_rounds (P := fun n => ∃ i, ShareStep (state n) i (state (n + 1))) (fun k => (round k).steps) n)

lemma moves_on (n x : ℕ) (hx : (state n).call x ≠ .idle) (hne : x ≠ 0) :
    ∃ m, n ≤ m ∧ ∃ f o, (state m).call x = .answered f o := by
  obtain ⟨k, hk⟩ := within n
  have hle : x ≤ max k n + 2 := by
    by_contra hlt
    exact hx (hk.later x (by omega))
  exact ⟨5 * (max k n + 2), by omega, (round (max k n + 2)).begins.earlier x (by omega) hle⟩

lemma prompt : SharePrompt execution := by
  have hleaves : ∀ n x stage, (state n).call x = stage → stage ≠ .idle → (∀ f o, stage ≠ .answered f o) → x ≠ 0 →
      ∃ m, n ≤ m ∧ (state m).call x ≠ stage := by
    intro n x stage hx hidle hanswered hne
    obtain ⟨m, hm, f, o, hmoved⟩ := moves_on n x (hx ▸ hidle) hne
    exact ⟨m, hm, fun heq => hanswered f o (heq.symm.trans hmoved)⟩
  have hvictim : ∀ n, (state (5 * n)).call 0 = .waiting () n := fun n => (round n).begins.victim
  refine ⟨fun n x key hx => ?_, fun n x key f hx => ?_, fun n x key f o hx _ => ?_⟩
  · rcases eq_or_ne x 0 with rfl | hne
    · exact ⟨5 * n, by omega, hvictim n ▸ nofun⟩
    · exact hleaves n x _ hx nofun nofun hne
  · rcases eq_or_ne x 0 with rfl | hne
    · exact ⟨5 * n, by omega, hvictim n ▸ nofun⟩
    · exact hleaves n x _ hx nofun nofun hne
  · rcases eq_or_ne x 0 with rfl | hne
    · refine ⟨5 * (n + f + 1), by omega, fun heq => ?_⟩
      have hf := (hvictim (n + f + 1)).symm.trans heq
      simp only [GetStage.waiting.injEq, true_and] at hf
      omega
    · exact hleaves n x _ hx nofun nofun hne

end Overtaken

theorem overtaken_waiter_unanswered :
    ∃ e : Execution (@ShareStep Unit ℕ Unit _ _), (∃ is, Run ShareStep {} is (e.state 0)) ∧ SharePrompt e ∧
      (e.state 0).call 0 = .waiting () 0 ∧ ∀ n, ((e.state n).call 0).settled = false := by
  refine ⟨Overtaken.execution, ⟨[.arrive 1 (), .get 1, .arrive 0 (), .get 0], ?_⟩, Overtaken.prompt, rfl,
    fun n => ?_⟩
  · exact .cons (.arrive () rfl) (.cons (.get rfl) (.cons (.arrive () rfl) (.cons (.get rfl) (.nil _))))
  · obtain ⟨k, hk⟩ := Overtaken.within n
    obtain hx | ⟨f, hx⟩ := hk.victim <;> exact congrArg GetStage.settled hx

end Minicrond.Api
