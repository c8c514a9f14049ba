import Mathlib.Tactic.Common

/-! Transactions on a state: computations that commit a new state with a result, or fail and change nothing. -/

namespace Minicrond.Library

abbrev Transaction (σ ε α : Type) := StateT σ (Except ε) α

namespace Transaction

variable {σ τ ε α β : Type} {f : α → Transaction σ ε β} {x : Transaction σ ε α} {e : ε} {s t : σ} {a : α}

def Commits (x : Transaction σ ε α) (s t : σ) : Prop := ∃ a, x s = .ok (a, t)

def within (part : σ → τ) (put : τ → σ → σ) (x : Transaction τ ε α) : Transaction σ ε α := fun s =>
  match x (part s) with
  | .ok (a, t) => .ok (a, put t s)
  | .error e => .error e

def refuse (c : Bool) (e : ε) : Transaction σ ε Unit := if c then throw e else pure ()

lemma bind_ok {s u : σ} {b : β} :
    (x >>= f) s = .ok (b, u) ↔ ∃ a t, x s = .ok (a, t) ∧ f a t = .ok (b, u) := by
  simp only [bind, StateT.bind, Except.bind]
  cases hx : x s with
  | error e => simp
  | ok p =>
    obtain ⟨a, t⟩ := p
    simp [and_assoc]

lemma bind_of_ok (h : x s = .ok (a, t)) :
    (x >>= f) s = f a t := by
  simp only [bind, StateT.bind, Except.bind, h]

lemma bind_of_error {s : σ} (h : x s = .error e) :
    (x >>= f) s = .error e := by
  simp only [bind, StateT.bind, Except.bind, h]

lemma pure_ok {a b : α} : (pure a : Transaction σ ε α) s = .ok (b, t) ↔ a = b ∧ s = t := by
  change (.ok (a, s) : Except ε (α × σ)) = .ok (b, t) ↔ _
  simp

lemma get_ok {s t u : σ} : (get : Transaction σ ε σ) s = .ok (t, u) ↔ s = t ∧ s = u := by
  simp [get, getThe, MonadStateOf.get, StateT.get, pure, Except.pure]

lemma modify_ok {f : σ → σ} {u : PUnit} : (modify f : Transaction σ ε PUnit) s = .ok (u, t) ↔ f s = t := by
  simp [modify, modifyGet, MonadStateOf.modifyGet, StateT.modifyGet, pure, Except.pure]

lemma set_ok {s t u : σ} {v : PUnit} : (set u : Transaction σ ε PUnit) s = .ok (v, t) ↔ u = t := by
  change (.ok (⟨⟩, u) : Except ε (PUnit × σ)) = .ok (v, t) ↔ _
  simp

lemma throw_ok : (throw e : Transaction σ ε α) s = .ok (a, t) ↔ False := by
  simp [throw, throwThe, MonadExceptOf.throw, StateT.lift, bind, Except.bind]

lemma refuse_ok {c : Bool} {u : Unit} :
    (refuse c e : Transaction σ ε Unit) s = .ok (u, t) ↔ c = false ∧ s = t := by
  cases c with
  | true => simp [refuse, throw_ok]
  | false => simp [refuse, pure_ok]

lemma refuse_true {s : σ} : (refuse true e : Transaction σ ε Unit) s = .error e := by
  simp [refuse, throw, throwThe, MonadExceptOf.throw, StateT.lift, bind, Except.bind]

lemma bind_error {s : σ} :
    (x >>= f) s = .error e ↔ x s = .error e ∨ ∃ a t, x s = .ok (a, t) ∧ f a t = .error e := by
  simp only [bind, StateT.bind, Except.bind]
  cases hx : x s with
  | error e => simp
  | ok p =>
    obtain ⟨a, t⟩ := p
    simp [and_assoc]

lemma get_error {s : σ} : (get : Transaction σ ε σ) s = .error e ↔ False := by
  simp [get, getThe, MonadStateOf.get, StateT.get, pure, Except.pure]

lemma modify_error {f : σ → σ} {s : σ} : (modify f : Transaction σ ε PUnit) s = .error e ↔ False := by
  simp [modify, modifyGet, MonadStateOf.modifyGet, StateT.modifyGet, pure, Except.pure]

lemma set_error {s u : σ} : (set u : Transaction σ ε PUnit) s = .error e ↔ False := by
  change (.ok (⟨⟩, u) : Except ε (PUnit × σ)) = .error e ↔ _
  simp

lemma refuse_error {c : Bool} {e e' : ε} {s : σ} :
    (refuse c e : Transaction σ ε Unit) s = .error e' ↔ c = true ∧ e = e' := by
  cases c with
  | true => simp [refuse_true]
  | false =>
    change (.ok ((), s) : Except ε (Unit × σ)) = .error e' ↔ _
    simp

lemma within_ok {part : σ → τ} {put : τ → σ → σ} {x : Transaction τ ε α} :
    x.within part put s = .ok (a, t) ↔ ∃ u, x (part s) = .ok (a, u) ∧ put u s = t := by
  rw [within]
  cases hx : x (part s) with
  | error e => simp
  | ok p =>
    obtain ⟨b, u⟩ := p
    simp [and_assoc]

/-- From every state with `P` the transaction commits a state with `Q`, or fails with an error that `E` allows. -/
def Triple (P : σ → Prop) (x : Transaction σ ε α) (Q : α → σ → Prop) (E : ε → Prop) : Prop :=
  ∀ s, P s → (∀ a t, x s = .ok (a, t) → Q a t) ∧ ∀ e, x s = .error e → E e

section

variable {P P' : σ → Prop} {Q : α → σ → Prop} {R : β → σ → Prop} {E : ε → Prop} {x : Transaction σ ε α}

lemma Triple.bind {f : α → Transaction σ ε β} (hx : Triple P x Q E) (hf : ∀ a, Triple (Q a) (f a) R E) :
    Triple P (x >>= f) R E := by
  intro s hs
  obtain ⟨hok, herror⟩ := hx s hs
  constructor
  · intro b u h
    obtain ⟨a, t, hxa, hfa⟩ := bind_ok.mp h
    exact (hf a t (hok a t hxa)).1 b u hfa
  · intro e h
    rcases bind_error.mp h with h | ⟨a, t, hxa, hfa⟩
    · exact herror e h
    · exact (hf a t (hok a t hxa)).2 e hfa

lemma Triple.pre (hx : Triple P x Q E) (h : ∀ s, P' s → P s) : Triple P' x Q E := fun s hs => hx s (h s hs)

lemma Triple.post {Q' : α → σ → Prop} (hx : Triple P x Q E) (h : ∀ a t, Q a t → Q' a t) : Triple P x Q' E :=
  fun s hs => ⟨fun a t hok => h a t ((hx s hs).1 a t hok), (hx s hs).2⟩

lemma Triple.and {Q' : α → σ → Prop} {E' : ε → Prop} (hx : Triple P x Q E) (hx' : Triple P x Q' E') :
    Triple P x (fun a t => Q a t ∧ Q' a t) E' :=
  fun s hs => ⟨fun a t hok => ⟨(hx s hs).1 a t hok, (hx' s hs).1 a t hok⟩, (hx' s hs).2⟩

lemma Triple.assume {p : Prop} (h : p → Triple P x Q E) : Triple (fun s => p ∧ P s) x Q E :=
  fun s hs => h hs.1 s hs.2

lemma Triple.of_eq {f : σ → σ} {g : σ → α} (hx : ∀ s, P s → x s = .ok (g s, f s)) (h : ∀ s, P s → Q (g s) (f s)) :
    Triple P x Q E := by
  intro s hs
  rw [hx s hs]
  constructor
  · rintro _ _ ⟨⟩
    exact h s hs
  · rintro _ ⟨⟩

lemma Triple.pure {a : α} (h : ∀ s, P s → Q a s) : Triple P (pure a) Q E := .of_eq (fun _ _ => rfl) h

lemma Triple.discard {R : σ → Prop} (hx : Triple P x (fun _ => R) E) : Triple P (discard x) (fun _ => R) E :=
  Triple.bind (f := fun _ => Pure.pure ()) hx fun _ => .pure fun _ h => h

lemma Triple.get : Triple P (get : Transaction σ ε σ) (fun r s => r = s ∧ P s) E :=
  .of_eq (fun _ _ => rfl) fun _ h => ⟨rfl, h⟩

lemma Triple.modify {Q : σ → Prop} {f : σ → σ} (h : ∀ s, P s → Q (f s)) :
    Triple P (modify f : Transaction σ ε PUnit) (fun _ => Q) E :=
  .of_eq (fun _ _ => rfl) h

lemma Triple.set {Q : σ → Prop} {t : σ} (h : ∀ s, P s → Q t) :
    Triple P (set t : Transaction σ ε PUnit) (fun _ => Q) E :=
  .of_eq (fun _ _ => rfl) h

lemma Triple.throw {e : ε} (he : E e) : Triple P (throw e : Transaction σ ε α) Q E := by
  intro s _
  refine ⟨fun a t h => (throw_ok.mp h).elim, ?_⟩
  rintro _ ⟨⟩
  exact he

lemma Triple.ite {c : Prop} [Decidable c] {y : Transaction σ ε α} (hx : c → Triple P x Q E)
    (hy : ¬c → Triple P y Q E) :
    Triple P (if c then x else y) Q E := by
  by_cases hc : c
  · rw [if_pos hc]
    exact hx hc
  · rw [if_neg hc]
    exact hy hc

lemma Triple.refuse {c : Bool} {e : ε} (he : E e) :
    Triple P (refuse c e : Transaction σ ε Unit) (fun _ s => c = false ∧ P s) E := by
  intro s hs
  constructor
  · intro _ t h
    obtain ⟨hc, rfl⟩ := refuse_ok.mp h
    exact ⟨hc, hs⟩
  · intro e' h
    obtain ⟨_, rfl⟩ := refuse_error.mp h
    exact he

lemma Triple.forM {I : List β → σ → Prop} {f : β → Transaction σ ε PUnit}
    (hf : ∀ b bs, Triple (I (b :: bs)) (f b) (fun _ => I bs) E) (bs : List β) :
    Triple (I bs) (bs.forM f) (fun _ => I []) E := by
  induction bs with
  | nil => exact .pure fun _ h => h
  | cons b bs ih => exact .bind (hf b bs) fun _ => ih

end

end Transaction

end Minicrond.Library
