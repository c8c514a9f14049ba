import Mathlib.Algebra.BigOperators.Group.List.Basic
import Mathlib.Tactic.Abel
import Minicrond.Library.Machine

/-! Processes that work on one shared state, one step of one process at a time, and the rules that carry what a
single process does over to all of them. -/

namespace Minicrond.Library

structure Config (σ π : Type*) where
  shared : σ
  procs : List π

variable {σ π M : Type*} {L : σ → π → σ → List π → Prop} {c c' : Config σ π}

inductive Interleave (L : σ → π → σ → List π → Prop) : Config σ π → Config σ π → Prop
  | mk {s s' : σ} {p : π} {out : List π} (before after : List π) (h : L s p s' out) :
      Interleave L ⟨s, before ++ p :: after⟩ ⟨s', before ++ (out ++ after)⟩

namespace Config

def spawn (c : Config σ π) (p : π) : Config σ π := ⟨c.shared, c.procs ++ [p]⟩

def total [AddCommMonoid M] (w : π → M) (c : Config σ π) : M := (c.procs.map w).sum

lemma total_spawn [AddCommMonoid M] (w : π → M) (c : Config σ π) (p : π) :
    (c.spawn p).total w = c.total w + w p := by
  simp [total, spawn]

lemma total_replace [AddCommMonoid M] (w : π → M) (s s' : σ) (before after out : List π) (p : π) :
    total w ⟨s', before ++ (out ++ after)⟩ + w p = total w ⟨s, before ++ p :: after⟩ + (out.map w).sum := by
  simp only [total, List.map_append, List.map_cons, List.sum_append, List.sum_cons]
  abel

end Config

namespace Interleave

lemma total [AddCommMonoid M] (w : π → M) (h : Interleave L c c') :
    ∃ p out, p ∈ c.procs ∧ L c.shared p c'.shared out ∧ c'.total w + w p = c.total w + (out.map w).sum := by
  cases h with
  | mk before after h =>
    exact ⟨_, _, List.mem_append_right _ List.mem_cons_self, h, Config.total_replace ..⟩

lemma mem_procs (h : Interleave L c c') :
    ∃ p out, p ∈ c.procs ∧ L c.shared p c'.shared out ∧ ∀ q ∈ c'.procs, q ∈ c.procs ∨ q ∈ out := by
  cases h with
  | mk before after h =>
    refine ⟨_, _, List.mem_append_right _ List.mem_cons_self, h, fun q hq => ?_⟩
    simp only [List.mem_append, List.mem_cons] at hq ⊢
    tauto

lemma forall_procs {P : π → Prop} (h : Interleave L c c') (hL : ∀ s p s' out, L s p s' out → P p → ∀ q ∈ out, P q)
    (hc : ∀ p ∈ c.procs, P p) : ∀ p ∈ c'.procs, P p := by
  obtain ⟨p, out, hp, h, hprocs⟩ := h.mem_procs
  intro q hq
  rcases hprocs q hq with hq | hq
  · exact hc q hq
  · exact hL _ _ _ _ h (hc p hp) q hq

lemma of_mem {s' : σ} {p : π} {out : List π} (hp : p ∈ c.procs) (h : L c.shared p s' out) :
    ∃ c', Interleave L c c' := by
  obtain ⟨s, procs⟩ := c
  obtain ⟨before, after, rfl⟩ := List.append_of_mem hp
  exact ⟨_, .mk before after h⟩

end Interleave

end Minicrond.Library
