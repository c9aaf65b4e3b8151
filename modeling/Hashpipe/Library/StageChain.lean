import Mathlib.Tactic
import Mathlib.Algebra.BigOperators.Group.Finset.Basic

/-!
# Chains of stages

Stages `0, 1, …` in a row, each fed by the one before it: item `k` of a stage is computed
from the first `need k` items of its input, and stage 0 needs no input.  `stream` is what the
stages put out, whatever the timing.

`exists_ready` and `backlog_le` are the two facts about the channels between the stages: if an
empty channel is never full then some stage finds an item at its input and room at its output,
and what is under way is bounded by the capacities of the channels.
-/

namespace StageChain

variable {α : Type}

/-- How a stage makes item `k` of its output: from the first `need k` items of its input. -/
structure Stage (α : Type) where
  need : ℕ → ℕ
  emit : ℕ → List α → α

/-- What each stage of a chain puts out. -/
def stream (stage : ℕ → Stage α) : ℕ → ℕ → α
  | 0, k => (stage 0).emit k []
  | t + 1, k => (stage (t + 1)).emit k ((List.range ((stage (t + 1)).need k)).map (stream stage t))

theorem take_map_range {n m : ℕ} (f : ℕ → α) (h : m ≤ n) :
    ((List.range n).map f).take m = (List.range m).map f := by
  rw [← List.map_take, List.take_range, min_eq_left h]

/-- **Some stage is ready.**  Channel `t` leads from stage `t` to stage `t + 1`, and the last
stage has no channel behind it. -/
theorem exists_ready {last : ℕ} {empty full : ℕ → Prop} (h : ∀ t < last, empty t → ¬ full t) :
    ∃ t ≤ last, (∀ u, u + 1 = t → ¬ empty u) ∧ (t < last → ¬ full t) := by
  -- with all channels from `n` on empty, stage `n` is ready or an earlier one is
  have hdown : ∀ n ≤ last, (∀ u, n ≤ u → u < last → empty u) →
      ∃ t ≤ last, (∀ u, u + 1 = t → ¬ empty u) ∧ (t < last → ¬ full t) := by
    intro n
    induction n with
    | zero =>
      intro _ hempty
      exact ⟨0, Nat.zero_le _, fun u hu => by omega, fun hlt => h 0 hlt (hempty 0 le_rfl hlt)⟩
    | succ n ih =>
      intro hn hempty
      by_cases hchannel : empty n
      · refine ih (by omega) fun u hu hlt => ?_
        rcases Nat.eq_or_lt_of_le hu with rfl | hlt'
        · exact hchannel
        · exact hempty u hlt' hlt
      · refine ⟨n + 1, hn, fun u hu => ?_, fun hlt => h _ hlt (hempty _ le_rfl hlt)⟩
        obtain rfl : u = n := by omega
        exact hchannel
  exact hdown last le_rfl fun u hu hlt => by omega

/-- **The backlog of a chain.**  `put t` items have gone into channel `t` and `got t` have left
it; a stage that is ahead of its output by at most one item passes the bound on. -/
theorem backlog_le {put got cap : ℕ → ℕ} {m : ℕ} (hcap : ∀ t ≤ m, put t ≤ got t + cap t)
    (hpass : ∀ t < m, got t ≤ put (t + 1) + 1) :
    put 0 ≤ got m + ∑ t ∈ Finset.range (m + 1), cap t + m := by
  induction m with
  | zero => simpa using hcap 0 le_rfl
  | succ m ih =>
    have hbefore := ih (fun t ht => hcap t (by omega)) fun t ht => hpass t (by omega)
    have hlast := hcap (m + 1) le_rfl
    have hstage := hpass m (Nat.lt_succ_self m)
    rw [Finset.sum_range_succ]
    omega

end StageChain
