import Mathlib.Tactic
import Mathlib.Algebra.BigOperators.Group.Finset.Basic
import Mathlib.Algebra.Order.BigOperators.Group.Finset
import Mathlib.Data.Multiset.UnionInter

/-!
# Families of queues

`n` queues `f 0, …, f (n - 1)`.  `contents n f` is everything that is in one of them,
with multiplicity.  When items only move, conservation is an equation between
multisets, and each step of a proof is an application of `contents_update`.
-/

namespace QueueFamily

variable {α : Type}

/-- All items of the queues `0 … n - 1`. -/
def contents (n : ℕ) (f : ℕ → List α) : Multiset α :=
  ∑ q ∈ Finset.range n, (f q : Multiset α)

theorem mem_contents {n : ℕ} {f : ℕ → List α} {a : α} :
    a ∈ contents n f ↔ ∃ q < n, a ∈ f q := by
  simp [contents, Multiset.mem_sum]

theorem contents_empty (n : ℕ) : contents n (fun _ => ([] : List α)) = 0 := by
  simp [contents]

/-- Replacing the contents of one queue. -/
theorem contents_update {n q : ℕ} (hq : q < n) (f : ℕ → List α) (v : List α) :
    contents n (Function.update f q v) + (f q : Multiset α) = contents n f + (v : Multiset α) := by
  have hmem : q ∈ Finset.range n := Finset.mem_range.mpr hq
  have hrest : ∑ x ∈ (Finset.range n).erase q, (Function.update f q v x : Multiset α) =
      ∑ x ∈ (Finset.range n).erase q, (f x : Multiset α) := by
    apply Finset.sum_congr rfl
    intro x hx
    rw [Function.update_of_ne (Finset.ne_of_mem_erase hx)]
  rw [contents, contents, ← Finset.add_sum_erase _ _ hmem, ← Finset.add_sum_erase _ _ hmem, hrest,
    Function.update_self]
  abel

/-- Taking `ws` off a queue that holds `ws` and `v`. -/
theorem contents_take {n q : ℕ} (hq : q < n) {f : ℕ → List α} {ws v : List α}
    (h : (f q : Multiset α) = ws + v) :
    contents n (Function.update f q v) + (ws : Multiset α) = contents n f := by
  have hupd := contents_update hq f v
  rw [h, ← add_assoc] at hupd
  exact add_right_cancel hupd

/-- Putting `ws` on a queue, at whichever end. -/
theorem contents_put {n q : ℕ} (hq : q < n) {f : ℕ → List α} {ws v : List α}
    (h : (v : Multiset α) = f q + ws) :
    contents n (Function.update f q v) = contents n f + (ws : Multiset α) := by
  have hupd := contents_update hq f v
  rw [h, add_comm ((f q : List α) : Multiset α), ← add_assoc] at hupd
  exact add_right_cancel hupd

/-- Looking at the items of an updated family through `g`. -/
theorem map_update {β : Type} (g : α → β) (f : ℕ → List α) (q : ℕ) (v : List α) :
    (fun x => (Function.update f q v x).map g) =
      Function.update (fun x => (f x).map g) q (v.map g) := by
  funext x
  by_cases hx : x = q
  · subst hx
    simp
  · simp [Function.update_of_ne hx]

end QueueFamily
