import Mathlib.Tactic

/-!
# Search loops with a counter of failures

A `for` loop that is left by `break` as soon as its body has found what it looks for, while a
counter and a log grow.  The only thing the code behind such a loop knows about the search is
where the loop's index has stopped.

`searchLoop_stops` says what that tells: the index is at the first find, or past the end if
there is none; and what has been logged is what the bodies up to there have logged.
-/

namespace SearchLoop

/-- One run of the body. -/
structure Pass (ε : Type) where
  found : Bool
  failures : ℕ
  log : List ε

/-- How the loop ends: where its index stands, and what was added on the way. -/
structure Stop (ε : Type) where
  idx : ℕ
  failures : ℕ
  log : List ε

variable {ε : Type}

/-- The loop from index `i`, with `n` indices to go. -/
def searchLoop (body : ℕ → Pass ε) : ℕ → ℕ → Stop ε
  | 0, i => ⟨i, 0, []⟩
  | n + 1, i =>
    if (body i).found then ⟨i, (body i).failures, (body i).log⟩
    else
      let rest := searchLoop body n (i + 1)
      ⟨rest.idx, (body i).failures + rest.failures, (body i).log ++ rest.log⟩

section Stops

variable {body : ℕ → Pass ε}

theorem searchLoop_here {n i : ℕ} (h : (body i).found = true) :
    searchLoop body (n + 1) i = ⟨i, (body i).failures, (body i).log⟩ := if_pos h

theorem searchLoop_next {n i : ℕ} (h : (body i).found = false) :
    searchLoop body (n + 1) i = ⟨(searchLoop body n (i + 1)).idx,
      (body i).failures + (searchLoop body n (i + 1)).failures,
      (body i).log ++ (searchLoop body n (i + 1)).log⟩ := by
  rw [searchLoop, h]
  rfl

/-- The index stops at the first find, or past the end. -/
theorem searchLoop_stops (n i : ℕ) :
    i ≤ (searchLoop body n i).idx ∧ (searchLoop body n i).idx ≤ i + n ∧
      (∀ j, i ≤ j → j < (searchLoop body n i).idx → (body j).found = false) ∧
        ((searchLoop body n i).idx < i + n →
          (body (searchLoop body n i).idx).found = true) := by
  induction n generalizing i with
  | zero => exact ⟨le_rfl, le_rfl, fun j hj hlt => absurd hlt (not_lt.mpr hj), fun h =>
      absurd h (lt_irrefl _)⟩
  | succ n ih =>
    cases hfound : (body i).found with
    | true =>
      rw [searchLoop_here hfound]
      exact ⟨le_rfl, Nat.le_add_right _ _, fun j hj hlt => absurd hlt (not_lt.mpr hj),
        fun _ => hfound⟩
    | false =>
      obtain ⟨hle, hend, hbefore, hat⟩ := ih (i + 1)
      rw [searchLoop_next hfound]
      dsimp only
      refine ⟨by omega, by omega, fun j hj hlt => ?_, fun hlt => hat (by omega)⟩
      rcases Nat.eq_or_lt_of_le hj with rfl | hj'
      · exact hfound
      · exact hbefore j hj' hlt

/-- The code behind the loop can tell from the index whether there was a find. -/
theorem searchLoop_lt_iff {n i : ℕ} :
    (searchLoop body n i).idx < i + n ↔ ∃ j, i ≤ j ∧ j < i + n ∧ (body j).found = true := by
  obtain ⟨hle, hend, hbefore, hat⟩ := @searchLoop_stops _ body n i
  constructor
  · intro hlt
    exact ⟨_, hle, hlt, hat hlt⟩
  · rintro ⟨j, hj, hjn, hfound⟩
    by_contra hge
    have hnot := hbefore j hj (by omega)
    rw [hfound] at hnot
    cases hnot

/-- Without a find every body adds its part. -/
theorem searchLoop_failures_zero {n i : ℕ}
    (h : ∀ j, i ≤ j → j < i + n → (body j).found = false) :
    (searchLoop body n i).failures = 0 ↔ ∀ j, i ≤ j → j < i + n → (body j).failures = 0 := by
  induction n generalizing i with
  | zero => simp only [searchLoop, true_iff]; omega
  | succ n ih =>
    rw [searchLoop_next (h i le_rfl (by omega))]
    have hrest := @ih (i + 1) fun j hj hlt => h j (by omega) (by omega)
    simp only [Nat.add_eq_zero_iff, hrest]
    constructor
    · rintro ⟨hhere, hlater⟩ j hj hlt
      rcases Nat.eq_or_lt_of_le hj with rfl | hj'
      · exact hhere
      · exact hlater j hj' (by omega)
    · intro hall
      exact ⟨hall i le_rfl (by omega), fun j hj hlt => hall j (by omega) (by omega)⟩

/-- An event that only one body can log is logged if the loop comes to that body. -/
theorem searchLoop_count [DecidableEq ε] {e : ε} {k : ℕ} {n i : ℕ}
    (hone : ∀ j ≠ k, (body j).log.count e = 0) :
    (searchLoop body n i).log.count e =
      if i ≤ k ∧ k ≤ (searchLoop body n i).idx ∧ k < i + n then (body k).log.count e else 0 := by
  induction n generalizing i with
  | zero => rw [if_neg (by omega)]; rfl
  | succ n ih =>
    cases hfound : (body i).found with
    | true =>
      rw [searchLoop_here hfound]
      by_cases hik : i = k
      · subst hik
        rw [if_pos ⟨le_rfl, le_rfl, by omega⟩]
      · rw [hone i hik, if_neg]
        dsimp only
        omega
    | false =>
      rw [searchLoop_next hfound, List.count_append, ih]
      have hle := (@searchLoop_stops _ body n (i + 1)).1
      by_cases hik : i = k
      · subst hik
        rw [if_neg (by omega), if_pos ⟨le_rfl, by dsimp only; omega, by omega⟩, Nat.add_zero]
      · rw [hone i hik, Nat.zero_add]
        dsimp only
        split
        · rw [if_pos (by omega)]
        · rw [if_neg (by omega)]

end Stops

end SearchLoop
