import Mathlib.Tactic
import Mathlib.Data.Finset.Card
import Mathlib.Order.Interval.Finset.Nat

/-!
# Windows on a ring of slots

A bounded queue in a ring of `n` slots puts item `j` into slot `j % n`.  When the
items `c ≤ j < p` are in the queue, with `p ≤ c + n`, they sit in different slots;
`Occupied n c p` is the set of those slots.  The lemmas say what a push at `p` and
a pop at `c` do to that set, and when the next slot is free.
-/

namespace RingWindow

/-- Slot `i` holds one of the items of the window `[c, p)`. -/
def Occupied (n c p i : ℕ) : Prop := ∃ j, c ≤ j ∧ j < p ∧ j % n = i

/-- Two items less than a ring apart never share a slot. -/
theorem slot_injective {n c i j : ℕ} (hi : c ≤ i) (hin : i < c + n) (hj : c ≤ j)
    (hjn : j < c + n) (h : i % n = j % n) : i = j := by
  wlog hle : i ≤ j generalizing i j
  · exact (this hj hjn hi hin h.symm (by omega)).symm
  have hdvd : n ∣ j - i := (Nat.modEq_iff_dvd' hle).mp h
  have hlt : j - i < n := by omega
  have hzero := Nat.eq_zero_of_dvd_of_lt hdvd hlt
  omega

theorem not_occupied_empty (n c i : ℕ) : ¬ Occupied n c c i := by
  intro ⟨j, hcj, hjc, _⟩
  omega

/-- The oldest item of a nonempty window is in its slot. -/
theorem occupied_first {n c p : ℕ} (h : c < p) : Occupied n c p (c % n) := ⟨c, le_rfl, h, rfl⟩

/-- Pushing item `p` occupies slot `p % n` and no other. -/
theorem occupied_push {n c p i : ℕ} (h : c ≤ p) :
    Occupied n c (p + 1) i ↔ Occupied n c p i ∨ i = p % n := by
  constructor
  · intro ⟨j, hcj, hjp, hji⟩
    rcases Nat.lt_succ_iff_lt_or_eq.mp hjp with hlt | rfl
    · exact .inl ⟨j, hcj, hlt, hji⟩
    · exact .inr hji.symm
  · rintro (⟨j, hcj, hjp, hji⟩ | rfl)
    · exact ⟨j, hcj, by omega, hji⟩
    · exact ⟨p, h, by omega, rfl⟩

/-- Popping item `c` frees slot `c % n` and no other. -/
theorem occupied_pop {n c p i : ℕ} (h : p ≤ c + n) :
    Occupied n (c + 1) p i ↔ Occupied n c p i ∧ i ≠ c % n := by
  constructor
  · rintro ⟨j, hcj, hjp, rfl⟩
    refine ⟨⟨j, by omega, hjp, rfl⟩, fun hslot => ?_⟩
    have := slot_injective (c := c) (by omega) (by omega) le_rfl (by omega) hslot
    omega
  · rintro ⟨⟨j, hcj, hjp, rfl⟩, hne⟩
    have hjc : j ≠ c := fun hj => hne (by rw [hj])
    exact ⟨j, by omega, hjp, rfl⟩

/-- The slot of the next item is free exactly when the window is not full. -/
theorem occupied_next {n c p : ℕ} (hn : 0 < n) (hcp : c ≤ p) (hpn : p ≤ c + n) :
    Occupied n c p (p % n) ↔ p = c + n := by
  constructor
  · intro ⟨j, hcj, hjp, hslot⟩
    by_contra hne
    have := slot_injective (c := c) hcj (by omega) hcp (by omega) hslot
    omega
  · intro hp
    exact ⟨c, le_rfl, by omega, by rw [hp, Nat.add_mod_right]⟩

/-- The window `[c, p)` occupies `p - c` slots. -/
theorem card_occupied {n c p : ℕ} (hn : 0 < n) (hpn : p ≤ c + n)
    [DecidablePred (Occupied n c p)] :
    ((Finset.range n).filter (Occupied n c p)).card = p - c := by
  have himage : (Finset.range n).filter (Occupied n c p) = (Finset.Ico c p).image (· % n) := by
    ext i
    simp only [Finset.mem_filter, Finset.mem_range, Finset.mem_image, Finset.mem_Ico]
    constructor
    · intro ⟨_, j, hcj, hjp, hji⟩
      exact ⟨j, ⟨hcj, hjp⟩, hji⟩
    · rintro ⟨j, ⟨hcj, hjp⟩, rfl⟩
      exact ⟨Nat.mod_lt j hn, j, hcj, hjp, rfl⟩
  rw [himage, Finset.card_image_of_injOn, Nat.card_Ico]
  intro i hi j hj hij
  simp only [Finset.coe_Ico, Set.mem_Ico] at hi hj
  exact slot_injective hi.1 (by omega) hj.1 (by omega) hij

end RingWindow
