import Mathlib.Tactic

/-!
# One's-complement sums of 16-bit words

`onesSum` adds 16-bit words with end-around carry.  `carryStep` is one round of the usual
shortcut: add with a wide accumulator, then move what is above bit 15 to the bottom until
nothing is left there.  Both keep the sum modulo 65535, and both give 0 for a zero sum only,
so that a list of words sums to 0xffff exactly when its plain sum is a positive multiple of
65535 (`onesSum_eq_ones_iff`).

Exchanging the two bytes of a word multiplies it by 256 modulo 65535 (`swapBytes_modEq`).
-/

namespace OnesComplement

/-- Addition with end-around carry. -/
def onesAdd (a b : ℕ) : ℕ := if a + b < 2 ^ 16 then a + b else a + b - 65535

def onesSum (ws : List ℕ) : ℕ := ws.foldl onesAdd 0

theorem onesAdd_lt {a b : ℕ} (ha : a < 2 ^ 16) (hb : b < 2 ^ 16) : onesAdd a b < 2 ^ 16 := by
  unfold onesAdd
  split <;> omega

theorem onesAdd_modEq (a b : ℕ) : onesAdd a b ≡ a + b [MOD 65535] := by
  unfold onesAdd
  split
  · rfl
  · show (a + b - 65535) % 65535 = (a + b) % 65535
    omega

theorem onesAdd_eq_zero {a b : ℕ} : onesAdd a b = 0 ↔ a + b = 0 := by
  unfold onesAdd
  split <;> omega

/-- What the accumulator `acc` has become after the words. -/
theorem foldl_onesAdd {ws : List ℕ} (hws : ∀ w ∈ ws, w < 2 ^ 16) {acc : ℕ} (hacc : acc < 2 ^ 16) :
    ws.foldl onesAdd acc < 2 ^ 16 ∧ ws.foldl onesAdd acc ≡ acc + ws.sum [MOD 65535] ∧
      (ws.foldl onesAdd acc = 0 ↔ acc + ws.sum = 0) := by
  induction ws generalizing acc with
  | nil => exact ⟨hacc, rfl, Iff.rfl⟩
  | cons w ws ih =>
    have hw : w < 2 ^ 16 := hws w (List.mem_cons_self ..)
    have hstep := ih (fun v hv => hws v (List.mem_cons_of_mem _ hv)) (onesAdd_lt hacc hw)
    rw [List.foldl_cons, List.sum_cons, ← add_assoc]
    refine ⟨hstep.1, hstep.2.1.trans ((onesAdd_modEq acc w).add_right _), ?_⟩
    have hzero := @onesAdd_eq_zero acc w
    rw [hstep.2.2]
    omega

/-- The words sum to all ones exactly when their plain sum is a positive multiple of 65535. -/
theorem onesSum_eq_ones_iff {ws : List ℕ} (hws : ∀ w ∈ ws, w < 2 ^ 16) :
    onesSum ws = 0xffff ↔ ws.sum ≠ 0 ∧ ws.sum % 65535 = 0 := by
  obtain ⟨hlt, hmod, hzero⟩ := foldl_onesAdd hws (Nat.two_pow_pos 16)
  rw [Nat.zero_add] at hmod hzero
  unfold Nat.ModEq at hmod
  unfold onesSum
  omega

/-- One round of moving the carries to the bottom. -/
def carryStep (s : ℕ) : ℕ := s / 2 ^ 16 + s % 2 ^ 16

theorem carryStep_modEq (s : ℕ) : carryStep s ≡ s [MOD 65535] := by
  show (s / 2 ^ 16 + s % 2 ^ 16) % 65535 = s % 65535
  omega

theorem carryStep_eq_zero {s : ℕ} : carryStep s = 0 ↔ s = 0 := by
  unfold carryStep
  omega

/-- Two rounds are enough for a 32-bit accumulator. -/
theorem carryStep_carryStep_lt {s : ℕ} (hs : s < 2 ^ 32) : carryStep (carryStep s) < 2 ^ 16 := by
  unfold carryStep
  omega

/-- The word with its two bytes exchanged. -/
def swapBytes (w : ℕ) : ℕ := w % 256 * 256 + w / 256

theorem swapBytes_modEq (w : ℕ) : swapBytes w ≡ 256 * w [MOD 65535] := by
  show (w % 256 * 256 + w / 256) % 65535 = 256 * w % 65535
  omega

end OnesComplement
