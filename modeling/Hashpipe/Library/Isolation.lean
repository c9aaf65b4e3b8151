import Mathlib.Data.List.Basic

/-!
# What one party sees of a run

A system that several parties act on, and what one of them can see of its state.  When the
actions of the others do not change that, and its own depend on nothing else, what it sees after
any run is what it would see if it had been alone (`view_run`).
-/

namespace Isolation

variable {σ α ν : Type*} (next : σ → α → σ)

/-- Each action is taken under the condition `ok`. -/
def Allowed (ok : σ → α → Prop) : σ → List α → Prop
  | _, [] => True
  | s, a :: as => ok s a ∧ Allowed ok (next s a) as

variable {next} in
/-- Actions that are taken in every state. -/
theorem allowed_of_forall {ok : σ → α → Prop} {as : List α} (h : ∀ s, ∀ a ∈ as, ok s a) :
    ∀ {s : σ}, Allowed next ok s as := by
  induction as with
  | nil => exact trivial
  | cons a as ih =>
    intro s
    exact ⟨h s a (List.mem_cons_self ..), ih fun t b hb => h t b (List.mem_cons_of_mem a hb)⟩

/-- The conditions on one party's view: `inv` is an invariant of the runs. -/
structure Separate (ok : σ → α → Prop) (inv : σ → Prop) (mine : α → Bool) (view : σ → ν) :
    Prop where
  keeps : ∀ s a, inv s → ok s a → inv (next s a)
  others : ∀ s a, inv s → ok s a → mine a = false → view (next s a) = view s
  own : ∀ s t a, ok s a → mine a = true → view s = view t →
    view (next s a) = view (next t a)

variable {next} {ok : σ → α → Prop} {inv : σ → Prop} {mine : α → Bool} {view : σ → ν}

theorem Separate.inv_run (h : Separate next ok inv mine view) (as : List α) :
    ∀ {s : σ}, inv s → Allowed next ok s as → inv (as.foldl next s) := by
  induction as with
  | nil => exact fun hs _ => hs
  | cons a as ih => exact fun hs hok => ih (h.keeps _ a hs hok.1) hok.2

/-- The party sees what it would see alone. -/
theorem Separate.view_run (h : Separate next ok inv mine view) (as : List α) :
    ∀ {s t : σ}, inv s → Allowed next ok s as → view s = view t →
      view (as.foldl next s) = view ((as.filter mine).foldl next t) := by
  induction as with
  | nil => exact fun _ _ heq => heq
  | cons a as ih =>
    intro s t hs hok heq
    have hs' := h.keeps s a hs hok.1
    rw [List.foldl_cons]
    cases hmine : mine a with
    | false =>
      rw [List.filter_cons_of_neg (by simp [hmine])]
      exact ih hs' hok.2 ((h.others s a hs hok.1 hmine).trans heq)
    | true =>
      rw [List.filter_cons_of_pos hmine, List.foldl_cons]
      exact ih hs' hok.2 (h.own s t a hok.1 hmine heq)

end Isolation
