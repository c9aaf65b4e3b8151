import Mathlib.Tactic

/-!
# Sequences of steps that stop at the first failure

A straight-line procedure with one error exit: steps are taken in order, each either
succeeds and has an effect, or ends the run.  `run_eq` says what a run leaves in terms of
its first failing step; `foldl_written` and `foldl_cleared` read a location that one step
writes off the steps taken; the rank lemmas tell which steps those are when the sequence is
sorted by rank.
-/

namespace StepSequence

universe u v w

variable {α : Type u} {σ : Type v} {τ : Type w}

/-- Run to the end, or to the first step that does not succeed. -/
def run (succeeds : α → Bool) (effect : σ → α → σ) (stop : σ → α → τ) : List α → σ → σ ⊕ τ
  | [], s => .inl s
  | a :: as, s => if succeeds a then run succeeds effect stop as (effect s a) else .inr (stop s a)

/-- The first step that does not succeed. -/
def firstFailure (succeeds : α → Bool) (as : List α) : Option α := as.find? fun a => !succeeds a

theorem run_append {succeeds : α → Bool} {effect : σ → α → σ} {stop : σ → α → τ}
    {done rest : List α} (h : ∀ a ∈ done, succeeds a = true) (s : σ) :
    run succeeds effect stop (done ++ rest) s =
      run succeeds effect stop rest (done.foldl effect s) := by
  induction done generalizing s with
  | nil => rfl
  | cons a as ih =>
    rw [List.cons_append, run, if_pos (h a List.mem_cons_self)]
    exact ih (fun b hb => h b (List.mem_cons_of_mem _ hb)) _

/-- A run without failures leaves the effects of all its steps. -/
theorem run_eq_finished {succeeds : α → Bool} {effect : σ → α → σ} {stop : σ → α → τ}
    {as : List α} (h : firstFailure succeeds as = none) (s : σ) :
    run succeeds effect stop as s = .inl (as.foldl effect s) := by
  have hall : ∀ a ∈ as, succeeds a = true := by simpa [firstFailure] using h
  have happ : run succeeds effect stop (as ++ []) s = run succeeds effect stop [] (as.foldl effect s) :=
    run_append hall s
  simpa [run] using happ

/-- The first failing step, what was done before it, and what the run leaves. -/
theorem run_eq_stopped {succeeds : α → Bool} (effect : σ → α → σ) (stop : σ → α → τ)
    {as : List α} {a : α} (h : firstFailure succeeds as = some a) :
    ∃ done rest, as = done ++ a :: rest ∧ (∀ b ∈ done, succeeds b = true) ∧ succeeds a = false ∧
      ∀ s, run succeeds effect stop as s = .inr (stop (done.foldl effect s) a) := by
  obtain ⟨hfail, done, rest, heq, hdone⟩ := List.find?_eq_some_iff_append.mp h
  have hfail' : succeeds a = false := by simpa using hfail
  have hdone' : ∀ b ∈ done, succeeds b = true := fun b hb => by simpa using hdone b hb
  refine ⟨done, rest, heq, hdone', hfail', fun s => ?_⟩
  rw [heq, run_append hdone', run, if_neg (by simp [hfail'])]

/-! ### Reading a location off the steps taken -/

/-- A location that only the step `a` writes. -/
theorem foldl_written {ι : Type*} [DecidableEq α] (effect : σ → α → σ) (read : σ → ι) (a : α)
    (v : ι) (hwrite : ∀ s, read (effect s a) = v)
    (hkeep : ∀ s b, b ≠ a → read (effect s b) = read s) (done : List α) (s : σ) :
    read (done.foldl effect s) = if a ∈ done then v else read s := by
  induction done generalizing s with
  | nil => simp
  | cons b bs ih =>
    rw [List.foldl_cons, ih]
    by_cases hb : b = a
    · subst hb
      simp [hwrite]
    · simp [hkeep s b hb, Ne.symm hb]

/-- A location that no step taken writes. -/
theorem foldl_kept {ι : Type*} (effect : σ → α → σ) (read : σ → ι) {done : List α}
    (hkeep : ∀ b ∈ done, ∀ s, read (effect s b) = read s) (s : σ) :
    read (done.foldl effect s) = read s := by
  induction done generalizing s with
  | nil => rfl
  | cons b bs ih =>
    rw [List.foldl_cons, ih fun c hc => hkeep c (List.mem_cons_of_mem _ hc),
      hkeep b List.mem_cons_self]

/-- A location that the step `a` writes with a value of the state that no step taken changes. -/
theorem foldl_computed {ι : Type*} (effect : σ → α → σ) (read value : σ → ι) {a : α} {done : List α}
    (hwrite : ∀ s, read (effect s a) = value s)
    (hkeep : ∀ b ∈ done, b ≠ a → ∀ s, read (effect s b) = read s)
    (hvalue : ∀ b ∈ done, ∀ s, value (effect s b) = value s) (ha : a ∈ done) (s : σ) :
    read (done.foldl effect s) = value s := by
  induction done using List.reverseRecOn with
  | nil => exact absurd ha List.not_mem_nil
  | append_singleton bs b ih =>
    have hvalue' : value (bs.foldl effect s) = value s :=
      foldl_kept effect value (fun c hc => hvalue c (List.mem_append_left _ hc)) s
    rw [List.foldl_append, List.foldl_cons, List.foldl_nil]
    by_cases hb : b = a
    · rw [hb, hwrite, hvalue']
    · have hin : a ∈ bs := by simpa [Ne.symm hb] using ha
      rw [hkeep b (by simp) hb]
      exact ih (fun c hc => hkeep c (List.mem_append_left _ hc))
        (fun c hc => hvalue c (List.mem_append_left _ hc)) hin

/-- A location that the step `a` writes and the step `clear`, which comes first if it comes
at all, resets to the value it starts with. -/
theorem foldl_cleared {ι : Type*} [DecidableEq α] (effect : σ → α → σ) (read : σ → ι)
    (a clear : α) (v zero : ι) (hwrite : ∀ s, read (effect s a) = v)
    (hclear : ∀ s, read (effect s clear) = zero)
    (hkeep : ∀ s b, b ≠ a → b ≠ clear → read (effect s b) = read s) {done : List α}
    (hfirst : done.Pairwise fun b c => ¬(b = a ∧ c = clear)) {s : σ} (hs : read s = zero) :
    read (done.foldl effect s) = if a ∈ done then v else zero := by
  induction done using List.reverseRecOn with
  | nil => simpa using hs
  | append_singleton bs b ih =>
    rw [List.pairwise_append] at hfirst
    obtain ⟨hbs, -, hlast⟩ := hfirst
    rw [List.foldl_append, List.foldl_cons, List.foldl_nil]
    by_cases ha : b = a
    · subst ha
      simp [hwrite]
    by_cases hc : b = clear
    · subst hc
      have hnot : a ∉ bs := fun hmem => hlast a hmem b List.mem_cons_self ⟨rfl, rfl⟩
      simp [hclear, hnot, Ne.symm ha]
    · rw [hkeep _ b ha hc, ih hbs]
      simp [Ne.symm ha]

/-! ### Sequences sorted by rank -/

/-- A part of a sequence whose ranks lie between `lo` and `hi`: sorted, and without a step
taken twice. -/
structure Ranked (rank : α → ℕ) (lo hi : ℕ) (as : List α) : Prop where
  sorted : as.Pairwise fun a b => rank a ≤ rank b
  nodup : as.Nodup
  between : ∀ a ∈ as, lo ≤ rank a ∧ rank a ≤ hi

theorem Ranked.append {rank : α → ℕ} {lo hi lo' hi' : ℕ} {as bs : List α}
    (h : Ranked rank lo hi as) (h' : Ranked rank lo' hi' bs) (hlo : lo ≤ lo') (hlt : hi < lo')
    (hhi : hi ≤ hi') : Ranked rank lo hi' (as ++ bs) where
  sorted := by
    refine List.pairwise_append.mpr ⟨h.sorted, h'.sorted, fun a ha b hb => ?_⟩
    have := (h.between a ha).2
    have := (h'.between b hb).1
    omega
  nodup := by
    refine List.nodup_append.mpr ⟨h.nodup, h'.nodup, fun a ha b hb hab => ?_⟩
    have := (h.between a ha).2
    have := (h'.between b hb).1
    subst hab
    omega
  between := by
    intro a ha
    rcases List.mem_append.mp ha with hmem | hmem
    · have := h.between a hmem
      omega
    · have := h'.between a hmem
      omega

/-- A loop whose bodies all have the rank `r`. -/
theorem Ranked.loop {rank : α → ℕ} {r n : ℕ} {body : ℕ → List α}
    (hrank : ∀ i, ∀ a ∈ body i, rank a = r) (hnodup : ∀ i, (body i).Nodup)
    (hdisj : ∀ i j, i ≠ j → List.Disjoint (body i) (body j)) :
    Ranked rank r r ((List.range n).flatMap body) where
  sorted := by
    refine List.Pairwise.imp_of_mem (R := fun _ _ => True) ?_ (List.pairwise_of_forall fun _ _ => trivial)
    intro a b ha hb _
    obtain ⟨i, -, hi⟩ := List.mem_flatMap.mp ha
    obtain ⟨j, -, hj⟩ := List.mem_flatMap.mp hb
    rw [hrank i a hi, hrank j b hj]
  nodup := by
    refine List.nodup_flatMap.mpr ⟨fun i _ => hnodup i, ?_⟩
    exact List.nodup_range.imp fun hij => hdisj _ _ hij
  between := by
    intro a ha
    obtain ⟨i, -, hi⟩ := List.mem_flatMap.mp ha
    exact ⟨(hrank i a hi).ge, (hrank i a hi).le⟩

variable {as done rest : List α} {a b : α} {rank : α → ℕ}

/-- What comes before a step done has been done. -/
theorem mem_done_of_rank_lt_mem (h : as = done ++ rest)
    (hsorted : as.Pairwise fun x y => rank x ≤ rank y) (ha : a ∈ done) (hb : b ∈ as)
    (hlt : rank b < rank a) : b ∈ done := by
  rw [h, List.mem_append] at hb
  rcases hb with hdone | hrest
  · exact hdone
  · rw [h, List.pairwise_append] at hsorted
    exact absurd (hsorted.2.2 a ha b hrest) (not_le.mpr hlt)

theorem mem_done_of_rank_lt (h : as = done ++ a :: rest)
    (hsorted : as.Pairwise fun x y => rank x ≤ rank y) (hb : b ∈ as) (hlt : rank b < rank a) :
    b ∈ done := by
  rw [h, List.mem_append] at hb
  rcases hb with hdone | hrest
  · exact hdone
  · rw [h, List.pairwise_append, List.pairwise_cons] at hsorted
    obtain ⟨-, ⟨hle, -⟩, -⟩ := hsorted
    rcases List.mem_cons.mp hrest with rfl | hmem
    · exact absurd hlt (lt_irrefl _)
    · exact absurd (hle b hmem) (not_le.mpr hlt)

theorem not_mem_done_of_lt_rank (h : as = done ++ a :: rest)
    (hsorted : as.Pairwise fun x y => rank x ≤ rank y) (hlt : rank a < rank b) : b ∉ done := by
  intro hmem
  rw [h, List.pairwise_append] at hsorted
  exact absurd (hsorted.2.2 b hmem a List.mem_cons_self) (not_le.mpr hlt)

theorem not_mem_done_self (h : as = done ++ a :: rest) (hnodup : as.Nodup) : a ∉ done := by
  intro hmem
  rw [h, List.nodup_append] at hnodup
  exact hnodup.2.2 a hmem a List.mem_cons_self rfl

/-- Of the whole sequence, only the steps taken contribute. -/
theorem flatMap_done {ι : Type*} [DecidableEq α] (h : as = done ++ rest) (hnodup : as.Nodup)
    (f : α → Option ι) :
    (as.flatMap fun x => if x ∈ done then (f x).toList else []) = done.filterMap f := by
  rw [h, List.nodup_append] at hnodup
  rw [h, List.flatMap_append, List.filterMap_eq_flatMap_toList]
  have hdone : (done.flatMap fun x => if x ∈ done then (f x).toList else []) =
      done.flatMap fun x => (f x).toList :=
    List.flatMap_congr fun x hx => if_pos hx
  have hrest : (rest.flatMap fun x => if x ∈ done then (f x).toList else []) = [] := by
    refine List.flatMap_eq_nil_iff.mpr fun x hx => if_neg ?_
    exact fun hmem => hnodup.2.2 x hmem x hx rfl
  rw [hdone, hrest, List.append_nil]

/-- With a rank of its own, a step has been done exactly if the failing one comes later. -/
theorem mem_done_iff (h : as = done ++ a :: rest)
    (hsorted : as.Pairwise fun x y => rank x ≤ rank y) (hnodup : as.Nodup) (hb : b ∈ as)
    (hown : ∀ x, rank x = rank b → x = b) : b ∈ done ↔ rank b < rank a := by
  constructor
  · intro hmem
    by_contra hle
    rcases Nat.lt_or_ge (rank a) (rank b) with hlt | hge
    · exact not_mem_done_of_lt_rank h hsorted hlt hmem
    · obtain rfl : a = b := hown a (by omega)
      exact not_mem_done_self h hnodup hmem
  · exact mem_done_of_rank_lt h hsorted hb

end StepSequence
