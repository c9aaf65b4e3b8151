import Mathlib.Tactic
import Mathlib.Logic.Function.Basic
import Mathlib.Data.List.Nodup
import Mathlib.Data.Multiset.Basic

/-!
# Chains of next pointers

Nodes that carry their own link: `next a` is the node after `a`, or `none` at the end
of a list.  `Seg next p l q` says that following the links from `p` visits exactly the
nodes of `l` and arrives at `q`; `Chain next p l` is the case that ends.  A write to one
node leaves alone every segment the node is not on, which is all that separation asks
for, and a chain never visits a node twice.
-/

namespace LinkedChain

variable {ι : Type}

/-- Following `next` from `p` visits `l` and arrives at `q`. -/
def Seg (next : ι → Option ι) : Option ι → List ι → Option ι → Prop
  | p, [], q => p = q
  | p, a :: l, q => p = some a ∧ Seg next (next a) l q

/-- A finite list that ends in a null pointer. -/
def Chain (next : ι → Option ι) (p : Option ι) (l : List ι) : Prop := Seg next p l none

/-- The nodes reached from `p` in at most `fuel` steps. -/
def walk (next : ι → Option ι) : ℕ → Option ι → List ι
  | 0, _ => []
  | _ + 1, none => []
  | fuel + 1, some a => a :: walk next fuel (next a)

/-- Go `n` nodes further, stopping at the last one. -/
def advance (next : ι → Option ι) : ℕ → ι → ι
  | 0, a => a
  | n + 1, a =>
    match next a with
    | none => a
    | some b => advance next n b

variable {next next' : ι → Option ι}

theorem seg_append {p q : Option ι} {l₁ l₂ : List ι} :
    Seg next p (l₁ ++ l₂) q ↔ ∃ m, Seg next p l₁ m ∧ Seg next m l₂ q := by
  induction l₁ generalizing p with
  | nil => simp [Seg]
  | cons a l₁ ih =>
    simp only [List.cons_append, Seg, ih]
    constructor
    · intro ⟨hp, m, h₁, h₂⟩
      exact ⟨m, ⟨hp, h₁⟩, h₂⟩
    · intro ⟨m, ⟨hp, h₁⟩, h₂⟩
      exact ⟨hp, m, h₁, h₂⟩

/-- A segment only depends on the links of its own nodes. -/
theorem seg_congr {l : List ι} (h : ∀ a ∈ l, next' a = next a) {p q : Option ι} :
    Seg next' p l q ↔ Seg next p l q := by
  induction l generalizing p with
  | nil => rfl
  | cons a l ih =>
    have ha : next' a = next a := h a List.mem_cons_self
    simp only [Seg, ha]
    rw [ih fun b hb => h b (List.mem_cons_of_mem a hb)]

theorem seg_update [DecidableEq ι] {a : ι} {v : Option ι} {l : List ι} (h : a ∉ l)
    {p q : Option ι} : Seg (Function.update next a v) p l q ↔ Seg next p l q := by
  apply seg_congr
  intro b hb
  have hba : b ≠ a := by
    rintro rfl
    exact h hb
  exact Function.update_of_ne hba v next

theorem chain_update [DecidableEq ι] {a : ι} {v : Option ι} {l : List ι} (h : a ∉ l)
    {p : Option ι} : Chain (Function.update next a v) p l ↔ Chain next p l :=
  seg_update h

/-- Two chains from the same place visit the same nodes. -/
theorem Chain.unique {p : Option ι} {l l' : List ι} (h : Chain next p l)
    (h' : Chain next p l') : l = l' := by
  induction l generalizing p l' with
  | nil =>
    cases l' with
    | nil => rfl
    | cons b l' =>
      have hp : p = none := h
      have hp' : p = some b := h'.1
      rw [hp] at hp'
      cases hp'
  | cons a l ih =>
    cases l' with
    | nil =>
      have hp : p = some a := h.1
      have hp' : p = none := h'
      rw [hp] at hp'
      cases hp'
    | cons b l' =>
      obtain rfl : a = b := Option.some.inj (h.1.symm.trans h'.1)
      rw [ih h.2 h'.2]

/-- **A chain is acyclic**: no node is visited twice. -/
theorem Chain.nodup {p : Option ι} {l : List ι} (h : Chain next p l) : l.Nodup := by
  induction l generalizing p with
  | nil => exact List.nodup_nil
  | cons a l ih =>
    refine List.nodup_cons.mpr ⟨fun hmem => ?_, ih h.2⟩
    -- a second visit to `a` would start a shorter chain at the same place
    obtain ⟨l₁, l₂, rfl⟩ := List.append_of_mem hmem
    obtain ⟨m, -, hagain⟩ := seg_append.mp h.2
    obtain rfl : m = some a := hagain.1
    have hsame : a :: (l₁ ++ a :: l₂) = a :: l₂ := Chain.unique (p := some a) ⟨rfl, h.2⟩ hagain
    have hlen := congrArg List.length hsame
    simp only [List.length_cons, List.length_append] at hlen
    omega

theorem Chain.head {p : Option ι} {l : List ι} (h : Chain next p l) : p = l.head? := by
  cases l with
  | nil => exact h
  | cons a l => exact h.1

/-- A walk with enough fuel finds the nodes of a chain. -/
theorem Chain.walk_eq {p : Option ι} {l : List ι} (h : Chain next p l) {fuel : ℕ}
    (hfuel : l.length ≤ fuel) : walk next fuel p = l := by
  induction l generalizing p fuel with
  | nil =>
    obtain rfl : p = none := h
    cases fuel <;> rfl
  | cons a l ih =>
    obtain ⟨rfl, hrest⟩ := h
    cases fuel with
    | zero => simp at hfuel
    | succ fuel =>
      rw [walk, ih hrest (by simpa using hfuel)]

/-- Linking a node in front of a chain. -/
theorem Chain.push [DecidableEq ι] {p : Option ι} {l : List ι} {a : ι} (h : Chain next p l)
    (ha : a ∉ l) : Chain (Function.update next a p) (some a) (a :: l) := by
  refine ⟨rfl, ?_⟩
  rw [Function.update_self]
  exact (chain_update ha).mpr h

/-- Pushing several nodes in turn: they end up in reverse order. -/
theorem Chain.pushAll [DecidableEq ι] {ws : List ι} : ∀ {next : ι → Option ι} {p : Option ι}
    {l : List ι}, Chain next p l → ws.Nodup → (∀ w ∈ ws, w ∉ l) →
    let r := ws.foldl (fun s w => (Function.update s.1 w s.2, some w)) (next, p)
    Chain r.1 r.2 (ws.reverse ++ l) ∧ ∀ a, a ∉ ws → r.1 a = next a := by
  induction ws with
  | nil =>
    intro next p l h _ _
    exact ⟨h, fun _ _ => rfl⟩
  | cons w ws ih =>
    intro next p l h hnodup hfresh
    obtain ⟨hw, hws⟩ := List.nodup_cons.mp hnodup
    have hpush := h.push (hfresh w List.mem_cons_self)
    have hfresh' : ∀ v ∈ ws, v ∉ w :: l := by
      intro v hv
      rw [List.mem_cons, not_or]
      exact ⟨fun hvw => hw (hvw ▸ hv), hfresh v (List.mem_cons_of_mem w hv)⟩
    obtain ⟨hchain, hframe⟩ := ih hpush hws hfresh'
    refine ⟨?_, ?_⟩
    · rw [List.reverse_cons, List.append_assoc]
      exact hchain
    · intro a ha
      rw [List.mem_cons, not_or] at ha
      exact (hframe a ha.2).trans (Function.update_of_ne ha.1 _ _)

/-- Cutting a chain after node `t`. -/
theorem Chain.cut [DecidableEq ι] {p : Option ι} {l₁ l₂ : List ι} {t : ι}
    (h : Chain next p (l₁ ++ t :: l₂)) :
    Chain (Function.update next t none) p (l₁ ++ [t]) ∧
      Chain (Function.update next t none) (next t) l₂ := by
  have hnodup := h.nodup
  have ht₁ : t ∉ l₁ := by
    intro hmem
    exact (List.nodup_append.mp hnodup).2.2 t hmem t List.mem_cons_self rfl
  have ht₂ : t ∉ l₂ := (List.nodup_cons.mp (List.nodup_append.mp hnodup).2.1).1
  obtain ⟨m, h₁, h₂⟩ := seg_append.mp h
  obtain ⟨rfl, hrest⟩ := h₂
  refine ⟨?_, (chain_update ht₂).mpr hrest⟩
  exact seg_append.mpr ⟨some t, (seg_update ht₁).mpr h₁, rfl, Function.update_self ..⟩

/-- `advance` stops at node `n`, or at the last one. -/
theorem Chain.advance_eq {a : ι} {l : List ι} (h : Chain next (some a) (a :: l)) (n : ℕ) :
    ∃ l₁ l₂, a :: l = l₁ ++ advance next n a :: l₂ ∧ l₁.length = min n l.length := by
  induction n generalizing a l with
  | zero => exact ⟨[], l, rfl, by simp⟩
  | succ n ih =>
    cases l with
    | nil =>
      have hend : next a = none := h.2
      exact ⟨[], [], by simp [advance, hend], by simp⟩
    | cons b l =>
      have hlink : next a = some b := h.2.1
      obtain ⟨l₁, l₂, heq, hlen⟩ := ih (a := b) (l := l) ⟨rfl, h.2.2⟩
      refine ⟨a :: l₁, l₂, ?_, ?_⟩
      · simp [advance, hlink, heq]
      · simp only [List.length_cons, hlen]
        omega

/-- A list under construction: linked from `head` to `tail`, whose own link may still
point anywhere. -/
def Growing (next : ι → Option ι) (head tail : Option ι) (l : List ι) : Prop :=
  (l = [] ∧ head = none ∧ tail = none) ∨
    ∃ front last, l = front ++ [last] ∧ tail = some last ∧ Seg next head front (some last)

/-- The first node of a list under construction. -/
theorem Growing.first (a : ι) : Growing next (some a) (some a) [a] :=
  .inr ⟨[], a, rfl, rfl, rfl⟩

/-- Linking one more node behind the tail. -/
theorem Growing.append [DecidableEq ι] {head : Option ι} {t w : ι} {l : List ι}
    (h : Growing next head (some t) l) (hl : l.Nodup) :
    Growing (Function.update next t (some w)) head (some w) (l ++ [w]) := by
  rcases h with ⟨-, -, hnone⟩ | ⟨front, last, rfl, ht, hseg⟩
  · cases hnone
  · obtain rfl := Option.some.inj ht
    have hout : t ∉ front := by
      intro hmem
      exact (List.nodup_append.mp hl).2.2 t hmem t (List.mem_singleton_self t) rfl
    refine .inr ⟨front ++ [t], w, rfl, rfl, ?_⟩
    exact seg_append.mpr ⟨some t, (seg_update hout).mpr hseg, rfl, Function.update_self ..⟩

/-- A null pointer behind the tail makes it a list. -/
theorem Growing.close [DecidableEq ι] {head : Option ι} {t : ι} {l : List ι}
    (h : Growing next head (some t) l) (hl : l.Nodup) :
    Chain (Function.update next t none) head l := by
  rcases h with ⟨-, -, hnone⟩ | ⟨front, last, rfl, ht, hseg⟩
  · cases hnone
  · obtain rfl := Option.some.inj ht
    have hout : t ∉ front := by
      intro hmem
      exact (List.nodup_append.mp hl).2.2 t hmem t (List.mem_singleton_self t) rfl
    exact seg_append.mpr ⟨some t, (seg_update hout).mpr hseg, rfl, Function.update_self ..⟩

/-- Nodes linked in the order of their numbers. -/
theorem Chain.range' {next : ℕ → Option ℕ} {m : ℕ}
    (hend : next (m - 1) = none) : ∀ n lo, lo + (n + 1) = m →
      (∀ i, lo ≤ i → i < m - 1 → next i = some (i + 1)) →
      Chain next (some lo) (List.range' lo (n + 1)) := by
  intro n
  induction n with
  | zero =>
    intro lo hlo _
    have hlast : next lo = none := by
      rw [← hend]
      congr 1
      omega
    exact ⟨rfl, hlast⟩
  | succ n ih =>
    intro lo hlo hlink
    refine ⟨rfl, ?_⟩
    rw [hlink lo le_rfl (by omega)]
    exact ih (lo + 1) (by omega) fun i hi hlt => hlink i (by omega) hlt

/-! ### Several chains in the same nodes -/

/-- `lists h` is the chain that starts at `h`, for each `h` of `heads`. -/
def Chains (next : ι → Option ι) (heads : List ι) (lists : ι → List ι) : Prop :=
  ∀ h ∈ heads, Chain next (some h) (lists h)

theorem Chains.congr {heads : List ι} {lists : ι → List ι}
    (h : ∀ p ∈ heads, ∀ a ∈ lists p, next' a = next a) (hc : Chains next heads lists) :
    Chains next' heads lists :=
  fun p hp => (seg_congr (h p hp)).mpr (hc p hp)

theorem Chains.erase [DecidableEq ι] {heads : List ι} {lists : ι → List ι}
    (hc : Chains next heads lists) (h : ι) : Chains next (heads.erase h) lists :=
  fun p hp => hc p (List.mem_of_mem_erase hp)

/-- One more chain, apart from the others (an empty one has no head to add). -/
theorem Chains.add [DecidableEq ι] {heads : List ι} {lists : ι → List ι} {p : Option ι}
    {l : List ι} (hc : Chains next heads lists) (hl : Chain next p l)
    (hapart : ∀ h ∈ heads, ∀ a ∈ lists h, a ∉ l) :
    ∃ lists', Chains next (p.toList ++ heads) lists' ∧
      (p.toList ++ heads).flatMap lists' = l ++ heads.flatMap lists ∧
      (∀ h ∈ heads, lists' h = lists h) ∧ ∀ h, p = some h → lists' h = l := by
  cases l with
  | nil =>
    obtain rfl : p = none := hl
    exact ⟨lists, hc, rfl, fun _ _ => rfl, by simp⟩
  | cons a l =>
    obtain rfl : p = some a := hl.1
    have hne : ∀ h ∈ heads, h ≠ a := by
      rintro h hh rfl
      have hmem : h ∈ lists h := by
        have hhead := (hc h hh).head
        exact List.mem_of_mem_head? (Option.mem_def.mpr hhead.symm)
      exact hapart h hh h hmem List.mem_cons_self
    have hold : ∀ h ∈ heads, Function.update lists a (a :: l) h = lists h := fun h hh =>
      Function.update_of_ne (hne h hh) _ _
    refine ⟨Function.update lists a (a :: l), ?_, ?_, hold, ?_⟩
    · intro h hh
      rcases List.mem_cons.mp hh with rfl | hh
      · rw [Function.update_self]
        exact hl
      · rw [hold h hh]
        exact hc h hh
    · show (a :: heads).flatMap _ = _
      rw [List.flatMap_cons, Function.update_self, List.flatMap_congr hold]
    · intro h hh
      obtain rfl := Option.some.inj hh
      exact Function.update_self _ _ _

/-- The nodes of one chain and of the others. -/
theorem flatMap_erase [DecidableEq ι] {heads : List ι} {h : ι} (hh : h ∈ heads)
    (lists : ι → List ι) :
    ((heads.flatMap lists : List ι) : Multiset ι) =
      (lists h : Multiset ι) + ((heads.erase h).flatMap lists : List ι) := by
  rw [Multiset.coe_add, Multiset.coe_eq_coe]
  exact (List.perm_cons_erase hh).flatMap_right lists

end LinkedChain
