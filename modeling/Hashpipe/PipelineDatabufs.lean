import Hashpipe.Databuf.OwnIds
import Hashpipe.IpcKey

/-!
# The databufs that a pipeline makes

`hashpipe_thread_init` for the threads of a pipeline, in the order in which `main` initialises
them, as far as the databufs go: each thread creates its input and output databufs, if it has
them, under the numbers that `main` gives to the thread.  The numbers are those of
`hashpipe.c`'s `input_buffer` and `output_buffer` (`started_numbers`).

A key that is `IPC_PRIVATE` makes a new databuf each time, which no key leads to.
-/

namespace Hashpipe.PipelineDatabufs

open SysVIpc Databuf CommandLine IpcKey Status

/-- At a key, or made with `IPC_PRIVATE` as the `j`th. -/
inductive Place
  | key (key : Int32)
  | unkeyed (j : ℕ)
  deriving DecidableEq

/-- The segments and semaphore sets of the system, and how many databufs were made without a
key. -/
structure IpcSystem where
  objects : IpcNamespace Place Header
  unkeyed : ℕ

/-- The objects at a key become `k`. -/
def IpcSystem.putKeyed (s : IpcSystem) (key : Int32) (k : Ipc Header) : IpcSystem :=
  { s with objects := Function.update s.objects (.key key) k }

/-- `k` is made without a key. -/
def IpcSystem.addUnkeyed (s : IpcSystem) (k : Ipc Header) : IpcSystem :=
  ⟨Function.update s.objects (.unkeyed s.unkeyed) k, s.unkeyed + 1⟩

section Places

variable (s : IpcSystem) (key : Int32) (k : Ipc Header) {j : ℕ}

@[simp] theorem IpcSystem.putKeyed_self : (s.putKeyed key k).objects (.key key) = k :=
  Function.update_self _ _ _

theorem IpcSystem.putKeyed_other {other : Int32} (h : other ≠ key) :
    (s.putKeyed key k).objects (.key other) = s.objects (.key other) :=
  Function.update_of_ne (by simpa using h) _ _

@[simp] theorem IpcSystem.putKeyed_unkeyed :
    (s.putKeyed key k).objects (.unkeyed j) = s.objects (.unkeyed j) := by
  have hne : Place.unkeyed j ≠ .key key := by simp
  exact Function.update_of_ne hne k s.objects

@[simp] theorem IpcSystem.addUnkeyed_key :
    (s.addUnkeyed k).objects (.key key) = s.objects (.key key) := by
  have hne : Place.key key ≠ .unkeyed s.unkeyed := by simp
  exact Function.update_of_ne hne k s.objects

@[simp] theorem IpcSystem.addUnkeyed_self :
    (s.addUnkeyed k).objects (.unkeyed s.unkeyed) = k := Function.update_self _ _ _

theorem IpcSystem.addUnkeyed_other (h : j ≠ s.unkeyed) :
    (s.addUnkeyed k).objects (.unkeyed j) = s.objects (.unkeyed j) :=
  Function.update_of_ne (by simpa using h) _ _

end Places

/-- A call of `hashpipe_databuf_create` in a thread's `create` function. -/
structure DatabufCreate where
  args : CreateArgs
  heap : ℕ → ℕ
  answers : CreateCall → IpcAnswer

/-- What `create` is in `ibuf_desc` and `obuf_desc` of a thread. -/
structure PipelineThread where
  ibuf : Option DatabufCreate
  obuf : Option DatabufCreate

/-- `hashpipe_databuf_create`, `base` being the instance's `hashpipe_databuf_key`; `none` if it
returns NULL. -/
def createDatabuf (base : Int32) (databuf_id : ℕ) (c : DatabufCreate) (s : IpcSystem) :
    Option IpcSystem :=
  if base = hashpipeKeyError then none
  else if databufKey base databuf_id = ipcPrivate then
    let r := hashpipeDatabufCreate c.args c.heap c.answers (s.objects (.unkeyed s.unkeyed))
    if r.1.isDatabuf then some (s.addUnkeyed r.2) else none
  else
    let key := databufKey base databuf_id
    let r := hashpipeDatabufCreate c.args c.heap c.answers (s.objects (.key key))
    if r.1.isDatabuf then some (s.putKeyed key r.2) else none

/-- `if(create) ... = create(instance_id, ...)`. -/
def createIf (base : Int32) (databuf_id : ℕ) : Option DatabufCreate → IpcSystem → Option IpcSystem
  | none, s => some s
  | some c, s => createDatabuf base databuf_id c s

/-- The threads from number `k` on; `none` if one cannot be initialised. -/
def createDatabufs (base : Int32) : ℕ → List PipelineThread → IpcSystem → Option IpcSystem
  | _, [], s => some s
  | k, t :: ts, s =>
    match createIf base k t.ibuf s with
    | none => none
    | some s =>
      match createIf base (k + 1) t.obuf s with
      | none => none
      | some s => createDatabufs base (k + 1) ts s

/-- The databuf of number `databuf_id`, if there is one. -/
def numbered (databuf_id : ℕ) (c : Option DatabufCreate) : List ℕ :=
  if c.isSome then [databuf_id] else []

/-- The numbers of the databufs of the threads from number `k` on. -/
def databufIds : ℕ → List PipelineThread → List ℕ
  | _, [] => []
  | k, t :: ts => numbered k t.ibuf ++ (numbered (k + 1) t.obuf ++ databufIds (k + 1) ts)

/-- No databuf of the instance is there. -/
structure NoDatabufs (base : Int32) (n : IpcNamespace Place Header) : Prop where
  keyed : ∀ databuf_id ≤ maxHashpipeThreads, n (.key (databufKey base databuf_id)) = Ipc.empty
  unkeyed : ∀ j, n (.unkeyed j) = Ipc.empty

/-! ### The numbers -/

theorem databufKey_inj {base : Int32} {a b : ℕ} (ha : a ≤ maxHashpipeThreads)
    (hb : b ≤ maxHashpipeThreads) (h : databufKey base a = databufKey base b) : a = b := by
  have ha' : a ≤ 1024 := ha
  have hb' : b ≤ 1024 := hb
  have hadd : base + Int32.ofNat a = base + Int32.ofNat b := by
    have hsub := congrArg (· + 1) h
    simpa [databufKey] using hsub
  have hof : Int32.ofNat a = Int32.ofNat b := by
    have hneg := congrArg (fun x => -base + x) hadd
    simpa [← add_assoc] using hneg
  have hint := congrArg Int32.toInt hof
  rw [Int32.toInt_ofNat_of_lt (by omega), Int32.toInt_ofNat_of_lt (by omega)] at hint
  exact Nat.cast_injective hint

theorem mem_databufIds {id : ℕ} (pipeline : List PipelineThread) : ∀ {k : ℕ},
    id ∈ databufIds k pipeline ↔ ∃ j t, pipeline[j]? = some t ∧
      (t.ibuf.isSome ∧ id = k + j ∨ t.obuf.isSome ∧ id = k + j + 1) := by
  induction pipeline with
  | nil =>
    intro k
    simp [databufIds]
  | cons t ts ih =>
    intro k
    have hnum : ∀ (i : ℕ) (c : Option DatabufCreate), id ∈ numbered i c ↔ c.isSome ∧ id = i := by
      intro i c
      cases c <;> simp [numbered]
    rw [databufIds, List.mem_append, List.mem_append, hnum, hnum, ih]
    constructor
    · intro h
      rcases h with h | h | ⟨j, t', ht', h⟩
      · exact ⟨0, t, rfl, .inl h⟩
      · exact ⟨0, t, rfl, .inr h⟩
      · refine ⟨j + 1, t', ht', ?_⟩
        rwa [show k + (j + 1) = k + 1 + j from by omega]
    · rintro ⟨j, t', ht', h⟩
      cases j with
      | zero =>
        cases ht'
        exact h.imp_right .inl
      | succ j =>
        rw [show k + (j + 1) = k + 1 + j from by omega] at h
        exact .inr (.inr ⟨j, t', ht', h⟩)

theorem databufIds_le {k id : ℕ} {pipeline : List PipelineThread}
    (h : id ∈ databufIds k pipeline) : id ≤ k + pipeline.length := by
  obtain ⟨j, t, ht, hid⟩ := (mem_databufIds pipeline).mp h
  have hj : j < pipeline.length := (List.getElem?_eq_some_iff.mp ht).1
  omega

/-! ### What is there after the threads are initialised -/

/-- The databufs `ids` and no others are there, and their headers name their objects. -/
structure Holds (base : Int32) (ids : List ℕ) (s : IpcSystem) : Prop where
  hasKey : ∀ i ∈ ids, base ≠ hashpipeKeyError
  made : ∀ i ∈ ids, databufKey base i ≠ ipcPrivate →
    Complete (s.objects (.key (databufKey base i)))
  others : ∀ i ≤ maxHashpipeThreads, i ∉ ids ∨ databufKey base i = ipcPrivate →
    s.objects (.key (databufKey base i)) = Ipc.empty
  unkeyed : ∀ j < s.unkeyed, Complete (s.objects (.unkeyed j))
  unkeyed_free : ∀ j, s.unkeyed ≤ j → s.objects (.unkeyed j) = Ipc.empty
  unkeyed_iff : 0 < s.unkeyed ↔ ∃ i ∈ ids, databufKey base i = ipcPrivate

section Creation

variable {base : Int32} {ids : List ℕ} {s s' : IpcSystem} {i : ℕ}

theorem holds_nil {n : IpcNamespace Place Header} (h : NoDatabufs base n) :
    Holds base [] ⟨n, 0⟩ where
  hasKey := by
    intro i hi
    cases hi
  made := by
    intro i hi
    cases hi
  others := fun i hi _ => h.keyed i hi
  unkeyed := fun j hj => absurd hj (Nat.not_lt_zero j)
  unkeyed_free := fun j _ => h.unkeyed j
  unkeyed_iff := by simp

/-- A databuf made at its key. -/
theorem Holds.keyed (h : Holds base ids s) (hi : i ≤ maxHashpipeThreads)
    (hids : ∀ j ∈ ids, j ≤ maxHashpipeThreads) (hbase : base ≠ hashpipeKeyError)
    (hkey : databufKey base i ≠ ipcPrivate) {k : Ipc Header}
    (hk : Complete k) : Holds base (ids ++ [i]) (s.putKeyed (databufKey base i) k) where
  hasKey := fun _ _ => hbase
  made := by
    intro j hj hj'
    by_cases hji : j = i
    · rw [hji, IpcSystem.putKeyed_self]
      exact hk
    · have hold : j ∈ ids := by simpa [hji] using hj
      rw [IpcSystem.putKeyed_other _ _ _ fun heq => hji (databufKey_inj (hids j hold) hi heq)]
      exact h.made j hold hj'
  others := by
    intro j hj hother
    have hne : databufKey base j ≠ databufKey base i := by
      intro heq
      have hji := databufKey_inj hj hi heq
      subst hji
      exact hother.elim (fun hout => hout (by simp)) hkey
    rw [IpcSystem.putKeyed_other _ _ _ hne]
    exact h.others j hj (hother.imp_left fun hout hin => hout (List.mem_append_left _ hin))
  unkeyed := by
    intro j hj
    rw [IpcSystem.putKeyed_unkeyed]
    exact h.unkeyed j hj
  unkeyed_free := by
    intro j hj
    rw [IpcSystem.putKeyed_unkeyed]
    exact h.unkeyed_free j hj
  unkeyed_iff := by
    refine h.unkeyed_iff.trans ?_
    simp [hkey]

/-- A databuf made without a key. -/
theorem Holds.keyless (h : Holds base ids s) (hbase : base ≠ hashpipeKeyError)
    (hkey : databufKey base i = ipcPrivate) {k : Ipc Header} (hk : Complete k) :
    Holds base (ids ++ [i]) (s.addUnkeyed k) where
  hasKey := fun _ _ => hbase
  made := by
    intro j hj hj'
    have hold : j ∈ ids := by
      rcases List.mem_append.mp hj with hj | hj
      · exact hj
      · exact absurd (List.mem_singleton.mp hj ▸ hkey) hj'
    rw [IpcSystem.addUnkeyed_key]
    exact h.made j hold hj'
  others := by
    intro j hj hother
    rw [IpcSystem.addUnkeyed_key]
    exact h.others j hj (hother.imp_left fun hout hin => hout (List.mem_append_left _ hin))
  unkeyed := by
    intro j hj
    by_cases hjs : j = s.unkeyed
    · rw [hjs, IpcSystem.addUnkeyed_self]
      exact hk
    · rw [IpcSystem.addUnkeyed_other _ _ hjs]
      exact h.unkeyed j (lt_of_le_of_ne (Nat.lt_succ_iff.mp hj) hjs)
  unkeyed_free := by
    intro j hj
    have hlt : s.unkeyed < j := hj
    rw [IpcSystem.addUnkeyed_other _ _ hlt.ne']
    exact h.unkeyed_free j hlt.le
  unkeyed_iff := iff_of_true (Nat.succ_pos _) ⟨i, by simp, hkey⟩

/-- One databuf is created. -/
theorem Holds.create (h : Holds base ids s) (hi : i ≤ maxHashpipeThreads)
    (hids : ∀ j ∈ ids, j ≤ maxHashpipeThreads) {c : DatabufCreate}
    (hc : createDatabuf base i c s = some s') : Holds base (ids ++ [i]) s' := by
  rw [createDatabuf] at hc
  split at hc
  · cases hc
  rename_i hbase
  by_cases hkey : databufKey base i = ipcPrivate
  · have hfree := h.unkeyed_free s.unkeyed le_rfl
    rw [if_pos hkey, hfree] at hc
    simp only at hc
    split at hc
    · rename_i hdatabuf
      cases hc
      exact h.keyless hbase hkey (hashpipeDatabufCreate_complete namesSegment_empty hdatabuf)
    · cases hc
  · have hnames : NamesSegment (s.objects (.key (databufKey base i))) := by
      by_cases hin : i ∈ ids
      · exact (h.made i hin hkey).namesSegment
      · rw [h.others i hi (.inl hin)]
        exact namesSegment_empty
    rw [if_neg hkey] at hc
    simp only at hc
    split at hc
    · rename_i hdatabuf
      cases hc
      exact h.keyed hi hids hbase hkey (hashpipeDatabufCreate_complete hnames hdatabuf)
    · cases hc

theorem Holds.createIf (h : Holds base ids s) (hi : i ≤ maxHashpipeThreads)
    (hids : ∀ j ∈ ids, j ≤ maxHashpipeThreads) {c : Option DatabufCreate}
    (hc : createIf base i c s = some s') : Holds base (ids ++ numbered i c) s' := by
  cases c with
  | none =>
    cases hc
    rw [show numbered i none = [] from rfl, List.append_nil]
    exact h
  | some c => exact h.create hi hids hc

theorem numbered_le (c : Option DatabufCreate) (hi : i ≤ maxHashpipeThreads) :
    ∀ j ∈ numbered i c, j ≤ maxHashpipeThreads := by
  intro j hj
  cases c with
  | none => cases hj
  | some c =>
    rw [List.mem_singleton.mp hj]
    exact hi

/-- All threads are initialised. -/
theorem Holds.createDatabufs (pipeline : List PipelineThread) :
    ∀ {k : ℕ} {ids : List ℕ} {s : IpcSystem}, Holds base ids s →
      (∀ j ∈ ids, j ≤ maxHashpipeThreads) → k + pipeline.length ≤ maxHashpipeThreads →
      createDatabufs base k pipeline s = some s' → Holds base (ids ++ databufIds k pipeline) s' := by
  induction pipeline with
  | nil =>
    intro k ids s h _ _ hc
    cases hc
    rw [databufIds, List.append_nil]
    exact h
  | cons t ts ih =>
    intro k ids s h hids hlen hc
    have hlen' : k + 1 + ts.length ≤ maxHashpipeThreads := by
      rw [List.length_cons] at hlen
      omega
    rw [PipelineDatabufs.createDatabufs] at hc
    split at hc
    · cases hc
    rename_i s₁ hibuf
    split at hc
    · cases hc
    rename_i s₂ hobuf
    have hids₁ : ∀ j ∈ ids ++ numbered k t.ibuf, j ≤ maxHashpipeThreads := by
      intro j hj
      exact (List.mem_append.mp hj).elim (hids j) (numbered_le t.ibuf (by omega) j)
    have hids₂ : ∀ j ∈ ids ++ numbered k t.ibuf ++ numbered (k + 1) t.obuf,
        j ≤ maxHashpipeThreads := by
      intro j hj
      exact (List.mem_append.mp hj).elim (hids₁ j) (numbered_le t.obuf (by omega) j)
    have hstep := (h.createIf (by omega) hids hibuf).createIf (by omega) hids₁ hobuf
    have hrest := ih hstep hids₂ hlen' hc
    rwa [List.append_assoc, List.append_assoc] at hrest

/-- What a pipeline leaves is the databufs of its threads, each with its own identifiers. -/
theorem pipeline_holds {n : IpcNamespace Place Header} {pipeline : List PipelineThread}
    (hn : NoDatabufs base n) (hlen : pipeline.length ≤ maxHashpipeThreads)
    (h : createDatabufs base 0 pipeline ⟨n, 0⟩ = some s) :
    Holds base (databufIds 0 pipeline) s :=
  Holds.createDatabufs pipeline (holds_nil hn) (fun _ hj => by cases hj) (by omega) h

end Creation

end Hashpipe.PipelineDatabufs
