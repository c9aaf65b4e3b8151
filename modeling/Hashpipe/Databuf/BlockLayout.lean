import Hashpipe.Databuf.Create

/-!
# The blocks of a databuf in its segment

`hashpipe_databuf_data` finds a block from the sizes in the header, and the segment was
made for the sum of the same sizes.  Both are computed in `size_t`, the block count being a
signed `int`.

* `SizedInv`: when `hashpipe_databuf_create` returns a databuf its header holds the sizes
  that were asked for, and `shmget` and `semget` have seen to it that neither the rounded
  size nor the block count is useless;
* `pageAligned_isLeast`: the rounding up to whole pages;
* `block_layout_iff`: the blocks are where they should be exactly when the exact sum of the
  sizes fits in a `size_t`.
-/

namespace Hashpipe.Databuf

open SysVIpc

/-- Where block `block_id` starts, counted from the start of the segment: the address
arithmetic of `(char *)d + d->header_size + d->block_size*block_id`. -/
def hashpipeDatabufData (h : Header) (block_id : ℤ) : ℕ :=
  (h.header_size + h.block_size * sizeOfInt block_id) % 2 ^ 64

/-- The page size on the huge page paths. -/
def Path.page : Path → Option ℕ
  | .gb1 => some (2 ^ 30)
  | .mb2 => some (2 ^ 21)
  | .normal => none
  | .existing => none

/-- The databuf with header `h` keeps its blocks apart, behind the header and inside the
`requested` bytes; on the huge page paths these are the fewest whole pages that hold it. -/
structure LayoutGood (h : Header) (path : Path) (requested : ℕ) : Prop where
  disjoint : ∀ i j : ℤ, 0 ≤ i → i < h.n_block → 0 ≤ j → j < h.n_block → i ≠ j →
    hashpipeDatabufData h i + h.block_size ≤ hashpipeDatabufData h j ∨
      hashpipeDatabufData h j + h.block_size ≤ hashpipeDatabufData h i
  behind_header : ∀ i : ℤ, 0 ≤ i → i < h.n_block →
    sizeofHashpipeDatabufT ≤ hashpipeDatabufData h i
  inside : ∀ i : ℤ, 0 ≤ i → i < h.n_block → hashpipeDatabufData h i + h.block_size ≤ requested
  least : ∀ page, path.page = some page →
    IsLeast {m : ℕ | page ∣ m ∧ (h.header_size + h.block_size * h.n_block : ℤ) ≤ m} requested

/-! ### What is known at each point of `hashpipe_databuf_create` -/

/-- The path that has been taken, once there is a segment. -/
def CreatePc.path : CreatePc → Option Path
  | .attach path | .lock path | .zero path | .store path _ | .semget path | .storeSemid path _
  | .checkSemid path | .setAll path | .returned path => some path
  | .verify _ => some .existing
  | _ => none

/-- The sizes in the header that have been verified or stored. -/
def CreatePc.sized : CreatePc → SizeField → Bool
  | .verify .block_size, .header_size => true
  | .verify .n_block, .header_size | .verify .n_block, .block_size => true
  | .lock .existing, _ => true
  | .store _ .n_block, .header_size => true
  | .store _ .block_size, .header_size | .store _ .block_size, .n_block => true
  | .store _ .data_type, _ => true
  | .semget _, _ | .storeSemid _ _, _ | .checkSemid _, _ | .setAll _, _ | .returned _, _ => true
  | _, _ => false

/-- The size that a store fills in. -/
def HeaderField.size : HeaderField → Option SizeField
  | .header_size => some .header_size
  | .n_block => some .n_block
  | .block_size => some .block_size
  | _ => none

/-- `semget` has accepted the block count. -/
def CreatePc.counted (k : Ipc Header) : CreatePc → Prop
  | .storeSemid _ rv => rv ≠ -1
  | .checkSemid _ => (mapped k).semid ≠ -1
  | .setAll _ | .returned _ => True
  | _ => False

structure SizedInv (p : CreateArgs) (pc : CreatePc) (k : Ipc Header) : Prop where
  header_size : pc ≠ .start → pc ≠ .mismatch → pc ≠ .failed →
    sizeofHashpipeDatabufT ≤ p.header_size
  attached : ∀ path, pc.path = some path → ∃ seg, k.shm = some seg
  requested : ∀ path, pc.path = some path → path ≠ .existing → p.requested path ≠ 0
  sized : ∀ field, pc.sized field = true → (mapped k).sizing field = p.sizing field
  counted : pc.counted k → 0 ≤ p.n_block

section Sized

variable {p : CreateArgs} {heap : ℕ → ℕ} {k : Ipc Header} {pc : CreatePc}

theorem mapped_write {seg : Segment Header} (h : k.shm = some seg) (f : Header → Header) :
    mapped (k.write f) = f (mapped k) := by
  rw [mapped, mapped, Ipc.write_shm h, h]

theorem mapped_of_shm {k' : Ipc Header} (h : k'.shm = k.shm) : mapped k' = mapped k := by
  rw [mapped, mapped, h]

/-- A call that is over and has returned NULL promises nothing. -/
theorem sizedInv_null (h : pc = .failed ∨ pc = .mismatch) : SizedInv p pc k := by
  rcases h with rfl | rfl
  · exact ⟨by simp, by simp [CreatePc.path], by simp [CreatePc.path], by simp [CreatePc.sized],
      by simp [CreatePc.counted]⟩
  · exact ⟨by simp, by simp [CreatePc.path], by simp [CreatePc.path], by simp [CreatePc.sized],
      by simp [CreatePc.counted]⟩

/-- One of the three attempts has made the segment. -/
theorem sizedInv_made {path : Path} {id : ℕ} (hheader : sizeofHashpipeDatabufT ≤ p.header_size)
    (hsize : p.requested path ≠ 0) :
    SizedInv p (.attach path)
      { k with shm := some ⟨id, p.requested path, Header.zeros⟩ } := by
  refine ⟨fun _ _ _ => hheader, fun _ _ => ⟨_, rfl⟩, ?_, by simp [CreatePc.sized],
    by simp [CreatePc.counted]⟩
  intro path' hpath _
  cases hpath
  exact hsize

/-- The attempts made before there is a segment. -/
theorem sizedInv_try (hheader : sizeofHashpipeDatabufT ≤ p.header_size)
    (hpath : pc.path = none) (hsized : ∀ field, pc.sized field = false) :
    SizedInv p pc k := by
  refine ⟨fun _ _ _ => hheader, ?_, ?_, ?_, ?_⟩
  · intro path h
    exact absurd (hpath.symm.trans h) (by simp)
  · intro path h
    exact absurd (hpath.symm.trans h) (by simp)
  · intro field h
    exact absurd ((hsized field).symm.trans h) (by simp)
  · intro h
    cases pc <;> simp_all [CreatePc.counted, CreatePc.path]

/-- A step to a point on the same path that leaves the segment as it is. -/
theorem SizedInv.move (hi : SizedInv p pc k) {pc' : CreatePc} {k' : Ipc Header} {path : Path}
    (hpath : pc.path = some path) (hpath' : pc'.path = some path) (hk : k'.shm = k.shm)
    (hsized : ∀ field, pc'.sized field = true → pc.sized field = true ∨
      (mapped k).sizing field = p.sizing field)
    (hcounted : pc'.counted k' → 0 ≤ p.n_block) : SizedInv p pc' k' := by
  have hheader : sizeofHashpipeDatabufT ≤ p.header_size := by
    apply hi.header_size <;> rintro rfl <;> simp [CreatePc.path] at hpath
  refine ⟨fun _ _ _ => hheader, ?_, ?_, ?_, hcounted⟩
  · intro path' _
    rw [hk]
    exact hi.attached path hpath
  · intro path' h
    cases hpath'.symm.trans h
    exact hi.requested path hpath
  · intro field h
    rw [mapped_of_shm hk]
    rcases hsized field h with hold | hnew
    · exact hi.sized field hold
    · exact hnew

/-- A step that writes the header. -/
theorem SizedInv.write (hi : SizedInv p pc k) {pc' : CreatePc} {path : Path} (f : Header → Header)
    (hpath : pc.path = some path) (hpath' : pc'.path = some path)
    (hsized : ∀ field, pc'.sized field = true → (f (mapped k)).sizing field = p.sizing field)
    (hcounted : pc'.counted (k.write f) → 0 ≤ p.n_block) : SizedInv p pc' (k.write f) := by
  have hheader : sizeofHashpipeDatabufT ≤ p.header_size := by
    apply hi.header_size <;> rintro rfl <;> simp [CreatePc.path] at hpath
  obtain ⟨seg, hseg⟩ := hi.attached path hpath
  refine ⟨fun _ _ _ => hheader, fun _ _ => ⟨_, Ipc.write_shm hseg f⟩, ?_, ?_, hcounted⟩
  · intro path' h
    cases hpath'.symm.trans h
    exact hi.requested path hpath
  · intro field h
    rw [mapped_write hseg]
    exact hsized field h

theorem sizing_store (h : Header) (shmid : ℤ) (field : HeaderField) (f : SizeField) :
    (h.store p shmid field).sizing f = if field.size = some f then p.sizing f else h.sizing f := by
  cases field <;> cases f <;> rfl

/-- Behind a store one more size is known, if it was the store of a size. -/
theorem sized_store (path : Path) (field : HeaderField) (f : SizeField) :
    (storeNext path field).sized f = true ↔
      field.size = some f ∨ (CreatePc.store path field).sized f = true := by
  cases field <;> cases f <;>
    simp [storeNext, HeaderField.next, HeaderField.size, CreatePc.sized]

theorem storeNext_path (path : Path) (field : HeaderField) :
    (storeNext path field).path = some path := by
  cases field <;> rfl

/-- Behind a comparison one more size is known. -/
theorem sized_verify {field field' f : SizeField} (hnext : field.next = some field')
    (hf : (CreatePc.verify field').sized f = true) :
    f = field ∨ (CreatePc.verify field).sized f = true := by
  cases field <;> simp only [SizeField.next, Option.some.injEq, reduceCtorEq] at hnext <;>
    subst hnext <;> cases f <;> simp_all [CreatePc.sized]

/-- Behind the last of them all sizes are known. -/
theorem sized_verifyAll {field : SizeField} (hnext : field.next = none) (f : SizeField) :
    f = field ∨ (CreatePc.verify field).sized f = true := by
  cases field <;> simp only [SizeField.next, reduceCtorEq] at hnext
  cases f <;> simp [CreatePc.sized]

/-- **One step of a process that runs alone keeps the sizes.** -/
theorem SizedInv.step (hi : SizedInv p pc k) {pc' : CreatePc} {k' : Ipc Header}
    (hmove : CreateMove p k pc pc' k') : SizedInv p pc' k' := by
  cases hmove with
  | stays => exact hi
  | fails => exact sizedInv_null (.inl rfl)
  | keyed hheader => exact sizedInv_try hheader rfl fun _ => rfl
  | there => exact sizedInv_try (hi.header_size (by simp) (by simp) (by simp)) rfl fun _ => rfl
  | no1GB => exact sizedInv_try (hi.header_size (by simp) (by simp) (by simp)) rfl fun _ => rfl
  | no2MB => exact sizedInv_try (hi.header_size (by simp) (by simp) (by simp)) rfl fun _ => rfl
  | made id hpath hsize _ =>
    refine sizedInv_made (hi.header_size ?_ ?_ ?_) hsize <;> rintro rfl <;> cases hpath
  | found hseg =>
    refine ⟨fun _ _ _ => hi.header_size (by simp) (by simp) (by simp), fun _ _ => ⟨_, hseg⟩, ?_,
      by simp [CreatePc.sized], by simp [CreatePc.counted]⟩
    intro path hpath hne
    cases hpath
    exact absurd rfl hne
  | attachedOld =>
    exact hi.move rfl rfl rfl (by simp [CreatePc.sized]) (by simp [CreatePc.counted])
  | @attachedNew path hnew =>
    refine hi.move rfl rfl rfl ?_ (by simp [CreatePc.counted])
    intro field h
    cases path <;> simp_all [CreatePc.sized]
  | verified hsame hnext =>
    refine hi.move rfl rfl rfl ?_ (by simp [CreatePc.counted])
    intro f hf
    rcases sized_verify hnext hf with rfl | hold
    · exact .inr hsame
    · exact .inl hold
  | verifiedAll hsame hnext =>
    refine hi.move rfl rfl rfl ?_ (by simp [CreatePc.counted])
    intro f _
    rcases sized_verifyAll hnext f with rfl | hold
    · exact .inr hsame
    · exact .inl hold
  | differs => exact sizedInv_null (.inr rfl)
  | lockedOld => exact hi.move rfl rfl rfl (fun _ _ => .inl rfl) (by simp [CreatePc.counted])
  | lockedNew => exact hi.move rfl rfl rfl (by simp [CreatePc.sized]) (by simp [CreatePc.counted])
  | zeroed => exact hi.write _ rfl rfl (by simp [CreatePc.sized]) (by simp [CreatePc.counted])
  | @stored path field =>
    refine hi.write _ rfl (storeNext_path path field) ?_ ?_
    · intro f hf
      rw [sizing_store]
      split
      · rfl
      · rename_i hother
        exact hi.sized f (((sized_store path field f).mp hf).resolve_left hother)
    · cases field <;> simp [storeNext, HeaderField.next, CreatePc.counted]
  | gotSem hcount hshm => exact hi.move rfl rfl hshm (fun _ _ => .inl rfl) fun _ => hcount
  | noSem => exact hi.move rfl rfl rfl (fun _ _ => .inl rfl) fun h => absurd rfl h
  | storedSemid =>
    obtain ⟨seg, hseg⟩ := hi.attached _ rfl
    refine hi.write _ rfl rfl ?_ ?_
    · intro field _
      cases field with
      | header_size => exact hi.sized .header_size rfl
      | block_size => exact hi.sized .block_size rfl
      | n_block => exact hi.sized .n_block rfl
    · intro h
      simp only [CreatePc.counted, mapped_write hseg] at h
      exact hi.counted h
  | checked hsemid => exact hi.move rfl rfl rfl (fun _ _ => .inl rfl) fun _ => hi.counted hsemid
  | set hshm _ _ => exact hi.move rfl rfl hshm (fun _ _ => .inl rfl) fun _ => hi.counted trivial

/-- What a databuf that `hashpipe_databuf_create` returns looks like. -/
theorem hashpipeDatabufCreate_sized {ans : CreateCall → IpcAnswer} {path : Path}
    {k' : Ipc Header} (h : hashpipeDatabufCreate p heap ans k = (.returned path, k')) :
    SizedInv p (.returned path) k' := by
  have hstart : SizedInv p .start k :=
    ⟨by simp, by simp [CreatePc.path], by simp [CreatePc.path], by simp [CreatePc.sized],
      by simp [CreatePc.counted]⟩
  have hend : SizedInv p (createRun p heap ans CreatePc.start.rank .start k).1
      (createRun p heap ans CreatePc.start.rank .start k).2 :=
    createRun_invariant (I := SizedInv p) (fun _ _ hi => hi.step (createStep_move _)) _ hstart
  have hrun : createRun p heap ans CreatePc.start.rank .start k = (.returned path, k') := h
  rw [hrun] at hend
  exact hend

end Sized

/-! ### The arithmetic of the sizes -/

/-- The sum of the sizes without overflow. -/
def CreateArgs.exactSize (p : CreateArgs) : ℤ := p.header_size + p.block_size * p.n_block

/-- `total + ((-total) % page)` is `total` rounded up to whole pages, as long as that is not
2^64 itself. -/
theorem pageAligned_isLeast {total page : ℕ} (hpos : 0 < total) (hlt : total < 2 ^ 64)
    (hpage : page ∣ 2 ^ 64) (hne : (total + (2 ^ 64 - total) % 2 ^ 64 % page) % 2 ^ 64 ≠ 0) :
    IsLeast {m : ℕ | page ∣ m ∧ total ≤ m}
      ((total + (2 ^ 64 - total) % 2 ^ 64 % page) % 2 ^ 64) := by
  have hpage0 : 0 < page := Nat.pos_of_dvd_of_pos hpage (by decide)
  have hneg : (2 ^ 64 - total) % 2 ^ 64 = 2 ^ 64 - total := Nat.mod_eq_of_lt (by omega)
  rw [hneg] at hne ⊢
  have hsplit := Nat.mod_add_div (2 ^ 64 - total) page
  have hpad := Nat.mod_lt (2 ^ 64 - total) hpage0
  have hdvd : page ∣ total + (2 ^ 64 - total) % page := by
    have hsum : total + (2 ^ 64 - total) % page + page * ((2 ^ 64 - total) / page) = 2 ^ 64 := by
      omega
    exact (Nat.dvd_add_left (Nat.dvd_mul_right page _)).mp (hsum ▸ hpage)
  -- the sum does not wrap around: only 2^64 itself would, to zero
  have hwrap : (total + (2 ^ 64 - total) % page) % 2 ^ 64 = total + (2 ^ 64 - total) % page := by
    apply Nat.mod_eq_of_lt
    by_contra hbig
    have hexact : total + (2 ^ 64 - total) % page = 2 ^ 64 := by omega
    rw [hexact, Nat.mod_self] at hne
    exact hne rfl
  rw [hwrap]
  refine ⟨⟨hdvd, Nat.le_add_right _ _⟩, fun m hm => ?_⟩
  obtain ⟨hm, hle⟩ := hm
  by_contra hless
  have hgap := Nat.le_of_dvd (by omega) (Nat.dvd_sub hdvd hm)
  omega

section Arithmetic

variable {p : CreateArgs} {n : ℕ}

theorem sizeOfInt_natCast (h : n < 2 ^ 31) : sizeOfInt n = n := by
  rw [sizeOfInt]
  omega

theorem exactSize_natCast (hn : p.n_block = n) :
    p.exactSize = ((p.header_size + p.block_size * n : ℕ) : ℤ) := by
  rw [CreateArgs.exactSize, hn]
  push_cast
  rfl

theorem total_size_eq (hn : p.n_block = n) (hfit : p.exactSize < 2 ^ 64) :
    p.total_size = p.header_size + p.block_size * n := by
  have hlt := p.n_block_lt
  rw [exactSize_natCast hn] at hfit
  rw [CreateArgs.total_size, hn, sizeOfInt_natCast (by omega)]
  exact Nat.mod_eq_of_lt (by omega)

theorem requested_lt (p : CreateArgs) (path : Path) : p.requested path < 2 ^ 64 := by
  cases path <;> exact Nat.mod_lt _ (by decide)

theorem total_size_le_requested (hn : p.n_block = n) (hfit : p.exactSize < 2 ^ 64)
    (hheader : sizeofHashpipeDatabufT ≤ p.header_size) {path : Path}
    (hreq : path ≠ .existing → p.requested path ≠ 0) : p.total_size ≤ p.requested path := by
  have htotal := total_size_eq hn hfit
  have hpos : 0 < p.total_size := by
    rw [sizeofHashpipeDatabufT] at hheader
    omega
  have hlt : p.total_size < 2 ^ 64 := Nat.mod_lt _ (by decide)
  cases path with
  | gb1 => exact (pageAligned_isLeast hpos hlt (by decide) (hreq (by decide))).1.2
  | mb2 => exact (pageAligned_isLeast hpos hlt (by decide) (hreq (by decide))).1.2
  | normal => exact le_rfl
  | existing => exact le_rfl

/-- Multiples up to `n` in order. -/
theorem slot_le {b i j n : ℕ} (hij : i < j) (hj : j ≤ n) : b * i + b ≤ b * j ∧ b * j ≤ b * n := by
  constructor
  · rw [← Nat.mul_succ]
    exact Nat.mul_le_mul_left b hij
  · exact Nat.mul_le_mul_left b hj

/-- A databuf whose blocks are where they should be was not subject to overflow: each block
ends below 2^64, and so the next one starts where it should. -/
theorem exactSize_of_inside {h : Header} {requested : ℕ}
    (hheader : h.header_size < 2 ^ 64) (hn : h.n_block = n) (hn31 : n < 2 ^ 31)
    (hreq : requested < 2 ^ 64)
    (hinside : ∀ i : ℤ, 0 ≤ i → i < h.n_block →
      hashpipeDatabufData h i + h.block_size ≤ requested) :
    h.header_size + h.block_size * n < 2 ^ 64 := by
  have hprefix : ∀ m ≤ n, h.header_size + h.block_size * m < 2 ^ 64 := by
    intro m
    induction m with
    | zero => intro _; exact hheader
    | succ m ih =>
      intro hm
      have hblock := hinside m (by omega) (by omega)
      rw [hashpipeDatabufData, sizeOfInt_natCast (by omega), Nat.mod_eq_of_lt (ih (by omega))]
        at hblock
      rw [Nat.mul_succ]
      omega
  exact hprefix n le_rfl

end Arithmetic

/-- **The layout of a databuf that `hashpipe_databuf_create` returns.**  Its blocks are
apart, behind the header and inside the bytes asked for, and huge pages are asked for in the
least sufficient number, if and only if the exact sum of the sizes is below 2^64. -/
theorem block_layout_iff {p : CreateArgs} {heap : ℕ → ℕ} {ans : CreateCall → IpcAnswer}
    {k k' : Ipc Header} {path : Path}
    (h : hashpipeDatabufCreate p heap ans k = (.returned path, k')) :
    LayoutGood (mapped k') path (p.requested path) ↔ p.exactSize < 2 ^ 64 := by
  have hi := hashpipeDatabufCreate_sized h
  have hheader := hi.header_size (by simp) (by simp) (by simp)
  have hhs : (mapped k').header_size = p.header_size := Int.ofNat.inj (hi.sized .header_size rfl)
  have hbs : (mapped k').block_size = p.block_size := Int.ofNat.inj (hi.sized .block_size rfl)
  have hnb : (mapped k').n_block = p.n_block := hi.sized .n_block rfl
  obtain ⟨n, hn⟩ := Int.eq_ofNat_of_zero_le (hi.counted trivial)
  have hn31 : n < 2 ^ 31 := by
    have := p.n_block_lt
    omega
  constructor
  · intro hgood
    have hsum := exactSize_of_inside (n := n) (hhs ▸ p.header_size_lt) (hnb.trans hn) hn31
      (requested_lt p path) hgood.inside
    rw [hhs, hbs] at hsum
    rw [exactSize_natCast hn]
    exact_mod_cast hsum
  · intro hfit
    have htotal := total_size_eq hn hfit
    have hreq := total_size_le_requested hn hfit hheader (hi.requested path rfl)
    have hlt : p.total_size < 2 ^ 64 := Nat.mod_lt _ (by decide)
    have hdata : ∀ i : ℕ, i < n →
        hashpipeDatabufData (mapped k') i = p.header_size + p.block_size * i := by
      intro i hlt_n
      have hle := (slot_le (b := p.block_size) hlt_n le_rfl).1
      rw [hashpipeDatabufData, hhs, hbs, sizeOfInt_natCast (by omega)]
      exact Nat.mod_eq_of_lt (by omega)
    refine ⟨?_, ?_, ?_, ?_⟩
    · intro i j hi0 hin hj0 hjn hne
      obtain ⟨i, rfl⟩ := Int.eq_ofNat_of_zero_le hi0
      obtain ⟨j, rfl⟩ := Int.eq_ofNat_of_zero_le hj0
      rw [hdata i (by omega), hdata j (by omega), hbs]
      rcases Nat.lt_or_gt_of_ne (by omega : i ≠ j) with hij | hij
      · have hle := (slot_le (b := p.block_size) hij le_rfl).1
        exact .inl (by omega)
      · have hle := (slot_le (b := p.block_size) hij le_rfl).1
        exact .inr (by omega)
    · intro i hi0 hin
      obtain ⟨i, rfl⟩ := Int.eq_ofNat_of_zero_le hi0
      rw [hdata i (by omega)]
      omega
    · intro i hi0 hin
      obtain ⟨i, rfl⟩ := Int.eq_ofNat_of_zero_le hi0
      have hle := (slot_le (b := p.block_size) (i := i) (j := n) (by omega) le_rfl).1
      rw [hdata i (by omega), hbs]
      omega
    · intro page hpage
      have hset : ∀ m : ℕ, ((mapped k').header_size + (mapped k').block_size *
          (mapped k').n_block : ℤ) ≤ m ↔ p.total_size ≤ m := by
        intro m
        rw [hhs, hbs, hnb, hn, htotal]
        exact_mod_cast Iff.rfl
      have hpos : 0 < p.total_size := by
        rw [sizeofHashpipeDatabufT] at hheader
        omega
      simp only [hset]
      cases path with
      | gb1 =>
        cases hpage
        exact pageAligned_isLeast hpos hlt (by decide) (hi.requested .gb1 rfl (by decide))
      | mb2 =>
        cases hpage
        exact pageAligned_isLeast hpos hlt (by decide) (hi.requested .mb2 rfl (by decide))
      | normal => cases hpage
      | existing => cases hpage

/-- A small databuf takes one 2 MB page. -/
theorem block_layout_iff_smallArgs :
    LayoutGood (mapped (hashpipeDatabufCreate smallArgs (fun _ => 0) noHugePages noKey).2) .mb2
      2097152 := by
  have hcreate : hashpipeDatabufCreate smallArgs (fun _ => 0) noHugePages noKey =
      (.returned .mb2, (hashpipeDatabufCreate smallArgs (fun _ => 0) noHugePages noKey).2) :=
    Prod.ext (by decide) rfl
  exact (block_layout_iff hcreate).mpr (by decide)

theorem wrapping_bounds :
    96 < 2 ^ 64 ∧ 2 ^ 63 < 2 ^ 64 ∧ (-2 ^ 31 : ℤ) ≤ 2 ∧ (2 : ℤ) < 2 ^ 31 := by decide

/-- Sizes whose sum wraps around to 96: the segment holds the header and nothing else. -/
def wrappingArgs : CreateArgs := .ofBounds 96 (2 ^ 63) 2 wrapping_bounds

theorem wrapping_layout :
    (hashpipeDatabufCreate wrappingArgs (fun _ => 0) noHugePages noKey).1 = .returned .mb2 ∧
      ¬ LayoutGood (mapped (hashpipeDatabufCreate wrappingArgs (fun _ => 0) noHugePages noKey).2)
        .mb2 (wrappingArgs.requested .mb2) := by
  refine ⟨by decide, fun hgood => ?_⟩
  have hinside := hgood.inside 0 (by decide) (by decide)
  exact absurd hinside (by decide)

end Hashpipe.Databuf
