import PrettyOS.Mm.MunmapExact

/-!
Contract: which requests `do_mmap` can serve.
-/

namespace PrettyOS.Mm

namespace AddressSpace

variable {s : AddressSpace} {fuel addr len prot flags off : Nat} {chain : List Nat}

def protection (vmFlags : Nat) : Nat := vmFlags &&& (vmRead ||| vmWrite ||| vmExec)

def Honoured (s : AddressSpace) (chain : List Nat) (addr len prot off : Nat)
    (outcome : Option MmapOutcome) : Prop :=
  ∃ t chain', outcome = some (.returned addr t) ∧ t.Consistent chain' ∧
    (∀ x, (∃ q ∈ chain', t.Contains q x) ↔
      (∃ p ∈ chain, s.Contains p x) ∨ (addr ≤ x ∧ x < addr + pageAlign len)) ∧
    ∀ q ∈ chain', ∀ x, t.Contains q x → addr ≤ x → x < addr + pageAlign len →
      protection (t.vma q).vmFlags = protection prot ∧ t.fileOffset q x = addWord off (x - addr)

lemma Honoured.value_eq {value : Nat} {t : AddressSpace}
    (honoured : s.Honoured chain addr len prot off (some (.returned value t))) : value = addr := by
  obtain ⟨_, -, ran, -⟩ := honoured
  injection ran with outcome
  injection outcome

theorem mapFixed_of_type {kind : Nat} (isKind : flags &&& mapType = kind) :
    flags &&& mapFixed = kind &&& mapFixed := by
  have inType : mapFixed = mapType &&& mapFixed := rfl
  rw [← isKind, Nat.land_assoc, ← inType]

lemma mapFixed_of_proceed {file : Option File} (proceeds : mmapKind file flags = .proceed) :
    flags &&& mapFixed = 0 := by
  cases file with
  | none =>
    dsimp only [mmapKind] at proceeds
    split_ifs at proceeds
  | some file =>
    dsimp only [mmapKind] at proceeds
    split_ifs at proceeds with isPrivate
    exact mapFixed_of_type (not_not.mp isPrivate)

lemma refuse_einval {file : Option File} {error : Nat}
    (refuses : mmapKind file flags = .refuse error) : error = einval := by
  cases file with
  | none =>
    dsimp only [mmapKind] at refuses
    split_ifs at refuses
    exact (MmapKind.refuse.inj refuses).symm
  | some file =>
    dsimp only [mmapKind] at refuses
    split_ifs at refuses
    exact (MmapKind.refuse.inj refuses).symm

lemma doMmap_cases (kmalloc : Finset Nat → Nat) (file : Option File) :
    (len ≠ 0 ∧ pageAlign len = 0 ∧
      doMmap fuel kmalloc file addr len prot flags off s = some (.returned addr s)) ∨
    ((len = 0 ∨ pageAlign len ≠ 0) ∧
      (doMmap fuel kmalloc file addr len prot flags off s = some (.returned (failure einval) s) ∨
        doMmap fuel kmalloc file addr len prot flags off s = some .nullDereference ∨
        doMmap fuel kmalloc file addr len prot flags off s = some .doesNotReturn)) := by
  unfold doMmap
  by_cases noLength : len = 0
  · simp [noLength]
  by_cases noPages : pageAlign len = 0
  · simp [noLength, noPages]
  refine .inr ⟨.inr noPages, ?_⟩
  rw [if_neg noLength, if_neg noPages]
  by_cases high : addr > pageOffset ∨ pageAlign len > pageOffset ∨
      addWord addr (pageAlign len) > pageOffset
  · exact .inl (if_pos high)
  rw [if_neg high]
  cases kind : mmapKind file flags with
  | nullDereference => exact .inr (.inl rfl)
  | refuse error => exact .inl (by rw [refuse_einval kind])
  | proceed =>
    dsimp only
    rw [if_neg (not_not.mpr (mapFixed_of_proceed kind))]
    exact .inr (.inr rfl)

lemma pageAlign_ne_zero (pos : len ≠ 0) (inUser : len ≤ pageOffset) : pageAlign len ≠ 0 := by
  unfold pageAlign pageSize wordSize
  unfold pageOffset at inUser
  omega

lemma doMmap_privateFixed (kmalloc : Finset Nat → Nat) (file : File)
    (inUser : addr + len ≤ pageOffset) :
    doMmap fuel kmalloc (some file) addr len prot (mapPrivate ||| mapFixed) off s =
      some (.returned (failure einval) s) := by
  have kind : mmapKind (some file) (mapPrivate ||| mapFixed) = .refuse einval := rfl
  unfold doMmap
  rw [kind]
  dsimp only
  split_ifs with noLength noPages high
  · rfl
  · exact absurd noPages (pageAlign_ne_zero noLength (by omega))
  · rfl
  · rfl

/-- A fixed private request is refused, whatever the file, and so never honoured. -/
theorem doMmap_privateFixed_not_honoured (k : Allocator) (file : File)
    (inUser : addr + len ≤ pageOffset) :
    doMmap fuel k.kmalloc (some file) addr len prot (mapPrivate ||| mapFixed) off s =
        some (.returned (failure einval) s) ∧
      ¬ s.Honoured chain addr len prot off
        (doMmap fuel k.kmalloc (some file) addr len prot (mapPrivate ||| mapFixed) off s) := by
  have refused := @doMmap_privateFixed s fuel addr len prot off k.kmalloc file inUser
  refine ⟨refused, fun honoured => ?_⟩
  rw [refused] at honoured
  have same := honoured.value_eq
  have high : pageOffset < failure einval := by decide
  omega

def plainFile : File := ⟨fileRead, some fun _ s => (0, s)⟩

/-- The request for one free page behind the areas of a space. -/
theorem doMmap_privateFixed_onePage :
    0x4000 + 0x1000 ≤ pageOffset ∧ ¬ twoPages.Honoured [1] 0x4000 0x1000 vmRead 0
        (doMmap 4 bumpAllocator.kmalloc (some plainFile) 0x4000 0x1000 vmRead
          (mapPrivate ||| mapFixed) 0 twoPages) :=
  ⟨by decide, (doMmap_privateFixed_not_honoured bumpAllocator plainFile (by decide)).2⟩

/-- The same request returns `-EINVAL`. -/
theorem doMmap_refuses_onePage :
    twoPages.Mapped [1] ∧ (∃ mmap, plainFile.mmap = some mmap ∧ ∀ vma s, (mmap vma s).1 = 0) ∧
      doMmap 4 bumpAllocator.kmalloc (some plainFile) 0x4000 0x1000 vmRead
          (mapPrivate ||| mapFixed) 0 twoPages = some (.returned (failure einval) twoPages) ∧
      ¬ twoPages.Honoured [1] 0x4000 0x1000 vmRead 0
        (some (.returned (failure einval) twoPages)) :=
  ⟨twoPages_mapped, ⟨_, rfl, fun _ _ => rfl⟩, rfl,
    fun honoured => absurd honoured.value_eq (by decide)⟩

def alignUp (len : Nat) : Nat := (len + (pageSize - 1)) / pageSize * pageSize

lemma pageAlign_eq_zero_iff (pos : len ≠ 0) (inWord : len < wordSize) :
    pageAlign len = 0 ↔ wordSize - pageSize < len := by
  unfold pageAlign pageSize wordSize at *
  omega

lemma pageAlign_eq_alignUp (inWord : len < wordSize) (aligned : pageAlign len ≠ 0) :
    pageAlign len = alignUp len := by
  unfold pageAlign alignUp pageSize wordSize at *
  omega

lemma Accepted.below_iff (acc : Accepted addr len) :
    addr + alignUp len ≤ pageOffset ↔ addr + len < wordSize := by
  obtain ⟨_, -, _⟩ := acc
  unfold addWord alignUp wordSize pageOffset pageSize at *
  omega

lemma accepted_of_ne_einval {kmalloc : Finset Nat → Nat}
    (accepts : ∀ t, doMunmap fuel kmalloc addr len s ≠ some (failure einval, t)) :
    Accepted addr len := by
  by_contra refused
  refine accepts s ?_
  rw [doMunmap, if_pos]
  unfold Accepted at refused
  omega

/-- `MAP_FIXED` is a bit of `MAP_TYPE`, so the check of the type lets no fixed request through. -/
theorem mmapKind_fixed {file : Option File} (fixed : flags &&& mapFixed ≠ 0) :
    mmapKind file flags = .refuse einval := by
  cases kind : mmapKind file flags with
  | proceed => exact absurd (mapFixed_of_proceed kind) fixed
  | refuse error => rw [refuse_einval kind]
  | nullDereference =>
    cases file with
    | none =>
      dsimp only [mmapKind] at kind
      split_ifs at kind with isKind
      rcases isKind with isShared | isPrivate
      · exact absurd (mapFixed_of_type isShared) fixed
      · exact absurd (mapFixed_of_type isPrivate) fixed
    | some file =>
      dsimp only [mmapKind] at kind
      split_ifs at kind

theorem doMmap_fixed (kmalloc : Finset Nat → Nat) (file : Option File)
    (fixed : flags &&& mapFixed ≠ 0) (pages : pageAlign len ≠ 0) :
    doMmap fuel kmalloc file addr len prot flags off s = some (.returned (failure einval) s) := by
  unfold doMmap
  rw [mmapKind_fixed fixed, if_neg pages]
  dsimp only
  split_ifs <;> rfl

/-- Where a request is not refused, its sum has not come out above the kernel. -/
theorem range_of_ne_einval {kmalloc : Finset Nat → Nat} {file : Option File} (pos : len ≠ 0)
    (pages : pageAlign len ≠ 0)
    (accepts : ∀ t, doMmap fuel kmalloc file addr len prot flags off s ≠
      some (.returned (failure einval) t)) :
    addr ≤ pageOffset ∧ addWord addr (pageAlign len) ≤ pageOffset := by
  by_contra refused
  refine accepts s ?_
  unfold doMmap
  rw [if_neg pos, if_neg pages, if_pos]
  omega

theorem addWord_le_iff (inWord : len < wordSize) (pages : pageAlign len ≠ 0)
    (below : addr ≤ pageOffset ∧ addWord addr (pageAlign len) ≤ pageOffset) :
    addr + alignUp len ≤ pageOffset ↔ addr + alignUp len < wordSize := by
  rw [pageAlign_eq_alignUp inWord pages] at below
  unfold addWord wordSize pageOffset at *
  omega

/-- Whether the call answers with something else than `-EINVAL`, which is what it reports of a
mapping it has made. -/
def ReportsSuccess (outcome : Option MmapOutcome) : Prop :=
  ∃ value t, outcome = some (.returned value t) ∧ value ≠ failure einval

theorem reportsSuccess_iff (kmalloc : Finset Nat → Nat) (file : Option File) (pos : len ≠ 0) :
    ReportsSuccess (doMmap fuel kmalloc file addr len prot flags off s) ↔
      pageAlign len = 0 ∧ addr ≠ failure einval := by
  rcases @doMmap_cases s fuel addr len prot flags off kmalloc file with
    ⟨-, noPages, call⟩ | ⟨pages, call⟩
  · rw [call]
    constructor
    · rintro ⟨value, t, same, isValue⟩
      cases same
      exact ⟨noPages, isValue⟩
    · rintro ⟨-, isValue⟩
      exact ⟨addr, s, rfl, isValue⟩
  · refine iff_of_false ?_ fun success => pages.resolve_left pos success.1
    rintro ⟨value, t, same, isValue⟩
    rcases call with call | call | call
    · rw [call] at same
      cases same
      exact isValue rfl
    · rw [call] at same
      cases same
    · rw [call] at same
      cases same

/-- A fixed request is refused unless its length rounds to 0. Any other request that is not
refused, and one to unmap, ends below the kernel unless its sum wraps around. A request is answered
as if it were mapped exactly when its length wraps around in `PAGE_ALIGN`, with nothing mapped. -/
theorem accepted_below_iff (kmalloc : Finset Nat → Nat) (file : Option File)
    (inWord : len < wordSize) :
    (flags &&& mapFixed ≠ 0 → pageAlign len ≠ 0 →
      doMmap fuel kmalloc file addr len prot flags off s = some (.returned (failure einval) s)) ∧
    (len ≠ 0 → pageAlign len ≠ 0 → (∀ t, doMmap fuel kmalloc file addr len prot flags off s ≠
        some (.returned (failure einval) t)) →
      (addr + alignUp len ≤ pageOffset ↔ addr + alignUp len < wordSize)) ∧
    ((∀ t, doMunmap fuel kmalloc addr len s ≠ some (failure einval, t)) →
      (addr + alignUp len ≤ pageOffset ↔ addr + len < wordSize)) ∧
    (len ≠ 0 →
      (ReportsSuccess (doMmap fuel kmalloc file addr len prot flags off s) ↔
        wordSize - pageSize < len ∧ addr ≠ failure einval) ∧
      (wordSize - pageSize < len →
        doMmap fuel kmalloc file addr len prot flags off s = some (.returned addr s))) := by
  refine ⟨fun fixed pages => doMmap_fixed kmalloc file fixed pages,
    fun positive pages accepts => addWord_le_iff inWord pages
      (range_of_ne_einval positive pages accepts),
    fun accepts => (accepted_of_ne_einval accepts).below_iff, fun positive => ⟨?_, fun wraps => ?_⟩⟩
  · rw [reportsSuccess_iff kmalloc file positive, pageAlign_eq_zero_iff positive inWord]
  · unfold doMmap
    rw [if_neg positive, if_pos ((pageAlign_eq_zero_iff positive inWord).mpr wraps)]

theorem accepted_below_onePage :
    doMmap 4 bumpAllocator.kmalloc (some plainFile) 0x4000 0x1000 vmRead
        (mapPrivate ||| mapFixed) 0 twoPages = some (.returned (failure einval) twoPages) ∧
      0x4000 + alignUp 0x1000 ≤ pageOffset ∧
      ¬ ReportsSuccess (doMmap 4 bumpAllocator.kmalloc (some plainFile) 0x4000 0x1000 vmRead
        (mapPrivate ||| mapFixed) 0 twoPages) := by
  obtain ⟨fixed, -, unmapped, mapped⟩ := @accepted_below_iff twoPages 4 0x4000 0x1000 vmRead
    (mapPrivate ||| mapFixed) 0 bumpAllocator.kmalloc (some plainFile) (by decide)
  have returns : doMunmap 4 bumpAllocator.kmalloc 0x4000 0x1000 twoPages = some (0, twoPages) := rfl
  refine ⟨fixed (by decide) (by decide), (unmapped fun t => ?_).mpr (by decide), fun success => ?_⟩
  · simp [returns, failure, wordSize, einval]
  · exact absurd ((mapped (by decide)).1.mp success).1 (by decide)

/-- A range of 1 GB from the kernel to the end of memory is let through, and a length in the last
page is reported as mapped. -/
theorem accepts_beyond_pageOffset :
    (doMunmap 4 bumpAllocator.kmalloc 0xC0000000 0x40000000 twoPages = some (0, twoPages) ∧
      pageOffset < 0xC0000000 + alignUp 0x40000000) ∧
    doMmap 4 bumpAllocator.kmalloc (some plainFile) 0x4000 0xFFFFF001 vmRead
      (mapPrivate ||| mapFixed) 0 twoPages = some (.returned 0x4000 twoPages) :=
  ⟨⟨rfl, by decide⟩, rfl⟩

end AddressSpace

end PrettyOS.Mm
