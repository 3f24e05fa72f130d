import PrettyOS.Fs.PathLookup

/-!
Contract: how `dir_namei` splits a path, whatever `lookup` does.
-/

namespace PrettyOS.Fs

open Lib List Option

/-- A call of `lookup`: its arguments and its answer. -/
structure LookupCall where
  base : Nat
  name : List Byte
  namelen : Nat
  answer : Except Int Nat

/-- Components without a slash, each followed by one, and what is left of the path. -/
def joinPath (components : List (List Byte)) (left : List Byte) : List Byte :=
  components.flatMap (· ++ [slash]) ++ left

section

variable {σ : Type*} (lookup : Nat → List Byte → Nat → σ → Option (Except Int Nat × σ))

/-- The same `lookup`, with a list of its calls beside the state. -/
def recorded (base : Nat) (name : List Byte) (namelen : Nat) (t : σ × List LookupCall) :
    Option (Except Int Nat × σ × List LookupCall) :=
  (lookup base name namelen t.1).map fun (answer, after) =>
    (answer, after, t.2 ++ [⟨base, name, namelen, answer⟩])

/-- The walk along the components of a path from an inode: `lookup` gives its answer for each
component in the inode it found before, up to the first failure; without one the rest of the path
is left, in the inode found last. -/
inductive Walk (left : List Byte) :
    Nat → List (List Byte) → σ → List LookupCall → Except Int PathEnd → σ → Prop
  | ended (base : Nat) (t : σ) : Walk left base [] t [] (.ok ⟨left, left.length, base⟩) t
  | fails {base : Nat} {component : List Byte} {others : List (List Byte)} {code : Int}
      {t after : σ}
      (answers : lookup base (component ++ slash :: joinPath others left) component.length t =
        some (.error code, after)) :
      Walk left base (component :: others) t
        [⟨base, component ++ slash :: joinPath others left, component.length, .error code⟩]
        (.error (-3)) after
  | goesOn {base inode : Nat} {component : List Byte} {others : List (List Byte)}
      {t found after : σ} {calls : List LookupCall} {result : Except Int PathEnd}
      (answers : lookup base (component ++ slash :: joinPath others left) component.length t =
        some (.ok inode, found))
      (walk : Walk left inode others found calls result after) :
      Walk left base (component :: others) t
        (⟨base, component ++ slash :: joinPath others left, component.length, .ok inode⟩ :: calls)
        result after

end

theorem exists_split (path : List Byte) : ∃ components left,
    (∀ component ∈ components, slash ∉ component) ∧ slash ∉ left ∧
      path = joinPath components left := by
  induction path with
  | nil => exact ⟨[], [], nofun, not_mem_nil, rfl⟩
  | cons ch rest ih =>
    obtain ⟨components, left, plain, plainLeft, rfl⟩ := ih
    by_cases isSlash : ch = slash
    · refine ⟨[] :: components, left, forall_mem_cons.mpr ⟨not_mem_nil, plain⟩, plainLeft, ?_⟩
      simp [joinPath, isSlash]
    cases components with
    | nil => exact ⟨[], ch :: left, nofun, by simp [plainLeft, Ne.symm isSlash], rfl⟩
    | cons component others =>
      rw [forall_mem_cons] at plain
      refine ⟨(ch :: component) :: others, left, ?_, plainLeft, rfl⟩
      rw [forall_mem_cons]
      refine ⟨?_, plain.2⟩
      simp [plain.1, Ne.symm isSlash]

section

variable {σ : Type*} {lookup : Nat → List Byte → Nat → σ → Option (Except Int Nat × σ)}
  {thisname component : List Byte}

theorem dirNameiFrom_append (plain : slash ∉ component) (len base : Nat) (rest : List Byte)
    (t : σ) : dirNameiFrom lookup thisname len (component ++ rest) base t =
      dirNameiFrom lookup thisname (len + component.length) rest base t := by
  induction component generalizing len with
  | nil => rfl
  | cons ch component ih =>
    rw [mem_cons, not_or] at plain
    rw [cons_append, dirNameiFrom, if_neg (Ne.symm plain.1), ih plain.2, length_cons,
      Nat.add_right_comm, Nat.add_assoc]

/-- The first component is looked up; the scan goes on behind its slash. -/
theorem dirNameiFrom_component {others : List (List Byte)} {left : List Byte}
    (plain : slash ∉ component) (base : Nat) (t : σ) :
    dirNameiFrom lookup (joinPath (component :: others) left) 0
        (joinPath (component :: others) left) base t =
      (lookup base (component ++ slash :: joinPath others left) component.length t).bind fun
        | (.error _, t) => some (.error (-3), t)
        | (.ok inode, t) =>
            dirNameiFrom lookup (joinPath others left) 0 (joinPath others left) inode t := by
  have split : joinPath (component :: others) left =
      component ++ slash :: joinPath others left := by
    simp [joinPath]
  rw [split, dirNameiFrom_append plain, Nat.zero_add]
  exact if_pos rfl

theorem dirNameiFrom_left {left : List Byte} (plainLeft : slash ∉ left) (base : Nat) (t : σ) :
    dirNameiFrom lookup left 0 left base t = some (.ok ⟨left, left.length, base⟩, t) := by
  have atEnd := @dirNameiFrom_append _ lookup left _ plainLeft 0 base [] t
  rwa [append_nil, Nat.zero_add] at atEnd

theorem dirNameiFrom_walks {components : List (List Byte)} {left : List Byte}
    (returns : ∀ base name len t, (lookup base name len t).isSome = true)
    (plain : ∀ component ∈ components, slash ∉ component) (plainLeft : slash ∉ left) (base : Nat)
    (t : σ) (before : List LookupCall) : ∃ calls result after,
      dirNameiFrom lookup (joinPath components left) 0 (joinPath components left) base t =
          some (result, after) ∧
        dirNameiFrom (recorded lookup) (joinPath components left) 0 (joinPath components left) base
            (t, before) = some (result, after, before ++ calls) ∧
        Walk lookup left base components t calls result after := by
  induction components generalizing base t before with
  | nil =>
    refine ⟨[], _, t, dirNameiFrom_left plainLeft base t, ?_, .ended base t⟩
    rw [append_nil]
    exact dirNameiFrom_left plainLeft base (t, before)
  | cons component others ih =>
    rw [forall_mem_cons] at plain
    obtain ⟨⟨answer, found⟩, answers⟩ := isSome_iff_exists.mp
      (returns base (component ++ slash :: joinPath others left) component.length t)
    rw [dirNameiFrom_component plain.1, dirNameiFrom_component plain.1, recorded, answers, map_some,
      bind_some, bind_some]
    cases answer with
    | error code => exact ⟨_, _, found, rfl, rfl, .fails answers⟩
    | ok inode =>
      obtain ⟨calls, result, after, isRest, isRecorded, walk⟩ := ih plain.2 inode found (before ++
        [⟨base, component ++ slash :: joinPath others left, component.length, .ok inode⟩])
      refine ⟨_, result, after, isRest, ?_, .goesOn answers walk⟩
      rwa [append_assoc, singleton_append] at isRecorded

/-- `dir_namei` walks along the components of an absolute path from the root, whatever `lookup`
answers: it makes just the calls of the walk, in that order, and returns what the walk ends with. -/
theorem dirNamei_walks (returns : ∀ base name len t, (lookup base name len t).isSome = true)
    (rootInode : Nat) (path : List Byte) (t : σ) : ∃ components left,
      (∀ component ∈ components, slash ∉ component) ∧ slash ∉ left ∧
        path = joinPath components left ∧
        ∃ calls result after,
          dirNameiWith lookup rootInode (slash :: path) t = some (result, after) ∧
            dirNameiWith (recorded lookup) rootInode (slash :: path) (t, []) =
              some (result, after, calls) ∧
            Walk lookup left rootInode components t calls result after := by
  obtain ⟨components, left, plain, plainLeft, rfl⟩ := exists_split path
  exact ⟨components, left, plain, plainLeft, rfl,
    dirNameiFrom_walks returns plain plainLeft rootInode t []⟩

end

/-- A `lookup` that finds the inode of the number of calls made before, up to the third call. -/
def countingLookup (_ : Nat) (_ : List Byte) (_ calls : Nat) : Option (Except Int Nat × Nat) :=
  some (if calls < 3 then .ok (calls + 10) else .error (-2), calls + 1)

theorem dirNamei_walks_counting : ∃ components left,
    (∀ component ∈ components, slash ∉ component) ∧ slash ∉ left ∧
      [97, slash, 98, slash] = joinPath components left ∧
      ∃ calls result after,
        dirNameiWith countingLookup 1 [slash, 97, slash, 98, slash] 0 = some (result, after) ∧
          dirNameiWith (recorded countingLookup) 1 [slash, 97, slash, 98, slash] (0, []) =
            some (result, after, calls) ∧
          Walk countingLookup left 1 components 0 calls result after :=
  dirNamei_walks (fun _ _ _ _ => rfl) 1 [97, slash, 98, slash] 0

end PrettyOS.Fs
