import PrettyOS.Library.IndexChain
import PrettyOS.Library.Runs
import PrettyOS.Library.SortedLists
import PrettyOS.Net.Route

/-!
Contract: routing as the longest prefix match over the table that the calls describe.
-/

namespace PrettyOS.Net

open Library List Nat Option
open Function
open Library.IndexChain (Linked)
open Lib (strcmp strcmp_eq)

def prefixMask (n : Nat) : BitVec 32 := BitVec.allOnes 32 <<< (32 - n)

def HasLength (mask : BitVec 32) (n : Nat) : Prop := n ≤ 32 ∧ mask = prefixMask n

def Contiguous (mask : BitVec 32) : Prop := ∃ n, HasLength mask n

def Covers (mask other : BitVec 32) : Prop := mask &&& other = other

instance (mask other : BitVec 32) : Decidable (Covers mask other) :=
  inferInstanceAs (Decidable (mask &&& other = other))

lemma getLsbD_prefixMask {n i : Nat} (small : i < 32) :
    (prefixMask n).getLsbD i = true ↔ 32 - n ≤ i := by
  rw [prefixMask, BitVec.getLsbD_shiftLeft, BitVec.getLsbD_allOnes, decide_eq_true small,
    decide_eq_true (show i - (32 - n) < 32 by omega), Bool.true_and, Bool.and_true,
    Bool.not_eq_true', decide_eq_false_iff_not, not_lt]

lemma covers_prefixMask_iff {m n : Nat} (small : n ≤ 32) :
    Covers (prefixMask m) (prefixMask n) ↔ n ≤ m := by
  constructor
  · intro covers
    by_contra longer
    -- the lowest bit of the longer prefix
    have inside : (prefixMask n).getLsbD (32 - n) = true :=
      (getLsbD_prefixMask (by omega)).mpr le_rfl
    rw [← covers, BitVec.getLsbD_and, Bool.and_eq_true, getLsbD_prefixMask (by omega)] at inside
    omega
  · intro shorter
    apply BitVec.eq_of_getLsbD_eq
    intro i inside
    rw [BitVec.getLsbD_and, Bool.and_eq_right_iff_imp, getLsbD_prefixMask inside,
      getLsbD_prefixMask inside]
    omega

variable {mask other third : BitVec 32}

lemma Covers.trans (first : Covers mask other) (second : Covers other third) :
    Covers mask third := by
  unfold Covers at first second ⊢
  rw [← second, ← BitVec.and_assoc, first]

lemma Contiguous.covers_of_not (contiguous : Contiguous mask) (alsoOther : Contiguous other)
    (not : ¬ Covers mask other) : Covers other mask := by
  obtain ⟨m, smallM, rfl⟩ := contiguous
  obtain ⟨n, smallN, rfl⟩ := alsoOther
  rw [covers_prefixMask_iff smallN] at not
  exact (covers_prefixMask_iff smallM).mpr (by omega)

lemma Covers.length_le {m n : Nat} (covers : Covers mask other) (isM : HasLength mask m)
    (isN : HasLength other n) : n ≤ m := by
  rw [isM.2, isN.2] at covers
  exact (covers_prefixMask_iff isN.1).mp covers

structure Route where
  rt : Nat
  dst : BitVec 32
  mask : BitVec 32
  dev : Nat

def Route.Matches (route : Route) (daddr : BitVec 32) : Prop := daddr &&& route.mask = route.dst

instance (route : Route) (daddr : BitVec 32) : Decidable (route.Matches daddr) :=
  inferInstanceAs (Decidable (daddr &&& route.mask = route.dst))

def LongestMatch (present : List Route) (daddr : BitVec 32) (rt : Nat) : Prop :=
  (∃ route ∈ present, route.rt = rt ∧ route.Matches daddr ∧ ∀ other ∈ present, other.Matches daddr →
      ∀ m n, HasLength route.mask m → HasLength other.mask n → n ≤ m) ∨
  (rt = 0 ∧ ∀ other ∈ present, ¬ other.Matches daddr)

def replaces (new other : Route) : Bool := decide (other.dst = new.dst ∧ other.mask = new.mask)

def deletes (env : RouteEnv) (dst : BitVec 32) (devname : Nat) (route : Route) : Bool :=
  decide (route.dst = dst ∧
    (devname = 0 ∨ strcmp env.mem env.readable (env.name route.dev) devname = some 0))

inductive RouteCall where
  | add (request : RouteRequest) (rt prev : Nat)
  | del (dst : BitVec 32) (devname : Nat)
  | flush (dev : Nat)
  | lookup (daddr : BitVec 32) (wantsSrc : Bool)

def RouteRequest.route (env : RouteEnv) (request : RouteRequest) (rt : Nat) : Route :=
  let settled := request.settled (env.device request.dev)
  ⟨rt, settled.dst, settled.mask, settled.dev⟩

def RouteCall.apply (env : RouteEnv) : RouteCall → List Route → List Route
  | .add request rt _, present =>
      request.route env rt :: present.filter fun other => !replaces (request.route env rt) other
  | .del dst devname, present => present.filter fun other => !deletes env dst devname other
  | .flush dev, present => present.filter fun other => !decide (other.dev = dev)
  | .lookup _ _, present => present

structure RouteState where
  table : Routes
  present : List Route

def RouteCall.run (env : RouteEnv) (call : RouteCall) (fuel : Nat) (t : Routes) :
    Option (Option Routed × Routes) :=
  match call with
  | .add request rt prev => (ipRtAdd env fuel rt prev request t).map fun t => (none, t)
  | .del dst devname => (rtDel env fuel dst devname t).map fun t => (none, t)
  | .flush dev => (ipRtFlush env fuel dev t).map fun t => (none, t)
  | .lookup daddr wantsSrc =>
      (ipRtRoute env fuel daddr wantsSrc t).map fun done => (some done.1, done.2)

def routeStep (env : RouteEnv) (call : RouteCall) (s : RouteState) :
    Option (Option Routed × RouteState) :=
  (call.run env (s.present.length + 1) s.table).map fun done =>
    (done.1, ⟨done.2, call.apply env s.present⟩)

def Routes.route (t : Routes) (rt : Nat) : Route := ⟨rt, t.dst rt, t.mask rt, t.dev rt⟩

structure Routes.Holds (base : Nat) (t : Routes) (present : List Route) (chain : List Nat) :
    Prop where
  linked : Linked t.next 0 (t.next base) chain
  nodup : (base :: chain).Nodup
  notNull : 0 ∉ chain
  entries : (chain.map t.route).Perm present

variable {env : RouteEnv} {t : Routes} {present : List Route} {chain : List Nat}
  {drops : Nat → Option Bool} {next : Nat → Nat} {base rtp fuel rt prev : Nat}

section

variable (linked : Linked next 0 (next rtp) chain) (nodup : (rtp :: chain).Nodup)
  (notNull : 0 ∉ chain)
include linked nodup notNull

lemma unlinkLoop_eq (ran : ∀ entry ∈ chain, (drops entry).isSome = true)
    (enough : chain.length < fuel) :
    ∃ after, unlinkLoop drops fuel rtp next = some after ∧
      Linked after 0 (after rtp) (chain.filter fun entry => !(drops entry == some true)) ∧
      ∀ entry ∉ rtp :: chain, after entry = next entry := by
  induction chain generalizing rtp next fuel with
  | nil =>
    obtain ⟨fuel, rfl⟩ := exists_eq_succ_of_ne_zero (ne_of_gt enough)
    have isNull : next rtp = 0 := linked
    exact ⟨next, by simp [unlinkLoop, isNull], linked, fun _ _ => rfl⟩
  | cons first rest ih =>
    obtain ⟨fuel, rfl⟩ := exists_eq_succ_of_ne_zero (ne_zero_of_lt enough)
    have isFirst := linked.1
    obtain ⟨notAgain, nodupRest⟩ := nodup_cons.mp nodup
    rw [mem_cons, not_or] at notNull notAgain
    rw [forall_mem_cons] at ran
    have enoughRest := lt_of_succ_lt_succ enough
    have firstNotNull := isFirst ▸ Ne.symm notNull.1
    obtain ⟨isDropped, isSome⟩ := isSome_iff_exists.mp ran.1
    rw [unlinkLoop, if_pos firstNotNull, isFirst, isSome, bind_some]
    cases isDropped with
    | true =>
      have nodupNow := nodup_cons.mpr ⟨notAgain.2, (nodup_cons.mp nodupRest).2⟩
      obtain ⟨after, isLoop, linkedAfter, same⟩ :=
        ih (linked.skip notAgain.2) nodupNow notNull.2 ran.2 enoughRest
      refine ⟨after, isLoop, ?_, ?_⟩
      · rw [filter_cons_of_neg (by rw [isSome]; decide)]
        exact linkedAfter
      intro entry out
      simp only [mem_cons, not_or] at out
      rw [same entry (by simp [out]), update_of_ne out.1]
    | false =>
      obtain ⟨after, isLoop, linkedAfter, same⟩ := ih linked.2 nodupRest notNull.2 ran.2 enoughRest
      have isKept : after rtp = first := by rw [same rtp (by simp [notAgain]), isFirst]
      refine ⟨after, isLoop, ?_, fun entry out => same entry (not_mem_of_not_mem_cons out)⟩
      rw [filter_cons_of_pos (by rw [isSome]; decide)]
      exact ⟨isKept, linkedAfter⟩

lemma unlinkLoop_returns {after : Nat → Nat}
    (isLoop : unlinkLoop drops fuel rtp next = some after) :
    ∀ entry ∈ chain, (drops entry).isSome = true := by
  induction chain generalizing rtp next fuel with
  | nil => exact fun _ mem => absurd mem not_mem_nil
  | cons first rest ih =>
    have isFirst := linked.1
    obtain ⟨notAgain, nodupRest⟩ := nodup_cons.mp nodup
    rw [mem_cons, not_or] at notNull notAgain
    have firstNotNull := isFirst ▸ Ne.symm notNull.1
    cases fuel with
    | zero => cases isLoop
    | succ fuel =>
      rw [unlinkLoop, if_pos firstNotNull, isFirst] at isLoop
      obtain ⟨isDropped, isSome, isLoop⟩ := bind_eq_some_iff.mp isLoop
      rw [forall_mem_cons]
      refine ⟨isSome_of_eq_some isSome, ?_⟩
      cases isDropped with
      | true =>
        exact ih (linked.skip notAgain.2)
          (nodup_cons.mpr ⟨notAgain.2, (nodup_cons.mp nodupRest).2⟩) notNull.2
          isLoop
      | false => exact ih linked.2 nodupRest notNull.2 isLoop

end

lemma placeLoop_eq {mask : BitVec 32} (linked : Linked t.next 0 (t.next rtp) chain)
    (notNull : 0 ∉ chain) (enough : chain.length < fuel) :
    placeLoop mask t fuel rtp prev =
      some ((chain.dropWhile fun entry => decide (Covers (t.mask entry) mask)).headD 0,
        (chain.takeWhile fun entry => decide (Covers (t.mask entry) mask)).getLastD prev) := by
  induction chain generalizing rtp fuel prev with
  | nil =>
    obtain ⟨fuel, rfl⟩ := exists_eq_succ_of_ne_zero (ne_of_gt enough)
    have isNull : t.next rtp = 0 := linked
    simp [placeLoop, isNull]
  | cons first rest ih =>
    obtain ⟨fuel, rfl⟩ := exists_eq_succ_of_ne_zero (ne_zero_of_lt enough)
    obtain ⟨isFirst, linkRest⟩ := linked
    rw [mem_cons, not_or] at notNull
    have isCovers : Covers (t.mask first) mask ↔ t.mask first &&& mask = mask := Iff.rfl
    rw [placeLoop, isFirst, if_pos (Ne.symm notNull.1)]
    by_cases covers : t.mask first &&& mask = mask
    · rw [if_neg (not_not.mpr covers), takeWhile_cons_of_pos (by simpa [isCovers]),
        dropWhile_cons_of_pos (by simpa [isCovers]), getLastD_cons]
      exact ih linkRest notNull.2 (lt_of_succ_lt_succ enough)
    · simp [isCovers, covers]

lemma routeLoop_eq {daddr : BitVec 32} (linked : Linked t.next 0 rt chain) (notNull : 0 ∉ chain)
    (enough : chain.length < fuel) :
    routeLoop daddr t fuel rt =
      some ((chain.find? fun entry => decide ((t.route entry).Matches daddr)).getD 0) := by
  induction chain generalizing rt fuel with
  | nil =>
    obtain ⟨fuel, rfl⟩ := exists_eq_succ_of_ne_zero (ne_of_gt enough)
    have isNull : rt = 0 := linked
    simp [routeLoop, isNull]
  | cons first rest ih =>
    obtain ⟨fuel, rfl⟩ := exists_eq_succ_of_ne_zero (ne_zero_of_lt enough)
    obtain ⟨rfl, linkRest⟩ := linked
    rw [mem_cons, not_or] at notNull
    have test : (daddr &&& t.mask rt) ^^^ t.dst rt = 0 ↔ (t.route rt).Matches daddr :=
      BitVec.xor_eq_zero_iff
    rw [routeLoop, if_pos (Ne.symm notNull.1), find?_cons]
    by_cases isMatch : (t.route rt).Matches daddr
    · rw [if_pos (test.mpr isMatch), decide_eq_true isMatch]
      rfl
    · rw [if_neg (mt test.mp isMatch), decide_eq_false isMatch]
      exact ih linkRest notNull.2 (lt_of_succ_lt_succ enough)

structure Routes.Ordered (base : Nat) (t : Routes) (present : List Route) (chain : List Nat) : Prop
    extends Routes.Holds base t present chain where
  sorted : chain.Pairwise fun entry later => Covers (t.mask entry) (t.mask later)
  contiguous : ∀ entry ∈ chain, Contiguous (t.mask entry)

namespace Routes

section

variable (holds : Holds base t present chain)
include holds

lemma Holds.length_eq : chain.length = present.length := by
  rw [← holds.entries.length_eq, length_map]

lemma Holds.mem_iff {route : Route} : route ∈ present ↔ ∃ entry ∈ chain, t.route entry = route := by
  rw [← holds.entries.mem_iff, List.mem_map]

lemma Holds.chain_notNull {entry : Nat} (mem : entry ∈ chain) : entry ≠ 0 :=
  fun isNull => holds.notNull (isNull ▸ mem)

lemma Holds.fresh (notBase : rt ≠ base) (notPresent : ∀ route ∈ present, route.rt ≠ rt) :
    rt ∉ base :: chain := by
  rw [mem_cons, not_or]
  exact ⟨notBase, fun mem => notPresent _ (holds.mem_iff.mpr ⟨rt, mem, rfl⟩) rfl⟩

end

section

variable (ordered : Ordered base t present chain)
include ordered

lemma Ordered.unlink (drops : Nat → Option Bool) (gone : Route → Bool)
    (agrees : ∀ entry ∈ chain, drops entry = some (gone (t.route entry)))
    (enough : chain.length < fuel) :
    ∃ after left, unlinkLoop drops fuel base t.next = some after ∧
      Ordered base { t with next := after } (present.filter fun route => !gone route) left ∧
      left.Sublist chain ∧ ∀ entry ∉ base :: chain, after entry = t.next entry := by
  have ran : ∀ entry ∈ chain, (drops entry).isSome = true :=
    fun entry mem => by simp [agrees entry mem]
  obtain ⟨after, isLoop, linked, same⟩ :=
    unlinkLoop_eq ordered.linked ordered.nodup ordered.notNull ran enough
  have isFilter : (chain.filter fun entry => !(drops entry == some true)) =
      chain.filter ((fun route => !gone route) ∘ t.route) := by
    apply filter_congr
    intro entry mem
    rw [agrees entry mem, comp_apply]
    cases gone (t.route entry) <;> rfl
  have sublist : (chain.filter ((fun route => !gone route) ∘ t.route)).Sublist chain :=
    filter_sublist
  rw [isFilter] at linked
  refine ⟨after, _, isLoop, ⟨⟨linked, ?_, ?_, ?_⟩, ?_, ?_⟩, sublist, same⟩
  · exact ordered.nodup.sublist (sublist.cons_cons base)
  · exact fun mem => ordered.notNull (sublist.subset mem)
  · have entries := ordered.entries.filter fun route => !gone route
    rwa [List.filter_map] at entries
  · exact ordered.sorted.sublist sublist
  · exact fun entry mem => ordered.contiguous entry (sublist.subset mem)

lemma Ordered.fill {request : RouteRequest} (fresh : rt ∉ base :: chain) :
    Ordered base (fillRoute rt request t) present chain := by
  rw [mem_cons, not_or] at fresh
  have others : ∀ entry ∈ chain, entry ≠ rt :=
    fun entry mem => ne_of_mem_of_not_mem mem fresh.2
  have sameMask : ∀ entry ∈ chain, (fillRoute rt request t).mask entry = t.mask entry :=
    fun entry mem => update_of_ne (others entry mem) _ _
  have sameRoute : ∀ entry ∈ chain, (fillRoute rt request t).route entry = t.route entry :=
    fun entry mem => by simp [route, fillRoute, others entry mem]
  have first : (fillRoute rt request t).next base = t.next base :=
    update_of_ne (Ne.symm fresh.1) _ _
  refine ⟨⟨?_, ordered.nodup, ordered.notNull, ?_⟩, ?_, ?_⟩
  · rw [first]
    exact ordered.linked.congr fun entry mem => update_of_ne (others entry mem) _ _
  · rw [map_congr_left sameRoute]
    exact ordered.entries
  · apply ordered.sorted.imp_of_mem
    intro entry later isEntry isLater covers
    rwa [sameMask entry isEntry, sameMask later isLater]
  · intro entry mem
    rw [sameMask entry mem]
    exact ordered.contiguous entry mem

lemma Ordered.covers_first {first : Nat} {rest : List Nat} (isChain : chain = first :: rest)
    {route : Route} (isRoute : route ∈ present) (covers : Covers route.mask mask) :
    Covers (t.mask first) mask := by
  obtain ⟨entry, mem, rfl⟩ := ordered.mem_iff.mp isRoute
  have sorted := ordered.sorted
  rw [isChain] at mem sorted
  rcases mem_cons.mp mem with rfl | later
  · exact covers
  · exact ((pairwise_cons.mp sorted).1 entry later).trans covers

omit ordered in
lemma covers_of_mem_takeWhile {entry : Nat}
    (mem : entry ∈ chain.takeWhile fun entry => decide (Covers (t.mask entry) mask)) :
    Covers (t.mask entry) mask := by
  have isCovered := mem_takeWhile_imp mem
  exact of_decide_eq_true isCovered

lemma Ordered.not_covers_of_dropWhile {entry : Nat}
    (mem : entry ∈ chain.dropWhile fun entry => decide (Covers (t.mask entry) mask)) :
    ¬ Covers (t.mask entry) mask := by
  have fails := not_holds_of_mem_dropWhile ordered.sorted (fun old later covers isCovered =>
    decide_eq_true (covers.trans (of_decide_eq_true isCovered))) entry mem
  exact of_decide_eq_false fails

lemma Ordered.insert {new : Route} (isNew : t.route rt = new) (contiguous : Contiguous new.mask)
    (fresh : rt ∉ base :: chain) (notNull : rt ≠ 0) {front back : List Nat}
    (isFront : front = chain.takeWhile fun entry => decide (Covers (t.mask entry) new.mask))
    (isBack : back = chain.dropWhile fun entry => decide (Covers (t.mask entry) new.mask)) :
    Ordered base { t with
      next := update (update t.next rt (back.headD 0)) (front.getLastD base) rt }
      (new :: present) (front ++ rt :: back) := by
  have whole : front ++ back = chain := by
    rw [isFront, isBack]
    exact takeWhile_append_dropWhile
  have isMask : t.mask rt = new.mask := congrArg Route.mask isNew
  have coversNew : ∀ entry ∈ front, Covers (t.mask entry) (t.mask rt) := by
    intro entry mem
    rw [isFront] at mem
    rw [isMask]
    exact covers_of_mem_takeWhile mem
  have newCovers : ∀ entry ∈ back, Covers (t.mask rt) (t.mask entry) := by
    intro entry mem
    have isMember := whole ▸ mem_append_right front mem
    rw [isBack] at mem
    rw [isMask]
    exact (ordered.contiguous entry isMember).covers_of_not contiguous
      (ordered.not_covers_of_dropWhile mem)
  subst whole
  obtain ⟨frontSorted, backSorted, frontBack⟩ := pairwise_append.mp ordered.sorted
  have frontOrBack : ∀ entry ∈ front ++ rt :: back, entry = rt ∨ entry ∈ front ++ back := by
    intro entry mem
    exact mem_cons.mp (perm_middle.mem_iff.mp mem)
  refine ⟨⟨ordered.linked.insert ordered.nodup fresh rfl, ?_, ?_, ?_⟩, ?_, ?_⟩
  · have nodup : ((base :: front) ++ rt :: back).Nodup :=
      nodup_middle.mpr (nodup_cons.mpr ⟨fresh, ordered.nodup⟩)
    exact nodup
  · intro isNull
    rcases frontOrBack 0 isNull with isRt | old
    · exact notNull isRt.symm
    · exact ordered.notNull old
  · have entries := ordered.entries
    rw [map_append] at entries
    rw [map_append, map_cons]
    exact perm_middle.trans (isNew ▸ entries.cons (t.route rt))
  · exact pairwise_insert frontSorted backSorted frontBack coversNew newCovers
  · intro entry mem
    rcases frontOrBack entry mem with rfl | old
    · change Contiguous (t.mask entry)
      rwa [isMask]
    · exact ordered.contiguous entry old

end

lemma Holds.not_stray (holds : Holds base t present chain) (fresh : rt ∉ base :: chain)
    (notNull : rt ≠ 0) (isStray : prev ≠ base) {after : List Nat}
    (linked : Linked
      (update (update t.next rt (chain.headD 0)) prev rt) 0
      (update (update t.next rt (chain.headD 0)) prev rt base) after)
    (afterNotNull : 0 ∉ after) : rt ∉ after := by
  rw [mem_cons, not_or] at fresh
  generalize isNext : update (update t.next rt (chain.headD 0)) prev rt = next at linked
  have sameOther : ∀ entry, entry ≠ prev → entry ≠ rt → next entry = t.next entry := by
    intro entry notPrev notRt
    rw [← isNext, update_of_ne notPrev, update_of_ne notRt]
  have first := sameOther base (Ne.symm isStray) (Ne.symm fresh.1)
  rw [first] at linked
  by_cases onChain : prev ∈ chain
  · -- the chain runs into itself, and has no end
    exfalso
    obtain ⟨front, _, rfl⟩ := append_of_mem onChain
    obtain ⟨middle, linkedFront, isMiddle, -⟩ := IndexChain.linked_append.mp holds.linked
    have notPrev : ∀ entry ∈ front, entry ≠ prev := by
      intro entry mem
      have nodup := (nodup_cons.mp holds.nodup).2
      exact (nodup_append.mp nodup).2.2 entry mem prev mem_cons_self
    have isPrev : next prev = rt := by rw [← isNext, update_self]
    have isRt : next rt = t.next base := by
      rw [← isNext, update_of_ne (ne_of_mem_of_not_mem onChain fresh.2).symm,
        update_self, IndexChain.linked_headD holds.linked]
    have cycle : Linked next (t.next base) (t.next base) (front ++ [prev, rt]) := by
      refine IndexChain.linked_append.mpr ⟨middle, ?_, isMiddle, isPrev, isRt⟩
      apply linkedFront.congr
      intro entry mem
      exact sameOther entry (notPrev entry mem)
        (ne_of_mem_of_not_mem (mem_append_left _ mem) fresh.2)
    have cycleNotNull : 0 ∉ front ++ [prev, rt] := by
      have before := holds.notNull
      simp only [mem_append, mem_cons, not_or] at before
      simp [before, notNull.symm]
    simpa using linked.not_cycle afterNotNull cycle cycleNotNull
  · have linkedOld : Linked next 0 (t.next base) chain := by
      apply holds.linked.congr
      intro entry mem
      exact sameOther entry (ne_of_mem_of_not_mem mem onChain)
        (ne_of_mem_of_not_mem mem fresh.2)
    rw [linked.unique linkedOld afterNotNull holds.notNull]
    exact fresh.2

def PrevSet (base prev : Nat) (new : Route) (present : List Route) : Prop :=
  prev = base ∨ ∃ other ∈ present, replaces new other = false ∧ Covers other.mask new.mask

section

variable (ordered : Ordered env.base t present chain) {request : RouteRequest} {new : Route}
  (isNew : new = ⟨rt, request.dst, request.mask, request.dev⟩) (fresh : rt ∉ env.base :: chain)
  (notNull : rt ≠ 0) (enough : chain.length < fuel)
include ordered isNew fresh notNull enough

lemma Ordered.linkRoute_eq (prev : Nat) :
    ∃ (t' : Routes) (left front back : List Nat),
      Ordered env.base t' (present.filter fun other => !replaces new other) left ∧
      rt ∉ env.base :: left ∧ t'.route rt = new ∧
      front = left.takeWhile (fun entry => decide (Covers (t'.mask entry) new.mask)) ∧
      back = left.dropWhile (fun entry => decide (Covers (t'.mask entry) new.mask)) ∧
      linkRoute env fuel rt prev request t =
        if front.getLastD prev = 0 then none
        else some { t' with
          next := update (update t'.next rt (back.headD 0))
            (front.getLastD prev) rt } := by
  have filled := @Ordered.fill _ _ _ _ _ ordered request fresh
  have isRoute : (fillRoute rt request t).route rt = new := by simp [isNew, route, fillRoute]
  obtain ⟨next, left, isLoop, cut, sublist, -⟩ := filled.unlink
    (fun r => some (decide ((fillRoute rt request t).dst r = request.dst ∧
      (fillRoute rt request t).mask r = request.mask)))
    (replaces new) (by rw [isNew]; exact fun _ _ => rfl) enough
  have freshLeft : rt ∉ env.base :: left :=
    fun mem => fresh ((sublist.cons_cons env.base).subset mem)
  have isPlace := @placeLoop_eq { fillRoute rt request t with next := next } left env.base fuel prev
    request.mask cut.linked cut.notNull (sublist.length_le.trans_lt enough)
  refine ⟨{ fillRoute rt request t with next := next }, left, _, _, cut, freshLeft, isRoute,
    rfl, rfl, ?_⟩
  unfold linkRoute
  dsimp only
  rw [if_neg notNull, isLoop, bind_some, isPlace, bind_some, isNew]

lemma Ordered.link (baseNotNull : env.base ≠ 0) (contiguous : Contiguous new.mask)
    (isSet : PrevSet env.base prev new present) :
    ∃ after kept, linkRoute env fuel rt prev request t = some after ∧
      Ordered env.base after (new :: present.filter fun other => !replaces new other) kept := by
  obtain ⟨_, left, front, _, ordered', fresh', isRoute, isFront, isBack, isLink⟩ :=
    ordered.linkRoute_eq isNew fresh notNull enough prev
  have isLast : front.getLastD prev = front.getLastD env.base := by
    cases front with
    | cons first rest => rw [getLastD_cons, getLastD_cons]
    | nil =>
      rcases isSet with isBase | ⟨other, isOther, stays, covers⟩
      · exact isBase
      -- the first entry would cover the new mask too
      exfalso
      have isLeft : other ∈ present.filter fun other => !replaces new other :=
        mem_filter.mpr ⟨isOther, by rw [stays]; rfl⟩
      cases left with
      | nil => exact absurd (ordered'.entries.mem_iff.mpr isLeft) not_mem_nil
      | cons first rest =>
        have isCovered := ordered'.covers_first rfl isLeft covers
        rw [takeWhile_cons, if_pos (decide_eq_true isCovered)] at isFront
        cases isFront
  have lastNotNull : front.getLastD env.base ≠ 0 := by
    have mem : front.getLastD env.base ∈ env.base :: front := getLastD_mem_cons
    rcases mem_cons.mp mem with isBase | inFront
    · rw [isBase]
      exact baseNotNull
    · rw [isFront] at inFront
      exact isFront ▸ ordered'.chain_notNull ((takeWhile_sublist _).subset inFront)
  rw [isLast, if_neg lastNotNull] at isLink
  exact ⟨_, _, isLink, ordered'.insert isRoute contiguous fresh' notNull isFront isBack⟩

lemma Ordered.prevSet_of_holds {after : Routes}
    (isLink : linkRoute env fuel rt prev request t = some after) {kept : List Nat}
    (holds : Holds env.base after (new :: present.filter fun other => !replaces new other) kept) :
    PrevSet env.base prev new present := by
  obtain ⟨t', left, front, back, ordered', fresh', _, isFront, isBack, isLink'⟩ :=
    ordered.linkRoute_eq isNew fresh notNull enough prev
  have whole : front ++ back = left := by
    rw [isFront, isBack]
    exact takeWhile_append_dropWhile
  rw [isLink] at isLink'
  by_contra notSet
  cases front with
  | cons first rest =>
    have isFirst := whole ▸ mem_append_left back mem_cons_self
    have covers : Covers (t'.mask first) new.mask := by
      have mem : first ∈ first :: rest := mem_cons_self
      rw [isFront] at mem
      exact covers_of_mem_takeWhile mem
    have isPresent := ordered'.mem_iff.mpr ⟨first, isFirst, rfl⟩
    obtain ⟨isOther, stays⟩ := mem_filter.mp isPresent
    exact notSet (.inr ⟨_, isOther, (Bool.not_eq_true' _).mp stays, covers⟩)
  | nil =>
    rw [nil_append] at whole
    subst whole
    rw [getLastD_nil] at isLink'
    split_ifs at isLink' with isNull
    cases isLink'
    have isStray : prev ≠ env.base := fun isBase => notSet (.inl isBase)
    have lost := ordered'.not_stray fresh' notNull isStray holds.linked holds.notNull
    obtain ⟨entry, mem, isEntry⟩ := holds.mem_iff.mp mem_cons_self
    have isRt : entry = rt := by
      rw [isNew] at isEntry
      exact congrArg Route.rt isEntry
    exact lost (isRt ▸ mem)

end

section

variable {daddr : BitVec 32} (ordered : Ordered env.base t present chain)
include ordered

lemma Ordered.longest_of_find
    (found : chain.find? (fun entry => decide ((t.route entry).Matches daddr)) = some rt) :
    LongestMatch present daddr rt := by
  have isMatch := find?_some found
  have isRt := ordered.mem_iff.mpr ⟨rt, mem_of_find?_eq_some found, rfl⟩
  refine .inl ⟨t.route rt, isRt, rfl, of_decide_eq_true isMatch, ?_⟩
  intro other isOther alsoMatches m n isM isN
  obtain ⟨entry, mem, rfl⟩ := ordered.mem_iff.mp isOther
  have covers : Covers (t.mask rt) (t.mask entry) := by
    rcases related_of_find? ordered.sorted found entry mem (decide_eq_true alsoMatches) with
      rfl | covers
    · exact BitVec.and_self
    · exact covers
  exact covers.length_le isM isN

lemma Ordered.lookup (notLocal : ∀ route ∈ present, daddr ≠ (env.device route.dev).paAddr)
    (enough : chain.length < fuel) (isMatched : ∃ route ∈ present, route.Matches daddr)
    (wantsSrc : Bool) :
    ∃ routed after, ipRtRoute env fuel daddr wantsSrc t = some (routed, after) ∧
      LongestMatch present daddr routed.rt ∧ Ordered env.base after present chain := by
  obtain ⟨route, isRoute, alsoMatches⟩ := isMatched
  obtain ⟨entry, mem, rfl⟩ := ordered.mem_iff.mp isRoute
  have isLoop := @routeLoop_eq _ _ _ _ daddr ordered.linked ordered.notNull enough
  cases found : chain.find? (fun entry => decide ((t.route entry).Matches daddr)) with
  | none =>
    have notMatch := find?_eq_none.mp found entry mem
    exact absurd (decide_eq_true alsoMatches) notMatch
  | some rt =>
    have isMember := mem_of_find?_eq_some found
    have notNull := ordered.chain_notNull isMember
    have isRemote := notLocal _ (ordered.mem_iff.mpr ⟨rt, isMember, rfl⟩)
    rw [found, getD_some] at isLoop
    have isRouted : ipRtRoute env fuel daddr wantsSrc t =
        some (⟨rt, if wantsSrc = true then some (env.device (t.dev rt)).paAddr else none⟩,
          { t with use := update t.use rt (t.use rt + 1) }) := by
      rw [ipRtRoute, isLoop, bind_some, if_neg notNull]
      exact if_neg isRemote
    exact ⟨_, _, isRouted, ordered.longest_of_find found,
      ⟨ordered.linked, ordered.nodup, ordered.notNull, ordered.entries⟩, ordered.sorted,
      ordered.contiguous⟩

lemma Ordered.matched_of_lookup {wantsSrc : Bool} {routed : Routed} {after : Routes}
    (enough : chain.length < fuel)
    (ran : ipRtRoute env fuel daddr wantsSrc t = some (routed, after)) :
    ∃ route ∈ present, route.Matches daddr := by
  have isLoop := @routeLoop_eq _ _ _ _ daddr ordered.linked ordered.notNull enough
  cases found : chain.find? (fun entry => decide ((t.route entry).Matches daddr)) with
  | none =>
    rw [found, getD_none] at isLoop
    rw [ipRtRoute, isLoop, bind_some, if_pos rfl] at ran
    cases ran
  | some rt =>
    have isMember := mem_of_find?_eq_some found
    have isMatch := find?_some found
    exact ⟨t.route rt, ordered.mem_iff.mpr ⟨rt, isMember, rfl⟩, of_decide_eq_true isMatch⟩

end

end Routes

def RouteCall.Admitted (env : RouteEnv) (call : RouteCall) (s : RouteState) : Prop :=
  match call with
  | .add request rt _ =>
      request.flags &&& rtfGateway = 0 ∧ Contiguous (request.route env rt).mask ∧
        rt ≠ 0 ∧ rt ≠ env.base ∧ ∀ route ∈ s.present, route.rt ≠ rt
  | .lookup daddr _ => ∀ route ∈ s.present, daddr ≠ (env.device route.dev).paAddr
  | _ => True

def RouteCall.Right (env : RouteEnv) (call : RouteCall) (before : RouteState)
    (result : Option Routed) (after : RouteState) : Prop :=
  match call with
  | .lookup daddr _ =>
      ∃ routed, result = some routed ∧ LongestMatch before.present daddr routed.rt
  | _ => ∃ chain, Routes.Holds env.base after.table after.present chain

def RouteCall.Fits (env : RouteEnv) (call : RouteCall) (s : RouteState) : Prop :=
  match call with
  | .add request rt prev => Routes.PrevSet env.base prev (request.route env rt) s.present
  | .del dst devname => devname = 0 ∨ ∀ route ∈ s.present, route.dst = dst →
      (strcmp env.mem env.readable (env.name route.dev) devname).isSome = true
  | .flush _ => True
  | .lookup daddr _ => ∃ route ∈ s.present, route.Matches daddr

lemma settled_noGateway {request : RouteRequest} {dev : NetDevice}
    (noGateway : request.flags &&& rtfGateway = 0) :
    (request.settled dev).flags &&& rtfGateway = 0 := by
  unfold RouteRequest.settled
  split_ifs with isHost noMask isLocal
  · exact noGateway
  · have cleared : ~~~rtfGateway &&& rtfGateway = 0 := by decide
    rw [BitVec.and_assoc, cleared]
    exact BitVec.and_zero
  · exact noGateway
  · exact noGateway

lemma ipRtAdd_eq (env : RouteEnv) {request : RouteRequest}
    (noGateway : request.flags &&& rtfGateway = 0) (fuel rt prev : Nat) (t : Routes) :
    ∃ settled : RouteRequest, ipRtAdd env fuel rt prev request t =
        linkRoute env fuel rt prev settled t ∧
      request.route env rt = ⟨rt, settled.dst, settled.mask, settled.dev⟩ := by
  have stays := @settled_noGateway _ (env.device request.dev) noGateway
  have cleared : ~~~rtfGateway &&& rtfGateway = 0 := by decide
  unfold ipRtAdd
  dsimp only
  split_ifs with isOwn isGateway isGateway
  · rw [BitVec.and_assoc, cleared] at isGateway
    exact absurd BitVec.and_zero isGateway
  · exact ⟨_, rfl, rfl⟩
  · exact absurd stays isGateway
  · exact ⟨_, rfl, rfl⟩

variable {s : RouteState} {call : RouteCall}

lemma routeStep_of_run {res : Option Routed} {after : Routes}
    (isRun : call.run env (s.present.length + 1) s.table = some (res, after)) :
    routeStep env call s = some (res, ⟨after, call.apply env s.present⟩) := by
  rw [routeStep, isRun, map_some]

lemma rtDelDrops_eq {dst : BitVec 32} {devname entry : Nat}
    (answers : devname = 0 ∨ (t.dst entry = dst →
      (strcmp env.mem env.readable (env.name (t.dev entry)) devname).isSome = true)) :
    rtDelDrops env t dst devname entry = some (deletes env dst devname (t.route entry)) := by
  unfold rtDelDrops deletes Routes.route
  dsimp only
  split_ifs with isOther isNamed
  · rw [decide_eq_false (fun both => isOther both.1)]
  · obtain ⟨_, isRet⟩ := isSome_iff_exists.mp (answers.resolve_left isNamed (not_not.mp isOther))
    have notEqual := strcmp_eq isRet
    rw [isRet, notEqual]
    simp [isNamed]
  · rw [decide_eq_true ⟨not_not.mp isOther, .inl (not_not.mp isNamed)⟩]

lemma isSome_strcmp_of_drops {dst : BitVec 32} {devname entry : Nat}
    (ran : (rtDelDrops env t dst devname entry).isSome = true) (isNamed : devname ≠ 0)
    (isDst : t.dst entry = dst) :
    (strcmp env.mem env.readable (env.name (t.dev entry)) devname).isSome = true := by
  rw [rtDelDrops, if_neg (not_not.mpr isDst), if_pos isNamed, isSome_map] at ran
  exact ran

lemma RouteCall.right_of_fits (baseNotNull : env.base ≠ 0)
    (tracked : ∃ chain, Routes.Ordered env.base s.table s.present chain)
    (admitted : call.Admitted env s) (fits : call.Fits env s) :
    ∃ res after, routeStep env call s = some (res, after) ∧ call.Right env s res after ∧
      ∃ chain, Routes.Ordered env.base after.table after.present chain := by
  obtain ⟨chain, ordered⟩ := tracked
  have enough := lt_succ_of_le ordered.length_eq.le
  cases call with
  | add request rt prev =>
    obtain ⟨noGateway, contiguous, notNull, notBase, notPresent⟩ := admitted
    obtain ⟨_, isAdd, isRoute⟩ := ipRtAdd_eq env noGateway (s.present.length + 1) rt prev s.table
    obtain ⟨after, kept, isLink, ordered'⟩ := ordered.link isRoute
      (ordered.fresh notBase notPresent) notNull enough baseNotNull contiguous fits
    have isStep := @routeStep_of_run env s (.add request rt prev) none after
      (by rw [RouteCall.run, isAdd, isLink, map_some])
    exact ⟨_, _, isStep, ⟨kept, ordered'.toHolds⟩, kept, ordered'⟩
  | del dst devname =>
    obtain ⟨next, left, isLoop, ordered', -⟩ := ordered.unlink
      (rtDelDrops env s.table dst devname) (deletes env dst devname)
      (fun entry mem => rtDelDrops_eq (fits.imp_right fun answers =>
        answers _ (ordered.mem_iff.mpr ⟨entry, mem, rfl⟩))) enough
    have isStep := @routeStep_of_run env s (.del dst devname) none { s.table with next := next }
      (by rw [RouteCall.run, rtDel, isLoop, map_some, map_some])
    exact ⟨_, _, isStep, ⟨left, ordered'.toHolds⟩, left, ordered'⟩
  | flush dev =>
    obtain ⟨next, left, isLoop, ordered', -⟩ := ordered.unlink
      (fun rt => some (decide (s.table.dev rt = dev))) (fun other => decide (other.dev = dev))
      (fun _ _ => rfl) enough
    have isStep := @routeStep_of_run env s (.flush dev) none { s.table with next := next }
      (by rw [RouteCall.run, ipRtFlush, isLoop, map_some, map_some])
    exact ⟨_, _, isStep, ⟨left, ordered'.toHolds⟩, left, ordered'⟩
  | lookup daddr wantsSrc =>
    obtain ⟨routed, after, isRouted, longest, ordered'⟩ :=
      ordered.lookup admitted enough fits wantsSrc
    have isStep := @routeStep_of_run env s (.lookup daddr wantsSrc) (some routed) after
      (by rw [RouteCall.run, isRouted, map_some])
    exact ⟨_, _, isStep, ⟨routed, rfl, longest⟩, chain, ordered'⟩

lemma RouteCall.fits_of_right {res : Option Routed} {after : RouteState}
    (tracked : ∃ chain, Routes.Ordered env.base s.table s.present chain)
    (admitted : call.Admitted env s) (isStep : routeStep env call s = some (res, after))
    (isRight : call.Right env s res after) : call.Fits env s := by
  obtain ⟨chain, ordered⟩ := tracked
  have enough := lt_succ_of_le ordered.length_eq.le
  obtain ⟨_, isRun, isDone⟩ := map_eq_some_iff.mp isStep
  cases isDone
  cases call with
  | add request rt prev =>
    obtain ⟨noGateway, _, notNull, notBase, notPresent⟩ := admitted
    obtain ⟨_, isAdd, isRoute⟩ := ipRtAdd_eq env noGateway (s.present.length + 1) rt prev s.table
    obtain ⟨t, isLink, isDone⟩ := map_eq_some_iff.mp isRun
    cases isDone
    rw [isAdd] at isLink
    obtain ⟨_, holds⟩ := isRight
    exact ordered.prevSet_of_holds isRoute (ordered.fresh notBase notPresent) notNull enough
      isLink holds
  | del dst devname =>
    obtain ⟨t, isDel, -⟩ := map_eq_some_iff.mp isRun
    obtain ⟨_, isLoop, -⟩ := map_eq_some_iff.mp isDel
    have ran := unlinkLoop_returns ordered.linked ordered.nodup ordered.notNull isLoop
    by_cases isNamed : devname = 0
    · exact .inl isNamed
    right
    intro route isRoute isDst
    obtain ⟨entry, mem, rfl⟩ := ordered.mem_iff.mp isRoute
    exact isSome_strcmp_of_drops (ran entry mem) isNamed isDst
  | flush dev => trivial
  | lookup daddr wantsSrc =>
    obtain ⟨⟨_, t⟩, isRouted, -⟩ := map_eq_some_iff.mp isRun
    exact ordered.matched_of_lookup enough isRouted

section

variable (baseNotNull : env.base ≠ 0)
  (tracked : ∃ chain, Routes.Ordered env.base s.table s.present chain)
  (admitted : call.Admitted env s)
include baseNotNull tracked admitted

lemma RouteCall.right_iff_fits :
    (∃ res after, routeStep env call s = some (res, after) ∧
      call.Right env s res after) ↔ call.Fits env s := by
  constructor
  · rintro ⟨res, after, isStep, isRight⟩
    exact fits_of_right tracked admitted isStep isRight
  intro fits
  obtain ⟨res, after, isStep, isRight, -⟩ := right_of_fits baseNotNull tracked admitted fits
  exact ⟨res, after, isStep, isRight⟩

lemma RouteCall.tracked_of_fits {res : Option Routed} {after : RouteState}
    (isStep : routeStep env call s = some (res, after)) (fits : call.Fits env s) :
    ∃ chain, Routes.Ordered env.base after.table after.present chain := by
  obtain ⟨_, _, isStep', -, tracked'⟩ := right_of_fits baseNotNull tracked admitted fits
  cases isStep.symm.trans isStep'
  exact tracked'

end

lemma Routes.ordered_nil {empty : Routes} (isEmpty : empty.next base = 0) :
    Routes.Ordered base empty [] [] :=
  ⟨⟨isEmpty, nodup_singleton base, not_mem_nil, List.Perm.nil⟩, List.Pairwise.nil,
    fun _ mem => absurd mem not_mem_nil⟩

/-- Runs of calls keep the cells in step with the routes, and every lookup returns the longest
match, exactly if every call fits. -/
theorem route_longestPrefix_iff {calls : List RouteCall} {empty : Routes}
    (baseNotNull : env.base ≠ 0) (isEmpty : empty.next env.base = 0)
    (admitted : AtEach (routeStep env) (RouteCall.Admitted env) calls ⟨empty, []⟩) :
    ReturnsEach (routeStep env) (RouteCall.Right env) calls ⟨empty, []⟩ ↔
      AtEach (routeStep env) (RouteCall.Fits env) calls ⟨empty, []⟩ :=
  returnsEach_iff_atEach_of_admitted
    (fun tracked isAdmitted => RouteCall.right_iff_fits baseNotNull tracked isAdmitted)
    (fun tracked isAdmitted isStep fits =>
      RouteCall.tracked_of_fits baseNotNull tracked isAdmitted isStep fits)
    ⟨[], Routes.ordered_nil isEmpty⟩ admitted

def oneDevice : RouteEnv :=
  ⟨1, fun _ => ⟨1500, 6, 1, 0x0a000001, 0xff000000, 14, iffUp, fun _ => 0, fun _ => 0⟩, fun _ => 0,
    fun _ => 0, 0⟩

def noRoutes : Routes :=
  ⟨fun _ => 0, fun _ => 0, fun _ => 0, fun _ => 0, fun _ => 0, fun _ => 0, fun _ => 0, fun _ => 0,
    fun _ => 0⟩

def plainRequest (dst mask : BitVec 32) : RouteRequest := ⟨0, dst, mask, 0, 1, 0, 0⟩

def twoRoutes : List RouteCall :=
  [.add (plainRequest 0x0a000000 0xff000000) 8 1, .add (plainRequest 0 0) 16 64,
    .lookup 0x0a000002 false, .lookup 0x0b000002 true]

/-- Both lookups return the longest match. -/
theorem route_longestPrefix_iff_twoRoutes :
    AtEach (routeStep oneDevice) (RouteCall.Admitted oneDevice) twoRoutes ⟨noRoutes, []⟩ ∧
      ReturnsEach (routeStep oneDevice) (RouteCall.Right oneDevice) twoRoutes ⟨noRoutes, []⟩ := by
  have admitted : AtEach (routeStep oneDevice) (RouteCall.Admitted oneDevice) twoRoutes
      ⟨noRoutes, []⟩ := by
    refine atEach_extend rfl ⟨by decide, ⟨8, by decide, by decide⟩, by decide, by decide, ?_⟩ ?_
    · decide
    refine atEach_extend rfl ⟨by decide, ⟨0, by decide, by decide⟩, by decide, by decide, ?_⟩ ?_
    · decide
    refine atEach_extend rfl ?_ (atEach_extend rfl ?_ trivial)
    · exact fun _ _ => show (0x0a000002 : BitVec 32) ≠ 0x0a000001 by decide
    · exact fun _ _ => show (0x0b000002 : BitVec 32) ≠ 0x0a000001 by decide
  refine ⟨admitted, (route_longestPrefix_iff (by decide) rfl admitted).mpr ?_⟩
  refine atEach_extend rfl (.inl rfl) ?_
  refine atEach_extend rfl (.inr ⟨_, mem_cons_self, by decide, by decide⟩) ?_
  refine atEach_extend rfl ⟨_, mem_cons_of_mem _ mem_cons_self, by decide⟩ ?_
  exact atEach_extend rfl ⟨_, mem_cons_self, by decide⟩ trivial

/-- A lookup in the empty table does not return, nor does one after a route has been added to it
with something else in `prev`: the route is in its entry, and not in the table. -/
theorem not_right_emptyTable :
    routeStep oneDevice (.lookup 0x0a000002 false) ⟨noRoutes, []⟩ = none ∧
      ∃ after, routeStep oneDevice (.add (plainRequest 0x0a000000 0xff000000) 8 64)
          ⟨noRoutes, []⟩ = some (none, after) ∧
        (after.table.route 8).Matches 0x0a000002 ∧ after.table.next oneDevice.base = 0 ∧
        routeStep oneDevice (.lookup 0x0a000002 false) after = none :=
  ⟨rfl, _, rfl, by decide, rfl, rfl⟩

end PrettyOS.Net
