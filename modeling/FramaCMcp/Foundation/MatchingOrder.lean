/-
This file counts the outcomes of a matching and shows that the order of two marked lists does not
matter exactly where the marks are balanced.
-/

import FramaCMcp.Foundation.Matching

namespace Matching

variable {Status : Type} [DecidableEq Status]

/-- These marks have a partner in the other list. -/
def paired (counts : Outcome → Nat) : Nat :=
  counts .raised + counts .lowered + counts .changed + counts .kept

theorem paired_add (first second : Outcome → Nat) :
    paired (first + second) = paired first + paired second := by
  simp only [paired, Pi.add_apply]
  omega

theorem paired_outcome (now was : Bool × Status) : paired (Pi.single (outcome now was) 1) = 1 := by
  unfold outcome
  split_ifs <;> rfl

theorem outcome_added (now was : Bool × Status) :
    (Pi.single (outcome now was) 1 : Outcome → Nat) .added = 0 := by
  unfold outcome
  split_ifs <;> rfl

theorem outcome_removed (now was : Bool × Status) :
    (Pi.single (outcome now was) 1 : Outcome → Nat) .removed = 0 := by
  unfold outcome
  split_ifs <;> rfl

theorem tally_current (now was : List (Bool × Status)) :
    paired (tally now was) + tally now was .added = now.length := by
  induction now generalizing was with
  | nil => rfl
  | cons mark rest ih =>
      unfold tally
      cases taken : takeMin (rank mark) was with
      | none =>
          have later := ih was
          have none : paired (Pi.single .added 1) = 0 := rfl
          simp only [paired_add, Pi.add_apply, Pi.single_eq_same, List.length_cons]
          omega
      | some found =>
          have later := ih found.2
          have one := paired_outcome mark found.1
          have fresh := outcome_added mark found.1
          simp only [paired_add, Pi.add_apply, List.length_cons]
          omega

theorem tally_earlier (now was : List (Bool × Status)) :
    paired (tally now was) + tally now was .removed = was.length := by
  induction now generalizing was with
  | nil => exact Nat.zero_add _
  | cons mark rest ih =>
      unfold tally
      cases taken : takeMin (rank mark) was with
      | none =>
          have later := ih was
          have none : paired (Pi.single .added 1) = 0 := rfl
          have kept : (Pi.single .added 1 : Outcome → Nat) .removed = 0 := rfl
          simp only [paired_add, Pi.add_apply]
          omega
      | some found =>
          have later := ih found.2
          have one := paired_outcome mark found.1
          have gone := outcome_removed mark found.1
          have size := (takeMin_spec taken).1.length_eq
          rw [List.length_cons] at size
          simp only [paired_add, Pi.add_apply]
          omega

/-- Every mark of a reordered list finds its own. -/
theorem tally_perm {now was : List (Bool × Status)} (permuted : now.Perm was) :
    tally now was = Pi.single .kept now.length := by
  induction now generalizing was with
  | nil =>
      rw [permuted.symm.eq_nil]
      funext result
      cases result <;> rfl
  | cons mark rest ih =>
      have member : mark ∈ was := permuted.subset (List.mem_cons_self ..)
      unfold tally
      cases taken : takeMin (rank mark) was with
      | none =>
          rw [takeMin_eq_none.mp taken] at member
          cases member
      | some found =>
          obtain ⟨split, least⟩ := takeMin_spec taken
          have zero : rank mark found.1 = 0 :=
            Nat.le_zero.mp (le_of_le_of_eq (least mark member) (rank_self mark))
          have own : found.1 = mark := rank_eq_zero.mp zero
          rw [own] at split
          have others : rest.Perm found.2 := (permuted.trans split).cons_inv
          have kept : outcome mark mark = .kept := by simp [outcome]
          simp only [own, kept, ih others, List.length_cons]
          funext result
          cases result <;> simp [Nat.add_comm]

theorem balanced_empty (now : Multiset (Bool × Status)) : Balanced now 0 where
  sides := .inl rfl
  room := by
    intro half status _ earlier
    cases earlier

/-- Balanced lists give the expected outcomes in every order. -/
theorem Balanced.tally_eq {now was : List (Bool × Status)}
    (balanced : Balanced (now : Multiset (Bool × Status)) was) :
    tally now was = expected (now : Multiset (Bool × Status)) was := by
  induction now generalizing was with
  | nil =>
      have total := card_eq_sides (was : Multiset (Bool × Status))
      rw [Multiset.coe_card] at total
      funext result
      cases result <;> simp [tally, expected, expectedOf, side, total]
  | cons mark rest ih =>
      rw [← Multiset.cons_coe] at balanced ⊢
      unfold tally
      cases taken : takeMin (rank mark) was with
      | none =>
          obtain rfl := takeMin_eq_none.mp taken
          rw [ih (balanced_empty _)]
          have total := card_eq_sides (rest : Multiset (Bool × Status))
          funext result
          cases result <;> cases half : mark.1 <;>
            simp [expected, expectedOf, half, side] <;> omega
      | some found =>
          rcases found with ⟨least, others⟩
          obtain ⟨permuted, smaller⟩ := takeMin_spec taken
          have split : (was : Multiset (Bool × Status)) = least ::ₘ others :=
            Multiset.coe_eq_coe.mpr permuted
          have smallest : ∀ other ∈ least ::ₘ (others : Multiset (Bool × Status)),
              rank mark least ≤ rank mark other := by
            intro other member
            rw [← split] at member
            exact smaller other member
          rw [split] at balanced ⊢
          rw [balanced.expected_step smallest, ← ih (balanced.step smallest)]

/-- Every order of the two lists gives this result. -/
def OrderFree (now was : Multiset (Bool × Status)) (result : Outcome → Nat) : Prop :=
  ∀ current earlier : List (Bool × Status), (current : Multiset (Bool × Status)) = now →
    (earlier : Multiset (Bool × Status)) = was → tally current earlier = result

variable {now was : Multiset (Bool × Status)} {result : Outcome → Nat}

theorem Balanced.orderFree (balanced : Balanced now was) :
    OrderFree now was (expected now was) := by
  rintro current earlier rfl rfl
  exact balanced.tally_eq

/-- The rest after one step has one result as well. -/
theorem OrderFree.step {mark least : Bool × Status}
    (free : OrderFree (mark ::ₘ now) (least ::ₘ was) result)
    (smallest : ∀ other ∈ was, rank mark least ≤ rank mark other) :
    ∃ rest, OrderFree now was rest ∧ result = Pi.single (outcome mark least) 1 + rest := by
  have first : ∀ current earlier : List (Bool × Status), (current : Multiset (Bool × Status)) = now →
      (earlier : Multiset (Bool × Status)) = was →
        result = Pi.single (outcome mark least) 1 + tally current earlier := by
    rintro current earlier rfl rfl
    have whole := free (mark :: current) (least :: earlier) rfl rfl
    rw [tally, takeMin_head smallest] at whole
    exact whole.symm
  obtain ⟨current, sameNow⟩ := Quot.exists_rep now
  obtain ⟨earlier, sameWas⟩ := Quot.exists_rep was
  refine ⟨tally current earlier, ?_, first current earlier sameNow sameWas⟩
  intro other older same before
  have one := first other older same before
  have two := first current earlier sameNow sameWas
  exact add_left_cancel (one.symm.trans two)

theorem exists_least (mark : Bool × Status) {was : Multiset (Bool × Status)} (some : was ≠ 0) :
    ∃ least others, was = least ::ₘ others ∧ ∀ other ∈ was, rank mark least ≤ rank mark other := by
  obtain ⟨items, rfl⟩ := Quot.exists_rep was
  cases taken : takeMin (rank mark) items with
  | none =>
      rw [takeMin_eq_none.mp taken] at some
      exact absurd rfl some
  | some found =>
      obtain ⟨permuted, smaller⟩ := takeMin_spec taken
      exact ⟨found.1, found.2, Multiset.coe_eq_coe.mpr permuted, smaller⟩

/-- The successors of the two multisets are balanced and give one result. -/
def Settled (now was : Multiset (Bool × Status)) (result : Outcome → Nat) : Prop :=
  ∀ mark least current earlier, now = mark ::ₘ current → was = least ::ₘ earlier →
    (∀ other ∈ was, rank mark least ≤ rank mark other) →
      Balanced current earlier ∧
        result = Pi.single (outcome mark least) 1 + expected current earlier

/-- A mark of one side takes an earlier mark, and the other side is still there. -/
theorem Settled.single (settled : Settled now was result) {half : Bool} (own : 0 < side half now)
    (other : 0 < side (!half) now) (more : was.card < now.card) (some : was ≠ 0) :
    was.card = 1 ∨ side half now = 1 := by
  obtain ⟨mark, member, level⟩ := Multiset.countP_pos.mp own
  obtain ⟨current, rfl⟩ := Multiset.exists_cons_of_mem member
  obtain ⟨least, earlier, rfl, smallest⟩ := exists_least mark some
  have sides := (settled mark least current earlier rfl rfl smallest).1.sides
  rw [side_cons] at own other ⊢
  rw [Multiset.card_cons, Multiset.card_cons] at more
  rw [Multiset.card_cons]
  rw [← Multiset.card_eq_zero] at sides
  rw [level] at other ⊢
  cases half <;>
    simp only [Bool.not_true, Bool.not_false, if_true, if_false, reduceCtorEq] at other ⊢ <;> omega

theorem Settled.sides (settled : Settled now was result) :
    was = 0 ∨ now.card ≤ was.card ∨ side true now = 0 ∨ side false now = 0 := by
  by_contra fails
  push Not at fails
  obtain ⟨some, more, ups, downs⟩ := fails
  have up := settled.single (Nat.pos_of_ne_zero ups) (Nat.pos_of_ne_zero downs) more some
  have down := settled.single (Nat.pos_of_ne_zero downs) (Nat.pos_of_ne_zero ups) more some
  have total := card_eq_sides now
  have nonempty : 0 < was.card := Multiset.card_pos.mpr some
  have lone : was.card = 1 := by omega
  obtain ⟨least, rfl⟩ := Multiset.card_eq_one.mp lone
  have outcomes : ∀ mark ∈ now, ∀ end_ ∈ [Outcome.raised, .lowered],
      result end_ = (Pi.single (outcome mark least) 1 : Outcome → Nat) end_ := by
    intro mark member end_ kind
    obtain ⟨current, rfl⟩ := Multiset.exists_cons_of_mem member
    have step := (settled mark least current 0 rfl rfl (by simp)).2
    rw [step, Pi.add_apply]
    rcases List.mem_pair.mp kind with rfl | rfl <;> simp [expected, expectedOf, side]
  obtain ⟨up, upMember, upLevel⟩ := Multiset.countP_pos.mp (Nat.pos_of_ne_zero ups)
  obtain ⟨down, downMember, downLevel⟩ := Multiset.countP_pos.mp (Nat.pos_of_ne_zero downs)
  cases level : least.1 with
  | true =>
      have one := outcomes up upMember .lowered (by simp)
      have two := outcomes down downMember .lowered (by simp)
      rw [one] at two
      by_cases same : least.2 = up.2 <;> simp [outcome, upLevel, downLevel, level, same] at two
  | false =>
      have one := outcomes up upMember .raised (by simp)
      have two := outcomes down downMember .raised (by simp)
      rw [two] at one
      by_cases same : least.2 = down.2 <;> simp [outcome, upLevel, downLevel, level, same] at one

/-- A mark that the common ones keep is not taken by another one. -/
theorem spare_of_inter {mark least : Bool × Status} (different : mark ≠ least)
    (kept : ((mark ::ₘ now) ∩ (least ::ₘ was)).card = (now ∩ was).card) :
    now.count least ≤ was.count least := by
  by_contra more
  have fewer : now ∩ was < (mark ::ₘ now) ∩ (least ::ₘ was) := by
    refine lt_of_le_of_ne ?_ ?_
    · exact Multiset.le_inter (le_trans Multiset.inter_le_left (Multiset.le_cons_self ..))
        (le_trans Multiset.inter_le_right (Multiset.le_cons_self ..))
    · intro same
      have counts := congrArg (Multiset.count least) same
      rw [Multiset.count_inter, Multiset.count_inter, Multiset.count_cons_self,
        Multiset.count_cons_of_ne different.symm] at counts
      omega
  have smaller := Multiset.card_lt_card fewer
  omega

/-- The common marks are kept where both lists have some mark. -/
theorem Settled.kept {now was : Multiset (Bool × Status)} {result : Outcome → Nat}
    (settled : Settled now was result) {mark : Bool × Status} (current : 0 < now.count mark)
    (earlier : 0 < was.count mark) : result .kept = (now ∩ was).card := by
  obtain ⟨rest, rfl⟩ := Multiset.exists_cons_of_mem (Multiset.count_pos.mp current)
  obtain ⟨others, rfl⟩ := Multiset.exists_cons_of_mem (Multiset.count_pos.mp earlier)
  have least : ∀ other ∈ mark ::ₘ others, rank mark mark ≤ rank mark other := by
    intro other _
    rw [rank_self]
    exact Nat.zero_le _
  rw [(settled mark mark rest others rfl rfl least).2, ← Multiset.cons_inter_distrib,
    Multiset.card_cons, Pi.add_apply]
  simp [outcome, expected, expectedOf]
  omega

/-- The balance of the rest gives room to a mark that another one takes. -/
theorem Settled.taken {mark : Bool × Status} {half : Bool} {status : Status}
    (settled : Settled (mark ::ₘ now) ((half, status) ::ₘ was) result)
    (smallest : ∀ other ∈ (half, status) ::ₘ was, rank mark (half, status) ≤ rank mark other)
    (different : mark ≠ (half, status)) (current : 0 < now.count (half, status)) :
    now.count (half, status) ≤ was.count (half, status) ∧
      ∀ statuses : Finset Status, status ∉ statuses → Roomy half status statuses now was := by
  obtain ⟨balanced, same⟩ := settled mark (half, status) now was rfl rfl smallest
  have kept := @Settled.kept _ _ _ _ _ settled (half, status)
    (by rw [Multiset.count_cons_of_ne different.symm]; exact current)
    (by rw [Multiset.count_cons_self]; omega)
  have own : outcome mark (half, status) ≠ .kept := by
    unfold outcome
    rcases mark with ⟨side, text⟩
    by_cases level : side = half
    · subst level
      have other : status ≠ text := fun equal => different (by rw [equal])
      simp [other]
    · simp only [level, if_false]
      split_ifs <;> simp
  have spare : now.count (half, status) ≤ was.count (half, status) := by
    apply spare_of_inter different
    rw [← kept, same, Pi.add_apply, Pi.single_eq_of_ne own.symm, Nat.zero_add]
    rfl
  exact ⟨spare, balanced.room half status current (Nat.lt_of_lt_of_le current spare)⟩

section Room

variable {now was : Multiset (Bool × Status)} {result : Outcome → Nat} {half : Bool}
  {status : Status} {statuses : Finset Status}

/-- A current mark of the same side and of one of the statuses takes a mark that the room counts. -/
theorem Settled.room_own (settled : Settled now was result) (current : 0 < now.count (half, status))
    (earlier : 0 < was.count (half, status)) (fresh : status ∉ statuses) {text : Status}
    (member : (half, text) ∈ now) (named : text ∈ statuses) : Roomy half status statuses now was := by
  have other : text ≠ status := fun same => fresh (same ▸ named)
  have different : (half, text) ≠ (half, status) := fun same => other (Prod.ext_iff.mp same).2
  obtain ⟨rest, rfl⟩ := Multiset.exists_cons_of_mem member
  rw [Multiset.count_cons_of_ne different.symm] at current
  by_cases found : (half, text) ∈ was
  · obtain ⟨others, rfl⟩ := Multiset.exists_cons_of_mem found
    rw [Multiset.count_cons_of_ne different.symm] at earlier
    have least : ∀ mark ∈ (half, text) ::ₘ others,
        rank (half, text) (half, text) ≤ rank (half, text) mark := by
      intro mark _
      rw [rank_self]
      exact Nat.zero_le _
    have room := (settled _ _ rest others rfl rfl least).1.room half status current earlier
      statuses fresh
    unfold Roomy at room ⊢
    simp [side_cons, within_cons, named, other.symm] at room ⊢
    omega
  · obtain ⟨others, rfl⟩ := Multiset.exists_cons_of_mem (Multiset.count_pos.mp earlier)
    have least : ∀ mark ∈ (half, status) ::ₘ others,
        rank (half, text) (half, status) ≤ rank (half, text) mark := by
      intro mark inside
      have positive : rank (half, text) mark ≠ 0 := by
        rw [Ne, rank_eq_zero]
        exact fun same => found (same ▸ inside)
      have lone : rank (half, text) (half, status) = 1 := by simp [rank, other.symm]
      rw [lone]
      exact Nat.pos_of_ne_zero positive
    obtain ⟨spare, rooms⟩ := settled.taken least different current
    have room := rooms statuses fresh
    unfold Roomy at room ⊢
    simp [side_cons, within_cons, named, other.symm, fresh] at room ⊢
    omega

/-- A current mark of the other side takes a mark of its side, as long as there is one. -/
theorem Settled.room_across (settled : Settled now was result)
    (current : 0 < now.count (half, status)) (earlier : 0 < was.count (half, status))
    (fresh : status ∉ statuses) (across : 0 < side (!half) was)
    (more : side (!half) was < side (!half) now) : Roomy half status statuses now was := by
  have chosen : ∃ mark ∈ now, mark.1 = !half ∧ (mark.2 ∈ insert status statuses →
      within (!half) (insert status statuses) now = side (!half) now) := by
    by_cases outside : ∃ mark ∈ now, mark.1 = !half ∧ mark.2 ∉ insert status statuses
    · obtain ⟨mark, member, level, absent⟩ := outside
      exact ⟨mark, member, level, fun inside => absurd inside absent⟩
    · obtain ⟨mark, member, level⟩ :=
        Multiset.countP_pos.mp (Nat.lt_of_le_of_lt (Nat.zero_le _) more)
      refine ⟨mark, member, level, fun _ => ?_⟩
      push Not at outside
      apply Multiset.countP_congr rfl
      intro other inside
      simp only [eq_iff_iff, and_iff_left_iff_imp]
      exact outside other inside
  obtain ⟨⟨own, text⟩, member, level, all⟩ := chosen
  obtain rfl : own = !half := level
  obtain ⟨rest, rfl⟩ := Multiset.exists_cons_of_mem member
  have some : was ≠ 0 := by
    rintro rfl
    cases across
  obtain ⟨⟨other, old⟩, others, rfl, least⟩ := exists_least (!half, text) some
  have near : other = !half := by
    by_contra far
    rw [side_eq_zero_of_least least far] at across
    cases across
  subst near
  rw [Multiset.count_cons_of_ne (by simp)] at current earlier
  have room := (settled _ _ rest others rfl rfl least).1.room half status current earlier statuses
    fresh
  unfold Roomy at room ⊢
  simp only [side_cons, within_cons, if_true, true_and, Bool.not_eq_self,
    false_and, if_false] at room more across all ⊢
  rw [Multiset.count_cons_of_ne (by simp), Multiset.count_cons_of_ne (by simp)]
  have most := within_le_side (!half) (insert status statuses) rest
  split_ifs at all ⊢ with inside
  · have equal := all inside
    omega
  · omega

theorem Settled.room_crossing (settled : Settled now was result)
    (current : 0 < now.count (half, status)) (earlier : 0 < was.count (half, status))
    (fresh : status ∉ statuses) (empty : side (!half) was = 0) {text : Status}
    (member : (!half, text) ∈ now) (named : text ∈ insert status statuses) :
    Roomy half status statuses now was := by
  have alone : ∀ mark ∈ was, mark.1 = half := by
    intro mark inside
    have none := Multiset.countP_eq_zero.mp empty mark inside
    simpa using none
  obtain ⟨rest, rfl⟩ := Multiset.exists_cons_of_mem member
  rw [Multiset.count_cons_of_ne (by simp)] at current
  by_cases own : text = status
  · subst own
    obtain ⟨others, rfl⟩ := Multiset.exists_cons_of_mem (Multiset.count_pos.mp earlier)
    have least : ∀ mark ∈ (half, text) ::ₘ others,
        rank (!half, text) (half, text) ≤ rank (!half, text) mark := by
      intro mark inside
      simp [rank, alone mark inside]
    obtain ⟨spare, rooms⟩ := settled.taken least (by simp) current
    have room := rooms statuses fresh
    unfold Roomy at room ⊢
    simp [side_cons, within_cons, fresh] at room empty ⊢
    omega
  · have inside : text ∈ statuses := by simpa [own] using named
    by_cases found : (half, text) ∈ was
    · obtain ⟨others, rfl⟩ := Multiset.exists_cons_of_mem found
      rw [Multiset.count_cons_of_ne (by simp [Ne.symm own])] at earlier
      have least : ∀ mark ∈ (half, text) ::ₘ others,
          rank (!half, text) (half, text) ≤ rank (!half, text) mark := by
        intro mark inside
        simp [rank, alone mark inside]
      have room := (settled _ _ rest others rfl rfl least).1.room half status current earlier
        statuses fresh
      unfold Roomy at room ⊢
      simp [side_cons, within_cons, inside, Ne.symm own] at room empty ⊢
      omega
    · obtain ⟨others, rfl⟩ := Multiset.exists_cons_of_mem (Multiset.count_pos.mp earlier)
      have least : ∀ mark ∈ (half, status) ::ₘ others,
          rank (!half, text) (half, status) ≤ rank (!half, text) mark := by
        intro mark inside
        have different : mark.2 ≠ text := by
          intro same
          have equal : mark = (half, text) := Prod.ext_iff.mpr ⟨alone mark inside, same⟩
          exact found (equal ▸ inside)
        simp [rank, alone mark inside, different, Ne.symm own]
      obtain ⟨spare, rooms⟩ := settled.taken least (by simp) current
      have room := rooms statuses fresh
      unfold Roomy at room ⊢
      simp [side_cons, within_cons, inside, Ne.symm own, fresh] at room empty ⊢
      omega

theorem Settled.room (settled : Settled now was result)
    (current : 0 < now.count (half, status)) (earlier : 0 < was.count (half, status))
    (fresh : status ∉ statuses) : Roomy half status statuses now was := by
  by_cases owns : 0 < within half statuses now
  · obtain ⟨⟨own, text⟩, member, level, named⟩ := Multiset.countP_pos.mp owns
    obtain rfl : own = half := level
    exact settled.room_own current earlier fresh member named
  · by_cases crowded : 0 < min (side (!half) now - side (!half) was)
        (within (!half) (insert status statuses) now)
    · by_cases empty : side (!half) was = 0
      · have others : 0 < within (!half) (insert status statuses) now := by omega
        obtain ⟨⟨other, text⟩, member, level, named⟩ := Multiset.countP_pos.mp others
        obtain rfl : other = !half := level
        exact settled.room_crossing current earlier fresh empty member named
      · exact settled.room_across current earlier fresh (Nat.pos_of_ne_zero empty) (by omega)
    · unfold Roomy
      omega

end Room

/-- Lists that give one result in every order are balanced. -/
theorem OrderFree.balanced (free : OrderFree now was result) : Balanced now was := by
  induction now using Multiset.strongInductionOn generalizing was result with
  | ih now ih =>
      have settled : Settled now was result := by
        rintro mark least current earlier rfl rfl smallest
        obtain ⟨rest, free, same⟩ := free.step fun other member =>
          smallest other (Multiset.mem_cons_of_mem member)
        have balanced := ih current (Multiset.lt_cons_self ..) free
        refine ⟨balanced, ?_⟩
        obtain ⟨items, rfl⟩ := Quot.exists_rep current
        obtain ⟨others, rfl⟩ := Quot.exists_rep earlier
        rw [same, ← free items others rfl rfl, ← balanced.orderFree items others rfl rfl]
      exact ⟨settled.sides, fun half status current earlier statuses fresh =>
        settled.room current earlier fresh⟩

/-- The order of the lists does not matter exactly where the marks are balanced. -/
theorem orderFree_iff (now was : List (Bool × Status)) :
    (∀ current earlier, current.Perm now → earlier.Perm was →
        tally current earlier = tally now was) ↔
      Balanced (now : Multiset (Bool × Status)) was := by
  refine ⟨fun same => ?_, fun balanced current earlier sameNow sameWas => ?_⟩
  · have free : OrderFree (now : Multiset (Bool × Status)) was (tally now was) :=
      fun current earlier sameNow sameWas =>
        same current earlier (Multiset.coe_eq_coe.mp sameNow) (Multiset.coe_eq_coe.mp sameWas)
    exact free.balanced
  · rw [balanced.orderFree current earlier (Multiset.coe_eq_coe.mpr sameNow)
      (Multiset.coe_eq_coe.mpr sameWas), balanced.tally_eq]

end Matching
