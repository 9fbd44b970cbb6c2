/-
This file matches two lists of marked items greedily and says when the order of the lists does not
matter.
-/

import Mathlib.Data.Multiset.Count
import Mathlib.Data.Multiset.UnionInter
import Mathlib.Data.Finset.Insert
import Mathlib.Algebra.Group.Pi.Basic
import Mathlib.Algebra.Order.Ring.Int

namespace Matching

def takeMin {Item : Type} (key : Item → Nat) : List Item → Option (Item × List Item)
  | [] => none
  | item :: rest =>
      match takeMin key rest with
      | none => some (item, rest)
      | some (least, others) =>
          if key item ≤ key least then some (item, rest) else some (least, item :: others)

theorem takeMin_eq_none {Item : Type} {key : Item → Nat} {items : List Item} :
    takeMin key items = none ↔ items = [] := by
  cases items with
  | nil => exact iff_of_true rfl rfl
  | cons item rest =>
      unfold takeMin
      split
      · simp
      · split_ifs <;> simp

theorem takeMin_spec {Item : Type} {key : Item → Nat} {items : List Item} {least : Item}
    {others : List Item} (taken : takeMin key items = some (least, others)) :
    items.Perm (least :: others) ∧ ∀ item ∈ items, key least ≤ key item := by
  induction items generalizing least others with
  | nil => cases taken
  | cons item rest ih =>
      unfold takeMin at taken
      cases later : takeMin key rest with
      | none =>
          rw [later] at taken
          cases taken
          rw [takeMin_eq_none.mp later]
          refine ⟨.refl _, ?_⟩
          intro other member
          rw [List.mem_singleton.mp member]
      | some found =>
          rcases found with ⟨smallest, left⟩
          obtain ⟨permuted, smaller⟩ := ih later
          simp only [later] at taken
          split_ifs at taken with first
          · cases taken
            refine ⟨.refl _, List.forall_mem_cons.mpr ⟨le_refl _, ?_⟩⟩
            exact fun other member => le_trans first (smaller other member)
          · cases taken
            refine ⟨(permuted.cons item).trans (.swap ..), List.forall_mem_cons.mpr ⟨?_, smaller⟩⟩
            exact Nat.le_of_not_le first

theorem takeMin_head {Item : Type} {key : Item → Nat} {item : Item} {rest : List Item}
    (least : ∀ other ∈ rest, key item ≤ key other) :
    takeMin key (item :: rest) = some (item, rest) := by
  unfold takeMin
  cases later : takeMin key rest with
  | none => rfl
  | some found =>
      have member : found.1 ∈ rest :=
        (takeMin_spec later).1.symm.subset (List.mem_cons_self ..)
      simp only [least found.1 member, if_true]

theorem takeMin_map {Item Mark : Type} (mark : Item → Mark) (key : Mark → Nat)
    (items : List Item) :
    takeMin key (items.map mark) =
      (takeMin (fun item => key (mark item)) items).map fun found =>
        (mark found.1, found.2.map mark) := by
  induction items with
  | nil => rfl
  | cons item rest ih =>
      rw [List.map_cons, takeMin, takeMin, ih]
      cases takeMin (fun item => key (mark item)) rest with
      | none => rfl
      | some found =>
          simp only [Option.map_some]
          split_ifs <;> rfl

section Marks

variable {Status : Type} [DecidableEq Status]

/-- An item of the same side comes before one of the same status. -/
def rank (now was : Bool × Status) : Nat :=
  (if was.1 = now.1 then 0 else 2) + (if was.2 = now.2 then 0 else 1)

inductive Outcome where
  | raised
  | lowered
  | changed
  | kept
  | added
  | removed
  deriving DecidableEq, Repr

def outcome (now was : Bool × Status) : Outcome :=
  if now.1 = was.1 then (if was.2 = now.2 then .kept else .changed)
  else if now.1 then .raised else .lowered

/-- Each current mark takes the first earlier mark of the least rank. -/
def tally : List (Bool × Status) → List (Bool × Status) → Outcome → Nat
  | [], earlier => Pi.single .removed earlier.length
  | now :: rest, earlier =>
      match takeMin (rank now) earlier with
      | none => Pi.single .added 1 + tally rest earlier
      | some (was, others) => Pi.single (outcome now was) 1 + tally rest others

def side (half : Bool) (marks : Multiset (Bool × Status)) : Nat :=
  marks.countP fun mark => mark.1 = half

/-- The number of the marks of one side with a status of the set. -/
def within (half : Bool) (statuses : Finset Status) (marks : Multiset (Bool × Status)) : Nat :=
  marks.countP fun mark => mark.1 = half ∧ mark.2 ∈ statuses

/-- The marks with the other statuses fit without the earlier marks that one mark needs. The marks
of the other side that find no room there count as well. -/
def Roomy (half : Bool) (status : Status) (statuses : Finset Status)
    (now was : Multiset (Bool × Status)) : Prop :=
  min (side (!half) now - side (!half) was) (within (!half) (insert status statuses) now) +
      within half statuses now ≤
    within half statuses was + (was.count (half, status) - now.count (half, status))

/-- The sides fit, and no set of statuses crowds out a mark that both lists have. -/
structure Balanced (now was : Multiset (Bool × Status)) : Prop where
  sides : was = 0 ∨ now.card ≤ was.card ∨ side true now = 0 ∨ side false now = 0
  room : ∀ (half : Bool) (status : Status), 0 < now.count (half, status) →
    0 < was.count (half, status) → ∀ statuses : Finset Status, status ∉ statuses →
      Roomy half status statuses now was

omit [DecidableEq Status] in
theorem side_cons (half : Bool) (mark : Bool × Status) (marks : Multiset (Bool × Status)) :
    side half (mark ::ₘ marks) = side half marks + if mark.1 = half then 1 else 0 :=
  Multiset.countP_cons ..

theorem within_cons (half : Bool) (statuses : Finset Status) (mark : Bool × Status)
    (marks : Multiset (Bool × Status)) :
    within half statuses (mark ::ₘ marks) =
      within half statuses marks + if mark.1 = half ∧ mark.2 ∈ statuses then 1 else 0 :=
  Multiset.countP_cons ..

variable {statuses : Finset Status} {status : Status} {earlier : Multiset (Bool × Status)}
    {now was : Multiset (Bool × Status)} {mark least : Bool × Status}

/-- A further status adds its own marks. -/
theorem within_insert (half : Bool) (fresh : status ∉ statuses) (marks : Multiset (Bool × Status)) :
    within half (insert status statuses) marks =
      marks.count (half, status) + within half statuses marks := by
  induction marks using Multiset.induction with
  | empty => rfl
  | cons mark marks ih =>
      rcases mark with ⟨other, own⟩
      rw [within_cons, within_cons, Multiset.count_cons, ih]
      simp only [Finset.mem_insert, Prod.mk.injEq]
      by_cases same : own = status
      · subst same
        by_cases level : other = half
        · simp [level, fresh]
          omega
        · simp [level, Ne.symm level]
      · by_cases level : other = half
        · simp [level, same, Ne.symm same]
          omega
        · simp [level, Ne.symm level]

theorem within_le_side (half : Bool) (statuses : Finset Status)
    (marks : Multiset (Bool × Status)) : within half statuses marks ≤ side half marks := by
  induction marks using Multiset.induction with
  | empty => exact le_refl 0
  | cons mark marks ih =>
      rw [within_cons, side_cons]
      split_ifs with both first first
      · omega
      · exact absurd both.1 first
      · omega
      · omega

omit [DecidableEq Status] in
theorem card_eq_sides (marks : Multiset (Bool × Status)) :
    marks.card = side true marks + side false marks := by
  induction marks using Multiset.induction with
  | empty => rfl
  | cons mark marks ih =>
      rw [Multiset.card_cons, side_cons, side_cons, ih]
      cases mark.1 <;> simp <;> omega

/-- A mark of least rank has the status of the current one, or no earlier mark of that side has. -/
theorem count_eq_zero_of_least {now was : Bool × Status}
    (least : ∀ other ∈ earlier, rank now was ≤ rank now other) (same : was.1 = now.1)
    (different : was.2 ≠ now.2) : earlier.count now = 0 := by
  apply Multiset.count_eq_zero_of_notMem
  intro member
  have lower := least now member
  simp [rank, same, different] at lower

/-- A mark of the other side is taken only when the own side is empty. -/
theorem side_eq_zero_of_least {now was : Bool × Status}
    (least : ∀ other ∈ earlier, rank now was ≤ rank now other) (crossed : was.1 ≠ now.1) :
    side now.1 earlier = 0 := by
  apply Multiset.countP_eq_zero.mpr
  intro other member same
  have lower := least other member
  simp only [rank, crossed, same, if_true, if_false] at lower
  split_ifs at lower <;> omega

/-- The status comes first among the marks of the other side. -/
theorem crossed_eq_zero_of_least {now was : Bool × Status}
    (least : ∀ other ∈ earlier, rank now was ≤ rank now other) (crossed : was.1 ≠ now.1)
    (different : was.2 ≠ now.2) : earlier.count (was.1, now.2) = 0 := by
  apply Multiset.count_eq_zero_of_notMem
  intro member
  have lower := least _ member
  simp [rank, crossed, different] at lower

theorem Balanced.room_kept {mark : Bool × Status}
    (balanced : Balanced (mark ::ₘ now) (mark ::ₘ was)) {half : Bool}
    (current : 0 < now.count (half, status)) (earlier : 0 < was.count (half, status))
    (fresh : status ∉ statuses) : Roomy half status statuses now was := by
  have here := balanced.room half status (by rw [Multiset.count_cons]; omega)
    (by rw [Multiset.count_cons]; omega) statuses fresh
  unfold Roomy at here ⊢
  simp only [side_cons, within_cons, Multiset.count_cons] at here
  rcases mark with ⟨own, text⟩
  by_cases level : own = half
  · subst level
    simp only [Bool.eq_not_self, if_false, false_and, Prod.mk.injEq, true_and] at here ⊢
    split_ifs at here <;> omega
  · have other : own = !half := Bool.eq_not_of_ne level
    subst other
    simp at here
    split_ifs at here <;> omega

/-- A statement about a set of statuses holds of the set with one more status. -/
theorem Balanced.room_insert (balanced : Balanced now was) {half : Bool}
    (current : 0 < now.count (half, status)) (earlier : 0 < was.count (half, status))
    (fresh : status ∉ statuses) {wider : Status} (other : wider ≠ status)
    (absent : was.count (half, wider) = 0) :
    min (side (!half) now - side (!half) was)
        (within (!half) (insert wider (insert status statuses)) now) +
        within half (insert wider statuses) now ≤
      within half statuses was + (was.count (half, status) - now.count (half, status)) := by
  have room := balanced.room half status current earlier (insert wider statuses)
    (by simp [Ne.symm other, fresh])
  unfold Roomy at room
  rw [Finset.insert_comm] at room
  by_cases known : wider ∈ statuses
  · rw [Finset.insert_eq_of_mem known] at room ⊢
    exact room
  · rw [within_insert half known was, absent, Nat.zero_add] at room
    exact room

@[simp] theorem within_empty (half : Bool) (marks : Multiset (Bool × Status)) :
    within half ∅ marks = 0 := by
  apply Multiset.countP_eq_zero.mpr
  intro mark _ both
  simp at both

theorem within_mono (half : Bool) {statuses wider : Finset Status} (sub : statuses ⊆ wider)
    (marks : Multiset (Bool × Status)) : within half statuses marks ≤ within half wider marks := by
  induction marks using Multiset.induction with
  | empty => exact le_refl 0
  | cons mark marks ih =>
      rw [within_cons, within_cons]
      split_ifs with first second second
      · omega
      · exact absurd ⟨first.1, sub first.2⟩ second
      · omega
      · omega

theorem Balanced.room_changed {half : Bool} {text old : Status} (different : old ≠ text)
    (balanced : Balanced ((half, text) ::ₘ now) ((half, old) ::ₘ was))
    (absent : ((half, old) ::ₘ was).count (half, text) = 0) {level : Bool}
    (current : 0 < now.count (level, status)) (earlier : 0 < was.count (level, status))
    (fresh : status ∉ statuses) : Roomy level status statuses now was := by
  have current' : 0 < ((half, text) ::ₘ now).count (level, status) := by
    rw [Multiset.count_cons]; omega
  have earlier' : 0 < ((half, old) ::ₘ was).count (level, status) := by
    rw [Multiset.count_cons]; omega
  by_cases same : level = half
  · subst same
    have other : text ≠ status := by
      rintro rfl
      omega
    have none := balanced.room_insert current' earlier' (Finset.notMem_empty status) other absent
    have wide := balanced.room_insert current' earlier' fresh other absent
    have grow := within_mono (!level) (Finset.subset_insert text (insert status statuses)) now
    have grown := within_mono level (Finset.subset_insert text statuses) now
    unfold Roomy
    simp only [side_cons, within_cons, Multiset.count_cons, Prod.mk.injEq, true_and, other.symm,
      Bool.eq_not_self, false_and, if_false, Finset.mem_insert_self, if_true, within_empty,
      insert_empty_eq, Finset.mem_singleton] at none wide
    by_cases stolen : status = old
    · subst stolen
      simp only [fresh, if_true, if_false] at none wide
      omega
    · simp only [stolen, if_false] at none wide
      split_ifs at wide <;> omega
  · have here := balanced.room level status current' earlier' statuses fresh
    have other : half = !level := Bool.eq_not_of_ne (Ne.symm same)
    subst other
    unfold Roomy at here ⊢
    simp [side_cons, within_cons] at here
    split_ifs at here <;> omega
theorem count_le_side (half : Bool) (status : Status) (marks : Multiset (Bool × Status)) :
    marks.count (half, status) ≤ side half marks := by
  have part := within_le_side half {status} marks
  rw [← insert_empty_eq, within_insert half (Finset.notMem_empty status)] at part
  omega

theorem Balanced.room_crossed {half : Bool} {text old : Status}
    (balanced : Balanced ((half, text) ::ₘ now) ((!half, old) ::ₘ was)) (empty : side half was = 0)
    (absent : old ≠ text → was.count (!half, text) = 0) {level : Bool}
    (current : 0 < now.count (level, status)) (earlier : 0 < was.count (level, status))
    (fresh : status ∉ statuses) : Roomy level status statuses now was := by
  have current' : 0 < ((half, text) ::ₘ now).count (level, status) := by
    rw [Multiset.count_cons]; omega
  have earlier' : 0 < ((!half, old) ::ₘ was).count (level, status) := by
    rw [Multiset.count_cons]; omega
  have other : level = !half := by
    by_contra same
    have own : level = half := by simpa using same
    have part := count_le_side half status was
    rw [own] at earlier
    omega
  subst other
  have none := within_le_side half (insert status statuses) now
  unfold Roomy
  by_cases same : old = text
  · subst same
    have alone := balanced.room (!half) status current' earlier' ∅ (Finset.notMem_empty status)
    have here := balanced.room (!half) status current' earlier' statuses fresh
    unfold Roomy at alone here
    simp only [side_cons, within_cons, Multiset.count_cons, Prod.mk.injEq, true_and, Bool.not_not,
      Bool.not_eq_self, Bool.eq_not_self, false_and, if_false, if_true, within_empty, empty,
      insert_empty_eq, Finset.mem_singleton, Finset.mem_insert] at alone here ⊢
    by_cases stolen : old = status
    · subst stolen
      simp only [fresh, if_true, if_false, or_false] at alone here
      omega
    · simp only [stolen, Ne.symm stolen, false_or, if_false] at alone here
      split_ifs at here <;> omega
  · have gone : ((!half, old) ::ₘ was).count (!half, text) = 0 := by
      rw [Multiset.count_cons_of_ne (by simp [Ne.symm same])]
      exact absent same
    have other : text ≠ status := by
      rintro rfl
      omega
    have alone := balanced.room_insert current' earlier' (Finset.notMem_empty status) other gone
    have wide := balanced.room_insert current' earlier' fresh other gone
    have grow := within_mono half (Finset.subset_insert text (insert status statuses)) now
    have grown := within_mono (!half) (Finset.subset_insert text statuses) now
    have most := within_le_side half (insert text (insert status statuses)) now
    simp only [side_cons, within_cons, Multiset.count_cons, Prod.mk.injEq, true_and, Bool.not_not,
      Bool.not_eq_self, Bool.eq_not_self, false_and, if_false, if_true, within_empty, empty,
      insert_empty_eq, Finset.mem_insert_self, true_and] at alone wide ⊢
    by_cases stolen : status = old
    · subst stolen
      simp only [fresh, if_true, if_false] at alone wide
      omega
    · simp only [stolen, if_false] at alone wide
      split_ifs at wide <;> omega

/-- What every order gives, from the numbers of the marks of each side and of the common marks. -/
def expectedOf (up down wasUp wasDown common : Nat) : Outcome → Nat
  | .raised => min (up - wasUp) (wasDown - down)
  | .lowered => min (down - wasDown) (wasUp - up)
  | .changed => min (up + down) (wasUp + wasDown) -
      (min (up - wasUp) (wasDown - down) + min (down - wasDown) (wasUp - up) + common)
  | .kept => common
  | .added => up + down - (wasUp + wasDown)
  | .removed => wasUp + wasDown - (up + down)

def expected (now was : Multiset (Bool × Status)) : Outcome → Nat :=
  expectedOf (side true now) (side false now) (side true was) (side false was) (now ∩ was).card

theorem expectedOf_kept (up down wasUp wasDown common : Nat) :
    expectedOf (up + 1) down (wasUp + 1) wasDown (common + 1) =
        Pi.single .kept 1 + expectedOf up down wasUp wasDown common ∧
      expectedOf up (down + 1) wasUp (wasDown + 1) (common + 1) =
        Pi.single .kept 1 + expectedOf up down wasUp wasDown common := by
  constructor <;> funext result <;> cases result <;> simp [expectedOf] <;> omega

theorem expectedOf_changed {up down wasUp wasDown common : Nat}
    (few : common ≤ min up wasUp + min down wasDown) :
    expectedOf (up + 1) down (wasUp + 1) wasDown common =
        Pi.single .changed 1 + expectedOf up down wasUp wasDown common ∧
      expectedOf up (down + 1) wasUp (wasDown + 1) common =
        Pi.single .changed 1 + expectedOf up down wasUp wasDown common := by
  constructor <;> funext result <;> cases result <;> simp [expectedOf] <;> omega

theorem expectedOf_raised {up down wasDown common : Nat}
    (sides : up + down ≤ wasDown ∨ down = 0) :
    expectedOf (up + 1) down 0 (wasDown + 1) common =
      Pi.single .raised 1 + expectedOf up down 0 wasDown common := by
  funext result
  cases result <;> simp [expectedOf] <;> omega

theorem expectedOf_lowered {up down wasUp common : Nat} (sides : up + down ≤ wasUp ∨ up = 0) :
    expectedOf up (down + 1) (wasUp + 1) 0 common =
      Pi.single .lowered 1 + expectedOf up down wasUp 0 common := by
  funext result
  cases result <;> simp [expectedOf] <;> omega

theorem Balanced.step_sides (balanced : Balanced (mark ::ₘ now) (least ::ₘ was)) :
    was = 0 ∨ now.card ≤ was.card ∨ side true now = 0 ∨ side false now = 0 := by
  have sides := balanced.sides
  simp only [Multiset.cons_ne_zero, Multiset.card_cons, side_cons, false_or] at sides
  omega

theorem Balanced.step (balanced : Balanced (mark ::ₘ now) (least ::ₘ was))
    (smallest : ∀ other ∈ least ::ₘ was, rank mark least ≤ rank mark other) : Balanced now was := by
  refine ⟨balanced.step_sides, ?_⟩
  intro level status current earlier statuses fresh
  rcases mark with ⟨half, text⟩
  rcases least with ⟨other, old⟩
  by_cases same : other = half
  · subst same
    by_cases kept : old = text
    · subst kept
      exact balanced.room_kept current earlier fresh
    · exact balanced.room_changed kept (count_eq_zero_of_least smallest rfl kept) current earlier
        fresh
  · have empty := side_eq_zero_of_least smallest same
    have crossed := crossed_eq_zero_of_least smallest same
    obtain rfl : other = !half := Bool.eq_not_of_ne same
    rw [side_cons] at empty
    refine balanced.room_crossed (Nat.eq_zero_of_add_eq_zero_right empty) ?_ current earlier fresh
    intro different
    have absent := crossed different
    rw [Multiset.count_cons] at absent
    exact Nat.eq_zero_of_add_eq_zero_right absent

/-- An earlier mark that is taken by another one is not needed by its own. -/
theorem Balanced.spare (balanced : Balanced (mark ::ₘ now) (least ::ₘ was))
    (smallest : ∀ other ∈ least ::ₘ was, rank mark least ≤ rank mark other)
    (different : least ≠ mark) : now.count least ≤ was.count least := by
  rcases mark with ⟨half, text⟩
  rcases least with ⟨other, old⟩
  by_contra more
  have current : 0 < ((half, text) ::ₘ now).count (other, old) := by
    rw [Multiset.count_cons]; omega
  have earlier : 0 < ((other, old) ::ₘ was).count (other, old) := by
    rw [Multiset.count_cons_self]; omega
  by_cases same : other = half
  · subst same
    have changed : old ≠ text := fun equal => different (by rw [equal])
    have none := balanced.room_insert current earlier (Finset.notMem_empty old) changed.symm
      (count_eq_zero_of_least smallest rfl changed)
    simp [side_cons, within_cons, changed] at none
    omega
  · have empty := side_eq_zero_of_least smallest same
    obtain rfl : other = !half := Bool.eq_not_of_ne same
    have most := within_le_side half {old} now
    by_cases kept : old = text
    · subst kept
      have none := balanced.room (!half) old current earlier ∅ (Finset.notMem_empty old)
      unfold Roomy at none
      rw [side_cons] at empty
      simp [side_cons, within_cons] at none empty
      omega
    · have absent := crossed_eq_zero_of_least smallest same kept
      have none := balanced.room_insert current earlier (Finset.notMem_empty old) (Ne.symm kept)
        absent
      have most := within_le_side half {text, old} now
      rw [side_cons] at empty
      simp [side_cons, within_cons] at none empty
      omega

theorem rank_eq_zero {now was : Bool × Status} : rank now was = 0 ↔ was = now := by
  unfold rank
  rw [Prod.ext_iff]
  split_ifs with first second second <;> simp [first, second]

theorem rank_self (now : Bool × Status) : rank now now = 0 := rank_eq_zero.mpr rfl

/-- The common marks lose one mark exactly where it is taken by its own. -/
theorem Balanced.inter_step (balanced : Balanced (mark ::ₘ now) (least ::ₘ was))
    (smallest : ∀ other ∈ least ::ₘ was, rank mark least ≤ rank mark other) :
    ((mark ::ₘ now) ∩ (least ::ₘ was)).card =
      (now ∩ was).card + if least = mark then 1 else 0 := by
  by_cases same : least = mark
  · subst same
    rw [if_pos rfl, ← Multiset.cons_inter_distrib, Multiset.card_cons]
  · have spare := balanced.spare smallest same
    have absent : mark ∉ least ::ₘ was := by
      intro member
      have lower := smallest mark member
      rw [rank_self, Nat.le_zero, rank_eq_zero] at lower
      exact same lower
    rw [if_neg same, Multiset.cons_inter_of_neg _ absent, Nat.add_zero]
    apply congrArg
    apply Multiset.ext.mpr
    intro other
    rw [Multiset.count_inter, Multiset.count_inter, Multiset.count_cons]
    by_cases taken : other = least
    · subst taken
      rw [if_pos rfl]
      omega
    · rw [if_neg taken, Nat.add_zero]

theorem common_le (now was : Multiset (Bool × Status)) :
    (now ∩ was).card ≤ min (side true now) (side true was) +
      min (side false now) (side false was) := by
  have fewer (half : Bool) : side half (now ∩ was) ≤ min (side half now) (side half was) :=
    le_min (Multiset.countP_le_of_le _ Multiset.inter_le_left)
      (Multiset.countP_le_of_le _ Multiset.inter_le_right)
  rw [card_eq_sides]
  exact Nat.add_le_add (fewer true) (fewer false)

/-- Every step adds its outcome to what is expected of the rest. -/
theorem Balanced.expected_step (balanced : Balanced (mark ::ₘ now) (least ::ₘ was))
    (smallest : ∀ other ∈ least ::ₘ was, rank mark least ≤ rank mark other) :
    expected (mark ::ₘ now) (least ::ₘ was) =
      Pi.single (outcome mark least) 1 + expected now was := by
  have kept := balanced.inter_step smallest
  have sides := balanced.sides
  simp only [Multiset.cons_ne_zero, Multiset.card_cons, side_cons, false_or, card_eq_sides] at sides
  have empty := side_eq_zero_of_least smallest
  rcases mark with ⟨half, text⟩
  rcases least with ⟨other, old⟩
  unfold expected
  rw [kept]
  simp only [side_cons] at empty ⊢
  by_cases same : other = half
  · subst same
    by_cases equal : old = text
    · subst equal
      have numbers := expectedOf_kept (side true now) (side false now) (side true was)
        (side false was) (now ∩ was).card
      cases other
      · simpa [outcome] using numbers.2
      · simpa [outcome] using numbers.1
    · have numbers := expectedOf_changed (common_le now was)
      cases other
      · simpa [outcome, equal] using numbers.2
      · simpa [outcome, equal] using numbers.1
  · have none := empty same
    cases half
    · obtain rfl : other = true := by simpa using same
      simp at none sides
      simp only [outcome, none]
      simp
      apply expectedOf_lowered
      omega
    · obtain rfl : other = false := by simpa using same
      simp at none sides
      simp only [outcome, none]
      simp
      apply expectedOf_raised
      omega

end Marks

end Matching
