/-
This file proves that the search of Tarjan finds the strongly connected components of a graph.
-/

import Mathlib.Data.Finset.Card
import Mathlib.Logic.Function.Basic
import Mathlib.Logic.Relation

namespace Tarjan

open Relation

variable {Node : Type}

section Algorithm

variable [DecidableEq Node]

/-- A node without an index is not visited, and one without a component has none yet. -/
structure State (Node : Type) where
  index : Node → Int
  low : Node → Int
  comp : Node → Int
  stack : List Node
  counter : Int
  ncomp : Int

def start : State Node where
  index := fun _ => -1
  low := fun _ => 0
  comp := fun _ => -1
  stack := []
  counter := 0
  ncomp := 0

def enter (v : Node) (st : State Node) : State Node :=
  { st with
    index := Function.update st.index v st.counter
    low := Function.update st.low v st.counter
    counter := st.counter + 1
    stack := v :: st.stack }

def lower (v : Node) (bound : Int) (st : State Node) : State Node :=
  { st with low := Function.update st.low v (min (st.low v) bound) }

/-- The nodes down to `v` get the next component. -/
def pop (v : Node) : List Node → State Node → State Node
  | [], st => st
  | w :: rest, st =>
      let popped := { st with stack := rest, comp := Function.update st.comp w st.ncomp }
      if w = v then popped else pop v rest popped

def close (v : Node) (st : State Node) : State Node :=
  if st.low v = st.index v then
    let popped := pop v st.stack st
    { popped with ncomp := popped.ncomp + 1 }
  else st

def scan (visit : Node → State Node → Option (State Node)) (v : Node) :
    List Node → State Node → Option (State Node)
  | [], st => some st
  | w :: rest, st =>
      if st.index w < 0 then
        (visit w st).bind fun st => scan visit v rest (lower v (st.low w) st)
      else if w ∈ st.stack then scan visit v rest (lower v (st.index w) st)
      else scan visit v rest st

/-- The fuel bounds the depth of the search. -/
def visit (succs : Node → List Node) : Nat → Node → State Node → Option (State Node)
  | 0, _, _ => none
  | fuel + 1, v, st =>
      (scan (visit succs fuel) v (succs v) (enter v st)).map (close v)

def visitAll (succs : Node → List Node) (fuel : Nat) :
    List Node → State Node → Option (State Node)
  | [], st => some st
  | v :: rest, st =>
      if st.index v < 0 then (visit succs fuel v st).bind (visitAll succs fuel rest)
      else visitAll succs fuel rest st

end Algorithm

section Invariant

variable (succs : Node → List Node)

def Reaches : Node → Node → Prop := ReflTransGen fun node later => later ∈ succs node

/-- The nodes of `gray` are visited and not closed. -/
structure Inv (gray : List Node) (st : State Node) : Prop where
  sorted : st.stack.Pairwise fun upper under => st.index under < st.index upper
  bounded : ∀ x, st.index x < st.counter
  counted : 0 ≤ st.counter
  onStack : ∀ x, x ∈ st.stack ↔ 0 ≤ st.index x ∧ st.comp x < 0
  open_ : ∀ g ∈ gray, g ∈ st.stack
  black : ∀ x, 0 ≤ st.index x → x ∉ gray → ∀ w ∈ succs x, 0 ≤ st.index w
  anchored : ∀ x ∈ st.stack, ∃ g ∈ gray, st.index g ≤ st.index x ∧ Reaches succs x g
  ordered : ∀ x ∈ st.stack, ∀ y ∈ st.stack, st.index x ≤ st.index y → Reaches succs x y
  strong : ∀ x, 0 ≤ st.comp x → ∀ y, st.comp y = st.comp x ↔ Reaches succs x y ∧ Reaches succs y x
  closed : ∀ x, 0 ≤ st.comp x → ∀ w ∈ succs x, 0 ≤ st.comp w
  visited : ∀ x, 0 ≤ st.comp x → 0 ≤ st.index x
  fresh : ∀ x, st.comp x < st.ncomp
  numbered : 0 ≤ st.ncomp

variable {succs} {gray : List Node} {st before : State Node} {v w : Node}

theorem inv_start : Inv succs [] (start : State Node) := by
  constructor <;> simp [start]

variable [DecidableEq Node]

theorem index_enter (x : Node) :
    (enter v st).index x = if x = v then st.counter else st.index x :=
  Function.update_apply ..

theorem Inv.enter (inv : Inv succs gray st) (new : st.index v < 0)
    (reached : ∀ g ∈ gray, Reaches succs g v) : Inv succs (v :: gray) (enter v st) := by
  have other {x : Node} (seen : 0 ≤ st.index x) : x ≠ v := by
    rintro rfl
    omega
  have kept {x : Node} (seen : 0 ≤ st.index x) : (Tarjan.enter v st).index x = st.index x := by
    rw [index_enter, if_neg (other seen)]
  have here : (Tarjan.enter v st).index v = st.counter := by rw [index_enter, if_pos rfl]
  have stacked {x : Node} (member : x ∈ st.stack) : 0 ≤ st.index x := ((inv.onStack x).mp member).1
  have bare : st.comp v < 0 := by
    by_contra assigned
    have := inv.visited v (by omega)
    omega
  have counted := inv.counted
  constructor
  · refine List.pairwise_cons.mpr ⟨fun under member => ?_, ?_⟩
    · rw [kept (stacked member), here]
      exact inv.bounded under
    · apply inv.sorted.imp_of_mem
      intro upper under upperIn underIn less
      rwa [kept (stacked upperIn), kept (stacked underIn)]
  · intro x
    have bound := inv.bounded x
    rw [index_enter]
    simp only [Tarjan.enter]
    split <;> omega
  · simp only [Tarjan.enter]
    omega
  · intro x
    simp only [Tarjan.enter, List.mem_cons, inv.onStack, Function.update_apply]
    by_cases same : x = v
    · subst same
      simp [bare, counted]
    · simp [same]
  · intro g member
    rcases List.mem_cons.mp member with rfl | member
    · exact List.mem_cons_self
    · exact List.mem_cons_of_mem _ (inv.open_ g member)
  · intro x seen notGray w edge
    rw [List.mem_cons, not_or] at notGray
    rw [index_enter, if_neg notGray.1] at seen
    have later := inv.black x seen notGray.2 w edge
    rwa [kept later]
  · intro x member
    rcases List.mem_cons.mp member with rfl | member
    · exact ⟨x, List.mem_cons_self, le_refl _, .refl⟩
    · obtain ⟨g, inside, order, path⟩ := inv.anchored x member
      refine ⟨g, List.mem_cons_of_mem _ inside, ?_, path⟩
      rwa [kept (stacked member), kept (stacked (inv.open_ g inside))]
  · intro x xIn y yIn order
    rcases List.mem_cons.mp xIn with rfl | xOld <;> rcases List.mem_cons.mp yIn with rfl | yOld
    · exact .refl
    · rw [here, kept (stacked yOld)] at order
      have bound := inv.bounded y
      omega
    · obtain ⟨g, inside, -, path⟩ := inv.anchored x xOld
      exact path.trans (reached g inside)
    · rw [kept (stacked xOld), kept (stacked yOld)] at order
      exact inv.ordered x xOld y yOld order
  · exact inv.strong
  · exact inv.closed
  · intro x assigned
    have seen := inv.visited x assigned
    rwa [kept seen]
  · exact inv.fresh
  · exact inv.numbered

theorem Inv.lower (inv : Inv succs gray st) (bound : Int) : Inv succs gray (lower v bound st) :=
  ⟨inv.sorted, inv.bounded, inv.counted, inv.onStack, inv.open_, inv.black, inv.anchored,
    inv.ordered, inv.strong, inv.closed, inv.visited, inv.fresh, inv.numbered⟩

end Invariant

section Closing

variable {succs : Node → List Node} {gray : List Node} {st : State Node} {v : Node}
variable {above under : List Node}

/-- The nodes from the top of the stack down to `v` lead to `v` and are reached from it. -/
theorem Inv.mutual (inv : Inv succs (v :: gray) st) (shape : st.stack = above ++ v :: under)
    (reached : ∀ g ∈ gray, Reaches succs g v) {x : Node} (member : x ∈ above ∨ x = v) :
    Reaches succs v x ∧ Reaches succs x v := by
  have here : v ∈ st.stack := inv.open_ v List.mem_cons_self
  have stacked : x ∈ st.stack := by
    rw [shape]
    simpa using member.imp_right Or.inl
  constructor
  · rcases member with inside | rfl
    · apply inv.ordered v here x stacked
      have sorted := inv.sorted
      rw [shape] at sorted
      exact le_of_lt ((List.pairwise_append.mp sorted).2.2 x inside v List.mem_cons_self)
    · exact .refl
  · obtain ⟨g, inside, -, path⟩ := inv.anchored x stacked
    rcases List.mem_cons.mp inside with rfl | inside
    · exact path
    · exact path.trans (reached g inside)

theorem Inv.closed_path (inv : Inv succs gray st) {x y : Node} (assigned : 0 ≤ st.comp x)
    (path : Reaches succs x y) : 0 ≤ st.comp y := by
  induction path with
  | refl => exact assigned
  | tail _ edge ih => exact inv.closed _ ih _ edge

/-- Where no node above leads below, the popped nodes are a component. -/
theorem Inv.exits (inv : Inv succs (v :: gray) st) (shape : st.stack = above ++ v :: under)
    (followed : ∀ w ∈ succs v, 0 ≤ st.index w) (grayUnder : ∀ g ∈ gray, g ∈ under)
    (apart : ∀ z, z ∈ above ∨ z = v → ∀ y ∈ under, y ∉ succs z) {z w : Node}
    (member : z ∈ above ∨ z = v) (edge : w ∈ succs z) : (w ∈ above ∨ w = v) ∨ 0 ≤ st.comp w := by
  have sorted := inv.sorted
  rw [shape] at sorted
  obtain ⟨-, lowSorted, split⟩ := List.pairwise_append.mp sorted
  have stacked : z ∈ st.stack := by
    rw [shape]
    simpa using member.imp_right Or.inl
  have seen : 0 ≤ st.index w := by
    rcases member with inside | rfl
    · apply inv.black z ((inv.onStack z).mp stacked).1 _ w edge
      intro isGray
      rcases List.mem_cons.mp isGray with rfl | isGray
      · exact lt_irrefl _ (split z inside z List.mem_cons_self)
      · exact lt_irrefl _ (split z inside z (List.mem_cons_of_mem _ (grayUnder z isGray)))
    · exact followed w edge
  by_contra neither
  rw [not_or, not_le] at neither
  have onStack := (inv.onStack w).mpr ⟨seen, neither.2⟩
  rw [shape, List.mem_append, List.mem_cons] at onStack
  rcases onStack with inside | rfl | below
  · exact neither.1 (.inl inside)
  · exact neither.1 (.inr rfl)
  · exact apart z member w below edge

/-- A node that leads to an older one stays on the stack. -/
theorem Inv.stay (inv : Inv succs (v :: gray) st)
    (followed : ∀ w ∈ succs v, 0 ≤ st.index w) (grayStack : ∀ g ∈ gray, g ∈ st.stack)
    (older : ∃ y ∈ st.stack, st.index y < st.index v ∧ Reaches succs v y) :
    Inv succs gray st := by
  obtain ⟨y, yIn, less, path⟩ := older
  refine ⟨inv.sorted, inv.bounded, inv.counted, inv.onStack, grayStack, ?_, ?_, inv.ordered,
    inv.strong, inv.closed, inv.visited, inv.fresh, inv.numbered⟩
  · intro x seen notGray w edge
    by_cases same : x = v
    · exact followed w (same ▸ edge)
    · exact inv.black x seen (fun member => (List.mem_cons.mp member).elim same notGray) w edge
  · intro x member
    obtain ⟨g, inside, order, toG⟩ := inv.anchored x member
    rcases List.mem_cons.mp inside with rfl | inside
    · obtain ⟨g', inside', order', toG'⟩ := inv.anchored y yIn
      rcases List.mem_cons.mp inside' with rfl | inside'
      · omega
      · exact ⟨g', inside', by omega, toG.trans (path.trans toG')⟩
    · exact ⟨g, inside, order, toG⟩

variable [DecidableEq Node]

/-- The popped nodes are those above `v`, and `v` itself. -/
theorem pop_append (absent : v ∉ above) (st : State Node) :
    pop v (above ++ v :: under) st =
      { st with
        stack := under
        comp := fun x => if x ∈ above ∨ x = v then st.ncomp else st.comp x } := by
  induction above generalizing st with
  | nil =>
      rw [List.nil_append, pop, if_pos rfl]
      congr
      funext x
      simp [Function.update_apply]
  | cons w rest ih =>
      rw [List.mem_cons, not_or] at absent
      rw [List.cons_append, pop, if_neg (Ne.symm absent.1), ih absent.2]
      congr
      funext x
      by_cases same : x = w
      · subst same
        simp
      · simp [same]

theorem Inv.popped (inv : Inv succs (v :: gray) st) (shape : st.stack = above ++ v :: under)
    (followed : ∀ w ∈ succs v, 0 ≤ st.index w) (grayUnder : ∀ g ∈ gray, g ∈ under)
    (reached : ∀ g ∈ gray, Reaches succs g v)
    (apart : ∀ z, z ∈ above ∨ z = v → ∀ y ∈ under, y ∉ succs z) :
    Inv succs gray { st with
      stack := under
      comp := fun x => if x ∈ above ∨ x = v then st.ncomp else st.comp x
      ncomp := st.ncomp + 1 } := by
  have sorted := inv.sorted
  rw [shape] at sorted
  obtain ⟨-, lowSorted, split⟩ := List.pairwise_append.mp sorted
  obtain ⟨vTop, underSorted⟩ := List.pairwise_cons.mp lowSorted
  have inStack {x : Node} (member : x ∈ under) : x ∈ st.stack := by
    rw [shape]
    exact List.mem_append_right _ (List.mem_cons_of_mem _ member)
  have popStack {x : Node} (member : x ∈ above ∨ x = v) : x ∈ st.stack := by
    rw [shape]
    simpa using member.imp_right Or.inl
  have unpopped {x : Node} (member : x ∈ under) : ¬(x ∈ above ∨ x = v) := by
    rintro (inside | rfl)
    · exact lt_irrefl _ (split x inside x (List.mem_cons_of_mem _ member))
    · exact lt_irrefl _ (vTop x member)
  have unassigned {x : Node} (member : x ∈ above ∨ x = v) : st.comp x < 0 :=
    ((inv.onStack x).mp (popStack member)).2
  have exit {z w : Node} (member : z ∈ above ∨ z = v) (edge : w ∈ succs z) :
      (w ∈ above ∨ w = v) ∨ 0 ≤ st.comp w :=
    inv.exits shape followed grayUnder apart member edge
  have numbered := inv.numbered
  -- what the popped nodes reach is popped or has a component
  have leaves {z w : Node} (member : z ∈ above ∨ z = v) (path : Reaches succs z w) :
      (w ∈ above ∨ w = v) ∨ 0 ≤ st.comp w := by
    induction path with
    | refl => exact .inl member
    | tail _ edge ih =>
        rcases ih with inside | assigned
        · exact exit inside edge
        · exact .inr (inv.closed _ assigned _ edge)
  constructor
  · exact underSorted
  · exact inv.bounded
  · exact inv.counted
  · intro x
    dsimp only
    split
    · rename_i popped
      exact ⟨fun member => absurd popped (unpopped member), fun both => by omega⟩
    · rename_i kept
      rw [← inv.onStack, shape, List.mem_append, List.mem_cons]
      rw [not_or] at kept
      exact ⟨fun member => .inr (.inr member), fun member =>
        member.elim (fun inside => absurd inside kept.1)
          fun rest => rest.elim (fun same => absurd same kept.2) id⟩
  · exact grayUnder
  · intro x seen notGray w edge
    by_cases same : x = v
    · exact followed w (same ▸ edge)
    · exact inv.black x seen (fun member => (List.mem_cons.mp member).elim same notGray) w edge
  · intro x member
    obtain ⟨g, inside, order, path⟩ := inv.anchored x (inStack member)
    rcases List.mem_cons.mp inside with rfl | inside
    · exact absurd (vTop x member) (not_lt.mpr order)
    · exact ⟨g, inside, order, path⟩
  · exact fun x xIn y yIn => inv.ordered x (inStack xIn) y (inStack yIn)
  · intro x assigned y
    dsimp only at assigned ⊢
    by_cases xPopped : x ∈ above ∨ x = v
    · rw [if_pos xPopped]
      obtain ⟨toX, fromX⟩ := inv.mutual shape reached xPopped
      split
      · rename_i yPopped
        obtain ⟨toY, fromY⟩ := inv.mutual shape reached yPopped
        exact iff_of_true rfl ⟨fromX.trans toY, fromY.trans toX⟩
      · rename_i yKept
        apply iff_of_false
        · have := inv.fresh y
          omega
        · rintro ⟨toY, fromY⟩
          rcases leaves xPopped toY with popped | assignedY
          · exact yKept popped
          · have back := inv.closed_path assignedY fromY
            have none := unassigned xPopped
            omega
    · rw [if_neg xPopped] at assigned ⊢
      split
      · rename_i yPopped
        apply iff_of_false
        · have := inv.fresh x
          omega
        · rintro ⟨toY, -⟩
          have reachedY := inv.closed_path assigned toY
          have none := unassigned yPopped
          omega
      · exact inv.strong x assigned y
  · intro x assigned w edge
    dsimp only at assigned ⊢
    by_cases xPopped : x ∈ above ∨ x = v
    · rcases exit xPopped edge with popped | old
      · rw [if_pos popped]
        exact numbered
      · split
        · exact numbered
        · exact old
    · rw [if_neg xPopped] at assigned
      have old := inv.closed x assigned w edge
      split
      · exact numbered
      · exact old
  · intro x assigned
    dsimp only at assigned ⊢
    by_cases xPopped : x ∈ above ∨ x = v
    · exact ((inv.onStack x).mp (popStack xPopped)).1
    · rw [if_neg xPopped] at assigned
      exact inv.visited x assigned
  · intro x
    have old := inv.fresh x
    dsimp only
    split <;> omega
  · dsimp only
    omega

end Closing

section Search

variable {succs : Node → List Node} {gray done : List Node} {st before after : State Node}
  {v w : Node}

/-- This holds while the nodes behind `v` are followed. The nodes of `done` are followed already, and
`before` is the state before `v`. -/
structure Scanning (succs : Node → List Node) (gray : List Node) (v : Node) (before : State Node)
    (done : List Node) (st : State Node) : Prop where
  inv : Inv succs (v :: gray) st
  keep : ∀ x, 0 ≤ before.index x → st.index x = before.index x ∧ st.low x = before.low x
  index : st.index v = before.counter
  shape : ∃ above, st.stack = above ++ v :: before.stack ∧
    ∀ z ∈ above, ∀ y ∈ before.stack, y ∈ succs z → st.low v ≤ before.index y
  seen : ∀ w ∈ done, 0 ≤ st.index w ∧ (w ∈ before.stack → st.low v ≤ before.index w)
  low_le : st.low v ≤ st.index v
  low_mem : ∃ y ∈ st.stack, st.index y = st.low v ∧ Reaches succs v y

/-- This holds when `v` is visited. -/
structure Visited (succs : Node → List Node) (gray : List Node) (v : Node)
    (before after : State Node) : Prop where
  inv : Inv succs gray after
  index : after.index v = before.counter
  keep : ∀ x, 0 ≤ before.index x → after.index x = before.index x ∧ after.low x = before.low x
  shape : ∃ above, after.stack = above ++ before.stack ∧
    ∀ z ∈ above, ∀ y ∈ before.stack, y ∈ succs z → after.low v ≤ before.index y
  low : after.low v = after.index v ∨
    ∃ y ∈ before.stack, before.index y = after.low v ∧ Reaches succs v y

theorem Inv.seen (inv : Inv succs gray st) (member : w ∈ st.stack) : 0 ≤ st.index w :=
  ((inv.onStack w).mp member).1

/-- A node with a component is older than nothing on the stack. -/
theorem Scanning.skip (scanning : Scanning succs gray v before done st)
    (seen : 0 ≤ st.index w) (absent : w ∉ st.stack) :
    Scanning succs gray v before (done ++ [w]) st := by
  refine ⟨scanning.inv, scanning.keep, scanning.index, scanning.shape, ?_, scanning.low_le,
    scanning.low_mem⟩
  intro x member
  rcases List.mem_append.mp member with old | last
  · exact scanning.seen x old
  · obtain rfl := List.mem_singleton.mp last
    refine ⟨seen, fun older => absurd ?_ absent⟩
    obtain ⟨above, shape, -⟩ := scanning.shape
    rw [shape]
    exact List.mem_append_right _ (List.mem_cons_of_mem _ older)

variable [DecidableEq Node]

theorem low_lower (bound : Int) (x : Node) :
    (lower v bound st).low x = if x = v then min (st.low v) bound else st.low x :=
  Function.update_apply ..

theorem Scanning.init (inv : Inv succs gray before) (new : before.index v < 0)
    (reached : ∀ g ∈ gray, Reaches succs g v) :
    Scanning succs gray v before [] (enter v before) := by
  have index : (enter v before).index v = before.counter := by rw [index_enter, if_pos rfl]
  have low : (enter v before).low v = before.counter := Function.update_self ..
  constructor
  · exact inv.enter new reached
  · intro x seen
    have differ : x ≠ v := by
      rintro rfl
      omega
    exact ⟨Function.update_of_ne differ .., Function.update_of_ne differ ..⟩
  · exact index
  · exact ⟨[], rfl, fun z member => absurd member List.not_mem_nil⟩
  · exact fun w member => absurd member List.not_mem_nil
  · rw [index, low]
  · exact ⟨v, List.mem_cons_self, by rw [index, low], .refl⟩

/-- The lowlink goes down to the index of a node that `v` leads to, and not below a node that is
older than `v`. -/
theorem Scanning.lower (scanning : Scanning succs gray v before done st) (bound : Int)
    (seen : 0 ≤ st.index w ∧ (w ∈ before.stack → bound ≤ before.index w))
    (led : st.low v ≤ bound ∨ ∃ y ∈ st.stack, st.index y = bound ∧ Reaches succs v y)
    (new : before.index v < 0) :
    Scanning succs gray v before (done ++ [w]) (lower v bound st) := by
  have low : (Tarjan.lower v bound st).low v = min (st.low v) bound := by rw [low_lower, if_pos rfl]
  have less := min_le_left (st.low v) bound
  constructor
  · exact scanning.inv.lower bound
  · intro x old
    have differ : x ≠ v := by
      rintro rfl
      omega
    rw [low_lower, if_neg differ]
    exact scanning.keep x old
  · exact scanning.index
  · obtain ⟨above, shape, edges⟩ := scanning.shape
    refine ⟨above, shape, fun z inside y older later => ?_⟩
    rw [low]
    exact less.trans (edges z inside y older later)
  · intro x member
    rw [low]
    rcases List.mem_append.mp member with old | last
    · obtain ⟨visited, under⟩ := scanning.seen x old
      exact ⟨visited, fun older => less.trans (under older)⟩
    · obtain rfl := List.mem_singleton.mp last
      exact ⟨seen.1, fun older => (min_le_right _ _).trans (seen.2 older)⟩
  · rw [low]
    exact less.trans scanning.low_le
  · rw [low]
    rcases le_or_gt (st.low v) bound with high | small
    · rw [min_eq_left high]
      exact scanning.low_mem
    · rw [min_eq_right small.le]
      exact led.resolve_left (not_le.mpr small)

/-- A visited node on the stack bounds the lowlink. -/
theorem Scanning.back (scanning : Scanning succs gray v before done st)
    (entry : Inv succs gray before) (new : before.index v < 0) (edge : w ∈ succs v)
    (member : w ∈ st.stack) :
    Scanning succs gray v before (done ++ [w]) (Tarjan.lower v (st.index w) st) := by
  apply scanning.lower (st.index w) ⟨scanning.inv.seen member, ?_⟩
    (.inr ⟨w, member, rfl, .single edge⟩) new
  intro older
  rw [(scanning.keep w (entry.seen older)).1]

/-- A node that is visited from `v` keeps what is known, and its own lowlink bounds that of `v`. -/
theorem Scanning.child (scanning : Scanning succs gray v before done st)
    (entry : Inv succs gray before) (new : before.index v < 0) (edge : w ∈ succs v)
    (white : st.index w < 0) (visited : Visited succs (v :: gray) w st after) :
    Scanning succs gray v before (done ++ [w]) (Tarjan.lower v (after.low w) after) := by
  have counted := entry.counted
  have counter := scanning.inv.bounded v
  have open_ : 0 ≤ st.index v := by
    rw [scanning.index]
    exact counted
  obtain ⟨indexV, lowV⟩ := visited.keep v open_
  have low : (Tarjan.lower v (after.low w) after).low v = min (st.low v) (after.low w) := by
    rw [low_lower, if_pos rfl, lowV]
  have less := min_le_left (st.low v) (after.low w)
  have bound := min_le_right (st.low v) (after.low w)
  obtain ⟨above, shape, edges⟩ := scanning.shape
  obtain ⟨more, grown, outward⟩ := visited.shape
  have older {y : Node} (member : y ∈ before.stack) : y ∈ st.stack := by
    rw [shape]
    exact List.mem_append_right _ (List.mem_cons_of_mem _ member)
  have stays {y : Node} (member : y ∈ st.stack) : y ∈ after.stack := by
    rw [grown]
    exact List.mem_append_right _ member
  constructor
  · exact visited.inv.lower _
  · intro x old
    have differ : x ≠ v := by
      rintro rfl
      omega
    obtain ⟨index, lowX⟩ := scanning.keep x old
    obtain ⟨index', lowX'⟩ := visited.keep x (by omega)
    rw [low_lower, if_neg differ]
    exact ⟨index'.trans index, lowX'.trans lowX⟩
  · exact indexV.trans scanning.index
  · refine ⟨more ++ above, ?_, fun z inside y yIn later => ?_⟩
    · rw [Tarjan.lower, grown, shape, List.append_assoc]
    · rw [low]
      rcases List.mem_append.mp inside with inMore | inAbove
      · have out := outward z inMore y (older yIn) later
        rw [(scanning.keep y (entry.seen yIn)).1] at out
        exact bound.trans out
      · exact less.trans (edges z inAbove y yIn later)
  · intro x member
    rw [low]
    rcases List.mem_append.mp member with old | last
    · obtain ⟨seen, under⟩ := scanning.seen x old
      exact ⟨(visited.keep x seen).1 ▸ seen, fun inside => less.trans (under inside)⟩
    · obtain rfl := List.mem_singleton.mp last
      have index := visited.index
      have counted := scanning.inv.counted
      refine ⟨by rw [Tarjan.lower, index]; exact counted, fun inside => ?_⟩
      have kept := scanning.inv.seen (older inside)
      omega
  · rw [low, Tarjan.lower, indexV]
    exact less.trans scanning.low_le
  · rw [low]
    rcases le_or_gt (st.low v) (after.low w) with high | small
    · rw [min_eq_left high]
      obtain ⟨y, yIn, index, path⟩ := scanning.low_mem
      exact ⟨y, stays yIn, (visited.keep y (scanning.inv.seen yIn)).1.trans index, path⟩
    · rw [min_eq_right small.le]
      rcases visited.low with own | ⟨y, yIn, index, path⟩
      -- a closed node is newer than `v`
      · have fresh := visited.index
        have under := scanning.low_le
        omega
      · exact ⟨y, stays yIn, (visited.keep y (scanning.inv.seen yIn)).1.trans index,
          .head edge path⟩

/-- A node all of whose successors are followed is closed. -/
theorem Scanning.close (scanning : Scanning succs gray v before (succs v) st)
    (entry : Inv succs gray before) (reached : ∀ g ∈ gray, Reaches succs g v) :
    Visited succs gray v before (close v st) := by
  obtain ⟨above, shape, edges⟩ := scanning.shape
  have sorted := scanning.inv.sorted
  rw [shape] at sorted
  obtain ⟨-, lowSorted, split⟩ := List.pairwise_append.mp sorted
  have absent : v ∉ above := fun inside => lt_irrefl _ (split v inside v List.mem_cons_self)
  have followed : ∀ w ∈ succs v, 0 ≤ st.index w := fun w edge => (scanning.seen w edge).1
  -- no edge leaves the new part of the stack below the lowlink
  have bounded (z : Node) (inside : z ∈ above ∨ z = v) (y : Node) (older : y ∈ before.stack)
      (edge : y ∈ succs z) : st.low v ≤ before.index y := by
    rcases inside with new | rfl
    · exact edges z new y older edge
    · exact (scanning.seen y edge).2 older
  rw [Tarjan.close]
  split
  · rename_i root
    rw [shape, pop_append absent]
    have apart : ∀ z, z ∈ above ∨ z = v → ∀ y ∈ before.stack, y ∉ succs z := by
      intro z inside y older edge
      have bound := bounded z inside y older edge
      have small := entry.bounded y
      have index := scanning.index
      omega
    refine ⟨scanning.inv.popped shape followed entry.open_ reached apart, scanning.index,
      scanning.keep, ⟨[], rfl, fun z member => absurd member List.not_mem_nil⟩, .inl root⟩
  · rename_i differ
    have less : st.low v < st.index v := lt_of_le_of_ne scanning.low_le differ
    obtain ⟨y, yIn, index, path⟩ := scanning.low_mem
    have grayStack : ∀ g ∈ gray, g ∈ st.stack := by
      intro g member
      rw [shape]
      exact List.mem_append_right _ (List.mem_cons_of_mem _ (entry.open_ g member))
    refine ⟨scanning.inv.stay followed grayStack ⟨y, yIn, by omega, path⟩, scanning.index,
      scanning.keep, ⟨above ++ [v], ?_, ?_⟩, .inr ⟨y, ?_, ?_, path⟩⟩
    · rw [shape, List.append_assoc, List.singleton_append]
    · intro z inside
      rw [List.mem_append, List.mem_singleton] at inside
      exact bounded z inside
    · rw [shape, List.mem_append, List.mem_cons] at yIn
      rcases yIn with inside | rfl | older
      · have newer := split y inside v List.mem_cons_self
        omega
      · omega
      · exact older
    · have kept : y ∈ before.stack := by
        rw [shape, List.mem_append, List.mem_cons] at yIn
        rcases yIn with inside | rfl | older
        · have newer := split y inside v List.mem_cons_self
          omega
        · omega
        · exact older
      rw [← (scanning.keep y (entry.seen kept)).1, index]

theorem scan_spec (entry : Inv succs gray before) (new : before.index v < 0)
    {visit : Node → State Node → Option (State Node)}
    (visits : ∀ w ∈ succs v, ∀ st, (∀ x, 0 ≤ before.index x ∨ x = v → 0 ≤ st.index x) →
      Inv succs (v :: gray) st → st.index w < 0 →
      ∃ after, visit w st = some after ∧ Visited succs (v :: gray) w st after)
    (rest : List Node) (edges : ∀ w ∈ rest, w ∈ succs v)
    (scanning : Scanning succs gray v before done st) :
    ∃ after, scan visit v rest st = some after ∧
      Scanning succs gray v before (done ++ rest) after := by
  induction rest generalizing done st with
  | nil => exact ⟨st, rfl, by rwa [List.append_nil]⟩
  | cons w rest ih =>
      obtain ⟨edge, edges⟩ := List.forall_mem_cons.mp edges
      rw [List.append_cons, scan]
      split_ifs with white onStack
      · have seen : ∀ x, 0 ≤ before.index x ∨ x = v → 0 ≤ st.index x := by
          rintro x (old | rfl)
          · rw [(scanning.keep x old).1]
            exact old
          · rw [scanning.index]
            exact entry.counted
        obtain ⟨after, found, visited⟩ := visits w edge st seen scanning.inv white
        rw [found, Option.bind_some]
        exact ih edges (scanning.child entry new edge white visited)
      · exact ih edges (scanning.back entry new edge onStack)
      · exact ih edges (scanning.skip (by omega) onStack)

/-- These nodes are not visited. -/
def unvisited (nodes : Finset Node) (st : State Node) : Finset Node :=
  nodes.filter fun x => st.index x < 0

/-- Fuel for each node that is not visited is enough. -/
theorem visit_spec {nodes : Finset Node} (bound : ∀ v ∈ nodes, ∀ w ∈ succs v, w ∈ nodes)
    (fuel : Nat) : ∀ (gray : List Node) (v : Node) (st : State Node), Inv succs gray st →
      st.index v < 0 → (∀ g ∈ gray, Reaches succs g v) → v ∈ nodes →
      (unvisited nodes st).card ≤ fuel →
      ∃ after, visit succs fuel v st = some after ∧ Visited succs gray v st after := by
  induction fuel with
  | zero =>
      intro gray v st inv new reached inside enough
      have member : v ∈ unvisited nodes st := Finset.mem_filter.mpr ⟨inside, new⟩
      rw [Nat.le_zero, Finset.card_eq_zero] at enough
      rw [enough] at member
      exact absurd member (Finset.notMem_empty v)
  | succ fuel ih =>
      intro gray v st inv new reached inside enough
      have visits : ∀ w ∈ succs v, ∀ next, (∀ x, 0 ≤ st.index x ∨ x = v → 0 ≤ next.index x) →
          Inv succs (v :: gray) next → next.index w < 0 →
          ∃ after, visit succs fuel w next = some after ∧
            Visited succs (v :: gray) w next after := by
        intro w edge next seen nextInv white
        have led : ∀ g ∈ v :: gray, Reaches succs g w := by
          intro g member
          rcases List.mem_cons.mp member with rfl | member
          · exact .single edge
          · exact (reached g member).tail edge
        apply ih (v :: gray) w next nextInv white led (bound v inside w edge)
        have fewer : unvisited nodes next ⊆ (unvisited nodes st).erase v := by
          intro x member
          obtain ⟨xIn, low⟩ := Finset.mem_filter.mp member
          have unseen : ¬(0 ≤ st.index x ∨ x = v) := fun old => absurd (seen x old) (by omega)
          rw [not_or] at unseen
          exact Finset.mem_erase.mpr ⟨unseen.2, Finset.mem_filter.mpr ⟨xIn, by omega⟩⟩
        have member : v ∈ unvisited nodes st := Finset.mem_filter.mpr ⟨inside, new⟩
        have less := Finset.card_le_card fewer
        rw [Finset.card_erase_of_mem member] at less
        omega
      obtain ⟨scanned, found, scanning⟩ := scan_spec inv new visits (succs v) (fun _ => id)
        (.init inv new reached)
      rw [visit, found, Option.map_some]
      exact ⟨_, rfl, scanning.close inv reached⟩

theorem visitAll_spec {nodes : Finset Node} (bound : ∀ v ∈ nodes, ∀ w ∈ succs v, w ∈ nodes)
    {fuel : Nat} (enough : nodes.card ≤ fuel) (rest : List Node) (inside : ∀ v ∈ rest, v ∈ nodes)
    (inv : Inv succs [] st) :
    ∃ after, visitAll succs fuel rest st = some after ∧ Inv succs [] after ∧
      (∀ x, 0 ≤ st.index x → 0 ≤ after.index x) ∧ ∀ x ∈ rest, 0 ≤ after.index x := by
  induction rest generalizing st with
  | nil => exact ⟨st, rfl, inv, fun _ => id, fun x member => absurd member List.not_mem_nil⟩
  | cons v rest ih =>
      obtain ⟨here, others⟩ := List.forall_mem_cons.mp inside
      rw [visitAll]
      split_ifs with white
      · have fits : (unvisited nodes st).card ≤ fuel :=
          (Finset.card_filter_le nodes _).trans enough
        obtain ⟨next, found, visited⟩ := visit_spec bound fuel [] v st inv white
          (fun g member => absurd member List.not_mem_nil) here fits
        obtain ⟨after, run, final, kept, all⟩ := ih others visited.inv
        have grown (x : Node) (seen : 0 ≤ st.index x) : 0 ≤ next.index x := by
          rw [(visited.keep x seen).1]
          exact seen
        have seen : 0 ≤ next.index v := by
          rw [visited.index]
          exact inv.counted
        refine ⟨after, by rw [found, Option.bind_some, run], final,
          fun x old => kept x (grown x old), List.forall_mem_cons.mpr ⟨kept v seen, all⟩⟩
      · obtain ⟨after, run, final, kept, all⟩ := ih others inv
        exact ⟨after, run, final, kept, List.forall_mem_cons.mpr ⟨kept v (by omega), all⟩⟩

/-- The search gives each node a component, and two nodes have one component where each leads to the
other. -/
theorem visitAll_components {nodes : Finset Node}
    (bound : ∀ v ∈ nodes, ∀ w ∈ succs v, w ∈ nodes) {fuel : Nat} (enough : nodes.card ≤ fuel)
    {order : List Node} (lists : ∀ v, v ∈ order ↔ v ∈ nodes) :
    ∃ after, visitAll succs fuel order start = some after ∧
      ∀ x ∈ nodes, (0 ≤ after.comp x ∧ after.comp x < after.ncomp) ∧
        ∀ y, after.comp y = after.comp x ↔ Reaches succs x y ∧ Reaches succs y x := by
  obtain ⟨after, run, inv, -, all⟩ := visitAll_spec bound enough order
    (fun v member => (lists v).mp member) inv_start
  refine ⟨after, run, fun x member => ?_⟩
  have seen := all x ((lists x).mpr member)
  have assigned : 0 ≤ after.comp x := by
    by_contra none
    obtain ⟨g, inside, -⟩ := inv.anchored x ((inv.onStack x).mpr ⟨seen, by omega⟩)
    exact absurd inside List.not_mem_nil
  exact ⟨⟨assigned, inv.fresh x⟩, inv.strong x assigned⟩

end Search

end Tarjan
