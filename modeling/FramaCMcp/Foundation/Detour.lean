/-
This file says when all runs to a node of a graph go through a detour that is put before it.
-/

import Mathlib.Data.List.Basic
import Mathlib.Data.Set.Insert
import Mathlib.Logic.Relation

namespace Detour

variable {Node : Type}

/-- A run starts at the entry and follows the edges. Its latest node comes first. -/
inductive Run (edge : Node → Node → Prop) (entry : Option Node) : List Node → Prop where
  | start (node : Node) (first : entry = some node) : Run edge entry [node]
  | step (later : Node) {node : Node} {past : List Node} (run : Run edge entry (node :: past))
      (follows : edge node later) : Run edge entry (later :: node :: past)

def Reached (edge : Node → Node → Prop) (entry : Option Node) (node : Node) : Prop :=
  ∃ past, Run edge entry (node :: past)

theorem Reached.step {edge : Node → Node → Prop} {entry : Option Node} {node later : Node}
    (reached : Reached edge entry node) (follows : edge node later) : Reached edge entry later := by
  obtain ⟨past, run⟩ := reached
  exact ⟨node :: past, .step later run follows⟩

theorem Reached.path {edge : Node → Node → Prop} {entry : Option Node} {node later : Node}
    (reached : Reached edge entry node) (path : Relation.ReflTransGen edge node later) :
    Reached edge entry later := by
  induction path with
  | refl => exact reached
  | tail _ follows ih => exact ih.step follows

/-- The latest nodes of the run are inside, and the first of them is the head. -/
def PassedLast (head : Node) (inside : Set Node) (past : List Node) : Prop :=
  ∃ segment early, past = segment ++ head :: early ∧ ∀ node ∈ segment ++ [head], node ∈ inside

/-- Each arrival at the target comes right from the inside, which was entered by its head. -/
def AlwaysPasses (edge : Node → Node → Prop) (entry : Option Node) (head : Node)
    (inside : Set Node) (target : Node) : Prop :=
  ∀ past, Run edge entry (target :: past) → PassedLast head inside past

section Passing

variable {head : Node} {inside : Set Node}

theorem PassedLast.cons {past : List Node} {node : Node} (passed : PassedLast head inside past)
    (member : node ∈ inside) : PassedLast head inside (node :: past) := by
  obtain ⟨segment, early, rfl, all⟩ := passed
  exact ⟨node :: segment, early, rfl, List.forall_mem_cons.mpr ⟨member, all⟩⟩

theorem passedLast_head (member : head ∈ inside) (past : List Node) :
    PassedLast head inside (head :: past) :=
  ⟨[], past, rfl, fun _ only => List.mem_singleton.mp only ▸ member⟩

theorem PassedLast.head_mem {past : List Node} {node : Node}
    (passed : PassedLast head inside (node :: past)) : node ∈ inside := by
  obtain ⟨segment, early, same, all⟩ := passed
  cases segment with
  | nil =>
      obtain ⟨rfl, _⟩ := List.cons.inj same
      exact all _ (List.mem_singleton_self _)
  | cons first rest =>
      obtain ⟨rfl, _⟩ := List.cons.inj same
      exact all _ List.mem_cons_self

end Passing

section Redirect

variable [DecidableEq Node] (head target : Node)

/-- Control that flows to the target now flows to the head of the detour. -/
def redirect (node : Node) : Node := if node = target then head else node

/-- The flows are redirected, the jumps stay, and the detour is new. -/
inductive Redirected (flow jump inner : Node → Node → Prop) : Node → Node → Prop where
  | flow {node later : Node} (follows : flow node later) :
      Redirected flow jump inner node (redirect head target later)
  | jump {node later : Node} (jumps : jump node later) : Redirected flow jump inner node later
  | inner {node later : Node} (goesOn : inner node later) : Redirected flow jump inner node later

variable {head target}

/-- The detour is made of new nodes and leads from its head to the target. -/
structure IsDetour (flow jump inner : Node → Node → Prop) (entry : Option Node) (head : Node)
    (inside : Set Node) (target : Node) : Prop where
  enters : ∀ node, entry = some node → node ∉ inside
  flowOutside : ∀ node later, flow node later → node ∉ inside ∧ later ∉ inside
  jumpOutside : ∀ node later, jump node later → node ∉ inside ∧ later ∉ inside
  innerInside : ∀ node later, inner node later → node ∈ inside ∧ (later ∈ inside ∨ later = target)
  headInside : head ∈ inside
  targetOutside : target ∉ inside
  leads : Relation.ReflTransGen inner head target

variable {flow jump inner : Node → Node → Prop} {entry : Option Node} {inside : Set Node}

/-- Flows and jumps are the edges of the graph before the change. -/
abbrev Before (flow jump : Node → Node → Prop) (node later : Node) : Prop :=
  flow node later ∨ jump node later

/-- A run after the change stands at a node that was reached before it, or in the detour to the
target. -/
inductive Stands (flow jump : Node → Node → Prop) (entry : Option Node) (head : Node)
    (inside : Set Node) (target : Node) : List Node → Prop where
  | outside {node : Node} {past : List Node} (other : node ∉ inside)
      (reached : Reached (Before flow jump) entry node)
      (passed : node = target → PassedLast head inside past) :
      Stands flow jump entry head inside target (node :: past)
  | inside {run : List Node} (reached : Reached (Before flow jump) entry target)
      (passed : PassedLast head inside run) : Stands flow jump entry head inside target run

variable (detour : IsDetour flow jump inner entry head inside target)

include detour

/-- A step after the change keeps the place where no jump goes to the target. -/
theorem Stands.step (noJump : ∀ node, Reached (Before flow jump) entry node → ¬ jump node target)
    {node later : Node} {past : List Node}
    (stands : Stands flow jump entry head inside target (node :: past))
    (edge : Redirected head target flow jump inner node later) :
    Stands flow jump entry head inside target (later :: node :: past) := by
  cases edge with
  | flow follows =>
      cases stands with
      | inside _ passed => exact absurd passed.head_mem (detour.flowOutside _ _ follows).1
      | outside _ reached _ =>
          rw [redirect]
          split_ifs with same
          · subst same
            exact .inside (reached.step (.inl follows)) (passedLast_head detour.headInside _)
          · exact .outside (detour.flowOutside _ _ follows).2 (reached.step (.inl follows))
              fun arrived => absurd arrived same
  | jump jumps =>
      cases stands with
      | inside _ passed => exact absurd passed.head_mem (detour.jumpOutside _ _ jumps).1
      | outside _ reached _ =>
          refine .outside (detour.jumpOutside _ _ jumps).2 (reached.step (.inr jumps)) ?_
          rintro rfl
          exact absurd jumps (noJump _ reached)
  | inner goesOn =>
      obtain ⟨within, onward⟩ := detour.innerInside _ _ goesOn
      cases stands with
      | outside other _ _ => exact absurd within other
      | inside reached passed =>
          rcases onward with member | rfl
          · exact .inside reached (passed.cons member)
          · exact .outside detour.targetOutside reached fun _ => passed

theorem stands_of_run (noJump : ∀ node, Reached (Before flow jump) entry node → ¬ jump node target)
    {run : List Node}
    (after : Run (Redirected head target flow jump inner) (entry.map (redirect head target)) run) :
    Stands flow jump entry head inside target run := by
  induction after with
  | start node first =>
      obtain ⟨old, starts, rfl⟩ := Option.map_eq_some_iff.mp first
      rw [redirect]
      split_ifs with same
      · subst same
        exact .inside ⟨[], .start _ starts⟩ (passedLast_head detour.headInside _)
      · exact .outside (detour.enters old starts) ⟨[], .start _ starts⟩
          fun arrived => absurd arrived same
  | step later _ edge ih => exact ih.step detour noJump edge

/-- What was reached before the change is reached after it. -/
theorem reached_redirected {node : Node} (before : Reached (Before flow jump) entry node) :
    Reached (Redirected head target flow jump inner) (entry.map (redirect head target)) node := by
  have arrives : ∀ later, Reached (Redirected head target flow jump inner)
      (entry.map (redirect head target)) (redirect head target later) →
      Reached (Redirected head target flow jump inner) (entry.map (redirect head target)) later := by
    intro later reached
    rw [redirect] at reached
    split_ifs at reached with same
    · rw [same]
      exact reached.path (Relation.ReflTransGen.mono (fun _ _ => .inner) _ _ detour.leads)
    · exact reached
  obtain ⟨past, run⟩ := before
  induction past generalizing node with
  | nil =>
      cases run with
      | start _ first =>
          apply arrives
          exact ⟨[], .start _ (by rw [first]; rfl)⟩
  | cons earlier past ih =>
      cases run with
      | step _ run edge =>
          rcases edge with follows | jumps
          · exact arrives node ((ih run).step (.flow follows))
          · exact (ih run).step (.jump jumps)

/-- All runs to the target pass the detour where no jump to the target is reached. -/
theorem alwaysPasses_iff :
    AlwaysPasses (Redirected head target flow jump inner) (entry.map (redirect head target)) head
        inside target ↔
      ∀ node, Reached (Before flow jump) entry node → ¬ jump node target := by
  constructor
  · intro passes node reached jumps
    obtain ⟨past, run⟩ := reached_redirected detour reached
    have passed := passes _ (.step target run (.jump jumps))
    exact (detour.jumpOutside _ _ jumps).1 passed.head_mem
  · intro noJump past run
    cases stands_of_run detour noJump run with
    | outside _ _ passed => exact passed rfl
    | inside _ passed => exact absurd passed.head_mem detour.targetOutside

end Redirect

end Detour
