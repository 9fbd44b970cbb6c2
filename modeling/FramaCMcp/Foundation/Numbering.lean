/-
This file gives the numbers that a program hands out in blocks, and the ones that it hands out for
names at first sight.
-/

import FramaCMcp.Foundation.HashMap
import Mathlib.Data.Int.Order.Basic
import Mathlib.Data.List.Nodup
import Mathlib.Algebra.Order.Group.Multiset

/-- This is a block of consecutive numbers. -/
structure Span where
  start : Int
  length : Nat
  deriving DecidableEq, Repr

namespace Span

def numbers (span : Span) : List Int :=
  (List.range span.length).map fun place : Nat => span.start + (place : Int)

/-- No number is in both blocks. -/
def Apart (first second : Span) : Prop :=
  first.length = 0 ∨ second.length = 0 ∨ first.start + first.length ≤ second.start ∨
    second.start + second.length ≤ first.start

instance (first second : Span) : Decidable (Apart first second) :=
  inferInstanceAs (Decidable (_ ∨ _))

theorem mem_numbers {span : Span} {number : Int} :
    number ∈ span.numbers ↔ span.start ≤ number ∧ number < span.start + span.length := by
  simp only [numbers, List.mem_map, List.mem_range]
  constructor
  · rintro ⟨place, inside, rfl⟩
    omega
  · rintro ⟨low, high⟩
    exact ⟨(number - span.start).toNat, by omega, by omega⟩

theorem numbers_nodup (span : Span) : span.numbers.Nodup := by
  apply List.nodup_range.map
  intro first second same
  dsimp only at same
  omega

theorem disjoint_numbers_iff {first second : Span} :
    first.numbers.Disjoint second.numbers ↔ Apart first second := by
  simp only [List.disjoint_left, mem_numbers, Apart]
  constructor
  · intro disjoint
    by_contra meet
    -- the larger of the two starts is in both blocks
    have low := @disjoint (max first.start second.start)
    omega
  · intro apart number inside
    omega

/-- Blocks give each number once where no two of them meet. -/
theorem nodup_flatMap_numbers_iff (spans : List Span) :
    (spans.flatMap numbers).Nodup ↔ spans.Pairwise Apart := by
  rw [List.nodup_flatMap, and_iff_right fun span _ => numbers_nodup span]
  exact ⟨fun pairwise => pairwise.imp fun disjoint => disjoint_numbers_iff.mp disjoint,
    fun pairwise => pairwise.imp fun apart => disjoint_numbers_iff.mpr apart⟩

theorem numbers_single (start : Int) : numbers ⟨start, 1⟩ = [start] := by
  simp [numbers]

theorem numbers_add (start : Int) (first second : Nat) :
    numbers ⟨start, first + second⟩ =
      numbers ⟨start, first⟩ ++ numbers ⟨start + first, second⟩ := by
  simp [numbers, List.range_add, Function.comp_def, add_assoc]

theorem numbers_succ (start : Int) (length : Nat) :
    numbers ⟨start, length + 1⟩ = start :: numbers ⟨start + 1, length⟩ := by
  rw [add_comm length, numbers_add, numbers_single, List.singleton_append]
  rfl

end Span

/-- This table numbers names at first sight. -/
structure Interner where
  cache : HashMap Int
  counter : Nat

namespace Interner

def empty : Interner where
  cache := ∅
  counter := 0

/-- A name that is known keeps its number, and a new one gets the next number. -/
def intern (base : Int) (table : Interner) (name : String) : Int × Interner :=
  match table.cache.lookup name with
  | some id => (id, table)
  | none =>
      let id := base + (table.counter : Int)
      (id, { cache := table.cache.insert name id, counter := table.counter + 1 })

/-- The names are numbered in order. -/
def internAll (base : Int) (table : Interner) (names : List String) : List Int × Interner :=
  match names with
  | [] => ([], table)
  | name :: rest =>
      let first := intern base table name
      let others := internAll base first.2 rest
      (first.1 :: others.1, others.2)

def register (base : Int) (table : Interner) (names : List String) : Interner :=
  (internAll base table names).2

/-- Each number was handed out, and only for one name. -/
structure Valid (base : Int) (table : Interner) : Prop where
  below : ∀ name id, table.cache.lookup name = some id → id < base + table.counter
  injective : ∀ first second id, table.cache.lookup first = some id →
    table.cache.lookup second = some id → first = second

variable {base : Int} {table : Interner}

@[simp] theorem register_nil : register base table [] = table := rfl

theorem register_cons (name : String) (rest : List String) :
    register base table (name :: rest) = register base (intern base table name).2 rest := rfl

theorem register_append (first second : List String) :
    register base table (first ++ second) = register base (register base table first) second := by
  induction first generalizing table with
  | nil => rfl
  | cons name rest ih => rw [List.cons_append, register_cons, ih, register_cons]

theorem register_singleton (name : String) :
    register base table [name] = (intern base table name).2 := rfl

theorem lookup_intern_self (name : String) :
    (intern base table name).2.cache.lookup name = some (intern base table name).1 := by
  rw [intern]
  split
  · assumption
  · exact AList.lookup_insert _

theorem lookup_intern_of_ne {name other : String} (different : other ≠ name) :
    (intern base table name).2.cache.lookup other = table.cache.lookup other := by
  rw [intern]
  split
  · rfl
  · exact AList.lookup_insert_ne different

theorem mem_intern {name other : String} :
    other ∈ (intern base table name).2.cache ↔ other = name ∨ other ∈ table.cache := by
  by_cases same : other = name
  · subst same
    simp [← AList.lookup_isSome, lookup_intern_self]
  · rw [← AList.lookup_isSome, lookup_intern_of_ne same, AList.lookup_isSome, or_iff_right same]

theorem lookup_intern_of_some {name other : String} {id : Int}
    (found : table.cache.lookup other = some id) :
    (intern base table name).2.cache.lookup other = some id := by
  by_cases same : other = name
  · subst same
    rw [intern, found]
    exact found
  · rw [lookup_intern_of_ne same, found]

theorem Valid.intern (valid : Valid base table) (name : String) :
    Valid base (intern base table name).2 := by
  cases found : table.cache.lookup name with
  | some id =>
      have same : (Interner.intern base table name).2 = table := by
        rw [Interner.intern, found]
      rwa [same]
  | none =>
      have grown : (Interner.intern base table name).2 =
          ⟨table.cache.insert name (base + table.counter), table.counter + 1⟩ := by
        rw [Interner.intern, found]
      rw [grown]
      constructor
      · intro other id known
        by_cases same : other = name
        · subst same
          rw [AList.lookup_insert, Option.some.injEq] at known
          dsimp only
          omega
        · rw [AList.lookup_insert_ne same] at known
          have old := valid.below other id known
          dsimp only
          omega
      · intro first second id left right
        -- the new number is above the old ones
        by_cases firstNew : first = name <;> by_cases secondNew : second = name
        · rw [firstNew, secondNew]
        · subst firstNew
          rw [AList.lookup_insert, Option.some.injEq] at left
          rw [AList.lookup_insert_ne secondNew] at right
          have old := valid.below second id right
          omega
        · subst secondNew
          rw [AList.lookup_insert, Option.some.injEq] at right
          rw [AList.lookup_insert_ne firstNew] at left
          have old := valid.below first id left
          omega
        · rw [AList.lookup_insert_ne firstNew] at left
          rw [AList.lookup_insert_ne secondNew] at right
          exact valid.injective first second id left right

theorem valid_empty (base : Int) : Valid base empty where
  below name id found := by cases found
  injective first second id found := by cases found

theorem mem_register {names : List String} {other : String} :
    other ∈ (register base table names).cache ↔ other ∈ names ∨ other ∈ table.cache := by
  induction names generalizing table with
  | nil => simp
  | cons name rest ih =>
      rw [register_cons, ih, mem_intern, List.mem_cons]
      tauto

theorem lookup_register_of_some {other : String} {id : Int}
    (found : table.cache.lookup other = some id) (names : List String) :
    (register base table names).cache.lookup other = some id := by
  induction names generalizing table with
  | nil => exact found
  | cons name rest ih =>
      rw [register_cons]
      exact ih (lookup_intern_of_some found)

theorem Valid.register (valid : Valid base table) (names : List String) :
    Valid base (register base table names) := by
  induction names generalizing table with
  | nil => exact valid
  | cons name rest ih => exact ih (valid.intern name)

end Interner
