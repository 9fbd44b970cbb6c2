/-
This file shows that the contract frontier is exact.
-/

import FramaCMcp.Construction.ContractFrontier

namespace FramaCMcp.ContractFrontier

open Relation StableSort

variable (program : Program)

/-- The body of a function calls another one directly. -/
def Calls (caller callee : KernelFunction) : Prop :=
  ∃ body, program.definition caller = some body ∧
    ∃ visit ∈ body, ∃ vi, visit.callee = some vi ∧ vi.vid = callee

/-- The body of a function has a call whose callee is not known. -/
def Hides (kf : KernelFunction) : Prop :=
  ∃ body, program.definition kf = some body ∧ ∃ printed loc, .callThrough printed loc ∈ body

def Defined (kf : KernelFunction) : Prop := kfIsDefined program kf = true

def Contracted (kf : KernelFunction) : Prop := Defined program kf ∧ kfHasContract program kf = true

/-- A chain of calls through defined functions leads to a function from one with a contract. -/
def Reached (kf : KernelFunction) : Prop :=
  ∃ seed, Contracted program seed ∧
    TransGen (fun caller callee => Calls program caller callee ∧ Defined program callee) seed kf

variable {program}

section Callees

theorem kernelFunctionOfVarinfo_registered {vi : Varinfo} (known : vi.vid ∈ program.functions) :
    kernelFunctionOfVarinfo program vi = some vi.vid := by
  rw [kernelFunctionOfVarinfo]
  cases found : program.functions.find? fun kf => kf == vi.vid with
  | none => exact absurd (beq_self_eq_true _) (List.find?_eq_none.mp found vi.vid known)
  | some kf => rw [eq_of_beq (List.find?_some (p := fun kf => kf == vi.vid) found)]; rfl

/-- A callee is listed once. -/
theorem addCallee_step (visitor : Visitor) {vi : Varinfo} (known : vi.vid ∈ program.functions) :
    (addCallee program visitor vi).unresolved = visitor.unresolved ∧
      (visitor.callees.Nodup → (addCallee program visitor vi).callees.Nodup) ∧
      ∀ kf, kf ∈ (addCallee program visitor vi).callees ↔ kf ∈ visitor.callees ∨ vi.vid = kf := by
  rw [addCallee, kernelFunctionOfVarinfo_registered known]
  dsimp only
  split_ifs with listed
  · obtain ⟨other, member, same⟩ := List.any_eq_true.mp listed
    obtain rfl : vi.vid = other := eq_of_beq same
    exact ⟨rfl, id, fun kf => ⟨.inl, fun either => either.elim id fun same => same ▸ member⟩⟩
  · have fresh : vi.vid ∉ visitor.callees := fun member =>
      listed (List.any_eq_true.mpr ⟨_, member, beq_self_eq_true _⟩)
    refine ⟨rfl, fun distinct => List.nodup_cons.mpr ⟨fresh, distinct⟩, fun kf => ?_⟩
    rw [List.mem_cons, or_comm, eq_comm]

theorem visitBody_step (visitor : Visitor) {visit : Visit}
    (registered : ∀ vi, visit.callee = some vi → vi.vid ∈ program.functions) :
    (visitor.callees.Nodup → (visitBody program visitor visit).callees.Nodup) ∧
      (∀ kf, kf ∈ (visitBody program visitor visit).callees ↔
        kf ∈ visitor.callees ∨ ∃ vi, visit.callee = some vi ∧ vi.vid = kf) ∧
      ((visitBody program visitor visit).unresolved = [] ↔
        visitor.unresolved = [] ∧ ∀ printed loc, visit ≠ .callThrough printed loc) := by
  cases visit with
  | stmt sid => exact ⟨id, by simp [visitBody, Visit.callee], by simp [visitBody]⟩
  | callThrough printed loc =>
      exact ⟨id, by simp [visitBody, addUnresolved, Visit.callee], by simp [visitBody, addUnresolved]⟩
  | call vi =>
      obtain ⟨sites, once, all⟩ := addCallee_step visitor (registered vi rfl)
      rw [visitBody]
      exact ⟨once, by simp [all, Visit.callee], by simp [sites]⟩
  | consInit vi =>
      obtain ⟨sites, once, all⟩ := addCallee_step visitor (registered vi rfl)
      rw [visitBody]
      exact ⟨once, by simp [all, Visit.callee], by simp [sites]⟩

/-- The callees are listed once, and the sites are those of the calls through pointers. -/
theorem visitBody_run {body : List Visit} (visitor : Visitor)
    (registered : ∀ visit ∈ body, ∀ vi, visit.callee = some vi → vi.vid ∈ program.functions)
    (distinct : visitor.callees.Nodup) :
    (body.foldl (visitBody program) visitor).callees.Nodup ∧
      (∀ kf, kf ∈ (body.foldl (visitBody program) visitor).callees ↔
        kf ∈ visitor.callees ∨ ∃ visit ∈ body, ∃ vi, visit.callee = some vi ∧ vi.vid = kf) ∧
      ((body.foldl (visitBody program) visitor).unresolved = [] ↔
        visitor.unresolved = [] ∧ ∀ printed loc, .callThrough printed loc ∉ body) := by
  induction body generalizing visitor with
  | nil => exact ⟨distinct, by simp, by simp⟩
  | cons visit body ih =>
      obtain ⟨once, all, sites⟩ := visitBody_step visitor
        (registered visit (List.mem_cons_self ..))
      obtain ⟨once', all', sites'⟩ := ih (visitBody program visitor visit)
        (fun other member => registered other (.tail _ member)) (once distinct)
      rw [List.foldl_cons]
      refine ⟨once', fun kf => ?_, ?_⟩
      · rw [all', all, List.exists_mem_cons_iff, or_assoc]
      · rw [sites', sites, and_assoc, and_congr_right_iff]
        intro _
        simp only [List.mem_cons, not_or, forall_and, ne_eq, eq_comm]

theorem directCallInfo_spec {kf : KernelFunction} (listed : kf ∈ program.functions) :
    (directCallInfo program kf).1.Nodup ∧
      (∀ callee, callee ∈ (directCallInfo program kf).1 ↔ Calls program kf callee) ∧
      ((directCallInfo program kf).2 = [] ↔ ¬Hides program kf) := by
  rw [directCallInfo]
  cases body : program.definition kf with
  | none => exact ⟨.nil, by simp [Calls, body], by simp [Hides, body]⟩
  | some visits =>
      obtain ⟨once, all, sites⟩ := visitBody_run {} (program.registered kf listed visits body) .nil
      refine ⟨List.nodup_reverse.mpr once, fun callee => ?_, ?_⟩
      · rw [List.mem_reverse, all]
        simp [Calls, body]
      · rw [List.reverse_eq_nil_iff, sites]
        simp [Hides, body]

theorem lookup_callInfo (kf : KernelFunction) : (callInfo program).lookup kf =
    if kfIsDefined program kf then some (directCallInfo program kf) else none := by
  have fold (functions : List KernelFunction)
      (acc : OrderedMap Nat (List KernelFunction × List Json)) :
      (functions.foldl (fun acc kf => acc.insert kf (directCallInfo program kf)) acc).lookup kf =
        if kf ∈ functions then some (directCallInfo program kf) else acc.lookup kf := by
    induction functions generalizing acc with
    | nil => simp
    | cons other functions ih =>
        rw [List.foldl_cons, ih, OrderedMap.lookup_insert]
        by_cases same : kf = other
        · subst same
          simp
        · simp [same]
  rw [callInfo, fold]
  simp only [mem_defined]
  rfl

/-- Only the defined functions call others. -/
theorem callInfoOf_spec (kf : KernelFunction) :
    (callInfoOf program kf).1.Nodup ∧
      (∀ callee, callee ∈ (callInfoOf program kf).1 ↔ Calls program kf callee) ∧
      ((callInfoOf program kf).2 = [] ↔ ¬Hides program kf) := by
  rw [callInfoOf, lookup_callInfo]
  split_ifs with test
  · exact directCallInfo_spec (program.known kf test)
  · have none : program.definition kf = none := Option.not_isSome_iff_eq_none.mp test
    exact ⟨.nil, by simp [Calls, none], by simp [Hides, none]⟩

end Callees

section Callers

def listed (table : OrderedMap Nat (List KernelFunction)) (kf : KernelFunction) :
    List KernelFunction := (table.lookup kf).getD []

theorem listed_insert (table : OrderedMap Nat (List KernelFunction)) (callee kf : KernelFunction)
    (callers : List KernelFunction) :
    listed (table.insert callee callers) kf = if kf = callee then callers else listed table kf := by
  rw [listed, OrderedMap.lookup_insert]
  split_ifs <;> rfl

theorem addCaller_step (table : OrderedMap Nat (List KernelFunction))
    (caller callee kf : KernelFunction) :
    ((listed table kf).Nodup → (listed (addCaller table caller callee) kf).Nodup) ∧
      ∀ other, other ∈ listed (addCaller table caller callee) kf ↔
        other ∈ listed table kf ∨ other = caller ∧ callee = kf ∧ caller ≠ kf := by
  rw [addCaller]
  dsimp only
  split_ifs with self known
  · obtain rfl : caller = callee := eq_of_beq self
    exact ⟨id, fun other => ⟨.inl, fun either => either.elim id fun ⟨_, same, differ⟩ =>
      absurd same differ⟩⟩
  · obtain ⟨old, member, same⟩ := List.any_eq_true.mp known
    obtain rfl : caller = old := eq_of_beq same
    refine ⟨id, fun other => ⟨.inl, fun either => either.elim id ?_⟩⟩
    rintro ⟨rfl, rfl, _⟩
    exact member
  · have differ : caller ≠ callee := fun same => self (beq_iff_eq.mpr same)
    have fresh : caller ∉ listed table callee := fun member =>
      known (List.any_eq_true.mpr ⟨_, member, beq_self_eq_true _⟩)
    rw [listed_insert]
    split_ifs with same
    · subst same
      refine ⟨fun distinct => List.nodup_cons.mpr ⟨fresh, distinct⟩, fun other => ?_⟩
      rw [List.mem_cons, or_comm]
      exact or_congr Iff.rfl ⟨fun same => ⟨same, rfl, differ⟩, And.left⟩
    · refine ⟨id, fun other => ⟨.inl, fun either => either.elim id ?_⟩⟩
      rintro ⟨_, rfl, _⟩
      exact absurd rfl same

theorem addCaller_run (caller kf : KernelFunction) (callees : List KernelFunction)
    (table : OrderedMap Nat (List KernelFunction)) :
    ((listed table kf).Nodup →
        (listed (callees.foldl (fun acc callee => addCaller acc caller callee) table) kf).Nodup) ∧
      ∀ other, other ∈ listed (callees.foldl (fun acc callee => addCaller acc caller callee) table) kf ↔
        other ∈ listed table kf ∨ other = caller ∧ kf ∈ callees ∧ caller ≠ kf := by
  induction callees generalizing table with
  | nil => exact ⟨id, by simp⟩
  | cons callee callees ih =>
      obtain ⟨once, all⟩ := addCaller_step table caller callee kf
      obtain ⟨once', all'⟩ := ih (addCaller table caller callee)
      rw [List.foldl_cons]
      refine ⟨once' ∘ once, fun other => ?_⟩
      rw [all', all, List.mem_cons, eq_comm (a := kf)]
      tauto

theorem callersTable_run (kf : KernelFunction) (callers : List KernelFunction)
    (table : OrderedMap Nat (List KernelFunction)) :
    ((listed table kf).Nodup →
        (listed (callers.foldl (fun acc caller => (callInfoOf program caller).1.foldl
          (fun acc callee => addCaller acc caller callee) acc) table) kf).Nodup) ∧
      ∀ other, other ∈ listed (callers.foldl (fun acc caller => (callInfoOf program caller).1.foldl
          (fun acc callee => addCaller acc caller callee) acc) table) kf ↔
        other ∈ listed table kf ∨ other ∈ callers ∧ Calls program other kf ∧ other ≠ kf := by
  induction callers generalizing table with
  | nil => exact ⟨id, by simp⟩
  | cons caller callers ih =>
      obtain ⟨once, all⟩ := addCaller_run caller kf (callInfoOf program caller).1 table
      obtain ⟨once', all'⟩ := ih _
      rw [List.foldl_cons]
      refine ⟨once' ∘ once, fun other => ?_⟩
      rw [all', all, List.mem_cons, (callInfoOf_spec caller).2.1]
      constructor
      · rintro ((old | ⟨rfl, calls, differ⟩) | ⟨member, calls, differ⟩)
        · exact .inl old
        · exact .inr ⟨.inl rfl, calls, differ⟩
        · exact .inr ⟨.inr member, calls, differ⟩
      · rintro (old | ⟨rfl | member, calls, differ⟩)
        · exact .inl (.inl old)
        · exact .inl (.inr ⟨rfl, calls, differ⟩)
        · exact .inr ⟨member, calls, differ⟩

/-- Each caller of a function is listed once, and the function itself is not. -/
theorem callersOf_spec (kf : KernelFunction) :
    (callersOf program kf).Nodup ∧
      ∀ caller, caller ∈ callersOf program kf ↔
        Defined program caller ∧ caller ≠ kf ∧ Calls program caller kf := by
  obtain ⟨once, all⟩ := @callersTable_run program kf (defined program) OrderedMap.empty
  refine ⟨once .nil, fun caller => ?_⟩
  rw [show callersOf program kf = listed (callersTable program) kf from rfl, callersTable, all,
    mem_defined]
  simp only [listed, OrderedMap.lookup, OrderedMap.empty, List.lookup_nil, Option.getD_none,
    List.not_mem_nil, false_or]
  exact ⟨fun ⟨test, calls, differ⟩ => ⟨test, differ, calls⟩,
    fun ⟨test, differ, calls⟩ => ⟨test, calls, differ⟩⟩

end Callers

section Frontier

theorem contains_contracted (kf : KernelFunction) :
    (contracted program).contains kf = true ↔ Contracted program kf := by
  have fold (functions : List KernelFunction) (acc : OrderedSet Nat) :
      kf ∈ OrderedMap.keys (functions.foldl (fun (acc : OrderedSet Nat) kf =>
          if kfHasContract program kf then acc.add kf else acc) acc) ↔
        kf ∈ acc.keys ∨ kf ∈ functions ∧ kfHasContract program kf = true := by
    induction functions generalizing acc with
    | nil => simp
    | cons other functions ih =>
        rw [List.foldl_cons, ih]
        by_cases same : kf = other
        · subst same
          split_ifs with test <;> simp [test, OrderedSet.mem_keys_add]
        · split_ifs <;> simp [same, OrderedSet.mem_keys_add]
  rw [← OrderedMap.mem_keys, contracted, fold, mem_defined]
  simp [OrderedMap.keys, OrderedMap.empty, Contracted, Defined]

theorem edge_iff (caller callee : KernelFunction) :
    (frontierSearch program).Edge caller callee ↔
      Calls program caller callee ∧ Defined program callee := by
  rw [Worklist.Search.Edge, frontierSearch, (callInfoOf_spec caller).2.1]
  rfl

theorem mem_seeds (kf : KernelFunction) :
    kf ∈ ((defined program).filter fun kf => (contracted program).contains kf) ↔
      Contracted program kf := by
  rw [List.mem_filter, contains_contracted, mem_defined]
  exact ⟨And.right, fun own => ⟨own.1, own⟩⟩

theorem mem_reached (kf : KernelFunction) : kf ∈ (walk program).reached ↔ Reached program kf := by
  have edges : (frontierSearch program).Edge = fun caller callee =>
      Calls program caller callee ∧ Defined program callee := by
    funext caller callee
    exact propext (edge_iff caller callee)
  rw [walk, ((frontierSearch program).run_spec _ kf).1, edges]
  simp only [mem_seeds]
  rfl

theorem mem_walked (kf : KernelFunction) :
    kf ∈ (walk program).walked ↔ Contracted program kf ∨ Reached program kf := by
  rw [← mem_reached, walk, ((frontierSearch program).run_spec _ kf).2, mem_seeds]

theorem Reached.defined {kf : KernelFunction} (reached : Reached program kf) : Defined program kf := by
  obtain ⟨seed, _, path⟩ := reached
  cases path with
  | single edge => exact edge.2
  | tail _ edge => exact edge.2

theorem mem_missing (kf : KernelFunction) :
    kf ∈ missing program ↔ Reached program kf ∧ kfHasContract program kf = false := by
  rw [missing, (sortByKey_perm _ _).mem_iff, List.mem_filter, mem_defined, Bool.and_eq_true,
    List.contains_iff_mem, mem_reached, Bool.not_eq_true', ← Bool.not_eq_true, contains_contracted,
    Contracted]
  constructor
  · rintro ⟨test, reached, lacks⟩
    exact ⟨reached, Bool.not_eq_true _ |>.mp fun has => lacks ⟨test, has⟩⟩
  · rintro ⟨reached, lacks⟩
    exact ⟨reached.defined, reached, fun ⟨_, has⟩ => by rw [lacks] at has; cases has⟩

theorem nodup_defined : (defined program).Nodup := by
  have fold (functions acc : List KernelFunction) (distinct : (functions ++ acc).Nodup) :
      (functions.foldl (fun acc kf => if kfIsDefined program kf then kf :: acc else acc)
        acc).Nodup := by
    induction functions generalizing acc with
    | nil => exact distinct
    | cons kf functions ih =>
        rw [List.foldl_cons]
        rw [List.cons_append] at distinct
        split_ifs
        · exact ih _ (List.perm_middle.nodup_iff.mpr distinct)
        · exact ih _ (List.nodup_cons.mp distinct).2
  exact fold _ _ ((List.append_nil _).symm ▸ program.distinct)

theorem nodup_missing : (missing program).Nodup :=
  (sortByKey_perm _ _).nodup_iff.mpr (nodup_defined.filter _)

theorem unresolved_eq_nil_iff :
    unresolved program = [] ↔
      ∀ kf, Contracted program kf ∨ Reached program kf → ¬Hides program kf := by
  rw [unresolved, List.flatMap_eq_nil_iff]
  constructor
  · intro none kf walked
    have test : Defined program kf := walked.elim And.left Reached.defined
    apply (callInfoOf_spec kf).2.2.mp
    apply List.map_eq_nil_iff.mp
    apply none kf
    rw [(sortByKey_perm _ _).mem_iff, List.mem_filter, mem_defined, List.contains_iff_mem, mem_walked]
    exact ⟨test, walked⟩
  · intro plain kf member
    rw [(sortByKey_perm _ _).mem_iff, List.mem_filter, List.contains_iff_mem, mem_walked] at member
    rw [(callInfoOf_spec kf).2.2.mpr (plain kf member.2), List.map_nil]

/-- The frontier lists the reached functions without a contract once, with their callers, and it
counts as complete where no walked body hides a callee. -/
theorem getContractFrontier_exact (program : Program) :
    ∃ missing : List KernelFunction, ∃ callers : KernelFunction → List KernelFunction,
      (getContractFrontier program).get "missing" =
        some (.arr (missing.map fun kf => frontierFunctionToJson program kf (callers kf))) ∧
      missing.Nodup ∧
      (∀ kf, kf ∈ missing ↔ Defined program kf ∧ kfHasContract program kf = false ∧
        Reached program kf) ∧
      (∀ kf, (callers kf).Nodup ∧ ∀ caller, caller ∈ callers kf ↔
        Defined program caller ∧ caller ≠ kf ∧ Calls program caller kf) ∧
      ((getContractFrontier program).get "call_graph_complete" = some (.bool true) ↔
        ∀ kf, Contracted program kf ∨ Reached program kf → ¬Hides program kf) := by
  refine ⟨missing program, callersOf program, rfl, nodup_missing,
    fun kf => ?_, callersOf_spec, ?_⟩
  · rw [mem_missing]
    exact ⟨fun ⟨reached, lacks⟩ => ⟨reached.defined, lacks, reached⟩,
      fun ⟨_, lacks, reached⟩ => ⟨reached, lacks⟩⟩
  · have field : (getContractFrontier program).get "call_graph_complete" =
        some (.bool (unresolved program).isEmpty) := rfl
    rw [← unresolved_eq_nil_iff, field, Option.some.injEq, Json.bool.injEq, List.isEmpty_iff]

/-- A recursive function with a contract calls a helper twice, and the helper calls an external
function. -/
def helperProgram : Program where
  functions := [1, 2, 3]
  distinct := by decide
  name kf := if kf = 1 then "main" else if kf = 2 then "helper" else "getpid"
  location kf := ⟨kf == 3, "f.c", 10 * kf, 0⟩
  definition
    | 1 => some [.stmt 1, .call ⟨2, "helper"⟩, .stmt 2, .call ⟨1, "main"⟩, .call ⟨2, "helper"⟩]
    | 2 => some [.stmt 3, .call ⟨3, "getpid"⟩]
    | _ => none
  emptyFunspec kf := kf != 1
  known kf defined := by
    split at defined <;> first | decide | cases defined
  registered kf _ body defined := by
    split at defined
    · cases defined
      decide
    · cases defined
      decide
    · cases defined

theorem calls_helper : Calls helperProgram 1 2 :=
  ⟨_, rfl, _, List.mem_cons_of_mem _ List.mem_cons_self, _, rfl, rfl⟩

/-- The helper lacks a contract, and the external function is none of the program. -/
theorem getContractFrontier_exact_helper : ∃ missing : List KernelFunction,
    ∃ callers : KernelFunction → List KernelFunction,
      (getContractFrontier helperProgram).get "missing" = some (.arr (missing.map fun kf =>
        frontierFunctionToJson helperProgram kf (callers kf))) ∧
      2 ∈ missing ∧ 1 ∉ missing ∧ 3 ∉ missing ∧ 1 ∈ callers 2 := by
  obtain ⟨missing, callers, listed, -, exactly, called, -⟩ :=
    getContractFrontier_exact helperProgram
  refine ⟨missing, callers, listed, (exactly 2).mpr ⟨rfl, rfl, 1, ⟨rfl, rfl⟩,
    .single ⟨calls_helper, rfl⟩⟩, fun main => ?_, fun external => ?_,
    ((called 2).2 1).mpr ⟨rfl, by decide, calls_helper⟩⟩
  · exact absurd ((exactly 1).mp main).2.1 (by decide)
  · exact Bool.false_ne_true ((exactly 3).mp external).1

end Frontier

end FramaCMcp.ContractFrontier
