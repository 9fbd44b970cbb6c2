/-
This file shows for which texts the expressions of ghost code have the types and the values that C
gives to their texts.
-/

import FramaCMcp.Proof.ExprCompleteness

namespace FramaCMcp.GhostExpr

open CLang
open StateFlow (map_eq_ok bind_eq_ok)
open Cil (Varinfo Fundec)

section Kernel

def BinOp.operator : BinOp → Operator
  | .plusA | .plusPI => .add
  | .minusA => .sub
  | .mult => .mul
  | .div => .div
  | .mod => .mod

variable (machine : Machine Varinfo) (vtype : Varinfo → Typ)

mutual

/-- This is the value that the kernel gives to an expression. -/
def value (state : machine.State) : Exp → Option (Value machine.Other)
  | .const value _ => some (.int value)
  | .lval host offset => do
      let base ← hostPlace state host
      let place ← offsetPlace state offset base
      machine.load state place
  | .neg operand type => do
      let operand ← value state operand
      machine.negate type.expand operand
  | .binOp operator left right _ => do
      let first ← value state left
      let second ← value state right
      machine.operatorValue operator.operator (typeOf vtype left).expand
        (typeOf vtype right).expand first second
  | .castE type operand => do
      let operand ← value state operand
      machine.convert type.expand operand

def hostPlace (state : machine.State) : Lhost → Option (Place Varinfo machine.Other)
  | .var vi => some (.variable vi)
  | .mem addr => do
      match ← value state addr with
      | .other pointer => some (.target pointer)
      | .int _ => none

def offsetPlace (state : machine.State) :
    Offset → Place Varinfo machine.Other → Option (Place Varinfo machine.Other)
  | .noOffset, base => some base
  | .index position rest, base => do
      match ← value state position with
      | .int index => offsetPlace state rest (.element base index)
      | .other _ => none

end

/-- The kernel adds an index to every pointer, whatever it points to. -/
def operationType (operator : BinOp) (left right : Typ) : Option Typ :=
  match operator, left with
  | .plusPI, .ptr target => if right.isInteger then some (.ptr target) else none
  | .plusPI, _ => none
  | operator, left => machine.operatorType operator.operator left right

mutual

/-- Each constant is a value of its kind. -/
def Sized : Exp → Prop
  | .const value kind => machine.fits kind value = true
  | .lval host offset => SizedHost host ∧ SizedOffset offset
  | .neg operand _ => Sized operand
  | .binOp _ left right _ => Sized left ∧ Sized right
  | .castE _ operand => Sized operand

def SizedHost : Lhost → Prop
  | .var _ => True
  | .mem addr => Sized addr

def SizedOffset : Offset → Prop
  | .noOffset => True
  | .index position rest => Sized position ∧ SizedOffset rest

end

/-- The expression has the type and the value that C gives to the operation. -/
structure IsOperation (operator : BinOp) (left right exp : Exp) : Prop where
  sized : Sized machine exp
  type : operationType machine operator (typeOf vtype left).expand (typeOf vtype right).expand =
    some (typeOf vtype exp).expand
  value : ∀ state first second result, value machine vtype state left = some first →
    value machine vtype state right = some second →
    machine.operatorValue operator.operator (typeOf vtype left).expand (typeOf vtype right).expand
      first second = some result → value machine vtype state exp = some result

/-- The kernel builds constants of the type `int`, which it may truncate where the value does not
fit, and operations that are those of C. -/
structure Kernel.Lawful (kernel : Kernel) : Prop where
  integer : ∀ value, ∃ kept, kernel.integer value = .const kept .int ∧
    machine.fits .int kept = true ∧ (machine.fits .int value = true → kept = value)
  operation : ∀ operator left right exp, Sized machine left → Sized machine right →
    kernel.mkBinop operator left right = .ok exp →
    IsOperation machine kernel.vtype operator left right exp

end Kernel

section Meaning

variable (machine : Machine Varinfo) (vtype : Varinfo → Typ)
  (lookup : String → Except String Varinfo)

/-- An array stands for the pointer to its first element. -/
def decayed : Typ → Typ
  | .array element _ => .ptr element
  | type => type

/-- C indexes arrays and pointers to objects of a known size. -/
def elementType : Typ → Option Typ
  | .array element _ => some element
  | .ptr target => if target.isComplete then some target else none
  | _ => none

/-- This is the type that C gives to an expression. -/
def ctype : Tree → Option Typ
  | .number digits => (machine.constant digits).map fun constant => .int constant.1
  | .name name => do
      let vi ← (lookup name).toOption
      some (decayed (vtype vi).expand)
  | .index name position => do
      let vi ← (lookup name).toOption
      let index ← ctype position
      let element ← elementType (vtype vi).expand
      if index.isInteger then some (decayed element) else none
  | .neg operand => do
      let type ← ctype operand
      machine.promote type
  | .binary operator left right => do
      let left ← ctype left
      let right ← ctype right
      machine.operatorType operator left right

/-- An array in memory is read as the pointer to its first element. -/
def readPlace (type : Typ) (state : machine.State) (place : Place Varinfo machine.Other) :
    Option (Value machine.Other) :=
  match type with
  | .array _ _ => (machine.addressOf place).map .other
  | _ => machine.load state place

def elementPlace (type : Typ) (state : machine.State) (vi : Varinfo)
    (index : Value machine.Other) : Option (Place Varinfo machine.Other) :=
  match type, index with
  | .array _ _, .int index => some (.element (.variable vi) index)
  | .ptr target, index => do
      let pointer ← machine.load state (.variable vi)
      match ← machine.shift target pointer index with
      | .other pointer => some (.target pointer)
      | .int _ => none
  | _, _ => none

/-- This is the value that C gives to an expression, where it gives one. -/
def cvalue (state : machine.State) : Tree → Option (Value machine.Other)
  | .number digits => (machine.constant digits).map fun constant => .int constant.2
  | .name name => do
      let vi ← (lookup name).toOption
      readPlace machine (vtype vi).expand state (.variable vi)
  | .index name position => do
      let vi ← (lookup name).toOption
      let index ← cvalue state position
      let element ← elementType (vtype vi).expand
      let place ← elementPlace machine (vtype vi).expand state vi index
      readPlace machine element state place
  | .neg operand => do
      let type ← ctype machine vtype lookup operand
      let promoted ← machine.promote type
      let operand ← cvalue state operand
      machine.negate promoted operand
  | .binary operator left right => do
      let leftType ← ctype machine vtype lookup left
      let rightType ← ctype machine vtype lookup right
      let first ← cvalue state left
      let second ← cvalue state right
      machine.operatorValue operator leftType rightType first second

end Meaning

section Agreement

variable (machine : Machine Varinfo) (kernel : Kernel) (lookup : String → Except String Varinfo)

/-- The expression has the type of the tree and its value wherever C gives one. -/
def SameMeaning (tree : Tree) (exp : Exp) : Prop :=
  ctype machine kernel.vtype lookup tree = some (typeOf kernel.vtype exp).expand ∧
    ∀ state result, cvalue machine kernel.vtype lookup state tree = some result →
      value machine kernel.vtype state exp = some result

/-- Each expression that the parser builds for this tree has its meaning. -/
def Agrees (tree : Tree) : Prop :=
  ∀ exp, build kernel lookup tree = .ok exp → SameMeaning machine kernel lookup tree exp

/-- A number that is too long for an `int` is truncated to the value that C gives to its digits. -/
def TruncatedToC (digits : List Char) : Prop :=
  machine.maxOf .int < Machine.numeral 10 digits ∧ ∃ number,
    machine.constant digits = some (.int, number) ∧
      kernel.integer (Machine.numeral 10 digits) = .const number .int

/-- Nothing in the tree itself is read otherwise by C than by the parser. -/
def Plain : Tree → Prop
  | .number digits => ((Machine.numeral 10 digits : Int) ≤ machine.maxOf .int ∧
      (digits.head? = some '0' → Machine.numeral 10 digits < 8)) ∨ TruncatedToC machine kernel digits
  | .name name => ∀ vi, lookup name = .ok vi → (kernel.vtype vi).expand.isArray = false
  | .index name position => (∃ type, ctype machine kernel.vtype lookup position = some type ∧
      type.isInteger = true) ∧ ∀ vi, lookup name = .ok vi →
        ∃ element, elementType (kernel.vtype vi).expand = some element ∧ element.isArray = false
  | .neg operand => ∃ type, ctype machine kernel.vtype lookup operand = some type ∧
      machine.promote type = some type
  | .binary _ _ _ => True

/-- These are the expressions that an expression is made of, with itself. -/
def Tree.parts : Tree → List Tree
  | .number digits => [.number digits]
  | .name word => [.name word]
  | .index word position => .index word position :: position.parts
  | .neg operand => .neg operand :: operand.parts
  | .binary operator left right => .binary operator left right :: (left.parts ++ right.parts)

theorem Tree.mem_parts (tree : Tree) : tree ∈ tree.parts := by
  cases tree <;> exact List.mem_cons_self

end Agreement

section Types

theorem expand_unroll (type : Typ) : type.unroll.expand = type.expand := by
  induction type with
  | named name ttype ih => exact ih
  | void | int _ | float _ | ptr _ | array _ _ | func _ | comp _ _ | enum _ _ => rfl

theorem unroll_ne_named (type : Typ) (name : String) (ttype : Typ) :
    type.unroll ≠ .named name ttype := by
  induction type with
  | named _ _ ih => exact ih
  | void | int _ | float _ | ptr _ | array _ _ | func _ | comp _ _ | enum _ _ =>
      exact Typ.noConfusion

theorem expand_of_unroll {type other : Typ} (unrolled : type.unroll = other) :
    type.expand = other.expand := by
  rw [← unrolled, expand_unroll]

theorem expand_pointee {type target : Typ} (expanded : type.expand = .ptr target) :
    (pointee type).expand = target := by
  rw [← expand_unroll] at expanded
  rw [pointee]
  cases unrolled : type.unroll with
  | ptr inner =>
      rw [unrolled] at expanded
      exact Typ.ptr.inj expanded
  | named name ttype => exact absurd unrolled (unroll_ne_named type name ttype)
  | void | int _ | float _ | array _ _ | func _ | comp _ _ | enum _ _ =>
      rw [unrolled] at expanded
      cases expanded

theorem decayed_eq_self_iff (type : Typ) : decayed type = type ↔ type.isArray = false := by
  cases type <;> simp [decayed, Typ.isArray]

theorem findVar_eq_ok {lookup : String → Except String Varinfo} {name : String} {vi : Varinfo} :
    findVar lookup name = .ok vi ↔ lookup name = .ok vi := by
  rw [findVar]
  cases lookup name with
  | error message =>
      constructor
      · intro found
        cases found
      · intro found
        cases found
  | ok other => exact ⟨fun found => congrArg _ (Except.ok.inj found),
      fun found => congrArg _ (Except.ok.inj found)⟩

theorem readPlace_of_isArray {machine : Machine Varinfo} {type : Typ}
    (scalar : type.isArray = false) (state : machine.State)
    (place : Place Varinfo machine.Other) :
    readPlace machine type state place = machine.load state place := by
  cases type <;> first | rfl | cases scalar

end Types

section Steps

variable {machine : Machine Varinfo} {kernel : Kernel} {lookup : String → Except String Varinfo}

theorem intOfString_eq_ok {digits : List Char} {number : Nat}
    (read : intOfString digits = .ok number) : number = Machine.numeral 10 digits := by
  rw [intOfString] at read
  split_ifs at read
  exact (Except.ok.inj read).symm

/-- A constant means what C means by the digits if C reads an `int` of its value. -/
theorem same_const_iff (digits : List Char) (kept : Int) :
    SameMeaning machine kernel lookup (.number digits) (.const kept .int) ↔
      ∃ number : Nat, machine.constant digits = some (.int, number) ∧ kept = number := by
  constructor
  · rintro ⟨typed, valued⟩
    obtain ⟨⟨kind, number⟩, found, same⟩ := Option.map_eq_some_iff.mp typed
    obtain rfl : kind = .int := Typ.int.inj same
    have given : cvalue machine kernel.vtype lookup machine.start (.number digits) =
        some (.int number) := by
      rw [cvalue, found]
      rfl
    exact ⟨number, found, Value.int.inj (Option.some.inj (valued machine.start _ given))⟩
  · rintro ⟨number, found, rfl⟩
    refine ⟨?_, fun state result given => ?_⟩
    · rw [ctype, found]
      rfl
    · rw [cvalue, found] at given
      exact given

theorem same_number_iff (lawful : kernel.Lawful machine) {digits : List Char} {exp : Exp}
    (built : build kernel lookup (.number digits) = .ok exp) :
    SameMeaning machine kernel lookup (.number digits) exp ↔
      Plain machine kernel lookup (.number digits) := by
  obtain ⟨number, read, rfl⟩ := map_eq_ok.mp built
  obtain ⟨kept, made, -, keeps⟩ := lawful.integer (Machine.numeral 10 digits)
  rw [machine.fits_natCast_iff] at keeps
  rw [intOfString_eq_ok read, made, same_const_iff, Plain, ← Machine.constant_eq_int_iff,
    TruncatedToC, made]
  constructor
  · rintro ⟨number, found, rfl⟩
    rcases lt_or_ge (machine.maxOf .int) (Machine.numeral 10 digits : Int) with large | small
    · exact .inr ⟨large, number, found, rfl⟩
    · rw [← Int.ofNat.inj (keeps small)]
      exact .inl found
  · rintro (found | ⟨-, number, found, same⟩)
    · exact ⟨_, found, keeps ((Machine.constant_eq_int_iff machine digits).mp found).1⟩
    · exact ⟨number, found, (Exp.const.inj same).1⟩

variable {name : String} {position : Tree}

theorem same_name_iff {exp : Exp} (built : build kernel lookup (.name name) = .ok exp) :
    SameMeaning machine kernel lookup (.name name) exp ↔
      Plain machine kernel lookup (.name name) := by
  obtain ⟨vi, found, rfl⟩ := map_eq_ok.mp built
  rw [findVar_eq_ok] at found
  have typed : ctype machine kernel.vtype lookup (.name name) =
      some (decayed (kernel.vtype vi).expand) := by
    rw [ctype, found]
    rfl
  constructor
  · rintro ⟨same, _⟩ other found'
    obtain rfl : vi = other := Except.ok.inj (found.symm.trans found')
    exact (decayed_eq_self_iff _).mp (Option.some.inj (typed.symm.trans same))
  · intro plain
    have scalar := plain vi found
    refine ⟨?_, fun state result given => ?_⟩
    · rw [typed, (decayed_eq_self_iff _).mpr scalar]
      rfl
    · rw [cvalue, found] at given
      change readPlace machine (kernel.vtype vi).expand state (.variable vi) = some result at given
      rw [readPlace_of_isArray scalar] at given
      exact given

theorem same_neg_iff {operand : Tree} {inner exp : Exp}
    (built : build kernel lookup operand = .ok inner)
    (same : SameMeaning machine kernel lookup operand inner)
    (whole : build kernel lookup (.neg operand) = .ok exp) :
    SameMeaning machine kernel lookup (.neg operand) exp ↔
      Plain machine kernel lookup (.neg operand) := by
  rw [build, built] at whole
  cases whole
  obtain ⟨typed, valued⟩ := same
  have promoted : ctype machine kernel.vtype lookup (.neg operand) =
      machine.promote (typeOf kernel.vtype inner).expand := by
    rw [ctype, typed]
    rfl
  constructor
  · rintro ⟨same, _⟩
    exact ⟨_, typed, promoted.symm.trans same⟩
  · rintro ⟨type, typed', kept⟩
    obtain rfl := Option.some.inj (typed.symm.trans typed')
    refine ⟨promoted.trans kept, fun state result given => ?_⟩
    simp only [cvalue, typed, kept, Option.bind_eq_bind, Option.bind_some] at given
    obtain ⟨first, before, given⟩ := Option.bind_eq_some_iff.mp given
    rw [value, valued state first before]
    exact given

theorem operationType_binOpOf (operator : Operator) (left right : Typ) :
    operationType machine (binOpOf operator) left right =
      machine.operatorType operator left right := by
  cases operator <;> rfl

theorem operator_binOpOf (operator : Operator) : (binOpOf operator).operator = operator := by
  cases operator <;> rfl

theorem mapError_eq_ok {α : Type} {result : Except Raised α} {made : α}
    (built : result.mapError Fault.raised = .ok made) : result = .ok made := by
  cases result with
  | error raised => cases built
  | ok other => exact congrArg _ (Except.ok.inj built)

theorem same_binary (lawful : kernel.Lawful machine) {operator : Operator} {left right : Tree}
    {first second exp : Exp} (builtLeft : build kernel lookup left = .ok first)
    (builtRight : build kernel lookup right = .ok second)
    (sameLeft : SameMeaning machine kernel lookup left first)
    (sameRight : SameMeaning machine kernel lookup right second)
    (sizedLeft : Sized machine first) (sizedRight : Sized machine second)
    (whole : build kernel lookup (.binary operator left right) = .ok exp) :
    SameMeaning machine kernel lookup (.binary operator left right) exp := by
  rw [build, builtLeft, builtRight] at whole
  have made : kernel.mkBinop (binOpOf operator) first second = .ok exp := mapError_eq_ok whole
  have operation := lawful.operation _ _ _ _ sizedLeft sizedRight made
  have type := operation.type
  rw [operationType_binOpOf] at type
  refine ⟨?_, fun state result given => ?_⟩
  · rw [ctype, sameLeft.1, sameRight.1]
    exact type
  · simp only [cvalue, sameLeft.1, sameRight.1, Option.bind_eq_bind, Option.bind_some] at given
    obtain ⟨a, valueLeft, given⟩ := Option.bind_eq_some_iff.mp given
    obtain ⟨b, valueRight, given⟩ := Option.bind_eq_some_iff.mp given
    refine operation.value state a b result (sameLeft.2 state a valueLeft)
      (sameRight.2 state b valueRight) ?_
    rw [operator_binOpOf]
    exact given

/-- C gives an element its type if the index is an integer and the element is no array. -/
theorem ctype_index_eq_self_iff {vi : Varinfo} {index element : Typ} (found : lookup name = .ok vi)
    (typed : ctype machine kernel.vtype lookup position = some index)
    (held : ∀ other, elementType (kernel.vtype vi).expand = some other → other = element) :
    ctype machine kernel.vtype lookup (.index name position) = some element ↔
      Plain machine kernel lookup (.index name position) := by
  have whole : ctype machine kernel.vtype lookup (.index name position) =
      (elementType (kernel.vtype vi).expand).bind fun element =>
        if index.isInteger then some (decayed element) else none := by
    rw [ctype, found, typed]
    rfl
  rw [whole]
  constructor
  · intro same
    obtain ⟨other, given, same⟩ := Option.bind_eq_some_iff.mp same
    obtain rfl := held other given
    split_ifs at same with integer
    refine ⟨⟨index, typed, integer⟩, fun vi' found' => ?_⟩
    obtain rfl : vi = vi' := Except.ok.inj (found.symm.trans found')
    exact ⟨other, given, (decayed_eq_self_iff other).mp (Option.some.inj same)⟩
  · rintro ⟨⟨index', typed', integer⟩, scalar⟩
    obtain rfl := Option.some.inj (typed.symm.trans typed')
    obtain ⟨other, given, scalar⟩ := scalar vi found
    obtain rfl := held other given
    rw [given, Option.bind_some, if_pos integer, (decayed_eq_self_iff other).mpr scalar]

theorem cvalue_index {vi : Varinfo} {element : Typ} (found : lookup name = .ok vi)
    (given : elementType (kernel.vtype vi).expand = some element) (scalar : element.isArray = false)
    {state : machine.State} {result : Value machine.Other}
    (valued : cvalue machine kernel.vtype lookup state (.index name position) = some result) :
    ∃ index place, cvalue machine kernel.vtype lookup state position = some index ∧
      elementPlace machine (kernel.vtype vi).expand state vi index = some place ∧
      machine.load state place = some result := by
  rw [cvalue, found] at valued
  obtain ⟨other, same, valued⟩ := Option.bind_eq_some_iff.mp valued
  obtain rfl : vi = other := Option.some.inj same
  obtain ⟨index, before, valued⟩ := Option.bind_eq_some_iff.mp valued
  simp only [given, Option.bind_eq_bind, Option.bind_some] at valued
  obtain ⟨place, reached, valued⟩ := Option.bind_eq_some_iff.mp valued
  rw [readPlace_of_isArray scalar] at valued
  exact ⟨index, place, before, reached, valued⟩

theorem same_array_iff {vi : Varinfo} {inner : Exp} {element : Typ} {size : Option Nat}
    (found : lookup name = .ok vi) (array : (kernel.vtype vi).unroll = .array element size)
    (same : SameMeaning machine kernel lookup position inner) :
    SameMeaning machine kernel lookup (.index name position)
        (.lval (.var vi) (.index inner .noOffset)) ↔
      Plain machine kernel lookup (.index name position) := by
  have expanded : (kernel.vtype vi).expand = .array element.expand size := expand_of_unroll array
  have type : typeOf kernel.vtype (.lval (.var vi) (.index inner .noOffset)) = element := by
    change elementOf (kernel.vtype vi) = element
    rw [elementOf, array]
  have given : elementType (kernel.vtype vi).expand = some element.expand := by
    rw [expanded]
    rfl
  rw [SameMeaning, type, ctype_index_eq_self_iff found same.1
    fun other held => Option.some.inj (held.symm.trans given)]
  refine ⟨And.left, fun plain => ⟨plain, fun state result valued => ?_⟩⟩
  obtain ⟨other, held, scalar⟩ := plain.2 vi found
  obtain ⟨index, place, before, reached, loaded⟩ := cvalue_index found held scalar valued
  rw [expanded] at reached
  cases index with
  | other pointer => cases reached
  | int index =>
      cases reached
      have inside := same.2 state _ before
      simp only [value, hostPlace, offsetPlace, inside, Option.bind_eq_bind, Option.bind_some]
      exact loaded

theorem same_pointer_iff (lawful : kernel.Lawful machine) {vi : Varinfo} {inner addr : Exp}
    {target : Typ} (found : lookup name = .ok vi) (pointer : (kernel.vtype vi).unroll = .ptr target)
    (same : SameMeaning machine kernel lookup position inner) (sized : Sized machine inner)
    (made : kernel.mkBinop .plusPI (.lval (.var vi) .noOffset) inner = .ok addr) :
    SameMeaning machine kernel lookup (.index name position) (.lval (.mem addr) .noOffset) ↔
      Plain machine kernel lookup (.index name position) := by
  have expanded : (kernel.vtype vi).expand = .ptr target.expand := expand_of_unroll pointer
  have base : typeOf kernel.vtype (.lval (.var vi) .noOffset) = kernel.vtype vi := rfl
  have operation := lawful.operation .plusPI (.lval (.var vi) .noOffset) inner addr
    ⟨trivial, trivial⟩ sized made
  have law := operation.type
  rw [base, expanded, operationType] at law
  split_ifs at law with integer
  have type : (typeOf kernel.vtype (.lval (.mem addr) .noOffset)).expand = target.expand :=
    expand_pointee (Option.some.inj law).symm
  have given : ∀ other, elementType (kernel.vtype vi).expand = some other →
      other = target.expand := by
    intro other held
    rw [expanded, elementType] at held
    split_ifs at held
    exact (Option.some.inj held).symm
  rw [SameMeaning, type, ctype_index_eq_self_iff found same.1 given]
  refine ⟨And.left, fun plain => ⟨plain, fun state result valued => ?_⟩⟩
  obtain ⟨other, held, scalar⟩ := plain.2 vi found
  obtain ⟨index, place, before, reached, loaded⟩ := cvalue_index found held scalar valued
  rw [expanded] at reached
  obtain ⟨first, read, reached⟩ := Option.bind_eq_some_iff.mp reached
  obtain ⟨shifted, moved, reached⟩ := Option.bind_eq_some_iff.mp reached
  cases shifted with
  | int number => cases reached
  | other pointer =>
      cases reached
      have own : value machine kernel.vtype state (.lval (.var vi) .noOffset) = some first := read
      have address : value machine kernel.vtype state addr = some (.other pointer) := by
        refine operation.value state first index _ own (same.2 state index before) ?_
        rw [base, expanded]
        exact moved
      simp only [value, hostPlace, offsetPlace, address, Option.bind_eq_bind, Option.bind_some]
      exact loaded

theorem same_index_iff (lawful : kernel.Lawful machine) {inner exp : Exp}
    (built : build kernel lookup position = .ok inner)
    (same : SameMeaning machine kernel lookup position inner) (sized : Sized machine inner)
    (whole : build kernel lookup (.index name position) = .ok exp) :
    SameMeaning machine kernel lookup (.index name position) exp ↔
      Plain machine kernel lookup (.index name position) := by
  rw [build, built] at whole
  obtain ⟨vi, found, whole⟩ := bind_eq_ok.mp whole
  rw [findVar_eq_ok] at found
  change indexed kernel name vi inner = .ok exp at whole
  rw [indexed] at whole
  split at whole
  · rename_i element size array
    cases whole
    exact same_array_iff found array same
  · rename_i target pointer
    obtain ⟨addr, made, whole⟩ := bind_eq_ok.mp whole
    cases whole
    exact same_pointer_iff lawful found pointer same sized (mapError_eq_ok made)
  · cases whole

/-- The constants of a plain tree are values of their kinds. -/
theorem sized_of_plain (lawful : kernel.Lawful machine) {tree : Tree} {exp : Exp}
    (built : build kernel lookup tree = .ok exp)
    (plain : ∀ part ∈ tree.parts, Plain machine kernel lookup part) : Sized machine exp := by
  induction tree generalizing exp with
  | number digits =>
      obtain ⟨number, read, rfl⟩ := map_eq_ok.mp built
      obtain ⟨kept, made, fits, -⟩ := lawful.integer number
      rw [made]
      exact fits
  | name word =>
      obtain ⟨vi, _, rfl⟩ := map_eq_ok.mp built
      exact ⟨trivial, trivial⟩
  | index word position ih =>
      obtain ⟨vi, _, rest⟩ := bind_eq_ok.mp built
      obtain ⟨inner, builtInner, rest⟩ := bind_eq_ok.mp rest
      have sized := ih builtInner fun part member => plain part (List.mem_cons_of_mem _ member)
      rw [indexed] at rest
      split at rest
      · cases rest
        exact ⟨trivial, sized, trivial⟩
      · obtain ⟨addr, made, rest⟩ := bind_eq_ok.mp rest
        cases rest
        have operation := lawful.operation .plusPI (.lval (.var vi) .noOffset) inner addr
          ⟨trivial, trivial⟩ sized (mapError_eq_ok made)
        exact ⟨operation.sized, trivial⟩
      · cases rest
  | neg operand ih =>
      obtain ⟨inner, builtInner, rest⟩ := bind_eq_ok.mp built
      cases rest
      rw [Sized]
      exact ih builtInner fun part member => plain part (List.mem_cons_of_mem _ member)
  | binary operator left right ihLeft ihRight =>
      obtain ⟨first, builtLeft, rest⟩ := bind_eq_ok.mp built
      obtain ⟨second, builtRight, rest⟩ := bind_eq_ok.mp rest
      have sizedLeft := ihLeft builtLeft fun part member =>
        plain part (List.mem_cons_of_mem _ (List.mem_append_left _ member))
      have sizedRight := ihRight builtRight fun part member =>
        plain part (List.mem_cons_of_mem _ (List.mem_append_right _ member))
      exact (lawful.operation _ _ _ _ sizedLeft sizedRight (mapError_eq_ok rest)).sized

theorem agrees_iff_same {tree : Tree} {exp : Exp} (built : build kernel lookup tree = .ok exp) :
    Agrees machine kernel lookup tree ↔ SameMeaning machine kernel lookup tree exp := by
  constructor
  · exact fun agrees => agrees exp built
  · intro same other built'
    obtain rfl : exp = other := Except.ok.inj (built.symm.trans built')
    exact same

/-- Each expression built for a tree has its meaning exactly if the tree is plain throughout. -/
theorem agrees_iff (lawful : kernel.Lawful machine) {tree : Tree} {exp : Exp}
    (built : build kernel lookup tree = .ok exp) :
    (∀ part ∈ tree.parts, Agrees machine kernel lookup part) ↔
      ∀ part ∈ tree.parts, Plain machine kernel lookup part := by
  induction tree generalizing exp with
  | number digits =>
      rw [Tree.parts, List.forall_mem_singleton, List.forall_mem_singleton, agrees_iff_same built]
      exact same_number_iff lawful built
  | name word =>
      rw [Tree.parts, List.forall_mem_singleton, List.forall_mem_singleton, agrees_iff_same built]
      exact same_name_iff built
  | index word position ih =>
      obtain ⟨vi, found, rest⟩ := bind_eq_ok.mp built
      obtain ⟨inner, builtInner, _⟩ := bind_eq_ok.mp rest
      rw [Tree.parts, List.forall_mem_cons, List.forall_mem_cons, ih builtInner,
        agrees_iff_same built]
      refine and_congr_left fun plain => ?_
      have same := (ih builtInner).mpr plain position position.mem_parts inner builtInner
      exact same_index_iff lawful builtInner same (sized_of_plain lawful builtInner plain) built
  | neg operand ih =>
      obtain ⟨inner, builtInner, _⟩ := bind_eq_ok.mp built
      rw [Tree.parts, List.forall_mem_cons, List.forall_mem_cons, ih builtInner,
        agrees_iff_same built]
      refine and_congr_left fun plain => ?_
      have same := (ih builtInner).mpr plain operand operand.mem_parts inner builtInner
      exact same_neg_iff builtInner same built
  | binary operator left right ihLeft ihRight =>
      obtain ⟨first, builtLeft, rest⟩ := bind_eq_ok.mp built
      obtain ⟨second, builtRight, _⟩ := bind_eq_ok.mp rest
      rw [Tree.parts, List.forall_mem_cons, List.forall_mem_cons, List.forall_mem_append,
        List.forall_mem_append, ihLeft builtLeft, ihRight builtRight, agrees_iff_same built]
      refine and_congr_left fun plain => ?_
      have sameLeft := (ihLeft builtLeft).mpr plain.1 left left.mem_parts first builtLeft
      have sameRight := (ihRight builtRight).mpr plain.2 right right.mem_parts second builtRight
      have sizedLeft := sized_of_plain lawful builtLeft plain.1
      have sizedRight := sized_of_plain lawful builtRight plain.2
      exact iff_of_true (same_binary lawful builtLeft builtRight sameLeft sameRight sizedLeft
        sizedRight built) trivial

end Steps

section Texts

variable (machine : Machine Varinfo) (kernel : Kernel) (lookup : String → Except String Varinfo)

/-- C reads an expression of the grammar in the text, and the expression built for it and those
built for its parts have the types and the values that C gives to them. -/
def MeansAsC (text : List Char) (exp : Exp) : Prop :=
  ∃ tree, Writes Lexeme.joins text tree ∧ build kernel lookup tree = .ok exp ∧
    ∀ part ∈ tree.parts, Agrees machine kernel lookup part

/-- No two minus signs meet in the text and its tree is plain throughout. -/
def ReadsAsC (text : List Char) : Prop :=
  NoDecrement text ∧ ∃ tree, Writes Lexeme.extends text tree ∧
    ∀ part ∈ tree.parts, Plain machine kernel lookup part

def EndsWithError (outcome : Except Fault (Except String Exp)) : Prop :=
  (∃ message, outcome = .ok (.error message)) ∨ outcome = .error (.raised .fatal)

variable {machine} {kernel} {lookup}

theorem meansAsC_iff (lawful : kernel.Lawful machine) {text : List Char} {exp : Exp}
    (parsed : parseWhole kernel lookup text = .ok exp) :
    MeansAsC machine kernel lookup text exp ↔ ReadsAsC machine kernel lookup text := by
  constructor
  · rintro ⟨tree, writes, built, agrees⟩
    obtain ⟨apart, writes⟩ := writes_joins_iff.mp writes
    exact ⟨apart, tree, writes, (agrees_iff lawful built).mp agrees⟩
  · rintro ⟨apart, tree, writes, plain⟩
    have built := (parseWhole_of_writes writes).symm.trans parsed
    exact ⟨tree, writes_joins_iff.mpr ⟨apart, writes⟩, built, (agrees_iff lawful built).mpr plain⟩

theorem parseCExpr_eq_ok {globals : List Varinfo} {fundec : Fundec} {sid : Nat} {text : String}
    {exp : Exp} (parsed : parseCExpr kernel globals fundec sid text = .ok (.ok exp)) :
    parseWhole kernel (Ghost.findVarInScope globals fundec sid) text.toList = .ok exp := by
  rw [parseCExpr] at parsed
  split_ifs at parsed
  · cases parsed
  · split at parsed
    · rename_i other whole
      cases parsed
      exact whole
    · cases parsed
    · cases parsed

theorem endsWithError_of_refused {globals : List Varinfo} {fundec : Fundec} {sid : Nat}
    {text : String} (refused : ∀ exp, parseCExpr kernel globals fundec sid text ≠ .ok (.ok exp)) :
    EndsWithError (parseCExpr kernel globals fundec sid text) := by
  rw [parseCExpr] at refused ⊢
  split_ifs at refused ⊢
  · exact .inl ⟨_, rfl⟩
  · split
    · rename_i exp whole
      simp only [whole] at refused
      exact absurd rfl (refused exp)
    · exact .inl ⟨_, rfl⟩
    · rename_i fault other whole
      cases fault with
      | endless => exact absurd whole (parseWhole_ne_endless _)
      | raised exception =>
          cases exception with
          | failure message => exact absurd rfl (other message)
          | fatal => exact .inr rfl

/-- An accepted text is an expression of the grammar, up to minus signs that meet, and it means
what C means by it exactly if C reads it as the parser does; every other text ends with an error. -/
theorem parseCExpr_means_iff (lawful : kernel.Lawful machine) (globals : List Varinfo)
    (fundec : Fundec) (sid : Nat) (exprString : String) :
    (∀ exp, parseCExpr kernel globals fundec sid exprString = .ok (.ok exp) →
      (∃ tree, Writes Lexeme.extends exprString.toList tree) ∧
      (MeansAsC machine kernel (Ghost.findVarInScope globals fundec sid) exprString.toList exp ↔
        ReadsAsC machine kernel (Ghost.findVarInScope globals fundec sid) exprString.toList)) ∧
    ((∀ exp, parseCExpr kernel globals fundec sid exprString ≠ .ok (.ok exp)) →
      EndsWithError (parseCExpr kernel globals fundec sid exprString)) := by
  refine ⟨fun exp accepted => ?_, endsWithError_of_refused⟩
  have parsed := parseCExpr_eq_ok accepted
  obtain ⟨tree, writes, _⟩ := writes_of_parseWhole parsed
  exact ⟨⟨tree, writes⟩, meansAsC_iff lawful parsed⟩

def charVar : Varinfo := { vid := 1, vname := "c", vtype := "char" }

def charFundec : Fundec where
  svar := { vid := 0, vname := "f", vtype := "int (void)", vglob := true }
  sformals := []
  slocals := [charVar]
  sbody := .mk [charVar] [.instr ⟨1, false, []⟩ (.skip 1)]

/-- This is a machine with the sizes of a common one and with one variable. -/
def charMachine : Machine Varinfo where
  Other := Unit
  State := Int
  start := 0
  bits
    | .bool | .char | .schar | .uchar => 8
    | .short | .ushort => 16
    | .int | .uint => 32
    | .long | .ulong | .longLong | .ulongLong => 64
  charSigned := true
  ptrdiff := .long
  realOp _ _ _ _ := none
  realNeg _ _ := none
  realOf _ _ := none
  integerOf _ _ := none
  pointerAdd _ _ _ := none
  pointerDiff _ _ _ := none
  addressOf _ := none
  load state _ := some (.int state)

def charType (_ : Varinfo) : Typ := .int .char

/-- The kernel truncates constants to 32 bits and builds the operations on integers. -/
def charKernel : Kernel where
  vtype := charType
  integer value := .const (if charMachine.fits .int value then value
    else (value : Int).bmod (2 ^ 32)) .int
  mkBinop operator left right :=
    match operationType charMachine operator (typeOf charType left).expand
        (typeOf charType right).expand with
    | some (.int kind) => .ok (.binOp operator left right (.int kind))
    | _ => .error .fatal

theorem fits_int_iff (value : Int) :
    charMachine.fits .int value = true ↔ -2 ^ 31 ≤ value ∧ value < 2 ^ 31 := by
  have least : charMachine.minOf .int = -2 ^ 31 := rfl
  have most : charMachine.maxOf .int = 2 ^ 31 - 1 := rfl
  rw [Machine.fits, least, most, Bool.and_eq_true, decide_eq_true_iff, decide_eq_true_iff]
  omega

theorem lawful_charKernel : charKernel.Lawful charMachine where
  integer value := by
    refine ⟨_, rfl, ?_, fun fits => if_pos fits⟩
    split_ifs with fits
    · exact fits
    · rw [fits_int_iff]
      exact ⟨Int.le_bmod (by decide), Int.bmod_lt (by decide)⟩
  operation operator left right exp sizedLeft sizedRight made := by
    simp only [charKernel] at made
    split at made
    · rename_i kind typed
      cases made
      refine ⟨⟨sizedLeft, sizedRight⟩, typed,
        fun state first second result before after given => ?_⟩
      simp only [value, before, after, Option.bind_eq_bind, Option.bind_some]
      exact given
    · cases made

theorem parseCExpr_means_iff_char :
    charKernel.Lawful charMachine ∧
      (∀ exp, parseCExpr charKernel [] charFundec 1 "2 * c - 010" = .ok (.ok exp) →
        (∃ tree, Writes Lexeme.extends "2 * c - 010".toList tree) ∧
        (MeansAsC charMachine charKernel (Ghost.findVarInScope [] charFundec 1)
            "2 * c - 010".toList exp ↔
          ReadsAsC charMachine charKernel (Ghost.findVarInScope [] charFundec 1)
            "2 * c - 010".toList)) ∧
      ((∀ exp, parseCExpr charKernel [] charFundec 1 "2 * c - 010" ≠ .ok (.ok exp)) →
        EndsWithError (parseCExpr charKernel [] charFundec 1 "2 * c - 010")) :=
  ⟨lawful_charKernel, parseCExpr_means_iff lawful_charKernel [] charFundec 1 "2 * c - 010"⟩

def charExp : Exp := .lval (.var charVar) .noOffset

theorem writes_octal : Writes Lexeme.extends "010".toList (.number "010".toList) := by
  have scans : Scans Lexeme.extends ([] ++ ((Lexeme.number "010".toList).text ++ []))
      [.number "010".toList] [] :=
    .next (List.forall_mem_nil _) ⟨List.cons_ne_nil _ _, List.all_eq_true.mp rfl⟩
      (fun _ head => absurd head (Option.not_mem_none _)) (.done [])
  exact ⟨_, [], scans, List.forall_mem_nil _, .multiplicative (.unary (.primary (.number _)))⟩

theorem writes_minus : Writes Lexeme.extends "-c".toList (.neg (.name "c")) := by
  have name : Scans Lexeme.extends ([] ++ ((Lexeme.name ['c']).text ++ [])) [.name ['c']] [] :=
    .next (List.forall_mem_nil _) ⟨⟨'c', [], rfl, rfl⟩, List.forall_mem_singleton.mpr rfl⟩
      (fun _ head => absurd head (Option.not_mem_none _)) (.done [])
  have scans : Scans Lexeme.extends ([] ++ ((Lexeme.sign .minus).text ++ ['c']))
      [.sign .minus, .name ['c']] [] :=
    .next (List.forall_mem_nil _) trivial (fun _ _ => rfl) name
  exact ⟨_, [], scans, List.forall_mem_nil _, .multiplicative (.unary (.neg (.primary (.name ['c']))))⟩

/-- C reads an octal number, an `int` and a decrement where the parser does not. -/
theorem not_means_char :
    (parseCExpr charKernel [] charFundec 1 "010" = .ok (.ok (.const 10 .int)) ∧
      ∀ tree, Writes Lexeme.joins "010".toList tree → ¬ SameMeaning charMachine charKernel
        (Ghost.findVarInScope [] charFundec 1) tree (.const 10 .int)) ∧
    (parseCExpr charKernel [] charFundec 1 "-c" = .ok (.ok (.neg charExp (.int .char))) ∧
      ∀ tree, Writes Lexeme.joins "-c".toList tree → ¬ SameMeaning charMachine charKernel
        (Ghost.findVarInScope [] charFundec 1) tree (.neg charExp (.int .char))) ∧
    parseCExpr charKernel [] charFundec 1 "c--c" =
        .ok (.ok (.binOp .minusA charExp (.neg charExp (.int .char)) (.int .int))) ∧
      ∀ tree, ¬ Writes Lexeme.joins "c--c".toList tree := by
  refine ⟨⟨rfl, ?_⟩, ⟨rfl, ?_⟩, rfl, ?_⟩
  · rintro tree writes ⟨_, valued⟩
    obtain rfl := writes_unique writes_octal (writes_joins_iff.mp writes).2
    have same := Value.int.inj (Option.some.inj (valued charMachine.start (.int 8) rfl))
    exact absurd same (by decide)
  · rintro tree writes ⟨typed, _⟩
    obtain rfl := writes_unique writes_minus (writes_joins_iff.mp writes).2
    have same : some (Typ.int .int) = some (.int .char) := typed
    exact absurd same (by decide)
  · intro tree writes
    have apart : NoDecrement ['c', '-', '-', 'c'] := (writes_joins_iff.mp writes).1
    exact (List.isChain_cons_cons.mp apart.tail).1 ⟨rfl, rfl⟩

end Texts

end FramaCMcp.GhostExpr
