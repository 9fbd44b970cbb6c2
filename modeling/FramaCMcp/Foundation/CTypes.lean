/-
This file gives the types of C, the conversions of its operands, its integer constants and the
values of its arithmetic.
-/

import Mathlib.Algebra.Order.Ring.Int
import Mathlib.Data.List.Induction

namespace CLang

inductive IKind where
  | bool
  | char
  | schar
  | uchar
  | short
  | ushort
  | int
  | uint
  | long
  | ulong
  | longLong
  | ulongLong
  deriving DecidableEq, Repr

def IKind.rank : IKind → Nat
  | .bool => 0
  | .char | .schar | .uchar => 1
  | .short | .ushort => 2
  | .int | .uint => 3
  | .long | .ulong => 4
  | .longLong | .ulongLong => 5

def IKind.toUnsigned : IKind → IKind
  | .int => .uint
  | .long => .ulong
  | .longLong => .ulongLong
  | kind => kind

inductive FKind where
  | float
  | double
  | longDouble
  deriving DecidableEq, Repr

def FKind.rank : FKind → Nat
  | .float => 0
  | .double => 1
  | .longDouble => 2

/-- A struct or a union is complete once its fields are known. -/
inductive Typ where
  | void
  | int (kind : IKind)
  | float (kind : FKind)
  | ptr (target : Typ)
  | array (element : Typ) (size : Option Nat)
  | func (result : Typ)
  | named (name : String) (ttype : Typ)
  | comp (name : String) (complete : Bool)
  | enum (name : String) (kind : IKind)
  deriving DecidableEq, Repr

/-- The outermost names of typedefs give way to what they stand for. -/
def Typ.unroll : Typ → Typ
  | .named _ ttype => ttype.unroll
  | type => type

/-- Every name of a typedef gives way to what it stands for. -/
def Typ.expand : Typ → Typ
  | .ptr target => .ptr target.expand
  | .array element size => .array element.expand size
  | .func result => .func result.expand
  | .named _ ttype => ttype.expand
  | type => type

def Typ.isInteger : Typ → Bool
  | .int _ | .enum _ _ => true
  | _ => false

def Typ.isArray : Typ → Bool
  | .array _ _ => true
  | _ => false

/-- The size of an object of a complete type is known. -/
def Typ.isComplete : Typ → Bool
  | .void | .func _ => false
  | .array element size => element.isComplete && size.isSome
  | .named _ ttype => ttype.isComplete
  | .comp _ complete => complete
  | _ => true

inductive Operator where
  | add
  | sub
  | mul
  | div
  | mod
  deriving DecidableEq, Repr

/-- A value that is no integer, such as a real or a pointer, is left to the machine. -/
inductive Value (Other : Type) where
  | int (value : Int)
  | other (value : Other)

/-- A place is a variable, an element of an array, or what a pointer leads to. -/
inductive Place (Var Other : Type) where
  | variable (vi : Var)
  | element (base : Place Var Other) (index : Int)
  | target (pointer : Other)

/-- These are the choices that C leaves to its implementation. -/
structure Machine (Var : Type) where
  Other : Type
  State : Type
  start : State
  bits : IKind → Nat
  charSigned : Bool
  ptrdiff : IKind
  realOp : FKind → Operator → Other → Other → Option Other
  realNeg : FKind → Other → Option Other
  realOf : FKind → Value Other → Option Other
  integerOf : IKind → Other → Option Int
  pointerAdd : Typ → Other → Int → Option Other
  pointerDiff : Typ → Other → Other → Option Int
  addressOf : Place Var Other → Option Other
  load : State → Place Var Other → Option (Value Other)

namespace Machine

variable {Var : Type} (machine : Machine Var)

section Kinds

def isSigned : IKind → Bool
  | .char => machine.charSigned
  | .schar | .short | .int | .long | .longLong => true
  | _ => false

def minOf (kind : IKind) : Int :=
  if machine.isSigned kind then -2 ^ (machine.bits kind - 1) else 0

def maxOf (kind : IKind) : Int :=
  if machine.isSigned kind then 2 ^ (machine.bits kind - 1) - 1 else 2 ^ machine.bits kind - 1

def fits (kind : IKind) (value : Int) : Bool :=
  decide (machine.minOf kind ≤ value) && decide (value ≤ machine.maxOf kind)

/-- A kind below `int` goes to `int` if that can hold all of its values. -/
def promoteKind (kind : IKind) : IKind :=
  if kind.rank < IKind.int.rank then
    if machine.fits .int (machine.minOf kind) && machine.fits .int (machine.maxOf kind) then .int
    else .uint
  else kind

def promote : Typ → Option Typ
  | .int kind | .enum _ kind => some (.int (machine.promoteKind kind))
  | .float kind => some (.float kind)
  | _ => none

/-- The signed kind wins over an unsigned one only if it can hold all of its values. -/
def commonMixed (signed unsigned : IKind) : IKind :=
  if signed.rank ≤ unsigned.rank then unsigned
  else if machine.maxOf unsigned ≤ machine.maxOf signed then signed
  else signed.toUnsigned

def commonKind (left right : IKind) : IKind :=
  match machine.isSigned left, machine.isSigned right with
  | true, false => machine.commonMixed left right
  | false, true => machine.commonMixed right left
  | _, _ => if left.rank ≤ right.rank then right else left

/-- The usual arithmetic conversions give the type in which an operation is made. -/
def common (left right : Typ) : Option Typ :=
  match machine.promote left, machine.promote right with
  | some (.float left), some (.float right) =>
      some (.float (if left.rank ≤ right.rank then right else left))
  | some (.float left), some (.int _) => some (.float left)
  | some (.int _), some (.float right) => some (.float right)
  | some (.int left), some (.int right) => some (.int (machine.commonKind left right))
  | _, _ => none

def operatorType (operator : Operator) (left right : Typ) : Option Typ :=
  match operator, left, right with
  | .add, .ptr target, index | .add, index, .ptr target =>
      if target.isComplete && index.isInteger then some (.ptr target) else none
  | .sub, .ptr target, .ptr other =>
      if target.isComplete && target == other then some (.int machine.ptrdiff) else none
  | .sub, .ptr target, index =>
      if target.isComplete && index.isInteger then some (.ptr target) else none
  | .mod, left, right =>
      if left.isInteger && right.isInteger then machine.common left right else none
  | _, left, right => machine.common left right

end Kinds

section Constants

def digitValue (digit : Char) : Nat := digit.toNat - '0'.toNat

def numeral (base : Nat) (digits : List Char) : Nat :=
  digits.foldl (fun value digit => value * base + digitValue digit) 0

def firstKind (kinds : List IKind) (value : Nat) : Option (IKind × Nat) :=
  (kinds.find? fun kind => machine.fits kind value).map fun kind => (kind, value)

/-- A constant that starts with a zero is octal. -/
def constant : List Char → Option (IKind × Nat)
  | '0' :: rest =>
      if rest.all fun digit => digitValue digit < 8 then
        machine.firstKind [.int, .uint, .long, .ulong, .longLong, .ulongLong] (numeral 8 rest)
      else none
  | digits => machine.firstKind [.int, .long, .longLong] (numeral 10 digits)

theorem numeral_append (base : Nat) (digits : List Char) (digit : Char) :
    numeral base (digits ++ [digit]) = numeral base digits * base + digitValue digit := by
  rw [numeral, numeral, List.foldl_append]
  rfl

theorem numeral_eight_le_ten (digits : List Char) : numeral 8 digits ≤ numeral 10 digits := by
  induction digits using List.reverseRecOn with
  | nil => exact Nat.le_refl 0
  | append_singleton digits digit ih =>
      rw [numeral_append, numeral_append]
      omega

/-- A number of more than one digit is less in octal. -/
theorem numeral_ten_lt_eight {digits : List Char}
    (octal : ∀ digit ∈ digits, digitValue digit < 8)
    (same : numeral 8 digits = numeral 10 digits) : numeral 10 digits < 8 := by
  induction digits using List.reverseRecOn with
  | nil => exact Nat.zero_lt_succ 7
  | append_singleton digits digit _ =>
      rw [numeral_append, numeral_append] at same
      have less := numeral_eight_le_ten digits
      have last := octal digit (List.mem_append_right _ List.mem_cons_self)
      rw [numeral_append]
      omega

theorem numeral_of_lt_eight {digits : List Char} (small : numeral 10 digits < 8) :
    numeral 8 digits = numeral 10 digits ∧ ∀ digit ∈ digits, digitValue digit < 8 := by
  induction digits using List.reverseRecOn with
  | nil => exact ⟨rfl, fun _ member => absurd member List.not_mem_nil⟩
  | append_singleton digits digit ih =>
      rw [numeral_append] at small
      obtain ⟨same, octal⟩ := ih (by omega)
      refine ⟨?_, fun other member => ?_⟩
      · rw [numeral_append, numeral_append]
        omega
      · rcases List.mem_append.mp member with former | last
        · exact octal other former
        · rw [List.mem_singleton.mp last]
          omega

theorem minOf_nonpos (kind : IKind) : machine.minOf kind ≤ 0 := by
  rw [minOf]
  split_ifs
  · have positive : (0 : Int) < 2 ^ (machine.bits kind - 1) := Int.pow_pos (by decide)
    omega
  · exact Int.le_refl 0

theorem fits_natCast_iff (kind : IKind) (value : Nat) :
    machine.fits kind value = true ↔ (value : Int) ≤ machine.maxOf kind := by
  have low := machine.minOf_nonpos kind
  rw [fits, Bool.and_eq_true, decide_eq_true_eq, decide_eq_true_eq]
  omega

/-- A constant has the first kind that can hold it. -/
theorem firstKind_eq_int_iff {kinds : List IKind} (other : .int ∉ kinds) (value number : Nat) :
    machine.firstKind (.int :: kinds) value = some (.int, number) ↔
      (value : Int) ≤ machine.maxOf .int ∧ value = number := by
  rw [firstKind, List.find?_cons]
  by_cases held : machine.fits .int value = true
  · simp [held, (machine.fits_natCast_iff .int value).mp held]
  · rw [Bool.not_eq_true] at held
    have high := mt (machine.fits_natCast_iff .int value).mpr (by simp [held])
    simp only [held, high, false_and, iff_false]
    intro found
    obtain ⟨kind, member, pair⟩ := Option.map_eq_some_iff.mp found
    obtain rfl : kind = .int := congrArg Prod.fst pair
    exact other (List.mem_of_find?_eq_some member)

/-- A constant is the `int` that its decimal digits give if it is small or has no zero in front. -/
theorem constant_eq_int_iff (digits : List Char) :
    machine.constant digits = some (.int, numeral 10 digits) ↔
      (numeral 10 digits : Int) ≤ machine.maxOf .int ∧
        (digits.head? = some '0' → numeral 10 digits < 8) := by
  rw [constant.eq_def]
  split
  · rename_i rest
    have zero : numeral 10 ('0' :: rest) = numeral 10 rest := rfl
    rw [zero]
    split_ifs with octal
    · rw [firstKind_eq_int_iff machine (by decide)]
      have digits : ∀ digit ∈ rest, digitValue digit < 8 := by simpa using octal
      constructor
      · rintro ⟨held, same⟩
        exact ⟨same ▸ held, fun _ => numeral_ten_lt_eight digits same⟩
      · rintro ⟨held, small⟩
        have same := (numeral_of_lt_eight (small rfl)).1
        exact ⟨same ▸ held, same⟩
    · constructor
      · intro found
        cases found
      · rintro ⟨_, small⟩
        have digits := (numeral_of_lt_eight (small rfl)).2
        exact absurd (by simpa using digits) octal
  · rename_i other
    rw [firstKind_eq_int_iff machine (by decide)]
    constructor
    · rintro ⟨held, _⟩
      refine ⟨held, fun zero => ?_⟩
      cases digits with
      | nil => cases zero
      | cons digit rest => exact absurd (Option.some.inj zero ▸ rfl) (other rest)
    · exact fun both => ⟨both.1, rfl⟩

end Constants

section Arithmetic

def wrap (kind : IKind) (value : Int) : Int :=
  let rest := value % 2 ^ machine.bits kind
  if machine.maxOf kind < rest then rest - 2 ^ machine.bits kind else rest

def toKind (kind : IKind) (value : Int) : Int :=
  if kind = .bool then (if value = 0 then 0 else 1) else machine.wrap kind value

def convert (type : Typ) (value : Value machine.Other) : Option (Value machine.Other) :=
  match type, value with
  | .int kind, .int value | .enum _ kind, .int value => some (.int (machine.toKind kind value))
  | .int kind, .other value | .enum _ kind, .other value =>
      (machine.integerOf kind value).map .int
  | .float kind, value => (machine.realOf kind value).map .other
  | _, value => some value

/-- A signed result that does not fit is undefined. -/
def settle (kind : IKind) (value : Int) : Option (Value machine.Other) :=
  if machine.isSigned kind then
    if machine.fits kind value then some (.int value) else none
  else some (.int (machine.wrap kind value))

def integerOp (kind : IKind) (operator : Operator) (left right : Int) :
    Option (Value machine.Other) :=
  match operator with
  | .add => machine.settle kind (left + right)
  | .sub => machine.settle kind (left - right)
  | .mul => machine.settle kind (left * right)
  | .div => if right = 0 then none else machine.settle kind (left.tdiv right)
  | .mod =>
      if right = 0 then none
      else (machine.settle kind (left.tdiv right)).bind fun _ =>
        machine.settle kind (left.tmod right)

def operate (type : Typ) (operator : Operator) (left right : Value machine.Other) :
    Option (Value machine.Other) :=
  match type, left, right with
  | .int kind, .int left, .int right => machine.integerOp kind operator left right
  | .float kind, .other left, .other right => (machine.realOp kind operator left right).map .other
  | _, _, _ => none

def negate (type : Typ) (value : Value machine.Other) : Option (Value machine.Other) :=
  match type, value with
  | .int kind, .int value => machine.settle kind (-value)
  | .float kind, .other value => (machine.realNeg kind value).map .other
  | _, _ => none

def shift (target : Typ) (pointer index : Value machine.Other) : Option (Value machine.Other) :=
  match pointer, index with
  | .other pointer, .int index => (machine.pointerAdd target pointer index).map .other
  | _, _ => none

def distance (target : Typ) (left right : Value machine.Other) : Option (Value machine.Other) :=
  match left, right with
  | .other left, .other right => (machine.pointerDiff target left right).map .int
  | _, _ => none

def operatorValue (operator : Operator) (left right : Typ)
    (first second : Value machine.Other) : Option (Value machine.Other) :=
  match operator, left, right with
  | .add, .ptr target, _ => machine.shift target first second
  | .add, _, .ptr target => machine.shift target second first
  | .sub, .ptr target, .ptr _ => machine.distance target first second
  | .sub, .ptr target, _ =>
      match second with
      | .int index => machine.shift target first (.int (-index))
      | .other _ => none
  | _, left, right => do
      let type ← machine.common left right
      machine.operate type operator (← machine.convert type first) (← machine.convert type second)

end Arithmetic

end Machine

end CLang
