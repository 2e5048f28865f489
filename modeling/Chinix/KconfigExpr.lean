import Mathlib.Order.Lattice
import Mathlib.Order.MinMax

/-! # Expressions of the configuration language (kconfig/expr.c)

    Dependencies between configuration symbols: three-valued expressions with
    comparisons, and the simplifications of expr.c.  A tree is given and
    returned where the code rewrites it in place.  Expressions are never NULL
    here, and of the types of `struct expr` `E_LIST`, `E_RANGE` and `E_NONE`
    are left out: they do not occur inside a dependency. -/

namespace ChinixKconfigExpr

/-! ## Three values -/

/-- `tristate`. -/
inductive Tristate where
  | no
  | mod
  | yes
  deriving DecidableEq, Repr

namespace Tristate

/-- The number of the value in its enumeration. -/
def toNat : Tristate → Nat
  | no => 0
  | mod => 1
  | yes => 2

theorem toNat_injective : Function.Injective toNat := by
  intro a b h
  cases a <;> cases b <;> first | rfl | cases h

instance : LinearOrder Tristate :=
  LinearOrder.lift' toNat toNat_injective

/-- `EXPR_AND`. -/
def and (a b : Tristate) : Tristate := if a < b then a else b

/-- `EXPR_OR`. -/
def or (a b : Tristate) : Tristate := if a > b then a else b

/-- `EXPR_NOT`, which is 2 less the number of the value. -/
def not : Tristate → Tristate
  | no => yes
  | mod => mod
  | yes => no

theorem and_eq_min (a b : Tristate) : a.and b = min a b := by
  cases a <;> cases b <;> rfl

theorem or_eq_max (a b : Tristate) : a.or b = max a b := by
  cases a <;> cases b <;> rfl

@[simp] theorem not_not (a : Tristate) : a.not.not = a := by
  cases a <;> rfl

theorem no_le (a : Tristate) : no ≤ a := by
  cases a <;> decide

theorem le_yes (a : Tristate) : a ≤ yes := by
  cases a <;> decide

end Tristate

/-! ## Symbols -/

/-- `enum symbol_type`. -/
inductive SymbolType where
  | unknown
  | boolean
  | tristate
  | int
  | hex
  | string
  | other
  deriving DecidableEq, Repr

/-- What expr.c reads of the symbols that does not change: `symbol_yes`,
    `symbol_mod`, `symbol_no` and `modules_sym`, the names, the types and the
    flag `SYMBOL_CONST`.  There is one constant of a name, and none of them
    is ever given a type. -/
structure SymbolTable (S : Type) where
  symbolYes : S
  symbolMod : S
  symbolNo : S
  modulesSym : S
  name : S → String
  type : S → SymbolType
  isConst : S → Bool
  yesName : name symbolYes = "y"
  modName : name symbolMod = "m"
  noName : name symbolNo = "n"
  yesConst : isConst symbolYes = true
  modConst : isConst symbolMod = true
  noConst : isConst symbolNo = true
  constType : ∀ s, isConst s = true → type s = .unknown
  constName : ∀ s t, isConst s = true → isConst t = true →
    name s = name t → s = t

/-- `curr` of the symbols. -/
structure Values (S : Type) where
  tri : S → Tristate
  val : S → String

variable {S : Type} [DecidableEq S] (tab : SymbolTable S)

/-- What `sym_calc_value` leaves in `curr`: a constant keeps its value and its
    name, and `mod` is the value of no boolean, and of no tristate without
    modules. -/
structure Calculated (v : Values S) : Prop where
  yes : v.tri tab.symbolYes = .yes
  mod : v.tri tab.symbolMod = .mod
  no : v.tri tab.symbolNo = .no
  const : ∀ s, tab.isConst s = true → v.val s = tab.name s
  boolean : ∀ s, tab.type s = .boolean → v.tri s ≠ .mod
  tristate : ∀ s, tab.type s = .tristate → v.tri tab.modulesSym = .no →
    v.tri s ≠ .mod

/-- `sym_get_string_value`. -/
def symGetStringValue (v : Values S) (s : S) : String :=
  if tab.type s = .boolean ∨ tab.type s = .tristate then
    match v.tri s with
    | .no => "n"
    | .mod => if v.tri tab.modulesSym = .no then "n" else "m"
    | .yes => "y"
  else v.val s

/-! ## Expressions -/

/-- The types of expressions with two operands, `E_AND` and `E_OR`. -/
inductive JunctionType where
  | and
  | or
  deriving DecidableEq, Repr

/-- The types of comparisons, `E_EQUAL` and `E_UNEQUAL`. -/
inductive CompType where
  | equal
  | unequal
  deriving DecidableEq, Repr

/-- `struct expr`; the constructors are named after the functions that
    allocate one. -/
inductive Expr (S : Type) where
  | symbol (sym : S)
  | one (e : Expr S)
  | two (type : JunctionType) (left right : Expr S)
  | comp (type : CompType) (left right : S)
  deriving DecidableEq, Repr

/-- The value of both operands together. -/
def JunctionType.apply : JunctionType → Tristate → Tristate → Tristate
  | .and => Tristate.and
  | .or => Tristate.or

/-- `expr_calc_value`. -/
def exprCalcValue (v : Values S) : Expr S → Tristate
  | .symbol s => v.tri s
  | .one e => (exprCalcValue v e).not
  | .two type l r => type.apply (exprCalcValue v l) (exprCalcValue v r)
  | .comp .equal s t =>
      if symGetStringValue tab v s = symGetStringValue tab v t then .yes
      else .no
  | .comp .unequal s t =>
      if symGetStringValue tab v s = symGetStringValue tab v t then .no
      else .yes

/-- The symbol that does not count under the operation. -/
def unit : JunctionType → S
  | .and => tab.symbolYes
  | .or => tab.symbolNo

/-- The symbol that alone counts. -/
def zero : JunctionType → S
  | .and => tab.symbolNo
  | .or => tab.symbolYes

/-- `expr_eliminate_yn`. -/
def exprEliminateYn : Expr S → Expr S
  | .two type l r =>
      let l := exprEliminateYn l
      let r := exprEliminateYn r
      if l = .symbol (zero tab type) then .symbol (zero tab type)
      else if l = .symbol (unit tab type) then r
      else if r = .symbol (zero tab type) then .symbol (zero tab type)
      else if r = .symbol (unit tab type) then l
      else .two type l r
  | e => e

/-! ## `expr_transform` -/

/-- The last `case E_EQUAL` and `case E_UNEQUAL` of `expr_transform`; the
    warning about a boolean tested for `m` is not kept. -/
def transformComp (type : CompType) (s t : S) : Expr S :=
  if tab.type s ≠ .boolean then .comp type s t
  else
    match type with
    | .equal =>
        if t = tab.symbolNo then .one (.symbol s)
        else if t = tab.symbolMod then .symbol tab.symbolNo
        else if t = tab.symbolYes then .symbol s
        else .comp .equal s t
    | .unequal =>
        if t = tab.symbolNo then .symbol s
        else if t = tab.symbolMod then .symbol tab.symbolYes
        else if t = tab.symbolYes then .one (.symbol s)
        else .comp .unequal s t

/-- `e->type == E_EQUAL ? E_UNEQUAL : E_EQUAL`. -/
def CompType.flip : CompType → CompType
  | .equal => .unequal
  | .unequal => .equal

/-- The other type of two operands. -/
def JunctionType.dual : JunctionType → JunctionType
  | .and => .or
  | .or => .and

/-- The operand of a NOT that is a symbol. -/
def transformNotSymbol (s : S) : Expr S :=
  if s = tab.symbolYes then .symbol tab.symbolNo
  else if s = tab.symbolMod then .symbol tab.symbolMod
  else if s = tab.symbolNo then .symbol tab.symbolYes
  else .one (.symbol s)

/-- The first `switch` of `expr_transform`; `again` is `expr_transform`. -/
def transformOperands (again : Expr S → Option (Expr S)) :
    Expr S → Option (Expr S)
  | .one e => (again e).map .one
  | .two type l r => do
      let l ← again l
      let r ← again r
      return .two type l r
  | e => some e

/-- The second `switch`. -/
def transformTop (again : Expr S → Option (Expr S)) :
    Expr S → Option (Expr S)
  | .comp type s t => some (transformComp tab type s t)
  -- !!a -> a
  | .one (.one e) => again e
  -- !a='x' -> a!='x'
  | .one (.comp type s t) => some (.comp type.flip s t)
  -- !(a || b) -> !a && !b
  | .one (.two type l r) => again (.two type.dual (.one l) (.one r))
  | .one (.symbol s) => some (transformNotSymbol tab s)
  | e => some e

/-- `expr_transform`; the first argument bounds the depth of its calls. -/
def exprTransform : Nat → Expr S → Option (Expr S)
  | 0, _ => none
  | fuel + 1, e =>
      (transformOperands (exprTransform fuel) e).bind
        (transformTop tab (exprTransform fuel))

/-! ## `expr_eq` and `expr_eliminate_eq` -/

/-- The operands of an expression of that type. -/
def Expr.operands (type : JunctionType) : Expr S → Option (Expr S × Expr S)
  | .two t l r => if t = type then some (l, r) else none
  | _ => none

/-- The type of an expression with two operands. -/
def Expr.junction : Expr S → Option JunctionType
  | .two t _ _ => some t
  | _ => none

/-- The first `switch` of `expr_eliminate_eq`; `eliminate` is
    `__expr_eliminate_eq`. -/
def firstPass
    (eliminate : JunctionType → Expr S → Expr S → Option (Expr S × Expr S))
    (e1 e2 : Expr S) : Option (Expr S × Expr S) :=
  match e1.junction with
  | some type => eliminate type e1 e2
  | none => some (e1, e2)

/-- The second `switch`, for expressions of different types. -/
def secondPass
    (eliminate : JunctionType → Expr S → Expr S → Option (Expr S × Expr S))
    (e1 e2 : Expr S) : Option (Expr S × Expr S) :=
  match e2.junction with
  | some type =>
      if e1.junction = some type then some (e1, e2) else eliminate type e1 e2
  | none => some (e1, e2)

/-- `expr_eliminate_eq`. -/
def eliminateEqWith
    (eliminate : JunctionType → Expr S → Expr S → Option (Expr S × Expr S))
    (e1 e2 : Expr S) : Option (Expr S × Expr S) := do
  let (e1, e2) ← firstPass eliminate e1 e2
  let (e1, e2) ← secondPass eliminate e1 e2
  return (exprEliminateYn tab e1, exprEliminateYn tab e2)

/-- The test of `expr_eq` on what is left of two junctions. -/
def sameSymbol : Expr S × Expr S → Bool
  | (.symbol s, .symbol s') => s = s'
  | _ => false

mutual

/-- `__expr_eliminate_eq`; the first argument bounds the depth of its
    calls. -/
def eliminateEq : Nat → JunctionType → Expr S → Expr S →
    Option (Expr S × Expr S)
  | 0, _, _, _ => none
  | fuel + 1, type, e1, e2 =>
      match e1.operands type with
      | some (l, r) => do
          let (l, e2) ← eliminateEq fuel type l e2
          let (r, e2) ← eliminateEq fuel type r e2
          return (.two type l r, e2)
      | none =>
          match e2.operands type with
          | some (l, r) => do
              let (e1, l) ← eliminateEq fuel type e1 l
              let (e1, r) ← eliminateEq fuel type e1 r
              return (e1, .two type l r)
          | none =>
              if e1 = e2 ∧ (e1 = .symbol tab.symbolYes
                  ∨ e1 = .symbol tab.symbolNo) then some (e1, e2)
              else do
                let eq ← exprEq fuel e1 e2
                if eq then
                  return (.symbol (unit tab type), .symbol (unit tab type))
                else return (e1, e2)

/-- `expr_eq`.  `expr_copy` is not needed: nothing is changed in place. -/
def exprEq : Nat → Expr S → Expr S → Option Bool
  | 0, _, _ => none
  | fuel + 1, e1, e2 =>
      match e1, e2 with
      | .comp type s t, .comp type' s' t' =>
          some (type = type' ∧ s = s' ∧ t = t')
      | .symbol s, .symbol s' => some (s = s')
      | .one e1, .one e2 => exprEq fuel e1 e2
      | .two type _ _, .two type' _ _ =>
          if type ≠ type' then some false
          else (eliminateEqWith tab (eliminateEq fuel) e1 e2).map sameSymbol
      | _, _ => some false

end

/-- `expr_eliminate_eq`. -/
def exprEliminateEq (fuel : Nat) (e1 e2 : Expr S) :
    Option (Expr S × Expr S) :=
  eliminateEqWith tab (eliminateEq tab fuel) e1 e2

end ChinixKconfigExpr
