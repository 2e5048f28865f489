import Chinix.KconfigExpr

/-! # `expr_eliminate_dups` (kconfig/expr.c)

    Pairs of operands of one junction are joined where a rule is known for
    them.  The two pointers that `expr_eliminate_dups1` and
    `expr_eliminate_dups2` are given point into one tree and both may be
    written through: they are the ways from the root to two places of the
    tree.  `trans_count` goes along with the tree. -/

namespace ChinixKconfigDuplicates

open ChinixKconfigExpr

variable {S : Type}

/-! ## Places in a tree -/

/-- An operand of a junction. -/
inductive Side where
  | left
  | right
  deriving DecidableEq, Repr

/-- One of two operands. -/
def Side.pick {A : Type} : Side → A → A → A
  | .left, l, _ => l
  | .right, _, r => r

/-- The way to a place: the pointer `ep`. -/
abbrev Path := List Side

/-- What is at the place, `*ep`. -/
def at? : Expr S → Path → Option (Expr S)
  | e, [] => some e
  | e, s :: p =>
      match e with
      | .two _ l r => at? (s.pick l r) p
      | _ => none
termination_by structural _ p => p

/-- A write to the place. -/
def put : Expr S → Path → Expr S → Expr S
  | _, [], x => x
  | e, s :: p, x =>
      match e, s with
      | .two t l r, .left => .two t (put l p x) r
      | .two t l r, .right => .two t l (put r p x)
      | e, _ => e
termination_by structural _ p => p

/-- The tree and `trans_count`. -/
abbrev Rewriting (S : Type) := Expr S × Nat

variable [DecidableEq S] (tab : SymbolTable S)

/-! ## Joining two operands -/

/-- `e->left.sym` of a comparison or a symbol. -/
def leftSym : Expr S → Option S
  | .symbol s => some s
  | .comp _ s _ => some s
  | _ => none

/-- `sym1`. -/
def sym1 : Expr S → Option S
  | .one e => leftSym e
  | e => leftSym e

/-- `sym2`.  Behind a NOT it must be a symbol. -/
def sym2 : Expr S → Option S
  | .one (.symbol s) => some s
  | .one _ => none
  | e => leftSym e

/-- The symbol that two operands have in common, a boolean or a tristate. -/
def commonSym (e1 e2 : Expr S) : Option S :=
  match sym1 e1, sym2 e2 with
  | some s, some s' =>
      if s = s' ∧ (tab.type s = .boolean ∨ tab.type s = .tristate) then some s
      else none
  | _, _ => none

/-- The rules of `expr_join_or` for two equalities. -/
def joinOrEqual (s a b : S) : Option (Expr S) :=
  if a = tab.symbolYes ∧ b = tab.symbolMod
      ∨ a = tab.symbolMod ∧ b = tab.symbolYes then
    -- (a='y') || (a='m') -> (a!='n')
    some (.comp .unequal s tab.symbolNo)
  else if a = tab.symbolYes ∧ b = tab.symbolNo
      ∨ a = tab.symbolNo ∧ b = tab.symbolYes then
    -- (a='y') || (a='n') -> (a!='m')
    some (.comp .unequal s tab.symbolMod)
  else if a = tab.symbolMod ∧ b = tab.symbolNo
      ∨ a = tab.symbolNo ∧ b = tab.symbolMod then
    -- (a='m') || (a='n') -> (a!='y')
    some (.comp .unequal s tab.symbolYes)
  else none

/-- The rules of `expr_join_or` for operands on `s`. -/
def joinOrRules (s : S) (e1 e2 : Expr S) : Option (Expr S) :=
  match e1, e2 with
  | .comp .equal _ a, .comp .equal _ b =>
      if tab.type s = .tristate then joinOrEqual tab s a b else none
  | .one (.symbol _), .symbol _ =>
      if tab.type s = .boolean then some (.symbol tab.symbolYes) else none
  | .symbol _, .one (.symbol _) =>
      if tab.type s = .boolean then some (.symbol tab.symbolYes) else none
  | _, _ => none

/-- The rules of `expr_join_and` for a symbol and a comparison of it. -/
def joinAndSymbol (s : S) (type : CompType) (t : S) : Option (Expr S) :=
  match type with
  | .equal =>
      -- (a) && (a='y') -> (a='y')
      if t = tab.symbolYes then some (.comp .equal s tab.symbolYes) else none
  | .unequal =>
      -- (a) && (a!='n') -> (a)
      if t = tab.symbolNo then some (.symbol s)
      -- (a) && (a!='m') -> (a='y')
      else if t = tab.symbolMod then some (.comp .equal s tab.symbolYes)
      else none

/-- (a='b') && (a!='c') -> 'b'='c' ? 'n' : a='b'. -/
def joinAndEqual (s b c : S) : Option (Expr S) :=
  if tab.isConst c ∧ tab.isConst b then
    some (if b ≠ c then .comp .equal s b else .symbol tab.symbolNo)
  else none

/-- The rules for two inequalities. -/
def joinAndUnequal (s a b : S) : Option (Expr S) :=
  if a = tab.symbolYes ∧ b = tab.symbolNo
      ∨ a = tab.symbolNo ∧ b = tab.symbolYes then
    -- (a!='y') && (a!='n') -> (a='m')
    some (.comp .equal s tab.symbolMod)
  else if a = tab.symbolYes ∧ b = tab.symbolMod
      ∨ a = tab.symbolMod ∧ b = tab.symbolYes then
    -- (a!='y') && (a!='m') -> (a='n')
    some (.comp .equal s tab.symbolNo)
  else if a = tab.symbolMod ∧ b = tab.symbolNo
      ∨ a = tab.symbolNo ∧ b = tab.symbolMod then
    -- (a!='m') && (a!='n') -> (a='y')
    some (.comp .equal s tab.symbolYes)
  else none

/-- The rules of `expr_join_and` for operands on `s`. -/
def joinAndRules (s : S) (e1 e2 : Expr S) : Option (Expr S) :=
  match e1, e2 with
  | .symbol _, .comp type _ t => joinAndSymbol tab s type t
  | .comp type _ t, .symbol _ => joinAndSymbol tab s type t
  | .comp .equal _ b, .comp .unequal _ c =>
      if tab.type s = .tristate then joinAndEqual tab s b c else none
  | .comp .unequal _ c, .comp .equal _ b =>
      if tab.type s = .tristate then joinAndEqual tab s b c else none
  | .comp .unequal _ a, .comp .unequal _ b =>
      if tab.type s = .tristate then joinAndUnequal tab s a b else none
  | _, _ => none

/-- The rules of one type of junction. -/
def joinRules : JunctionType → S → Expr S → Expr S → Option (Expr S)
  | .or => joinOrRules tab
  | .and => joinAndRules tab

/-- `expr_join_or` and `expr_join_and`, which differ in their rules only.
    The result is NULL where no rule is known. -/
def exprJoin (fuel : Nat) (type : JunctionType) (e1 e2 : Expr S) :
    Option (Option (Expr S)) :=
  (exprEq tab fuel e1 e2).map fun eq =>
    if eq then some e1
    else (commonSym tab e1 e2).bind fun s => joinRules tab type s e1 e2

/-! ## `expr_eliminate_dups1` -/

/-- The last `switch` of `expr_eliminate_dups1`. -/
def joinAt (fuel : Nat) (type : JunctionType) (p1 p2 : Path)
    (w : Rewriting S) : Option (Rewriting S) :=
  match at? w.1 p1, at? w.1 p2 with
  | some e1, some e2 =>
      (exprJoin tab fuel type e1 e2).map fun
        | some tmp =>
            (put (put w.1 p1 (.symbol (unit tab type))) p2 tmp, w.2 + 1)
        | none => w
  | _, _ => none

/-- A call with both pointers at the place `p`, which is all that it
    reaches. -/
def within (call : Rewriting S → Option (Rewriting S)) (p : Path)
    (w : Rewriting S) : Option (Rewriting S) :=
  match at? w.1 p with
  | some e => (call (e, w.2)).map fun w' => (put w.1 p w'.1, w'.2)
  | none => none

/-- `expr_eliminate_dups1`; the first argument bounds the depth of its
    calls. -/
def eliminateDups1 : Nat → JunctionType → Path → Path → Rewriting S →
    Option (Rewriting S)
  | 0, _, _, _, _ => none
  | fuel + 1, type, p1, p2, w =>
      match at? w.1 p1, at? w.1 p2 with
      | some e1, some e2 =>
          if e1.junction = some type then
            (eliminateDups1 fuel type (p1 ++ [.left]) p2 w).bind
              (eliminateDups1 fuel type (p1 ++ [.right]) p2)
          else if e2.junction = some type then
            (eliminateDups1 fuel type p1 (p2 ++ [.left]) w).bind
              (eliminateDups1 fuel type p1 (p2 ++ [.right]))
          else if p1 = p2 then some w
          else
            (match e1.junction with
              | some inner => within (eliminateDups1 fuel inner [] []) p1 w
              | none => some w).bind
              (joinAt tab fuel type p1 p2)
      | _, _ => none

/-! ## `expr_eliminate_dups2` -/

/-- `expr_extract_eq`; the second value is `*ep`. -/
def extractEq : Nat → JunctionType → Option (Expr S) → Expr S → Expr S →
    Option (Option (Expr S) × Expr S × Expr S)
  | 0, _, _, _, _ => none
  | fuel + 1, type, e, e1, e2 =>
      match e1.operands type with
      | some (l, r) => do
          let (e, l, e2) ← extractEq fuel type e l e2
          let (e, r, e2) ← extractEq fuel type e r e2
          return (e, .two type l r, e2)
      | none =>
          match e2.operands type with
          | some (l, r) => do
              let (e, e1, l) ← extractEq fuel type e e1 l
              let (e, e1, r) ← extractEq fuel type e e1 r
              return (e, e1, .two type l r)
          | none =>
              (exprEq tab fuel e1 e2).map fun eq =>
                if eq then
                  (some (e.elim e1 fun e => .two type e e1),
                    .symbol (unit tab type), .symbol (unit tab type))
                else (e, e1, e2)

/-- `expr_extract_eq_and` and `expr_extract_eq_or`; of `ep1` and `ep2` the
    first one is all that is used. -/
def extractEqFirst (fuel : Nat) (type : JunctionType) (e1 e2 : Expr S) :
    Option (Expr S) :=
  (extractEq tab fuel type none e1 e2).map fun
    | (some _, e1, _) => exprEliminateYn tab e1
    | (none, e1, _) => e1

/-- (FOO || BAR) && (!FOO && !BAR) -> n, and its dual: the operand at `p1`
    goes if the negation of it is the other one, or a part of it. -/
def contradictAt (fuel : Nat) (type : JunctionType) (p1 p2 : Path)
    (w : Rewriting S) : Option (Rewriting S) :=
  match at? w.1 p1, at? w.1 p2 with
  | some e1, some e2 => do
      let tmp1 ← exprTransform tab fuel (.one e1)
      let tmp1 ← extractEqFirst tab fuel type tmp1 e2
      if tmp1 = .symbol (unit tab type) then
        return (put w.1 p1 (.symbol (zero tab type)), w.2 + 1)
      else return w
  | _, _ => none

/-- `expr_eliminate_dups2`; the first argument bounds the depth of its
    calls. -/
def eliminateDups2 : Nat → JunctionType → Path → Path → Rewriting S →
    Option (Rewriting S)
  | 0, _, _, _, _ => none
  | fuel + 1, type, p1, p2, w =>
      match at? w.1 p1, at? w.1 p2 with
      | some e1, some e2 =>
          if e1.junction = some type then
            (eliminateDups2 fuel type (p1 ++ [.left]) p2 w).bind
              (eliminateDups2 fuel type (p1 ++ [.right]) p2)
          else
            -- here the function does not return behind its two calls
            (if e2.junction = some type then
              (eliminateDups2 fuel type p1 (p2 ++ [.left]) w).bind
                (eliminateDups2 fuel type p1 (p2 ++ [.right]))
            else some w).bind fun w =>
              if p1 = p2 then some w
              else
                match (at? w.1 p1).bind Expr.junction with
                | some inner =>
                    (within (eliminateDups2 fuel inner [] []) p1 w).bind
                      (contradictAt tab fuel type p1 p2)
                | none => some w
      | _, _ => none

/-! ## `expr_eliminate_dups` -/

/-- One round of `expr_eliminate_dups`. -/
def dupsRound (fuel : Nat) (e : Expr S) : Option (Rewriting S) :=
  match e.junction with
  | some type =>
      (eliminateDups1 tab fuel type [] [] (e, 0)).bind
        (eliminateDups2 tab fuel type [] [])
  | none => some (e, 0)

/-- The loop of `expr_eliminate_dups`; the first argument bounds the number of
    its rounds and the depth of the calls that they make. -/
def eliminateDups : Nat → Expr S → Option (Expr S)
  | 0, _ => none
  | fuel + 1, e =>
      (dupsRound tab fuel e).bind fun w =>
        if w.2 = 0 then some w.1
        else eliminateDups fuel (exprEliminateYn tab w.1)

end ChinixKconfigDuplicates
