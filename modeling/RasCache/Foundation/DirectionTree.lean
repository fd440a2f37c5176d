import Mathlib.Algebra.Group.Nat.Defs
import Mathlib.Data.List.Perm.Basic
import Mathlib.Data.List.Range

/-!
# Trees of direction bits

A perfect binary tree keeps one bit at each inner node. Following the bits from the
root leads to one leaf, the `victim`. Turning the bits on the path to a leaf towards
it makes that leaf the victim, and turning them away makes it some other leaf. When
each victim is turned away from in its turn, the two halves of the tree alternate,
so by induction on the height every leaf comes up once in as many rounds as there
are leaves, whatever the bits were.
-/
namespace DirectionTree

/-- A perfect tree of the given height; a bit that is set points to the right. -/
inductive BitTree : Nat → Type
  | leaf : BitTree 0
  | node {height : Nat} (bit : Bool) (left right : BitTree height) : BitTree (height + 1)

/-- The leaf the bits lead to, counted from the left. -/
def victim : {height : Nat} → BitTree height → Nat
  | 0, .leaf => 0
  | height + 1, .node bit left right => if bit then 2 ^ height + victim right else victim left

/-- Set each bit on the path to a leaf to `mark` of the direction the path takes. -/
def turn (mark : Bool → Bool) : {height : Nat} → BitTree height → Nat → BitTree height
  | 0, .leaf, _ => .leaf
  | height + 1, .node _ left right, i =>
      if i < 2 ^ height then .node (mark false) (turn mark left i) right
      else .node (mark true) left (turn mark right (i - 2 ^ height))

variable {height : Nat}

theorem victim_lt (tree : BitTree height) : victim tree < 2 ^ height := by
  induction tree with
  | leaf => simp [victim]
  | node =>
    simp only [victim, Nat.pow_succ]
    split <;> omega

/-! ### Turning towards a leaf and away from it -/

theorem victim_turn_towards (tree : BitTree height) (i : Nat) (inside : i < 2 ^ height) :
    victim (turn id tree i) = i := by
  induction tree generalizing i with
  | leaf => simp only [Nat.pow_zero] at inside; simp only [turn, victim]; omega
  | @node height bit left right leftTurned rightTurned =>
    simp only [turn]
    split
    next low => simpa [victim] using leftTurned i low
    next =>
      rw [Nat.pow_succ] at inside
      have below := rightTurned (i - 2 ^ height) (by omega)
      simp only [victim, id_eq, if_pos, below]
      omega

/-- One bit that points away from the leaf is enough, and the root's does. -/
theorem victim_turn_away (tree : BitTree (height + 1)) (i : Nat) :
    victim (turn not tree i) ≠ i := by
  cases tree with
  | node _ left =>
    simp only [turn]
    split
    next =>
      simp only [victim, Bool.not_false, if_pos]
      omega
    next =>
      have bound := victim_lt left
      simp only [victim, Bool.not_true, Bool.false_eq_true, if_false]
      omega

/-! ### Rounds -/

/-- Turn away from the victim. -/
def rotate (tree : BitTree height) : BitTree height := turn not tree (victim tree)

/-- The victims of `n` rounds. -/
def rounds : Nat → BitTree height → List Nat
  | 0, _ => []
  | n + 1, tree => victim tree :: rounds n (rotate tree)

theorem rotate_right (left right : BitTree height) :
    rotate (.node true left right) = .node false left (rotate right) := by
  simp [rotate, turn, victim]

theorem rotate_left (left right : BitTree height) :
    rotate (.node false left right) = .node true (rotate left) right := by
  simp [rotate, turn, victim, victim_lt left]

/-- Two rounds of a tree are one round of each half. -/
theorem rounds_double (n : Nat) (bit : Bool) (left right : BitTree height) :
    (rounds (2 * n) (.node bit left right)).Perm
      (rounds n left ++ (rounds n right).map (2 ^ height + ·)) := by
  induction n generalizing left right with
  | zero => exact .refl _
  | succ n ih =>
    have rest := ih (rotate left) (rotate right)
    have shifted : (rounds (n + 1) right).map (2 ^ height + ·) =
        (2 ^ height + victim right) :: (rounds n (rotate right)).map (2 ^ height + ·) := rfl
    rw [Nat.mul_succ, shifted]
    cases bit with
    | false =>
      simp only [rounds, rotate_left, rotate_right, victim, Bool.false_eq_true, if_false, if_true,
        List.cons_append]
      exact (((rest.cons _).trans List.perm_middle.symm).cons _)
    | true =>
      simp only [rounds, rotate_left, rotate_right, victim, Bool.false_eq_true, if_false, if_true,
        List.cons_append]
      exact (((rest.cons _).cons _).trans (.swap ..)).trans ((List.perm_middle.symm).cons _)

theorem rounds_perm_range (tree : BitTree height) :
    (rounds (2 ^ height) tree).Perm (List.range (2 ^ height)) := by
  induction tree with
  | leaf => exact .refl _
  | @node height bit left right leftAll rightAll =>
    have halves : 2 ^ (height + 1) = 2 * 2 ^ height := by rw [Nat.pow_succ, Nat.mul_comm]
    rw [halves]
    calc rounds (2 * 2 ^ height) (.node bit left right)
        _ |>.Perm (rounds (2 ^ height) left ++
              (rounds (2 ^ height) right).map (2 ^ height + ·)) := rounds_double _ bit left right
        _ |>.Perm (List.range (2 ^ height) ++
              (List.range (2 ^ height)).map (2 ^ height + ·)) := leftAll.append (rightAll.map _)
        _ = List.range (2 * 2 ^ height) := by rw [Nat.two_mul, List.range_add]

end DirectionTree
