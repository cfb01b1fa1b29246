import Mathlib.Algebra.BigOperators.Fin
import Mathlib.Tactic.Ring
import Directional.Matrix.Inner
import Directional.Proofs.Exact.Field

namespace Directional

variable {R S : Type} [CommRing R] [CommRing S] {r c k : Nat}

/-- Adding numbers to a total one by one adds their sum. -/
theorem foldl_add_eq_sum (total : R) (x : Fin k → R) :
    Fin.foldl k (fun total l => total + x l) total = total + ∑ l, x l := by
  induction k generalizing total with
  | zero => rw [Fin.foldl_zero, Fin.sum_univ_zero, add_zero]
  | succ k ih => rw [Fin.foldl_succ, ih, Fin.sum_univ_succ, add_assoc]

namespace Mat

/-- A row of a full block is a row of the column. -/
theorem laneRow_lt (b : Fin (r / 8)) (lane : Fin 8) : 8 * b.val + lane.val < r := by
  omega

/-- A row behind the last full block is a row of the column. -/
theorem remainingRow_lt (i : Fin (r % 8)) : 8 * (r / 8) + i.val < r := by
  omega

/-- The entries of a lane as a sum over the blocks. -/
theorem laneSum_eq_sum (x : Fin r → R) (lane : Fin 8) :
    laneSum x lane = ∑ b : Fin (r / 8), x ⟨8 * b.val + lane.val, laneRow_lt b lane⟩ :=
  (foldl_add_eq_sum 0 _).trans (zero_add _)

/-- Every row is in one of the eight lanes or behind the last full block. -/
theorem sum_eq_sum_lanes (x : Fin r → R) :
    ∑ i, x i =
      ∑ lane, laneSum x lane + ∑ i, x ⟨8 * (r / 8) + i.val, remainingRow_lt i⟩ := by
  have hrows : r / 8 * 8 + r % 8 = r := by omega
  have hlanes : ∑ i : Fin (r / 8 * 8), x ⟨i.val, by omega⟩ = ∑ lane, laneSum x lane := by
    rw [← finProdFinEquiv.sum_comp, Fintype.sum_prod_type, Finset.sum_comm]
    refine Finset.sum_congr rfl fun lane _ => ?_
    rw [laneSum_eq_sum]
    refine Finset.sum_congr rfl fun b _ => congrArg x (Fin.ext ?_)
    exact Nat.add_comm _ _
  rw [← (finCongr hrows).sum_comp, Fin.sum_univ_add, ← hlanes]
  congr 1
  refine Finset.sum_congr rfl fun i _ => congrArg x (Fin.ext ?_)
  exact congrArg (· + i.val) (Nat.mul_comm _ _)

/-- In whatever order a column is added to a total, it adds the sum of its entries. -/
theorem addColumn_eq_sum (total : R) (x : Fin r → R) : addColumn total x = total + ∑ i, x i := by
  rw [sum_eq_sum_lanes, Fin.sum_univ_eight]
  refine (foldl_add_eq_sum _ _).trans ?_
  ring

/-- The pairwise sum of a short column is the sum of its entries, too. -/
theorem columnSum_eq_sum (x : Fin r → R) : columnSum x = ∑ i, x i := by
  match r, x with
  | 2, x => exact (Fin.sum_univ_two x).symm
  | 3, x => exact (Fin.sum_univ_three x).symm
  | 4, x =>
    rw [Fin.sum_univ_four]
    change (x 0 + x 2) + (x 1 + x 3) = _
    ring
  | 0, x | 1, x | n + 5, x => exact (addColumn_eq_sum 0 x).trans (zero_add _)

private theorem foldl_addColumn_eq_sum (x : Fin r → Fin c → R) :
    Fin.foldl c (fun total j => addColumn total fun i => x i j) 0 = ∑ i, ∑ j, x i j := by
  simp only [addColumn_eq_sum]
  rw [foldl_add_eq_sum, zero_add, Finset.sum_comm]

/-- The entries of a matrix amount to the sum over all places. -/
theorem entrySum_eq_sum (x : Fin r → Fin c → R) : entrySum x = ∑ i, ∑ j, x i j := by
  match c, x with
  | 1, x =>
    simp only [Fin.sum_univ_one]
    exact columnSum_eq_sum _
  | 0, x | n + 2, x => exact foldl_addColumn_eq_sum x

/-- An additive map of the sum of all entries is the sum of what it makes of the entries. -/
theorem map_entrySum (φ : R →+ S) (x : Fin r → Fin c → R) :
    φ (entrySum x) = entrySum fun i j => φ (x i j) := by
  simp only [entrySum_eq_sum, map_sum]

/-- Sums of two entries are summed up to the sum of both sums. -/
theorem entrySum_add (x y : Fin r → Fin c → R) :
    (entrySum fun i j => x i j + y i j) = entrySum x + entrySum y := by
  simp only [entrySum_eq_sum, Finset.sum_add_distrib]

private theorem foldl_add_in_front (total : R) (x : Fin k → R) :
    Fin.foldl k (fun total l => x l + total) total = total + ∑ l, x l := by
  simpa only [add_comm] using foldl_add_eq_sum total x

/-- The order in which products are added makes no difference. -/
theorem sumOfProducts_eq_sum (x y : Fin k → R) : sumOfProducts x y = ∑ l, x l * y l := by
  cases k with
  | zero => exact (Fin.sum_univ_zero _).symm
  | succ k => exact (foldl_add_in_front _ _).trans (Fin.sum_univ_succ fun l => x l * y l).symm

end Mat

end Directional
