import Mathlib.Analysis.SpecialFunctions.Integrals.Basic
import Mathlib.Data.Matrix.Mul
import Mathlib.LinearAlgebra.Matrix.Notation
import Mathlib.Tactic.Module
import SystemDynamics.Proofs.Simulation.Walk

namespace SystemDynamics.RungeKutta

open Polynomial (aeval)
open scoped Polynomial

variable {n : ℕ} {ε : Type}

/-- The slopes of a state with components, written over a buffer whatever it held. -/
def slopes (f : ℚ → (Fin n → ℚ) → Fin n → ℚ) : Rate ℚ ε := fun t y _ ↦
  (List.ofFn (f t fun i ↦ y.getD i 0), none)

/-- The state after a step, by components. -/
def next (f : ℚ → (Fin n → ℚ) → Fin n → ℚ) (t h : ℚ) (y : Fin n → ℚ) : Fin n → ℚ :=
  let k1 := f t y
  let k2 := f (t + h / 2) (y + (h / 2) • k1)
  let k3 := f (t + h / 2) (y + (h / 2) • k2)
  let k4 := f (t + h) (y + h • k3)
  y + (h / 6) • (k1 + (2 : ℚ) • k2 + (2 : ℚ) • k3 + k4)

theorem getD_ofFn (y : Fin n → ℚ) : (fun i : Fin n ↦ (List.ofFn y).getD i 0) = y := by
  funext i
  simp [List.getD_eq_getElem?_getD]

theorem stage_ofFn (scale : ℚ) (y k : Fin n → ℚ) :
    stage scale (List.ofFn y) (List.ofFn k) = List.ofFn (y + scale • k) := by
  rw [stage, List.ofFn_eq_map, List.ofFn_eq_map, List.ofFn_eq_map, List.zipWith_map,
    List.zipWith_self]
  rfl

theorem combine_ofFn (h : ℚ) (y k1 k2 k3 k4 : Fin n → ℚ) :
    combine h (List.ofFn y) (List.ofFn k1) (List.ofFn k2) (List.ofFn k3) (List.ofFn k4) =
      List.ofFn (y + (h / 6) • (k1 + (2 : ℚ) • k2 + (2 : ℚ) • k3 + k4)) := by
  have hsix : (6.0 : ℚ) = 6 := by norm_num
  have htwo : (2.0 : ℚ) = 2 := by norm_num
  simp only [List.ofFn_eq_map, combine_map, hsix, htwo]
  rfl

theorem advance_ofFn (f : ℚ → (Fin n → ℚ) → Fin n → ℚ) (t h : ℚ) (y : Fin n → ℚ) :
    advance (fun t y ↦ List.ofFn (f t fun i ↦ y.getD i 0)) t h (List.ofFn y) =
      List.ofFn (next f t h y) := by
  have hhalf : (0.5 : ℚ) * h = h / 2 := by ring
  rw [advance_eq_combine (n := n) (fun _ _ _ ↦ List.length_ofFn) t h List.length_ofFn]
  simp only [stages, hhalf, getD_ofFn, stage_ofFn, combine_ofFn, next]

theorem step_slopes {s : RungeKutta ℚ} (hs : s.Fits n) (f : ℚ → (Fin n → ℚ) → Fin n → ℚ)
    (t h : ℚ) (y : Fin n → ℚ) :
    ∃ s', s.step (slopes f : Rate ℚ ε) t h (List.ofFn y) = (s', .ok (List.ofFn (next f t h y))) ∧
      s'.Fits n := by
  have hlength : ∀ (t : ℚ) (y : List ℚ), y.length = n →
      (List.ofFn (f t fun i ↦ y.getD i 0)).length = n := fun t y _ ↦ List.length_ofFn
  obtain ⟨s', hstep, hs'⟩ := stepWith_steady (ε := ε) hlength hs () t h (List.length_ofFn (f := y))
  rw [advance_ofFn] at hstep
  exact ⟨s', congrArg Prod.snd hstep, hs'⟩

/-- The rule of Simpson has no error up to the third degree. -/
theorem simpson_eq_integral {p : ℚ[X]} (hp : p.natDegree ≤ 3) (t h : ℚ) :
    ((h / 6 * (p.eval t + 4 * p.eval (t + h / 2) + p.eval (t + h)) : ℚ) : ℝ) =
      ∫ x in (t : ℝ)..(t + h), aeval x p := by
  have hlt : p.natDegree < 4 := Nat.lt_succ_of_le hp
  have hpower : ∀ i ∈ Finset.range 4, IntervalIntegrable (fun x : ℝ ↦ p.coeff i • x ^ i)
      MeasureTheory.volume (t : ℝ) (t + h) := fun i _ ↦
    ((continuous_pow i).const_smul (p.coeff i)).intervalIntegrable _ _
  have hintegral : ∀ i, ∫ x in (t : ℝ)..(t + h), p.coeff i • x ^ i =
      p.coeff i * (((t + h) ^ (i + 1) - t ^ (i + 1)) / (i + 1)) := by
    intro i
    simp only [Rat.smul_def, intervalIntegral.integral_const_mul, integral_pow]
  have hsum : ∫ x in (t : ℝ)..(t + h), aeval x p = ∑ i ∈ Finset.range 4,
      (p.coeff i : ℝ) * (((t + h) ^ (i + 1) - t ^ (i + 1)) / (i + 1)) := by
    simp only [Polynomial.aeval_eq_sum_range' hlt]
    rw [intervalIntegral.integral_finsetSum hpower]
    exact Finset.sum_congr rfl fun i _ ↦ hintegral i
  rw [hsum]
  simp only [Polynomial.eval_eq_sum_range' hlt, Finset.sum_range_succ, Finset.sum_range_zero]
  push_cast
  ring

theorem next_of_time (p : Fin n → ℚ[X]) (t h : ℚ) (y : Fin n → ℚ) (i : Fin n) :
    next (fun t _ i ↦ (p i).eval t) t h y i =
      y i + h / 6 * ((p i).eval t + 4 * (p i).eval (t + h / 2) + (p i).eval (t + h)) := by
  simp only [next, Pi.add_apply, Pi.smul_apply, smul_eq_mul]
  ring

/-- Where the slopes are linear in the state, each stage adds a power. -/
theorem next_of_linear (A : Matrix (Fin n) (Fin n) ℚ) (t h : ℚ) (y : Fin n → ℚ) :
    next (fun _ y ↦ A.mulVec y) t h y =
      (1 + h • A + (1 / 2 : ℚ) • (h • A) ^ 2 + (1 / 6 : ℚ) • (h • A) ^ 3 +
        (1 / 24 : ℚ) • (h • A) ^ 4).mulVec y := by
  simp only [next, smul_pow, pow_succ A, pow_zero, one_mul, Matrix.add_mulVec, Matrix.smul_mulVec,
    Matrix.one_mulVec, ← Matrix.mulVec_mulVec, Matrix.mulVec_add, Matrix.mulVec_smul]
  module

/-- The method is of the fourth order. For slopes that are polynomials in the time of degree at most
three a step adds their integrals, and for slopes that are linear in the state it multiplies the
state by the first terms of the exponential series, whatever the buffers held. -/
theorem step_fourth_order (n : ℕ) (s : RungeKutta ℚ) (hs : s.Fits n) (t h : ℚ) (y : Fin n → ℚ) :
    (∀ p : Fin n → ℚ[X], (∀ i, (p i).natDegree ≤ 3) →
      ∃ s' y', s.step (slopes fun t _ i ↦ (p i).eval t : Rate ℚ Empty) t h (List.ofFn y) =
          (s', .ok (List.ofFn y')) ∧
        ∀ i, (y' i : ℝ) = y i + ∫ x in (t : ℝ)..(t + h), aeval x (p i)) ∧
    ∀ A : Matrix (Fin n) (Fin n) ℚ,
      ∃ s', s.step (slopes fun _ y ↦ A.mulVec y : Rate ℚ Empty) t h (List.ofFn y) =
        (s', .ok (List.ofFn
          ((1 + h • A + (1 / 2 : ℚ) • (h • A) ^ 2 + (1 / 6 : ℚ) • (h • A) ^ 3 +
            (1 / 24 : ℚ) • (h • A) ^ 4).mulVec y))) := by
  constructor
  · intro p hp
    obtain ⟨s', hstep, -⟩ := step_slopes hs (fun t _ i ↦ (p i).eval t) t h y
    refine ⟨s', _, hstep, fun i ↦ ?_⟩
    rw [next_of_time, Rat.cast_add, simpson_eq_integral (hp i)]
  · intro A
    obtain ⟨s', hstep, -⟩ := step_slopes hs (fun _ y ↦ A.mulVec y) t h y
    rw [next_of_linear] at hstep
    exact ⟨s', hstep⟩

def used : RungeKutta ℚ := ⟨[7, 7], [0, 1], [2, 0], [5, 5], [3, 9]⟩

theorem step_fourth_order_rotation :
    ∃ (s₁ s₂ : RungeKutta ℚ) (y₁ : Fin 2 → ℚ),
      used.step (slopes fun t _ (_ : Fin 2) ↦ (Polynomial.X ^ 3 : ℚ[X]).eval t : Rate ℚ Empty)
        (1 / 2) (1 / 3) (List.ofFn ![1, 0]) = (s₁, .ok (List.ofFn y₁)) ∧
      (y₁ 0 : ℝ) = ((1 : ℚ) : ℝ) +
        ∫ x in ((1 / 2 : ℚ) : ℝ)..((1 / 2 : ℚ) + (1 / 3 : ℚ)), aeval x (Polynomial.X ^ 3 : ℚ[X]) ∧
      used.step (slopes fun _ y ↦ !![0, -1; 1, 0].mulVec y : Rate ℚ Empty) (1 / 2) (1 / 3)
        (List.ofFn ![1, 0]) = (s₂, .ok [1837 / 1944, 53 / 162]) := by
  obtain ⟨hpolynomial, hlinear⟩ :=
    step_fourth_order 2 used ⟨rfl, rfl, rfl, rfl, rfl⟩ (1 / 2) (1 / 3) ![1, 0]
  obtain ⟨s₁, y₁, hstep, hintegral⟩ := hpolynomial (fun _ ↦ Polynomial.X ^ 3) fun _ ↦ by simp
  obtain ⟨s₂, hrotated⟩ := hlinear !![0, -1; 1, 0]
  refine ⟨s₁, s₂, y₁, hstep, hintegral 0, hrotated.trans ?_⟩
  congr 2
  decide +kernel

end SystemDynamics.RungeKutta
