import SystemDynamics.Analysis.Sensitivity
import SystemDynamics.Proofs.Number.Whole
import SystemDynamics.Proofs.Simulation.Agreement
import SystemDynamics.Proofs.Simulation.Failure
import SystemDynamics.Proofs.Simulation.Points

namespace SystemDynamics

open Number (Granular HasValue toDouble toDouble_mono)

/-- A value of a sweep that has so many intervals, by the exact values of its ends. -/
def swept (first last : ℚ) (count i : ℕ) : ℚ :=
  if i = count then last
  else toDouble (first + toDouble (toDouble (last - first) * toDouble (toDouble i / toDouble count)))

section

variable {first last : ℚ} {count i j : ℕ}

theorem swept_count : swept first last count count = last :=
  if_pos rfl

theorem swept_zero (hfirst : toDouble first = first) (hcount : 0 < count) :
    swept first last count 0 = first := by
  rw [swept, if_neg hcount.ne, Nat.cast_zero, Number.toDouble_zero, zero_div, Number.toDouble_zero,
    mul_zero, Number.toDouble_zero, add_zero, hfirst]

theorem swept_neg : swept (-first) (-last) count i = -swept first last count i := by
  have hspan : -last - -first = -(last - first) := by ring
  rw [swept, swept]
  split_ifs
  · rfl
  · rw [hspan, Number.toDouble_neg, neg_mul, Number.toDouble_neg, ← neg_add, Number.toDouble_neg]

section

variable (hcount : count ≤ 2 ^ 53)

include hcount

theorem fraction_nonneg (hi : i < count) : 0 ≤ toDouble (toDouble i / toDouble count) := by
  rw [Number.toDouble_natCast (by omega), Number.toDouble_natCast hcount]
  exact Number.toDouble_nonneg (by positivity)

theorem fraction_mono (hij : i ≤ j) :
    toDouble (toDouble i / toDouble count) ≤ toDouble (toDouble j / toDouble count) := by
  rw [Number.toDouble_natCast hcount]
  exact toDouble_mono (div_le_div_of_nonneg_right (toDouble_mono (by exact_mod_cast hij))
    (Nat.cast_nonneg _))

theorem fraction_le (hi : i < count) :
    toDouble (toDouble i / toDouble count) ≤ 1 - 2 ^ (-53 : ℤ) := by
  have hexact : toDouble (1 - 2 ^ (-53 : ℤ)) = 1 - 2 ^ (-53 : ℤ) := by
    have h := Number.toDouble_of_lt (n := 2 ^ 53 - 1) (by norm_num) (e := -53) (by norm_num)
    norm_num at h ⊢
    exact h
  rw [Number.toDouble_natCast (by omega), Number.toDouble_natCast hcount, ← hexact]
  have hpos : (0 : ℚ) < count := by exact_mod_cast (by omega : 0 < count)
  have hleft : (i : ℚ) + 1 ≤ count := by exact_mod_cast hi
  have hcount' : (count : ℚ) * 2 ^ (-53 : ℤ) ≤ 1 := by
    rw [zpow_neg, ← div_eq_mul_inv, div_le_one (zpow_pos two_pos _)]
    exact_mod_cast hcount
  refine toDouble_mono ?_
  rw [div_le_iff₀ hpos]
  linarith

end

section

variable {x y : Float} (hx : HasValue x first) (hcount : count ≤ 2 ^ 53)

include hx hcount

theorem le_swept (hrising : first ≤ last) (hi : i ≤ count) : first ≤ swept first last count i := by
  rw [swept]
  split_ifs with hcase
  · exact hrising
  · have hpassed : 0 ≤ toDouble (toDouble (last - first) *
        toDouble (toDouble i / toDouble count)) :=
      Number.toDouble_nonneg (mul_nonneg (Number.toDouble_nonneg (sub_nonneg.mpr hrising))
        (fraction_nonneg hcount (by omega)))
    calc first = toDouble first := hx.toDouble_eq.symm
      _ ≤ _ := toDouble_mono (le_add_of_nonneg_right hpassed)

variable (hy : HasValue y last)

include hy

theorem swept_le (hrising : first ≤ last) (hi : i ≤ count) : swept first last count i ≤ last := by
  rw [swept]
  split_ifs with hcase
  · exact le_rfl
  · have hdistance := sub_nonneg.mpr hrising
    have hpassed := Number.toDouble_le_of_part (hy.granular.sub hx.granular) hdistance
      (mul_le_mul_of_nonneg_left (fraction_le hcount (by omega : i < count))
        (Number.toDouble_nonneg hdistance))
    calc _ ≤ toDouble last := toDouble_mono (by linarith)
      _ = last := hy.toDouble_eq

theorem swept_mono (hrising : first ≤ last) (hij : i ≤ j) (hj : j ≤ count) :
    swept first last count i ≤ swept first last count j := by
  rcases hj.eq_or_lt with rfl | hj
  · rw [swept_count]
    exact swept_le hx hcount hy hrising hij
  · rw [swept, swept, if_neg (by omega), if_neg (by omega)]
    exact toDouble_mono (add_le_add_right (toDouble_mono (mul_le_mul_of_nonneg_left
      (fraction_mono hcount hij) (Number.toDouble_nonneg (sub_nonneg.mpr hrising)))) first)

theorem swept_falling (hfalling : last ≤ first) (hi : i ≤ count) :
    last ≤ swept first last count i ∧ swept first last count i ≤ first := by
  have hx' := Number.hasValue_neg hx
  have hy' := Number.hasValue_neg hy
  have hlow := le_swept hx' hcount (neg_le_neg hfalling) hi
  have hhigh := swept_le hx' hcount hy' (neg_le_neg hfalling) hi
  rw [swept_neg] at hlow hhigh
  exact ⟨neg_le_neg_iff.mp hhigh, neg_le_neg_iff.mp hlow⟩

theorem swept_antitone (hfalling : last ≤ first) (hij : i ≤ j) (hj : j ≤ count) :
    swept first last count j ≤ swept first last count i := by
  have h := swept_mono (Number.hasValue_neg hx) hcount (Number.hasValue_neg hy)
    (neg_le_neg hfalling) hij hj
  rw [swept_neg, swept_neg] at h
  exact neg_le_neg_iff.mp h

theorem abs_swept_lt (hi : i ≤ count) : |swept first last count i| < 2 ^ (1024 : ℤ) := by
  have hle : |swept first last count i| ≤ max |first| |last| := by
    rcases le_total first last with hrising | hfalling
    · exact abs_le_max_abs_abs (le_swept hx hcount hrising hi) (swept_le hx hcount hy hrising hi)
    · obtain ⟨hlow, hhigh⟩ := swept_falling hx hcount hy hfalling hi
      rw [max_comm]
      exact abs_le_max_abs_abs hlow hhigh
  exact hle.trans_lt ((max_le hx.abs_le hy.abs_le).trans_lt (sub_lt_self _ (zpow_pos two_pos _)))

theorem hasValue_swept (hspan : (y - x).isFinite) (hi : i < count) :
    HasValue (x + (y - x) * (Float.ofNat i / Float.ofNat count)) (swept first last count i) := by
  have hdistance := Number.hasValue_sub_of_isFinite hy hx hspan
  have hlow := fraction_nonneg hcount hi
  have hhigh := fraction_le hcount hi
  have hone : toDouble (toDouble i / toDouble count) ≤ 1 :=
    hhigh.trans (sub_le_self 1 (zpow_pos two_pos _).le)
  have hzero : toDouble (count : ℚ) ≠ 0 := by
    rw [Number.toDouble_natCast hcount, Nat.cast_ne_zero]
    omega
  have hfraction := Number.hasValue_div (Number.hasValue_ofNat (by omega : i ≤ 2 ^ 64))
    (Number.hasValue_ofNat (by omega : count ≤ 2 ^ 64)) hzero (by
      rw [abs_of_nonneg hlow]
      exact hone.trans_lt (one_lt_zpow₀ one_lt_two (by norm_num)))
  have hproduct := Number.hasValue_mul hdistance hfraction (Number.abs_toDouble_lt (by
    rw [abs_mul, abs_of_nonneg hlow]
    exact (mul_le_of_le_one_right (abs_nonneg _) hone).trans_lt hdistance.abs_lt))
  have hbounded := abs_swept_lt hx hcount hy hi.le
  rw [swept, if_neg hi.ne] at hbounded ⊢
  exact Number.hasValue_add hx hproduct hbounded

end

end

/-- Finite values in order, which lead from the first of two numbers to the last. -/
structure Spans (first last : Float) (values : List Float) : Prop where
  isFinite : ∀ x ∈ values, x.isFinite
  head : ∃ x, values.head? = some x ∧ (x == first) = true
  getLast : values.getLast? = some last
  rising : first ≤ last → values.Pairwise (· ≤ ·) ∧ ∀ x ∈ values, first ≤ x ∧ x ≤ last
  falling : last ≤ first → values.Pairwise (· ≥ ·) ∧ ∀ x ∈ values, last ≤ x ∧ x ≤ first

section

variable {x y : Float} {count : ℕ}

def entry (x y : Float) (count i : ℕ) : Float :=
  if i + 1 = count + 1 then y else x + (y - x) * (Float.ofNat i / Float.ofNat count)

theorem sweep_eq (hcount : 0 < count) :
    sweep x y (count + 1) = (List.range (count + 1)).map (entry x y count) := by
  rw [sweep, if_neg (by omega)]
  rfl

theorem length_sweep (steps : ℕ) : (sweep x y steps).length = steps := by
  rw [sweep]
  split_ifs with hone
  · rw [hone, List.length_singleton]
  · rw [List.length_map, List.length_range]

theorem getLast?_sweep (hcount : 0 < count) : (sweep x y (count + 1)).getLast? = some y := by
  rw [sweep_eq hcount, List.range_succ, List.map_append, List.map_singleton, List.getLast?_concat,
    entry, if_pos rfl]

theorem dropLast_sweep (hcount : 0 < count) : (sweep x y (count + 1)).dropLast =
    (List.range count).map fun i ↦ x + (y - x) * (Float.ofNat i / Float.ofNat count) := by
  rw [sweep_eq hcount, List.range_succ, List.map_append, List.map_singleton, List.dropLast_concat]
  refine List.map_congr_left ?_
  intro i hi
  rw [List.mem_range] at hi
  rw [entry, if_neg (by omega)]

theorem dropLast_sweep_not_isFinite (hcount : 0 < count) (hspan : (y - x).isFinite = false) :
    ∀ v ∈ (sweep x y (count + 1)).dropLast, v.isFinite = false := by
  rw [dropLast_sweep hcount]
  intro v hv
  obtain ⟨i, -, rfl⟩ := List.mem_map.mp hv
  exact Number.isFinite_add_right_of_not (Number.isFinite_mul_of_not hspan)

section

variable {first last : ℚ} (hx : HasValue x first) (hcount : count ≤ 2 ^ 53)
  (hy : HasValue y last) (hspan : (y - x).isFinite)

include hx hcount hy hspan

theorem hasValue_entry {i : ℕ} (hi : i ≤ count) :
    HasValue (entry x y count i) (swept first last count i) := by
  rw [entry]
  split_ifs with hcase
  · obtain rfl : i = count := by omega
    rwa [swept_count]
  · exact hasValue_swept hx hcount hy hspan (by omega)

theorem exists_of_mem_sweep (hpos : 0 < count) {v : Float} (hv : v ∈ sweep x y (count + 1)) :
    ∃ i ≤ count, HasValue v (swept first last count i) := by
  rw [sweep_eq hpos] at hv
  obtain ⟨i, hi, rfl⟩ := List.mem_map.mp hv
  rw [List.mem_range] at hi
  exact ⟨i, by omega, hasValue_entry hx hcount hy hspan (by omega)⟩

theorem pairwise_sweep (hpos : 0 < count) {R : Float → Float → Prop} {r : ℚ → ℚ → Prop}
    (hvalues : ∀ {x y : Float} {p q : ℚ}, HasValue x p → HasValue y q → (R x y ↔ r p q))
    (hr : ∀ {i j}, i ≤ j → j ≤ count → r (swept first last count i) (swept first last count j)) :
    (sweep x y (count + 1)).Pairwise R := by
  rw [sweep_eq hpos]
  refine pairwise_map_range ?_
  intro i j hij hj
  rw [hvalues (hasValue_entry hx hcount hy hspan (by omega))
    (hasValue_entry hx hcount hy hspan (by omega))]
  exact hr hij.le (by omega)

theorem spans_sweep (hpos : 0 < count) : Spans x y (sweep x y (count + 1)) := by
  constructor
  case isFinite =>
    intro v hv
    obtain ⟨i, -, hvalue⟩ := exists_of_mem_sweep hx hcount hy hspan hpos hv
    exact hvalue.isFinite
  case head =>
    refine ⟨entry x y count 0, ?_, ?_⟩
    · rw [sweep_eq hpos, List.range_succ_eq_map, List.map_cons, List.head?_cons]
    · rw [Number.beq_iff (hasValue_entry hx hcount hy hspan count.zero_le) hx]
      exact swept_zero hx.toDouble_eq hpos
  case getLast => exact getLast?_sweep hpos
  case rising =>
    intro hle
    rw [Number.le_iff hx hy] at hle
    refine ⟨pairwise_sweep hx hcount hy hspan hpos Number.le_iff (swept_mono hx hcount hy hle), ?_⟩
    intro v hv
    obtain ⟨i, hi, hvalue⟩ := exists_of_mem_sweep hx hcount hy hspan hpos hv
    rw [Number.le_iff hx hvalue, Number.le_iff hvalue hy]
    exact ⟨le_swept hx hcount hle hi, swept_le hx hcount hy hle hi⟩
  case falling =>
    intro hle
    rw [Number.le_iff hy hx] at hle
    refine ⟨pairwise_sweep hx hcount hy hspan hpos (fun hv hw ↦ Number.le_iff hw hv)
      (swept_antitone hx hcount hy hle), ?_⟩
    intro v hv
    obtain ⟨i, hi, hvalue⟩ := exists_of_mem_sweep hx hcount hy hspan hpos hv
    rw [Number.le_iff hy hvalue, Number.le_iff hvalue hx]
    exact swept_falling hx hcount hy hle hi

end

end

section

variable {first last : Float} (hfirst : first.isFinite) (hlast : last.isFinite) {steps : ℕ}

include hfirst hlast

theorem spans_of_isFinite (hsteps : 2 ≤ steps) (hfew : steps ≤ 2 ^ 53 + 1)
    (hspan : (last - first).isFinite) : Spans first last (sweep first last steps) := by
  obtain ⟨p, hp⟩ := Number.exists_hasValue hfirst
  obtain ⟨q, hq⟩ := Number.exists_hasValue hlast
  obtain ⟨count, rfl⟩ := Nat.exists_eq_add_of_le' (by omega : 1 ≤ steps)
  exact spans_sweep hp (by omega) hq hspan (by omega)

theorem forall_isFinite_sweep_iff (hsteps : 1 ≤ steps) (hfew : steps ≤ 2 ^ 53 + 1) :
    (∀ x ∈ sweep first last steps, x.isFinite) ↔ steps = 1 ∨ (last - first).isFinite := by
  constructor
  · intro hall
    by_contra hneither
    obtain ⟨hmany, hspan⟩ := not_or.mp hneither
    obtain ⟨count, rfl⟩ := Nat.exists_eq_add_of_le' hsteps
    have hpos : 0 < count := by omega
    have hvalue : first + (last - first) * (Float.ofNat 0 / Float.ofNat count) ∈
        (sweep first last (count + 1)).dropLast := by
      rw [dropLast_sweep hpos]
      exact List.mem_map.mpr ⟨0, List.mem_range.mpr hpos, rfl⟩
    have hno := dropLast_sweep_not_isFinite hpos (Bool.not_eq_true _ ▸ hspan) _ hvalue
    rw [hall _ (List.mem_of_mem_dropLast hvalue)] at hno
    exact Bool.true_eq_false_eq_False hno
  · intro h
    rcases h with rfl | hspan
    · rw [sweep, if_pos rfl]
      simpa using hfirst
    · rcases hsteps.eq_or_lt with rfl | hmany
      · rw [sweep, if_pos rfl]
        simpa using hfirst
      · exact (spans_of_isFinite hfirst hlast hmany hfew hspan).isFinite

end

namespace Model

variable {m : Model} {parameter : String} {first last : Float} {steps limit : ℕ}

theorem runs_of_sensitivity {s : Sensitivity}
    (h : m.sensitivity parameter first last steps limit = .ok s) :
    s.runs.map (·.result) = (sweep first last steps).map fun x ↦
      m.simulate (.ofList [(parameter, x)]) limit := by
  rw [sensitivity] at h
  split_ifs at h
  obtain rfl := Except.ok.inj h
  simp only [Model.compare, List.map_map]
  rfl

theorem sensitivity_isOk (hdeclared : (m.document.parameter? parameter).isSome)
    (hfirst : first.isFinite) (hlast : last.isFinite) (hsteps : 1 ≤ steps) :
    ∃ s, m.sensitivity parameter first last steps limit = .ok s := by
  rw [sensitivity, if_neg (by simp [Option.isSome_iff_ne_none.mp hdeclared]),
    if_neg (by omega), if_neg (by simp [hfirst, hlast])]
  exact ⟨_, rfl⟩

theorem no_refusal_iff {s : Sensitivity}
    (h : m.sensitivity parameter first last steps limit = .ok s) :
    (∀ run ∈ s.runs, ∀ id, run.result ≠ .error (.invalidOverride id)) ↔
      ∀ x ∈ sweep first last steps, x.isFinite := by
  have hresults : (∀ run ∈ s.runs, ∀ id, run.result ≠ .error (.invalidOverride id)) ↔
      ∀ r ∈ s.runs.map (·.result), ∀ id, r ≠ .error (.invalidOverride id) := by
    simp only [List.forall_mem_map]
  rw [hresults, runs_of_sensitivity h, List.forall_mem_map]
  refine forall₂_congr ?_
  intro x _
  rw [← not_exists, simulate_single, Bool.not_eq_false]

end Model

/-- Between finite bounds a sweep leads from the one to the other exactly if their distance is finite,
too: otherwise only the last of its values is, and the runs for the others are refused. With more steps
than are allowed here the value before the last may be rounded to the end of the way, and past it. -/
theorem finite_bounds_swept {first last : Float} (hfirst : first.isFinite) (hlast : last.isFinite)
    (steps : ℕ) :
    (2 ≤ steps →
      (sweep first last steps).length = steps ∧ (sweep first last steps).getLast? = some last ∧
      ((last - first).isFinite → steps ≤ 2 ^ 53 + 1 → Spans first last (sweep first last steps)) ∧
      ((last - first).isFinite = false →
        ∀ x ∈ (sweep first last steps).dropLast, x.isFinite = false)) ∧
    ∀ (m : Model) (parameter : String) (limit : ℕ), 1 ≤ steps →
      (m.document.parameter? parameter).isSome →
      ∃ s, m.sensitivity parameter first last steps limit = .ok s ∧ s.runs.length = steps ∧
        (steps ≤ 2 ^ 53 + 1 →
          ((∀ run ∈ s.runs, ∀ id, run.result ≠ .error (.invalidOverride id)) ↔
            steps = 1 ∨ (last - first).isFinite)) := by
  constructor
  · intro hsteps
    have hspans := spans_of_isFinite hfirst hlast hsteps
    obtain ⟨count, rfl⟩ := Nat.exists_eq_add_of_le' (by omega : 1 ≤ steps)
    have hpos : 0 < count := by omega
    exact ⟨length_sweep _, getLast?_sweep hpos, fun hspan hfew ↦ hspans hfew hspan,
      dropLast_sweep_not_isFinite hpos⟩
  · intro m parameter limit hsteps hdeclared
    obtain ⟨s, hs⟩ := Model.sensitivity_isOk hdeclared hfirst hlast hsteps
    refine ⟨s, hs, ?_, ?_⟩
    · have hlength := congrArg List.length (Model.runs_of_sensitivity hs)
      rwa [List.length_map, List.length_map, length_sweep] at hlength
    · intro hfew
      rw [Model.no_refusal_iff hs, forall_isFinite_sweep_iff hfirst hlast hsteps hfew]

theorem finite_bounds_swept_training : ∃ m s, Domain.aerodin.validate training = .ok m ∧
    m.sensitivity "training_time" 1 2 3 10 = .ok s ∧ s.runs.length = 3 ∧
    Spans 1 2 (sweep 1 2 3) ∧ ∀ run ∈ s.runs, ∀ id, run.result ≠ .error (.invalidOverride id) := by
  have hdeclared : ((Domain.aerodin.validate training).toOption.any fun m ↦
      (m.document.parameter? "training_time").isSome) := by decide +kernel
  obtain ⟨m, hm, hdeclared⟩ := (Option.any_eq_true _ _).mp hdeclared
  rw [Except.toOption_eq_some] at hm
  have hspan : ((2 : Float) - 1).isFinite := by decide +kernel
  obtain ⟨hvalues, hruns⟩ := finite_bounds_swept
    (by decide +kernel : (1 : Float).isFinite) (by decide +kernel : (2 : Float).isFinite) 3
  obtain ⟨s, hs, hlength, hrefused⟩ := hruns m "training_time" 10 (by decide) hdeclared
  exact ⟨m, s, hm, hs, hlength, (hvalues (by decide)).2.2.1 hspan (by decide),
    (hrefused (by decide)).mpr (.inr hspan)⟩

/-- The distance between two finite bounds may be larger than any double. -/
theorem sweep_overflows : (-1e308 : Float).isFinite ∧ (1e308 : Float).isFinite ∧
    (sweep (-1e308) 1e308 3).map Float.isFinite = [false, false, true] := by
  decide +kernel

end SystemDynamics
