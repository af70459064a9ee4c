import Mathlib.Algebra.BigOperators.Group.List.Basic
import Mathlib.Algebra.Order.Ring.Rat
import Mathlib.Tactic.Linarith
import Mathlib.Tactic.NormNum
import Mathlib.Tactic.Ring
import SystemDynamics.Proofs.Simulation.Agreement
import SystemDynamics.Proofs.Simulation.Walk
import SystemDynamics.Proofs.Validation.Rules

namespace SystemDynamics

open RungeKutta (stages advance course)

namespace Document

variable (d : Document)

/-- What the flows carry that have no stock at a side. -/
def across (side : Flow → Option String) (flow : Nat → ℚ) : ℚ :=
  (d.flows.zipIdx.map fun (f, j) ↦ if side f = none then flow j else 0).sum

/-- What enters a model from outside, less what leaves it. -/
def exchange (flow : Nat → ℚ) : ℚ :=
  d.across (·.source) flow - d.across (·.target) flow

variable {d}

theorem exchange_eq_zero (h : ∀ f ∈ d.flows, f.source ≠ none ∧ f.target ≠ none)
    (flow : Nat → ℚ) : d.exchange flow = 0 := by
  have hacross : ∀ side : Flow → Option String, (∀ f ∈ d.flows, side f ≠ none) →
      d.across side flow = 0 := by
    intro side hside
    refine List.sum_eq_zero fun x hx ↦ ?_
    obtain ⟨⟨f, j⟩, hf, rfl⟩ := List.mem_map.mp hx
    exact if_neg (hside f (List.fst_mem_of_mem_zipIdx hf))
  rw [exchange, hacross _ fun f hf ↦ (h f hf).1, hacross _ fun f hf ↦ (h f hf).2, sub_zero]

theorem sum_map_ite_eq {ids : List String} (h : ids.Nodup) (id : String) (x : ℚ) :
    (ids.map fun i ↦ if i = id then x else 0).sum = if id ∈ ids then x else 0 := by
  rw [List.sum_map_ite_eq ids (fun _ ↦ x) (fun _ ↦ 0) id, h.count]
  split <;> simp

theorem sum_wiring (h : (d.stocks.map (·.id)).Nodup) (side : Flow → Option String)
    (hside : ∀ f ∈ d.flows, ∀ s ∈ side f, s ∈ d.stocks.map (·.id)) (flow : Nat → ℚ) :
    ((wiring d side).map fun js ↦ (js.map flow).sum).sum + d.across side flow =
      (d.flows.zipIdx.map fun (_, j) ↦ flow j).sum := by
  rw [wiring_eq h, across, List.map_map]
  have hends : ∀ p ∈ d.flows.zipIdx, ∀ s ∈ side p.1, s ∈ d.stocks.map (·.id) := fun p hp ↦
    hside p.1 (List.fst_mem_of_mem_zipIdx hp)
  generalize d.flows.zipIdx = fs at hends ⊢
  induction fs with
  | nil => simp [Function.comp_def]
  | cons p fs ih =>
    obtain ⟨f, j⟩ := p
    rw [List.forall_mem_cons] at hends
    -- The first flow is at the stock that its side names, and at no other.
    have hfirst : (d.stocks.map fun s ↦ if side f = some s.id then flow j else 0).sum +
        (if side f = none then flow j else 0) = flow j := by
      cases hf : side f with
      | none => simp
      | some id =>
        have hid := sum_map_ite_eq h id (flow j)
        rw [if_pos (hends.1 id hf), List.map_map] at hid
        simpa [Function.comp_def, eq_comm] using hid
    have hcons : ∀ s ∈ d.stocks, (((fun js : List Nat ↦ (js.map flow).sum) ∘ fun s : Stock ↦
        ((f, j) :: fs).filterMap fun (f, j) ↦ if side f == some s.id then some j else none) s) =
        (if side f = some s.id then flow j else 0) +
          ((fs.filterMap fun (f, j) ↦ if side f == some s.id then some j else none).map
            flow).sum := by
      intro s _
      by_cases hs : side f = some s.id <;> simp [hs, List.filterMap_cons]
    rw [List.map_congr_left hcons, List.sum_map_add, List.map_cons, List.map_cons, List.sum_cons,
      List.sum_cons, ← ih hends.2]
    simp only [Function.comp_def]
    linarith only [hfirst]

end Document

theorem total_eq_sum (xs : List ℚ) : total xs = xs.sum := by
  have hzero : (-0.0 : ℚ) = 0 := by norm_num
  rw [total, hzero, List.sum_eq_foldl]

theorem Program.sum_rates {p : Program} (h : p.inflows.length = p.outflows.length)
    (flow : Nat → ℚ) : (p.rates flow).sum =
      (p.inflows.map fun js ↦ (js.map flow).sum).sum -
        (p.outflows.map fun js ↦ (js.map flow).sum).sum := by
  rw [rates]
  generalize p.inflows = ins at h ⊢
  generalize p.outflows = outs at h ⊢
  induction ins generalizing outs with
  | nil =>
    obtain rfl := List.length_eq_zero_iff.mp h.symm
    simp
  | cons js ins ih =>
    obtain ⟨js', outs, rfl⟩ := List.exists_cons_of_length_eq_add_one h.symm
    simp only [List.zipWith_cons_cons, List.map_cons, List.sum_cons, netFlow, total_eq_sum,
      ih outs (by simpa using h)]
    ring

/-- The rates of all stocks add up to what crosses the border. -/
theorem Document.Acceptable.sum_rates {w : World} {d : Document} (h : d.Acceptable w)
    {p : Program} (hin : p.inflows = wiring d (·.target)) (hout : p.outflows = wiring d (·.source))
    (flow : Nat → ℚ) : (p.rates flow).sum = d.exchange flow := by
  have hnodup := h.wellDeclared.idsOf_nodup .stock
  have htargets := Document.sum_wiring hnodup (·.target)
    (fun f hf s hs ↦ (h.flows f hf).declared s (.inr hs)) flow
  have hsources := Document.sum_wiring hnodup (·.source)
    (fun f hf s hs ↦ (h.flows f hf).declared s (.inl hs)) flow
  have hlength : p.inflows.length = p.outflows.length := by
    rw [hin, hout, length_wiring, length_wiring]
  rw [Program.sum_rates hlength, hin, hout, Document.exchange]
  linarith only [htargets, hsources]

namespace RungeKutta

theorem sum_combine (h : ℚ) {y a b c d : List ℚ} (ha : a.length = y.length)
    (hb : b.length = y.length) (hc : c.length = y.length) (hd : d.length = y.length) :
    (combine h y a b c d).sum =
      y.sum + h / 6 * (a.sum + 2 * b.sum + 2 * c.sum + d.sum) := by
  induction y generalizing a b c d with
  | nil =>
    obtain rfl := List.length_eq_zero_iff.mp ha
    obtain rfl := List.length_eq_zero_iff.mp hb
    obtain rfl := List.length_eq_zero_iff.mp hc
    obtain rfl := List.length_eq_zero_iff.mp hd
    simp [combine]
  | cons y ys ih =>
    obtain ⟨a, as, rfl⟩ := List.exists_cons_of_length_eq_add_one ha
    obtain ⟨b, bs, rfl⟩ := List.exists_cons_of_length_eq_add_one hb
    obtain ⟨c, cs, rfl⟩ := List.exists_cons_of_length_eq_add_one hc
    obtain ⟨d, ds, rfl⟩ := List.exists_cons_of_length_eq_add_one hd
    simp only [List.length_cons, Nat.add_right_cancel_iff] at ha hb hc hd
    rw [combine, List.sum_cons, ih ha hb hc hd]
    simp only [List.sum_cons]
    norm_num
    ring

/-- The sum of a quantity at the four stages of a step, with the weights of the method. -/
def Stages.weighted (s : Stages ℚ) (g : ℚ × List ℚ → ℚ) : ℚ :=
  g s.first + 2 * g s.second + 2 * g s.third + g s.fourth

/-- What is the sum of the rates, wherever they are taken, is what a step changes the sum by. -/
theorem sum_advance {k : ℚ → List ℚ → List ℚ} {n : Nat}
    (hk : ∀ t y, (k t y).length = n) {g : ℚ × List ℚ → ℚ} (hg : ∀ t y, (k t y).sum = g (t, y))
    (t h : ℚ) {y : List ℚ} (hy : y.length = n) :
    (advance k t h y).sum = y.sum + h / 6 * (stages k t h y).weighted g := by
  have hlength : ∀ t' y', (k t' y').length = y.length := fun t' y' ↦ (hk t' y').trans hy.symm
  rw [advance_eq_combine (fun t y _ ↦ hk t y) t h hy]
  dsimp only
  rw [sum_combine h (hlength _ _) (hlength _ _) (hlength _ _) (hlength _ _), hg, hg, hg, hg]
  rfl

end RungeKutta

namespace Program

/-- A run in exact arithmetic, in which equations have arbitrary values: `flow t y j` is what the
flow `j` carries at a time and a state. It gives the points of the grid, and the stocks there. -/
def exactRun (p : Program) (flow : ℚ → List ℚ → Nat → ℚ) (grid y : List ℚ) :
    Except Empty (List (ℚ × List ℚ)) :=
  RungeKutta.walked (fun t y ↦ p.rates (flow t y)) grid y

end Program

/-- In exact arithmetic, and whatever the equations of an accepted model come to: over each step the
sum of all stocks changes by a sixth of its length times what crosses the border at its four stages,
weighted 1-2-2-1. Where all flows have both ends, the sum of all stocks stays what it was. -/
theorem stocks_change_by_exchange (domain : Domain) (d : Document) (m : Model)
    (h : domain.validate d = .ok m) (flow : ℚ → List ℚ → Nat → ℚ) (grid y : List ℚ)
    (hy : y.length = d.stocks.length) :
    ∃ states, m.program.exactRun flow grid y = .ok states ∧ states.map (·.1) = grid ∧
      (∀ a ∈ states.head?, a.2 = y) ∧
      (states.IsChain fun a b ↦ b.2.sum - a.2.sum = (b.1 - a.1) / 6 *
        (stages (fun t y ↦ m.program.rates (flow t y)) a.1 (b.1 - a.1) a.2).weighted
          fun (t, y) ↦ d.exchange (flow t y)) ∧
      ((∀ f ∈ d.flows, f.source ≠ none ∧ f.target ≠ none) →
        ∀ a ∈ states, a.2.sum = y.sum) := by
  have hacceptable := Domain.acceptable_of_validate h
  obtain ⟨-, -, -, hin, hout⟩ := (Model.runs_of_validate h).1.program_eq
  let k : ℚ → List ℚ → List ℚ := fun t y ↦ m.program.rates (flow t y)
  have hk : ∀ t y, (k t y).length = d.stocks.length := fun t y ↦
    Program.length_rates (hin ▸ length_wiring d _) (hout ▸ length_wiring d _) (flow t y)
  have hstep : ∀ t h y, y.length = d.stocks.length → (advance k t h y).sum =
      y.sum + h / 6 * (stages k t h y).weighted fun (t, y) ↦ d.exchange (flow t y) :=
    fun t h y hy ↦ RungeKutta.sum_advance hk (fun t y ↦ hacceptable.sum_rates hin hout _) t h hy
  have hlength : ∀ a ∈ course k grid y, a.2.length = d.stocks.length :=
    RungeKutta.course_keeps (P := fun y' ↦ y'.length = d.stocks.length)
      (fun t h _ hy' ↦ RungeKutta.length_advance (fun t y _ ↦ hk t y) t h hy') grid hy
  refine ⟨course k grid y, RungeKutta.walked_eq (fun t y _ ↦ hk t y) grid hy,
    RungeKutta.course_fst grid y, ?_, ?_, ?_⟩
  · cases grid with
    | nil => simp [course]
    | cons t grid =>
      obtain ⟨rest, hrest⟩ := RungeKutta.course_cons (k := k) t grid y
      simp [hrest]
  · refine (RungeKutta.course_isChain grid y).imp_of_mem_imp fun a b ha _ hb ↦ ?_
    rw [hb, hstep _ _ _ (hlength a ha)]
    ring
  · intro hclosed a ha
    refine (RungeKutta.course_keeps (P := fun y' ↦ y'.length = d.stocks.length ∧ y'.sum = y.sum)
      ?_ grid ⟨hy, rfl⟩ a ha).2
    rintro t h y' ⟨hy', hsum⟩
    refine ⟨RungeKutta.length_advance (fun t y _ ↦ hk t y) t h hy', ?_⟩
    simp only [hstep t h y' hy', Document.exchange_eq_zero hclosed, RungeKutta.Stages.weighted,
      hsum]
    ring

theorem stocks_change_by_exchange_training :
    ∃ m states, Domain.aerodin.validate training = .ok m ∧
      m.program.exactRun (fun t y _ ↦ t + y.headD 0 / 4) [0, 1 / 2, 1] [8, 4] = .ok states ∧
      ∀ a ∈ states, a.2.sum = 12 := by
  obtain ⟨m, hm⟩ : ∃ m, Domain.aerodin.validate training = .ok m :=
    Except.toBool_eq_true.mp (by decide +kernel)
  obtain ⟨states, hstates, -, -, -, hclosed⟩ := stocks_change_by_exchange .aerodin training m hm
    (fun t y _ ↦ t + y.headD 0 / 4) [0, 1 / 2, 1] [8, 4] rfl
  have hsum : ([8, 4] : List ℚ).sum = 12 := by norm_num
  rw [hsum] at hclosed
  exact ⟨m, states, hm, hstates, hclosed (by decide)⟩

end SystemDynamics
