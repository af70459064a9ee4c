import SystemDynamics.Proofs.Outcome
import SystemDynamics.Simulation.Run

namespace SystemDynamics.ByName

open Validation (timeNames)

abbrev Values := String → Float

structure Moment where
  time : Float
  stocks : Values
  computed : Values

variable (d : Document) (overrides : NameMap Float)

def parameter? (name : String) : Option Float := do
  let p ← d.parameter? name
  overrides.find? name <|> p.value

/-- What is known at a time and a state of the stocks before anything is computed. -/
def given? (time : Float) (stocks : Values) (name : String) : Option Float :=
  if timeNames.contains name then some time
  else (d.stock? name).map (fun s ↦ stocks s.id) <|> parameter? d overrides name

/-- The value of an auxiliary or a flow: that of its equation, where names that are not `given` have
values found in the same way. No chain of names is longer than `depth`. -/
def computed? (given : String → Option Float) : (depth : Nat) → (name : String) → Option Float
  | 0, _ => none
  | depth + 1, name => do
    let equation ← d.equations.lookup name
    let scope := fun v ↦ given v <|> computed? given depth v
    (Equation.evaluate scope equation).toOption

def settle (given : String → Option Float) : Option Values :=
  let value := computed? d given d.equations.length
  if d.equations.all fun e ↦ (value e.1).isSome then some fun name ↦ (value name).getD 0
  else none

/-- The values of all auxiliaries and flows at a time and a state of the stocks. -/
def computedAt (time : Float) (stocks : Values) : Option Values :=
  settle d (given? d overrides time stocks)

/-- What fills a stock, less what drains it. -/
def slope (computed : Values) (stock : String) : Float :=
  total ((d.flows.filter (·.target == some stock)).map fun f ↦ computed f.id) -
    total ((d.flows.filter (·.source == some stock)).map fun f ↦ computed f.id)

/-- One step of length `h` by the classical formula, given the slopes at a time and a state. -/
def step (slopes : Float → Values → Option Values) (time h : Float) (y : Values) :
    Option Values := do
  let k1 ← slopes time y
  let k2 ← slopes (time + 0.5 * h) fun s ↦ y s + 0.5 * h * k1 s
  let k3 ← slopes (time + 0.5 * h) fun s ↦ y s + 0.5 * h * k2 s
  let k4 ← slopes (time + h) fun s ↦ y s + h * k3 s
  return fun s ↦ y s + h / 6.0 * (k1 s + 2.0 * k2 s + 2.0 * k3 s + k4 s)

def advance (time h : Float) (y : Values) : Option Values :=
  step (fun time y ↦ (computedAt d overrides time y).map (slope d)) time h y

def runFrom : (grid : List Float) → (stocks : Values) → Option (List Moment)
  | [], _ => some []
  | [t], y => do return [⟨t, y, ← computedAt d overrides t y⟩]
  | t :: next :: grid, y => do
    let computed ← computedAt d overrides t y
    let later ← runFrom (next :: grid) (← advance d overrides t (next - t) y)
    return ⟨t, y, computed⟩ :: later

def initial : Values := fun name ↦
  ((d.stock? name).bind (·.initialValue)).getD 0

/-- The values at all points of the grid, unless an override is not finite or the grid has more
points than `limit`. -/
def run (horizon : Horizon) (limit : Nat) : Option (List Moment) := do
  guard (overrides.values.all Float.isFinite)
  let grid ← (Grid.build horizon.start horizon.stop horizon.step limit).toOption
  runFrom d overrides grid (initial d)

variable {d : Document} {overrides : NameMap Float}

theorem computed?_eq_none {given : String → Option Float} {depth : Nat} {name : String}
    (h : name ∉ d.equations.map (·.1)) : computed? d given depth name = none := by
  cases depth with
  | zero => rfl
  | succ depth =>
    have hlookup : d.equations.lookup name = none := by
      rw [List.lookup_eq_none_iff]
      intro e he
      rw [bne_iff_ne]
      rintro rfl
      exact h (List.mem_map_of_mem he)
    rw [computed?, hlookup]
    rfl

theorem settle_eq_some {given : String → Option Float} {c : Values} :
    settle d given = some c ↔
      (∀ e ∈ d.equations, computed? d given d.equations.length e.1 = some (c e.1)) ∧
      ∀ name ∉ d.equations.map (·.1), c name = 0 := by
  rw [settle]
  constructor
  · intro h
    split at h
    case isTrue hall =>
      obtain rfl := Option.some.inj h
      constructor
      · intro e he
        obtain ⟨x, hx⟩ := Option.isSome_iff_exists.mp (List.all_eq_true.mp hall e he)
        simp [hx]
      · intro name hname
        simp [computed?_eq_none hname]
    case isFalse => simp at h
  · rintro ⟨hvalue, hzero⟩
    have hall : d.equations.all fun e ↦ (computed? d given d.equations.length e.1).isSome := by
      rw [List.all_eq_true]
      intro e he
      simp [hvalue e he]
    rw [if_pos hall, Option.some_inj]
    funext name
    by_cases hname : name ∈ d.equations.map (·.1)
    · obtain ⟨e, he, rfl⟩ := List.mem_map.mp hname
      simp [hvalue e he]
    · simp [computed?_eq_none hname, hzero name hname]

theorem runFrom_cons_eq_some {t : Float} {grid : List Float} {y : Values}
    {moments : List Moment} :
    runFrom d overrides (t :: grid) y = some moments ↔
      ∃ c later, computedAt d overrides t y = some c ∧ moments = ⟨t, y, c⟩ :: later ∧
        match grid with
        | [] => later = []
        | next :: _ => ∃ y', advance d overrides t (next - t) y = some y' ∧
            runFrom d overrides grid y' = some later := by
  cases grid with
  | nil =>
    simp only [runFrom, Option.bind_eq_bind, Option.bind_eq_some_iff, Option.pure_def,
      Option.some_inj]
    constructor
    · rintro ⟨c, hc, rfl⟩
      exact ⟨c, [], hc, rfl, rfl⟩
    · rintro ⟨c, later, hc, rfl, rfl⟩
      exact ⟨c, hc, rfl⟩
  | cons next grid =>
    simp only [runFrom, Option.bind_eq_bind, Option.bind_eq_some_iff, Option.pure_def,
      Option.some_inj]
    constructor
    · rintro ⟨c, hc, y', hy', later, hlater, rfl⟩
      exact ⟨c, later, hc, rfl, y', hy', hlater⟩
    · rintro ⟨c, later, hc, rfl, y', hy', hlater⟩
      exact ⟨c, hc, y', hy', later, hlater, rfl⟩

theorem runFrom_time {grid : List Float} {y : Values} {moments : List Moment}
    (h : runFrom d overrides grid y = some moments) : moments.map (·.time) = grid := by
  induction grid generalizing y moments with
  | nil =>
    obtain rfl := Option.some.inj h
    rfl
  | cons t grid ih =>
    obtain ⟨c, later, -, rfl, hlater⟩ := runFrom_cons_eq_some.mp h
    cases grid with
    | nil =>
      obtain rfl := hlater
      rfl
    | cons next grid =>
      obtain ⟨z, -, hlater⟩ := hlater
      rw [List.map_cons, ih hlater]

theorem runFrom_computed {grid : List Float} {y : Values} {moments : List Moment}
    (h : runFrom d overrides grid y = some moments) :
    ∀ o ∈ moments, computedAt d overrides o.time o.stocks = some o.computed := by
  induction grid generalizing y moments with
  | nil =>
    obtain rfl := Option.some.inj h
    simp
  | cons t grid ih =>
    obtain ⟨c, later, hc, rfl, hlater⟩ := runFrom_cons_eq_some.mp h
    refine List.forall_mem_cons.mpr ⟨hc, ?_⟩
    cases grid with
    | nil =>
      obtain rfl := hlater
      simp
    | cons next grid =>
      obtain ⟨z, -, hlater⟩ := hlater
      exact ih hlater

theorem runFrom_drop {grid : List Float} {y : Values} {moments : List Moment}
    (h : runFrom d overrides grid y = some moments) {i : Nat} {o : Moment}
    (ho : moments[i]? = some o) :
    runFrom d overrides (grid.drop i) o.stocks = some (moments.drop i) := by
  induction grid generalizing y moments i with
  | nil =>
    obtain rfl := Option.some.inj h
    simp at ho
  | cons t grid ih =>
    obtain ⟨c, later, hc, rfl, hlater⟩ := runFrom_cons_eq_some.mp h
    cases i with
    | zero =>
      obtain rfl := Option.some.inj ho
      exact h
    | succ i =>
      rw [List.getElem?_cons_succ] at ho
      cases grid with
      | nil =>
        obtain rfl := hlater
        simp at ho
      | cons next grid =>
        obtain ⟨z, -, hlater⟩ := hlater
        exact ih hlater ho

theorem run_eq_some {horizon : Horizon} {limit : Nat} {moments : List Moment} :
    run d overrides horizon limit = some moments ↔
      overrides.values.all Float.isFinite ∧
      ∃ grid, Grid.build horizon.start horizon.stop horizon.step limit = .ok grid ∧
        runFrom d overrides grid (initial d) = some moments := by
  rw [run, guard]
  split
  case isTrue hall =>
    simp only [hall, true_and, Option.bind_eq_bind, Option.pure_def, Option.bind_some,
      Option.bind_eq_some_iff, Except.toOption_eq_some]
  case isFalse hnot =>
    constructor
    · simp
    · exact fun h ↦ absurd h.1 hnot

end SystemDynamics.ByName
