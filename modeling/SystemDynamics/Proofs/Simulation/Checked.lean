import SystemDynamics.Simulation.Run

namespace SystemDynamics

/-- Why a checked run stops: as a run fails, or because an index is out of range. -/
inductive Stop where
  | failed (e : RunError)
  | outOfRange

/-- The errors that a run may end in: an override or a grid is refused, or the value of an equation
is undefined. -/
def RunError.IsExpected : RunError → Prop
  | evaluation _ _ _ fault => ∃ cause, fault = .undefined cause
  | gridTooLarge _ _ | invalidOverride _ => True

namespace Checked

variable {α : Type}

def item : Option α → Except Stop α
  | some a => .ok a
  | none => .error .outOfRange

def inRange (p : Prop) [Decidable p] : Except Stop Unit :=
  if p then .ok () else .error .outOfRange

def put (f : Frame) (slot : Nat) (x : Float) : Except Stop Frame :=
  if h : slot < f.size then .ok (f.set slot x) else .error .outOfRange

/-- Writes numbers over the slots from `first` to `last`, which must be as many. -/
def copy (f : Frame) (first last : Nat) (xs : List Float) : Except Stop Frame := do
  inRange (first ≤ last ∧ last ≤ f.size ∧ xs.length = last - first)
  return (xs.zipIdx first).foldl (fun f (x, slot) ↦ f.setIfInBounds slot x) f

/-- The numbers in the slots from `first` to `last`. -/
def slice (f : Frame) (first last : Nat) : Except Stop (List Float) := do
  inRange (first ≤ last ∧ last ≤ f.size)
  return (f.toList.take last).drop first

section

variable (p : Program)

def frame (parameters : List Float) : Except Stop Frame := do
  let f := Array.replicate p.layout.size 0
  let f ← copy f Layout.firstStock p.layout.firstParameter p.initialStocks
  copy f p.layout.firstParameter p.layout.firstAuxiliary parameters

def load (f : Frame) (time : Float) (stocks : List Float) : Except Stop Frame := do
  let f ← put f 0 time
  copy f Layout.firstStock p.layout.firstParameter stocks

def rates (f : Frame) (count : Nat) : Except Stop (List Float) := do
  let flows ← slice f p.layout.firstFlow p.layout.size
  (List.range count).mapM fun i ↦ do
    let inflows ← item p.inflows[i]?
    let gains ← inflows.mapM fun j ↦ item flows[j]?
    let outflows ← item p.outflows[i]?
    let losses ← outflows.mapM fun j ↦ item flows[j]?
    return total gains - total losses

end

/-- Writes a frame into a column, in the rows that there are slots for. -/
def record (l : Ledger) (point : Nat) (f : Frame) : Except Stop Ledger := do
  inRange (∀ row ∈ l.rows.toList.take f.size, point < row.size)
  return l.record point f

def series (layout : Layout) (l : Ledger) (first last : Nat) :
    Except Stop (NameMap (List Float)) := do
  let rows ← (List.range' first (last - first)).mapM fun slot ↦ do
    let name ← item layout.names[slot]?
    let row ← item l.rows[slot]?
    return (name, row.toList)
  return .ofList rows

def trajectory (layout : Layout) (l : Ledger) (settings : RunSettings) :
    Except Stop Trajectory := do
  let stocks ← series layout l Layout.firstStock layout.firstParameter
  let flows ← series layout l layout.firstFlow layout.size
  let auxiliaries ← series layout l layout.firstAuxiliary layout.firstFlow
  let time ← item l.rows[0]?
  return ⟨time.toList, stocks, flows, auxiliaries, settings⟩

variable (m : Model)

def place? (id : String) : Option Nat :=
  m.document.parameters.findIdx? (·.id == id)

def resolve (overrides : NameMap Float) : Except Stop (List Float) := do
  inRange (∀ id ∈ overrides.names, ∀ i ∈ place? m id, i < m.program.parameters.length)
  (m.resolve overrides).mapError .failed

def failure (time : Float) (i : Instruction) (fault : Equation.Fault) : Except Stop RunError := do
  let (_, equation) ← item (m.document.equation? i.owner)
  let owner ← item m.program.layout.names[i.slot]?
  return .evaluation owner equation time fault

def execute (time : Float) (f : Frame) (i : Instruction) : Except Stop Frame :=
  match i.term.eval spellSlot (f[·]?) with
  | .ok x => put f i.slot x
  | .error (.missingArgument _) => .error .outOfRange
  | .error fault => do .error (.failed (← failure m time i fault))

def evaluate (f : Frame) (time : Float) (stocks : List Float) : Except Stop Frame := do
  let f ← load m.program f time stocks
  m.program.instructions.foldlM (execute m time) f

def rate : MachineRate Frame Float Stop := fun f time stocks buffer ↦
  match evaluate m f time stocks with
  | .error e => (f, buffer, some e)
  | .ok f =>
    match rates m.program f buffer.length with
    | .error e => (f, buffer, some e)
    | .ok rates => (f, rates, none)

/-- A step reads a rate for every stock in each of the four buffers. -/
def step (s : RungeKutta Float) (f : Frame) (t h : Float) (stocks : List Float) :
    Except Stop (Frame × RungeKutta Float × List Float) := do
  let (f, s, stepped) := s.stepWith (rate m) f t h stocks
  let stepped ← stepped
  inRange (∀ k ∈ [s.k1, s.k2, s.k3, s.k4], stocks.length ≤ k.length)
  return (f, s, stepped)

def recordFrom : (grid : List Float) → (point : Nat) → (stocks : List Float) → Frame →
    RungeKutta Float → Ledger → Except Stop Ledger
  | [], _, _, _, _, l => .ok l
  | [t], point, stocks, f, _, l => do
    let f ← evaluate m f t stocks
    record l point f
  | t :: next :: grid, point, stocks, f, s, l => do
    let f ← evaluate m f t stocks
    let l ← record l point f
    let (f, s, stocks) ← step m s f t (next - t) stocks
    recordFrom (next :: grid) (point + 1) stocks f s l

def simulate (overrides : NameMap Float) (limit : Nat) : Except Stop Trajectory := do
  let parameters ← resolve m overrides
  let grid ← (Grid.build m.horizon.start m.horizon.stop m.horizon.step limit).mapError
    fun points ↦ .failed (.gridTooLarge points limit)
  let f ← frame m.program parameters
  let stocks := m.program.initialStocks
  let l ← recordFrom m grid 0 stocks f (.ofDimension stocks.length)
    (.blank m.program.layout.size grid.length)
  trajectory m.program.layout l (m.settings parameters)

end Checked

end SystemDynamics
