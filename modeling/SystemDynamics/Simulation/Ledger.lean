namespace SystemDynamics

structure Ledger where
  rows : Array (Array Float)
  points : Nat

namespace Ledger

def blank (slots points : Nat) : Ledger :=
  ⟨Array.replicate slots (Array.replicate points 0), points⟩

/-- Writes a frame into a column, as far as there are rows for it. -/
def record (l : Ledger) (point : Nat) (frame : Array Float) : Ledger :=
  { l with
    rows := frame.toList.zipIdx.foldl
      (fun rows (x, slot) ↦ rows.modify slot (·.setIfInBounds point x)) l.rows }

def row (l : Ledger) (slot : Nat) : List Float :=
  (l.rows[slot]?).elim [] (·.toList)

end Ledger

end SystemDynamics
