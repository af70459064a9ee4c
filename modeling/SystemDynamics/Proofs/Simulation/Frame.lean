import SystemDynamics.Proofs.Simulation.Naming
import SystemDynamics.Proofs.Simulation.Program

namespace SystemDynamics

open ByName (Values given?)

structure Frame.Holds (d : Document) (given : String → Option Float) (f : Frame) : Prop where
  size : f.size = (Layout.ofDocument d).size
  time : ∀ name ∈ Validation.timeNames, f[0]? = given name
  declared : ∀ m v, d.nodes[m]? = some v → v.computed? = none → f[m + 1]? = given v.id

variable {d : Document} {given : String → Option Float}

theorem Layout.size_ofDocument (d : Document) :
    (Layout.ofDocument d).size = d.nodes.length + 1 := by
  simp [size, names_ofDocument]

namespace Frame.Holds

variable {f : Frame}

theorem isSome (hf : f.Holds d given) (slot : Nat) (hs : slot < d.nodes.length + 1) :
    ∃ x, f[slot]? = some x := by
  rw [← Layout.size_ofDocument, ← hf.size] at hs
  exact ⟨_, Array.getElem?_eq_getElem hs⟩

theorem set {m : Nat} {v : Variable} {c : Computed} (hf : f.Holds d given)
    (hv : d.nodes[m]? = some v) (hc : v.computed? = some c) (x : Float) :
    Frame.Holds d given (f.setIfInBounds (m + 1) x) where
  size := by rw [Array.size_setIfInBounds, hf.size]
  time name hname := by rw [Array.getElem?_setIfInBounds_ne (by omega), hf.time name hname]
  declared n u hu hn := by
    have hne : m + 1 ≠ n + 1 := by
      intro he
      obtain rfl : m = n := by omega
      obtain rfl := Option.some.inj (hv.symm.trans hu)
      simp [hn] at hc
    rw [Array.getElem?_setIfInBounds_ne hne, hf.declared n u hu hn]

end Frame.Holds

namespace Program

theorem getElem?_foldl_setIfInBounds (xs : List Float) (first : Nat) (f : Frame) (slot : Nat) :
    ((xs.zipIdx first).foldl (fun (f : Frame) (x, s) ↦ f.setIfInBounds s x) f)[slot]? =
      if first ≤ slot ∧ slot < first + xs.length ∧ slot < f.size then xs[slot - first]?
      else f[slot]? := by
  induction xs generalizing first f with
  | nil =>
    rw [if_neg (by simp only [List.length_nil]; omega)]
    rfl
  | cons x xs ih =>
    rw [List.zipIdx_cons, List.foldl_cons, ih, Array.size_setIfInBounds, List.length_cons,
      Array.getElem?_setIfInBounds]
    by_cases hfirst : slot = first
    · subst hfirst
      rw [if_neg (by omega), if_pos rfl]
      by_cases hsize : slot < f.size
      · rw [if_pos hsize, if_pos (by omega), Nat.sub_self]
        rfl
      · rw [if_neg hsize, if_neg (by omega), Array.getElem?_eq_none (by omega)]
    · rw [if_neg (show ¬ first = slot by omega)]
      by_cases hin : first + 1 ≤ slot ∧ slot < first + 1 + xs.length ∧ slot < f.size
      · rw [if_pos hin, if_pos (by omega), show slot - first = slot - (first + 1) + 1 by omega]
        rfl
      · rw [if_neg hin, if_neg (by omega)]

theorem getElem?_load (f : Frame) (time : Float) (stocks : List Float) (slot : Nat) :
    (load f time stocks)[slot]? =
      if slot < stocks.length + 1 ∧ slot < f.size then (time :: stocks)[slot]? else f[slot]? := by
  rw [load, getElem?_foldl_setIfInBounds]
  simp only [Nat.zero_le, true_and, Nat.zero_add, List.length_cons, Nat.sub_zero]

theorem size_load (f : Frame) (time : Float) (stocks : List Float) :
    (load f time stocks).size = f.size := by
  rw [load]
  generalize (time :: stocks).zipIdx = pairs
  induction pairs generalizing f with
  | nil => rfl
  | cons e pairs ih => rw [List.foldl_cons, ih, Array.size_setIfInBounds]

end Program

/-- A frame that an evaluation can start from: it holds the parameters of a run. -/
structure Frame.Ready (d : Document) (overrides : NameMap Float) (f : Frame) : Prop where
  size : f.size = (Layout.ofDocument d).size
  parameters : ∀ j p, d.parameters[j]? = some p →
    f[(Layout.ofDocument d).firstParameter + j]? = some (p.settled overrides)

section

variable {overrides : NameMap Float} {f : Frame} {time : Float} {y : Values}
  (hw : d.WellDeclared)

include hw

theorem Frame.Holds.ready (hf : f.Holds d (given? d overrides time y)) : f.Ready d overrides where
  size := hf.size
  parameters j p hp := by
    have hid : (d.idsOf .parameter)[j]? = some p.id := by simp [Document.idsOf, hp]
    have hv := Document.nodes_getElem?_of_idsOf hid
    have hslot : (Layout.ofDocument d).firstParameter + j = d.firstRank .parameter + j + 1 := by
      simp only [Layout.firstParameter, Layout.firstStock, Layout.ofDocument, List.length_map,
        Document.firstRank]
      omega
    rw [hslot, hf.declared _ _ hv rfl,
      Document.given?_parameter overrides time y hw (List.mem_of_getElem? hp)]

theorem Frame.Ready.load (hf : f.Ready d overrides) :
    Frame.Holds d (given? d overrides time y)
      (Program.load f time ((d.idsOf .stock).map y)) where
  size := by rw [Program.size_load, hf.size]
  time name hname := by
    have hsize : 0 < f.size := by
      rw [hf.size, Layout.size_ofDocument]
      omega
    rw [Document.given?_time overrides time y hname, Program.getElem?_load, if_pos (by omega)]
    rfl
  declared m v hv hvc := by
    have hm := (List.getElem?_eq_some_iff.mp hv).1
    have hsize : m + 1 < f.size := by
      rw [hf.size, Layout.size_ofDocument]
      omega
    obtain ⟨hid, hrank⟩ := Document.nodes_getElem?_eq_some hv
    obtain ⟨id, kind, i⟩ := v
    rw [Program.getElem?_load, List.length_map, Document.idsOf, List.length_map]
    cases kind <;> simp only [Variable.computed?, reduceCtorEq] at hvc
    case stock =>
      simp only [Document.idsOf, Document.firstRank, List.getElem?_map, Option.map_eq_some_iff]
        at hid hrank
      obtain ⟨s, hs, rfl⟩ := hid
      have hi := (List.getElem?_eq_some_iff.mp hs).1
      rw [if_pos (by omega), List.getElem?_cons_succ, List.getElem?_map, List.getElem?_map,
        show m = i by omega, hs]
      exact (Document.given?_stock overrides time y hw (List.mem_of_getElem? hs)).symm
    case parameter =>
      simp only [Document.idsOf, Document.firstRank, List.getElem?_map, Option.map_eq_some_iff]
        at hid hrank
      obtain ⟨p, hp, rfl⟩ := hid
      have hslot : m + 1 = (Layout.ofDocument d).firstParameter + i := by
        simp only [Layout.firstParameter, Layout.firstStock, Layout.ofDocument, List.length_map]
        omega
      rw [if_neg (by omega), hslot, hf.parameters i p hp]
      exact (Document.given?_parameter overrides time y hw (List.mem_of_getElem? hp)).symm

end

end SystemDynamics
