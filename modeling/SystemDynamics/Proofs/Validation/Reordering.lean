import SystemDynamics.Proofs.Validation.Rules

namespace SystemDynamics

open Relation (TransGen)

/-- The declarations of another document in a new order. Flows keep their places: the rates of the
stocks are summed in the order of the flows. -/
structure Document.Reordered (d d' : Document) : Prop where
  company : d'.company = d.company
  name : d'.name = d.name
  description : d'.description = d.description
  stocks : d'.stocks.Perm d.stocks
  flows : d'.flows = d.flows
  parameters : d'.parameters.Perm d.parameters
  auxiliaries : d'.auxiliaries.Perm d.auxiliaries
  horizon : d'.horizon = d.horizon

namespace Document.Reordered

variable {d d' : Document}

theorem symm (h : d.Reordered d') : d'.Reordered d where
  company := h.company.symm
  name := h.name.symm
  description := h.description.symm
  stocks := h.stocks.symm
  flows := h.flows.symm
  parameters := h.parameters.symm
  auxiliaries := h.auxiliaries.symm
  horizon := h.horizon.symm

theorem headings_perm (h : d.Reordered d') : d'.headings.Perm d.headings := by
  rw [headings, headings, h.flows]
  exact (((h.stocks.map _).append_right _).append (h.parameters.map _)).append
    (h.auxiliaries.map _)

theorem ids_perm (h : d.Reordered d') : d'.ids.Perm d.ids := by
  rw [ids, ids, declared_eq, declared_eq]
  exact (h.headings_perm.map _).map _

theorem equations_perm (h : d.Reordered d') : d'.equations.Perm d.equations := by
  rw [equations, equations, h.flows]
  exact (h.auxiliaries.map _).append_left _

theorem reads_eq (h : d.Reordered d') : d'.Reads = d.Reads := by
  funext reader read
  simp only [Reads, h.equations_perm.mem_iff, h.ids_perm.mem_iff]

theorem acceptable {w : World} (h : d.Reordered d') (hd : d.Acceptable w) : d'.Acceptable w where
  company := h.company ▸ hd.company
  name := h.name ▸ hd.name
  description := h.description ▸ hd.description
  stockCount := h.stocks.length_eq ▸ hd.stockCount
  flowCount := h.flows ▸ hd.flowCount
  parameterCount := h.parameters.length_eq ▸ hd.parameterCount
  auxiliaryCount := h.auxiliaries.length_eq ▸ hd.auxiliaryCount
  headings heading hmem := hd.headings heading (h.headings_perm.mem_iff.mp hmem)
  ids_nodup := h.ids_perm.nodup_iff.mpr hd.ids_nodup
  initialValue s hs := hd.initialValue s (h.stocks.mem_iff.mp hs)
  value p hp := hd.value p (h.parameters.mem_iff.mp hp)
  flows f hf := by
    obtain ⟨hends, hapart, hdeclared, hallowed, hvia⟩ := hd.flows f (h.flows ▸ hf)
    refine ⟨hends, hapart, fun s hs ↦ ?_, hallowed, hvia⟩
    exact (h.stocks.map _).mem_iff.mpr (hdeclared s hs)
  equations e he := by
    obtain ⟨hwritten, hlength, ⟨t, ht, hnames⟩, hallowed⟩ :=
      hd.equations e (h.equations_perm.mem_iff.mp he)
    refine ⟨hwritten, hlength, ⟨t, ht, fun v hv ↦ ?_⟩, hallowed⟩
    exact (hnames v hv).imp_left h.ids_perm.mem_iff.mpr
  requirements := by
    rw [h.reads_eq, h.flows]
    exact hd.requirements
  acyclic := h.reads_eq ▸ hd.acyclic
  horizon := h.horizon ▸ hd.horizon

theorem wellDeclared (h : d.Reordered d') (hw : d.WellDeclared) : d'.WellDeclared where
  ids_nodup := h.ids_perm.nodup_iff.mpr hw.ids_nodup
  unreserved id hid := hw.unreserved id (h.ids_perm.mem_iff.mp hid)
  initialValue s hs := hw.initialValue s (h.stocks.mem_iff.mp hs)
  value p hp := hw.value p (h.parameters.mem_iff.mp hp)

end Document.Reordered

end SystemDynamics
