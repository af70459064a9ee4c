import SystemDynamics.Proofs.Json.Reread
import SystemDynamics.Proofs.Model.Exchange

namespace SystemDynamics

open Json (Reader Field Record Value reread numeral IsClose)

section

variable (f : Float → Float)

def Horizon.mapNumbers (h : Horizon) : Horizon :=
  { h with start := f h.start, stop := f h.stop, step := f h.step }

def Stock.mapNumbers (s : Stock) : Stock :=
  { s with initialValue := s.initialValue.map f }

def Parameter.mapNumbers (p : Parameter) : Parameter :=
  { p with value := p.value.map f }

def Document.mapNumbers (d : Document) : Document :=
  { d with
    stocks := d.stocks.map (Stock.mapNumbers f)
    parameters := d.parameters.map (Parameter.mapNumbers f)
    horizon := d.horizon.map (Horizon.mapNumbers f) }

end

def Horizon.numbers (h : Horizon) : List Float :=
  [h.start, h.stop, h.step]

def Document.numbers (d : Document) : List Float :=
  d.stocks.filterMap (·.initialValue) ++ d.parameters.filterMap (·.value) ++
    d.horizon.toList.flatMap Horizon.numbers

section

variable {α : Type}

@[simp] theorem takes_text {s : String} : Reader.text.Takes (.text s) s := by
  simp [Reader.Takes, Reader.text]

theorem takes_float {x : Float} (hx : x.isFinite) : Reader.float.Takes (.ofFloat x) x := by
  simp [Reader.Takes, Reader.float, Reader.numeric, Value.ofFloat, hx, Json.Number.toFloat]

theorem takes_orNull {r : Reader α} {write : α → Value} {a : Option α}
    (h : ∀ b ∈ a, r.Takes (write b) b) (hne : ∀ b ∈ a, write b ≠ .null) :
    (Reader.optional r).Takes (orNull write a) a := by
  cases a with
  | none => simp [Reader.Takes, orNull, Reader.optional]
  | some b =>
    obtain ⟨hdistinct, hb⟩ := h b rfl
    have hsorted : (write b).sorted ≠ .null := by simpa using hne b rfl
    refine ⟨hdistinct, ?_⟩
    rw [orNull, Option.elim_some, Reader.optional_ofValue r hsorted, hb]
    rfl

theorem takes_map {r : Reader α} {write : α → Value} {as : List α}
    (h : ∀ a ∈ as, r.Takes (write a) a) : (Reader.list r).Takes (.list (as.map write)) as :=
  Reader.takes_list.mpr (List.forall₂_map_left_iff.mpr (List.forall₂_same.mpr h))

inductive Fills (r : Record α) : List String → α → List (String × Value) → α → Prop
  | nil {seen : List String} {a : α} : Fills r seen a [] a
  | field {seen : List String} {β : Type} {name : String} {reader : Reader β} {put : β → α → α}
    {a c : α} {b : β} {v : Value} {es : List (String × Value)}
    (hfield : r.field? name = some (.of name reader put)) (hseen : name ∉ seen)
    (hv : reader.Takes v b) (h : Fills r (name :: seen) (put b a) es c) :
    Fills r seen a ((name, v) :: es) c

namespace Fills

variable {r : Record α} {seen : List String} {a c : α} {es : List (String × Value)}

theorem mono (h : Fills r seen a es c) {seen' : List String} (hseen : seen' ⊆ seen) :
    Fills r seen' a es c := by
  induction h generalizing seen' with
  | nil => exact .nil
  | field hfield hnot hv _ ih =>
    exact .field hfield (fun hmem ↦ hnot (hseen hmem)) hv (ih (List.cons_subset_cons _ hseen))

theorem present {β : Type} {name : String} {reader : Reader β} {put : Option β → α → α}
    {write : β → Value} {o : Option β}
    (hfield : r.field? name = some (.of name reader.optional put)) (hseen : name ∉ seen)
    (hv : reader.optional.Takes (orNull write o) o) (hblank : put none a = a)
    (h : Fills r (name :: seen) (put o a) es c) :
    Fills r seen a (presentField name write o ++ es) c := by
  cases o with
  | none =>
    rw [hblank] at h
    exact h.mono (List.subset_cons_self _ _)
  | some b => exact .field hfield hseen hv h

theorem last {β : Type} {name : String} {reader : Reader β} {put : Option β → α → α}
    {write : β → Value} {o : Option β}
    (hfield : r.field? name = some (.of name reader.optional put)) (hseen : name ∉ seen)
    (hv : reader.optional.Takes (orNull write o) o) (hblank : put none a = a) (hc : put o a = c) :
    Fills r seen a (presentField name write o) c := by
  have h := present hfield hseen hv hblank .nil
  rwa [List.append_nil, hc] at h

theorem distinct (h : Fills r seen a es c) : ∀ e ∈ es, e.2.Distinct := by
  induction h with
  | nil => nofun
  | field _ _ hv _ ih => exact List.forall_mem_cons.mpr ⟨hv.1, ih⟩

theorem fieldsOfValue_eq (h : Fills r seen a es c) (hoptional : ∀ f ∈ r.fields, ¬ f.isRequired) :
    r.fieldsOfValue seen a (es.map fun e ↦ (e.1, e.2.sorted)) = .ok c := by
  induction h with
  | nil =>
    have hnone : ∀ seen : List String, r.fields.find? (fun f ↦ f.isRequired && !seen.contains f.name) =
        none := fun seen ↦ List.find?_eq_none.mpr fun f hf ↦ by simp [hoptional f hf]
    rw [List.map_nil, Record.fieldsOfValue, Record.complete, hnone]
  | @field seen β name reader put a c b v es hfield hnot hv _ ih =>
    rw [List.map_cons, Record.fieldsOfValue, hfield]
    simp only [List.contains_eq_mem, hnot, decide_false, Bool.false_eq_true, if_false]
    have hread : (Field.of name reader put).ofValue v.sorted a = .ok (put b a) := by
      simp [Field.of, hv.2, Except.map]
    rw [hread]
    exact ih

theorem takes (h : Fills r [] r.blank es c) {depth : Nat} (hr : r.Coherent depth)
    (hoptional : ∀ f ∈ r.fields, ¬ f.isRequired) : r.reader.Takes (.object es) c :=
  (Record.takes_object hr).mpr ⟨h.distinct, h.fieldsOfValue_eq hoptional⟩

end Fills

end

theorem takes_orNull_text (o : Option String) :
    Reader.text.optional.Takes (orNull .text o) o :=
  takes_orNull (fun _ _ ↦ takes_text) fun _ _ ↦ nofun

theorem takes_orNull_float {o : Option Float} (h : ∀ x ∈ o, x.isFinite) :
    Reader.float.optional.Takes (orNull .ofFloat o) o :=
  takes_orNull (fun x hx ↦ takes_float (h x hx)) fun x hx ↦ by simp [Value.ofFloat, h x hx]

theorem Stock.takes_toJson {s : Stock} (h : ∀ x ∈ s.initialValue, x.isFinite) :
    Stock.record.reader.Takes s.toJson s := by
  rw [toJson]
  refine Fills.takes ?_ (record_coherent 0) (by simp [record, Field.of])
  refine .field rfl (by simp) takes_text ?_
  refine .field rfl (by simp) takes_text ?_
  refine .field rfl (by simp) (takes_orNull_float h) ?_
  refine .field rfl (by simp) takes_text ?_
  exact .last rfl (by simp) (takes_orNull_text _) rfl rfl

theorem Flow.takes_toJson (f : Flow) : Flow.record.reader.Takes f.toJson f := by
  rw [toJson]
  refine Fills.takes ?_ (record_coherent 0) (by simp [record, Field.of])
  refine .field rfl (by simp) takes_text ?_
  refine .field rfl (by simp) takes_text ?_
  refine .field rfl (by simp) (takes_orNull_text _) ?_
  refine .field rfl (by simp) (takes_orNull_text _) ?_
  refine .field rfl (by simp) takes_text ?_
  refine .field rfl (by simp) takes_text ?_
  exact .last rfl (by simp) (takes_orNull_text _) rfl rfl

theorem Parameter.takes_toJson {p : Parameter} (h : ∀ x ∈ p.value, x.isFinite) :
    Parameter.record.reader.Takes p.toJson p := by
  rw [toJson]
  refine Fills.takes ?_ (record_coherent 0) (by simp [record, Field.of])
  refine .field rfl (by simp) takes_text ?_
  refine .field rfl (by simp) takes_text ?_
  refine .field rfl (by simp) (takes_orNull_float h) ?_
  refine .field rfl (by simp) takes_text ?_
  exact .last rfl (by simp) (takes_orNull_text _) rfl rfl

theorem Auxiliary.takes_toJson (a : Auxiliary) : Auxiliary.record.reader.Takes a.toJson a := by
  rw [toJson]
  refine Fills.takes ?_ (record_coherent 0) (by simp [record, Field.of])
  refine .field rfl (by simp) takes_text ?_
  refine .field rfl (by simp) takes_text ?_
  refine .field rfl (by simp) takes_text ?_
  refine .field rfl (by simp) takes_text ?_
  exact .last rfl (by simp) (takes_orNull_text _) rfl rfl

theorem takes_unit (u : TimeUnit) : TimeUnit.reader.Takes (.text u.name) u := by
  refine ⟨by simp, ?_⟩
  rw [Value.sorted_text]
  cases u <;> rfl

theorem Horizon.takes_toJson {h : Horizon} (hfinite : ∀ x ∈ h.numbers, x.isFinite) :
    Horizon.record.reader.Takes h.toJson h := by
  have hfloat : ∀ x ∈ h.numbers, Reader.float.Takes (.ofFloat x) x := fun x hx ↦
    takes_float (hfinite x hx)
  simp only [numbers, List.forall_mem_cons] at hfloat
  obtain ⟨hstart, hstop, hstep, -⟩ := hfloat
  rw [toJson]
  refine Fills.takes ?_ (record_coherent 0) (by simp [record, Field.of])
  refine .field rfl (by simp) hstart ?_
  refine .field rfl (by simp) hstop ?_
  refine .field rfl (by simp) hstep ?_
  exact .field rfl (by simp) (takes_unit _) .nil

theorem Document.takes_toJson {d : Document} (h : ∀ x ∈ d.numbers, x.isFinite) :
    Document.record.reader.Takes d.toJson d := by
  simp only [numbers, List.forall_mem_append, List.mem_filterMap, List.mem_flatMap] at h
  obtain ⟨⟨hstock, hparameter⟩, hhorizon⟩ := h
  rw [toJson, List.append_assoc]
  refine Fills.takes ?_ (record_coherent 0) (by simp [record, Field.of])
  refine .present rfl (by simp) (takes_orNull_text _) rfl ?_
  refine .field rfl (by simp) takes_text ?_
  refine .field rfl (by simp) takes_text ?_
  refine .field rfl (by simp) (takes_map fun s hs ↦ Stock.takes_toJson fun x hx ↦ ?_) ?_
  · exact hstock x ⟨s, hs, hx⟩
  refine .field rfl (by simp) (takes_map fun f _ ↦ f.takes_toJson) ?_
  refine .field rfl (by simp) (takes_map fun p hp ↦ Parameter.takes_toJson fun x hx ↦ ?_) ?_
  · exact hparameter x ⟨p, hp, hx⟩
  refine .field rfl (by simp) (takes_map fun a _ ↦ a.takes_toJson) ?_
  refine .last rfl (by simp) (takes_orNull (fun t ht ↦ Horizon.takes_toJson fun x hx ↦ ?_) ?_) rfl rfl
  · exact hhorizon x ⟨t, by simpa using ht, hx⟩
  · intro t _ hnull
    cases hnull

section

variable {f : Float → Float}

def onFloats (f : Float → Float) : Json.Number → Json.Number
  | .float x => .float (f x)
  | n => n

theorem mapNumbers_ofFloat {x : Float} (hx : x.isFinite) (hf : (f x).isFinite) :
    (Value.ofFloat x).mapNumbers (onFloats f) = .ofFloat (f x) := by
  rw [Value.ofFloat, Value.ofFloat, if_pos hx, if_pos hf, Value.mapNumbers_number]
  rfl

theorem mapNumbers_orNull_float {o : Option Float} (ho : ∀ x ∈ o, x.isFinite ∧ (f x).isFinite) :
    (orNull .ofFloat o).mapNumbers (onFloats f) = orNull .ofFloat (o.map f) := by
  cases o with
  | none => exact Value.mapNumbers_null
  | some x => exact mapNumbers_ofFloat (ho x rfl).1 (ho x rfl).2

@[simp] theorem mapNumbers_orNull_text (o : Option String) :
    (orNull .text o).mapNumbers (onFloats f) = orNull .text o := by
  cases o <;> simp [orNull]

@[simp] theorem mapNumbers_presentField_text (name : String) (o : Option String) :
    (presentField name .text o).map (fun e ↦ (e.1, e.2.mapNumbers (onFloats f))) =
      presentField name .text o := by
  cases o <;> simp [presentField]

theorem Stock.toJson_mapNumbers {s : Stock}
    (h : ∀ x ∈ s.initialValue, x.isFinite ∧ (f x).isFinite) :
    (s.mapNumbers f).toJson = s.toJson.mapNumbers (onFloats f) := by
  simp [toJson, mapNumbers, mapNumbers_orNull_float h]

theorem Flow.toJson_mapNumbers (w : Flow) : w.toJson.mapNumbers (onFloats f) = w.toJson := by
  simp [toJson]

theorem Parameter.toJson_mapNumbers {p : Parameter}
    (h : ∀ x ∈ p.value, x.isFinite ∧ (f x).isFinite) :
    (p.mapNumbers f).toJson = p.toJson.mapNumbers (onFloats f) := by
  simp [toJson, mapNumbers, mapNumbers_orNull_float h]

theorem Auxiliary.toJson_mapNumbers (a : Auxiliary) :
    a.toJson.mapNumbers (onFloats f) = a.toJson := by
  simp [toJson]

theorem Horizon.toJson_mapNumbers {h : Horizon}
    (hfinite : ∀ x ∈ h.numbers, x.isFinite ∧ (f x).isFinite) :
    (h.mapNumbers f).toJson = h.toJson.mapNumbers (onFloats f) := by
  have hfloat : ∀ x ∈ h.numbers, (Value.ofFloat x).mapNumbers (onFloats f) = .ofFloat (f x) :=
    fun x hx ↦ mapNumbers_ofFloat (hfinite x hx).1 (hfinite x hx).2
  simp only [numbers, List.forall_mem_cons] at hfloat
  obtain ⟨hstart, hstop, hstep, -⟩ := hfloat
  simp [toJson, mapNumbers, hstart, hstop, hstep]

theorem Document.toJson_mapNumbers {d : Document}
    (h : ∀ x ∈ d.numbers, x.isFinite ∧ (f x).isFinite) :
    (d.mapNumbers f).toJson = d.toJson.mapNumbers (onFloats f) := by
  simp only [numbers, List.forall_mem_append, List.mem_filterMap, List.mem_flatMap] at h
  obtain ⟨⟨hstock, hparameter⟩, hhorizon⟩ := h
  have hstocks : ∀ s ∈ d.stocks, (s.mapNumbers f).toJson = s.toJson.mapNumbers (onFloats f) :=
    fun s hs ↦ Stock.toJson_mapNumbers fun x hx ↦ hstock x ⟨s, hs, hx⟩
  have hparameters : ∀ p ∈ d.parameters,
      (p.mapNumbers f).toJson = p.toJson.mapNumbers (onFloats f) :=
    fun p hp ↦ Parameter.toJson_mapNumbers fun x hx ↦ hparameter x ⟨p, hp, hx⟩
  have htime : (presentField "time" Horizon.toJson (d.horizon.map (Horizon.mapNumbers f))) =
      (presentField "time" Horizon.toJson d.horizon).map fun e ↦
        (e.1, e.2.mapNumbers (onFloats f)) := by
    cases ht : d.horizon with
    | none => rfl
    | some t =>
      have := Horizon.toJson_mapNumbers (f := f) (h := t) fun x hx ↦ hhorizon x ⟨t, by simp [ht], hx⟩
      simp [presentField, this]
  simpa [toJson, mapNumbers, htime, Flow.toJson_mapNumbers, Auxiliary.toJson_mapNumbers] using
    ⟨hstocks, hparameters⟩

end

section

variable {n : Json.Number}

theorem mem_numbers_ofFloat {x : Float} :
    n ∈ (Value.ofFloat x).numbers ↔ x.isFinite ∧ n = .float x := by
  rw [Value.ofFloat]
  split <;> simp_all

theorem mem_numbers_orNull_float {o : Option Float} :
    n ∈ (orNull .ofFloat o).numbers ↔ ∃ x ∈ o, x.isFinite ∧ n = .float x := by
  cases o <;> simp [orNull, mem_numbers_ofFloat]

@[simp] theorem numbers_orNull_text (o : Option String) : (orNull .text o).numbers = [] := by
  cases o <;> simp [orNull]

@[simp] theorem numbers_presentField_text (name : String) (o : Option String) :
    (presentField name .text o).flatMap (fun e ↦ e.2.numbers) = [] := by
  cases o <;> simp [presentField]

theorem Stock.mem_numbers_toJson {s : Stock} :
    n ∈ s.toJson.numbers ↔ ∃ x ∈ s.initialValue, x.isFinite ∧ n = .float x := by
  simp [toJson, mem_numbers_orNull_float]

theorem Flow.numbers_toJson (f : Flow) : f.toJson.numbers = [] := by
  simp [toJson]

theorem Parameter.mem_numbers_toJson {p : Parameter} :
    n ∈ p.toJson.numbers ↔ ∃ x ∈ p.value, x.isFinite ∧ n = .float x := by
  simp [toJson, mem_numbers_orNull_float]

theorem Auxiliary.numbers_toJson (a : Auxiliary) : a.toJson.numbers = [] := by
  simp [toJson]

theorem Horizon.mem_numbers_toJson {h : Horizon} :
    n ∈ h.toJson.numbers ↔ ∃ x ∈ h.numbers, x.isFinite ∧ n = .float x := by
  simp [toJson, numbers, mem_numbers_ofFloat]

theorem Document.mem_numbers_toJson {d : Document} (h : n ∈ d.toJson.numbers) :
    ∃ x ∈ d.numbers, x.isFinite ∧ n = .float x := by
  have htime : n ∈ (presentField "time" Horizon.toJson d.horizon).flatMap (fun e ↦ e.2.numbers) →
      ∃ t ∈ d.horizon, n ∈ t.toJson.numbers := by
    cases d.horizon <;> simp [presentField]
  simp only [toJson, Value.numbers_object, List.flatMap_append, numbers_presentField_text,
    List.flatMap_cons, List.mem_append, Value.numbers_list, Value.numbers_text, List.flatMap_map,
    Flow.numbers_toJson, Auxiliary.numbers_toJson, List.flatMap_nil, List.mem_flatMap,
    List.not_mem_nil, false_or, and_false, exists_false, or_false] at h
  simp only [numbers, List.mem_append, List.mem_filterMap, List.mem_flatMap, Option.mem_toList]
  rcases h with (⟨s, hs, hn⟩ | ⟨p, hp, hn⟩) | hn
  · obtain ⟨x, hx, hfinite⟩ := Stock.mem_numbers_toJson.mp hn
    exact ⟨x, .inl (.inl ⟨s, hs, hx⟩), hfinite⟩
  · obtain ⟨x, hx, hfinite⟩ := Parameter.mem_numbers_toJson.mp hn
    exact ⟨x, .inl (.inr ⟨p, hp, hx⟩), hfinite⟩
  · obtain ⟨t, ht, hn⟩ := htime (List.mem_flatMap.mpr hn)
    obtain ⟨x, hx, hfinite⟩ := Horizon.mem_numbers_toJson.mp hn
    exact ⟨x, .inr ⟨t, ht, hx⟩, hfinite⟩

end

section

variable {f : Float → Float}

theorem Document.numbers_mapNumbers (d : Document) : (d.mapNumbers f).numbers = d.numbers.map f := by
  have hhorizon : ∀ h : Horizon, (h.mapNumbers f).numbers = h.numbers.map f := fun _ ↦ rfl
  cases ht : d.horizon <;>
    simp [numbers, mapNumbers, ht, hhorizon, List.filterMap_map, List.map_filterMap,
      Function.comp_def, Stock.mapNumbers, Parameter.mapNumbers]

theorem map_eq_self {α : Type} {g : α → α} {o : Option α} (h : ∀ a ∈ o, g a = a) : o.map g = o := by
  cases o with
  | none => rfl
  | some a => exact congrArg some (h a rfl)

theorem Document.mapNumbers_eq_self {d : Document} :
    d.mapNumbers f = d ↔ ∀ x ∈ d.numbers, f x = x := by
  constructor
  · intro h x hx
    have hnumbers : d.numbers.map f = d.numbers.map id := by
      rw [← numbers_mapNumbers, h, List.map_id]
    exact List.map_inj_left.mp hnumbers x hx
  · intro h
    simp only [numbers, List.forall_mem_append, List.mem_filterMap, List.mem_flatMap] at h
    obtain ⟨⟨hstock, hparameter⟩, hhorizon⟩ := h
    have hstocks : d.stocks.map (Stock.mapNumbers f) = d.stocks.map id :=
      List.map_congr_left fun s hs ↦ by
        rw [Stock.mapNumbers, map_eq_self fun x hx ↦ hstock x ⟨s, hs, hx⟩, id]
    have hparameters : d.parameters.map (Parameter.mapNumbers f) = d.parameters.map id :=
      List.map_congr_left fun p hp ↦ by
        rw [Parameter.mapNumbers, map_eq_self fun x hx ↦ hparameter x ⟨p, hp, hx⟩, id]
    have htime : d.horizon.map (Horizon.mapNumbers f) = d.horizon :=
      map_eq_self fun t ht ↦ by
        have hkept : ∀ x ∈ t.numbers, f x = x := fun x hx ↦ hhorizon x ⟨t, by simpa using ht, hx⟩
        simp only [Horizon.numbers, List.forall_mem_cons] at hkept
        rw [Horizon.mapNumbers, hkept.1, hkept.2.1, hkept.2.2.1]
    rw [mapNumbers, hstocks, hparameters, htime, List.map_id, List.map_id]

/-- A document that is saved and loaded is the document with each number as it is read. -/
theorem Document.ofJson_pretty_eq {d : Document}
    (h : ∀ x ∈ d.numbers, x.isFinite ∧ (f x).isFinite ∧ reread x = some (f x)) :
    ofJson d.pretty = .ok (d.mapNumbers f) := by
  have hread : ∀ n ∈ d.toJson.numbers, n.IsReadAs (onFloats f n) := by
    intro n hn
    obtain ⟨x, hx, hfinite, rfl⟩ := mem_numbers_toJson hn
    exact Json.isReadAs_float hfinite (h x hx).2.2
  have htakes := takes_toJson (d := d.mapNumbers f) (by
    rw [numbers_mapNumbers, List.forall_mem_map]
    exact fun x hx ↦ (h x hx).2.1)
  rw [toJson_mapNumbers fun x hx ↦ ⟨(h x hx).1, (h x hx).2.1⟩] at htakes
  obtain ⟨depth, rest, hspells, hrest⟩ := Value.isTextOf_pretty hread
  have hcoherent := Record.reader_coherent (record_coherent depth)
  exact (Reader.read_eq_ok hcoherent).mpr ⟨_, rest, hspells.mono (by omega), hrest, htakes⟩

end

/-- Written with few digits and a small power of ten: both are doubles themselves. -/
structure IsShort (x : Float) : Prop where
  digits : (numeral x).significand < 2 ^ 53
  power : (numeral x).weight.natAbs ≤ 22

/-- A document that is saved can always be loaded again, and nothing but its numbers can have
changed, each of which is what is read of its own text and at most ten grains away. So the document
is the same just if all of its numbers are, which those written with few digits and a small power of
ten always are. -/
theorem Document.ofJson_pretty (d : Document) (h : ∀ x ∈ d.numbers, x.isFinite) :
    ∃ f : Float → Float,
      (∀ x ∈ d.numbers, reread x = some (f x) ∧ IsClose x (f x) ∧ (IsShort x → f x = x)) ∧
      ofJson d.pretty = .ok (d.mapNumbers f) ∧
      (ofJson d.pretty = .ok d ↔ ∀ x ∈ d.numbers, reread x = some x) := by
  have hreread : ∀ x ∈ d.numbers, reread x = some ((reread x).getD x) ∧
      ((reread x).getD x).isFinite := by
    intro x hx
    obtain ⟨y, hy, hfinite⟩ := Json.exists_reread (h x hx)
    rw [hy]
    exact ⟨rfl, hfinite⟩
  have hloaded := ofJson_pretty_eq fun x hx ↦ ⟨h x hx, (hreread x hx).2, (hreread x hx).1⟩
  refine ⟨_, fun x hx ↦ ⟨(hreread x hx).1, ?_, fun hshort ↦ ?_⟩, hloaded, ?_⟩
  · exact Json.isClose_of_reread (h x hx) (hreread x hx).1
  · rw [Json.reread_of_short (h x hx) hshort.digits hshort.power]
    rfl
  · rw [hloaded, Except.ok.injEq, mapNumbers_eq_self]
    refine forall₂_congr fun x hx ↦ ?_
    conv_rhs => rw [(hreread x hx).1, Option.some_inj]

def Document.savings : Document where
  name := "Savings"
  description := "Two \"quotes\", a \\ and a new\nline."
  stocks := [{ id := "account", name := "Account", initialValue := some 1200.5 }]
  flows := [{ id := "interest", target := some "account", equation := "account * rate" }]
  parameters := [{ id := "rate", value := some 0.0025, description := some "" }]
  horizon := some ⟨0, 12, 0.25, .months⟩

theorem Document.ofJson_pretty_savings :
    (∀ x ∈ savings.numbers, x.isFinite) ∧ ofJson savings.pretty = .ok savings := by
  have hfinite : ∀ x ∈ savings.numbers, x.isFinite := by decide +kernel
  obtain ⟨_, -, -, hkept⟩ := ofJson_pretty savings hfinite
  exact ⟨hfinite, hkept.mpr (by decide +kernel)⟩

/-- A parameter that is written as `3.661062914672376e+232`, which is read as another double. -/
def Document.drifting : String :=
  "\x7b\"parameters\": [\x7b\"id\": \"p\", \"value\": 3.6610629146723756e+232\x7d]\x7d"

theorem Document.drifting_changes :
    ∃ d d', ofJson drifting = .ok d ∧ (∀ x ∈ d.numbers, x.isFinite) ∧
      ofJson d.pretty = .ok d' ∧ d' ≠ d := by
  have hsome : ((ofJson drifting).toOption.bind fun d ↦ (ofJson d.pretty).toOption.map fun d' ↦
      decide ((∀ x ∈ d.numbers, x.isFinite) ∧ d' ≠ d)) = some true := by
    decide +kernel
  obtain ⟨d, hd, hsome⟩ := Option.bind_eq_some_iff.mp hsome
  obtain ⟨d', hd', hsome⟩ := Option.map_eq_some_iff.mp hsome
  rw [Except.toOption_eq_some] at hd hd'
  obtain ⟨hfinite, hne⟩ := of_decide_eq_true hsome
  exact ⟨d, d', hd, hfinite, hd', hne⟩

end SystemDynamics
