import SystemDynamics.Json.Record
import SystemDynamics.Proofs.Json.Reader
import Mathlib.Data.List.Pairwise

namespace SystemDynamics.Json

variable {α β γ : Type}

namespace Field

def Coherent (depth : Nat) (f : Field α) : Prop :=
  ∀ ⦃t rest a b⦄, f.ofText t a = .ok (b, rest) ↔
    ∃ v, Spells depth t v rest ∧ v.Distinct ∧ f.ofValue v.sorted a = .ok b

def Commutes (f g : Field α) : Prop :=
  ∀ v w a b, (f.ofValue v a >>= g.ofValue w) = .ok b ↔ (g.ofValue w a >>= f.ofValue v) = .ok b

instance commutesSymm : Std.Symm (@Commutes α) where
  symm _ _ h v w a b := (h w v a b).symm

theorem of_coherent (name : String) {r : Reader β} (put : β → α → α) {depth : Nat}
    (hr : r.Coherent depth) : (Field.of name r put).Coherent depth := by
  intro t rest a b
  simp only [Field.of, Except.map_eq_ok, Prod.mk.injEq, Prod.exists]
  constructor
  · rintro ⟨x, _, hx, rfl, rfl⟩
    obtain ⟨v, hv, hdistinct, hx⟩ := hr.mp hx
    exact ⟨v, hv, hdistinct, x, hx, rfl⟩
  · rintro ⟨v, hv, hdistinct, x, hx, rfl⟩
    exact ⟨x, rest, hr.mpr ⟨v, hv, hdistinct, hx⟩, rfl, rfl⟩

theorem of_commutes {name name' : String} {r : Reader β} {r' : Reader γ} {put : β → α → α}
    {put' : γ → α → α} (h : ∀ x y a, put' y (put x a) = put x (put' y a)) :
    (Field.of name r put).Commutes (Field.of name' r' put') := by
  intro v w a b
  simp only [Field.of, Except.bind_eq_ok, Except.map_eq_ok]
  constructor
  · rintro ⟨_, ⟨x, hx, rfl⟩, y, hy, rfl⟩
    exact ⟨_, ⟨y, hy, rfl⟩, x, hx, (h x y a).symm⟩
  · rintro ⟨_, ⟨y, hy, rfl⟩, x, hx, rfl⟩
    exact ⟨_, ⟨x, hx, rfl⟩, y, hy, h x y a⟩

end Field

namespace Record

structure Coherent (depth : Nat) (r : Record α) : Prop where
  closed : r.isClosed = true
  fields : ∀ f ∈ r.fields, f.Coherent depth
  commutes : r.fields.Pairwise Field.Commutes

section

variable {r : Record α}

theorem of_field? {name : String} {f : Field α} (h : r.field? name = some f) :
    f ∈ r.fields ∧ f.name = name := by
  have hname := List.find?_some h
  exact ⟨List.mem_of_find?_eq_some h, by simpa using hname⟩

theorem Coherent.commutes_of_ne {depth : Nat} (h : r.Coherent depth) {name name' : String}
    {f g : Field α} (hf : r.field? name = some f) (hg : r.field? name' = some g)
    (hne : name ≠ name') : f.Commutes g := by
  obtain ⟨hf₁, rfl⟩ := of_field? hf
  obtain ⟨hg₁, rfl⟩ := of_field? hg
  exact h.commutes.forall hf₁ hg₁ fun he ↦ hne (congrArg Field.name he)

theorem complete_congr {seen seen' : List String} (h : ∀ name, name ∈ seen ↔ name ∈ seen') (a : α) :
    r.complete seen a = r.complete seen' a := by
  have hseen : ∀ name, seen.contains name = seen'.contains name := by simp [h]
  simp only [complete, hseen]

theorem fieldsOfValue_congr {seen seen' : List String} (h : ∀ name, name ∈ seen ↔ name ∈ seen')
    (a : α) (es : List (String × Value)) : r.fieldsOfValue seen a es = r.fieldsOfValue seen' a es := by
  induction es generalizing seen seen' a with
  | nil => exact complete_congr h a
  | cons e es ih =>
    obtain ⟨name, v⟩ := e
    have hcons : ∀ name', name' ∈ name :: seen ↔ name' ∈ name :: seen' := by simp [h]
    have hseen : seen.contains name = seen'.contains name := by simp [h]
    simp only [fieldsOfValue, hseen, ih hcons, ih h]

theorem fieldsOfValue_cons_eq_ok (hclosed : r.isClosed = true) {seen : List String} {a b : α}
    {e : String × Value} {es : List (String × Value)} :
    r.fieldsOfValue seen a (e :: es) = .ok b ↔ ∃ f a', r.field? e.1 = some f ∧ e.1 ∉ seen ∧
      f.ofValue e.2 a = .ok a' ∧ r.fieldsOfValue (e.1 :: seen) a' es = .ok b := by
  rw [fieldsOfValue]
  split
  case h_2 hfield => simp [hclosed, hfield, unknown]
  case h_1 f hfield =>
    split
    case isTrue hseen => simp_all
    case isFalse hseen => simp_all [Except.bind_eq_ok]

theorem names_of_fieldsOfValue (hclosed : r.isClosed = true) {seen : List String} {a b : α}
    {es : List (String × Value)} (h : r.fieldsOfValue seen a es = .ok b) :
    (es.map (·.1)).Nodup ∧ ∀ e ∈ es, e.1 ∉ seen := by
  induction es generalizing seen a with
  | nil => simp
  | cons e es ih =>
    obtain ⟨f, a', -, hseen, -, h⟩ := (fieldsOfValue_cons_eq_ok hclosed).mp h
    obtain ⟨hnodup, hes⟩ := ih h
    rw [List.map_cons, List.nodup_cons, List.forall_mem_cons]
    refine ⟨⟨?_, hnodup⟩, hseen, fun e' he' ↦ fun hmem ↦ hes e' he' (List.mem_cons_of_mem _ hmem)⟩
    intro hmem
    obtain ⟨e', he', hname⟩ := List.mem_map.mp hmem
    exact hes e' he' (hname ▸ List.mem_cons_self)

theorem leftOut_congr {a b : α} {n n' : Nat} {fs : List (Field α)} :
    r.leftOut a n fs = .ok b ↔ r.leftOut a n' fs = .ok b := by
  induction fs generalizing n n' with
  | nil => exact Iff.rfl
  | cons f fs ih =>
    rw [leftOut, leftOut]
    split
    case isTrue => simp
    case isFalse => exact ih

theorem itemsOfValue_congr {a b : α} {n : Nat} (m : Nat) {fs : List (Field α)}
    {vs : List Value} : r.itemsOfValue n fs a vs = .ok b ↔ r.itemsOfValue m fs a vs = .ok b := by
  induction vs generalizing fs a with
  | nil =>
    cases fs with
    | nil => exact Iff.rfl
    | cons f fs => exact leftOut_congr
  | cons v vs ih =>
    cases fs with
    | nil => simp [itemsOfValue]
    | cons f fs => simp only [itemsOfValue, Except.bind_eq_ok, ih]

theorem itemsOfText_eq_ok {depth read : Nat} (length : Nat) {fs : List (Field α)}
    (hfs : ∀ f ∈ fs, f.Coherent depth) {a b : α} {t rest : Text} :
    r.itemsOfText read fs a t = .ok (b, rest) ↔
      ∃ vs, Listed (Spells depth) ']' (read == 0) t vs rest ∧ (∀ v ∈ vs, v.Distinct) ∧
        r.itemsOfValue length fs a (vs.map Value.sorted) = .ok b := by
  induction fs generalizing read a t with
  | nil =>
    simp only [itemsOfText, Except.bind_eq_ok, Except.pure_eq_ok, Prod.mk.injEq,
      Reader.closeList_eq_ok]
    constructor
    · rintro ⟨_, ht, rfl, rfl⟩
      exact ⟨[], .done ht, by simp, rfl⟩
    · rintro ⟨_ | ⟨v, vs⟩, hvs, -, h⟩
      · exact ⟨rest, listed_nil.mp hvs, by simpa [itemsOfValue] using h, rfl⟩
      · simp [itemsOfValue] at h
  | cons f fs ih =>
    have hS := isItem_spells depth
    obtain ⟨hf, hfs⟩ := List.forall_mem_cons.mp hfs
    rw [itemsOfText]
    constructor
    · intro h
      obtain ⟨_ | t', hnext, h⟩ := Except.bind_eq_ok.mp h
      case none =>
        obtain ⟨_, hb, h⟩ := Except.bind_eq_ok.mp h
        obtain ⟨_, hclose, h⟩ := Except.bind_eq_ok.mp h
        obtain ⟨rfl, rfl⟩ := by simpa [Except.pure_eq_ok] using h
        exact ⟨[], .done (Reader.closeList_eq_ok.mp hclose), by simp, leftOut_congr.mp hb⟩
      case some =>
        obtain ⟨t₀, c, u, hreach, ht₀, hc, rfl⟩ := Reader.nextItem_eq_some.mp hnext
        obtain ⟨⟨a', t₁⟩, ha', h⟩ := Except.bind_eq_ok.mp h
        rw [← ht₀] at ha'
        obtain ⟨v, hv, hdistinct, ha'⟩ := hf.mp ha'
        obtain ⟨vs, hvs, hdistincts, h⟩ := (ih hfs).mp h
        refine ⟨v :: vs, .item hreach (hS.blank.mp hv) hvs,
          List.forall_mem_cons.mpr ⟨hdistinct, hdistincts⟩, ?_⟩
        rw [List.map_cons, itemsOfValue, ha', Except.ok_bind]
        exact h
    · rintro ⟨_ | ⟨v, vs⟩, hvs, hdistinct, h⟩
      · have ht := listed_nil.mp hvs
        rw [Reader.nextItem_eq_none.mpr ⟨rest, ht⟩, Except.ok_bind]
        simp only [leftOut_congr.mp h, Reader.closeList_eq_ok.mpr ht, Except.ok_bind]
        rfl
      · obtain ⟨t₀, t₁, hreach, hv, hvs⟩ := listed_cons.mp hvs
        obtain ⟨hdistinct, hdistincts⟩ := List.forall_mem_cons.mp hdistinct
        rw [List.map_cons, itemsOfValue] at h
        obtain ⟨a', ha', h⟩ := Except.bind_eq_ok.mp h
        obtain ⟨c, u, ht₀, hc, -⟩ := hS.head hv
        have ha' := hf.mpr ⟨v, hS.blank.mpr hv, hdistinct, ha'⟩
        rw [Reader.nextItem_eq_some.mpr ⟨t₀, c, u, hreach, ht₀, hc, rfl⟩, Except.ok_bind]
        simp only [← ht₀, ha', Except.ok_bind]
        exact (ih hfs).mpr ⟨vs, hvs, hdistincts, h⟩

theorem takes_list {vs : List Value} {a : α} (length : Nat) : r.reader.Takes (.list vs) a ↔
    (∀ v ∈ vs, v.Distinct) ∧
      r.itemsOfValue length r.fields r.blank (vs.map Value.sorted) = .ok a := by
  simp only [Reader.Takes, reader, Value.distinct_list, Value.sorted_list,
    itemsOfValue_congr length]

end

section

variable {r : Record α} {depth : Nat} (hr : r.Coherent depth)

include hr

theorem fieldsOfValue_perm {seen : List String} {a b : α} {es es' : List (String × Value)}
    (hperm : es.Perm es') :
    r.fieldsOfValue seen a es = .ok b ↔ r.fieldsOfValue seen a es' = .ok b := by
  have hswap : ∀ {seen a b e e' es}, r.fieldsOfValue seen a (e :: e' :: es) = .ok b →
      r.fieldsOfValue seen a (e' :: e :: es) = .ok b := by
    intro seen a b e e' es h
    obtain ⟨f, a₁, hf, hseen, ha₁, h⟩ := (fieldsOfValue_cons_eq_ok hr.closed).mp h
    obtain ⟨g, a₂, hg, hseen', ha₂, h⟩ := (fieldsOfValue_cons_eq_ok hr.closed).mp h
    rw [List.mem_cons, not_or] at hseen'
    have hcommutes := hr.commutes_of_ne hf hg (Ne.symm hseen'.1) e.2 e'.2 a a₂
    obtain ⟨a₃, ha₃, ha₂⟩ :=
      Except.bind_eq_ok.mp (hcommutes.mp (Except.bind_eq_ok.mpr ⟨a₁, ha₁, ha₂⟩))
    refine (fieldsOfValue_cons_eq_ok hr.closed).mpr ⟨g, a₃, hg, hseen'.2, ha₃, ?_⟩
    refine (fieldsOfValue_cons_eq_ok hr.closed).mpr ⟨f, a₂, hf, ?_, ha₂, ?_⟩
    · rw [List.mem_cons, not_or]
      exact ⟨Ne.symm hseen'.1, hseen⟩
    · rw [← h]
      refine fieldsOfValue_congr (fun name ↦ ?_) a₂ es
      simp only [List.mem_cons, or_left_comm]
  induction hperm generalizing seen a with
  | nil => exact Iff.rfl
  | cons e _ ih => simp only [fieldsOfValue_cons_eq_ok hr.closed, ih]
  | swap e e' es => exact ⟨hswap, hswap⟩
  | trans _ _ ih ih' => exact ih.trans ih'

theorem fieldsOfText_succ_eq_ok {fuel : Nat} {isFirst : Bool} {seen : List String} {a b : α}
    {t rest : Text} : r.fieldsOfText (fuel + 1) isFirst seen a t = .ok (b, rest) ↔
      (r.complete seen a = .ok b ∧ skipBlank t = '\x7d' :: rest) ∨
        ∃ t₀ t₁ e f a', Reaches isFirst t t₀ ∧ Named (Spells depth) t₀ e t₁ ∧ e.2.Distinct ∧
          r.field? e.1 = some f ∧ e.1 ∉ seen ∧ f.ofValue e.2.sorted a = .ok a' ∧
            r.fieldsOfText fuel false (e.1 :: seen) a' t₁ = .ok (b, rest) := by
  rw [fieldsOfText]
  constructor
  · intro h
    obtain ⟨_ | ⟨name, t₂⟩, hnext, h⟩ := Except.bind_eq_ok.mp h
    case none =>
      obtain ⟨_, hb, h⟩ := Except.bind_eq_ok.mp h
      obtain ⟨_, hclose, h⟩ := Except.bind_eq_ok.mp h
      obtain ⟨rfl, rfl⟩ := by simpa [Except.pure_eq_ok] using h
      exact .inl ⟨hb, Reader.closeObject_eq_ok.mp hclose⟩
    case some =>
      obtain ⟨t₀, t₁, hreach, ht₀, hname⟩ := Reader.nextName_eq_some.mp hnext
      simp only at h
      split at h
      case h_2 => simp [hr.closed, unknown] at h
      case h_1 f hf =>
        split at h
        case isTrue => simp at h
        case isFalse hseen =>
          obtain ⟨t₃, hcolon, h⟩ := Except.bind_eq_ok.mp h
          obtain ⟨⟨a', t₄⟩, ha', h⟩ := Except.bind_eq_ok.mp h
          obtain ⟨v, hv, hdistinct, ha'⟩ := (hr.fields f (of_field? hf).1).mp ha'
          rw [Reader.skipColon_eq_ok] at hcolon
          exact .inr ⟨t₀, t₄, (name, v), f, a', hreach, ⟨t₁, t₂, t₃, ht₀, hname, hcolon, hv⟩,
            hdistinct, hf, by simpa using hseen, ha', h⟩
  · rintro (⟨hb, ht⟩ | ⟨t₀, t₄, ⟨name, v⟩, f, a', hreach, ⟨t₁, t₂, t₃, ht₀, hname, hcolon, hv⟩,
      hdistinct, hf, hseen, ha', h⟩)
    · rw [Reader.nextName_eq_none.mpr ⟨rest, ht⟩, Except.ok_bind]
      simp only [hb, Reader.closeObject_eq_ok.mpr ht, Except.ok_bind]
      rfl
    · have ha' := (hr.fields f (of_field? hf).1).mpr ⟨v, hv, hdistinct, ha'⟩
      rw [Reader.nextName_eq_some.mpr ⟨t₀, t₁, hreach, ht₀, hname⟩, Except.ok_bind]
      simpa [hf, hseen, Reader.skipColon_eq_ok.mpr hcolon, Except.ok_bind, ha'] using h

theorem fieldsOfText_eq_ok {fuel : Nat} {isFirst : Bool} {seen : List String} {a b : α}
    {t rest : Text} (hfuel : t.length < fuel) :
    r.fieldsOfText fuel isFirst seen a t = .ok (b, rest) ↔
      ∃ fs, Listed (Named (Spells depth)) '\x7d' isFirst t fs rest ∧ (∀ f ∈ fs, f.2.Distinct) ∧
        r.fieldsOfValue seen a (fs.map fun f ↦ (f.1, f.2.sorted)) = .ok b := by
  have hS := (isItem_spells depth).named
  induction fuel generalizing isFirst seen a t with
  | zero => exact absurd hfuel (Nat.not_lt_zero _)
  | succ fuel ih =>
    have hlater : ∀ {t₀ t₁ e}, Reaches isFirst t t₀ → Named (Spells depth) t₀ e t₁ →
        t₁.length < fuel :=
      fun hreach he ↦ Nat.lt_of_lt_of_le (hS.length he)
        (hreach.length.trans (Nat.le_of_lt_succ hfuel))
    rw [fieldsOfText_succ_eq_ok hr]
    constructor
    · rintro (⟨hb, ht⟩ | ⟨t₀, t₁, e, f, a', hreach, he, hdistinct, hf, hseen, ha', h⟩)
      · exact ⟨[], .done ht, by simp, hb⟩
      · obtain ⟨es, hes, hdistincts, h⟩ := (ih (hlater hreach he)).mp h
        refine ⟨e :: es, .item hreach he hes, List.forall_mem_cons.mpr ⟨hdistinct, hdistincts⟩, ?_⟩
        exact (fieldsOfValue_cons_eq_ok hr.closed).mpr ⟨f, a', hf, hseen, ha', h⟩
    · rintro ⟨_ | ⟨e, es⟩, hes, hdistinct, h⟩
      · exact .inl ⟨h, listed_nil.mp hes⟩
      · obtain ⟨t₀, t₁, hreach, he, hes⟩ := listed_cons.mp hes
        obtain ⟨hdistinct, hdistincts⟩ := List.forall_mem_cons.mp hdistinct
        obtain ⟨f, a', hf, hseen, ha', h⟩ := (fieldsOfValue_cons_eq_ok hr.closed).mp h
        exact .inr ⟨t₀, t₁, e, f, a', hreach, he, hdistinct, hf, hseen, ha',
          (ih (hlater hreach he)).mpr ⟨es, hes, hdistincts, h⟩⟩

theorem takes_object {fields : List (String × Value)} {a : α} :
    r.reader.Takes (.object fields) a ↔ (∀ f ∈ fields, f.2.Distinct) ∧
      r.fieldsOfValue [] r.blank (fields.map fun f ↦ (f.1, f.2.sorted)) = .ok a := by
  simp only [Reader.Takes, Value.distinct_object, Value.sorted_object, reader]
  constructor
  · rintro ⟨⟨hnodup, hdistinct⟩, h⟩
    exact ⟨hdistinct, (fieldsOfValue_perm hr (sorted_fields_perm hnodup)).mp h⟩
  · rintro ⟨hdistinct, h⟩
    have hnodup : (fields.map (·.1)).Nodup := by
      simpa [Function.comp_def] using (names_of_fieldsOfValue hr.closed h).1
    exact ⟨⟨hnodup, hdistinct⟩, (fieldsOfValue_perm hr (sorted_fields_perm hnodup)).mpr h⟩

theorem reader_coherent : r.reader.Coherent (depth + 1) := by
  intro t rest a
  constructor
  · intro h
    simp only [reader] at h
    split at h
    case h_1 t' ht =>
      obtain ⟨fs, hfs, ha⟩ := (fieldsOfText_eq_ok hr (Nat.lt_succ_self _)).mp h
      exact ⟨.object fs, ⟨t', ht, hfs⟩, (takes_object hr).mpr ha⟩
    case h_2 t' ht =>
      obtain ⟨vs, hvs, ha⟩ := (itemsOfText_eq_ok 0 hr.fields).mp h
      exact ⟨.list vs, ⟨t', ht, hvs⟩, (takes_list 0).mpr ha⟩
    case h_3 => simp at h
  · rintro ⟨v, hv, ha⟩
    cases v with
    | object fs =>
      obtain ⟨t', ht, hfs⟩ := hv
      simp only [reader, ht]
      exact (fieldsOfText_eq_ok hr (Nat.lt_succ_self _)).mpr ⟨fs, hfs, (takes_object hr).mp ha⟩
    | list vs =>
      obtain ⟨t', ht, hvs⟩ := hv
      simp only [reader, ht]
      exact (itemsOfText_eq_ok 0 hr.fields).mpr ⟨vs, hvs, (takes_list 0).mp ha⟩
    | _ => simp [Reader.Takes, reader] at ha

end

end Record

theorem Reader.read_eq_ok {r : Reader α} {depth : Nat} (hr : r.Coherent depth) {text : String}
    {a : α} : r.read text = .ok a ↔
      ∃ v rest, Spells depth text.toList v rest ∧ skipBlank rest = [] ∧ r.Takes v a := by
  simp only [read, Except.bind_eq_ok, Prod.exists]
  constructor
  · rintro ⟨_, rest, hread, h⟩
    split at h
    case isTrue hrest =>
      obtain rfl := Except.pure_eq_ok.mp h
      obtain ⟨v, hv, ha⟩ := hr.mp hread
      exact ⟨v, rest, hv, List.isEmpty_iff.mp hrest, ha⟩
    case isFalse => simp at h
  · rintro ⟨v, rest, hv, hrest, ha⟩
    exact ⟨a, rest, hr.mpr ⟨v, hv, ha⟩, by simp [hrest, pure, Except.pure]⟩

end SystemDynamics.Json
