import SystemDynamics.NameMap
import Mathlib.Data.List.Induction
import Mathlib.Data.List.Nodup
import Mathlib.Data.String.Basic

namespace SystemDynamics.NameMap

variable {α : Type}

theorem lookup_cons (e : String × α) (es : List (String × α)) (id : String) :
    (e :: es).lookup id = if id = e.1 then some e.2 else es.lookup id := by
  rw [List.lookup_cons]
  by_cases hid : id = e.1
  · simp [hid]
  · have hb : (id == e.1) = false := by simpa using hid
    simp [hb, hid]

theorem lookup_insertSorted (name : String) (value : α) (es : List (String × α)) (id : String) :
    (insertSorted name value es).lookup id = if id = name then some value else es.lookup id := by
  induction es with
  | nil => exact lookup_cons _ _ _
  | cons e es ih =>
    simp only [insertSorted]
    split
    case isTrue => exact lookup_cons _ _ _
    case isFalse =>
      split
      case isTrue hname =>
        rw [lookup_cons, lookup_cons, hname]
        split <;> rfl
      case isFalse hname =>
        rw [lookup_cons, lookup_cons, ih]
        by_cases hid : id = e.1
        · have hne : ¬ id = name := fun he ↦ hname (he.symm.trans hid)
          rw [if_pos hid, if_neg hne, if_pos hid]
        · rw [if_neg hid, if_neg hid]

theorem mem_insertSorted (name : String) (value : α) (es : List (String × α)) (id : String) :
    id ∈ (insertSorted name value es).map (·.1) ↔ id = name ∨ id ∈ es.map (·.1) := by
  induction es with
  | nil => simp [insertSorted]
  | cons e es ih =>
    simp only [insertSorted]
    split
    case isTrue => simp
    case isFalse =>
      split
      case isTrue hname => simp [hname]
      case isFalse =>
        rw [List.map_cons, List.mem_cons, ih, List.map_cons, List.mem_cons]
        exact or_left_comm

theorem insertSorted_perm (name : String) (value : α) {es : List (String × α)}
    (h : name ∉ es.map (·.1)) : (insertSorted name value es).Perm ((name, value) :: es) := by
  induction es with
  | nil => rfl
  | cons e es ih =>
    rw [List.map_cons, List.mem_cons, not_or] at h
    rw [insertSorted, if_neg h.1]
    split
    case isTrue => rfl
    case isFalse => exact ((ih h.2).cons e).trans (List.Perm.swap _ _ _)

theorem insertSorted_self (name : String) (x y : α) (es : List (String × α)) :
    insertSorted name y (insertSorted name x es) = insertSorted name y es := by
  induction es with
  | nil => simp [insertSorted]
  | cons e es ih =>
    by_cases hlt : name < e.1
    · simp [insertSorted, hlt]
    · by_cases heq : name = e.1
      · simp [insertSorted, heq]
      · simp [insertSorted, hlt, heq, ih]

theorem insertSorted_comm_of_lt {a b : String} (h : a < b) (x y : α) (es : List (String × α)) :
    insertSorted a x (insertSorted b y es) = insertSorted b y (insertSorted a x es) := by
  have hba : ¬ b < a := h.asymm
  induction es with
  | nil => simp [insertSorted, h, hba, h.ne']
  | cons e es ih =>
    rcases lt_trichotomy a e.1 with ha | ha | ha
    · rcases lt_trichotomy b e.1 with hb | hb | hb
      · simp [insertSorted, h, hba, h.ne', ha, hb]
      · subst hb
        simp [insertSorted, h, hba, h.ne']
      · simp [insertSorted, hba, h.ne', ha, hb.asymm, hb.ne']
    · subst ha
      simp [insertSorted, hba, h.ne']
    · have hb := ha.trans h
      simp [insertSorted, ha.asymm, ha.ne', hb.asymm, hb.ne', ih]

theorem insertSorted_comm {a b : String} (h : a ≠ b) (x y : α) (es : List (String × α)) :
    insertSorted a x (insertSorted b y es) = insertSorted b y (insertSorted a x es) := by
  rcases lt_or_gt_of_ne h with hlt | hlt
  · exact insertSorted_comm_of_lt hlt x y es
  · exact (insertSorted_comm_of_lt hlt y x es).symm

theorem find?_insert (m : NameMap α) (name : String) (value : α) (id : String) :
    (m.insert name value).find? id = if id = name then some value else m.find? id :=
  lookup_insertSorted name value m.entries id

theorem find?_ofList (pairs : List (String × α)) (id : String) :
    (ofList pairs).find? id = pairs.reverse.lookup id := by
  induction pairs using List.reverseRecOn with
  | nil => rfl
  | append_singleton pairs p ih =>
    rw [ofList, List.foldl_append, List.foldl_cons, List.foldl_nil, find?_insert,
      List.reverse_append, List.reverse_singleton, List.singleton_append, lookup_cons, ← ih]
    rfl

theorem insert_ofList_append {before after : List (String × α)} {name : String}
    (h : name ∉ after.map (·.1)) (x y : α) :
    (ofList (before ++ (name, x) :: after)).insert name y =
      ofList (before ++ (name, y) :: after) := by
  induction after using List.reverseRecOn with
  | nil =>
    simp only [ofList, List.foldl_append, List.foldl_cons, List.foldl_nil, insert,
      insertSorted_self]
  | append_singleton after e ih =>
    rw [List.map_append, List.mem_append, not_or] at h
    have hne : name ≠ e.1 := by simpa using h.2
    have hcons : ∀ z, ofList (before ++ (name, z) :: (after ++ [e])) =
        (ofList (before ++ (name, z) :: after)).insert e.1 e.2 := by
      intro z
      simp only [ofList, ← List.cons_append, ← List.append_assoc, List.foldl_append,
        List.foldl_cons, List.foldl_nil]
    rw [hcons, hcons, ← ih h.1]
    simp only [insert, insertSorted_comm hne]

theorem mem_names_ofList {pairs : List (String × α)} {id : String} :
    id ∈ (ofList pairs).names ↔ id ∈ pairs.map (·.1) := by
  induction pairs using List.reverseRecOn with
  | nil => rfl
  | append_singleton pairs p ih =>
    rw [ofList, List.foldl_append, List.foldl_cons, List.foldl_nil, names, insert,
      mem_insertSorted, List.map_append, List.mem_append, List.map_singleton,
      List.mem_singleton, or_comm]
    exact or_congr_left ih

theorem ofList_perm {pairs : List (String × α)} (h : (pairs.map (·.1)).Nodup) :
    (ofList pairs).entries.Perm pairs := by
  induction pairs using List.reverseRecOn with
  | nil => rfl
  | append_singleton pairs p ih =>
    rw [List.map_append, List.map_singleton, List.nodup_append'] at h
    have hnew : p.1 ∉ (ofList pairs).entries.map (·.1) := fun hmem ↦
      List.disjoint_right.mp h.2.2 (List.mem_singleton_self p.1) (mem_names_ofList.mp hmem)
    rw [ofList, List.foldl_append, List.foldl_cons, List.foldl_nil, insert]
    refine (insertSorted_perm p.1 p.2 hnew).trans ?_
    exact ((ih h.1).cons p).trans (List.perm_append_singleton p _).symm

theorem names_ofList_perm {pairs : List (String × α)} (h : (pairs.map (·.1)).Nodup) :
    (ofList pairs).names.Perm (pairs.map (·.1)) :=
  (ofList_perm h).map Prod.fst

theorem lookup_eq_some {pairs : List (String × α)} (h : (pairs.map (·.1)).Nodup) {id : String}
    {x : α} (hx : (id, x) ∈ pairs) : pairs.lookup id = some x := by
  induction pairs with
  | nil => simp at hx
  | cons p pairs ih =>
    rw [List.map_cons, List.nodup_cons] at h
    rw [lookup_cons]
    rcases List.mem_cons.mp hx with rfl | hx
    · exact if_pos rfl
    · have hne : id ≠ p.1 := fun he ↦ h.1 (he ▸ List.mem_map_of_mem hx)
      rw [if_neg hne, ih h.2 hx]

theorem find?_ofList_of_mem {pairs : List (String × α)} (h : (pairs.map (·.1)).Nodup)
    {id : String} {x : α} (hx : (id, x) ∈ pairs) : (ofList pairs).find? id = some x := by
  rw [find?_ofList]
  refine lookup_eq_some ?_ (List.mem_reverse.mpr hx)
  rw [List.map_reverse]
  exact List.nodup_reverse.mpr h

theorem lookup_eq_some_iff_mem {pairs : List (String × α)} (h : (pairs.map (·.1)).Nodup)
    {id : String} {x : α} : pairs.lookup id = some x ↔ (id, x) ∈ pairs := by
  refine ⟨fun hx ↦ ?_, lookup_eq_some h⟩
  obtain ⟨before, after, hpairs, -⟩ := List.lookup_eq_some_iff.mp hx
  simp [hpairs]

theorem lookup_perm {pairs pairs' : List (String × α)} (hperm : pairs.Perm pairs')
    (h : (pairs.map (·.1)).Nodup) (id : String) : pairs.lookup id = pairs'.lookup id := by
  have h' := (hperm.map (·.1)).nodup_iff.mp h
  refine Option.ext fun x ↦ ?_
  rw [lookup_eq_some_iff_mem h, lookup_eq_some_iff_mem h', hperm.mem_iff]

def Sorted (m : NameMap α) : Prop :=
  m.names.Pairwise (· < ·)

theorem Sorted.insert {m : NameMap α} (h : m.Sorted) (name : String) (value : α) :
    (m.insert name value).Sorted := by
  obtain ⟨es⟩ := m
  simp only [Sorted, names, NameMap.insert] at h ⊢
  induction es with
  | nil => simp [insertSorted]
  | cons e es ih =>
    rw [List.map_cons, List.pairwise_cons] at h
    simp only [insertSorted]
    split
    case isTrue hlt =>
      refine List.pairwise_cons.mpr ⟨fun id hid ↦ ?_, List.pairwise_cons.mpr h⟩
      rcases List.mem_cons.mp hid with rfl | hid
      · exact hlt
      · exact hlt.trans (h.1 id hid)
    case isFalse hlt =>
      split
      case isTrue heq =>
        subst heq
        exact List.pairwise_cons.mpr h
      case isFalse hne =>
        refine List.pairwise_cons.mpr ⟨fun id hid ↦ ?_, ih h.2⟩
        rcases (mem_insertSorted name value es id).mp hid with rfl | hid
        · exact lt_of_le_of_ne (not_lt.mp hlt) (Ne.symm hne)
        · exact h.1 id hid

theorem sorted_ofList (pairs : List (String × α)) : (ofList pairs).Sorted := by
  induction pairs using List.reverseRecOn with
  | nil => exact List.Pairwise.nil
  | append_singleton pairs p ih =>
    rw [ofList, List.foldl_append, List.foldl_cons, List.foldl_nil]
    exact ih.insert p.1 p.2

theorem Sorted.ext {m m' : NameMap α} (h : m.Sorted) (h' : m'.Sorted)
    (hfind : ∀ id, m.find? id = m'.find? id) : m = m' := by
  have hnodup : ∀ {n : NameMap α}, n.Sorted → n.names.Nodup := fun hn ↦ hn.imp fun hlt ↦ hlt.ne
  have hmem : ∀ e, e ∈ m.entries ↔ e ∈ m'.entries := by
    intro e
    rw [← lookup_eq_some_iff_mem (hnodup h), ← lookup_eq_some_iff_mem (hnodup h')]
    exact Iff.of_eq (congrArg (· = some e.2) (hfind e.1))
  have hperm : m.entries.Perm m'.entries :=
    (List.perm_ext_iff_of_nodup (hnodup h).of_map (hnodup h').of_map).mpr hmem
  refine congrArg NameMap.mk (hperm.eq_of_pairwise ?_ (List.pairwise_map.mp h)
    (List.pairwise_map.mp h'))
  intro e e' _ _ hlt hgt
  exact absurd hgt hlt.asymm

theorem find?_eq_none {m : NameMap α} {name : String} (h : name ∉ m.names) :
    m.find? name = none := by
  refine List.lookup_eq_none_iff.mpr fun e he ↦ ?_
  rw [bne_iff_ne]
  rintro rfl
  exact h (List.mem_map_of_mem he)

theorem Sorted.eq_of_names {β : Type} {m m' : NameMap α} (h : m.Sorted) (h' : m'.Sorted)
    {declared : List β} {id : β → String} {value : β → α}
    (hnames : m.names.Perm (declared.map id)) (hnames' : m'.names.Perm (declared.map id))
    (hvalue : ∀ b ∈ declared, m.find? (id b) = some (value b))
    (hvalue' : ∀ b ∈ declared, m'.find? (id b) = some (value b)) : m = m' := by
  refine h.ext h' fun name ↦ ?_
  by_cases hname : name ∈ declared.map id
  · obtain ⟨b, hb, rfl⟩ := List.mem_map.mp hname
    rw [hvalue b hb, hvalue' b hb]
  · rw [find?_eq_none (mt hnames.mem_iff.mp hname), find?_eq_none (mt hnames'.mem_iff.mp hname)]

theorem mem_values_of_find? {m : NameMap α} {name : String} {x : α} (h : m.find? name = some x) :
    x ∈ m.values := by
  obtain ⟨before, after, hentries, -⟩ := List.lookup_eq_some_iff.mp h
  rw [values, hentries]
  simp

theorem mem_values {m : NameMap α} (h : m.names.Nodup) {x : α} :
    x ∈ m.values ↔ ∃ name ∈ m.names, m.find? name = some x := by
  constructor
  · intro hx
    obtain ⟨e, he, rfl⟩ := List.mem_map.mp hx
    exact ⟨e.1, List.mem_map_of_mem he, lookup_eq_some h he⟩
  · rintro ⟨name, -, hx⟩
    exact mem_values_of_find? hx

theorem mem_values_of_names {β : Type} {m : NameMap α} {declared : List β} {id : β → String}
    {value : β → α} (hnodup : (declared.map id).Nodup)
    (hnames : m.names.Perm (declared.map id))
    (hvalue : ∀ b ∈ declared, m.find? (id b) = some (value b)) {x : α} :
    x ∈ m.values ↔ ∃ b ∈ declared, x = value b := by
  rw [mem_values (hnames.nodup_iff.mpr hnodup)]
  constructor
  · rintro ⟨name, hname, hx⟩
    obtain ⟨b, hb, rfl⟩ := List.mem_map.mp (hnames.mem_iff.mp hname)
    rw [hvalue b hb, Option.some_inj] at hx
    exact ⟨b, hb, hx.symm⟩
  · rintro ⟨b, hb, rfl⟩
    exact ⟨id b, hnames.mem_iff.mpr (List.mem_map_of_mem hb), hvalue b hb⟩

theorem mem_distinct {ids : List String} {id : String} : id ∈ distinct ids ↔ id ∈ ids := by
  simp [distinct, mem_names_ofList]

theorem distinct_eq_nil {ids : List String} : distinct ids = [] ↔ ids = [] := by
  simp only [List.eq_nil_iff_forall_not_mem, mem_distinct]

end SystemDynamics.NameMap
