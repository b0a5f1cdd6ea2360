import InfixCalc.Bindings
import InfixCalc.Proofs.Source
import Mathlib.Data.Finmap

/-!
# Bindings as finite maps

What can be told of a set of bindings is the value of each name and how many names have one.
`Represents b m` says that a finite map `m` has the same values and as many names, none of them
reserved. Every way to build a set has its counterpart on finite maps, and fails just where a name
is reserved or would be bound twice.
-/

namespace InfixCalc

variable {name : String} {value : Float} {e : EvaluationError}

namespace Bindings

variable {b c other : Bindings}

/-! ### Values -/

lemma mem_names_iff : name ∈ b.names ↔ b.contains name := by
  rw [contains, get?, List.lookup_isSome_iff, names, List.mem_map]
  simp only [beq_iff_eq, @eq_comm _ name]

lemma lookup_cons (n k : String) (v : Float) (entries : List (String × Float)) :
    ((k, v) :: entries).lookup n = if n = k then some v else entries.lookup n := by
  rw [List.lookup_cons]
  by_cases hn : n = k
  · simp [hn]
  · simp [beq_false_of_ne hn, hn]

lemma lookup_replace (entries : List (String × Float)) (name : String) (value : Float)
    (n : String) :
    (entries.map fun (n, v) => if n == name then (n, value) else (n, v)).lookup n
      = if n = name then (entries.lookup n).map fun _ => value else entries.lookup n := by
  induction entries with
  | nil => simp
  | cons entry entries ih =>
    obtain ⟨k, v⟩ := entry
    rw [List.map_cons, lookup_cons]
    by_cases hk : k = name
    · simp only [hk, beq_self_eq_true, if_true, lookup_cons, ih]
      split_ifs <;> rfl
    · simp only [beq_false_of_ne hk, Bool.false_eq_true, if_false, lookup_cons, ih]
      split_ifs with hn hname
      · exact absurd (hn.symm.trans hname) hk
      all_goals rfl

lemma get?_put (b : Bindings) (name : String) (value : Float) (n : String) :
    (b.put name value).get? n = if n = name then some value else b.get? n := by
  unfold put
  cases hcontains : b.contains name with
  | true =>
    obtain ⟨v, hv⟩ := Option.isSome_iff_exists.mp hcontains
    rw [if_pos rfl, get?, lookup_replace]
    split_ifs with hn
    · subst hn
      rw [← get?, hv, Option.map_some]
    · rfl
  | false =>
    have hnone : b.get? name = none := by simpa [contains] using hcontains
    rw [if_neg (by simp), get?, List.lookup_append, lookup_cons, ← get?]
    split_ifs with hn
    · rw [hn, hnone, Option.none_or]
    · exact Option.or_none

lemma size_put (b : Bindings) (name : String) (value : Float) :
    (b.put name value).size = if b.contains name then b.size else b.size + 1 := by
  unfold put
  split_ifs <;> simp [size]

lemma get?_append (b other : Bindings) (name : String) :
    get? ⟨b.entries ++ other.entries⟩ name = (b.get? name).or (other.get? name) :=
  List.lookup_append

lemma size_append (b other : Bindings) :
    size ⟨b.entries ++ other.entries⟩ = b.size + other.size :=
  List.length_append

/-! ### Operations -/

lemma insert_eq_ok_iff {old : Option Float} :
    b.insert name value = .ok (old, c) ↔
      isReserved name = false ∧ old = b.get? name ∧ c = b.put name value := by
  rw [insert, checkName]
  cases isReserved name <;> simp [Except.map, @eq_comm _ old, @eq_comm _ c]

lemma insert_eq_error_iff :
    b.insert name value = .error e ↔ isReserved name ∧ e = .reservedName name := by
  rw [insert, map_eq_error_iff, checkName_eq_error_iff]

lemma insertNew_eq_ok_iff :
    b.insertNew name value = .ok c ↔
      isReserved name = false ∧ b.contains name = false ∧ c = b.put name value := by
  rw [insertNew, checkName]
  cases isReserved name <;> cases b.contains name <;> simp [Except.bind, @eq_comm _ c]

lemma insertNew_eq_error_iff :
    b.insertNew name value = .error e ↔
      isReserved name ∧ e = .reservedName name ∨
        isReserved name = false ∧ b.contains name ∧ e = .duplicateVariable name := by
  rw [insertNew, checkName]
  cases isReserved name <;> cases b.contains name <;> simp [Except.bind, @eq_comm _ e]

lemma merge_eq_ok_iff :
    b.merge other = .ok c ↔
      (∀ name, other.contains name → b.contains name = false) ∧
        c = ⟨b.entries ++ other.entries⟩ := by
  unfold merge
  cases hfind : other.names.find? b.contains with
  | some name =>
    have hcontains : b.contains name := List.find?_some hfind
    have hmem := mem_names_iff.mp (List.mem_of_find?_eq_some hfind)
    simp only [reduceCtorEq, false_iff]
    rintro ⟨hnone, -⟩
    rw [hnone name hmem] at hcontains
    cases hcontains
  | none =>
    have hnone : ∀ name, other.contains name → b.contains name = false := by
      intro name hname
      simpa using List.find?_eq_none.mp hfind name (mem_names_iff.mpr hname)
    simp only [Except.ok.injEq, @eq_comm _ c, iff_and_self]
    exact fun _ => hnone

lemma exists_of_merge_eq_error (h : b.merge other = .error e) :
    ∃ name, b.contains name ∧ other.contains name ∧ e = .duplicateVariable name := by
  unfold merge at h
  split at h
  case h_1 name hfind =>
    cases h
    exact ⟨name, List.find?_some hfind, mem_names_iff.mp (List.mem_of_find?_eq_some hfind), rfl⟩
  case h_2 => cases h

end Bindings

/-! ### Finite maps -/

/-- A finite map from names to numbers. -/
abbrev Assignment := Finmap fun _ : String => Float

lemma Assignment.keys_insert (m : Assignment) (name : String) (value : Float) :
    (m.insert name value).keys = insert name m.keys := by
  ext n
  rw [Finmap.mem_keys, Finmap.mem_insert, Finset.mem_insert, Finmap.mem_keys]

/-- Whether a finite map has the same values as a set of bindings, and as many, and none of them for
a reserved name. -/
structure Bindings.Represents (b : Bindings) (m : Assignment) : Prop where
  get? : ∀ name, b.get? name = m.lookup name
  size : b.size = m.keys.card
  unreserved : ∀ name, isReserved name → b.get? name = none

namespace Bindings.Represents

variable {b c other : Bindings} {m m' : Assignment}

lemma empty : Bindings.empty.Represents ∅ := ⟨fun _ => rfl, rfl, fun _ _ => rfl⟩

lemma contains_iff (h : b.Represents m) : b.contains name ↔ name ∈ m := by
  rw [contains, h.get?, Finmap.lookup_isSome]

lemma put (h : b.Represents m) (hname : isReserved name = false) (value : Float) :
    (b.put name value).Represents (m.insert name value) where
  get? n := by
    rw [get?_put, h.get?]
    split_ifs with hn
    · subst hn
      rw [Finmap.lookup_insert]
    · rw [Finmap.lookup_insert_of_ne _ hn]
  size := by
    rw [size_put, Assignment.keys_insert, h.size]
    split_ifs with hcontains
    · rw [Finset.insert_eq_of_mem (Finmap.mem_keys.mpr (h.contains_iff.mp hcontains))]
    · rw [Finset.card_insert_of_notMem fun hmem =>
        hcontains (h.contains_iff.mpr (Finmap.mem_keys.mp hmem))]
  unreserved n hn := by
    have hne : n ≠ name := by
      rintro rfl
      rw [hname] at hn
      cases hn
    rw [get?_put, if_neg hne]
    exact h.unreserved n hn

lemma append (h : b.Represents m) (h' : other.Represents m') (hdisjoint : m.Disjoint m') :
    Represents ⟨b.entries ++ other.entries⟩ (m ∪ m') where
  get? name := by
    rw [get?_append, h.get?, h'.get?]
    by_cases hname : name ∈ m
    · obtain ⟨v, hv⟩ := Finmap.mem_iff.mp hname
      rw [Finmap.lookup_union_left hname, hv, Option.some_or]
    · rw [Finmap.lookup_union_right hname, Finmap.lookup_eq_none.mpr hname, Option.none_or]
  size := by
    have hkeys : ∀ name, name ∈ m.keys → name ∉ m'.keys := by
      intro name hname hname'
      exact hdisjoint name (Finmap.mem_keys.mp hname) (Finmap.mem_keys.mp hname')
    rw [size_append, Finmap.keys_union,
      Finset.card_union_of_disjoint (Finset.disjoint_left.mpr hkeys), h.size, h'.size]
  unreserved name hname := by
    rw [get?_append, h.unreserved name hname, h'.unreserved name hname, Option.none_or]

/-! ### Operations on what is represented -/

lemma insert_cases (h : b.Represents m) (name : String) (value : Float) :
    (isReserved name = false ∧ ∃ c, b.insert name value = .ok (b.get? name, c) ∧
        c.Represents (m.insert name value)) ∨
      isReserved name ∧ b.insert name value = .error (.reservedName name) := by
  cases hname : isReserved name with
  | true => exact .inr ⟨rfl, insert_eq_error_iff.mpr ⟨hname, rfl⟩⟩
  | false =>
    exact .inl ⟨rfl, b.put name value, insert_eq_ok_iff.mpr ⟨hname, rfl, rfl⟩, h.put hname value⟩

lemma merge_cases (h : b.Represents m) (h' : other.Represents m') :
    (m.Disjoint m' ∧ ∃ c, b.merge other = .ok c ∧ c.Represents (m ∪ m')) ∨
      ∃ name, name ∈ m ∧ name ∈ m' ∧ b.merge other = .error (.duplicateVariable name) := by
  cases hmerge : b.merge other with
  | error e =>
    obtain ⟨name, hb, hother, rfl⟩ := exists_of_merge_eq_error hmerge
    exact .inr ⟨name, h.contains_iff.mp hb, h'.contains_iff.mp hother, rfl⟩
  | ok c =>
    obtain ⟨hnone, rfl⟩ := merge_eq_ok_iff.mp hmerge
    have hdisjoint : m.Disjoint m' := by
      intro name hname hname'
      have hcontains := h.contains_iff.mpr hname
      rw [hnone name (h'.contains_iff.mpr hname')] at hcontains
      cases hcontains
    exact .inl ⟨hdisjoint, _, rfl, h.append h' hdisjoint⟩

end Bindings.Represents

end InfixCalc
