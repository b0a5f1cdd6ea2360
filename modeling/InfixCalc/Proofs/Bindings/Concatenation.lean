import InfixCalc.Proofs.Bindings.Store

/-!
# Lists of pairs put together

A list of pairs that is acceptable is bound as it is: the entries of the set are its pairs. Hence
the three ways to build a set agree. Binding two lists put together comes to the same as binding
them one after the other and merging the sets, and neither the order of the pairs nor the order of
the merges makes a difference to what is bound.
-/

namespace InfixCalc

variable {xs ys : List (String × Float)}

/-! ### Acceptable lists -/

lemma acceptable_append_iff :
    Acceptable (xs ++ ys) ↔
      Acceptable xs ∧ Acceptable ys ∧ ∀ name ∈ ys.map (·.1), name ∉ xs.map (·.1) := by
  simp only [Acceptable, List.map_append, List.nodup_append', List.forall_mem_append]
  constructor
  · rintro ⟨⟨hxs, hys, hdisjoint⟩, hxs', hys'⟩
    exact ⟨⟨hxs, hxs'⟩, ⟨hys, hys'⟩, fun name hy hx => hdisjoint hx hy⟩
  · rintro ⟨⟨hxs, hxs'⟩, ⟨hys, hys'⟩, hdisjoint⟩
    exact ⟨⟨hxs, hys, fun name hx hy => hdisjoint name hy hx⟩, hxs', hys'⟩

lemma acceptable_singleton_iff {name : String} {value : Float} :
    Acceptable [(name, value)] ↔ isReserved name = false := by
  simp [Acceptable]

lemma Acceptable.perm (h : Acceptable xs) (hperm : xs.Perm ys) : Acceptable ys :=
  ⟨(hperm.map _).nodup_iff.mp h.1, fun pair hpair => h.2 pair (hperm.mem_iff.mpr hpair)⟩

namespace Bindings

variable {b c d : Bindings}

/-! ### Sets that bind the same -/

/-- Whether two sets bind the same names to the same values. -/
structure Equivalent (b c : Bindings) : Prop where
  get? : ∀ name, b.get? name = c.get? name
  size : b.size = c.size

/-- Whether two attempts to build a set both fail, or yield sets that bind the same. -/
def SameResult : Except EvaluationError Bindings → Except EvaluationError Bindings → Prop
  | .ok b, .ok c => b.Equivalent c
  | .error _, .error _ => True
  | _, _ => False

/-- Insert pairs one at a time, beginning without any bindings. -/
def insertAll (pairs : List (String × Float)) : Except EvaluationError Bindings :=
  pairs.foldlM (fun b (name, value) => (b.insert name value).map (·.2)) empty

lemma Equivalent.refl (b : Bindings) : b.Equivalent b := ⟨fun _ => rfl, rfl⟩

/-- Attempts that have the same results, up to what the sets bind. -/
lemma sameResult_of_iff {x y : Except EvaluationError Bindings}
    (h : ∀ b, x = .ok b → ∃ c, y = .ok c ∧ b.Equivalent c)
    (h' : ∀ c, y = .ok c → ∃ b, x = .ok b) : SameResult x y := by
  cases x with
  | ok b =>
    obtain ⟨c, rfl, hequivalent⟩ := h b rfl
    exact hequivalent
  | error e =>
    cases y with
    | ok c =>
      obtain ⟨b, hb⟩ := h' c rfl
      cases hb
    | error e' => trivial

/-! ### Binding lists -/

lemma contains_mk_iff {entries : List (String × Float)} {name : String} :
    contains ⟨entries⟩ name ↔ name ∈ entries.map (·.1) := mem_names_iff.symm

lemma put_of_not_contains {name : String} (h : b.contains name = false) (value : Float) :
    b.put name value = ⟨b.entries ++ [(name, value)]⟩ := by
  rw [put, h, if_neg Bool.false_ne_true]

lemma insertNew_mk_eq_ok_iff {entries : List (String × Float)} {name : String} {value : Float} :
    insertNew ⟨entries⟩ name value = .ok c ↔
      isReserved name = false ∧ name ∉ entries.map (·.1) ∧ c = ⟨entries ++ [(name, value)]⟩ := by
  rw [insertNew_eq_ok_iff, ← contains_mk_iff, Bool.not_eq_true]
  refine and_congr_right fun _ => and_congr_right fun hnew => ?_
  rw [put_of_not_contains hnew]

/-- A list of pairs is bound just if it is acceptable, and as it is. -/
theorem ofPairs_eq_ok_iff {pairs : List (String × Float)} :
    ofPairs pairs = .ok b ↔ Acceptable pairs ∧ b = ⟨pairs⟩ := by
  induction pairs using List.reverseRecOn generalizing b with
  | nil =>
    have hnil : Acceptable [] := ⟨List.nodup_nil, List.forall_mem_nil _⟩
    have hempty : ofPairs [] = .ok ⟨[]⟩ := rfl
    rw [hempty, Except.ok.injEq, and_iff_right hnil, eq_comm]
  | append_singleton pairs pair ih =>
    obtain ⟨name, value⟩ := pair
    rw [ofPairs_concat, bind_eq_ok_iff, acceptable_append_iff, acceptable_singleton_iff]
    constructor
    · rintro ⟨c, hc, hb⟩
      obtain ⟨hpairs, rfl⟩ := ih.mp hc
      obtain ⟨hname, hnew, rfl⟩ := insertNew_mk_eq_ok_iff.mp hb
      exact ⟨⟨hpairs, hname, List.forall_mem_singleton.mpr hnew⟩, rfl⟩
    · rintro ⟨⟨hpairs, hname, hnew⟩, rfl⟩
      have hnew := List.forall_mem_singleton.mp hnew
      exact ⟨⟨pairs⟩, ih.mpr ⟨hpairs, rfl⟩, insertNew_mk_eq_ok_iff.mpr ⟨hname, hnew, rfl⟩⟩

lemma merge_mk_eq_ok_iff :
    merge ⟨xs⟩ ⟨ys⟩ = .ok c ↔
      (∀ name ∈ ys.map (·.1), name ∉ xs.map (·.1)) ∧ c = ⟨xs ++ ys⟩ := by
  simp only [merge_eq_ok_iff, contains_mk_iff, ← Bool.not_eq_true]

/-- Two lists put together are bound as one list, or one after the other and then merged. -/
lemma ofPairs_append_eq_ok_iff :
    ofPairs (xs ++ ys) = .ok b ↔
      ((ofPairs xs).bind fun c => (ofPairs ys).bind c.merge) = .ok b := by
  simp only [bind_eq_ok_iff, ofPairs_eq_ok_iff, acceptable_append_iff]
  constructor
  · rintro ⟨⟨hxs, hys, hdisjoint⟩, rfl⟩
    exact ⟨_, ⟨hxs, rfl⟩, _, ⟨hys, rfl⟩, merge_mk_eq_ok_iff.mpr ⟨hdisjoint, rfl⟩⟩
  · rintro ⟨_, ⟨hxs, rfl⟩, _, ⟨hys, rfl⟩, hmerge⟩
    obtain ⟨hdisjoint, rfl⟩ := merge_mk_eq_ok_iff.mp hmerge
    exact ⟨⟨hxs, hys, hdisjoint⟩, rfl⟩

lemma insertAll_concat (pairs : List (String × Float)) (name : String) (value : Float) :
    insertAll (pairs ++ [(name, value)])
      = (insertAll pairs).bind fun b => (b.insert name value).map (·.2) := by
  simp [insertAll, List.foldlM_append]
  rfl

/-- An acceptable list can be bound pair by pair, and no pair replaces the value of another. -/
lemma insertAll_of_acceptable {pairs : List (String × Float)} (h : Acceptable pairs) :
    insertAll pairs = .ok ⟨pairs⟩ := by
  induction pairs using List.reverseRecOn with
  | nil => rfl
  | append_singleton pairs pair ih =>
    obtain ⟨name, value⟩ := pair
    obtain ⟨hpairs, hname, hdisjoint⟩ := acceptable_append_iff.mp h
    have hnew : contains ⟨pairs⟩ name = false := by
      rw [← Bool.not_eq_true, contains_mk_iff]
      exact hdisjoint name List.mem_cons_self
    have hinsert := insert_eq_ok_iff.mpr
      ⟨acceptable_singleton_iff.mp hname, rfl, (put_of_not_contains hnew value).symm⟩
    rw [insertAll_concat, ih hpairs]
    exact map_eq_ok_iff.mpr ⟨_, hinsert, rfl⟩

/-! ### Order -/

lemma get?_mk_eq_some_iff {entries : List (String × Float)} (h : (entries.map (·.1)).Nodup)
    {name : String} {value : Float} :
    get? ⟨entries⟩ name = some value ↔ (name, value) ∈ entries := by
  induction entries with
  | nil => simp [get?]
  | cons entry entries ih =>
    obtain ⟨k, v⟩ := entry
    rw [List.map_cons, List.nodup_cons] at h
    have hget : get? ⟨(k, v) :: entries⟩ name
        = if name = k then some v else get? ⟨entries⟩ name := lookup_cons name k v entries
    rw [hget, List.mem_cons, Prod.mk.injEq]
    split_ifs with hname
    · subst hname
      have hnot : (name, value) ∉ entries := fun hmem => h.1 (List.mem_map.mpr ⟨_, hmem, rfl⟩)
      simp [hnot, eq_comm]
    · simp [hname, ih h.2]

/-- The order of pairs without repeated names does not matter to what they bind. -/
lemma equivalent_of_perm (h : (xs.map (·.1)).Nodup) (hperm : xs.Perm ys) :
    Equivalent ⟨xs⟩ ⟨ys⟩ where
  get? name := by
    ext value
    have h' : (ys.map (·.1)).Nodup := (hperm.map _).nodup_iff.mp h
    rw [get?_mk_eq_some_iff h, get?_mk_eq_some_iff h', hperm.mem_iff]
  size := hperm.length_eq

lemma sameResult_ofPairs_perm (hperm : xs.Perm ys) : SameResult (ofPairs xs) (ofPairs ys) := by
  apply sameResult_of_iff
  · intro b hb
    obtain ⟨hxs, rfl⟩ := ofPairs_eq_ok_iff.mp hb
    exact ⟨_, ofPairs_eq_ok_iff.mpr ⟨hxs.perm hperm, rfl⟩, equivalent_of_perm hxs.1 hperm⟩
  · intro c hc
    obtain ⟨hys, rfl⟩ := ofPairs_eq_ok_iff.mp hc
    exact ⟨_, ofPairs_eq_ok_iff.mpr ⟨hys.perm hperm.symm, rfl⟩⟩

/-! ### Merges -/

/-- Whether no name is bound by both of two sets. -/
def Apart (b c : Bindings) : Prop := ∀ name, c.contains name → b.contains name = false

lemma Apart.symm (h : b.Apart c) : c.Apart b := by
  intro name hb
  rw [← Bool.not_eq_true]
  intro hc
  rw [h name hc] at hb
  cases hb

/-- The bindings of one set before those of another. -/
def append (b c : Bindings) : Bindings := ⟨b.entries ++ c.entries⟩

lemma merge_eq_ok_iff_apart : b.merge c = .ok d ↔ b.Apart c ∧ d = b.append c := merge_eq_ok_iff

lemma contains_append (b c : Bindings) (name : String) :
    (b.append c).contains name = (b.contains name || c.contains name) := by
  rw [contains, append, get?_append, Option.isSome_or, ← contains, ← contains]

lemma apart_append_left : (b.append c).Apart d ↔ b.Apart d ∧ c.Apart d := by
  simp only [Apart, contains_append, Bool.or_eq_false_iff]
  exact ⟨fun h => ⟨fun n hn => (h n hn).1, fun n hn => (h n hn).2⟩,
    fun ⟨hb, hc⟩ n hn => ⟨hb n hn, hc n hn⟩⟩

lemma apart_append_right : b.Apart (c.append d) ↔ b.Apart c ∧ b.Apart d := by
  simp only [Apart, contains_append, Bool.or_eq_true, or_imp, forall_and]

lemma Apart.equivalent_append (h : b.Apart c) : (b.append c).Equivalent (c.append b) where
  get? name := by
    rw [append, append, get?_append, get?_append]
    cases hc : c.get? name with
    | none => rw [Option.or_none, Option.none_or]
    | some value =>
      have hcontains : c.contains name := Option.isSome_iff_exists.mpr ⟨value, hc⟩
      have hnone : b.get? name = none := by simpa [contains] using h name hcontains
      rw [hnone, Option.none_or, Option.or_none]
  size := by
    rw [append, append, size_append, size_append, Nat.add_comm]

lemma sameResult_merge_comm (b c : Bindings) : SameResult (b.merge c) (c.merge b) := by
  apply sameResult_of_iff
  · intro d hd
    obtain ⟨hapart, rfl⟩ := merge_eq_ok_iff_apart.mp hd
    exact ⟨_, merge_eq_ok_iff_apart.mpr ⟨hapart.symm, rfl⟩, hapart.equivalent_append⟩
  · intro d hd
    obtain ⟨hapart, rfl⟩ := merge_eq_ok_iff_apart.mp hd
    exact ⟨_, merge_eq_ok_iff_apart.mpr ⟨hapart.symm, rfl⟩⟩

lemma merge_assoc_eq_ok_iff {e : Bindings} :
    (b.merge c).bind (·.merge d) = .ok e ↔ (c.merge d).bind b.merge = .ok e := by
  have hassoc : (b.append c).append d = b.append (c.append d) :=
    congrArg mk (List.append_assoc _ _ _)
  simp only [bind_eq_ok_iff, merge_eq_ok_iff_apart]
  constructor
  · rintro ⟨_, ⟨hbc, rfl⟩, hd, rfl⟩
    obtain ⟨hbd, hcd⟩ := apart_append_left.mp hd
    exact ⟨_, ⟨hcd, rfl⟩, apart_append_right.mpr ⟨hbc, hbd⟩, hassoc⟩
  · rintro ⟨_, ⟨hcd, rfl⟩, hb, rfl⟩
    obtain ⟨hbc, hbd⟩ := apart_append_right.mp hb
    exact ⟨_, ⟨hbc, rfl⟩, apart_append_left.mpr ⟨hbd, hcd⟩, hassoc.symm⟩

/-- Attempts with just the same results yield sets that bind the same. -/
lemma sameResult_of_eq_ok_iff {x y : Except EvaluationError Bindings}
    (h : ∀ b, x = .ok b ↔ y = .ok b) : SameResult x y :=
  sameResult_of_iff (fun b hb => ⟨b, (h b).mp hb, .refl b⟩) fun c hc => ⟨c, (h c).mpr hc⟩

/-! ### Concatenation -/

/-- Two lists put together can be bound just if both can and the second set can be merged into the
first, and the sets bind the same. The order of pairs does not matter, pairs that can be bound can
be inserted one at a time as well, and merges commute and associate. -/
theorem sameResult_ofPairs_append (xs ys : List (String × Float)) :
    SameResult (ofPairs (xs ++ ys)) ((ofPairs xs).bind fun b => (ofPairs ys).bind b.merge) ∧
      (∀ zs, xs.Perm zs → SameResult (ofPairs xs) (ofPairs zs)) ∧
      (∀ b, ofPairs xs = .ok b → ∃ c, insertAll xs = .ok c ∧ b.Equivalent c) ∧
      (∀ b c : Bindings, SameResult (b.merge c) (c.merge b)) ∧
      ∀ b c d : Bindings,
        SameResult ((b.merge c).bind (·.merge d)) ((c.merge d).bind b.merge) := by
  refine ⟨sameResult_of_eq_ok_iff fun b => ofPairs_append_eq_ok_iff,
    fun zs hperm => sameResult_ofPairs_perm hperm, ?_, sameResult_merge_comm,
    fun b c d => sameResult_of_eq_ok_iff fun e => merge_assoc_eq_ok_iff⟩
  intro b hb
  obtain ⟨hxs, rfl⟩ := ofPairs_eq_ok_iff.mp hb
  exact ⟨_, insertAll_of_acceptable hxs, .refl _⟩

end Bindings

end InfixCalc
