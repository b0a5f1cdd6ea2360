import InfixCalc.Proofs.Bindings.Basic

/-!
# Stores of bindings

Sets of bindings are built in any number of places, one step after the other. The same steps can be
taken on finite maps. Whatever the steps are, the sets represent these maps, none of them binds a
reserved name, and a step fails just where it has to and then changes nothing.
-/

namespace InfixCalc

/-! ### Lists of pairs -/

/-- The last value that a list of pairs gives to each of its names. -/
def Assignment.ofPairs (pairs : List (String × Float)) : Assignment :=
  pairs.foldl (fun m pair => m.insert pair.1 pair.2) ∅

/-- Whether a list of pairs names nothing twice and nothing reserved. -/
def Acceptable (pairs : List (String × Float)) : Prop :=
  (pairs.map (·.1)).Nodup ∧ ∀ pair ∈ pairs, isReserved pair.1 = false

instance : DecidablePred Acceptable :=
  fun pairs => inferInstanceAs (Decidable (_ ∧ ∀ pair ∈ pairs, isReserved pair.1 = false))

/-- What is wrong with the first pair of a list that has a reserved name or that of an earlier
pair. -/
inductive FirstFault : List (String × Float) → EvaluationError → Prop where
  | reserved {before after : List (String × Float)} {name : String} {value : Float}
      (hbefore : Acceptable before) (hname : isReserved name) :
      FirstFault (before ++ (name, value) :: after) (.reservedName name)
  | repeated {before after : List (String × Float)} {name : String} {value : Float}
      (hbefore : Acceptable before) (hname : name ∈ before.map (·.1)) :
      FirstFault (before ++ (name, value) :: after) (.duplicateVariable name)

variable {pairs : List (String × Float)} {e : EvaluationError}

lemma Assignment.ofPairs_concat (pairs : List (String × Float)) (name : String) (value : Float) :
    Assignment.ofPairs (pairs ++ [(name, value)])
      = (Assignment.ofPairs pairs).insert name value := by
  rw [ofPairs, List.foldl_concat, ← ofPairs]

lemma Assignment.mem_ofPairs {name : String} :
    name ∈ Assignment.ofPairs pairs ↔ name ∈ pairs.map (·.1) := by
  induction pairs using List.reverseRecOn with
  | nil => exact iff_of_false Finmap.notMem_empty List.not_mem_nil
  | append_singleton pairs pair ih =>
    rw [ofPairs_concat, Finmap.mem_insert, ih]
    simp [or_comm]

lemma nodup_names_concat {name : String} (h : (pairs.map (·.1)).Nodup)
    (hnew : name ∉ pairs.map (·.1)) (value : Float) :
    ((pairs ++ [(name, value)]).map (·.1)).Nodup := by
  rw [List.map_append, List.map_singleton, ← List.concat_eq_append]
  exact h.concat hnew

lemma Acceptable.concat {name : String} (h : Acceptable pairs) (hfree : isReserved name = false)
    (hnew : name ∉ pairs.map (·.1)) (value : Float) : Acceptable (pairs ++ [(name, value)]) :=
  ⟨nodup_names_concat h.1 hnew value,
    List.forall_mem_append.mpr ⟨h.2, List.forall_mem_singleton.mpr hfree⟩⟩

namespace FirstFault

lemma append (h : FirstFault pairs e) (more : List (String × Float)) :
    FirstFault (pairs ++ more) e := by
  cases h with
  | reserved hbefore hname =>
    rw [List.append_assoc]
    exact .reserved hbefore hname
  | repeated hbefore hname =>
    rw [List.append_assoc]
    exact .repeated hbefore hname

lemma not_acceptable (h : FirstFault pairs e) : ¬ Acceptable pairs := by
  rintro ⟨hnodup, hfree⟩
  cases h with
  | reserved hbefore hname =>
    rw [hfree (_, _) (List.mem_append_right _ List.mem_cons_self)] at hname
    cases hname
  | repeated hbefore hname =>
    rw [List.map_append] at hnodup
    exact List.disjoint_of_nodup_append hnodup hname List.mem_cons_self

end FirstFault

namespace Bindings

lemma ofPairs_concat (pairs : List (String × Float)) (name : String) (value : Float) :
    ofPairs (pairs ++ [(name, value)]) = (ofPairs pairs).bind (·.insertNew name value) := by
  simp [ofPairs, List.foldlM_append]
  rfl

/-- A list of pairs is bound as it is, or not at all if one of the pairs is at fault. -/
theorem ofPairs_cases (pairs : List (String × Float)) :
    (Acceptable pairs ∧ ∃ b, ofPairs pairs = .ok b ∧ b.Represents (.ofPairs pairs)) ∨
      ∃ e, ofPairs pairs = .error e ∧ FirstFault pairs e := by
  induction pairs using List.reverseRecOn with
  | nil => exact .inl ⟨⟨List.nodup_nil, by simp⟩, .empty, rfl, .empty⟩
  | append_singleton pairs pair ih =>
    obtain ⟨name, value⟩ := pair
    rw [ofPairs_concat]
    rcases ih with ⟨hpairs, b, hb, hrepresents⟩ | ⟨e, he, hfault⟩
    · rw [hb]
      have hmem : b.contains name ↔ name ∈ pairs.map (·.1) :=
        hrepresents.contains_iff.trans Assignment.mem_ofPairs
      by_cases hreserved : isReserved name
      · exact .inr ⟨_, insertNew_eq_error_iff.mpr (.inl ⟨hreserved, rfl⟩),
          .reserved hpairs hreserved⟩
      · rw [Bool.not_eq_true] at hreserved
        by_cases hcontains : b.contains name
        · exact .inr ⟨_, insertNew_eq_error_iff.mpr (.inr ⟨hreserved, hcontains, rfl⟩),
            .repeated hpairs (hmem.mp hcontains)⟩
        · refine .inl ⟨hpairs.concat hreserved (mt hmem.mpr hcontains) value, _,
            insertNew_eq_ok_iff.mpr ⟨hreserved, by simpa using hcontains, rfl⟩, ?_⟩
          rw [Assignment.ofPairs_concat]
          exact hrepresents.put hreserved value
    · rw [he]
      exact .inr ⟨e, rfl, hfault.append _⟩

/-! ### Steps -/

variable {ι : Type*}

/-- A set of bindings in each place. -/
abbrev Store (ι : Type*) := ι → Bindings

/-- A finite map in each place. -/
abbrev Maps (ι : Type*) := ι → Assignment

/-- What can be done to a set of bindings in a place. -/
inductive Step (ι : Type*) where
  | new (place : ι)
  | ofPairs (place : ι) (pairs : List (String × Float))
  | extend (place : ι) (name : String) (value : Float)
  | insert (place : ι) (name : String) (value : Float)
  | merge (place source : ι)

namespace Step

/-- The place whose set a step changes. -/
def place : Step ι → ι
  | .new place | .ofPairs place _ | .extend place _ _ | .insert place _ _ | .merge place _ => place

/-- The set of bindings that a step makes, with the value that an insertion replaces. -/
def result (store : Store ι) : Step ι → Except EvaluationError (Option Float × Bindings)
  | .new _ => .ok (none, .empty)
  | .ofPairs _ pairs => (Bindings.ofPairs pairs).map (none, ·)
  | .extend place name value => ((store place).insert name value).map fun (_, b) => (none, b)
  | .insert place name value => (store place).insert name value
  | .merge place source => ((store place).merge (store source)).map (none, ·)

/-- The finite map that a step makes, if the step is possible. -/
def image? (maps : Maps ι) : Step ι → Option Assignment
  | .new _ => some ∅
  | .ofPairs _ pairs => if Acceptable pairs then some (.ofPairs pairs) else none
  | .extend place name value | .insert place name value =>
    if isReserved name then none else some ((maps place).insert name value)
  | .merge place source =>
    if (maps place).Disjoint (maps source) then some (maps place ∪ maps source) else none

/-- Why a step is not possible. -/
inductive Refused (maps : Maps ι) : Step ι → EvaluationError → Prop where
  | ofPairs {place : ι} {pairs : List (String × Float)} {e : EvaluationError}
      (h : FirstFault pairs e) : Refused maps (.ofPairs place pairs) e
  | extend {place : ι} {name : String} {value : Float} (h : isReserved name) :
      Refused maps (.extend place name value) (.reservedName name)
  | insert {place : ι} {name : String} {value : Float} (h : isReserved name) :
      Refused maps (.insert place name value) (.reservedName name)
  | merge {place source : ι} {name : String} (h : name ∈ maps place) (h' : name ∈ maps source) :
      Refused maps (.merge place source) (.duplicateVariable name)

end Step

variable {store : Store ι} {maps : Maps ι} {step : Step ι}

/-- Whether the set in each place has the values of a finite map. -/
def Store.Represents (store : Store ι) (maps : Maps ι) : Prop :=
  ∀ place, (store place).Represents (maps place)

lemma Step.Refused.image?_eq_none (h : step.Refused maps e) : step.image? maps = none := by
  cases h with
  | ofPairs h => exact if_neg h.not_acceptable
  | extend h | insert h => exact if_pos h
  | merge h h' => exact if_neg fun hdisjoint => hdisjoint _ h h'

/-- A step makes what it makes of finite maps, or it is refused. -/
theorem Step.result_cases (h : store.Represents maps) (step : Step ι) :
    (∃ old b m, step.result store = .ok (old, b) ∧ step.image? maps = some m ∧ b.Represents m) ∨
      ∃ e, step.result store = .error e ∧ step.Refused maps e := by
  cases step with
  | new place => exact .inl ⟨_, _, _, rfl, rfl, .empty⟩
  | ofPairs place pairs =>
    rcases ofPairs_cases pairs with ⟨hpairs, b, hb, hrepresents⟩ | ⟨e, he, hfault⟩
    · exact .inl ⟨none, b, _, by rw [result, hb]; rfl, if_pos hpairs, hrepresents⟩
    · exact .inr ⟨e, by rw [result, he]; rfl, .ofPairs hfault⟩
  | extend place name value =>
    rcases (h place).insert_cases name value with ⟨hname, b, hb, hrepresents⟩ | ⟨hname, he⟩
    · exact .inl ⟨none, b, _, by rw [result, hb]; rfl, if_neg (by simp [hname]), hrepresents⟩
    · exact .inr ⟨_, by rw [result, he]; rfl, .extend hname⟩
  | insert place name value =>
    rcases (h place).insert_cases name value with ⟨hname, b, hb, hrepresents⟩ | ⟨hname, he⟩
    · exact .inl ⟨_, b, _, hb, if_neg (by simp [hname]), hrepresents⟩
    · exact .inr ⟨_, he, .insert hname⟩
  | merge place source =>
    rcases (h place).merge_cases (h source) with ⟨hdisjoint, b, hb, hrepresents⟩ |
      ⟨name, hname, hname', he⟩
    · exact .inl ⟨none, b, _, by rw [result, hb]; rfl, if_pos hdisjoint, hrepresents⟩
    · exact .inr ⟨_, by rw [result, he]; rfl, .merge hname hname'⟩

lemma Step.refused_of_result (h : store.Represents maps) (he : step.result store = .error e) :
    step.Refused maps e := by
  rcases step.result_cases h with ⟨old, b, m, hb, -, -⟩ | ⟨e', he', hrefused⟩
  · rw [hb] at he
    cases he
  · rw [he'] at he
    cases he
    exact hrefused

lemma Step.Refused.exists_result (hrefused : step.Refused maps e) (h : store.Represents maps) :
    ∃ e', step.result store = .error e' := by
  rcases step.result_cases h with ⟨old, b, m, -, hm, -⟩ | ⟨e', he', -⟩
  · rw [hrefused.image?_eq_none] at hm
    cases hm
  · exact ⟨e', he'⟩

/-! ### Runs -/

variable [DecidableEq ι]

/-- The sets after a step. One that fails leaves them as they are. -/
def Store.after (store : Store ι) (step : Step ι) : Store ι :=
  match step.result store with
  | .ok (_, b) => Function.update store step.place b
  | .error _ => store

/-- The sets after some steps. -/
def Store.run (steps : List (Step ι)) : Store ι := steps.foldl Store.after fun _ => .empty

/-- The finite maps after a step. -/
def Maps.after (maps : Maps ι) (step : Step ι) : Maps ι :=
  match step.image? maps with
  | some m => Function.update maps step.place m
  | none => maps

/-- The finite maps after some steps. -/
def Maps.run (steps : List (Step ι)) : Maps ι := steps.foldl Maps.after fun _ => ∅

/-- How a step goes, given the finite maps that the sets represent: it fails just if it is refused
and then changes nothing, and otherwise it changes the set in its place only, an insertion for one
name only and a merge by all bindings of the other set. -/
structure Step.Proper (step : Step ι) (store : Store ι) (maps : Maps ι) : Prop where
  fails_iff : (∃ e, step.result store = .error e) ↔ ∃ e, step.Refused maps e
  refused : ∀ e, step.result store = .error e → step.Refused maps e
  unchanged : ∀ e, step.result store = .error e → store.after step = store
  elsewhere : ∀ place, place ≠ step.place → store.after step place = store place
  placed : ∀ old b, step.result store = .ok (old, b) → store.after step step.place = b
  previous : ∀ place name value, step = .insert place name value →
    ∀ old b, step.result store = .ok (old, b) → old = (store place).get? name
  bound : ∀ place name value, step = .insert place name value ∨ step = .extend place name value →
    ∀ old b, step.result store = .ok (old, b) →
      ∀ n, b.get? n = if n = name then some value else (store place).get? n
  merged : ∀ place source, step = .merge place source →
    ∀ old b, step.result store = .ok (old, b) →
      (maps place).Disjoint (maps source) ∧
        (∀ n, b.get? n = ((store place).get? n).or ((store source).get? n)) ∧
        b.size = (store place).size + (store source).size

lemma Store.after_of_ok {old : Option Float} {b : Bindings}
    (h : step.result store = .ok (old, b)) :
    store.after step = Function.update store step.place b := by
  rw [after, h]

lemma Store.after_of_error (h : step.result store = .error e) : store.after step = store := by
  rw [after, h]

lemma Store.after_of_ne {place : ι} (h : place ≠ step.place) :
    store.after step place = store place := by
  cases hresult : step.result store with
  | ok made => rw [after_of_ok hresult, Function.update_of_ne h]
  | error e => rw [after_of_error hresult]

/-- Sets that represent finite maps do so after the same step. -/
theorem Store.Represents.after (h : store.Represents maps) (step : Step ι) :
    (store.after step).Represents (maps.after step) := by
  rcases step.result_cases h with ⟨old, b, m, hb, hm, hrepresents⟩ | ⟨e, he, hrefused⟩
  · rw [Store.after_of_ok hb, Maps.after, hm]
    intro place
    by_cases hplace : place = step.place
    · subst hplace
      simpa using hrepresents
    · simpa [Function.update_of_ne hplace] using h place
  · rw [Store.after_of_error he, Maps.after, hrefused.image?_eq_none]
    exact h

/-- A step on sets that represent finite maps fails where it has to and does what it should. -/
theorem Step.proper (h : store.Represents maps) (step : Step ι) : step.Proper store maps where
  fails_iff := by
    constructor
    · rintro ⟨e, he⟩
      exact ⟨e, refused_of_result h he⟩
    · rintro ⟨e, hrefused⟩
      exact hrefused.exists_result h
  refused _ := refused_of_result h
  unchanged _ := Store.after_of_error
  elsewhere _ := Store.after_of_ne
  placed old b hb := by
    rw [Store.after_of_ok hb, Function.update_self]
  previous := by
    rintro place name value rfl old b hb
    exact (insert_eq_ok_iff.mp hb).2.1
  bound := by
    rintro place name value (rfl | rfl) old b hb n
    · obtain ⟨-, -, rfl⟩ := insert_eq_ok_iff.mp hb
      exact get?_put _ _ _ _
    · obtain ⟨⟨previous, c⟩, hc, heq⟩ := map_eq_ok_iff.mp hb
      cases heq
      obtain ⟨-, -, rfl⟩ := insert_eq_ok_iff.mp hc
      exact get?_put _ _ _ _
  merged := by
    rintro place source rfl old b hb
    obtain ⟨c, hc, heq⟩ := map_eq_ok_iff.mp hb
    cases heq
    rcases (h place).merge_cases (h source) with ⟨hdisjoint, -, -, -⟩ | ⟨name, -, -, he⟩
    · obtain ⟨-, rfl⟩ := merge_eq_ok_iff.mp hc
      exact ⟨hdisjoint, get?_append _ _, size_append _ _⟩
    · rw [he] at hc
      cases hc

lemma Store.represents_run (steps : List (Step ι)) :
    (Store.run steps).Represents (Maps.run steps) := by
  induction steps using List.reverseRecOn with
  | nil => exact fun _ => .empty
  | append_singleton steps step ih =>
    rw [run, Maps.run, List.foldl_concat, List.foldl_concat]
    exact ih.after step

/-- After any steps the sets represent the finite maps after the same steps, and none of them binds
a reserved name. Every further step goes as it does on these maps. -/
theorem Store.refines_maps (steps : List (Step ι)) :
    (Store.run steps).Represents (Maps.run steps) ∧
      ∀ step : Step ι, step.Proper (Store.run steps) (Maps.run steps) :=
  ⟨represents_run steps, fun step => step.proper (represents_run steps)⟩

-- The pairs are refused for `PI`, so the merge finds no name that both sets bind.
example : (Step.merge 0 1).result (Store.run [.insert 0 "x" 1, .ofPairs 1 [("x", 2), ("PI", 3)]])
    = .ok (none, ⟨[("x", 1)]⟩) := rfl

end Bindings

end InfixCalc
