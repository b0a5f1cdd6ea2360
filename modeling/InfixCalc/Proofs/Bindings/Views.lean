import InfixCalc.Proofs.Bindings.Store
import InfixCalc.Proofs.Grammar.Evaluation

/-!
# Views of a finite map

A finite map can be handed to an evaluation as a table, as a set of bindings that was built from it,
or as a function that looks names up in it. The names of a table are checked when an evaluation
starts, those of a set of bindings when it is built, and those of a function never. All of them lead
to the same outcome unless the map binds a reserved name. Such a name is refused by the checks, and
the function is not asked for it.
-/

namespace InfixCalc

variable {m : Assignment} {pairs : List (String × Float)} {name : String}

/-! ### Listings -/

/-- Whether a list has the pairs of a finite map, each of them once, in any order. -/
structure Assignment.ListedBy (m : Assignment) (pairs : List (String × Float)) : Prop where
  nodup : (pairs.map (·.1)).Nodup
  ofPairs_eq : Assignment.ofPairs pairs = m

lemma Assignment.lookup_ofPairs (pairs : List (String × Float)) (name : String) :
    (Assignment.ofPairs pairs).lookup name = Source.lastValue? pairs name := by
  induction pairs using List.reverseRecOn with
  | nil => rfl
  | append_singleton pairs pair ih =>
    obtain ⟨k, value⟩ := pair
    rw [ofPairs_concat, Source.lastValue?, List.reverse_concat, Bindings.lookup_cons]
    split_ifs with hname
    · rw [hname, Finmap.lookup_insert]
    · rw [Finmap.lookup_insert_of_ne _ hname, ih, Source.lastValue?]

namespace Assignment.ListedBy

lemma mem_iff (h : m.ListedBy pairs) : name ∈ pairs.map (·.1) ↔ name ∈ m := by
  rw [← h.ofPairs_eq, Assignment.mem_ofPairs]

lemma lastValue?_eq (h : m.ListedBy pairs) (name : String) :
    Source.lastValue? pairs name = m.lookup name := by
  rw [← h.ofPairs_eq, Assignment.lookup_ofPairs]

lemma concat (h : m.ListedBy pairs) (hname : name ∉ m) (value : Float) :
    Assignment.ListedBy (m.insert name value) (pairs ++ [(name, value)]) where
  nodup := nodup_names_concat h.nodup (mt h.mem_iff.mp hname) value
  ofPairs_eq := by
    rw [Assignment.ofPairs_concat, h.ofPairs_eq]

end Assignment.ListedBy

lemma Assignment.exists_listedBy (m : Assignment) : ∃ pairs, m.ListedBy pairs := by
  induction m using Finmap.induction_on with
  | H entries =>
    induction entries using AList.insertRec with
    | H0 => exact ⟨[], List.nodup_nil, rfl⟩
    | IH name value entries hname ih =>
      obtain ⟨pairs, hpairs⟩ := ih
      rw [← Finmap.insert_toFinmap]
      exact ⟨_, hpairs.concat hname value⟩

/-! ### Reserved names -/

/-- The reserved names that a finite map binds. -/
def Assignment.reservedNames (m : Assignment) : Finset String := m.keys.filter (isReserved ·)

lemma Assignment.mem_reservedNames_iff :
    name ∈ m.reservedNames ↔ name ∈ m ∧ isReserved name := by
  rw [reservedNames, Finset.mem_filter, Finmap.mem_keys]

/-- Pairs that list a finite map without reserved names can be bound. -/
lemma Assignment.ListedBy.exists_bindings (h : m.ListedBy pairs)
    (hm : ∀ name ∈ m, isReserved name = false) : ∃ b, Bindings.ofPairs pairs = .ok b := by
  have hpairs : Acceptable pairs :=
    ⟨h.nodup, fun pair hpair => hm _ (h.mem_iff.mp (List.mem_map_of_mem hpair))⟩
  rcases Bindings.ofPairs_cases pairs with ⟨-, b, hb, -⟩ | ⟨e, -, hfault⟩
  · exact ⟨b, hb⟩
  · exact absurd hpairs hfault.not_acceptable

lemma Assignment.ListedBy.represents {b : Bindings} (h : m.ListedBy pairs)
    (hb : Bindings.ofPairs pairs = .ok b) : b.Represents m := by
  rcases Bindings.ofPairs_cases pairs with ⟨-, c, hc, hrepresents⟩ | ⟨e, he, -⟩
  · rw [hb] at hc
    cases hc
    rw [← h.ofPairs_eq]
    exact hrepresents
  · rw [hb] at he
    cases he

/-- The only reserved name of a finite map is the one for which pairs that list it are refused. -/
lemma Assignment.ListedBy.ofPairs_eq_error (h : m.ListedBy pairs)
    (hm : ∀ n, n ∈ m → isReserved n → n = name) (hname : name ∈ m) (hreserved : isReserved name) :
    Bindings.ofPairs pairs = .error (.reservedName name) := by
  rcases Bindings.ofPairs_cases pairs with ⟨⟨-, hfree⟩, -⟩ | ⟨e, he, hfault⟩
  · obtain ⟨pair, hpair, rfl⟩ := List.mem_map.mp (h.mem_iff.mpr hname)
    rw [hfree pair hpair] at hreserved
    cases hreserved
  · rw [he]
    cases hfault with
    | @reserved before after n value hbefore hn =>
      have hmem : n ∈ m := h.mem_iff.mp (by simp)
      rw [hm n hmem hn]
    | @repeated before after n value hbefore hn =>
      have hnodup := h.nodup
      rw [List.map_append] at hnodup
      exact absurd List.mem_cons_self (List.disjoint_of_nodup_append hnodup hn)

/-! ### Views -/

/-- The tables that hold a finite map, and the references to them. -/
inductive Source.TableOf (m : Assignment) : Source → Prop where
  | table {pairs : List (String × Float)} (h : m.ListedBy pairs) : TableOf m (.ofTable pairs)
  | sortedTable {pairs : List (String × Float)} (h : m.ListedBy pairs) :
      TableOf m (.ofSortedTable pairs)
  | reference {s : Source} (h : TableOf m s) : TableOf m s.reference

/-- The sources that hold a finite map: its tables, the bindings built from it, and the function
that looks names up in it. -/
inductive Source.ViewOf (m : Assignment) : Source → Prop where
  | table {s : Source} (h : TableOf m s) : ViewOf m s
  | bindings {pairs : List (String × Float)} {b : Bindings} (h : m.ListedBy pairs)
      (hb : Bindings.ofPairs pairs = .ok b) : ViewOf m (.ofBindings b)
  | function : ViewOf m (.ofFunction fun name => m.lookup name)

variable {s t : Source}

namespace Source.TableOf

/-- The check of a table is one of the names of the map. -/
lemma exists_names (h : TableOf m s) :
    ∃ names, s.check = checkNames names ∧ ∀ name, name ∈ names ↔ name ∈ m := by
  induction h with
  | table h => exact ⟨_, rfl, fun _ => h.mem_iff⟩
  | sortedTable h => exact ⟨_, rfl, fun _ => List.mem_mergeSort.trans h.mem_iff⟩
  | reference h ih => exact ih

lemma get?_eq (h : TableOf m s) (name : String) : s.get? name = m.lookup name := by
  induction h with
  | table h | sortedTable h => exact h.lastValue?_eq name
  | reference h ih => exact ih

lemma check_eq_ok (h : TableOf m s) (hm : ∀ name ∈ m, isReserved name = false) :
    s.check = .ok () := by
  obtain ⟨names, hcheck, hnames⟩ := h.exists_names
  rw [hcheck]
  rcases checkNames_cases names with ⟨hok, -⟩ | ⟨name, hname, hreserved, -⟩
  · exact hok
  · rw [hm name ((hnames name).mp hname)] at hreserved
    cases hreserved

lemma check_eq_error (h : TableOf m s) (hm : ∀ n, n ∈ m → isReserved n → n = name)
    (hname : name ∈ m) (hreserved : isReserved name) : s.check = .error (.reservedName name) := by
  obtain ⟨names, hcheck, hnames⟩ := h.exists_names
  rw [hcheck]
  rcases checkNames_cases names with ⟨-, hfree⟩ | ⟨n, hn, hn', herror⟩
  · rw [hfree name ((hnames name).mpr hname)] at hreserved
    cases hreserved
  · rw [hm n ((hnames n).mp hn) hn'] at herror
    exact herror

end Source.TableOf

namespace Source.ViewOf

lemma get?_eq (h : ViewOf m s) (name : String) : s.get? name = m.lookup name := by
  cases h with
  | table h => exact h.get?_eq name
  | bindings h hb => exact (h.represents hb).get? name
  | function => rfl

lemma check_eq_ok (h : ViewOf m s) (hm : ∀ name ∈ m, isReserved name = false) :
    s.check = .ok () := by
  cases h with
  | table h => exact h.check_eq_ok hm
  | bindings | function => rfl

end Source.ViewOf

/-! ### Evaluation -/

variable {statement : String} {p : Program}

/-- Sources that give the same values to all names that are not reserved lead to the same outcome,
also with different random numbers if the statement uses none. -/
lemma evaluate_eq_of_get?_eq (h : parse statement = .ok p) (hdraws : p.drawCount = 0)
    (hs : s.check = .ok ()) (ht : t.check = .ok ())
    (hget : ∀ name, isReserved name = false → s.get? name = t.get? name) (draws draws' : Draws) :
    p.evaluate s draws = p.evaluate t draws' := by
  rw [p.evaluate_eq_of_drawCount_eq_zero hdraws s draws draws']
  apply Program.evaluate_congr hs ht
  intro name hname
  exact hget name (mentioned_of_mem_freeVariables h hname).2

/-- All views of a finite map lead to the same outcome if it binds no reserved name. Otherwise its
tables and the bindings built from it are refused for the reserved name, and the function that looks
names up leads to the same outcome as any view of the map without that name. -/
theorem views_agree_of_parse (hm : m.reservedNames.card ≤ 1) (h : parse statement = .ok p)
    (hdraws : p.drawCount = 0) (draws draws' : Draws) :
    (∃ pairs, m.ListedBy pairs) ∧
      ((∀ name ∈ m, isReserved name = false) →
        (∀ pairs, m.ListedBy pairs → ∃ b, Bindings.ofPairs pairs = .ok b) ∧
          ∀ s t, Source.ViewOf m s → Source.ViewOf m t →
            p.evaluate s draws = p.evaluate t draws') ∧
      ∀ name ∈ m, isReserved name →
        (∀ s, Source.TableOf m s → ∀ q : Program,
          q.evaluate s draws = .error (.reservedName name)) ∧
        (∀ pairs, m.ListedBy pairs → Bindings.ofPairs pairs = .error (.reservedName name)) ∧
        ∀ t, Source.ViewOf (m.erase name) t →
          p.evaluate (.ofFunction fun n => m.lookup n) draws = p.evaluate t draws' := by
  refine ⟨m.exists_listedBy, ?_, ?_⟩
  · intro hfree
    constructor
    · intro pairs hpairs
      exact hpairs.exists_bindings hfree
    · intro s t hs ht
      apply evaluate_eq_of_get?_eq h hdraws (hs.check_eq_ok hfree) (ht.check_eq_ok hfree)
      intro name _
      rw [hs.get?_eq, ht.get?_eq]
  · intro name hname hreserved
    have honly : ∀ n, n ∈ m → isReserved n → n = name := by
      intro n hn hn'
      exact Finset.card_le_one.mp hm n (Assignment.mem_reservedNames_iff.mpr ⟨hn, hn'⟩) name
        (Assignment.mem_reservedNames_iff.mpr ⟨hname, hreserved⟩)
    refine ⟨?_, ?_, ?_⟩
    · intro s hs q
      exact Program.evaluate_of_check_error (hs.check_eq_error honly hname hreserved) draws
    · intro pairs hpairs
      exact hpairs.ofPairs_eq_error honly hname hreserved
    · intro t ht
      have hfree : ∀ n ∈ m.erase name, isReserved n = false := by
        intro n hn
        obtain ⟨hne, hmem⟩ := Finmap.mem_erase.mp hn
        exact Bool.eq_false_of_not_eq_true fun hn' => hne (honly n hmem hn')
      -- Only names that are not reserved are looked up, so the lack of one that is goes unnoticed.
      apply evaluate_eq_of_get?_eq h hdraws rfl (ht.check_eq_ok hfree)
      intro n hn
      have hne : n ≠ name := by
        rintro rfl
        rw [hn] at hreserved
        cases hreserved
      rw [ht.get?_eq, Finmap.lookup_erase_ne hne]
      rfl

/-- In `x * PI` only `x` is looked up. A map that binds `x` can be viewed in any way, and one that
binds `PI` as well only by its function. -/
theorem views_agree_timesPi :
    parse "x * PI" = .ok Sentence.timesPi.program ∧
      Sentence.timesPi.program.drawCount = 0 ∧
      (Assignment.ofPairs [("x", 2)]).reservedNames.card ≤ 1 ∧
      (Assignment.ofPairs [("x", 2), ("PI", 3)]).reservedNames.card ≤ 1 ∧
      Bindings.ofPairs [("x", 2)] = .ok ⟨[("x", 2)]⟩ ∧
      Sentence.timesPi.program.evaluate (.ofTable [("x", 2)]) (.ofSeed 0)
        = Sentence.timesPi.program.evaluate (.ofBindings ⟨[("x", 2)]⟩) (.ofSeed 1) ∧
      Program.empty.evaluate (.ofSortedTable [("PI", 3), ("x", 2)]) (.ofSeed 0)
        = .error (.reservedName "PI") ∧
      Bindings.ofPairs [("PI", 3), ("x", 2)] = .error (.reservedName "PI") ∧
      Sentence.timesPi.program.evaluate
          (.ofFunction fun n => (Assignment.ofPairs [("x", 2), ("PI", 3)]).lookup n) (.ofSeed 0)
        = Sentence.timesPi.program.evaluate (.ofTable [("x", 2)]) (.ofSeed 1) := by
  have hparse : parse "x * PI" = .ok Sentence.timesPi.program :=
    parse_of_tokens (by decide +kernel) _ (by decide +kernel)
  have hdraws : Sentence.timesPi.program.drawCount = 0 := by decide
  have hfree : (Assignment.ofPairs [("x", 2)]).reservedNames.card ≤ 1 := by decide
  have hone : (Assignment.ofPairs [("x", 2), ("PI", 3)]).reservedNames.card ≤ 1 := by decide
  have hx : (Assignment.ofPairs [("x", 2)]).ListedBy [("x", 2)] := ⟨by decide, rfl⟩
  have hx' : Assignment.ListedBy ((Assignment.ofPairs [("x", 2), ("PI", 3)]).erase "PI")
      [("x", 2)] := ⟨by decide, rfl⟩
  have hpi : (Assignment.ofPairs [("x", 2), ("PI", 3)]).ListedBy [("PI", 3), ("x", 2)] :=
    ⟨by decide, Finmap.insert_insert_of_ne _ (by decide)⟩
  have hbindings : Bindings.ofPairs [("x", 2)] = .ok ⟨[("x", 2)]⟩ := rfl
  have hunreserved : ∀ name ∈ Assignment.ofPairs [("x", 2)], isReserved name = false := by
    intro name hname
    rw [List.mem_singleton.mp (hx.mem_iff.mpr hname)]
    decide
  obtain ⟨-, hagree, -⟩ := views_agree_of_parse hfree hparse hdraws (.ofSeed 0) (.ofSeed 1)
  obtain ⟨-, -, hrefused⟩ := views_agree_of_parse hone hparse hdraws (.ofSeed 0) (.ofSeed 1)
  obtain ⟨htable, hpairs, hfunction⟩ := hrefused "PI" (hpi.mem_iff.mp (by decide)) (by decide)
  refine ⟨hparse, hdraws, hfree, hone, hbindings, ?_, ?_, hpairs _ hpi, ?_⟩
  · exact (hagree hunreserved).2 _ _ (.table (.table hx)) (.bindings hx hbindings)
  · exact htable _ (.sortedTable hpi) _
  · exact hfunction _ (.table (.table hx'))

end InfixCalc
