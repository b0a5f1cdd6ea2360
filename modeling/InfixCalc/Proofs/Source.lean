import InfixCalc.Proofs.Except
import InfixCalc.Source

/-!
# Answers of sources

A check of names stops at the first reserved one. A name has a value, or it is unknown.
-/

namespace InfixCalc

variable {source : Source} {name : String} {e : EvaluationError}

/-! ### Reserved names -/

lemma checkName_eq_error_iff :
    checkName name = .error e ↔ isReserved name ∧ e = .reservedName name := by
  unfold checkName
  cases isReserved name <;> simp [eq_comm]

lemma checkNames_cons (name : String) (names : List String) :
    checkNames (name :: names) = (checkName name).bind fun _ => checkNames names := rfl

/-- A check finds nothing reserved, or it stops at a reserved name. -/
lemma checkNames_cases (names : List String) :
    (checkNames names = .ok () ∧ ∀ name ∈ names, isReserved name = false) ∨
      ∃ name ∈ names, isReserved name ∧ checkNames names = .error (.reservedName name) := by
  induction names with
  | nil => exact .inl ⟨rfl, List.forall_mem_nil _⟩
  | cons name names ih =>
    rw [checkNames_cons]
    cases hname : isReserved name with
    | true =>
      refine .inr ⟨name, List.mem_cons_self, hname, ?_⟩
      rw [checkName_eq_error_iff.mpr ⟨hname, rfl⟩]
      rfl
    | false =>
      have hcheck : checkName name = .ok () := by rw [checkName, hname]; rfl
      rw [hcheck]
      rcases ih with ⟨hok, hfree⟩ | ⟨n, hn, hreserved, herror⟩
      · exact .inl ⟨hok, List.forall_mem_cons.mpr ⟨hname, hfree⟩⟩
      · exact .inr ⟨n, List.mem_cons_of_mem _ hn, hreserved, herror⟩

lemma eq_reservedName_of_checkNames {names : List String} (h : checkNames names = .error e) :
    ∃ name, e = .reservedName name := by
  rcases checkNames_cases names with ⟨hok, -⟩ | ⟨name, -, -, herror⟩
  · cases hok.symm.trans h
  · cases herror.symm.trans h
    exact ⟨name, rfl⟩

namespace Source

/-! ### Values -/

/-- Whether a name has a value, be it as a constant or in the source. -/
def resolves (s : Source) (name : String) : Bool :=
  (Constant.ofName? name).isSome || (s.get? name).isSome

/-- The first of some names that has no value. -/
def firstUnknown (s : Source) (names : List String) : Option String :=
  names.find? fun name => !s.resolves name

lemma firstUnknown_append_eq_none {ms ns : List String} :
    source.firstUnknown (ms ++ ns) = none ↔
      source.firstUnknown ms = none ∧ source.firstUnknown ns = none := by
  simp [firstUnknown]

lemma firstUnknown_append_eq_some {ms ns : List String} :
    source.firstUnknown (ms ++ ns) = some name ↔
      source.firstUnknown ms = some name ∨
        source.firstUnknown ms = none ∧ source.firstUnknown ns = some name := by
  simp only [firstUnknown, List.find?_append]
  cases ms.find? fun name => !source.resolves name <;> simp

lemma resolve_of_resolves (h : source.resolves name) (draw : Float) :
    ∃ value, source.resolve draw name = .ok value := by
  simp only [resolves, Bool.or_eq_true, Option.isSome_iff_exists] at h
  unfold resolve
  rcases h with ⟨c, hc⟩ | ⟨value, hv⟩
  · exact ⟨c.value draw, by simp [hc]⟩
  · cases hc : Constant.ofName? name with
    | none => exact ⟨value, by simp [hv]⟩
    | some c => exact ⟨c.value draw, by simp⟩

lemma resolve_of_not_resolves (h : source.resolves name = false) (draw : Float) :
    source.resolve draw name = .error (.unknownVariable name) := by
  simp only [resolves, Bool.or_eq_false_iff, Option.isSome_eq_false_iff,
    Option.isNone_iff_eq_none] at h
  simp [resolve, h.1, h.2]

lemma eq_unknownVariable_of_resolve {draw : Float} (h : source.resolve draw name = .error e) :
    e = .unknownVariable name := by
  cases hname : source.resolves name with
  | true =>
    obtain ⟨value, hvalue⟩ := resolve_of_resolves hname draw
    cases hvalue.symm.trans h
  | false =>
    cases (resolve_of_not_resolves hname draw).symm.trans h
    rfl

end Source

end InfixCalc
