import InfixCalc.Proofs.Word.Spelling

/-!
# Words of items that go on

To read a word takes at most one item after it. So the words of some items stay the same when other
items follow, as long as no segment runs into these: all but one, for the name of a function at the
very end becomes a call if a parenthesis follows.
-/

namespace InfixCalc

namespace Word

/-- Whether a segment at the end of some items ends before the items after it. -/
def Detached (is js : List Item) : Prop :=
  ∀ text start stop, .lexeme ⟨.segment text, start, stop⟩ ∈ is.getLast? → runsInto stop js = false

variable {is js rest : List Item} {before after : List Word} {w : Word}

lemma Detached.of_suffix (h : Detached is js) (hsuffix : rest <:+ is) : Detached rest js := by
  obtain ⟨front, rfl⟩ := hsuffix
  intro text start stop hl
  apply h text start stop
  rw [List.getLast?_append, Option.mem_def.mp hl]
  rfl

lemma Detached.runsInto_append {text : String} {start stop : Nat}
    (h : Detached (.lexeme ⟨.segment text, start, stop⟩ :: rest) js) :
    runsInto stop (rest ++ js) = runsInto stop rest := by
  cases rest with
  | nil => exact h text start stop rfl
  | cons item rest => cases item <;> rfl

lemma openingAt?_append (hne : rest ≠ []) : openingAt? (rest ++ js) = openingAt? rest := by
  cases rest with
  | nil => exact absurd rfl hne
  | cons item rest =>
    cases item with
    | illegal found index => rfl
    | lexeme l =>
      obtain ⟨_ | _ | _ | _ | _, start, stop⟩ := l <;> rfl

lemma ofItems_bare (f : Builtin) (start stop : Nat) :
    ofItems [.lexeme ⟨.segment f.name, start, stop⟩] = [⟨.bare f, start⟩] := by
  simp [ofItems, runsInto, openingAt?]

lemma ne_nil_of_ofItems (h : ofItems is = before ++ w :: after) : is ≠ [] := by
  rintro rfl
  cases before <;> cases h

/-- The first word is the same whatever follows, unless it is a name at the very end. -/
theorem first_append (hdetached : Detached is js) (hne : is ≠ []) :
    (∃ w rest, rest <:+ is ∧ ofItems is = w :: ofItems rest ∧
        ofItems (is ++ js) = w :: ofItems (rest ++ js)) ∨
      ∃ f start stop openAt tail, is = [.lexeme ⟨.segment (Builtin.name f), start, stop⟩] ∧
        openingAt? js = some openAt ∧ ofItems (is ++ js) = ⟨.call f openAt, start⟩ :: tail := by
  match is with
  | [] => exact absurd rfl hne
  | .illegal found index :: rest => exact .inl ⟨_, rest, List.suffix_cons _ _, rfl, rfl⟩
  | .lexeme ⟨.operator op, start, stop⟩ :: rest
  | .lexeme ⟨.opening, start, stop⟩ :: rest
  | .lexeme ⟨.closing, start, stop⟩ :: rest
  | .lexeme ⟨.comma, start, stop⟩ :: rest =>
    exact .inl ⟨_, rest, List.suffix_cons _ _, rfl, rfl⟩
  | .lexeme ⟨.segment text, start, stop⟩ :: rest =>
    rw [List.cons_append, ofItems, ofItems, hdetached.runsInto_append]
    by_cases hruns : runsInto stop rest
    · obtain ⟨found, index, rest, rfl⟩ := exists_of_runsInto hruns
      rw [if_pos hruns, if_pos hruns]
      exact .inl ⟨_, rest, (List.suffix_cons _ _).trans (List.suffix_cons _ _), rfl, rfl⟩
    · rw [if_neg hruns, if_neg hruns]
      cases hname : Builtin.ofName? text with
      | none => exact .inl ⟨_, rest, List.suffix_cons _ _, rfl, rfl⟩
      | some f =>
        obtain rfl := Builtin.ofName?_eq_some_iff.mp hname
        cases rest with
        | nil =>
          rw [List.nil_append]
          cases hopening : openingAt? js with
          | none => exact .inl ⟨_, [], List.suffix_cons _ _, rfl, rfl⟩
          | some openAt => exact .inr ⟨f, start, stop, openAt, _, rfl, rfl, rfl⟩
        | cons item rest =>
          rw [openingAt?_append (List.cons_ne_nil item rest)]
          cases hopening : openingAt? (item :: rest) with
          | none => exact .inl ⟨_, item :: rest, List.suffix_cons _ _, rfl, rfl⟩
          | some openAt =>
            obtain ⟨openStop, rest', hcons⟩ := openingAt?_eq_some_iff.mp hopening
            obtain ⟨rfl, rfl⟩ := List.cons.inj hcons
            exact .inl ⟨_, rest, (List.suffix_cons _ _).trans (List.suffix_cons _ _), rfl, rfl⟩

/-- The words up to any one of them are the same whatever follows, but the last of all words can
become a call. -/
theorem ofItems_append (h : ofItems is = before ++ w :: after) (hdetached : Detached is js) :
    ∃ w' after', ofItems (is ++ js) = before ++ w' :: after' ∧
      (w' = w ∨ after = [] ∧ ∃ f start openAt,
        w = ⟨.bare f, start⟩ ∧ w' = ⟨.call f openAt, start⟩) := by
  induction before generalizing is with
  | nil =>
    rcases first_append hdetached (ne_nil_of_ofItems h) with ⟨v, rest, -, hfirst, hlong⟩ |
      ⟨f, start, stop, openAt, tail, rfl, -, hlong⟩
    · rw [hfirst] at h
      obtain ⟨rfl, rfl⟩ := List.cons.inj h
      exact ⟨v, _, hlong, .inl rfl⟩
    · rw [ofItems_bare] at h
      obtain ⟨rfl, rfl⟩ := List.cons.inj h
      exact ⟨_, tail, hlong, .inr ⟨rfl, f, start, openAt, rfl, rfl⟩⟩
  | cons v before ih =>
    rcases first_append hdetached (ne_nil_of_ofItems h) with ⟨u, rest, hsuffix, hfirst, hlong⟩ |
      ⟨f, start, stop, openAt, tail, rfl, -, hlong⟩
    · rw [hfirst] at h
      obtain ⟨rfl, hrest⟩ := List.cons.inj h
      obtain ⟨w', after', hwords, hcases⟩ := ih hrest (hdetached.of_suffix hsuffix)
      exact ⟨w', after', by rw [hlong, hwords]; rfl, hcases⟩
    · rw [ofItems_bare] at h
      cases before <;> cases h

/-- Where no parenthesis follows, the words of what follows are added. -/
theorem ofItems_append_of_openingAt? {is : List Item} (hdetached : Detached is js)
    (hjs : openingAt? js = none) : ofItems (is ++ js) = ofItems is ++ ofItems js := by
  by_cases hne : is = []
  · rw [hne]
    rfl
  rcases first_append hdetached hne with ⟨w, rest, hsuffix, hfirst, hlong⟩ |
    ⟨f, start, stop, openAt, tail, -, hopening, -⟩
  · rw [hlong, hfirst, ofItems_append_of_openingAt? (hdetached.of_suffix hsuffix) hjs]
    rfl
  · rw [hjs] at hopening
    cases hopening
termination_by is.length
decreasing_by
  apply Nat.lt_of_le_of_ne hsuffix.length_le
  intro heq
  rw [hsuffix.eq_of_length heq] at hfirst
  simpa using congrArg List.length hfirst

lemma Heads.suffix (h : Heads is w rest) : rest <:+ is := by
  cases h with
  | written h => exact List.suffix_append _ _
  | unreadable | bare | illegal => exact List.suffix_cons _ _
  | lost => exact (List.suffix_cons _ _).trans (List.suffix_cons _ _)

/-- A name that is the last word is the last item. -/
lemma exists_of_ofItems_bare {f : Builtin} {start : Nat}
    (h : ofItems is = before ++ [⟨.bare f, start⟩]) :
    ∃ front stop, is = front ++ [.lexeme ⟨.segment f.name, start, stop⟩] := by
  induction before generalizing is with
  | nil =>
    rcases heads_ofItems is with rfl | ⟨w, rest, hheads, hfirst⟩
    · cases h
    · rw [hfirst] at h
      obtain ⟨rfl, hnil⟩ := List.cons.inj h
      rcases heads_ofItems rest with rfl | ⟨v, rest, -, hcons⟩
      · cases hheads with
        | written hw => cases hw
        | bare f start stop => exact ⟨[], stop, rfl⟩
      · cases hcons.symm.trans hnil
  | cons v before ih =>
    rcases heads_ofItems is with rfl | ⟨w, rest, hheads, hfirst⟩
    · cases h
    · rw [hfirst] at h
      obtain ⟨front, stop, rfl⟩ := ih (List.cons.inj h).2
      obtain ⟨items, rfl⟩ := hheads.suffix
      exact ⟨items ++ front, stop, (List.append_assoc _ _ _).symm⟩

end Word

end InfixCalc
