import InfixCalc.Proofs.Grammar.Completion
import InfixCalc.Proofs.Grammar.Persistence

/-!
# Calls with too many arguments

What has been read of a statement without a fault can be completed just if no call that is open
there has more arguments than its function takes. Such a call never loses an argument and can never
end, whatever is written after the statement. This holds as well for a text that lengthens the last
segment of the statement, for a segment opens nothing.
-/

namespace InfixCalc

/-- Whether a call that is open at the end of a statement has more arguments than its function
takes. An argument counts as soon as it has begun, the first one with the parenthesis and a further
one with its comma. -/
def Overfull (statement : String) : Prop :=
  ∃ ls groups f expected begun openAt, items statement = ls.map .lexeme ∧ Opens ls groups ∧
    ⟨some f, begun, openAt⟩ ∈ groups ∧ f.arity = .exact expected ∧ expected < begun

lemma Group.fillable_of_ending {g : Group} {code : List Instruction} (h : g.ending = .ok code) :
    g.Fillable := by
  intro f expected hcallee harity
  by_contra hlt
  have hne : expected ≠ g.begun := by omega
  rw [ending_eq_error_iff.mpr ⟨f, expected, hcallee, harity, hne, rfl⟩] at h
  cases h

namespace Conversion

variable {c c' : Conversion} {before after : List Word} {w : Word} {p : Program}

/-- A group that has too many arguments after a word had too many before it, or it is gone. -/
lemma Step.fillable (h : Step c w c') (hgroups : ∀ g ∈ c'.groups, g.Fillable) :
    ∀ g ∈ c.groups, g.Fillable := by
  cases h with
  | operator hnext => rwa [groups_receive] at hgroups
  | opening hphase | call hphase => exact (List.forall_mem_cons.mp hgroups).2
  | closing hphase hwaiting hopen hending =>
    rw [hopen]
    exact List.forall_mem_cons.mpr ⟨Group.fillable_of_ending hending, hgroups⟩
  | comma hphase hopen =>
    obtain ⟨hfirst, hrest⟩ := List.forall_mem_cons.mp hgroups
    rw [hopen]
    refine List.forall_mem_cons.mpr ⟨?_, hrest⟩
    intro f expected hcallee harity
    exact (Nat.le_succ _).trans (hfirst f expected hcallee harity)
  | number hphase | «variable» hphase => exact hgroups

lemma fillable_of_consume {ws : List Word} (h : c.consume ws = (c', none))
    (hgroups : ∀ g ∈ c'.groups, g.Fillable) : ∀ g ∈ c.groups, g.Fillable := by
  induction ws generalizing c with
  | nil =>
    cases h
    exact hgroups
  | cons w ws ih =>
    obtain ⟨next, hstep, hnext⟩ := consume_cons_eq_none_iff.mp h
    exact hstep.fillable (ih hnext)

lemma groups_eq_nil_of_program (h : c.program = .ok p) : c.groups = [] := by
  unfold program at h
  split_ifs at h
  cases hgroups : c.groups with
  | nil => rfl
  | cons group groups =>
    rw [hgroups] at h
    cases h

lemma exists_of_consume_append (h : c.consume (before ++ after) = (c', none)) :
    ∃ next, c.consume before = (next, none) ∧ next.consume after = (c', none) := by
  induction before generalizing c with
  | nil => exact ⟨c, rfl, h⟩
  | cons w before ih =>
    obtain ⟨first, hstep, hfirst⟩ := consume_cons_eq_none_iff.mp h
    obtain ⟨next, hbefore, hafter⟩ := ih hfirst
    exact ⟨next, consume_cons_eq_none_iff.mpr ⟨first, hstep, hbefore⟩, hafter⟩

/-- A segment opens nothing and closes nothing. -/
lemma groups_of_consume_segment {text : String} {start stop : Nat}
    (h : c.consume (Word.ofItems [.lexeme ⟨.segment text, start, stop⟩]) = (c', none)) :
    c'.groups = c.groups := by
  rcases Word.heads_ofItems [.lexeme ⟨.segment text, start, stop⟩] with hnil |
    ⟨w, rest, hheads, hcons⟩
  · cases hnil
  · rw [hcons] at h
    obtain ⟨next, hstep, hrest⟩ := consume_cons_eq_none_iff.mp h
    obtain ⟨ls, hls, hwritten⟩ := hstep.exists_written hheads
    cases hwritten with
    | operator | opening | closing | comma | call => cases hls
    | number | «variable» =>
      cases hls
      cases hrest
      cases hstep
      rfl

/-- What is read without a fault is the beginning of all that follows it at a distance. -/
lemma exists_of_consume_ofItems {is js : List Item} (h : c.consume (Word.ofItems is) = (c', none))
    (hdetached : Word.Detached is js) :
    ∃ ws, Word.ofItems (is ++ js) = Word.ofItems is ++ ws := by
  rcases List.eq_nil_or_concat' (Word.ofItems is) with hnil | ⟨before, w, hwords⟩
  · exact ⟨_, by rw [hnil, List.nil_append]⟩
  · obtain ⟨w', after, hafter, rfl | ⟨-, f, start, openAt, rfl, -⟩⟩ :=
      Word.ofItems_append hwords hdetached
    · exact ⟨after, by rw [hafter, hwords, List.append_assoc]; rfl⟩
    · -- A name of a function at the very end would have been a fault.
      rw [hwords] at h
      obtain ⟨next, -, hlast⟩ := exists_of_consume_append h
      obtain ⟨last, hstep, -⟩ := consume_cons_eq_none_iff.mp hlast
      cases hstep

end Conversion

/-! ### Statements that go on -/

namespace Lexeme

/-- A text ends with a run of segment characters, which can be empty. -/
lemma exists_run (cs : List Char) :
    ∃ front run, cs = front ++ run ∧ (∀ c ∈ run, isSegmentChar c) ∧
      ∀ a ∈ front.getLast?, isSegmentChar a = false :=
  ⟨cs.rdropWhile isSegmentChar, cs.rtakeWhile isSegmentChar,
    List.rdropWhile_append_rtakeWhile.symm, fun _ => List.mem_rtakeWhile_imp,
    not_isSegmentChar_of_mem_getLast? cs⟩

lemma openingAt?_scan {c : Char} (h : isSegmentChar c) (start : Nat) (cs : List Char) :
    Word.openingAt? (scan start (c :: cs)) = none := by
  rw [scan_run h]
  rfl

/-- Nothing runs into what is legal. -/
lemma detached_of_isLegal {back : List Char} (h : ∀ c ∈ back, isLegal c) (is : List Item)
    (start : Nat) : Word.Detached is (scan start back) := by
  intro _ _ stop _
  cases hruns : Word.runsInto stop (scan start back) with
  | false => rfl
  | true =>
    obtain ⟨found, index, rest, hscan⟩ := Word.exists_of_runsInto hruns
    have hmem : .illegal found index ∈ scan start back := by
      rw [hscan]
      exact List.mem_cons_self
    obtain ⟨l', hl'⟩ := (forall_mem_scan_iff start back).mpr h _ hmem
    cases hl'

end Lexeme

variable {s t : String} {c : Conversion}

/-- What goes on after a statement shares all its words, except that the last one can be another
segment. -/
theorem exists_common_words (hlegal : Legal (s ++ t))
    (h : Conversion.initial.consume (words s) = (c, none)) :
    ∃ before ws next, words (s ++ t) = before ++ ws ∧
      Conversion.initial.consume before = (next, none) ∧ next.groups = c.groups := by
  obtain ⟨front, run, hs, hrun, hfront⟩ := Lexeme.exists_run s.toList
  have hscan : ∀ back, Lexeme.scan 0 (front ++ back)
      = Lexeme.scan 0 front ++ Lexeme.scan (0 + String.utf8Len front) back :=
    fun back => Lexeme.scan_append (Lexeme.separated_of_last hfront) 0
  have hchars : (s ++ t).toList = front ++ (run ++ t.toList) := by
    rw [String.toList_append, hs, List.append_assoc]
  have hshort : words s = Word.ofItems (Lexeme.scan 0 front ++
      Lexeme.scan (0 + String.utf8Len front) run) := by
    rw [words, items, hs, hscan]
  have hlong : words (s ++ t) = Word.ofItems (Lexeme.scan 0 front ++
      Lexeme.scan (0 + String.utf8Len front) (run ++ t.toList)) := by
    rw [words, items, hchars, hscan]
  have hdetached : Word.Detached (Lexeme.scan 0 front)
      (Lexeme.scan (0 + String.utf8Len front) (run ++ t.toList)) := by
    apply Lexeme.detached_of_isLegal
    intro d hd
    apply hlegal d
    rw [hchars]
    exact List.mem_append_right front hd
  cases run with
  | nil =>
    rw [Lexeme.scan, List.append_nil] at hshort
    rw [hshort] at h
    obtain ⟨ws, hws⟩ := Conversion.exists_of_consume_ofItems h hdetached
    exact ⟨_, ws, c, hlong.trans hws, h, rfl⟩
  | cons d run =>
    have hd : Lexeme.isSegmentChar d := hrun d List.mem_cons_self
    have hdetached' : Word.Detached (Lexeme.scan 0 front)
        (Lexeme.scan (0 + String.utf8Len front) (d :: run)) :=
      Lexeme.detached_of_isLegal (fun c hc => Lexeme.isLegal_of_isSegmentChar (hrun c hc)) _ _
    have hopening := Lexeme.openingAt?_scan hd (0 + String.utf8Len front)
    rw [List.cons_append] at hlong hdetached
    rw [Word.ofItems_append_of_openingAt? hdetached (hopening _)] at hlong
    rw [hshort, Word.ofItems_append_of_openingAt? hdetached' (hopening run)] at h
    obtain ⟨next, hbefore, hlast⟩ := Conversion.exists_of_consume_append h
    rw [Lexeme.scan_segment (List.cons_ne_nil d run) hrun] at hlast
    exact ⟨_, _, next, hlong, hbefore, (Conversion.groups_of_consume_segment hlast).symm⟩

/-- What can be completed has no open call with too many arguments. -/
lemma fillable_of_parse_append {p : Program} (hparse : parse (s ++ t) = .ok p)
    (h : Conversion.initial.consume (words s) = (c, none)) : ∀ g ∈ c.groups, g.Fillable := by
  obtain ⟨before, ws, next, hwords, hbefore, hgroups⟩ :=
    exists_common_words (exists_sentence_of_parse hparse).1 h
  obtain ⟨last, hlast, hprogram⟩ := parse_eq_ok_iff.mp hparse
  rw [hwords, Conversion.consume_append hbefore] at hlast
  rw [← hgroups]
  apply Conversion.fillable_of_consume hlast
  rw [Conversion.groups_eq_nil_of_program hprogram]
  exact List.forall_mem_nil _

/-- What has no open call with too many arguments can be completed. -/
lemma exists_completion {ls : List Lexeme} (hitems : items s = ls.map .lexeme)
    (htracks : Tracks ls c) (hgroups : ∀ g ∈ c.groups, g.Fillable) :
    ∃ t p, parse (s ++ t) = .ok p := by
  obtain ⟨sentence, hsentence⟩ := htracks.viable.exists_sentence_completion hgroups
  have hspellable : ∀ t ∈ completion c.groups c.phase, t.Spellable :=
    fun t ht => spellable_of_mem_completion ht
  refine ⟨String.ofList (Token.spell (completion c.groups c.phase)), sentence.program, ?_⟩
  apply parse_of_tokens (legal_append_spell (legal_of_items hitems) hspellable) sentence
  rw [tokens_append_spell hspellable, tokens_of_items hitems, hsentence]

lemma not_overfull_iff {ls : List Lexeme} (hitems : items s = ls.map .lexeme)
    (htracks : Tracks ls c) : ¬ Overfull s ↔ ∀ g ∈ c.groups, g.Fillable := by
  constructor
  · rintro hoverfull ⟨callee, begun, openAt⟩ hg f expected rfl harity
    by_contra hlt
    exact hoverfull ⟨ls, c.groups, f, expected, begun, openAt, hitems, htracks.opens, hg, harity,
      Nat.lt_of_not_le hlt⟩
  · rintro hgroups ⟨ls', groups, f, expected, begun, openAt, hitems', hopens, hg, harity, hlt⟩
    obtain rfl : ls = ls' :=
      List.map_injective_iff.mpr (fun _ _ => Item.lexeme.inj) (hitems.symm.trans hitems')
    rw [hopens.groups_eq, ← htracks.opens.groups_eq] at hg
    exact Nat.not_le_of_lt hlt (hgroups _ hg f expected rfl harity)

/-- What fails before its end does not end too early. -/
lemma consume_eq_none_of_incomplete {r : Rejection} (h : parse s = .error r)
    (hcause : r.cause = .trailingOperator ∨ r.cause = .unclosedParen) :
    ∃ c, Conversion.initial.consume (words s) = (c, none) := by
  obtain ⟨-, c, hconsume | ⟨hconsume, -⟩⟩ := parse_eq_error_iff.mp h
  · obtain ⟨before, w, after, -, -, hread⟩ := Conversion.exists_of_consume_eq_some hconsume
    have hfails := Conversion.fails_of_read hread
    generalize hfault : r.toFault = fault at hfails
    have hfaultCause : fault.cause = .trailingOperator ∨ fault.cause = .unclosedParen := by
      rwa [← hfault]
    cases hfails <;> simp [Cause.at] at hfaultCause
  · exact ⟨c, hconsume⟩

/-- A statement that is rejected because it ends too early can be completed just if no call that is
open at its end has too many arguments. -/
theorem exists_completion_iff {r : Rejection} (h : parse s = .error r)
    (hcause : r.cause = .trailingOperator ∨ r.cause = .unclosedParen) :
    (∃ t p, parse (s ++ t) = .ok p) ↔ ¬ Overfull s := by
  obtain ⟨c, hconsume⟩ := consume_eq_none_of_incomplete h hcause
  obtain ⟨ls, hitems, htracks⟩ := exists_tracks_of_consume hconsume
  rw [not_overfull_iff hitems htracks]
  constructor
  · rintro ⟨t, p, hparse⟩
    exact fillable_of_parse_append hparse hconsume
  · exact exists_completion hitems htracks

/-- In `lerp(x, pow(y +` an operand is missing, then `pow` lacks an argument, and so does `lerp`. -/
theorem exists_completion_lerpOfPow :
    parse "lerp(x, pow(y +" = .error ⟨Cause.trailingOperator.overall, "lerp(x, pow(y +"⟩ ∧
      ¬ Overfull "lerp(x, pow(y +" ∧ ∃ t p, parse ("lerp(x, pow(y +" ++ t) = .ok p := by
  have hresult : ((Conversion.initial.consume (words "lerp(x, pow(y +")).2,
      (Conversion.initial.consume (words "lerp(x, pow(y +")).1.phase,
      (Conversion.initial.consume (words "lerp(x, pow(y +")).1.groups)
        = (none, .afterOperator, [⟨some .pow, 1, 11⟩, ⟨some .lerp, 2, 4⟩]) := by
    decide +kernel
  simp only [Prod.mk.injEq] at hresult
  obtain ⟨hconsume, hphase, hgroups⟩ := hresult
  have hparse : parse "lerp(x, pow(y +"
      = .error ⟨Cause.trailingOperator.overall, "lerp(x, pow(y +"⟩ :=
    parse_eq_error_iff.mpr
      ⟨rfl, _, .inr ⟨Prod.ext rfl hconsume, by rw [Conversion.program, if_pos hphase]⟩⟩
  have hoverfull : ¬ Overfull "lerp(x, pow(y +" := by
    obtain ⟨ls, hitems, htracks⟩ := exists_tracks_of_consume (Prod.ext rfl hconsume)
    rw [not_overfull_iff hitems htracks, hgroups]
    intro g hg f expected hcallee harity
    rcases List.mem_pair.mp hg with rfl | rfl <;> cases hcallee <;> cases harity <;> decide
  exact ⟨hparse, hoverfull, (exists_completion_iff hparse (.inl rfl)).mpr hoverfull⟩

end InfixCalc
