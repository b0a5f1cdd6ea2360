import InfixCalc.Proofs.CommandLine.Answers
import InfixCalc.Proofs.Grammar.Postfix
import InfixCalc.Proofs.Grammar.Substitution
import InfixCalc.Proofs.Number.Clamp

/-!
# Calls of functions

The text of a call has statements for its arguments, with commas between them. A statement that has
a value can be an argument, and if it uses no random numbers its value there is the same as alone.
So the value of a call is that of the function at the values of its arguments.
-/

namespace InfixCalc

/-- The text of a call of a function with one argument and perhaps more. -/
def callText (f : Builtin) (text : String) (texts : List String) : String :=
  f.name ++ ("(" ++ (text ++ String.join (texts.map (", " ++ ·))) ++ ")")

/-- Whether a statement has a value that does not need random numbers. -/
structure Yields (source : Source) (draws : Draws) (statement : String) (x : Float) : Prop where
  nonblank : ¬ Blank statement
  randFree : RandFree statement
  calculate_eq : calculate statement source draws = .ok x

/-! ### Texts -/

namespace Lexeme

lemma tokensOf_name (f : Builtin) : tokensOf f.name.toList = [.segment f.name] := by
  cases f <;> decide +kernel

/-- The characters of some texts with a comma and a space before each. -/
def afterCommas (texts : List String) : List Char :=
  texts.flatMap fun text => ',' :: ' ' :: text.toList

lemma afterCommas_cons (text : String) (texts : List String) :
    afterCommas (text :: texts) = ',' :: ' ' :: (text.toList ++ afterCommas texts) :=
  rfl

lemma separated_afterCommas (cs : List Char) (texts : List String) :
    Separated cs (afterCommas texts) := by
  apply separated_of_head
  cases texts with
  | nil => exact fun b hb => by cases hb
  | cons text texts =>
    rintro b ⟨⟩
    rfl

lemma tokensOf_afterCommas (texts : List String) :
    tokensOf (afterCommas texts) = texts.flatMap fun text => .comma :: tokens text := by
  induction texts with
  | nil => exact tokensOf_nil
  | cons text texts ih =>
    rw [afterCommas_cons, List.flatMap_cons, ← ih, tokensOf_cons (by decide),
      tokensOf_cons (by decide), tokensOf_append (separated_afterCommas _ texts)]
    rfl

end Lexeme

open Lexeme (afterCommas)

lemma toList_callText (f : Builtin) (text : String) (texts : List String) :
    (callText f text texts).toList
      = f.name.toList ++ '(' :: (text.toList ++ afterCommas texts ++ [')']) := by
  have hjoin : (String.join (texts.map (", " ++ ·))).toList = afterCommas texts := by
    rw [String.toList_join, List.flatMap_map, afterCommas]
    simp
  rw [callText, String.toList_append, toList_parenthesized, String.toList_append, hjoin]

lemma tokens_callText (f : Builtin) (text : String) (texts : List String) :
    tokens (callText f text texts) = .segment f.name :: .opening :: (tokens text ++
      (texts.flatMap fun text => .comma :: tokens text) ++ [.closing]) := by
  have hopening : Lexeme.Separated f.name.toList
      ('(' :: (text.toList ++ afterCommas texts ++ [')'])) :=
    Lexeme.separated_of_head (by rintro b ⟨⟩; rfl)
  change Lexeme.tokensOf (callText f text texts).toList = _
  rw [toList_callText, Lexeme.tokensOf_append hopening, Lexeme.tokensOf_name,
    Lexeme.tokensOf_parenthesized, Lexeme.tokensOf_append (Lexeme.separated_afterCommas _ texts),
    Lexeme.tokensOf_afterCommas]
  rfl

lemma legal_callText {f : Builtin} {text : String} {texts : List String}
    (h : ∀ s ∈ text :: texts, Legal s) : Legal (callText f text texts) := by
  obtain ⟨htext, htexts⟩ := List.forall_mem_cons.mp h
  intro c hc
  simp only [toList_callText, afterCommas, List.mem_append, List.mem_cons, List.mem_flatMap,
    List.not_mem_nil, or_false] at hc
  rcases hc with hc | rfl | (hc | ⟨s, hs, rfl | rfl | hc⟩) | rfl
  · exact Lexeme.isLegal_of_isSegmentChar (f.isSegmentChar_of_mem_name c hc)
  · rfl
  · exact htext c hc
  · rfl
  · rfl
  · exact htexts s hs c hc
  · rfl

/-! ### Parse trees -/

/-- Phrases can be put after arguments, with commas before them. -/
lemma Arguments.exists_append {n : Nat} (arguments : Arguments n) (qs : List Phrase) :
    ∃ all : Arguments (n + qs.length),
      all.tokens = arguments.tokens ++ qs.flatMap (fun q => .comma :: q.tokens) ∧
        all.trees = arguments.trees ++ qs.map Phrase.tree := by
  induction qs generalizing n with
  | nil => exact ⟨arguments, (List.append_nil _).symm, (List.append_nil _).symm⟩
  | cons q qs ih =>
    rw [List.length_cons, Nat.add_comm qs.length, ← Nat.add_assoc]
    obtain ⟨all, htokens, htrees⟩ := ih (.snoc arguments q)
    refine ⟨all, ?_, ?_⟩
    · rw [htokens, Arguments.tokens, List.flatMap_cons, List.append_assoc]
    · rw [htrees, Arguments.trees, List.map_cons, List.append_assoc]
      rfl

/-- A call of phrases is the operand whose expression is the call of their expressions. -/
lemma exists_operand_of_accepts {f : Builtin} (q : Phrase) (qs : List Phrase)
    (h : f.arity.accepts (qs.length + 1)) :
    ∃ a : Operand, a.tokens = .segment f.name :: .opening :: (q.tokens ++
        (qs.flatMap fun q => .comma :: q.tokens) ++ [.closing]) ∧
      a.tree = .call f ((q :: qs).map Phrase.tree) := by
  obtain ⟨arguments, htokens, htrees⟩ := (Arguments.one q).exists_append qs
  rw [Nat.add_comm] at h
  refine ⟨.call f _ arguments h, ?_, ?_⟩
  · rw [Operand.tokens, htokens, Arguments.tokens]
  · rw [Operand.tree, htrees]
    rfl

/-! ### Values -/

variable {source : Source} {draws : Draws} {text : String} {texts : List String} {x : Float}
  {xs : List Float} {f : Builtin}

/-- A tree that uses up no random numbers leaves their count. -/
lemma Tree.drawn_eval {t : Tree} {drawn : Nat} {r : Float × Nat} (ht : t.Applicable)
    (h : ∀ i ∈ t.code, i.draws = false) (heval : t.eval source draws drawn = .ok r) :
    r.2 = drawn := by
  have hrun : Machine.run source draws ⟨[], drawn⟩ (t.code ++ []) = _ := run_code_append t ht _ []
  rw [List.append_nil, heval] at hrun
  exact Machine.drawn_run h hrun

lemma Program.check_of_evaluate {p : Program} (h : p.evaluate source draws = .ok x) :
    source.check = .ok () := by
  obtain ⟨⟨⟩, hcheck, -⟩ := bind_eq_ok_iff.mp h
  exact hcheck

namespace Yields

lemma check_eq (h : Yields source draws text x) : source.check = .ok () := by
  obtain ⟨p, -, hvalue⟩ := calculate_eq_ok_iff.mp h.calculate_eq
  exact Program.check_of_evaluate hvalue

/-- The phrase of a statement has the value of the statement, whatever has been read before it. -/
lemma exists_phrase (h : Yields source draws text x) :
    Legal text ∧ ∃ q : Phrase, tokens text = q.tokens ∧
      q.tree.eval source draws 0 = .ok (x, 0) ∧ ∀ i ∈ q.tree.code, i.draws = false := by
  obtain ⟨p, hparse, hvalue⟩ := calculate_eq_ok_iff.mp h.calculate_eq
  obtain ⟨hlegal, q, htokens, hcode⟩ := exists_phrase_of_parse hparse h.nonblank
  have hdraws := Program.drawCount_eq_zero_iff.mp (h.randFree p hparse)
  obtain rfl : p = ⟨q.tree.code⟩ := congrArg Program.mk hcode
  rw [Tree.evaluate_code _ q.applicable_tree h.check_eq] at hvalue
  obtain ⟨⟨y, drawn⟩, heval, rfl⟩ := map_eq_ok_iff.mp hvalue
  obtain rfl := Tree.drawn_eval q.applicable_tree hdraws heval
  exact ⟨hlegal, q, htokens, heval, hdraws⟩

lemma exists_phrases (h : List.Forall₂ (Yields source draws) texts xs) :
    (∀ s ∈ texts, Legal s) ∧ ∃ qs : List Phrase, texts.map tokens = qs.map Phrase.tokens ∧
      Tree.evals source draws (qs.map Phrase.tree) 0 = .ok (xs, 0) ∧
        ∀ i ∈ Tree.codes (qs.map Phrase.tree), i.draws = false := by
  induction h with
  | nil => exact ⟨by simp, [], rfl, rfl, by simp [Tree.codes]⟩
  | cons hfirst _ ih =>
    obtain ⟨hlegal, q, htokens, heval, hdraws⟩ := hfirst.exists_phrase
    obtain ⟨hlegals, qs, htokens', hevals, hdraws'⟩ := ih
    refine ⟨List.forall_mem_cons.mpr ⟨hlegal, hlegals⟩, q :: qs, ?_, ?_, ?_⟩
    · rw [List.map_cons, List.map_cons, htokens, htokens']
    · rw [List.map_cons, Tree.evals, heval]
      simp only [bind, Except.bind, hevals]
      rfl
    · exact List.forall_mem_append.mpr ⟨hdraws, hdraws'⟩

/-- A call of statements has the value of the function at their values. -/
theorem call (h : Yields source draws text x) (hs : List.Forall₂ (Yields source draws) texts xs)
    (haccepts : f.arity.accepts (texts.length + 1)) :
    Yields source draws (callText f text texts) (f.value (x :: xs)) := by
  obtain ⟨hlegal, qs, htokens, hevals, hdraws⟩ := exists_phrases (.cons h hs)
  obtain ⟨q, qs, rfl, htext, htexts⟩ := List.map_eq_cons_iff.mp htokens.symm
  have hlength : texts.length = qs.length := by
    simpa using (congrArg List.length htexts).symm
  obtain ⟨a, hspelled, htree⟩ := exists_operand_of_accepts q qs (hlength ▸ haccepts)
  have hcall : tokens (callText f text texts)
      = (Sentence.phrase (.plain (.operand a))).tokens := by
    rw [tokens_callText, ← htext, ← List.flatMap_map tokens (.comma :: ·), ← htexts,
      List.flatMap_map]
    exact hspelled.symm
  have hlegal := legal_callText (f := f) hlegal
  have hparse : parse (callText f text texts) = .ok ⟨a.tree.code⟩ :=
    parse_of_tokens hlegal _ hcall
  constructor
  case nonblank =>
    rw [← tokens_eq_nil_iff hlegal, tokens_callText]
    exact List.cons_ne_nil _ _
  case randFree =>
    intro p hp
    cases hparse.symm.trans hp
    rw [Program.drawCount_eq_zero_iff, htree]
    exact List.forall_mem_append.mpr ⟨hdraws, by simp [Instruction.draws]⟩
  case calculate_eq =>
    refine calculate_eq_ok_iff.mpr ⟨_, hparse, ?_⟩
    rw [Tree.evaluate_code _ a.applicable_tree h.check_eq, htree, Tree.eval, hevals]
    rfl

end Yields

/-! ### Clamping -/

variable {a b c : String} {y z : Float}

lemma Yields.clamp (ha : Yields source draws a x) (hb : Yields source draws b y)
    (hc : Yields source draws c z) :
    Yields source draws (callText .clamp a [b, c]) (Number.clamp x y z) :=
  ha.call (.cons hb (.cons hc .nil)) rfl

/-- A number that is clamped with two bounds does not change when it is clamped again with the same
bounds, and lies between them if none of the numbers is NaN. The order of the bounds makes a
difference just if one of them is NaN and the other one is not, unless the number is NaN or equal to
the other one. -/
theorem calculate_clamp (ha : Yields source draws a x) (hb : Yields source draws b y)
    (hc : Yields source draws c z) :
    ∃ r s, calculate (callText .clamp a [b, c]) source draws = .ok r ∧
      calculate (callText .clamp a [c, b]) source draws = .ok s ∧
      (Number.Same r s ↔ y.isNaN = z.isNaN ∨ x.isNaN ∨ x == y ∨ x == z) ∧
      calculate (callText .clamp (callText .clamp a [b, c]) [b, c]) source draws = .ok r ∧
      (x.isNaN = false → y.isNaN = false → z.isNaN = false →
        Number.Between y z r ∧ (Number.Between y z x → r = x)) := by
  have hclamp := ha.clamp hb hc
  refine ⟨_, _, hclamp.calculate_eq, (ha.clamp hc hb).calculate_eq, Number.same_clamp_swap_iff,
    ?_, ?_⟩
  · have hagain := (hclamp.clamp hb hc).calculate_eq
    rwa [Number.clamp_clamp] at hagain
  · exact fun hx hy hz => ⟨Number.between_clamp hx hy hz, Number.clamp_of_between⟩

/-- `clamp(20, 10, 0)` and `clamp(20, 0, 10)` have the same value, though `10` is greater. -/
theorem calculate_clamp_reversed :
    Yields (.ofTable []) (.ofSeed 0) "20" 20 ∧ Yields (.ofTable []) (.ofSeed 0) "10" 10 ∧
      Yields (.ofTable []) (.ofSeed 0) "0" 0 ∧
      ∃ r s, calculate "clamp(20, 10, 0)" (.ofTable []) (.ofSeed 0) = .ok r ∧
        calculate "clamp(20, 0, 10)" (.ofTable []) (.ofSeed 0) = .ok s ∧ Number.Same r s ∧
        calculate "clamp(clamp(20, 10, 0), 10, 0)" (.ofTable []) (.ofSeed 0) = .ok r ∧
        Number.Between 10 0 r := by
  have hvalue : Yields (.ofTable []) (.ofSeed 0) "20" 20 :=
    ⟨by decide +kernel, by decide +kernel, by decide +kernel⟩
  have hten : Yields (.ofTable []) (.ofSeed 0) "10" 10 :=
    ⟨by decide +kernel, by decide +kernel, by decide +kernel⟩
  have hzero : Yields (.ofTable []) (.ofSeed 0) "0" 0 :=
    ⟨by decide +kernel, by decide +kernel, by decide +kernel⟩
  obtain ⟨r, s, hr, hs, hsame, hagain, hbetween⟩ := calculate_clamp hvalue hten hzero
  exact ⟨hvalue, hten, hzero, r, s, hr, hs, hsame.mpr (.inl (by decide)), hagain,
    (hbetween (by decide) (by decide) (by decide)).1⟩

/-- `clamp(5, 0/0, 3)` is limited by `3`, and `clamp(5, 3, 0/0)` is not. -/
theorem calculate_clamp_nan :
    Yields (.ofTable []) (.ofSeed 0) "5" 5 ∧ Yields (.ofTable []) (.ofSeed 0) "0/0" Number.nan ∧
      Yields (.ofTable []) (.ofSeed 0) "3" 3 ∧
      calculate (callText .clamp "5" ["0/0", "3"]) (.ofTable []) (.ofSeed 0) = .ok 3 ∧
      calculate (callText .clamp "5" ["3", "0/0"]) (.ofTable []) (.ofSeed 0) = .ok 5 ∧
      ¬ Number.Same 3 5 := by
  refine ⟨⟨?_, ?_, ?_⟩, ⟨?_, ?_, ?_⟩, ⟨?_, ?_, ?_⟩, ?_, ?_, ?_⟩ <;> decide +kernel

end InfixCalc
