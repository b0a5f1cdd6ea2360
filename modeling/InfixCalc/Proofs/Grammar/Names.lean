import InfixCalc.Proofs.Grammar.Tracking
import InfixCalc.Proofs.Tree.Names

/-!
# Names in statements

The names in the expression of a statement are those that its tokens mention, in the order of the
text: operators are moved behind their operands and parentheses are dropped, but operands keep their
places. So a free variable of a statement is a segment of it that has no other meaning.
-/

namespace InfixCalc

/-- The name that a token mentions, if it mentions a variable or a constant. -/
def Token.name? : Token → Option String
  | .segment text =>
    if Word.startsWithDigit text || (Builtin.ofName? text).isSome then none else some text
  | _ => none

lemma Token.name?_number {text : String} (h : Word.startsWithDigit text) :
    (Token.segment text).name? = none := by
  rw [name?, h]
  rfl

lemma Token.name?_function (f : Builtin) : (Token.segment f.name).name? = none := by
  rw [name?, Builtin.ofName?_name]
  simp

lemma Token.name?_eq_some_iff {t : Token} {name : String} :
    t.name? = some name ↔ t = .segment name ∧ Word.startsWithDigit name = false ∧
      Builtin.ofName? name = none := by
  cases t with
  | segment text =>
    rw [name?]
    split_ifs with h
    · rw [Bool.or_eq_true, Option.isSome_iff_ne_none] at h
      constructor
      · rintro ⟨⟩
      · rintro ⟨⟨⟩, hdigit, hname⟩
        rw [hdigit, hname] at h
        rcases h with ⟨⟨⟩⟩ | h
        exact absurd rfl h
    · rw [Bool.or_eq_true, not_or, Bool.not_eq_true, Bool.not_eq_true,
        Option.isSome_eq_false_iff, Option.isNone_iff_eq_none] at h
      constructor
      · rintro ⟨⟩
        exact ⟨rfl, h⟩
      · rintro ⟨⟨⟩, -⟩
        rfl
  | _ => simp [name?]

lemma Token.filterMap_name?_parenthesized (ts : List Token) :
    (Token.opening :: (ts ++ [.closing])).filterMap name? = ts.filterMap name? := by
  rw [List.filterMap_cons, List.filterMap_append]
  exact List.append_nil _

mutual
/-- The names in the expression of a phrase are those that its tokens mention, in their order. -/
theorem Phrase.names_tree (p : Phrase) : p.tree.names = p.tokens.filterMap Token.name? := by
  match p with
  | .plain chain =>
    rw [Phrase.tree, Run.names_sum, Phrase.tokens]
    exact chain.names_run
  | .signed sign isSign chain =>
    rw [Phrase.tree, Run.names_sum, Phrase.tokens]
    exact chain.names_run

theorem Chain.names_run (chain : Chain) :
    chain.run.names = chain.tokens.filterMap Token.name? := by
  match chain with
  | .operand last =>
    rw [Chain.run, Run.names, Chain.tokens, last.names_tree]
    exact List.append_nil _
  | .join chain op last =>
    have hchain := chain.names_run
    rw [Run.names] at hchain
    rw [Chain.run, Run.names, Chain.tokens, List.flatMap_append, ← List.append_assoc, hchain,
      List.filterMap_append, List.flatMap_singleton, last.names_tree]
    rfl

theorem Operand.names_tree (a : Operand) : a.tree.names = a.tokens.filterMap Token.name? := by
  match a with
  | .number text value digit read =>
    rw [Operand.tokens, List.filterMap_cons, Token.name?_number digit]
    rfl
  | .variable name noDigit noFunction =>
    have hname := Token.name?_eq_some_iff.mpr ⟨rfl, noDigit, noFunction⟩
    rw [Operand.tokens, List.filterMap_cons, hname]
    rfl
  | .group phrase =>
    rw [Operand.tokens, Operand.tree, phrase.names_tree, Token.filterMap_name?_parenthesized]
  | .call f n arguments accepts =>
    rw [Operand.tokens, Operand.tree, Tree.names, arguments.names_trees, List.filterMap_cons,
      Token.name?_function, Token.filterMap_name?_parenthesized]

theorem Arguments.names_trees {n : Nat} (arguments : Arguments n) :
    Tree.namesOfAll arguments.trees = arguments.tokens.filterMap Token.name? := by
  match arguments with
  | .one phrase =>
    rw [Arguments.tokens, Arguments.trees, ← phrase.names_tree]
    exact List.append_nil _
  | .snoc arguments phrase =>
    rw [Arguments.tokens, Arguments.trees, Tree.namesOfAll_append, arguments.names_trees,
      List.filterMap_append, List.filterMap_cons, ← phrase.names_tree]
    exact congrArg _ (List.append_nil _)
end

lemma Sentence.freeVariables_program (s : Sentence) :
    s.program.freeVariables = ((s.tokens.filterMap Token.name?).filter isFree).eraseDups := by
  cases s with
  | blank => rfl
  | phrase p => rw [program, Tree.freeVariables_code, p.names_tree, tokens]

variable {statement : String} {p : Program}

/-- A free variable is mentioned in the statement, and its name is not reserved. -/
lemma mentioned_of_mem_freeVariables (h : parse statement = .ok p) {name : String}
    (hname : name ∈ p.freeVariables) :
    .segment name ∈ tokens statement ∧ isReserved name = false := by
  obtain ⟨-, s, htokens, rfl⟩ := exists_program_of_parse h
  rw [s.freeVariables_program, List.mem_eraseDups, List.mem_filter, List.mem_filterMap] at hname
  obtain ⟨⟨t, ht, hsome⟩, hfree⟩ := hname
  obtain ⟨rfl, -, hfunction⟩ := Token.name?_eq_some_iff.mp hsome
  rw [isFree, Option.isNone_iff_eq_none] at hfree
  refine ⟨htokens ▸ ht, ?_⟩
  rw [isReserved, hfunction, hfree]
  rfl

end InfixCalc
