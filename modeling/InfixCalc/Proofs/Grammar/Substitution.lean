import InfixCalc.Proofs.Grammar.Language
import InfixCalc.Proofs.Grammar.Names
import InfixCalc.Proofs.Lexeme.Replacement
import InfixCalc.Proofs.Tree.Substitution

/-!
# Substitution in statements

A phrase in parentheses is an operand wherever a variable is one. So a statement keeps to the
grammar when a variable in it is replaced by another statement in parentheses, and its program
keeps its shape: the program of the other statement stands wherever the variable was read.
-/

namespace InfixCalc

mutual
/-- A phrase with another one, in parentheses, in the place of a variable. -/
def Phrase.subst (name : String) (q : Phrase) : Phrase → Phrase
  | .plain chain => .plain (Chain.subst name q chain)
  | .signed sign isSign chain => .signed sign isSign (Chain.subst name q chain)

/-- A chain with a phrase in the place of a variable. -/
def Chain.subst (name : String) (q : Phrase) : Chain → Chain
  | .operand last => .operand (Operand.subst name q last)
  | .join chain op last => .join (Chain.subst name q chain) op (Operand.subst name q last)

/-- An operand with a phrase in the place of a variable. -/
def Operand.subst (name : String) (q : Phrase) : Operand → Operand
  | .number text value digit read => .number text value digit read
  | .variable n noDigit noFunction =>
    if n = name then .group q else .variable n noDigit noFunction
  | .group phrase => .group (Phrase.subst name q phrase)
  | .call f n arguments accepts => .call f n (Arguments.subst name q arguments) accepts

/-- Arguments with a phrase in the place of a variable. -/
def Arguments.subst (name : String) (q : Phrase) {n : Nat} : Arguments n → Arguments n
  | .one phrase => .one (Phrase.subst name q phrase)
  | .snoc arguments phrase =>
    .snoc (Arguments.subst name q arguments) (Phrase.subst name q phrase)
end

variable {name : String} {q : Phrase}

/-! ### Spelling -/

lemma Token.replace_of_ne {t : Token} (h : t ≠ .segment name) (ts : List Token) :
    t.replace name ts = [t] := if_neg h

mutual
/-- The name is replaced wherever it is a token, because it is a variable everywhere. -/
theorem Phrase.tokens_subst (p : Phrase) (hname : (Token.segment name).name? = some name) :
    (Phrase.subst name q p).tokens = p.tokens.flatMap (Token.replace name q.tokens) := by
  match p with
  | .plain chain =>
    rw [Phrase.subst, Phrase.tokens, Phrase.tokens]
    exact chain.tokens_subst hname
  | .signed sign isSign chain =>
    rw [Phrase.subst, Phrase.tokens, Phrase.tokens, List.flatMap_cons, chain.tokens_subst hname]
    rfl

theorem Chain.tokens_subst (chain : Chain) (hname : (Token.segment name).name? = some name) :
    (Chain.subst name q chain).tokens
      = chain.tokens.flatMap (Token.replace name q.tokens) := by
  match chain with
  | .operand last =>
    rw [Chain.subst, Chain.tokens, Chain.tokens]
    exact last.tokens_subst hname
  | .join chain op last =>
    rw [Chain.subst, Chain.tokens, Chain.tokens, List.flatMap_append, List.flatMap_cons,
      chain.tokens_subst hname, last.tokens_subst hname]
    rfl

theorem Operand.tokens_subst (a : Operand) (hname : (Token.segment name).name? = some name) :
    (Operand.subst name q a).tokens = a.tokens.flatMap (Token.replace name q.tokens) := by
  match a with
  | .number text value digit read =>
    have hne : Token.segment text ≠ .segment name := by
      intro heq
      rw [← heq, Token.name?_number digit] at hname
      cases hname
    rw [Operand.subst, Operand.tokens, List.flatMap_singleton, Token.replace_of_ne hne]
  | .variable n noDigit noFunction =>
    rw [Operand.subst]
    by_cases hn : n = name
    · rw [if_pos hn, Operand.tokens, Operand.tokens, List.flatMap_singleton, Token.replace,
        if_pos (by rw [hn])]
    · rw [if_neg hn, Operand.tokens, List.flatMap_singleton,
        Token.replace_of_ne (by simpa using hn)]
  | .group phrase =>
    rw [Operand.subst, Operand.tokens, Operand.tokens, List.flatMap_cons, List.flatMap_append,
      phrase.tokens_subst hname]
    rfl
  | .call f n arguments accepts =>
    have hne : Token.segment f.name ≠ .segment name := by
      intro heq
      rw [← heq, Token.name?_function] at hname
      cases hname
    rw [Operand.subst, Operand.tokens, Operand.tokens, List.flatMap_cons, List.flatMap_cons,
      List.flatMap_append, arguments.tokens_subst hname, Token.replace_of_ne hne]
    rfl

theorem Arguments.tokens_subst {n : Nat} (arguments : Arguments n)
    (hname : (Token.segment name).name? = some name) :
    (Arguments.subst name q arguments).tokens
      = arguments.tokens.flatMap (Token.replace name q.tokens) := by
  match arguments with
  | .one phrase =>
    rw [Arguments.subst, Arguments.tokens, Arguments.tokens]
    exact phrase.tokens_subst hname
  | .snoc arguments phrase =>
    rw [Arguments.subst, Arguments.tokens, Arguments.tokens, List.flatMap_append,
      List.flatMap_cons, arguments.tokens_subst hname, phrase.tokens_subst hname]
    rfl
end

/-! ### Meaning -/

lemma Run.sum_map_subst (r : Run) (u : Tree) :
    (r.map (Tree.subst name u)).sum = Tree.subst name u r.sum :=
  Run.sum_map (fun _ _ _ => rfl) r

mutual
/-- The expression of the other phrase stands in the place of the variable. -/
theorem Phrase.tree_subst (p : Phrase) :
    (Phrase.subst name q p).tree = Tree.subst name q.tree p.tree := by
  match p with
  | .plain chain =>
    rw [Phrase.subst, Phrase.tree, Phrase.tree, chain.run_subst, Run.sum_map_subst]
  | .signed sign isSign chain =>
    rw [Phrase.subst, Phrase.tree, Phrase.tree, chain.run_subst, ← Run.sum_map_subst]
    rfl

theorem Chain.run_subst (chain : Chain) :
    (Chain.subst name q chain).run = chain.run.map (Tree.subst name q.tree) := by
  match chain with
  | .operand last =>
    rw [Chain.subst, Chain.run, last.tree_subst]
    rfl
  | .join chain op last =>
    rw [Chain.subst, Chain.run, chain.run_subst, last.tree_subst, Chain.run, Run.map, Run.map,
      List.map_append]
    rfl

theorem Operand.tree_subst (a : Operand) :
    (Operand.subst name q a).tree = Tree.subst name q.tree a.tree := by
  match a with
  | .number text value digit read => rfl
  | .variable n noDigit noFunction =>
    rw [Operand.subst, Operand.tree, Tree.subst]
    split_ifs
    · rfl
    · rfl
  | .group phrase =>
    rw [Operand.subst, Operand.tree, Operand.tree]
    exact phrase.tree_subst
  | .call f n arguments accepts =>
    rw [Operand.subst, Operand.tree, Operand.tree, arguments.trees_subst]
    rfl

theorem Arguments.trees_subst {n : Nat} (arguments : Arguments n) :
    (Arguments.subst name q arguments).trees = Tree.substAll name q.tree arguments.trees := by
  match arguments with
  | .one phrase =>
    rw [Arguments.subst, Arguments.trees, Arguments.trees, phrase.tree_subst]
    rfl
  | .snoc arguments phrase =>
    rw [Arguments.subst, Arguments.trees, Arguments.trees, arguments.trees_subst,
      phrase.tree_subst, Tree.substAll_append]
    rfl
end

/-! ### Statements -/

variable {statement text : String} {p r : Program}

/-- A name that the program of a phrase reads is a variable in its text. -/
lemma Phrase.name?_of_mem_code {p : Phrase} (h : .variable name ∈ p.tree.code) :
    (Token.segment name).name? = some name := by
  rw [← Tree.mem_names_iff, p.names_tree, List.mem_filterMap] at h
  obtain ⟨t, -, ht⟩ := h
  rwa [← (Token.name?_eq_some_iff.mp ht).1]

/-- A statement that is not blank and has a program is spelled like a phrase. -/
lemma exists_phrase_of_parse (h : parse statement = .ok p) (hblank : ¬ Blank statement) :
    Legal statement ∧ ∃ q : Phrase, tokens statement = q.tokens ∧ p.code = q.tree.code := by
  obtain ⟨hlegal, s, htokens, rfl⟩ := exists_program_of_parse h
  cases s with
  | blank => exact absurd ((tokens_eq_nil_iff hlegal).mp htokens) hblank
  | phrase q => exact ⟨hlegal, q, htokens, rfl⟩

/-- When a variable of a statement is replaced by another statement in parentheses, the program of
the other statement stands wherever the variable was read, and nothing else changes. -/
theorem parse_replaceSegment (hstatement : parse statement = .ok p)
    (hname : .variable name ∈ p.code) (htext : parse text = .ok r) (hblank : ¬ Blank text) :
    parse (replaceSegment name ("(" ++ text ++ ")") statement)
      = .ok ⟨p.code.flatMap fun i => if i = .variable name then r.code else [i]⟩ := by
  have hnonblank : ¬ Blank statement := by
    intro hblank
    cases hstatement.symm.trans (parse_of_blank hblank)
    cases hname
  obtain ⟨hlegal, phrase, htokens, hcode⟩ := exists_phrase_of_parse hstatement hnonblank
  obtain ⟨hlegal', q, htokens', hcode'⟩ := exists_phrase_of_parse htext hblank
  rw [hcode] at hname
  have hspelled : tokens (replaceSegment name ("(" ++ text ++ ")") statement)
      = (Sentence.phrase (Phrase.subst name q phrase)).tokens := by
    rw [tokens_replaceSegment, htokens, htokens', Sentence.tokens,
      Phrase.tokens_subst phrase (Phrase.name?_of_mem_code hname)]
  rw [parse_of_tokens (legal_replaceSegment hlegal hlegal') _ hspelled, Sentence.program,
    Phrase.tree_subst phrase, Tree.code_subst, hcode, hcode']
  rfl

/-- The parse tree of `u ^ max(u, v)`. -/
def Sentence.powerMax : Sentence :=
  let u : Operand := .variable "u" (by decide) (by decide)
  let v : Operand := .variable "v" (by decide) (by decide)
  let arguments : Arguments 2 := .snoc (.one (.plain (.operand u))) (.plain (.operand v))
  .phrase (.plain (.join (.operand u) .pow (.call .max 2 arguments (by decide))))

/-- The parse tree of `-w`. -/
def Sentence.negative : Sentence :=
  .phrase (.signed .sub (by decide) (.operand (.variable "w" (by decide) (by decide))))

/-- The sign in `-w` stays with `w` when it becomes the base of a power and an argument. -/
theorem parse_replaceSegment_powerMax :
    parse "u ^ max(u, v)" = .ok Sentence.powerMax.program ∧
      .variable "u" ∈ Sentence.powerMax.program.code ∧
      parse "-w" = .ok Sentence.negative.program ∧ ¬ Blank "-w" ∧
      replaceSegment "u" ("(" ++ "-w" ++ ")") "u ^ max(u, v)" = "(-w) ^ max((-w), v)" ∧
      parse "(-w) ^ max((-w), v)" = .ok ⟨[.number 0, .variable "w", .operator .sub, .number 0,
        .variable "w", .operator .sub, .variable "v", .call .max 2, .operator .pow]⟩ := by
  have hstatement : parse "u ^ max(u, v)" = .ok Sentence.powerMax.program :=
    parse_of_tokens (by decide +kernel) _ (by decide +kernel)
  have hname : .variable "u" ∈ Sentence.powerMax.program.code := .head _
  have htext : parse "-w" = .ok Sentence.negative.program :=
    parse_of_tokens (by decide +kernel) _ (by decide +kernel)
  have hblank : ¬ Blank "-w" := by decide +kernel
  have hreplace : replaceSegment "u" ("(" ++ "-w" ++ ")") "u ^ max(u, v)"
      = "(-w) ^ max((-w), v)" := by
    decide +kernel
  have hparse := parse_replaceSegment hstatement hname htext hblank
  rw [hreplace] at hparse
  exact ⟨hstatement, hname, htext, hblank, hreplace, hparse⟩

end InfixCalc
