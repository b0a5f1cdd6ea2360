import InfixCalc.Proofs.Tree.Precedence
import InfixCalc.Word

/-!
# Grammar

What a statement has to look like, as parse trees. A phrase is a chain of operands with a sign
before it or without one, and an operand is a number, a variable, a phrase in parentheses or the
call of a function. A parse tree holds nothing that is not allowed: its numbers can be read, its
variables do not have the names of functions, and its calls have as many arguments as they need.

`Phrase.tokens` spells a phrase, and `Phrase.tree` is the expression that it stands for.
-/

namespace InfixCalc

mutual
/-- Operands with operators between them, and perhaps a sign before the first one. -/
inductive Phrase where
  | plain (chain : Chain)
  | signed (sign : Operator) (isSign : sign.isSign) (chain : Chain)

/-- Operands with operators between them. -/
inductive Chain where
  | operand (last : Operand)
  | join (chain : Chain) (op : Operator) (last : Operand)

/-- What an operator can be applied to. -/
inductive Operand where
  | number (text : String) (value : Float) (digit : Word.startsWithDigit text)
      (read : Number.read? text = some value)
  | variable (name : String) (noDigit : Word.startsWithDigit name = false)
      (noFunction : Builtin.ofName? name = none)
  | group (phrase : Phrase)
  | call (function : Builtin) (n : Nat) (arguments : Arguments n)
      (accepts : function.arity.accepts n)

/-- A number of phrases with commas between them. -/
inductive Arguments : Nat → Type where
  | one (phrase : Phrase) : Arguments 1
  | snoc {n : Nat} (arguments : Arguments n) (phrase : Phrase) : Arguments (n + 1)
end

/-! ### Spelling -/

mutual
/-- How a phrase is written. -/
def Phrase.tokens : Phrase → List Token
  | .plain chain => chain.tokens
  | .signed sign _ chain => .operator sign :: chain.tokens

/-- How a chain is written. -/
def Chain.tokens : Chain → List Token
  | .operand last => last.tokens
  | .join chain op last => chain.tokens ++ .operator op :: last.tokens

/-- How an operand is written. -/
def Operand.tokens : Operand → List Token
  | .number text _ _ _ => [.segment text]
  | .variable name _ _ => [.segment name]
  | .group phrase => .opening :: (phrase.tokens ++ [.closing])
  | .call function _ arguments _ =>
    .segment function.name :: .opening :: (arguments.tokens ++ [.closing])

/-- How arguments are written. -/
def Arguments.tokens {n : Nat} : Arguments n → List Token
  | .one phrase => phrase.tokens
  | .snoc arguments phrase => arguments.tokens ++ .comma :: phrase.tokens
end

/-! ### Meaning -/

mutual
/-- The expression of a phrase. A sign is an operator with a zero to its left. -/
def Phrase.tree : Phrase → Tree
  | .plain chain => chain.run.sum
  | .signed sign _ chain => Run.sum ⟨.number 0, (sign, chain.run.first) :: chain.run.links⟩

/-- The expressions of the operands of a chain, with the operators between them. -/
def Chain.run : Chain → Run
  | .operand last => ⟨last.tree, []⟩
  | .join chain op last => ⟨chain.run.first, chain.run.links ++ [(op, last.tree)]⟩

/-- The expression of an operand. Parentheses add nothing to it. -/
def Operand.tree : Operand → Tree
  | .number _ value _ _ => .number value
  | .variable name _ _ => .variable name
  | .group phrase => phrase.tree
  | .call function _ arguments _ => .call function arguments.trees

/-- The expressions of arguments. -/
def Arguments.trees {n : Nat} : Arguments n → List Tree
  | .one phrase => [phrase.tree]
  | .snoc arguments phrase => arguments.trees ++ [phrase.tree]
end

/-- A whole statement. -/
inductive Sentence where
  | blank
  | phrase (p : Phrase)

/-- How a statement is written. -/
def Sentence.tokens : Sentence → List Token
  | .blank => []
  | .phrase p => p.tokens

/-- The program of a statement: the expression that it stands for in postorder. -/
def Sentence.program : Sentence → Program
  | .blank => .empty
  | .phrase p => ⟨p.tree.code⟩

/-! ### Number of arguments -/

lemma Arguments.length_trees {n : Nat} : (arguments : Arguments n) → arguments.trees.length = n
  | .one _ => rfl
  | .snoc arguments _ => by simp [Arguments.trees, arguments.length_trees]

lemma Arguments.one_le {n : Nat} : Arguments n → 1 ≤ n
  | .one _ => Nat.le_refl 1
  | .snoc _ _ => Nat.succ_le_succ (Nat.zero_le _)

lemma Run.applicable_sum {r : Run} (h : r.All Tree.Applicable) : r.sum.Applicable :=
  r.sum_of_all (fun _ _ _ hleft hright => ⟨hleft, hright⟩) h

mutual
/-- In the expression of a phrase every function has as many arguments as it takes. -/
lemma Phrase.applicable_tree : (p : Phrase) → p.tree.Applicable
  | .plain chain => Run.applicable_sum chain.applicable_run
  | .signed _ _ chain => Run.applicable_sum
      ⟨trivial, List.forall_mem_cons.mpr chain.applicable_run⟩

lemma Chain.applicable_run : (chain : Chain) → chain.run.All Tree.Applicable
  | .operand last => ⟨last.applicable_tree, by simp [Chain.run]⟩
  | .join chain _ last => by
    obtain ⟨hfirst, hlinks⟩ := chain.applicable_run
    refine ⟨hfirst, List.forall_mem_append.mpr ⟨hlinks, ?_⟩⟩
    simpa using last.applicable_tree

lemma Operand.applicable_tree : (a : Operand) → a.tree.Applicable
  | .number _ _ _ _ => trivial
  | .variable _ _ _ => trivial
  | .group phrase => phrase.applicable_tree
  | .call _ _ arguments accepts =>
    ⟨by rwa [arguments.length_trees], arguments.applicable_trees⟩

lemma Arguments.applicable_trees {n : Nat} :
    (arguments : Arguments n) → Tree.AllApplicable arguments.trees
  | .one phrase => ⟨phrase.applicable_tree, trivial⟩
  | .snoc arguments phrase =>
    (Tree.allApplicable_append _ _).mpr
      ⟨arguments.applicable_trees, phrase.applicable_tree, trivial⟩
end

end InfixCalc
