import InfixCalc.Proofs.Tree.Precedence

/-!
# Substitution in trees

Putting a tree in the place of a variable puts its program in the place of every instruction that
reads the variable. As this does not change what the operators of a run are, the operands of a run
can be replaced before they are grouped or afterwards.
-/

namespace InfixCalc

/-- A list of instructions in the place of one that reads a certain variable. -/
def Instruction.replace (name : String) (code : List Instruction) (i : Instruction) :
    List Instruction :=
  if i = .variable name then code else [i]

namespace Tree

mutual
/-- A tree with another one in the place of a variable. -/
def subst (name : String) (u : Tree) : Tree → Tree
  | .number value => .number value
  | .variable n => if n = name then u else .variable n
  | .binary op left right => .binary op (subst name u left) (subst name u right)
  | .call f arguments => .call f (substAll name u arguments)

/-- Several trees with another one in the place of a variable. -/
def substAll (name : String) (u : Tree) : List Tree → List Tree
  | [] => []
  | t :: ts => subst name u t :: substAll name u ts
end

variable {name : String} {u : Tree}

lemma substAll_append (ts us : List Tree) :
    substAll name u (ts ++ us) = substAll name u ts ++ substAll name u us := by
  induction ts with
  | nil => rfl
  | cons t ts ih => rw [List.cons_append, substAll, substAll, ih, List.cons_append]

lemma length_substAll (ts : List Tree) : (substAll name u ts).length = ts.length := by
  induction ts with
  | nil => rfl
  | cons t ts ih => rw [substAll, List.length_cons, List.length_cons, ih]

mutual
theorem code_subst (t : Tree) :
    (subst name u t).code = t.code.flatMap (Instruction.replace name u.code) := by
  match t with
  | .number value => simp [subst, code, Instruction.replace]
  | .variable n =>
    rw [subst, code, List.flatMap_singleton]
    by_cases hn : n = name
    · rw [if_pos hn, Instruction.replace, if_pos (by rw [hn])]
    · rw [if_neg hn, Instruction.replace, if_neg (by simpa using hn)]
      rfl
  | .binary op left right =>
    rw [subst, code, code_subst left, code_subst right, code, List.flatMap_append,
      List.flatMap_append]
    rfl
  | .call f arguments =>
    rw [subst, code, codes_substAll arguments, length_substAll, code, List.flatMap_append]
    rfl

theorem codes_substAll (ts : List Tree) :
    codes (substAll name u ts) = (codes ts).flatMap (Instruction.replace name u.code) := by
  match ts with
  | [] => rfl
  | t :: ts => rw [substAll, codes, code_subst t, codes_substAll ts, codes, List.flatMap_append]
end

end Tree

/-! ### Runs -/

namespace Run

/-- A run with its operands changed. -/
def map (g : Tree → Tree) (r : Run) : Run := ⟨g r.first, r.links.map (Prod.map id g)⟩

section Map

variable {g : Tree → Tree}

lemma map_cut (tier : Nat) (first : Tree) (links : List (Operator × Tree)) :
    cut tier (g first) (links.map (Prod.map id g))
      = ((cut tier first links).1.map g, (cut tier first links).2.map (Prod.map id (map g))) := by
  induction links generalizing first with
  | nil => rfl
  | cons link links ih =>
    obtain ⟨op, next⟩ := link
    rw [List.map_cons, Prod.map_apply, cut, ih, cut]
    simp only [id]
    split_ifs <;> rfl

variable (hg : ∀ op left right, g (.binary op left right) = .binary op (g left) (g right))

include hg

lemma joinLeft_map (first : Tree) (links : List (Operator × Tree)) :
    joinLeft (g first) (links.map (Prod.map id g)) = g (joinLeft first links) := by
  induction links generalizing first with
  | nil => rfl
  | cons link links ih =>
    change joinLeft (.binary link.1 (g first) (g link.2)) _ = _
    rw [← hg, ih]
    rfl

lemma power_map (r : Run) : (r.map g).power = g r.power := by
  obtain ⟨first, links⟩ := r
  induction links generalizing first with
  | nil => rfl
  | cons link links ih =>
    change Tree.binary link.1 (g first) (map g ⟨link.2, links⟩).power = _
    rw [ih, ← hg]
    rfl

lemma groupLeft_map {tier : Nat} {inner : Run → Tree}
    (hinner : ∀ r : Run, inner (r.map g) = g (inner r)) (r : Run) :
    groupLeft tier inner (r.map g) = g (groupLeft tier inner r) := by
  have hparts : ∀ parts : List (Operator × Run),
      (parts.map (Prod.map id (map g))).map (fun part => (part.1, inner part.2))
        = (parts.map fun part => (part.1, inner part.2)).map (Prod.map id g) := by
    intro parts
    simp [hinner]
  rw [groupLeft, groupLeft, map, map_cut]
  simp only [hinner]
  rw [← joinLeft_map hg]
  exact congrArg _ (hparts _)

/-- What passes through operators passes through the grouping of a run. -/
theorem sum_map (r : Run) : (r.map g).sum = g r.sum :=
  groupLeft_map hg (groupLeft_map hg (power_map hg)) r

end Map

end Run

end InfixCalc
