import InfixCalc.Proofs.Machine.Depth
import InfixCalc.Proofs.Tree.Basic

/-!
# Stack discipline of trees

The program of a tree leaves one number more than there were, and if the functions in the tree are
called with as many arguments as they take, its instructions fit wherever it stands.
-/

namespace InfixCalc.Tree

mutual
lemma effect_code (t : Tree) : effect t.code = 1 := by
  match t with
  | .number _ => rfl
  | .variable _ => rfl
  | .binary op left right =>
    rw [code, effect_append, effect_append, effect_code left, effect_code right]
    rfl
  | .call f arguments =>
    rw [code, effect_append, effect_codes arguments, effect_cons, effect_nil,
      Instruction.stackEffect]
    omega

/-- Programs of trees, one after the other, leave one number each. -/
lemma effect_codes (ts : List Tree) : effect (codes ts) = ts.length := by
  match ts with
  | [] => rfl
  | t :: ts =>
    rw [codes, effect_append, effect_code t, effect_codes ts, List.length_cons]
    omega
end

mutual
/-- What already lies on the stack does not matter to the program of a tree. -/
lemma allFit_code (t : Tree) (ht : t.Applicable) {depth : Int} (h : 0 ≤ depth) :
    AllFit depth t.code := by
  match t with
  | .number _ => exact ⟨trivial, trivial⟩
  | .variable _ => exact ⟨trivial, trivial⟩
  | .binary op left right =>
    have hop : (Instruction.operator op).Fits (depth + effect (left.code ++ right.code)) := by
      rw [effect_append, effect_code, effect_code]
      change 2 ≤ depth + (1 + 1)
      omega
    have hleft : AllFit depth left.code := allFit_code left ht.1 h
    have hright : AllFit (depth + effect left.code) right.code :=
      allFit_code right ht.2 (by rw [effect_code]; omega)
    exact allFit_append.mpr ⟨allFit_append.mpr ⟨hleft, hright⟩, hop, trivial⟩
  | .call f arguments =>
    have hcall : (Instruction.call f arguments.length).Fits (depth + effect (codes arguments)) := by
      rw [effect_codes]
      exact ⟨by omega, ht.1⟩
    exact allFit_append.mpr ⟨allFit_codes arguments ht.2 h, hcall, trivial⟩

lemma allFit_codes (ts : List Tree) (hts : AllApplicable ts) {depth : Int} (h : 0 ≤ depth) :
    AllFit depth (codes ts) := by
  match ts with
  | [] => trivial
  | t :: ts =>
    have hrest : AllFit (depth + effect t.code) (codes ts) :=
      allFit_codes ts hts.2 (by rw [effect_code]; omega)
    exact allFit_append.mpr ⟨allFit_code t hts.1 h, hrest⟩
end

/-- The program of an applicable tree is stack-disciplined. -/
theorem stackDisciplined_code {t : Tree} (ht : t.Applicable) : StackDisciplined t.code :=
  stackDisciplined_iff.mpr ⟨allFit_code t ht (Int.le_refl 0), effect_code t⟩

end InfixCalc.Tree
