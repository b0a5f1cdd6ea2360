import InfixCalc.Proofs.Tree.Evaluation
import InfixCalc.Proofs.Tree.Precedence

/-!
# Names in trees

The names in a tree are the names that its program reads, in the same order, and grouping the
operands of a run leaves their names as they are. So the free variables of a program are the names
of its tree without the constants, and the first of them without a value is the first name in the
tree that has none.
-/

namespace InfixCalc

/-- Whether a name is looked up in the source, as the names of constants are not. -/
def isFree (name : String) : Bool := (Constant.ofName? name).isNone

namespace Instruction

/-- The name that an instruction reads, be it that of a variable or of a constant. -/
def name? : Instruction → Option String
  | .variable name => some name
  | _ => none

lemma free?_eq (i : Instruction) : i.free? = i.name?.filter isFree := by
  cases i with
  | «variable» name =>
    rw [free?, name?, Option.filter_some, isFree]
    cases Constant.ofName? name <;> rfl
  | _ => rfl

lemma name?_eq_some_iff {i : Instruction} {name : String} :
    i.name? = some name ↔ i = .variable name := by
  cases i <;> simp [name?]

end Instruction

namespace Tree

mutual
lemma filterMap_name_code (t : Tree) : t.code.filterMap Instruction.name? = t.names := by
  match t with
  | .number value => rfl
  | .variable name => rfl
  | .binary op left right =>
    rw [code, names, List.filterMap_append, List.filterMap_append, filterMap_name_code left,
      filterMap_name_code right]
    exact List.append_nil _
  | .call f arguments =>
    rw [code, names, List.filterMap_append, filterMap_name_codes arguments]
    exact List.append_nil _

lemma filterMap_name_codes (ts : List Tree) :
    (codes ts).filterMap Instruction.name? = namesOfAll ts := by
  match ts with
  | [] => rfl
  | t :: ts =>
    rw [codes, namesOfAll, List.filterMap_append, filterMap_name_code t, filterMap_name_codes ts]
end

lemma mem_names_iff {t : Tree} {name : String} : name ∈ t.names ↔ .variable name ∈ t.code := by
  simp [← filterMap_name_code, Instruction.name?_eq_some_iff]

lemma freeVariables_code (t : Tree) :
    Program.freeVariables ⟨t.code⟩ = (t.names.filter isFree).eraseDups := by
  have hfree : Instruction.free? = fun i => i.name?.filter isFree :=
    funext Instruction.free?_eq
  rw [Program.freeVariables, hfree, ← List.filter_filterMap, filterMap_name_code]

@[simp] lemma namesOfAll_append (ts us : List Tree) :
    namesOfAll (ts ++ us) = namesOfAll ts ++ namesOfAll us := by
  induction ts with
  | nil => rfl
  | cons t ts ih => simp [namesOfAll, ih]

end Tree

/-! ### Runs -/

namespace Run

/-- The names in the operands of a run from left to right. -/
def names (r : Run) : List String := r.first.names ++ r.links.flatMap (·.2.names)

lemma names_joinLeft (first : Tree) (links : List (Operator × Tree)) :
    (joinLeft first links).names = names ⟨first, links⟩ := by
  induction links generalizing first with
  | nil => exact (List.append_nil _).symm
  | cons link links ih =>
    change (joinLeft (.binary link.1 first link.2) links).names = _
    rw [ih]
    simp [names, Tree.names]

lemma names_power (r : Run) : r.power.names = r.names := by
  obtain ⟨first, links⟩ := r
  induction links generalizing first with
  | nil => exact (List.append_nil _).symm
  | cons link links ih =>
    change first.names ++ (power ⟨link.2, links⟩).names = _
    rw [ih]
    simp [names]

lemma names_cut (tier : Nat) (first : Tree) (links : List (Operator × Tree)) :
    (cut tier first links).1.names ++ (cut tier first links).2.flatMap (·.2.names)
      = names ⟨first, links⟩ := by
  induction links generalizing first with
  | nil => exact List.append_nil _
  | cons link links ih =>
    have hlinks := ih link.2
    simp only [names] at hlinks ⊢
    rw [cut]
    split_ifs <;> simpa [names] using hlinks

lemma names_groupLeft {tier : Nat} {inner : Run → Tree} (hinner : ∀ r, (inner r).names = r.names)
    (r : Run) : (groupLeft tier inner r).names = r.names := by
  rw [groupLeft, names_joinLeft, ← names_cut tier r.first r.links]
  simp [names, List.flatMap_map, hinner]

/-- Grouping the operands of a run keeps the order of their names. -/
theorem names_sum (r : Run) : r.sum.names = r.names :=
  names_groupLeft (names_groupLeft names_power) r

end Run

/-! ### The first name without a value -/

lemma find?_eraseDups (p : String → Bool) (names : List String) :
    names.eraseDups.find? p = names.find? p := by
  match names with
  | [] => rfl
  | name :: names =>
    rw [List.eraseDups_cons, List.find?_cons, List.find?_cons, find?_eraseDups, List.find?_filter]
    cases hp : p name with
    | true => rfl
    | false =>
      -- A later copy of `name` is not found either, so that it may have been erased.
      change names.find? _ = names.find? p
      congr 1
      funext other
      by_cases hother : other = name <;> simp [hother, hp]
termination_by names.length
decreasing_by exact Nat.lt_succ_of_le (List.length_filter_le _ _)

variable {source : Source}

lemma Source.not_resolves_eq (name : String) :
    (!source.resolves name) = (isFree name && (source.get? name).isNone) := by
  rw [Source.resolves, isFree, Bool.not_or]
  cases Constant.ofName? name <;> cases source.get? name <;> rfl

/-- The first name in a tree that has no value is the first free variable that has none. -/
lemma Tree.firstUnknown_names (t : Tree) :
    source.firstUnknown t.names
      = (Program.freeVariables ⟨t.code⟩).find? fun name => (source.get? name).isNone := by
  rw [freeVariables_code, find?_eraseDups, List.find?_filter, Source.firstUnknown]
  congr 1
  funext name
  rw [Source.not_resolves_eq, Bool.decide_and, Bool.decide_eq_true, Bool.decide_eq_true]

end InfixCalc
