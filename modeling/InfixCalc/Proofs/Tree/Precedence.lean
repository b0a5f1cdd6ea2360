import InfixCalc.Proofs.Tree.Basic

/-!
# Precedence

Operands with operators between them make up a run. Its tree is found tier by tier: `Run.sum` cuts
a run at the operators `+` and `-`, `Run.product` cuts what is left at `*`, `/` and `%`, and
`Run.power` has only `^` to deal with. The lower two tiers are grouped to the left, the highest one
to the right.

The same tree comes about in one pass from left to right, if every operator waits until one comes
that it has to yield to. This is `Run.finish`, and `Run.finish_eq_sum` says that both agree.
-/

namespace InfixCalc

lemma Operator.tier_le (op : Operator) : op.tier ≤ 2 := by cases op <;> decide

/-- Only the operators of the highest tier group to the right. -/
lemma Operator.isRightAssociative_eq_false_iff {op : Operator} :
    op.isRightAssociative = false ↔ op.tier < 2 := by
  cases op <;> decide

lemma Operator.yieldsTo_iff {waiting incoming : Operator} :
    waiting.yieldsTo incoming = true ↔
      incoming.tier < waiting.tier ∨ incoming.tier = waiting.tier ∧ incoming.tier < 2 := by
  rw [yieldsTo, relation_eq_compare]
  rcases Nat.lt_trichotomy waiting.tier incoming.tier with hlt | heq | hgt
  · rw [Nat.compare_eq_lt.mpr hlt]
    exact iff_of_false Bool.false_ne_true (by omega)
  · rw [Nat.compare_eq_eq.mpr heq, heq]
    simp only [Bool.not_eq_true', isRightAssociative_eq_false_iff, Nat.lt_irrefl, true_and,
      false_or]
  · rw [Nat.compare_eq_gt.mpr hgt]
    exact iff_of_true rfl (.inl hgt)

/-- A first operand and further ones, each with the operator before it. -/
structure Run where
  first : Tree
  links : List (Operator × Tree)

namespace Run

/-! ### Tier by tier -/

/-- Cut a run at the operators of a tier: the part before the first of these, and every later part
with the operator before it. -/
def cut (tier : Nat) (first : Tree) : List (Operator × Tree) → Run × List (Operator × Run)
  | [] => (⟨first, []⟩, [])
  | (op, next) :: links =>
    let (part, parts) := cut tier next links
    if op.tier = tier then (⟨first, []⟩, (op, part) :: parts)
    else (⟨first, (op, part.first) :: part.links⟩, parts)

/-- Group operands to the left: `a - b - c` is `(a - b) - c`. -/
def joinLeft (first : Tree) (links : List (Operator × Tree)) : Tree :=
  links.foldl (fun left (op, right) => .binary op left right) first

/-- Group operands to the right: `a ^ b ^ c` is `a ^ (b ^ c)`. -/
def joinRight (first : Tree) : List (Operator × Tree) → Tree
  | [] => first
  | (op, next) :: links => .binary op first (joinRight next links)

/-- Group a run to the left at the operators of a tier, where `inner` groups the parts. -/
def groupLeft (tier : Nat) (inner : Run → Tree) (r : Run) : Tree :=
  let (part, parts) := cut tier r.first r.links
  joinLeft (inner part) (parts.map fun (op, part) => (op, inner part))

/-- The tree of a run with no operator but `^`. -/
def power (r : Run) : Tree := joinRight r.first r.links

/-- The tree of a run with no operators but `*`, `/`, `%` and `^`. -/
def product : Run → Tree := groupLeft 1 power

/-- The tree of a run. -/
def sum : Run → Tree := groupLeft 0 product

/-! ### Operands of a run -/

/-- Whether all operands of a run have a property. -/
def All (P : Tree → Prop) (r : Run) : Prop := P r.first ∧ ∀ link ∈ r.links, P link.2

section All

variable {P : Tree → Prop} (hbinary : ∀ op left right, P left → P right → P (.binary op left right))

include hbinary

lemma joinLeft_of_all {first : Tree} {links : List (Operator × Tree)}
    (h : All P ⟨first, links⟩) : P (joinLeft first links) := by
  induction links generalizing first with
  | nil => exact h.1
  | cons link links ih =>
    obtain ⟨hfirst, hlinks⟩ := h
    obtain ⟨hlink, hlinks⟩ := List.forall_mem_cons.mp hlinks
    exact ih ⟨hbinary _ _ _ hfirst hlink, hlinks⟩

lemma power_of_all {r : Run} (h : All P r) : P r.power := by
  obtain ⟨first, links⟩ := r
  induction links generalizing first with
  | nil => exact h.1
  | cons link links ih =>
    obtain ⟨hfirst, hlinks⟩ := h
    obtain ⟨hlink, hlinks⟩ := List.forall_mem_cons.mp hlinks
    exact hbinary _ _ _ hfirst (ih link.2 ⟨hlink, hlinks⟩)

omit hbinary in
lemma all_cut (tier : Nat) {first : Tree} {links : List (Operator × Tree)}
    (h : All P ⟨first, links⟩) :
    All P (cut tier first links).1 ∧ ∀ part ∈ (cut tier first links).2, All P part.2 := by
  induction links generalizing first with
  | nil => exact ⟨h, by simp [cut]⟩
  | cons link links ih =>
    obtain ⟨op, next⟩ := link
    obtain ⟨hfirst, hlinks⟩ := h
    obtain ⟨hlink, hlinks⟩ := List.forall_mem_cons.mp hlinks
    obtain ⟨hpart, hparts⟩ := ih ⟨hlink, hlinks⟩
    simp only [cut]
    split
    · exact ⟨⟨hfirst, by simp⟩, List.forall_mem_cons.mpr ⟨hpart, hparts⟩⟩
    · exact ⟨⟨hfirst, List.forall_mem_cons.mpr hpart⟩, hparts⟩

lemma groupLeft_of_all {tier : Nat} {inner : Run → Tree} (hinner : ∀ r, All P r → P (inner r))
    {r : Run} (h : All P r) : P (groupLeft tier inner r) := by
  obtain ⟨hpart, hparts⟩ := all_cut tier h
  refine joinLeft_of_all hbinary ⟨hinner _ hpart, ?_⟩
  simp only [List.forall_mem_map]
  exact fun part hmem => hinner _ (hparts part hmem)

/-- A property that operators keep passes from the operands of a run to its tree. -/
lemma sum_of_all {r : Run} (h : All P r) : P r.sum :=
  groupLeft_of_all hbinary
    (fun _ => groupLeft_of_all hbinary fun _ => power_of_all hbinary) h

end All

/-! ### In one pass -/

/-- Operators that wait for their right operands, each with its left one, the latest first. -/
abbrev Pending := List (Operator × Tree)

/-- Apply operators that wait, the latest first, as long as they meet a condition. -/
def applyWhile (p : Operator → Bool) (t : Tree) : Pending → Tree × Pending
  | [] => (t, [])
  | (op, left) :: pending =>
    if p op then applyWhile p (.binary op left t) pending else (t, (op, left) :: pending)

/-- Apply all operators that wait. -/
def complete (t : Tree) (pending : Pending) : Tree := (applyWhile (fun _ => true) t pending).1

lemma snd_applyWhile_true (t : Tree) (pending : Pending) :
    (applyWhile (fun _ => true) t pending).2 = [] := by
  induction pending generalizing t with
  | nil => rfl
  | cons link pending ih => simpa [applyWhile] using ih _

/-- Go on by an operator and the operand after it. -/
def shift (s : Tree × Pending) (link : Operator × Tree) : Tree × Pending :=
  let (left, pending) := applyWhile (·.yieldsTo link.1) s.1 s.2
  (link.2, (link.1, left) :: pending)

/-- Go on by several operators and operands. -/
def climb (s : Tree × Pending) (links : List (Operator × Tree)) : Tree × Pending :=
  links.foldl shift s

lemma climb_append (s : Tree × Pending) (links : List (Operator × Tree))
    (link : Operator × Tree) : climb s (links ++ [link]) = shift (climb s links) link := by
  simp [climb]

/-- Go on by several operators and operands, and apply what waits then. -/
def finish (s : Tree × Pending) (links : List (Operator × Tree)) : Tree :=
  complete (climb s links).1 (climb s links).2

@[simp] lemma finish_nil (t : Tree) (pending : Pending) :
    finish (t, pending) [] = complete t pending := rfl

@[simp] lemma finish_cons (s : Tree × Pending) (link : Operator × Tree)
    (links : List (Operator × Tree)) : finish s (link :: links) = finish (shift s link) links := rfl

/-! ### Agreement -/

/-- Whether the latest operator that waits lets every operator of a tier or a higher one pass. -/
def Admits (tier : Nat) (pending : Pending) : Prop :=
  ∀ link ∈ pending.head?, ∀ op : Operator, tier ≤ op.tier → link.1.yieldsTo op = false

/-- Whether links begin with an operator of a lower tier, if there are any. -/
def StartsBelow (tier : Nat) (links : List (Operator × Tree)) : Prop :=
  ∀ link ∈ links.head?, link.1.tier < tier

/-- Whether a run of operators of a tier and higher ones counts as the operand that `group` makes
of it, wherever it stands. -/
def Condenses (tier : Nat) (group : Run → Tree) : Prop :=
  ∀ (r : Run) (pending : Pending) (more : List (Operator × Tree)),
    (∀ link ∈ r.links, tier ≤ link.1.tier) → Admits tier pending → StartsBelow tier more →
      finish (r.first, pending) (r.links ++ more) = finish (group r, pending) more

lemma shift_of_admits {tier : Nat} {pending : Pending} {link : Operator × Tree}
    (h : Admits tier pending) (hlink : tier ≤ link.1.tier) (t : Tree) :
    shift (t, pending) link = (link.2, (link.1, t) :: pending) := by
  cases pending with
  | nil => rfl
  | cons top pending =>
    have htop : top.1.yieldsTo link.1 = false := h top rfl link.1 hlink
    simp [shift, applyWhile, htop]

/-- An operator that waits is applied as soon as its right operand is followed by nothing or by an
operator to which it yields. -/
lemma finish_cons_pending {op : Operator} {more : List (Operator × Tree)}
    (h : ∀ link ∈ more.head?, op.yieldsTo link.1 = true) (left right : Tree) (pending : Pending) :
    finish (right, (op, left) :: pending) more = finish (.binary op left right, pending) more := by
  cases more with
  | nil => rfl
  | cons link more =>
    have hop : op.yieldsTo link.1 = true := h link rfl
    simp [shift, applyWhile, hop]

lemma condenses_power : Condenses 2 power := by
  rintro ⟨first, links⟩ pending more hlinks hpending hmore
  induction links generalizing first pending with
  | nil => rfl
  | cons link links ih =>
    obtain ⟨op, next⟩ := link
    have hop : 2 ≤ op.tier := hlinks (op, next) (by simp)
    have hadmits : Admits 2 ((op, first) :: pending) := by
      rintro link ⟨⟩ incoming hincoming
      have := op.tier_le
      rw [← Bool.not_eq_true, Operator.yieldsTo_iff]
      simp only
      omega
    have hyields : ∀ link ∈ more.head?, op.yieldsTo link.1 = true := by
      intro link hlink
      have := hmore link hlink
      exact Operator.yieldsTo_iff.mpr (.inl (by omega))
    calc finish (first, pending) ((op, next) :: links ++ more)
        = finish (next, (op, first) :: pending) (links ++ more) := by
          rw [List.cons_append, finish_cons, shift_of_admits hpending hop]
      _ = finish (joinRight next links, (op, first) :: pending) more :=
          ih next _ (fun link hlink => hlinks link (by simp [hlink])) hadmits
      _ = finish (joinRight first ((op, next) :: links), pending) more :=
          finish_cons_pending hyields _ _ _

/-- The links of the parts of a run, and of the operators before them. -/
def spread (parts : List (Operator × Run)) : List (Operator × Tree) :=
  parts.flatMap fun (op, part) => (op, part.first) :: part.links

@[simp] lemma spread_cons (op : Operator) (part : Run) (parts : List (Operator × Run)) :
    spread ((op, part) :: parts) = (op, part.first) :: (part.links ++ spread parts) := by
  simp [spread]

/-- A cut loses nothing. -/
lemma cut_eq (tier : Nat) (first : Tree) (links : List (Operator × Tree)) :
    (cut tier first links).1.first = first ∧
      (cut tier first links).1.links ++ spread (cut tier first links).2 = links := by
  induction links generalizing first with
  | nil => exact ⟨rfl, rfl⟩
  | cons link links ih =>
    obtain ⟨op, next⟩ := link
    obtain ⟨hfirst, hlinks⟩ := ih next
    simp only [cut]
    split
    · exact ⟨rfl, by simp [hfirst, hlinks]⟩
    · exact ⟨rfl, by simp [hfirst, hlinks]⟩

/-- The operators of a tier are found between the parts, and only there. -/
lemma tier_of_mem_cut {tier : Nat} {links : List (Operator × Tree)}
    (h : ∀ link ∈ links, tier ≤ link.1.tier) (first : Tree) :
    (∀ link ∈ (cut tier first links).1.links, tier + 1 ≤ link.1.tier) ∧
      ∀ part ∈ (cut tier first links).2,
        part.1.tier = tier ∧ ∀ link ∈ part.2.links, tier + 1 ≤ link.1.tier := by
  induction links generalizing first with
  | nil => simp [cut]
  | cons link links ih =>
    obtain ⟨op, next⟩ := link
    obtain ⟨hpart, hparts⟩ := ih (fun link hlink => h link (by simp [hlink])) next
    have hop : tier ≤ op.tier := h (op, next) (by simp)
    simp only [cut]
    split
    case isTrue heq =>
      refine ⟨by simp, ?_⟩
      rintro part (_ | ⟨_, hmem⟩)
      · exact ⟨heq, hpart⟩
      · exact hparts part hmem
    case isFalse hne =>
      refine ⟨?_, hparts⟩
      rintro link (_ | ⟨_, hmem⟩)
      · simp only
        omega
      · exact hpart link hmem

lemma finish_spread {tier : Nat} {inner : Run → Tree} (hinner : Condenses (tier + 1) inner)
    (htier : tier < 2) {pending : Pending} (hpending : Admits tier pending)
    {more : List (Operator × Tree)} (hmore : StartsBelow tier more)
    {parts : List (Operator × Run)}
    (hparts : ∀ part ∈ parts,
      part.1.tier = tier ∧ ∀ link ∈ part.2.links, tier + 1 ≤ link.1.tier) (t : Tree) :
    finish (t, pending) (spread parts ++ more)
      = finish (joinLeft t (parts.map fun (op, part) => (op, inner part)), pending) more := by
  induction parts generalizing t with
  | nil => rfl
  | cons part parts ih =>
    obtain ⟨op, part⟩ := part
    obtain ⟨hop, hlinks⟩ := hparts (op, part) (by simp)
    have hrest : ∀ part ∈ parts,
        part.1.tier = tier ∧ ∀ link ∈ part.2.links, tier + 1 ≤ link.1.tier :=
      fun part hpart => hparts part (by simp [hpart])
    simp only at hop hlinks
    have hadmits : Admits (tier + 1) ((op, t) :: pending) := by
      rintro link ⟨⟩ incoming hincoming
      rw [← Bool.not_eq_true, Operator.yieldsTo_iff]
      simp only
      omega
    -- What follows the part, if anything, is an operator to which `op` yields.
    have hbelow : ∀ link ∈ (spread parts ++ more).head?, link.1.tier ≤ tier := by
      intro link hlink
      cases parts with
      | nil => exact Nat.le_of_lt (hmore link hlink)
      | cons next parts =>
        cases hlink
        exact Nat.le_of_eq (hrest next (by simp)).1
    have hyields : ∀ link ∈ (spread parts ++ more).head?, op.yieldsTo link.1 = true := by
      intro link hlink
      have := hbelow link hlink
      exact Operator.yieldsTo_iff.mpr (by omega)
    calc finish (t, pending) (spread ((op, part) :: parts) ++ more)
        = finish (part.first, (op, t) :: pending) (part.links ++ (spread parts ++ more)) := by
          rw [spread_cons, List.cons_append, finish_cons, List.append_assoc,
            shift_of_admits hpending (Nat.le_of_eq hop.symm)]
      _ = finish (inner part, (op, t) :: pending) (spread parts ++ more) :=
          hinner part _ _ hlinks hadmits fun link hlink => Nat.lt_succ_of_le (hbelow link hlink)
      _ = finish (.binary op t (inner part), pending) (spread parts ++ more) :=
          finish_cons_pending hyields _ _ _
      _ = _ := ih hrest _

lemma condenses_groupLeft {tier : Nat} {inner : Run → Tree}
    (hinner : Condenses (tier + 1) inner) (htier : tier < 2) :
    Condenses tier (groupLeft tier inner) := by
  intro r pending more hlinks hpending hmore
  obtain ⟨hfirst, hsplit⟩ := cut_eq tier r.first r.links
  obtain ⟨hpart, hparts⟩ := tier_of_mem_cut hlinks r.first
  have hadmits : Admits (tier + 1) pending :=
    fun link hlink op hop => hpending link hlink op (by omega)
  have hbelow : StartsBelow (tier + 1) (spread (cut tier r.first r.links).2 ++ more) := by
    intro link hlink
    generalize (cut tier r.first r.links).2 = parts at hlink hparts
    cases parts with
    | nil => exact Nat.lt_succ_of_lt (hmore link hlink)
    | cons next parts =>
      cases hlink
      exact Nat.lt_succ_of_le (Nat.le_of_eq (hparts next (by simp)).1)
  calc finish (r.first, pending) (r.links ++ more)
      = finish ((cut tier r.first r.links).1.first, pending)
          ((cut tier r.first r.links).1.links
            ++ (spread (cut tier r.first r.links).2 ++ more)) := by
        rw [← List.append_assoc, hsplit, hfirst]
    _ = finish (inner (cut tier r.first r.links).1, pending)
          (spread (cut tier r.first r.links).2 ++ more) := hinner _ _ _ hpart hadmits hbelow
    _ = finish (groupLeft tier inner r, pending) more :=
        finish_spread hinner htier hpending hmore hparts _

/-- One pass finds the tree of a run. -/
theorem finish_eq_sum (first : Tree) (links : List (Operator × Tree)) :
    finish (first, []) links = sum ⟨first, links⟩ := by
  have hsum : Condenses 0 sum :=
    condenses_groupLeft (condenses_groupLeft condenses_power (by decide)) (by decide)
  have hall := hsum ⟨first, links⟩ [] [] (by simp) (by simp [Admits]) (by simp [StartsBelow])
  simpa [complete, applyWhile] using hall

/-- `a - b * c ^ d ^ e - f` is `(a - b * c ^ (d ^ e)) - f`. -/
example (a b c d e f : Tree) :
    sum ⟨a, [(.sub, b), (.mul, c), (.pow, d), (.pow, e), (.sub, f)]⟩ =
      .binary .sub (.binary .sub a (.binary .mul b (.binary .pow c (.binary .pow d e)))) f := rfl

end Run

end InfixCalc
