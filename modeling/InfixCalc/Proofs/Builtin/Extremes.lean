import InfixCalc.Proofs.Grammar.Evaluation
import InfixCalc.Proofs.Number.Best

/-!
# The largest and the smallest argument

`max` and `min` find the best of their arguments, with ranks and with their negatives for keys. A
call of one of them among its own arguments is as good as the arguments of that call, because it
does not matter in which groups the best one is looked for.
-/

namespace InfixCalc

/-! ### Nested calls -/

namespace Tree

variable {source : Source} {draws : Draws} {f : Builtin} {ts us vs : List Tree} {drawn : Nat}

lemma evals_append :
    evals source draws (ts ++ us) drawn = do
      let (xs, drawn) ← evals source draws ts drawn
      let (ys, drawn) ← evals source draws us drawn
      return (xs ++ ys, drawn) := by
  induction ts generalizing drawn with
  | nil =>
    simp only [List.nil_append, evals, bind, Except.bind]
    cases evals source draws us drawn <;> rfl
  | cons t ts ih =>
    simp only [List.cons_append, evals, ih]
    cases t.eval source draws drawn with
    | error e => rfl
    | ok x =>
      simp only [bind, Except.bind]
      cases evals source draws ts x.2 with
      | error e => rfl
      | ok xs =>
        simp only [pure, Except.pure]
        cases evals source draws us xs.2 <;> rfl

/-- Arguments can be put in the place of their call if this makes no difference to their values. -/
lemma eval_nested (h : ∀ xs ys zs, f.value (xs ++ f.value ys :: zs) = f.value (xs ++ ys ++ zs)) :
    (call f (ts ++ call f us :: vs)).eval source draws drawn
      = (call f (ts ++ us ++ vs)).eval source draws drawn := by
  simp only [eval, List.append_assoc, evals_append, evals]
  cases evals source draws ts drawn with
  | error e => rfl
  | ok xs =>
    simp only [bind, Except.bind]
    cases evals source draws us xs.2 with
    | error e => rfl
    | ok ys =>
      simp only [pure, Except.pure]
      cases evals source draws vs ys.2 with
      | error e => rfl
      | ok zs => simp only [h, List.append_assoc]

lemma applicable_call_iff (h : f.arity = .variadic) :
    (call f ts).Applicable ↔ ts ≠ [] ∧ AllApplicable ts := by
  rw [Applicable, h, Arity.accepts, decide_eq_true_iff, ← List.length_pos_iff, Nat.succ_le_iff]

/-- A call of a function with any number of arguments can be replaced by its arguments among those
of another call of the same function. -/
lemma evaluate_nested (harity : f.arity = .variadic)
    (h : ∀ xs ys zs, f.value (xs ++ f.value ys :: zs) = f.value (xs ++ ys ++ zs))
    (hne : us ≠ []) (happ : AllApplicable (ts ++ us ++ vs)) (source : Source) (draws : Draws) :
    Program.evaluate ⟨(call f (ts ++ call f us :: vs)).code⟩ source draws
      = Program.evaluate ⟨(call f (ts ++ us ++ vs)).code⟩ source draws := by
  have hflat : (call f (ts ++ us ++ vs)).Applicable :=
    (applicable_call_iff harity).mpr ⟨by simp [hne], happ⟩
  have hnested : (call f (ts ++ call f us :: vs)).Applicable := by
    simp only [allApplicable_append, and_assoc] at happ
    obtain ⟨hts, hus, hvs⟩ := happ
    exact (applicable_call_iff harity).mpr ⟨by simp, (allApplicable_append ..).mpr
      ⟨hts, (applicable_call_iff harity).mpr ⟨hne, hus⟩, hvs⟩⟩
  cases hcheck : source.check with
  | error e => rw [Program.evaluate_of_check_error hcheck, Program.evaluate_of_check_error hcheck]
  | ok _ => rw [evaluate_code _ hnested hcheck, evaluate_code _ hflat hcheck, eval_nested h]

end Tree

/-! ### The functions `max` and `min` -/

namespace Builtin

open Number

variable {f : Builtin} {r : Float → Float → Prop} {key : Float → Int}

/-- What it is for a function of any number of arguments to find the one that all others are related
to. NaN is skipped wherever there is another argument. -/
structure FindsExtreme (f : Builtin) (r : Float → Float → Prop) : Prop where
  apply_eq : ∀ xs, xs ≠ [] → f.apply xs = some (f.value xs)
  isNaN_iff : ∀ xs, xs ≠ [] → ((f.value xs).isNaN ↔ ∀ x ∈ xs, x.isNaN)
  attained : ∀ xs, xs ≠ [] → (f.value xs).isNaN = false → ∃ x ∈ xs, f.value xs == x
  bound : ∀ xs, ∀ x ∈ xs, x.isNaN = false → r x (f.value xs)
  perm : ∀ xs ys, xs.Perm ys → Number.Same (f.value xs) (f.value ys)
  append : ∀ xs ys, xs ≠ [] → ys ≠ [] → f.value (xs ++ ys) = f.value [f.value xs, f.value ys]
  /-- A call among the arguments can be replaced by its own arguments. -/
  nested : ∀ (ts us vs : List Tree), us ≠ [] → Tree.AllApplicable (ts ++ us ++ vs) →
    ∀ (source : Source) (draws : Draws),
      Program.evaluate ⟨(Tree.call f (ts ++ .call f us :: vs)).code⟩ source draws
        = Program.evaluate ⟨(Tree.call f (ts ++ us ++ vs)).code⟩ source draws

/-- A function that takes the best of its arguments finds the one with the greatest key. -/
lemma findsExtreme_of_apply (harity : f.arity = .variadic)
    (happly : ∀ xs, f.apply xs = some (best key xs))
    (hrank : ∀ x y, key x = key y → rank x = rank y)
    (hr : ∀ x y, x.isNaN = false → y.isNaN = false → key x ≤ key y → r x y) :
    f.FindsExtreme r := by
  have hvalue : f.value = best key := by
    funext xs
    rw [value, happly, Option.getD_some]
  constructor
  case apply_eq => exact fun xs _ => hvalue ▸ happly xs
  case isNaN_iff => exact fun xs hne => hvalue ▸ isNaN_best_iff hne
  case attained =>
    intro xs hne h
    rw [hvalue] at h ⊢
    exact ⟨_, best_mem hne, beq_self h⟩
  case bound =>
    intro xs x hx h
    rw [hvalue]
    obtain ⟨hbest, hle⟩ := @key_le_key_best key x xs hx h
    exact hr x _ h hbest hle
  case perm =>
    intro xs ys h
    rw [hvalue]
    exact same_of_level_eq hrank (level_best_eq_of_perm h)
  case append =>
    intro xs ys _ _
    rw [hvalue, best_append, best_cons, best_cons, best_nil, better_nan_right]
  case nested =>
    intro ts us vs hne happ
    refine Tree.evaluate_nested harity ?_ hne happ
    intro xs ys zs
    rw [hvalue, best_append, best_cons, List.append_assoc, best_append, best_append]

/-- `max` finds an argument that no other one is greater than, and `min` one that no other one is
less than. -/
theorem max_min_findsExtreme : FindsExtreme .max (· ≤ ·) ∧ FindsExtreme .min (· ≥ ·) := by
  constructor
  · have happly : ∀ xs, Builtin.max.apply xs = some (best rank xs) :=
      fun xs => congrArg some maximum_eq_best
    exact findsExtreme_of_apply rfl happly (fun x y h => h)
      fun x y hx hy h => le_iff.mpr ⟨hx, hy, h⟩
  · have happly : ∀ xs, Builtin.min.apply xs = some (best (-rank ·) xs) :=
      fun xs => congrArg some minimum_eq_best
    exact findsExtreme_of_apply rfl happly (fun x y h => neg_inj.mp h)
      fun x y hx hy h => le_iff.mpr ⟨hy, hx, neg_le_neg_iff.mp h⟩

end Builtin

end InfixCalc
