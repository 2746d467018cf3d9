/-!
# Rules

A rule is a boolean formula over somebody's tags and name. Two kinds of group join
rules: `Group.all` asks for every part, `Group.any` for at least one. A group may have
any number of parts, none included.

`Rule` is nested through `List`, so functions on it come as a pair, one for a rule and
one for a list of parts, and proofs go by `Rule.induction`, whose case for a group
assumes the statement of every part. Equality of rules is decidable (`Rule.same_iff`).

On purpose the two kinds of group are one constructor with the kind as an argument, so
that what goes for both is said once; the same `Group` names the kind in errors. The
operations `and`, `or`, `all` and `any` build the group they are called after and merge
nothing into it.
-/

namespace TagLogic

/-- The two kinds of group. -/
inductive Group where
  /-- Every part has to hold. -/
  | all
  /-- At least one part has to hold. -/
  | any
  deriving DecidableEq, Repr

/-- A boolean formula over tags and names. -/
inductive Rule where
  /-- Holds of everybody. -/
  | always
  /-- Holds of nobody. -/
  | never
  /-- Holds of those who have the tag. -/
  | tagged (tag : String)
  /-- Holds of those who have the name. -/
  | named (name : String)
  /-- Holds where the rule does not. -/
  | not (rule : Rule)
  /-- Joins its parts. -/
  | group (kind : Group) (parts : List Rule)
  deriving Repr, Inhabited

namespace Rule

/-- Every part has to hold. -/
abbrev all (parts : List Rule) : Rule := .group .all parts

/-- At least one part has to hold. -/
abbrev any (parts : List Rule) : Rule := .group .any parts

/-- The group of two rules that both have to hold; neither is merged into it. -/
def and (r s : Rule) : Rule := .all [r, s]

/-- The group of two rules of which one has to hold; neither is merged into it. -/
def or (r s : Rule) : Rule := .any [r, s]

/-- To prove a statement of every rule, prove it of a group from its parts. -/
theorem induction {P : Rule → Prop} (always : P .always) (never : P .never)
    (tagged : ∀ t, P (.tagged t)) (named : ∀ n, P (.named n))
    (not : ∀ r, P r → P (.not r))
    (group : ∀ kind parts, (∀ r ∈ parts, P r) → P (.group kind parts)) : ∀ r, P r
  | .always => always
  | .never => never
  | .tagged t => tagged t
  | .named n => named n
  | .not r => not r (induction always never tagged named not group r)
  | .group kind parts =>
    group kind parts fun r _ => induction always never tagged named not group r

/-! ## Equality -/

mutual

/-- The two rules are built alike. -/
def same : Rule → Rule → Bool
  | .always, .always => true
  | .never, .never => true
  | .tagged s, .tagged t => s = t
  | .named m, .named n => m = n
  | .not r, .not s => same r s
  | .group k rs, .group l ss => k = l && sameParts rs ss
  | _, _ => false

/-- The two lists hold rules built alike, place by place. -/
def sameParts : List Rule → List Rule → Bool
  | [], [] => true
  | r :: rs, s :: ss => same r s && sameParts rs ss
  | _, _ => false

end

mutual

/-- Rules built alike are equal. -/
theorem eq_of_same : ∀ {r s : Rule}, same r s = true → r = s
  | .always, s, h => by cases s <;> simp_all [same]
  | .never, s, h => by cases s <;> simp_all [same]
  | .tagged _, s, h => by cases s <;> simp_all [same]
  | .named _, s, h => by cases s <;> simp_all [same]
  | .not r, s, h => by
    cases s <;> simp only [same, Bool.false_eq_true] at h
    next s => rw [eq_of_same h]
  | .group k rs, s, h => by
    cases s <;> simp only [same, Bool.false_eq_true, Bool.and_eq_true, decide_eq_true_eq] at h
    next l ss => rw [h.1, eq_of_sameParts h.2]

/-- Lists of rules built alike are equal. -/
theorem eq_of_sameParts : ∀ {rs ss : List Rule}, sameParts rs ss = true → rs = ss
  | [], ss, h => by cases ss <;> simp_all [sameParts]
  | r :: rs, ss, h => by
    cases ss <;> simp only [sameParts, Bool.false_eq_true, Bool.and_eq_true] at h
    next s ss => rw [eq_of_same h.1, eq_of_sameParts h.2]

end

theorem sameParts_self {rs : List Rule} (h : ∀ r ∈ rs, same r r = true) :
    sameParts rs rs = true := by
  induction rs with
  | nil => rfl
  | cons r rs ih =>
    rw [sameParts, h r List.mem_cons_self, ih fun s hs => h s (List.mem_cons_of_mem r hs)]
    rfl

theorem same_self (r : Rule) : same r r = true := by
  induction r using Rule.induction with
  | group kind parts ih => simp [same, sameParts_self ih]
  | _ => simp_all [same]

/-- **Rules are built alike exactly when they are equal.** -/
theorem same_iff {r s : Rule} : same r s = true ↔ r = s :=
  ⟨eq_of_same, fun h => h ▸ same_self r⟩

instance : DecidableEq Rule := fun _ _ => decidable_of_iff _ same_iff

/-! ## Nesting -/

mutual

/-- How many negations and groups the longest way down into the rule passes. -/
def height : Rule → Nat
  | .not r => r.height + 1
  | .group _ parts => heights parts + 1
  | _ => 0

/-- The greatest height among the parts. -/
def heights : List Rule → Nat
  | [] => 0
  | r :: rs => max r.height (heights rs)

end

/-- A bound on the heights of all parts is a bound on every part. -/
theorem heights_le_iff {rs : List Rule} {n : Nat} : heights rs ≤ n ↔ ∀ r ∈ rs, r.height ≤ n := by
  induction rs with
  | nil => simp [heights]
  | cons r rs ih => rw [heights, Nat.max_le, ih, List.forall_mem_cons]

end Rule

end TagLogic
