import TagLogic.Catalog.Basic
import TagLogic.Proofs.Actor.Addition
import TagLogic.Proofs.Rule.Place
import Mathlib.Algebra.Ring.Parity

/-!
# What more tags do to a rule

A tag may speak for somebody or against. It speaks for them where it stands under an even
number of negations and against them under an odd number; names and constants do neither,
since more tags do not change them. So if all tags of a rule speak for (`TagsUnder Even`), the
rule goes on to hold when tags are added, and if all speak against (`TagsUnder Odd`), a rule
that holds held before.

Neither can be proved of a rule by itself, as a negation turns the one into the other
(`tagsUnder_not`); both go together through the rule. Groups of either kind only ask that
what holds of a part goes on to hold (`holds_group_mono`).

> `ask_after_of_tagsUnder`: tags given to an actor act by polarity, on rules and on the facts that
> a catalog tells.

Tags are given by the operations `insert_tag` and `with_tags`, and facts are told by
`facts_about`.
-/

namespace TagLogic

/-! ## Where tags stand -/

def Leaf.isTag : Leaf → Bool
  | .tag _ => true
  | .name _ => false

/-- How many negations stand around the place. -/
def Place.negations (p : Place) : Nat := p.layers.count .negation

/-- Wherever a tag stands in the rule, the number of negations around it is such a number. -/
def Rule.TagsUnder (P : Nat → Prop) (r : Rule) : Prop :=
  ∀ p : Place, p.whole = r → p.leaf.isTag = true → P p.negations

theorem Rule.tagsUnder_iff {P : Nat → Prop} {r : Rule} :
    r.TagsUnder P ↔ ∀ p ∈ r.leaves, p.leaf.isTag = true → P p.negations := by
  simp only [TagsUnder, mem_leaves_iff]

instance (P : Nat → Prop) [DecidablePred P] (r : Rule) : Decidable (r.TagsUnder P) :=
  decidable_of_iff (∀ p ∈ r.leaves, p.leaf.isTag = true → P p.negations) Rule.tagsUnder_iff.symm

theorem Place.negations_negation (p : Place) : (p.under .negation).negations = p.negations + 1 :=
  List.count_cons_self

theorem Place.negations_part (kind : Group) (before after : List Rule) (p : Place) :
    (p.under (.part kind before after)).negations = p.negations :=
  List.count_cons_of_ne (fun h : Layer.part kind before after = .negation => nomatch h)

namespace Rule

variable {P : Nat → Prop}

/-- A negation is one more around every tag. -/
theorem tagsUnder_not {r : Rule} : (Rule.not r).TagsUnder P ↔ r.TagsUnder (P <| · + 1) := by
  rw [tagsUnder_iff, tagsUnder_iff, leaves, List.forall_mem_map]
  simp only [Place.negations_negation]
  exact Iff.rfl

/-- A group is no negation of its parts. -/
theorem tagsUnder_of_mem {kind : Group} {parts : List Rule}
    (h : (Rule.group kind parts).TagsUnder P) : ∀ r ∈ parts, r.TagsUnder P := by
  intro r hr p hp htag
  obtain ⟨before, after, rfl⟩ := List.append_of_mem hr
  have hwhole : (p.under (.part kind before after)).whole = .group kind (before ++ r :: after) := by
    rw [Place.whole_under, hp]
    rfl
  rw [← p.negations_part kind before after]
  exact h _ hwhole htag

end Rule

/-! ## Entities with more tags -/

/-- The second entity has the name of the first and all of its tags. -/
structure Entity.Extends (e e' : Entity) : Prop where
  name_eq : e'.name = e.name
  hasTag : ∀ tag, e.hasTag tag = true → e'.hasTag tag = true

namespace Rule

variable {e e' : Entity}

/-- A group of either kind goes on to hold if its parts do. -/
theorem holds_group_mono {kind : Group} {parts : List Rule}
    (h : ∀ r ∈ parts, r.holds e = true → r.holds e' = true) :
    (Rule.group kind parts).holds e = true → (Rule.group kind parts).holds e' = true := by
  cases kind with
  | all =>
    rw [holds_all, holds_all, List.all_eq_true, List.all_eq_true]
    exact fun hall r hr => h r hr (hall r hr)
  | any =>
    rw [holds_any, holds_any, List.any_eq_true, List.any_eq_true]
    exact fun ⟨r, hr, hholds⟩ => ⟨r, hr, h r hr hholds⟩

/-- **With more tags a rule goes on to hold where tags speak for, and held before where they speak
against.** -/
theorem holds_of_extends (hext : e.Extends e') (r : Rule) :
    (r.TagsUnder Even → r.holds e = true → r.holds e' = true) ∧
      (r.TagsUnder Odd → r.holds e' = true → r.holds e = true) := by
  induction r using Rule.induction with
  | always | never => exact ⟨fun _ h => h, fun _ h => h⟩
  | tagged tag =>
    refine ⟨fun _ => hext.hasTag tag, fun hodd => ?_⟩
    -- No negation stands around a rule that is nothing but a tag.
    have hzero : Odd 0 := hodd ⟨[], .tag tag⟩ rfl rfl
    exact absurd hzero (by decide)
  | named name =>
    have hsame : (Rule.named name).holds e' = (Rule.named name).holds e := by
      rw [holds, holds, hext.name_eq]
    exact ⟨fun _ h => hsame.trans h, fun _ h => hsame.symm.trans h⟩
  | not r ih =>
    simp only [tagsUnder_not, Nat.even_add_one, Nat.odd_add_one, Nat.not_even_iff_odd,
      Nat.not_odd_iff_even, holds, Bool.not_eq_true']
    constructor
    · intro hodd hfalse
      exact Bool.eq_false_iff.mpr fun h => Bool.eq_false_iff.mp hfalse (ih.2 hodd h)
    · intro heven hfalse
      exact Bool.eq_false_iff.mpr fun h => Bool.eq_false_iff.mp hfalse (ih.1 heven h)
  | group kind parts ih =>
    constructor
    · intro heven
      exact holds_group_mono fun r hr => (ih r hr).1 (tagsUnder_of_mem heven r hr)
    · intro hodd
      exact holds_group_mono fun r hr => (ih r hr).2 (tagsUnder_of_mem hodd r hr)

end Rule

/-- Behind a history of additions an actor is as before, with more tags. -/
theorem Actor.extends_after (a : Actor) (history : List Addition) :
    a.toEntity.Extends (a.after history).toEntity := by
  refine ⟨a.name_after history, fun tag htag => ?_⟩
  have hmem : tag ∈ a.tags := of_decide_eq_true htag
  exact decide_eq_true (mem_tags_after.mpr (Or.inr hmem))

/-! ## Facts -/

/-- A fact goes on to apply if its rule goes on to hold. -/
theorem Fact.appliesTo_mono {f : Fact} {e e' : Entity}
    (h : f.rule.holds e = true → f.rule.holds e' = true) (happlies : f.appliesTo e = true) :
    f.appliesTo e' = true := by
  rw [appliesTo_eq, Bool.and_eq_true] at happlies ⊢
  exact ⟨happlies.1, h happlies.2⟩

/-- What is kept by both filters is kept in the same order. -/
theorem Catalog.factsAbout_sublist {c : Catalog} {e e' : Entity}
    (h : ∀ f ∈ c.facts, f.appliesTo e = true → f.appliesTo e' = true) :
    (c.factsAbout e).Sublist (c.factsAbout e') := by
  have hboth : c.factsAbout e = (c.factsAbout e').filter (·.appliesTo e) := by
    unfold factsAbout
    rw [List.filter_filter]
    refine List.filter_congr fun f hf => ?_
    cases happlies : f.appliesTo e with
    | false => rfl
    | true => rw [h f hf happlies]; rfl
  rw [hboth]
  exact List.filter_sublist

/-- **Tags given to an actor act by polarity.** A rule in which every tag stands under an even
number of negations goes on to accept the actor; one in which they stand under odd numbers
accepts it only if it did before. So if all rules of a catalog are of the first kind, the facts
about the actor are still told, in their order. -/
theorem ask_after_of_tagsUnder (a : Actor) (history : List Addition) :
    (∀ r : Rule, r.TagsUnder Even → (r.ask a.toEntity).verdict = true →
      (r.ask (a.after history).toEntity).verdict = true) ∧
    (∀ r : Rule, r.TagsUnder Odd → (r.ask (a.after history).toEntity).verdict = true →
      (r.ask a.toEntity).verdict = true) ∧
    ∀ c : Catalog, (∀ f ∈ c.facts, f.rule.TagsUnder Even) →
      (c.factsAbout a.toEntity).Sublist (c.factsAbout (a.after history).toEntity) := by
  have hext := a.extends_after history
  refine ⟨?_, ?_, ?_⟩
  · intro r heven
    rw [Rule.ask_verdict, Rule.ask_verdict]
    exact (r.holds_of_extends hext).1 heven
  · intro r hodd
    rw [Rule.ask_verdict, Rule.ask_verdict]
    exact (r.holds_of_extends hext).2 hodd
  · intro c heven
    refine Catalog.factsAbout_sublist fun f hf => ?_
    exact Fact.appliesTo_mono ((f.rule.holds_of_extends hext).1 (heven f hf))

/-- Two negations make a tag speak for again; a name may stand under any number. The tag that comes
in twice changes nothing, and with `grey` a second fact is told behind the first. -/
theorem ask_after_of_tagsUnder_bear :
    let a : Actor := (Actor.ofName "Baloo").withTags ["bear"]
    let history : List Addition := [.one "grey", .several ["big", "bear"]]
    let r : Rule := .all [.tagged "bear", .not (.any [.named "Kaa", .not (.tagged "bear")])]
    let s : Rule := .not (.any [.tagged "snake", .all [.tagged "big", .not (.named "Baloo")]])
    let c : Catalog := ⟨[], [⟨⟨"%s.", _, by with_unfolding_all rfl⟩, .any [.tagged "grey", s.not]⟩,
      ⟨⟨"%s!", _, by with_unfolding_all rfl⟩, r⟩]⟩
    r.TagsUnder Even ∧ s.TagsUnder Odd ∧ (∀ f ∈ c.facts, f.rule.TagsUnder Even) ∧
      (r.ask (a.after history).toEntity).verdict = true ∧ (s.ask a.toEntity).verdict = true ∧
      (c.factsAbout a.toEntity).Sublist (c.factsAbout (a.after history).toEntity) ∧
      (c.factsAbout a.toEntity).length = 1 ∧
      (c.factsAbout (a.after history).toEntity).length = 2 := by
  intro a history r s c
  have heven : r.TagsUnder Even := by decide
  have hodd : s.TagsUnder Odd := by decide
  have hall : ∀ f ∈ c.facts, f.rule.TagsUnder Even := by decide
  obtain ⟨hfor, hagainst, hfacts⟩ := ask_after_of_tagsUnder a history
  exact ⟨heven, hodd, hall, hfor r heven (by decide), hagainst s hodd (by decide), hfacts c hall,
    by decide, by decide⟩

end TagLogic
