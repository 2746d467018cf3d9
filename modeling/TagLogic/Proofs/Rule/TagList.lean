import TagLogic.Proofs.Rule.Algebra
import TagLogic.Proofs.Rule.Writing
import TagLogic.Proofs.Text.Joined

/-!
# Lists of tags as rules

Whether somebody has one of a list of tags can be asked without a rule. A rule that asks it is the
group of the tags of which one is enough, and a text of that rule is the list itself, with
commas between and square brackets around it. The three are alike in verdict and questions:

- `askAny_eq_askParts` — going through the list is going through the parts of the group;
- `parse_listText_iff` — the text of a list is read as the group of its tags if there is a tag in
  it and each is a token, and otherwise it is not.

> `askAny_agrees`: so the list, the group and the rule read from its text ask the same.

The operations are `is_tagged_with_any` for the list and `evaluate` for the rules.
-/

namespace TagLogic

open Answer (behind)

/-! ## The list and the group -/

/-- The other tags are asked for behind the first. -/
theorem Entity.askAny_cons (e : Entity) (tag : String) (tags : List String) :
    e.askAny (tag :: tags) = behind .any ((Rule.tagged tag).ask e) (e.askAny tags) := by
  rw [askAny, Rule.ask]
  cases htag : e.hasTag tag with
  | true =>
    rw [Answer.behind_of_ne (Bool.noConfusion : true ≠ Group.any.neutral)]
    rfl
  | false =>
    rw [Answer.behind_of_neutral rfl]
    rfl

namespace Rule

/-- **Going through the list is going through the parts of the group.** -/
theorem askAny_eq_askParts (e : Entity) (tags : List String) :
    e.askAny tags = askParts .any e (tags.map .tagged) := by
  induction tags with
  | nil => rfl
  | cons tag tags ih => rw [Entity.askAny_cons, List.map_cons, askParts_cons, ih]

/-! ## The text of a list -/

/-- The tags with commas between them and the brackets of a group around them. -/
def listText (kind : Group) (tags : List String) : String :=
  .singleton kind.opener ++ ",".intercalate tags ++ .singleton kind.closer

theorem toList_listText (kind : Group) (tags : List String) : (listText kind tags).toList =
    kind.opener :: ([','].intercalate (tags.map String.toList) ++ [kind.closer]) := by
  unfold listText
  rw [String.toList_append, String.toList_append, String.toList_intercalate,
    String.toList_singleton, String.toList_singleton, List.append_assoc]
  rfl

/-- Tags with commas between them are a writing of the parts. -/
theorem partsWriting_intercalate {tags : List String} (h : tags ≠ []) :
    PartsWriting (tags.map .tagged) ([','].intercalate (tags.map String.toList)) := by
  induction tags with
  | nil => exact absurd rfl h
  | cons tag tags ih =>
    have hfirst : Writing (.tagged tag) tag.toList := .tagged tag
    by_cases hlast : tags = []
    · subst hlast
      have hw := PartsWriting.last blanks_nil hfirst blanks_nil
      rw [List.nil_append, List.append_nil] at hw
      rw [List.map_singleton, List.map_singleton, List.intercalate_singleton]
      exact hw
    · have hw := PartsWriting.cons blanks_nil hfirst blanks_nil (ih hlast)
      rw [List.nil_append, List.append_nil] at hw
      rw [List.map_cons, List.map_cons,
        List.intercalate_cons_of_ne_nil (mt List.map_eq_nil_iff.mp hlast), List.append_assoc]
      exact hw

theorem plain_list_iff {kind : Group} {tags : List String} :
    (Rule.group kind (tags.map .tagged)).Plain ↔ tags ≠ [] ∧ ∀ tag ∈ tags, IsToken tag.toList := by
  rw [Plain, plainParts_iff, List.forall_mem_map, ne_eq, List.map_eq_nil_iff]
  rfl

/-- Tags are not nested. -/
theorem height_list_le (kind : Group) (tags : List String) :
    (Rule.group kind (tags.map .tagged)).height ≤ maxDepth := by
  have hparts : heights (tags.map .tagged) ≤ 0 := by
    refine heights_le_iff.mpr fun r hr => ?_
    obtain ⟨tag, -, rfl⟩ := List.mem_map.mp hr
    exact Nat.le_refl 0
  rw [height, maxDepth]
  omega

/-- **The text of a list is read as the group of its tags exactly when there are tags in it and each
is a token.** -/
theorem parse_listText_iff {kind : Group} {tags : List String} :
    parse (listText kind tags) = .ok (.group kind (tags.map .tagged)) ↔
      tags ≠ [] ∧ ∀ tag ∈ tags, IsToken tag.toList := by
  rw [← @plain_list_iff kind]
  constructor
  · intro h
    exact (Reader.padded_of_finish (finish_of_parseWithin h)).1
  · intro hplain
    have hw : Writing (.group kind (tags.map .tagged)) (listText kind tags).toList := by
      rw [toList_listText]
      exact .group (partsWriting_intercalate (plain_list_iff.mp hplain).1)
    have hpadded : Reader.Padded (.group kind (tags.map .tagged)) (listText kind tags).toList :=
      ⟨hplain, [], _, [], blanks_nil, hw, blanks_nil, by rw [List.nil_append, List.append_nil]⟩
    have hwithin := within_some.mpr (height_list_le kind tags)
    exact parseWithin_of_finish (Reader.finish_of_padded hpadded hwithin)

/-- **A list of tags, the group of the tags and the rule of their text ask the same.** Asking for
one tag after the other until one is there gives the verdict of the group of which one part is
enough, by the same questions; and where there are tags and each is a token, the list between square
brackets is read as a rule, which gives that verdict by those questions too. -/
theorem askAny_agrees (e : Entity) (tags : List String) :
    e.askAny tags = (Rule.any (tags.map .tagged)).ask e ∧
    (tags ≠ [] → (∀ tag ∈ tags, IsToken tag.toList) →
      ∃ rule, parse ("[" ++ ",".intercalate tags ++ "]") = .ok rule ∧ rule.ask e = e.askAny tags) ∧
    (parse ("[" ++ ",".intercalate tags ++ "]") = .ok (.any (tags.map .tagged)) ↔
      tags ≠ [] ∧ ∀ tag ∈ tags, IsToken tag.toList) := by
  have hask : e.askAny tags = (Rule.any (tags.map .tagged)).ask e := by
    rw [ask_group, askAny_eq_askParts]
  have htext : "[" ++ ",".intercalate tags ++ "]" = listText .any tags := rfl
  rw [htext]
  refine ⟨hask, fun hne htokens => ?_, parse_listText_iff⟩
  exact ⟨_, parse_listText_iff.mpr ⟨hne, htokens⟩, hask.symm⟩

/-- A tag may hold a blank and may be listed twice; what stands behind the first hit is not asked.
-/
theorem askAny_agrees_stopped :
    let e : Entity := ⟨"Kaa", (· = "jungle book")⟩
    let tags := ["bear", "bear", "jungle book", "a|b"]
    tags ≠ [] ∧ (∀ tag ∈ tags, IsToken tag.toList) ∧
      (∃ rule, parse "[bear,bear,jungle book,a|b]" = .ok rule ∧ rule.ask e = e.askAny tags) ∧
      e.askAny tags = ⟨true, [.tag "bear", .tag "bear", .tag "jungle book"]⟩ := by
  intro e tags
  have hne : tags ≠ [] := by decide
  have htokens : ∀ tag ∈ tags, IsToken tag.toList := by decide
  exact ⟨hne, htokens, (askAny_agrees e tags).2.1 hne htokens, by decide⟩

/-- A tag with a blank at its end is not asked for by the rule of the text. -/
example : parse "[bear ]" = .ok (.any [.tagged "bear"]) ∧ ¬IsToken "bear ".toList :=
  ⟨by with_unfolding_all rfl, by decide⟩

end Rule

end TagLogic
