import TagLogic.Actor

/-!
# Tags given to an actor

Tags are given to an actor one at a time or several at once, in any number of steps. All that
such a history comes to is which tags were given: the name stays (`name_after`), and the actor
has the tags it had and those it was given (`mem_tags_after`), however they were put together.

An actor is its name and its tags, and there is one way only to list the tags in ascending order
(`TagSet.eq_toList_iff`). So what a history leaves is settled by these two:

> `after_outcome`: how the tags are listed behind a history, what the actor answers about them,
> and that histories that come to the same tags end in the same actor.

The steps are the operations `insert_tag` and `with_tags`, and `tags` lists what they leave.
-/

namespace TagLogic

open Text (Precedes)

namespace TagSet

variable {tags : TagSet}

/-- **A set of tags is listed in the one way that has its tags in ascending order.** -/
theorem eq_toList_iff {list : List String} :
    list = tags.toList ↔ list.Pairwise Precedes ∧ ∀ tag, tag ∈ list ↔ tag ∈ tags := by
  constructor
  · rintro rfl
    exact ⟨tags.ascending, fun _ => Iff.rfl⟩
  · rintro ⟨hascending, hmem⟩
    exact eq_of_ascending hascending tags.ascending hmem

/-- No tag is listed twice. -/
theorem nodup_toList (tags : TagSet) : tags.toList.Nodup := tags.ascending.imp Precedes.ne

end TagSet

/-- One step in which an actor is given tags. -/
inductive Addition where
  | one (tag : String)
  | several (tags : List String)
  deriving DecidableEq, Repr

namespace Addition

/-- The tags that are given. -/
def tags : Addition → List String
  | .one tag => [tag]
  | .several tags => tags

/-- The actor with the tags given to it. -/
def apply (a : Actor) : Addition → Actor
  | .one tag => (a.insertTag tag).2
  | .several tags => a.withTags tags

theorem name_apply (a : Actor) (addition : Addition) : (addition.apply a).name = a.name := by
  cases addition <;> rfl

theorem mem_tags_apply {a : Actor} {addition : Addition} {tag : String} :
    tag ∈ (addition.apply a).tags ↔ tag ∈ addition.tags ∨ tag ∈ a.tags := by
  cases addition with
  | one given => exact TagSet.mem_insert.trans (or_congr_left List.mem_singleton.symm)
  | several given => exact TagSet.mem_insertMany

end Addition

namespace Actor

/-- The actor behind a history of additions. -/
def after (a : Actor) (history : List Addition) : Actor := history.foldl Addition.apply a

/-- **Whatever tags it is given, an actor keeps its name.** -/
theorem name_after (a : Actor) (history : List Addition) : (a.after history).name = a.name := by
  induction history generalizing a with
  | nil => rfl
  | cons addition history ih => exact (ih (addition.apply a)).trans (addition.name_apply a)

/-- **Behind a history an actor has the tags it had and those it was given.** -/
theorem mem_tags_after {a : Actor} {history : List Addition} {tag : String} :
    tag ∈ (a.after history).tags ↔ tag ∈ history.flatMap Addition.tags ∨ tag ∈ a.tags := by
  induction history generalizing a with
  | nil => exact (or_iff_right List.not_mem_nil).symm
  | cons addition history ih =>
    have hrest : tag ∈ ((addition.apply a).after history).tags ↔
        tag ∈ history.flatMap Addition.tags ∨ tag ∈ addition.tags ∨ tag ∈ a.tags := by
      rw [ih, Addition.mem_tags_apply]
    rw [List.flatMap_cons, List.mem_append, or_assoc, or_left_comm]
    exact hrest

/-! ## What a history leaves -/

/-- **A history leaves the actor with its name and the ordered set of the tags it had and was
given.** Behind it the tags are listed in the one ascending order and none twice, a tag is told to
be new exactly when it was neither there nor given, and two histories that come to the same tags
end in the same actor and the same line, whatever the order and however often a tag was given. -/
theorem after_outcome (a : Actor) (history : List Addition) :
    (∀ list, list = (a.after history).tags.toList ↔ list.Pairwise Precedes ∧
      ∀ tag, tag ∈ list ↔ tag ∈ history.flatMap Addition.tags ∨ tag ∈ a.tags) ∧
    (a.after history).tags.toList.Nodup ∧
    (∀ tag, (a.after history).hasTag tag = true ↔
      tag ∈ history.flatMap Addition.tags ∨ tag ∈ a.tags) ∧
    (∀ tag, ((a.after history).insertTag tag).1 = true ↔
      tag ∉ history.flatMap Addition.tags ∧ tag ∉ a.tags) ∧
    (a.after history).name = a.name ∧
    ((a.after history).hasTags = true ↔
      (∃ tag, tag ∈ history.flatMap Addition.tags) ∨ ∃ tag, tag ∈ a.tags) ∧
    ∀ (b : Actor) (history' : List Addition), a.name = b.name →
      (∀ tag, tag ∈ history.flatMap Addition.tags ∨ tag ∈ a.tags ↔
        tag ∈ history'.flatMap Addition.tags ∨ tag ∈ b.tags) →
      a.after history = b.after history' ∧
        (a.after history).toLine = (b.after history').toLine := by
  refine ⟨fun list => ?_, TagSet.nodup_toList _, fun tag => ?_, fun tag => ?_,
    name_after a history, ?_, fun b history' hname htags => ?_⟩
  · simp only [TagSet.eq_toList_iff, mem_tags_after]
  · rw [hasTag_iff, mem_tags_after]
  · rw [insertTag_fst_iff, mem_tags_after, not_or]
  · simp only [hasTags_iff, mem_tags_after, exists_or]
  · have hafter : a.after history = b.after history' := by
      refine eq_of_tags ?_ fun tag => ?_
      · rw [name_after, name_after, hname]
      · rw [mem_tags_after, mem_tags_after]
        exact htags tag
    exact ⟨hafter, congrArg toLine hafter⟩

/-- One actor was read from a line and the other was only named. The empty text is a tag, a text
comes before those it begins, and the order is that of bytes: `\uffff` comes before a character that
two surrogates would stand for. -/
theorem after_outcome_surrogates :
    let a : Actor := ⟨"Kaa", .ofList ["ab"]⟩
    let history : List Addition := [.one "😀", .several ["a", "", "ab"], .one "\uffff"]
    let history' : List Addition :=
      [.several ["", "\uffff", ""], .one "ab", .several ["a", "😀", "a"]]
    ofLine "Kaa | ab" = .ok a ∧ a.after history = (ofName "Kaa").after history' ∧
      (a.after history).tags.toList = ["", "a", "ab", "\uffff", "😀"] := by
  intro a history history'
  refine ⟨by with_unfolding_all rfl, ?_, by decide⟩
  refine ((after_outcome a history).2.2.2.2.2.2 (ofName "Kaa") history' rfl fun tag => ?_).1
  simp only [history, history', a, ofName, List.flatMap_cons, List.flatMap_nil, Addition.tags]
  grind [TagSet.mem_ofList, TagSet.not_mem_empty]

end Actor

end TagLogic
