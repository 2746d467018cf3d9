import TagLogic.Json.Actor
import TagLogic.Proofs.Actor.Addition

/-!
# What is read as an actor

The line of an actor leaves out what it has no place for; its value leaves out nothing. A name
and tags are texts there, taken as they are: blank ends, commas, bars and empty texts stay. What
is put in order are the tags, and a value to be read may list them in any order and repeat them.

- `ofJson?_obj_eq_some_iff` — which objects are read, and as which actor;
- `toJson_obj` — what is written: each tag once, in the order of the bytes.

> `toJson_canonical`: a value with any list of tags is read as the actor given those tags, and
> each actor has one value, from which it is read back, and shares it with no other actor.

The operations are the encoding and the decoding of actors, as values.
-/

namespace TagLogic

open Text (Precedes)

namespace Actor

/-! ## Reading -/

/-- Values are read as texts exactly when they are texts. -/
theorem mapM_text?_eq_some_iff {items : List Json} {texts : List String} :
    items.mapM text? = some texts ↔ items = texts.map .text := by
  refine ⟨fun h => ?_, fun h => h ▸ mapM_text? texts⟩
  induction items generalizing texts with
  | nil =>
    cases h
    rfl
  | cons item items ih =>
    rw [List.mapM_cons] at h
    obtain ⟨text, htext, hmore⟩ := Option.bind_eq_some_iff.mp h
    obtain ⟨more, hitems, hcons⟩ := Option.bind_eq_some_iff.mp hmore
    cases hcons
    have hitem : item = .text text := by
      unfold text? at htext
      split at htext
      next => exact congrArg Json.text (Option.some.inj htext)
      next => cases htext
    rw [List.map_cons, ← hitem, ← ih hitems]

/-- Two values are read as an actor exactly when they are a text and a list of texts. -/
theorem ofValues?_eq_some_iff {nameValue tagsValue : Json} {a : Actor} :
    ofValues? nameValue tagsValue = some a ↔ ∃ (name : String) (tags : List String),
      nameValue = .text name ∧ tagsValue = .arr (tags.map .text) ∧
        a = (ofName name).withTags tags := by
  constructor
  · intro h
    unfold ofValues? at h
    split at h
    next name items =>
      obtain ⟨tags, htags, rfl⟩ := Option.map_eq_some_iff.mp h
      exact ⟨name, tags, rfl, congrArg Json.arr (mapM_text?_eq_some_iff.mp htags), rfl⟩
    next => cases h
  · rintro ⟨name, tags, rfl, rfl, rfl⟩
    rw [ofValues?, mapM_text?]
    rfl

/-- **An object is read as an actor exactly when it has a name and a list of tags once each**,
wherever they stand and whatever other fields it has; the actor is the one of that name who was
given those tags. -/
theorem ofJson?_obj_eq_some_iff {fields : List (Option String × Json)} {a : Actor} :
    ofJson? (.obj fields) = some a ↔ (∀ f ∈ fields, f.1.isSome = true) ∧
      ∃ (name : String) (tags : List String), valuesOf "name" fields = [.text name] ∧
        valuesOf "tags" fields = [.arr (tags.map .text)] ∧ a = (ofName name).withTags tags := by
  rw [ofJson?, ← List.all_eq_true]
  split
  next hkeys =>
    rw [and_iff_right hkeys]
    split
    next nameValue tagsValue hname htags =>
      rw [hname, htags, ofValues?_eq_some_iff]
      simp only [List.cons.injEq, and_true]
    next hother =>
      simp only [reduceCtorEq, false_iff]
      rintro ⟨name, tags, hname, htags, -⟩
      exact hother _ _ hname htags
  next hkeys =>
    simp only [reduceCtorEq, false_iff]
    exact fun h => hkeys h.1

/-- The field of a name. -/
def nameField (name : String) : Option String × Json := (some "name", .text name)

/-- The field of a list of tags. -/
def tagsField (tags : List String) : Option String × Json := (some "tags", .arr (tags.map .text))

/-- The two fields are enough, in whatever order. -/
theorem ofJson?_of_perm {fields : List (Option String × Json)} {name : String} {tags : List String}
    (h : fields.Perm [nameField name, tagsField tags]) :
    ofJson? (.obj fields) = some ((ofName name).withTags tags) := by
  have hvalues (key : String) :
      (valuesOf key fields).Perm (valuesOf key [nameField name, tagsField tags]) :=
    (h.filter _).map _
  have hname : valuesOf "name" fields = [.text name] := List.perm_singleton.mp (hvalues "name")
  have htags : valuesOf "tags" fields = [.arr (tags.map .text)] :=
    List.perm_singleton.mp (hvalues "tags")
  refine ofJson?_obj_eq_some_iff.mpr ⟨fun f hf => ?_, name, tags, hname, htags, rfl⟩
  rcases List.mem_cons.mp (h.mem_iff.mp hf) with rfl | hf
  · rfl
  · rw [List.mem_singleton.mp hf]
    rfl

/-! ## Writing -/

/-- **The value of an actor lists each tag once, in the order of the bytes.** -/
theorem toJson_obj (a : Actor) : ∃ tags : List String,
    a.toJson = .obj [nameField a.name, tagsField tags] ∧ tags.Pairwise Precedes ∧ tags.Nodup ∧
      ∀ tag, tag ∈ tags ↔ tag ∈ a.tags :=
  ⟨a.tags.toList, rfl, a.tags.ascending, TagSet.nodup_toList a.tags, fun _ => Iff.rfl⟩

/-- Different actors have different values. -/
theorem toJson_inj {a b : Actor} : a.toJson = b.toJson ↔ a = b := by
  refine ⟨fun h => ?_, congrArg toJson⟩
  have hread : some a = some b := by rw [← ofJson?_toJson a, h, ofJson?_toJson b]
  exact Option.some.inj hread

/-- **The value of an actor holds all of the actor, in one way.** A name and any list of tags, in
either order of the fields, are read as the actor of just that name and just those tags; the value
of an actor lists each of its tags once, in ascending order of the bytes; every actor is read back
from its value; and two actors with one value are one actor. -/
theorem toJson_canonical :
    (∀ (name : String) (tags : List String),
      ofJson? (.obj [nameField name, tagsField tags]) = some ((ofName name).withTags tags) ∧
      ofJson? (.obj [tagsField tags, nameField name]) = some ((ofName name).withTags tags) ∧
      ((ofName name).withTags tags).name = name ∧
      ∀ tag, ((ofName name).withTags tags).hasTag tag = true ↔ tag ∈ tags) ∧
    (∀ a : Actor, ∃ tags : List String, a.toJson = .obj [nameField a.name, tagsField tags] ∧
      tags.Pairwise Precedes ∧ tags.Nodup ∧ ∀ tag, tag ∈ tags ↔ a.hasTag tag = true) ∧
    (∀ a : Actor, ofJson? a.toJson = some a) ∧
    ∀ a b : Actor, a.toJson = b.toJson ↔ a = b := by
  refine ⟨fun name tags => ?_, fun a => ?_, ofJson?_toJson, fun a b => toJson_inj⟩
  · refine ⟨ofJson?_of_perm (.refl _), ofJson?_of_perm (.swap _ _ _), rfl, fun tag => ?_⟩
    rw [hasTag_iff]
    exact TagSet.mem_ofList
  · simp only [hasTag_iff]
    exact toJson_obj a

/-- Nothing is trimmed or left out, and the tags are put in order. -/
example :
    (ofJson? (.obj [tagsField ["b,c", "", " a", "", "b,c"], nameField " | "])).map toJson =
      some (.obj [nameField " | ", tagsField ["", " a", "b,c"]]) :=
  rfl

end Actor

end TagLogic
