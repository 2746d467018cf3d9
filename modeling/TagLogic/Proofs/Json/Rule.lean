import TagLogic.Json.Rule

/-!
# What is read as a rule

A rule is written as one JSON value, and hardly any other value is read as that rule. The one
freedom is with the rules that hold nothing: where one of them is due, an object with `null` in
its field is as good as the bare word. `Respelled` says that of values alone, without the
reader: the second value is the first with some of those words, at whatever depth, written as
objects. A text below a tag or a name is no rule, so `"True"` is not respelled there.

- `ofJson?_respelled` — a value is read as it was before it was respelled;
- `respelled_of_ofJson?` — whatever is read as a rule is what is written for it, respelled.

> `toJson_faithful`: a value is read as a rule exactly when it is the value of the rule, respelled.

A text is read by way of its value, so with the bound on the nesting the same goes for texts
(`ofJsonText?_eq_some_iff`).

The operations are the encoding and the decoding of rules, as values.
-/

namespace TagLogic

namespace Rule

mutual

/-- The second value is the first with some of the rules in it that hold nothing written as objects
instead of words. -/
inductive Respelled : Json → Json → Prop
  | refl (j : Json) : Respelled j j
  | always : Respelled (.text (word .always)) (.single (word .always) .null)
  | never : Respelled (.text (word .never)) (.single (word .never) .null)
  | not {j k : Json} : Respelled j k → Respelled (.single "Not" j) (.single "Not" k)
  | group (kind : Group) {js ks : List Json} : EachRespelled js ks →
      Respelled (.single kind.word (.arr js)) (.single kind.word (.arr ks))

/-- The same of the values of a list, place by place. -/
inductive EachRespelled : List Json → List Json → Prop
  | nil : EachRespelled [] []
  | cons {j k : Json} {js ks : List Json} : Respelled j k → EachRespelled js ks →
      EachRespelled (j :: js) (k :: ks)

end

/-! ## Respelled values are read alike -/

theorem ofJson?_not (j : Json) : ofJson? (.single "Not" j) = (ofJson? j).map .not := by
  rw [ofJson?.eq_def]
  exact if_pos rfl

theorem ofJson?_group (kind : Group) (js : List Json) :
    ofJson? (.single kind.word (.arr js)) = (ofJsons? js).map (.group kind) := by
  cases kind <;> cases hparts : ofJsons? js <;> simp [ofJson?, Group.word, hparts, ofParts?]

mutual

/-- **A value is read as it was before it was respelled.** -/
theorem ofJson?_respelled : ∀ {j k : Json}, Respelled j k → ofJson? k = ofJson? j
  | _, _, .refl _ => rfl
  | _, _, .always => rfl
  | _, _, .never => rfl
  | _, _, .not h => by rw [ofJson?_not, ofJson?_not, ofJson?_respelled h]
  | _, _, .group kind h => by rw [ofJson?_group, ofJson?_group, ofJsons?_respelled h]

theorem ofJsons?_respelled : ∀ {js ks : List Json}, EachRespelled js ks →
    ofJsons? ks = ofJsons? js
  | _, _, .nil => rfl
  | _, _, .cons h hs => by rw [ofJsons?, ofJsons?, ofJson?_respelled h, ofJsons?_respelled hs]

end

/-! ## Nothing else is read -/

/-- The words of the rules that hold nothing. -/
theorem ofWord?_eq_some {text : String} {r : Rule} (h : ofWord? text = some r) :
    text = "True" ∧ r = .always ∨ text = "False" ∧ r = .never := by
  unfold ofWord? at h
  split at h
  next htrue => exact Or.inl ⟨htrue, (Option.some.inj h).symm⟩
  next =>
    split at h
    next hfalse => exact Or.inr ⟨hfalse, (Option.some.inj h).symm⟩
    next => cases h

/-- The words of the rules that hold a text. -/
theorem ofText?_eq_some {text held : String} {r : Rule} (h : ofText? text held = some r) :
    text = "Tag" ∧ r = .tagged held ∨ text = "Name" ∧ r = .named held := by
  unfold ofText? at h
  split at h
  next htag => exact Or.inl ⟨htag, (Option.some.inj h).symm⟩
  next =>
    split at h
    next hname => exact Or.inr ⟨hname, (Option.some.inj h).symm⟩
    next => cases h

/-- The words of the rules that hold parts. -/
theorem ofParts?_eq_some {text : String} {parts : List Rule} {r : Rule}
    (h : ofParts? text parts = some r) :
    ∃ kind : Group, text = kind.word ∧ r = .group kind parts := by
  unfold ofParts? at h
  split at h
  next hall => exact ⟨.all, hall, (Option.some.inj h).symm⟩
  next =>
    split at h
    next hany => exact ⟨.any, hany, (Option.some.inj h).symm⟩
    next => cases h

/-- **Whatever is read as a rule is what is written for it, respelled.** -/
theorem respelled_of_ofJson? {j : Json} :
    ∀ {r : Rule}, ofJson? j = some r → Respelled r.toJson j := by
  -- The reader goes on inside a value in two ways: into a negation, and item by item.
  refine ofJson?.induct (fun j => ∀ {r : Rule}, ofJson? j = some r → Respelled r.toJson j)
    (fun js => ∀ {rs : List Rule}, ofJsons? js = some rs → EachRespelled (toJsons rs) js)
    ?word ?negation ?constant ?text ?group ?otherContent ?other ?noItem ?item j
  case word =>
    intro text r h
    rw [ofJson?] at h
    rcases ofWord?_eq_some h with ⟨rfl, rfl⟩ | ⟨rfl, rfl⟩
    · exact .refl _
    · exact .refl _
  case negation =>
    intro content ih r h
    rw [ofJson?_not] at h
    obtain ⟨inner, hinner, rfl⟩ := Option.map_eq_some_iff.mp h
    exact .not (ih hinner)
  case constant =>
    intro text hnot r h
    rw [ofJson?, if_neg hnot] at h
    rcases ofWord?_eq_some h with ⟨rfl, rfl⟩ | ⟨rfl, rfl⟩
    · exact .always
    · exact .never
  case text =>
    intro text hnot held r h
    rw [ofJson?, if_neg hnot] at h
    rcases ofText?_eq_some h with ⟨rfl, rfl⟩ | ⟨rfl, rfl⟩
    · exact .refl _
    · exact .refl _
  case group =>
    intro text hnot items ih r h
    rw [ofJson?, if_neg hnot] at h
    obtain ⟨parts, hparts, hgroup⟩ := Option.bind_eq_some_iff.mp h
    obtain ⟨kind, rfl, rfl⟩ := ofParts?_eq_some hgroup
    exact .group kind (ih hparts)
  case otherContent =>
    intro text content hnot hnull htext harr r h
    rw [ofJson?.eq_def] at h
    simp_all
  case other =>
    intro j htext hsingle r h
    rw [ofJson?.eq_def] at h
    simp_all
  case noItem =>
    intro rs h
    cases h
    exact .nil
  case item =>
    intro j js ih ihs rs h
    rw [ofJsons?] at h
    obtain ⟨r, hr, hmore⟩ := Option.bind_eq_some_iff.mp h
    obtain ⟨more, hrs, rfl⟩ := Option.map_eq_some_iff.mp hmore
    exact .cons (ih hr) (ihs hrs)

/-! ## The values of rules -/

/-- A value is read as a rule exactly when it is the value of the rule, respelled. -/
theorem ofJson?_eq_some_iff {j : Json} {r : Rule} : ofJson? j = some r ↔ Respelled r.toJson j := by
  refine ⟨respelled_of_ofJson?, fun h => ?_⟩
  rw [ofJson?_respelled h]
  exact ofJson?_toJson r

/-- Different rules have different values. -/
theorem toJson_inj {r s : Rule} : r.toJson = s.toJson ↔ r = s := by
  refine ⟨fun h => ?_, congrArg toJson⟩
  have hread : some r = some s := by rw [← ofJson?_toJson r, h, ofJson?_toJson s]
  exact Option.some.inj hread

/-- **The values of rules say which rule it is, and hardly any other value does.** Each rule is read
back from its value; a value is read as a rule exactly when it is the value of the rule, respelled;
different rules have different values; and reading, writing and reading again is reading once. -/
theorem toJson_faithful :
    (∀ r : Rule, ofJson? r.toJson = some r) ∧
    (∀ (j : Json) (r : Rule), ofJson? j = some r ↔ Respelled r.toJson j) ∧
    (∀ r s : Rule, r.toJson = s.toJson ↔ r = s) ∧
    ∀ j : Json, ((ofJson? j).bind fun r => ofJson? r.toJson) = ofJson? j := by
  refine ⟨ofJson?_toJson, fun _ _ => ofJson?_eq_some_iff, fun _ _ => toJson_inj, fun j => ?_⟩
  simp only [ofJson?_toJson, Option.bind_fun_some]

/-- **A text is read as a rule exactly when its value is** and keeps to the bound on the nesting. -/
theorem ofJsonText?_eq_some_iff {text : String} {r : Rule} :
    ofJsonText? text = some r ↔
      ∃ j, Json.parse? text = some j ∧ j.nestedWithin maxNesting = true ∧
        Respelled r.toJson j := by
  unfold ofJsonText?
  rw [Option.bind_eq_some_iff]
  refine exists_congr fun j => and_congr_right fun _ => ?_
  rw [← ofJson?_eq_some_iff]
  split
  next hnested => exact (and_iff_right hnested).symm
  next hnested =>
    simp only [reduceCtorEq, false_iff]
    exact fun h => hnested h.1

/-- Below a tag stands a text, and in a group each constant is written as it likes. -/
example :
    ofJson? (.single "Or" (.arr [.single "True" .null, .text "True", .single "Tag" (.text "True")]))
      = some (.any [.always, .always, .tagged "True"]) ∧
    ofJson? (.single "Tag" (.single "True" .null)) = none :=
  ⟨rfl, rfl⟩

end Rule

end TagLogic
