import TagLogic.Proofs.Rule.Continuation
import TagLogic.Proofs.Rule.Place
import TagLogic.Proofs.Rule.Writing
import Mathlib.Data.List.Basic

/-!
# Two rules side by side

Put side by side, two texts that are each read as a rule are not read as one, for nothing joins
them: what stands behind the first rule is left over. There is one exception, as text runs on
until a reserved character ends it. Where the first rule ends with text and the second begins
with text, the two become one text with the blanks between them inside, and the rule is
the first one with a longer text at its end.

So all depends on how the first rule ended (`Ending`): with a closer, behind which nothing is
looked at, or with a tag or a name under some negations, in whose place any other text could
have been read as well.

> `parse_append`: at a closer or a reserved character the second text is left over, and at any
> other seam the texts fuse.

All of these texts are read by the operation `parse`.
-/

namespace TagLogic

namespace Leaf

/-- What the tag or the name says. -/
def text : Leaf → String
  | .tag t => t
  | .name n => n

/-- A tag or a name as before, with another text. -/
def withText (text : String) : Leaf → Leaf
  | .tag _ => .tag text
  | .name _ => .name text

theorem text_withText (text : String) (leaf : Leaf) : (leaf.withText text).text = text := by
  cases leaf <;> rfl

theorem withText_withText (text other : String) (leaf : Leaf) :
    (leaf.withText text).withText other = leaf.withText other := by
  cases leaf <;> rfl

end Leaf

/-- The rule under a number of negations. -/
def Rule.negated (n : Nat) (r : Rule) : Rule := fill (List.replicate n .negation) r

theorem Rule.negated_succ (n : Nat) (r : Rule) : negated (n + 1) r = .not (negated n r) := rfl

/-- Two tokens with blanks between them are one. -/
theorem IsToken.join {text between more : List Char} (htext : IsToken text)
    (hbetween : Blanks between) (hmore : IsToken more) : IsToken (text ++ (between ++ more)) := by
  refine ⟨by simp [htext.ne_nil], ?_, ?_, ?_⟩
  · intro c hc
    rcases List.mem_append.mp hc with hc | hc
    · exact htext.free c hc
    rcases List.mem_append.mp hc with hc | hc
    · exact hbetween.free c hc
    · exact hmore.free c hc
  · rw [List.head?_append_of_ne_nil _ htext.ne_nil]
    exact htext.head
  · rw [← List.append_assoc, List.getLast?_append_of_ne_nil _ hmore.ne_nil]
    exact hmore.last

/-! ## The seam -/

/-- The place where two texts meet: between the last character of the first and the first character
of the second that are no blanks. -/
@[ext]
structure Seam (s t : List Char) where
  front : List Char
  last : Char
  trail : List Char
  lead : List Char
  first : Char
  rest : List Char
  left_eq : s = front ++ last :: trail
  right_eq : t = lead ++ first :: rest
  last_not_blank : isBlank last = false
  first_not_blank : isBlank first = false
  blanks_trail : Blanks trail
  blanks_lead : Blanks lead

/-- The first character that is no blank is at one place only. -/
theorem first_unique {before before' rest rest' : List Char} {c c' : Char}
    (hbefore : Blanks before) (hbefore' : Blanks before') (hc : isBlank c = false)
    (hc' : isBlank c' = false) (h : before ++ c :: rest = before' ++ c' :: rest') :
    before = before' ∧ c = c' ∧ rest = rest' := by
  have hskip : c :: rest = c' :: rest' := by
    rw [← skipBlanks_cons hc rest, ← skipBlanks_append hbefore, h, skipBlanks_append hbefore',
      skipBlanks_cons hc']
  obtain ⟨rfl, rfl⟩ := List.cons.inj hskip
  exact ⟨List.append_cancel_right h, rfl, rfl⟩

/-- Two texts have one seam. -/
instance (s t : List Char) : Subsingleton (Seam s t) := by
  refine ⟨fun a b => ?_⟩
  have hleft : a.trail.reverse ++ a.last :: a.front.reverse =
      b.trail.reverse ++ b.last :: b.front.reverse := by
    have heq := congrArg List.reverse (a.left_eq.symm.trans b.left_eq)
    simpa using heq
  have htrail (seam : Seam s t) : Blanks seam.trail.reverse :=
    fun c hc => seam.blanks_trail c (List.mem_reverse.mp hc)
  obtain ⟨htrails, hlast, hfront⟩ :=
    first_unique (htrail a) (htrail b) a.last_not_blank b.last_not_blank hleft
  obtain ⟨hlead, hfirst, hrest⟩ := first_unique a.blanks_lead b.blanks_lead a.first_not_blank
    b.first_not_blank (a.right_eq.symm.trans b.right_eq)
  exact Seam.ext (List.reverse_inj.mp hfront) hlast (List.reverse_inj.mp htrails) hlead hfirst hrest

namespace Reader

open Rule (negated negated_succ)

variable {limit : Option Nat} {depth : Nat} {start : State} {frames : List Frame}
  {taken rest : List Char} {rule : Rule}

/-! ## How a rule ends -/

/-- Behind `front` a tag or a name is read under so many negations, whatever text it is. -/
def ReadsText (limit : Option Nat) (depth : Nat) (start : State) (frames : List Frame)
    (front : List Char) (n : Nat) (leaf : Leaf) : Prop :=
  ∀ text trail other, IsToken text → Blanks trail → Bounded other →
    Reads limit depth start (front ++ (text ++ trail)) other
      (.done (negated n (leaf.withText (.ofList text)).rule) frames)

/-- What has been taken ends with a rule. -/
inductive Ending (limit : Option Nat) (depth : Nat) (start : State) (frames : List Frame) :
    List Char → Rule → Prop
  /-- Its closer ends it, whatever follows. -/
  | closed {front : List Char} {kind : Group} {rule : Rule} :
      (∀ other, Reads limit depth start (front ++ [kind.closer]) other (.done rule frames)) →
      Ending limit depth start frames (front ++ [kind.closer]) rule
  /-- It ends with a text, in place of which there might have been any other. -/
  | text {front text trail : List Char} {n : Nat} {leaf : Leaf} :
      IsToken text → Blanks trail → ReadsText limit depth start frames front n leaf →
      Ending limit depth start frames (front ++ (text ++ trail))
        (negated n (leaf.withText (.ofList text)).rule)

/-- A negation ends as the rule in it does. -/
theorem Ending.negates (h : Ending limit depth start (.negation :: frames) taken rule) :
    Ending limit depth start frames taken (.not rule) := by
  cases h with
  | closed hreads =>
    refine .closed fun other => ?_
    rw [← List.append_nil (_ ++ _)]
    exact .tail (hreads other) .negates
  | @text front text trail n leaf htext htrail hreads =>
    rw [← negated_succ]
    refine .text htext htrail fun text trail other htext htrail hother => ?_
    rw [← List.append_nil (front ++ _)]
    exact .tail (hreads text trail other htext htrail hother) .negates

/-- **Every rule that has been read ends with a closer or with a text.** -/
theorem ending_of_reads {outer : List Frame}
    (h : Reads limit depth (.due outer) taken rest (.done rule frames)) :
    Ending limit depth (.due outer) frames taken rule := by
  generalize hstate : State.done rule frames = state at h
  induction h generalizing rule frames with
  | refl => cases hstate
  | @tail taken more rest state next hreads hstep ih =>
    cases hstep with
    | opens | separates => cases hstate
    | @tags frames before text after _ hbefore htext hafter _ =>
      cases hstate
      show Ending limit depth (.due outer) frames _
        (negated 0 ((Leaf.tag "").withText (.ofList text)).rule)
      rw [← List.append_assoc]
      refine .text htext hafter fun other trail rest hother htrail hrest => ?_
      rw [List.append_assoc]
      exact .tail (hreads.congr_due _) (.tags hbefore hother htrail hrest)
    | @names frames before inner text after _ hbefore hinner htext hafter _ =>
      cases hstate
      have hsplit (text after : List Char) :
          taken ++ (before ++ '@' :: (inner ++ (text ++ after))) =
            (taken ++ (before ++ '@' :: inner)) ++ (text ++ after) := by simp
      show Ending limit depth (.due outer) frames _
        (negated 0 ((Leaf.name "").withText (.ofList text)).rule)
      rw [hsplit]
      refine .text htext hafter fun other trail rest hother htrail hrest => ?_
      rw [← hsplit]
      exact .tail (hreads.congr_due _) (.names hbefore hinner hother htrail hrest)
    | negates =>
      cases hstate
      rw [List.append_nil]
      exact (ih rfl).negates
    | @closes _ kind _ _ before _ hbefore =>
      cases hstate
      rw [← List.append_assoc]
      refine .closed fun other => ?_
      rw [List.append_assoc]
      refine .tail (hreads.congr fun hbounded => ?_) (.closes hbefore)
      exact hbounded.append (by simp)

end Reader

namespace Rule

open Reader (Padded Reads ReadsText)

/-! ## How a text begins -/

/-- A writing begins with a character that is no blank; if that is not reserved, the writing is a
tag. -/
theorem exists_first_of_writing {rule : Rule} {w : List Char} (hplain : rule.Plain)
    (hw : Writing rule w) : ∃ c rest, w = c :: rest ∧ isBlank c = false ∧
      (isReserved c = false → ∃ tag, rule = .tagged tag ∧ w = tag.toList ∧ IsToken w) := by
  cases hw with
  | tagged tag =>
    have htoken : IsToken tag.toList := hplain
    obtain ⟨c, rest, heq⟩ := List.exists_cons_of_ne_nil htoken.ne_nil
    exact ⟨c, rest, heq, htoken.head c (by rw [heq]; rfl), fun _ => ⟨tag, rfl, rfl, htoken⟩⟩
  | named => exact ⟨'@', _, rfl, rfl, nofun⟩
  | not => exact ⟨'!', _, rfl, rfl, nofun⟩
  | @group kind =>
    have hreserved : isReserved kind.opener = true := by cases kind <;> rfl
    refine ⟨kind.opener, _, rfl, isBlank_eq_false hreserved, fun hfree => ?_⟩
    rw [hreserved] at hfree
    cases hfree

/-- What is read as a rule is a writing of it between blanks. -/
theorem padded_of_parse {text : String} {rule : Rule} (h : parse text = .ok rule) :
    Padded rule text.toList :=
  Reader.padded_of_finish (finish_of_parseWithin h)

/-- What an accepted text begins with: a text in front is all there is. -/
structure Begins (t : List Char) (rule : Rule) (lead : List Char) (c : Char) (rest : List Char) :
    Prop where
  eq : t = lead ++ c :: rest
  blanks : Blanks lead
  not_blank : isBlank c = false
  tag : isReserved c = false → ∃ text after, rule = .tagged (.ofList text) ∧
    c :: rest = text ++ after ∧ IsToken text ∧ Blanks after

theorem exists_begins {text : String} {rule : Rule} (h : parse text = .ok rule) :
    ∃ lead c rest, Begins text.toList rule lead c rest := by
  obtain ⟨hplain, lead, w, after, hlead, hw, hafter, htext⟩ := padded_of_parse h
  obtain ⟨c, rest, rfl, hc, htag⟩ := exists_first_of_writing hplain hw
  refine ⟨lead, c, rest ++ after, htext, hlead, hc, fun hfree => ?_⟩
  obtain ⟨tag, rfl, hw, htoken⟩ := htag hfree
  exact ⟨c :: rest, after, by rw [hw, String.ofList_toList], rfl, htoken, hafter⟩

/-! ## Behind the seam -/

/-- What comes of two accepted texts side by side, told at their seam. -/
structure Joins (s t : String) (r q : Rule) (seam : Seam s.toList t.toList) : Prop where
  /-- Behind a closer and before a reserved character, the second text is left over. -/
  left_over : isCloser seam.last = true ∨ isReserved seam.first = true →
    parse (s ++ t) = .error ⟨.trailing seam.first, s.length + seam.lead.length⟩
  /-- Otherwise the second is a tag, and the text at the end of the first goes on with the blanks
  and that tag. -/
  fused : isCloser seam.last = false → isReserved seam.first = false →
    ∃ tag n leaf, q = .tagged tag ∧ r = negated n (Leaf.rule leaf) ∧
      parse (s ++ t) = .ok (negated n (leaf.withText
        (leaf.text ++ .ofList seam.trail ++ .ofList seam.lead ++ tag)).rule)

variable {s t : String} {r q : Rule} {front trail lead rest : List Char} {c : Char}

/-- What stands behind a whole rule is left over. -/
theorem parse_append_eq_trailing {taken before : List Char} (hright : t.toList = lead ++ c :: rest)
    (hboth : s.toList ++ t.toList = taken ++ (before ++ c :: rest))
    (hreads : Reads (some maxDepth) 0 (.due []) taken (before ++ c :: rest) (.done r []))
    (hbefore : Blanks before) (hc : isBlank c = false) :
    parse (s ++ t) = .error ⟨.trailing c, s.length + lead.length⟩ := by
  have hoffset : s.length + lead.length = (s ++ t).toList.length - (c :: rest).length := by
    rw [String.toList_append, hright, ← String.length_toList]
    simp only [List.length_append, List.length_cons]
    omega
  rw [hoffset]
  refine parseWithin_eq_error_iff.mpr ⟨taken, _, _, _, ?_, hreads, .trailing hbefore hc, rfl⟩
  rw [String.toList_append, hboth]

theorem joins_of_closed {kind : Group}
    (hany : ∀ other, Reads (some maxDepth) 0 (.due []) (front ++ [kind.closer]) other (.done r []))
    (hleft : s.toList = front ++ kind.closer :: trail) (htrail : Blanks trail)
    (hright : Begins t.toList q lead c rest) :
    ∃ seam : Seam s.toList t.toList, Joins s t r q seam := by
  have hcloser : isCloser kind.closer = true := Group.isCloser_iff.mpr ⟨kind, rfl⟩
  refine ⟨⟨front, kind.closer, trail, lead, c, rest, hleft, hright.eq,
    isBlank_eq_false kind.isReserved_closer, hright.not_blank, htrail, hright.blanks⟩, ?_, ?_⟩
  · intro _
    have hboth : s.toList ++ t.toList =
        (front ++ [kind.closer]) ++ ((trail ++ lead) ++ c :: rest) := by
      rw [hleft, hright.eq]
      simp
    exact parse_append_eq_trailing hright.eq hboth (hany _) (htrail.append hright.blanks)
      hright.not_blank
  · intro hopen
    rw [hcloser] at hopen
    cases hopen

theorem joins_of_text {text : List Char} {n : Nat} {leaf : Leaf} (htext : IsToken text)
    (hany : ReadsText (some maxDepth) 0 (.due []) [] front n leaf)
    (hleft : s.toList = front ++ (text ++ trail)) (htrail : Blanks trail)
    (hright : Begins t.toList q lead c rest) :
    ∃ seam : Seam s.toList t.toList,
      Joins s t (negated n (leaf.withText (.ofList text)).rule) q seam := by
  obtain ⟨init, last, rfl⟩ : ∃ init last, text = init ++ [last] :=
    ⟨_, _, (List.dropLast_append_getLast htext.ne_nil).symm⟩
  have hlast : isReserved last = false := htext.free last (by simp)
  have hblanks : Blanks (trail ++ lead) := htrail.append hright.blanks
  refine ⟨⟨front ++ init, last, trail, lead, c, rest, by rw [hleft]; simp, hright.eq,
    htext.last last (by simp), hright.not_blank, htrail, hright.blanks⟩, ?_, ?_⟩
  · intro hmark
    have hc : isReserved c = true := by
      refine hmark.resolve_left fun h => ?_
      rw [(of_not_isReserved hlast).1] at h
      cases h
    -- The run of text takes all blanks along, up to the character that ends it.
    have hboth : s.toList ++ t.toList =
        (front ++ (init ++ [last] ++ (trail ++ lead))) ++ ([] ++ c :: rest) := by
      rw [hleft, hright.eq]
      simp
    exact parse_append_eq_trailing hright.eq hboth (hany _ _ _ htext hblanks (bounded_cons hc _))
      blanks_nil hright.not_blank
  · intro _ hfree
    obtain ⟨tag, after, rfl, hrest, htag, hafter⟩ := hright.tag hfree
    refine ⟨_, n, leaf.withText (.ofList (init ++ [last])), rfl, rfl, ?_⟩
    have hreads := hany _ _ [] (htext.join hblanks htag) hafter bounded_nil
    rw [Leaf.withText_withText, Leaf.text_withText]
    simp only [← String.ofList_append, List.append_assoc] at hreads ⊢
    refine parseWithin_eq_ok_iff.mpr ⟨_, [], ?_, hreads, blanks_nil⟩
    rw [String.toList_append, hleft, hright.eq, hrest]
    simp

/-- **Two rules side by side are no rule, unless adjacent text fuses.** Where the first ends with a
closer or the second begins with a reserved character, the second is left over. Otherwise it is
a tag, and the text at the end of the first goes on with the blanks and that tag. -/
theorem parse_append (hs : parse s = .ok r) (ht : parse t = .ok q) :
    Nonempty (Seam s.toList t.toList) ∧ ∀ seam : Seam s.toList t.toList, Joins s t r q seam := by
  obtain ⟨taken, rest, hleft, hreads, hrest⟩ := parseWithin_eq_ok_iff.mp hs
  obtain ⟨lead, c, more, hright⟩ := exists_begins ht
  have hseam : ∃ seam : Seam s.toList t.toList, Joins s t r q seam := by
    cases Reader.ending_of_reads hreads with
    | closed hany =>
      rw [List.append_assoc] at hleft
      exact joins_of_closed hany hleft hrest hright
    | text htext htrail hany =>
      rw [List.append_assoc, List.append_assoc] at hleft
      exact joins_of_text htext hany hleft (htrail.append hrest) hright
  obtain ⟨seam, hjoins⟩ := hseam
  exact ⟨⟨seam⟩, fun other => Subsingleton.elim seam other ▸ hjoins⟩

/-- A name under a negation goes on in the text behind it, and all blanks between stay; behind a
group the same text is left over. -/
theorem parse_append_name :
    parse "!@Winnie \t" = .ok (.not (.named "Winnie")) ∧
      parse "( a )" = .ok (.all [.tagged "a"]) ∧
      parse "\tthe Pooh " = .ok (.tagged "the Pooh") ∧
      parse ("!@Winnie \t" ++ "\tthe Pooh ") = .ok (.not (.named "Winnie \t\tthe Pooh")) ∧
      parse ("( a )" ++ "\tthe Pooh ") = .error ⟨.trailing 't', 6⟩ := by
  have hname : parse "!@Winnie \t" = .ok (.not (.named "Winnie")) := by with_unfolding_all rfl
  have hgroup : parse "( a )" = .ok (.all [.tagged "a"]) := by with_unfolding_all rfl
  have htag : parse "\tthe Pooh " = .ok (.tagged "the Pooh") := by with_unfolding_all rfl
  let running : Seam "!@Winnie \t".toList "\tthe Pooh ".toList :=
    ⟨"!@Winni".toList, 'e', " \t".toList, ['\t'], 't', "he Pooh ".toList,
      rfl, rfl, rfl, rfl, by decide, by decide⟩
  let closed : Seam "( a )".toList "\tthe Pooh ".toList :=
    ⟨"( a ".toList, ')', [], ['\t'], 't', "he Pooh ".toList,
      rfl, rfl, rfl, rfl, by decide, by decide⟩
  have hfused := ((parse_append hname htag).2 running).fused (by decide) (by decide)
  have hover := ((parse_append hgroup htag).2 closed).left_over (by decide)
  refine ⟨hname, hgroup, htag, ?_, hover⟩
  obtain ⟨y, n, leaf, hy, hr, hparse⟩ := hfused
  cases hy
  match n, leaf, hr with
  | 1, .name _, rfl => exact hparse

end Rule

end TagLogic
