import TagLogic.Proofs.Rule.Reading

/-!
# Other letters in the same places

Of the characters between the marks the reader only sees that they are neither marks nor
blanks. So a text may be written in other letters, wide or narrow, different ones even
becoming the same: if each mark and each blank stays what it is and no letter becomes one
(`KeepsMarks`), the text is read as the same rule in the other letters, or rejected for the same
fault after as many characters.

The other letters are put through all that the reader handles, and every step and every refusal
goes along (`Step.map`, `Refuses.map`), for each of them looks at letters only to tell them
from marks and blanks.

> `parse_map`: reading a text in other letters is reading it and then changing the letters.

So the operation `parse` knows characters only by `is_reserved` and `is_blank`.
-/

namespace TagLogic

/-- The function changes letters into letters and nothing else. -/
structure KeepsMarks (f : Char → Char) : Prop where
  mark : ∀ c, isReserved c = true → f c = c
  blank : ∀ c, isBlank c = true → f c = c
  letter : ∀ c, isReserved c = false → isBlank c = false →
    isReserved (f c) = false ∧ isBlank (f c) = false

namespace KeepsMarks

variable {f : Char → Char} {s : List Char} {c : Char}

theorem isReserved_eq (hf : KeepsMarks f) (c : Char) : isReserved (f c) = isReserved c := by
  cases hc : isReserved c with
  | true => rw [hf.mark c hc, hc]
  | false =>
    cases hb : isBlank c with
    | true => rw [hf.blank c hb, hc]
    | false => exact (hf.letter c hc hb).1

theorem isBlank_eq (hf : KeepsMarks f) (c : Char) : isBlank (f c) = isBlank c := by
  cases hb : isBlank c with
  | true => rw [hf.blank c hb, hb]
  | false =>
    cases hc : isReserved c with
    | true => rw [hf.mark c hc, hb]
    | false => exact (hf.letter c hc hb).2

/-- Only a mark becomes that mark. -/
theorem eq_mark_iff (hf : KeepsMarks f) {mark : Char} (hmark : isReserved mark = true) :
    f c = mark ↔ c = mark := by
  constructor
  · intro h
    have hc : isReserved c = true := by rw [← hf.isReserved_eq, h, hmark]
    rw [← hf.mark c hc, h]
  · rintro rfl
    exact hf.mark c hmark

theorem isCloser_eq (hf : KeepsMarks f) (c : Char) : isCloser (f c) = isCloser c := by
  rw [Bool.eq_iff_iff, Group.isCloser_iff, Group.isCloser_iff]
  exact exists_congr fun kind => hf.eq_mark_iff kind.isReserved_closer

theorem blanks (hf : KeepsMarks f) (h : Blanks s) : Blanks (s.map f) := by
  refine List.forall_mem_map.mpr fun c hc => ?_
  rw [hf.isBlank_eq]
  exact h c hc

theorem bounded (hf : KeepsMarks f) (h : Bounded s) : Bounded (s.map f) := by
  cases s with
  | nil => exact bounded_nil
  | cons c s => exact bounded_cons ((hf.isReserved_eq c).trans (h c rfl)) _

theorem isToken (hf : KeepsMarks f) (h : IsToken s) : IsToken (s.map f) := by
  have hnot (o : Option Char) (ho : ∀ c ∈ o, isBlank c = false) :
      ∀ c ∈ o.map f, isBlank c = false := by
    cases o with
    | none => nofun
    | some c =>
      rintro _ ⟨⟩
      exact (hf.isBlank_eq c).trans (ho c rfl)
  refine ⟨mt List.map_eq_nil_iff.mp h.ne_nil, ?_, ?_, ?_⟩
  · refine List.forall_mem_map.mpr fun c hc => ?_
    rw [hf.isReserved_eq]
    exact h.free c hc
  · rw [List.head?_map]
    exact hnot _ h.head
  · rw [List.getLast?_map]
    exact hnot _ h.last

end KeepsMarks

/-! ## Everything in other letters -/

namespace Rule

mutual

/-- The rule with other letters in its tags and names. -/
def map (f : Char → Char) : Rule → Rule
  | .always => .always
  | .never => .never
  | .tagged tag => .tagged (tag.map f)
  | .named name => .named (name.map f)
  | .not r => .not (r.map f)
  | .group kind parts => .group kind (maps f parts)

def maps (f : Char → Char) : List Rule → List Rule
  | [] => []
  | r :: rs => r.map f :: maps f rs

end

theorem maps_eq_map (f : Char → Char) (rs : List Rule) : maps f rs = rs.map (map f) := by
  induction rs with
  | nil => rfl
  | cons r rs ih => rw [maps, ih, List.map_cons]

end Rule

/-- The fault with another letter for the one found. -/
def Fault.map (f : Char → Char) : Fault → Fault
  | .strayMark c => .strayMark (f c)
  | .wrongCloser kind c => .wrongCloser kind (f c)
  | .noSeparator kind c => .noSeparator kind (f c)
  | .trailing c => .trailing (f c)
  | fault => fault

def Frame.map (f : Char → Char) : Frame → Frame
  | .negation => .negation
  | .group kind before => .group kind (before.map (.map f))

/-- Nothing has been read yet in a frame that opens. -/
theorem Frame.map_opened {c : Char} {frame : Frame} (h : Frame.opened? c = some frame)
    (f : Char → Char) : frame.map f = frame := by
  rcases Frame.opened?_eq_some_iff.mp h with ⟨-, rfl⟩ | ⟨kind, -, rfl⟩ <;> rfl

/-- Character by character. -/
theorem Text.map_eq_ofList (f : Char → Char) (s : String) : s.map f = .ofList (s.toList.map f) := by
  rw [← String.toList_inj, String.toList_map, String.toList_ofList]

namespace Reader

variable {f : Char → Char} {limit : Option Nat} {depth : Nat} {state next : State}
  {s taken rest : List Char} {stop : Stop}

def State.map (f : Char → Char) : State → State
  | .due frames => .due (frames.map (.map f))
  | .done rule frames => .done (rule.map f) (frames.map (.map f))

def Stop.map (f : Char → Char) (stop : Stop) : Stop := ⟨stop.fault.map f, stop.unread.map f⟩

/-- **Each step goes along with other letters.** -/
theorem Step.map (hf : KeepsMarks f) (h : Step limit depth state taken rest next) :
    Step limit depth (state.map f) (taken.map f) (rest.map f) (next.map f) := by
  cases h with
  | @opens frames before _ c frame hbefore hc hroom =>
    have hroom : Within limit (depth + (frames.map (Frame.map f)).length + 1) := by
      rwa [List.length_map]
    simp only [State.map, List.map_append, List.map_cons, List.map_nil, Frame.map_opened hc,
      hf.mark c (isReserved_of_opened? hc)]
    exact .opens (hf.blanks hbefore) hc hroom
  | tags hbefore htext hafter hrest =>
    simp only [State.map, Rule.map, Text.map_eq_ofList, String.toList_ofList, List.map_append]
    exact .tags (hf.blanks hbefore) (hf.isToken htext) (hf.blanks hafter) (hf.bounded hrest)
  | names hbefore hinner htext hafter hrest =>
    simp only [State.map, Rule.map, Text.map_eq_ofList, String.toList_ofList, List.map_append,
      List.map_cons, hf.mark '@' rfl]
    exact .names (hf.blanks hbefore) (hf.blanks hinner) (hf.isToken htext) (hf.blanks hafter)
      (hf.bounded hrest)
  | negates => exact .negates
  | separates hbefore =>
    simp only [State.map, Frame.map, List.map_append, List.map_cons, List.map_nil, hf.mark ',' rfl]
    exact .separates (hf.blanks hbefore)
  | @closes _ kind _ _ _ _ hbefore =>
    simp only [State.map, Frame.map, Rule.map, Rule.maps_eq_map, List.map_append, List.map_cons,
      List.map_nil, List.map_reverse, hf.mark _ kind.isReserved_closer]
    exact .closes (hf.blanks hbefore)

/-- Where no rule begins, other letters make no other fault. -/
theorem noRuleAt_map (hf : KeepsMarks f) (frames : List Frame) (c : Option Char) :
    noRuleAt (frames.map (.map f)) (c.map f) = (noRuleAt frames c).map f := by
  cases frames with
  | nil => cases c <;> rfl
  | cons frame frames =>
    cases frame with
    | negation => cases c <;> rfl
    | group kind before =>
      cases c with
      | none => rfl
      | some c =>
        have hcomma : f c = ',' ↔ c = ',' := hf.eq_mark_iff rfl
        have hcloser : f c = kind.closer ↔ c = kind.closer := hf.eq_mark_iff kind.isReserved_closer
        simp only [List.map_cons, Frame.map, Option.map_some, noRuleAt, hcomma, hcloser, ne_eq,
          List.map_eq_nil_iff]
        split
        next => rfl
        next => split <;> rfl

/-- **Each refusal goes along with other letters.** -/
theorem Refuses.map (hf : KeepsMarks f) (h : Refuses limit depth state s stop) :
    Refuses limit depth (state.map f) (s.map f) (stop.map f) := by
  cases h with
  | @ends frames before hbefore =>
    simp only [State.map, Stop.map, ← noRuleAt_map hf, Option.map_none, List.map_nil]
    exact .ends (hf.blanks hbefore)
  | @misplaced frames before rest c hbefore hc =>
    simp only [State.map, Stop.map, ← noRuleAt_map hf, Option.map_some, List.map_append,
      List.map_cons]
    exact .misplaced (hf.blanks hbefore)
      (hc.imp (hf.eq_mark_iff rfl).mpr fun hcloser => (hf.isCloser_eq c).trans hcloser)
  | @tooDeep frames before rest c frame most hbefore hc hlimit hmost =>
    simp only [State.map, Stop.map, Fault.map, List.map_append, List.map_cons,
      hf.mark c (isReserved_of_opened? hc)]
    exact .tooDeep (hf.blanks hbefore) hc hlimit (by rwa [List.length_map])
  | noText hbefore hinner hrest =>
    simp only [State.map, Stop.map, Fault.map, List.map_append, List.map_cons, hf.mark '@' rfl]
    exact .noText (hf.blanks hbefore) (hf.blanks hinner) (hf.bounded hrest)
  | unclosed hbefore => exact .unclosed (hf.blanks hbefore)
  | @wrongCloser _ kind _ _ _ _ c hbefore hc hne =>
    simp only [State.map, Frame.map, Stop.map, Fault.map, List.map_append, List.map_cons]
    exact .wrongCloser (hf.blanks hbefore) ((hf.isCloser_eq c).trans hc)
      (mt (hf.eq_mark_iff kind.isReserved_closer).mp hne)
  | @noSeparator _ kind _ _ _ _ c hbefore hblank hcomma hc =>
    simp only [State.map, Frame.map, Stop.map, Fault.map, List.map_append, List.map_cons]
    exact .noSeparator (hf.blanks hbefore) ((hf.isBlank_eq c).trans hblank)
      (mt (hf.eq_mark_iff rfl).mp hcomma) ((hf.isCloser_eq c).trans hc)
  | @trailing _ _ _ c hbefore hblank =>
    simp only [State.map, Stop.map, Fault.map, List.map_append, List.map_cons, List.map_nil]
    exact .trailing (hf.blanks hbefore) ((hf.isBlank_eq c).trans hblank)

/-- **A whole reading goes along with other letters.** -/
theorem Reads.map {start : State} (hf : KeepsMarks f)
    (h : Reads limit depth start taken rest state) :
    Reads limit depth (start.map f) (taken.map f) (rest.map f) (state.map f) := by
  induction h with
  | refl => exact .refl
  | tail _ hstep ih =>
    rw [List.map_append] at ih ⊢
    exact .tail ih (hstep.map hf)

end Reader

/-- **A text in other letters is read as the same rule in the other letters, or rejected for the
same fault after as many characters.** -/
theorem Rule.parse_map {f : Char → Char} (hf : KeepsMarks f) (text : String) :
    parse (text.map f) = match parse text with
      | .ok rule => .ok (rule.map f)
      | .error e => .error ⟨e.fault.map f, e.offset⟩ := by
  have htext : (text.map f).toList = text.toList.map f := String.toList_map
  cases h : parse text with
  | ok rule =>
    obtain ⟨taken, rest, hsplit, hreads, hrest⟩ := parseWithin_eq_ok_iff.mp h
    refine parseWithin_eq_ok_iff.mpr ⟨_, _, ?_, hreads.map hf, hf.blanks hrest⟩
    rw [htext, hsplit, List.map_append]
  | error e =>
    obtain ⟨taken, rest, last, stop, hsplit, hreads, hstop, rfl⟩ := parseWithin_eq_error_iff.mp h
    refine parseWithin_eq_error_iff.mpr
      ⟨_, _, _, _, ?_, hreads.map hf, hstop.map hf, ?_⟩
    · rw [htext, hsplit, List.map_append]
    · simp only [Reader.Stop.map, htext, List.length_map]

/-- All letters become the same one, of four bytes; an ideographic space is a letter here. -/
theorem Rule.parse_map_clef :
    let f : Char → Char := fun c => if isReserved c || isBlank c then c else '𝄞'
    KeepsMarks f ∧ "[b r, !@k\u3000a]".map f = "[𝄞 𝄞, !@𝄞𝄞𝄞]" ∧
      parse "[𝄞 𝄞, !@𝄞𝄞𝄞]" = .ok (.any [.tagged "𝄞 𝄞", .not (.named "𝄞𝄞𝄞")]) ∧
      parse "[𝄞𝄞]𝄞" = .error ⟨.trailing '𝄞', 4⟩ := by
  intro f
  have hf : KeepsMarks f := by
    refine ⟨fun c hc => if_pos (by rw [hc]; rfl), fun c hc => if_pos (by rw [hc, Bool.or_true]), ?_⟩
    intro c hc hb
    have hletter : f c = '𝄞' := if_neg (by simp [hc, hb])
    rw [hletter]
    decide
  have hread : parse "[b r, !@k\u3000a]" =
      .ok (.any [.tagged "b r", .not (.named "k\u3000a")]) := by with_unfolding_all rfl
  have hrejected : parse "[br]x" = .error ⟨.trailing 'x', 4⟩ := by with_unfolding_all rfl
  have hmap : "[b r, !@k\u3000a]".map f = "[𝄞 𝄞, !@𝄞𝄞𝄞]" := by
    rw [Text.map_eq_ofList]
    decide
  have hmap' : "[br]x".map f = "[𝄞𝄞]𝄞" := by
    rw [Text.map_eq_ofList]
    decide
  refine ⟨hf, hmap, ?_, ?_⟩
  · rw [← hmap, parse_map hf, hread]
    simp only [Rule.map, Rule.maps, Text.map_eq_ofList]
    rfl
  · rw [← hmap', parse_map hf, hrejected]
    rfl

end TagLogic
