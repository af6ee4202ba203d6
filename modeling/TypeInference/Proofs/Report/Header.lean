import TypeInference.Proofs.SourceText
import TypeInference.Proofs.Text
import TypeInference.Report.Layout

/-!
# The position in the header of a report

The header of a report names the primary position by line and column. Spans count bytes and
positions of a report count characters, and nothing turns the one into the other: the header names
the place of the character whose number is the span's start. It is the place of the byte that the
span starts at if and only if all characters before are single bytes
(`TypeError.shows_place_iff`).

* A report has a header if and only if one of its labels lies within the characters of the source
  (`render_shows`, `render_eq_title`).
* The header can be read off the text of a report (`Shows.unique`), and different positions have
  different places (`place_inj`).
-/

namespace TypeInference

open SourceText

/-- A label starts and ends within `n` characters, or at the end of them. -/
def Label.Within (l : Label) (n : Nat) : Prop := l.start ≤ n ∧ l.stop ≤ n + 1

namespace Report

/-! ## Places -/

section
variable {s : String} {pos p q : Nat}

/-- The place of a position in a text, `line:column`. -/
def placeText (cs : List Char) (pos : Nat) : String :=
  toString (lineNumber cs pos) ++ ":" ++ toString (columnNumber cs pos)

theorem place_eq_of_le {S : SourceText} (h : pos ≤ S.length) : place S pos =
    toString (S.linesBefore pos - 1 + 1) ++ ":" ++ toString (pos - S.lineOffset pos + 1) := by
  simp only [place, lineAt?, if_pos h]
  rfl

theorem place_eq_of_lt {S : SourceText} (h : S.length < pos) : place S pos = "?:?" := by
  simp only [place, lineAt?, if_neg (Nat.not_le.2 h)]

/-- A position in the text is shown by its place. -/
theorem place_eq (h : pos < s.toList.length) :
    place (ofString s) pos = placeText s.toList pos := by
  rw [place_eq_of_le (Nat.le_of_lt h), linesBefore_eq h, lineOffset_eq h,
    Nat.sub_add_cancel (lineNumber_pos _ _)]
  rfl

theorem toList_numbers (m n : Nat) : (toString m ++ ":" ++ toString n).toList =
    (toString m).toList ++ ':' :: (toString n).toList := by
  simp

theorem numbers_injective {m n m' n' : Nat}
    (h : toString m ++ ":" ++ toString n = toString m' ++ ":" ++ toString n') :
    m = m' ∧ n = n' := by
  have h := congrArg String.toList h
  rw [toList_numbers, toList_numbers] at h
  obtain ⟨hm, hn⟩ := append_inj_of_stop (fun _ => isDigit_of_mem_toString)
    (fun _ => isDigit_of_mem_toString) (stop_cons rfl _) (stop_cons rfl _) h
  exact ⟨toString_toList_injective hm, toString_toList_injective (List.cons.inj hn).2⟩

theorem mem_numbers {m n : Nat} {c : Char} (h : c ∈ (toString m ++ ":" ++ toString n).toList) :
    c.isDigit ∨ c = ':' := by
  rw [toList_numbers] at h
  obtain h | h := List.mem_append.1 h
  · exact .inl (isDigit_of_mem_toString h)
  · obtain rfl | h := List.mem_cons.1 h
    · exact .inr rfl
    · exact .inl (isDigit_of_mem_toString h)

theorem numbers_ne {m n : Nat} : "?:?" ≠ toString m ++ ":" ++ toString n := by
  intro h
  have hm : '?' ∈ (toString m ++ ":" ++ toString n).toList := by
    rw [← h]
    decide
  exact absurd (mem_numbers hm) (by decide)

/-- Different positions are shown by different places. -/
theorem place_inj (hs : s.toList ≠ []) (hp : p ≤ s.toList.length)
    (h : place (ofString s) p = place (ofString s) q) : p = q := by
  rw [place_eq_of_le (S := ofString s) hp] at h
  obtain hq | hq := Nat.lt_or_ge (ofString s).length q
  · rw [place_eq_of_lt hq] at h
    exact absurd h.symm numbers_ne
  · rw [place_eq_of_le hq] at h
    obtain ⟨hline, hcolumn⟩ := numbers_injective h
    have hoffset : (ofString s).lineOffset p = (ofString s).lineOffset q := by
      unfold lineOffset
      rw [Nat.add_right_cancel hline]
    have := lineOffset_le hs p
    have := lineOffset_le hs q
    omega

/-- No blank stands in a place. -/
theorem blank_notMem_place (S : SourceText) (pos : Nat) : ' ' ∉ (place S pos).toList := by
  obtain h | h := Nat.lt_or_ge S.length pos
  · rw [place_eq_of_lt h]
    decide
  · rw [place_eq_of_le h]
    exact fun hm => absurd (mem_numbers hm) (by decide)

end

/-! ## Headers -/

/-- The first line of a report. -/
def title (r : Report) (colored : Bool) : String :=
  Style.paint colored (.label .red) ("[" ++ r.code ++ "] Error:") ++ " " ++ r.message

/-- The line that opens the first section. -/
def header (colored : Bool) (width : Nat) (place : String) : String :=
  blanks (width + 2) ++ Style.paint colored .margin "╭" ++ Style.paint colored .margin "─" ++
    Style.paint colored .margin "[" ++ " " ++ place ++ " " ++ Style.paint colored .margin "]"

/-- In the text of a report the line after the first is a header that names `place`. -/
def Shows (r : Report) (text filename : String) (colored : Bool) (place : String) : Prop :=
  ∃ width rest, text =
    r.title colored ++ "\n" ++ header colored width (filename ++ ":" ++ place) ++ "\n" ++ rest

section
variable {r : Report} {source filename text p q : String} {colored : Bool} {S : SourceText}

theorem isSome_lineAt? (S : SourceText) (pos : Nat) : (S.lineAt? pos).isSome ↔ pos ≤ S.length := by
  unfold lineAt?
  split <;> simp_all

theorem isSome_mark? {i : Nat} {l : Label} : (mark? S i l).isSome ↔ l.Within S.length := by
  unfold mark? Label.Within
  -- both ends have to be on a line; an empty label ends where it starts
  by_cases hstart : l.start ≤ S.length
  · obtain ⟨first, hfirst⟩ := Option.isSome_iff_exists.1 ((isSome_lineAt? S _).2 hstart)
    by_cases hempty : l.stop ≤ l.start
    · simp [hfirst, hempty]
      omega
    · have := isSome_lineAt? S (l.stop - 1)
      by_cases hstop : l.stop - 1 ≤ S.length
      · obtain ⟨last, hlast⟩ := Option.isSome_iff_exists.1 ((isSome_lineAt? S _).2 hstop)
        simp [hfirst, hempty, hlast]
        omega
      · have hlast : S.lineAt? (l.stop - 1) = none := by
          simpa [Option.isNone_iff_eq_none] using mt this.1 hstop
        simp [hfirst, hempty, hlast]
        omega
  · have hfirst : S.lineAt? l.start = none := by
      simpa [Option.isNone_iff_eq_none] using mt (isSome_lineAt? S _).1 hstart
    simp [hfirst, hstart]

theorem addMark_ne_nil (ss : List Section) (m : Mark) : addMark ss m ≠ [] := by
  unfold addMark
  split <;> (try split) <;> (try split) <;> simp

theorem foldl_addMark_eq_nil {ms : List Mark} {ss : List Section} :
    ms.foldl addMark ss = [] ↔ ss = [] ∧ ms = [] := by
  induction ms generalizing ss with
  | nil => simp
  | cons m ms ih => simp [ih, addMark_ne_nil]

/-- Labels outside the text make no section. -/
theorem sections_eq_nil {ls : List Label} :
    sections S ls = [] ↔ ∀ l ∈ ls, ¬ l.Within S.length := by
  simp only [sections, List.reverse_eq_nil_iff, List.map_eq_nil_iff, foldl_addMark_eq_nil, true_and,
    List.filterMap_eq_nil_iff]
  constructor
  · intro h l hl
    obtain ⟨i, hi, rfl⟩ := List.mem_iff_getElem.1 hl
    have := h (ls[i], i) (List.mk_mem_zipIdx_iff_getElem?.2 (List.getElem?_eq_getElem hi))
    rw [← isSome_mark? (i := i), this]
    exact Bool.false_ne_true
  · rintro h ⟨l, i⟩ hl
    have := h l (List.mem_of_getElem? (List.mk_mem_zipIdx_iff_getElem?.1 hl))
    simpa [Option.isNone_iff_eq_none] using mt (isSome_mark? (i := i)).1 this

/-- A report without a label in the source is its first line. -/
theorem render_eq_title (h : ∀ l ∈ r.labels, ¬ l.Within source.toList.length) :
    r.render source filename colored = r.title colored ++ "\n" := by
  have hs : sections (ofString source) r.labels = [] := sections_eq_nil.2 h
  simp [render, hs, drawSections, title, String.join]

/-- The first section of a report begins with the header. -/
theorem drawSection_eq (r : Report) (S : SourceText) (filename : String) (colored : Bool)
    (width : Nat) (isLast : Bool) (s : Section) : ∃ lines,
    r.drawSection S filename colored width true isLast s =
      header colored width (filename ++ ":" ++ place S r.primary) :: lines :=
  ⟨_, rfl⟩

/-- A report with a label in the source has a header, with the place of the primary position. -/
theorem render_shows (h : ∃ l ∈ r.labels, l.Within source.toList.length) :
    r.Shows (r.render source filename colored) filename colored
      (place (ofString source) r.primary) := by
  obtain ⟨s, rest, hs⟩ : ∃ s rest, sections (ofString source) r.labels = s :: rest :=
    List.exists_cons_of_ne_nil fun h0 => by
      obtain ⟨l, hl, hlw⟩ := h
      exact sections_eq_nil.1 h0 l hl hlw
  obtain ⟨width, hrender⟩ : ∃ width, r.render source filename colored =
      String.join ((r.title colored :: r.drawSections (ofString source) filename colored width true
        (sections (ofString source) r.labels)).map (· ++ "\n")) := ⟨_, rfl⟩
  obtain ⟨lines, hlines⟩ :=
    r.drawSection_eq (ofString source) filename colored width rest.isEmpty s
  refine ⟨width, String.join ((lines ++
    r.drawSections (ofString source) filename colored width false rest).map (· ++ "\n")), ?_⟩
  rw [hrender, hs, drawSections, hlines]
  simp [← String.toList_inj, String.toList_join]

theorem not_shows_title : ¬ r.Shows (r.title colored ++ "\n") filename colored p := by
  rintro ⟨width, rest, h⟩
  have h := congrArg String.toList h
  simp [header, blanks, List.replicate_succ] at h

/-- The characters of a header between the blanks and the place. -/
def corner (colored : Bool) : List Char :=
  (Style.paint colored .margin "╭").toList ++ (Style.paint colored .margin "─").toList ++
    (Style.paint colored .margin "[").toList ++ [' ']

theorem toList_header (colored : Bool) (width : Nat) (place : String) : ∃ xs,
    (header colored width place).toList =
      List.replicate (width + 2) ' ' ++ (corner colored ++ (place.toList ++ ' ' :: xs)) :=
  ⟨(Style.paint colored .margin "]").toList, by simp [header, blanks, corner]⟩

theorem corner_stop (xs : List Char) :
    ∀ c ∈ (corner colored ++ xs).head?, (c == ' ') = false := by
  cases colored <;> exact fun c hc => by
    obtain rfl := Option.some.inj hc
    decide

/-- What a header names can be read off the text. -/
theorem Shows.unique (hp : r.Shows text filename colored p) (hq : r.Shows text filename colored q)
    (hp' : ' ' ∉ p.toList) (hq' : ' ' ∉ q.toList) : p = q := by
  obtain ⟨width, rest, rfl⟩ := hp
  obtain ⟨width', rest', h⟩ := hq
  obtain ⟨xs, hxs⟩ := toList_header colored width (filename ++ ":" ++ p)
  obtain ⟨ys, hys⟩ := toList_header colored width' (filename ++ ":" ++ q)
  have h := congrArg String.toList h
  simp only [String.toList_append, hxs, hys, List.append_assoc] at h
  have h := List.append_cancel_left (List.append_cancel_left h)
  obtain ⟨-, h⟩ := append_inj_of_stop (p := (· == ' ')) (by simp) (by simp) (corner_stop _)
    (corner_stop _) h
  have h := List.append_cancel_left (List.append_cancel_left (List.append_cancel_left h))
  have stop : ∀ {p : String}, ' ' ∉ p.toList → ∀ c ∈ p.toList, (c != ' ') = true := by
    rintro p hp c hc
    exact bne_iff_ne.2 fun he => hp (he ▸ hc)
  exact String.toList_inj.1
    (append_inj_of_stop (stop hp') (stop hq') (by simp) (by simp) h).1

end

/-! ## Bytes and characters -/

theorem utf8ByteSize_cons (c : Char) (cs : List Char) : (String.ofList (c :: cs)).utf8ByteSize =
    c.utf8Size + (String.ofList cs).utf8ByteSize := by
  rw [String.ofList_cons, String.utf8ByteSize_append, String.utf8ByteSize_singleton]

theorem length_le_utf8ByteSize (cs : List Char) :
    cs.length ≤ (String.ofList cs).utf8ByteSize := by
  induction cs with
  | nil => exact Nat.zero_le _
  | cons c cs ih =>
    have := c.utf8Size_pos
    rw [utf8ByteSize_cons, List.length_cons]
    omega

/-- Bytes and characters are counted alike if and only if all characters are single bytes. -/
theorem utf8ByteSize_eq_length {cs : List Char} :
    (String.ofList cs).utf8ByteSize = cs.length ↔ ∀ c ∈ cs, c.utf8Size = 1 := by
  induction cs with
  | nil => exact ⟨fun _ => List.forall_mem_nil _, fun _ => rfl⟩
  | cons c cs ih =>
    have := c.utf8Size_pos
    have := length_le_utf8ByteSize cs
    rw [utf8ByteSize_cons, List.length_cons, List.forall_mem_cons, ← ih]
    omega

/-- A clamped span ends where the source does, at the latest. -/
theorem clamp_within (size : Nat) (span : Option Span) :
    (clamp size span).start ≤ size ∧ (clamp size span).stop ≤ size := by
  unfold clamp
  dsimp only
  split <;> dsimp only <;> omega

theorem start_clamp {size : Nat} {s : Span} (h : s.start ≤ size) :
    (clamp size (some s)).start = s.start := by
  unfold clamp
  dsimp only [Option.getD_some]
  split <;> dsimp only <;> omega

theorem within_of_mem_labelsFor {size : Nat} {e : TypeError} :
    ∀ l ∈ labelsFor size e, l.Within size := by
  have within : ∀ span message color, (label (clamp size span) message color).Within size :=
    fun span _ _ => ⟨(clamp_within size span).1, Nat.le_succ_of_le (clamp_within size span).2⟩
  unfold labelsFor
  split
  · exact List.forall_mem_cons.2 ⟨within .., List.forall_mem_singleton.2 (within ..)⟩
  · exact List.forall_mem_singleton.2 (within ..)

theorem labelsFor_ne_nil (size : Nat) (e : TypeError) : labelsFor size e ≠ [] := by
  unfold labelsFor
  split <;> exact List.cons_ne_nil _ _

end Report

open Report

/-- **Which byte a report points at.** Let the span of an error start behind the characters `before`
of a source, with some more characters to come. The header of the report names the line and column
of the span's first byte if and only if the characters before it are single bytes and a label of the
report lies within as many positions as the source has characters. In a source of single bytes the
header always does. -/
theorem TypeError.shows_place_iff {e : TypeError} {source filename : String} {colored : Bool}
    {s : Span} {before rest : List Char} (hspan : e.span? = some s)
    (hsource : source.toList = before ++ rest) (hrest : rest ≠ [])
    (hstart : (String.ofList before).utf8ByteSize = s.start) :
    ((e.report source.utf8ByteSize).Shows (e.render source filename colored) filename colored
        (placeText source.toList before.length) ↔
      (∀ c ∈ before, c.utf8Size = 1) ∧
        ∃ l ∈ (e.report source.utf8ByteSize).labels, l.Within source.toList.length) ∧
    ((∀ c ∈ source.toList, c.utf8Size = 1) →
      (e.report source.utf8ByteSize).Shows (e.render source filename colored) filename colored
        (placeText source.toList before.length)) := by
  have hpos : before.length < source.toList.length := by
    have := List.length_pos_iff.2 hrest
    rw [hsource, List.length_append]
    omega
  have hne : source.toList ≠ [] := List.ne_nil_of_length_pos (by omega)
  have hsize : source.utf8ByteSize =
      (String.ofList before).utf8ByteSize + (String.ofList rest).utf8ByteSize := by
    rw [← String.utf8ByteSize_append, ← String.ofList_append, ← hsource, String.ofList_toList]
  have hprimary : (e.report source.utf8ByteSize).primary = s.start := by
    rw [TypeError.report, hspan]
    exact start_clamp (by omega)
  rw [← place_eq hpos, ← utf8ByteSize_eq_length, hstart]
  have shown : (∃ l ∈ (e.report source.utf8ByteSize).labels, l.Within source.toList.length) →
      (e.report source.utf8ByteSize).Shows (e.render source filename colored) filename colored
        (place (ofString source) s.start) := fun h => hprimary ▸ render_shows h
  refine ⟨⟨fun h => ?_, fun ⟨h, hl⟩ => h ▸ shown hl⟩, fun hascii => ?_⟩
  · by_cases hl : ∃ l ∈ (e.report source.utf8ByteSize).labels, l.Within source.toList.length
    · refine ⟨(place_inj hne (Nat.le_of_lt hpos) ?_).symm, hl⟩
      exact h.unique (shown hl) (blank_notMem_place _ _) (blank_notMem_place _ _)
    · rw [TypeError.render, render_eq_title fun l hm hw => hl ⟨l, hm, hw⟩] at h
      exact absurd h not_shows_title
  · have hbytes : source.utf8ByteSize = source.toList.length := by
      rw [← utf8ByteSize_eq_length.2 hascii, String.ofList_toList]
    have hbefore : s.start = before.length := by
      rw [← hstart, utf8ByteSize_eq_length]
      exact fun c hc => hascii c (hsource ▸ List.mem_append_left _ hc)
    obtain ⟨l, hl⟩ := List.exists_mem_of_ne_nil _ (labelsFor_ne_nil source.utf8ByteSize e)
    rw [← hbefore]
    exact shown ⟨l, hl, hbytes ▸ within_of_mem_labelsFor l hl⟩

/-- A name on the second line of a source of single bytes. -/
theorem TypeError.shows_place_secondLine :
    (TypeError.report (.unboundName "x" ⟨5, 6⟩) 7).Shows
      (TypeError.render (.unboundName "x" ⟨5, 6⟩) "a;\n  x;" "main.tn" false) "main.tn" false
      "2:3" := by
  have hplace : placeText "a;\n  x;".toList ['a', ';', '\n', ' ', ' '].length = "2:3" := by decide
  have hsource : "a;\n  x;".toList = ['a', ';', '\n', ' ', ' '] ++ ['x', ';'] := by decide
  rw [← hplace]
  exact (shows_place_iff rfl hsource (by decide) (by decide)).2
    (utf8ByteSize_eq_length.1 (by decide))

/-- Behind a character of two bytes the header names the place one further: the name starts at
byte three, the third character, and the header points at the fourth. -/
theorem TypeError.misplaced_afterAccent :
    "é x;".toList = ['é', ' '] ++ ['x', ';'] ∧ (String.ofList ['é', ' ']).utf8ByteSize = 3 ∧
      placeText "é x;".toList ['é', ' '].length = "1:3" ∧
      (TypeError.report (.unboundName "x" ⟨3, 4⟩) 5).Shows
        (TypeError.render (.unboundName "x" ⟨3, 4⟩) "é x;" "main.tn" false) "main.tn" false "1:4" ∧
      ¬(TypeError.report (.unboundName "x" ⟨3, 4⟩) 5).Shows
        (TypeError.render (.unboundName "x" ⟨3, 4⟩) "é x;" "main.tn" false) "main.tn" false
        "1:3" := by
  have shown : (TypeError.report (.unboundName "x" ⟨3, 4⟩) 5).Shows
      (TypeError.render (.unboundName "x" ⟨3, 4⟩) "é x;" "main.tn" false) "main.tn" false
      "1:4" := by
    have place : place (ofString "é x;") 3 = "1:4" := (place_eq (by decide)).trans (by decide)
    rw [← place]
    exact render_shows ⟨_, List.mem_cons_self, by decide, by decide⟩
  refine ⟨by decide, by decide, by decide, shown, fun h => ?_⟩
  exact absurd (h.unique shown (by decide) (by decide)) (by decide)

end TypeInference
