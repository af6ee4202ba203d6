import TypeInference.SourceText

/-!
# Where the lines of a text begin

`linesFrom` cuts a text from the front. Seen from the characters alone, a line begins at the first
one and after every line end, where a carriage return and the line feed after it end one line
(`beginsLine`); the lines of a text start at just these positions (`offsets_ofString`). The line of
a position is therefore the number of beginnings up to it, and its column the way from the last of
them.
-/

namespace TypeInference

/-- Whether a line of the text begins at a position. -/
def beginsLine (cs : List Char) : Nat → Bool
  | 0 => true
  | i + 1 =>
    match cs[i]? with
    | some c => isLineEnd c && !(c == '\r' && cs[i + 1]? == some '\n')
    | none => false

/-- The beginnings of lines at or before a position. -/
def lineStarts (cs : List Char) (pos : Nat) : List Nat :=
  (List.range (pos + 1)).filter (beginsLine cs)

/-- The line of a position, counted from one. -/
def lineNumber (cs : List Char) (pos : Nat) : Nat := (lineStarts cs pos).length

/-- The column of a position in its line, counted from one. -/
def columnNumber (cs : List Char) (pos : Nat) : Nat := pos - (lineStarts cs pos).getLastD 0 + 1

theorem beginsLine_cons (c : Char) (cs : List Char) (i : Nat) :
    beginsLine (c :: cs) (i + 2) = beginsLine cs (i + 1) := rfl

theorem beginsLine_append (xs ys : List Char) (i : Nat) :
    beginsLine (xs ++ ys) (xs.length + (i + 1)) = beginsLine ys (i + 1) := by
  induction xs with
  | nil => rw [List.length_nil, Nat.zero_add, List.nil_append]
  | cons x xs ih =>
    rw [← ih, List.length_cons, List.cons_append,
      show xs.length + 1 + (i + 1) = (xs.length + i) + 2 by omega, beginsLine_cons, Nat.add_assoc]

theorem length_firstLine_pos {cs : List Char} (h : cs ≠ []) : 0 < (firstLine cs).1.length := by
  have := congrArg List.length (firstLine_append cs)
  rw [List.length_append] at this
  have := firstLine_length_lt h
  omega

/-- No line begins within the first one. -/
theorem beginsLine_firstLine {cs : List Char} {i : Nat} (h : i + 1 < (firstLine cs).1.length) :
    beginsLine cs (i + 1) = false := by
  fun_induction firstLine cs generalizing i with
  | case1 => simp at h
  | case2 rest =>
    obtain rfl : i = 0 := Nat.lt_one_iff.1 (Nat.lt_of_succ_lt_succ h)
    rfl
  | case3 c rest _ hc => simp at h
  | case4 c rest _ hc line rest' hr ih =>
    cases i with
    | zero => simp [beginsLine, hc]
    | succ i =>
      rw [beginsLine_cons]
      exact ih (by rw [hr]; simpa using h)

/-- A line begins where the first one ends. -/
theorem beginsLine_rest {cs : List Char} (h : (firstLine cs).2 ≠ []) :
    beginsLine cs (firstLine cs).1.length = true := by
  fun_induction firstLine cs with
  | case1 => exact absurd rfl h
  | case2 rest => rfl
  | case3 c rest hcr hc =>
    cases rest with
    | nil => exact absurd rfl h
    | cons d rest =>
      have hcr : c ≠ '\r' ∨ d ≠ '\n' := by
        refine Decidable.not_and_iff_not_or_not.1 ?_
        rintro ⟨rfl, rfl⟩
        exact hcr rest rfl rfl
      simpa [beginsLine, hc] using hcr
  | case4 c rest _ hc line rest' hr ih =>
    rw [hr] at ih
    have hrest : rest ≠ [] := by
      rintro rfl
      rw [firstLine] at hr
      exact h (Prod.mk.inj hr).2.symm
    obtain ⟨m, hm⟩ := Nat.exists_eq_add_one.2 (length_firstLine_pos hrest)
    rw [hr] at hm
    have hb := ih h
    rw [hm] at hb
    rw [List.length_cons, hm, beginsLine_cons]
    exact hb

/-- The lines cut off a text begin where they should. -/
theorem offsets_linesFrom (offset : Nat) (cs : List Char) :
    (linesFrom offset cs).map SourceLine.offset =
      ((List.range cs.length).filter (beginsLine cs)).map (offset + ·) := by
  fun_induction linesFrom offset cs with
  | case1 => rfl
  | case2 offset cs h hlt ih =>
    obtain ⟨m, hm⟩ := Nat.exists_eq_add_one.2 (length_firstLine_pos h)
    -- one beginning in the first line, and behind it those of the remaining text
    have hfirst : (List.range (firstLine cs).1.length).filter (beginsLine cs) = [0] := by
      rw [hm, List.range_succ_eq_map, List.filter_cons_of_pos rfl]
      refine congrArg _ (List.filter_eq_nil_iff.2 ?_)
      intro j hj
      obtain ⟨i, hi, rfl⟩ := List.mem_map.1 hj
      have := List.mem_range.1 hi
      simp [beginsLine_firstLine (show i + 1 < (firstLine cs).1.length by omega)]
    have hrest : ∀ i ∈ List.range (firstLine cs).2.length,
        beginsLine cs ((firstLine cs).1.length + i) = beginsLine (firstLine cs).2 i := by
      intro i hi
      cases i with
      | zero =>
        refine beginsLine_rest fun h0 => ?_
        simp [h0] at hi
      | succ i =>
        rw [← beginsLine_append (firstLine cs).1, firstLine_append]
    have hlen := congrArg List.length (firstLine_append cs)
    rw [List.length_append] at hlen
    calc ⟨offset, (firstLine cs).1⟩ :: linesFrom _ _ |>.map SourceLine.offset
      _ = offset :: ((List.range (firstLine cs).2.length).filter (beginsLine (firstLine cs).2)).map
            (offset + (firstLine cs).1.length + ·) := congrArg _ ih
      _ = _ := by
        rw [← hlen, List.range_add, List.filter_append, hfirst, List.filter_map,
          ← List.filter_congr hrest]
        simp [Function.comp_def, Nat.add_assoc]

namespace SourceText

variable {s : String} {pos : Nat}

/-- Where the lines of a text that is not empty start. -/
theorem offsets_ofString (h : s.toList ≠ []) :
    (ofString s).lines.toList.map SourceLine.offset =
      (List.range s.toList.length).filter (beginsLine s.toList) := by
  have : s.toList.isEmpty = false := by simpa using h
  simp only [ofString, this, Bool.false_eq_true, if_false, offsets_linesFrom, Nat.zero_add,
    List.map_id']

/-- The lines that `linesBefore` counts start at the beginnings up to the position. -/
theorem offsets_upto (h : pos < s.toList.length) :
    ((ofString s).lines.toList.takeWhile fun l => l.offset ≤ pos).map SourceLine.offset =
      lineStarts s.toList pos := by
  have hs : s.toList ≠ [] := List.ne_nil_of_length_pos (by omega)
  obtain ⟨m, hm⟩ : ∃ m, s.toList.length = (pos + 1) + m := ⟨_, (Nat.add_sub_cancel' h).symm⟩
  calc ((ofString s).lines.toList.takeWhile fun l => l.offset ≤ pos).map SourceLine.offset
    _ = ((ofString s).lines.toList.map SourceLine.offset).takeWhile fun o => decide (o ≤ pos) := by
      rw [List.takeWhile_map]
      rfl
    _ = (lineStarts s.toList pos ++ ((List.range m).map (pos + 1 + ·)).filter
          (beginsLine s.toList)).takeWhile fun o => decide (o ≤ pos) := by
      rw [offsets_ofString hs, hm, List.range_add, List.filter_append, lineStarts]
    _ = lineStarts s.toList pos ++ [] := by
      rw [List.takeWhile_append_of_pos]
      · refine congrArg _ ?_
        cases hl : ((List.range m).map (pos + 1 + ·)).filter (beginsLine s.toList) with
        | nil => rfl
        | cons o os =>
          have ho := (List.mem_filter.1 (hl ▸ List.mem_cons_self : o ∈ _)).1
          obtain ⟨i, -, rfl⟩ := List.mem_map.1 ho
          rw [List.takeWhile_cons_of_neg (by simp; omega)]
      · intro o ho
        have := List.mem_range.1 (List.mem_filter.1 ho).1
        simp; omega
    _ = lineStarts s.toList pos := List.append_nil _

theorem linesBefore_eq (h : pos < s.toList.length) :
    (ofString s).linesBefore pos = lineNumber s.toList pos := by
  rw [linesBefore, lineNumber, ← offsets_upto h, List.length_map]

theorem lineNumber_pos (cs : List Char) (pos : Nat) : 0 < lineNumber cs pos := by
  refine List.length_pos_of_mem (a := 0) (List.mem_filter.2 ⟨List.mem_range.2 ?_, rfl⟩)
  exact Nat.succ_pos pos

/-- The start of the last line that `linesBefore` counts. -/
def lineOffset (S : SourceText) (pos : Nat) : Nat :=
  ((S.lines[S.linesBefore pos - 1]?).getD default).offset

theorem getLast?_offsets {S : SourceText} (h : 0 < S.linesBefore pos) :
    ((S.lines.toList.takeWhile fun l => l.offset ≤ pos).map SourceLine.offset).getLast? =
      some (S.lineOffset pos) := by
  unfold lineOffset
  unfold linesBefore at h ⊢
  rw [← Array.getElem?_toList, List.getLast?_map, List.getLast?_eq_getElem?]
  have hL := List.takeWhile_append_dropWhile (p := fun l : SourceLine => decide (l.offset ≤ pos))
    (l := S.lines.toList)
  generalize S.lines.toList.takeWhile _ = xs at hL h ⊢
  rw [← hL, List.getElem?_append_left (by omega), List.getElem?_eq_getElem (by omega)]
  rfl

theorem linesBefore_pos (h : s.toList ≠ []) (pos : Nat) :
    0 < (ofString s).linesBefore pos := by
  have hs : s.toList.isEmpty = false := by simpa using h
  simp only [linesBefore, ofString, hs, Bool.false_eq_true, if_false]
  rw [linesFrom, dif_neg h, List.takeWhile_cons_of_pos (by simp)]
  exact Nat.succ_pos _

theorem lineOffset_eq (h : pos < s.toList.length) :
    (ofString s).lineOffset pos = (lineStarts s.toList pos).getLastD 0 := by
  have hs : s.toList ≠ [] := List.ne_nil_of_length_pos (by omega)
  have hl := getLast?_offsets (linesBefore_pos hs pos)
  rw [offsets_upto h] at hl
  rw [List.getLastD_eq_getLast?, hl, Option.getD_some]

/-- A position is not before the line it is on. -/
theorem lineOffset_le (h : s.toList ≠ []) (pos : Nat) : (ofString s).lineOffset pos ≤ pos := by
  have hl := List.mem_of_getLast? (getLast?_offsets (linesBefore_pos h pos))
  obtain ⟨l, hl, hlo⟩ := List.mem_map.1 hl
  rw [← hlo]
  simpa using List.all_eq_true.1 List.all_takeWhile l hl

end SourceText

end TypeInference
