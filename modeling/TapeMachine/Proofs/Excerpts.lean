import Mathlib
import TapeMachine.Diagnostic
import TapeMachine.Proofs.Numerals
import TapeMachine.Proofs.Partition

namespace TapeMachine

open String (utf8Len)

/-- A text is a line, or a line with its newline and a text behind it. -/
theorem induction_on_lines {holds : List Char → Prop} (text : List Char) (last : ∀ line, '\n' ∉ line → holds line)
    (newline : ∀ line rest, '\n' ∉ line → holds rest → holds (line ++ '\n' :: rest)) : holds text := by
  by_cases broken : '\n' ∈ text
  · obtain ⟨line, rest, whole, unbroken⟩ := List.eq_append_cons_of_mem broken
    have shorter : rest.length < text.length := by
      rw [whole, List.length_append, List.length_cons]
      omega
    exact whole ▸ newline line rest unbroken (induction_on_lines rest last newline)
  · exact last text broken
termination_by text.length

variable {start offset : Nat} {before inside after line rest text : List Char} {place : Location}

/-- The place in a line behind a text: how many characters stand there already. -/
def columnBehind (text : List Char) : Nat :=
  (text.reverse.takeWhile (· ≠ '\n')).length

theorem count_newline (unbroken : '\n' ∉ line) (rest : List Char) :
    (line ++ '\n' :: rest).count '\n' = rest.count '\n' + 1 := by
  rw [List.count_append, List.count_cons_self, List.count_eq_zero.2 unbroken, Nat.zero_add]

theorem columnBehind_of_unbroken (unbroken : '\n' ∉ text) : columnBehind text = text.length := by
  have all : text.reverse.takeWhile (· ≠ '\n') = text.reverse :=
    List.takeWhile_eq_self_iff.2 fun c member => by
      simpa using fun same : c = '\n' => unbroken (same ▸ List.mem_reverse.1 member)
  rw [columnBehind, all, List.length_reverse]

theorem columnBehind_newline (line rest : List Char) : columnBehind (line ++ '\n' :: rest) = columnBehind rest := by
  simp only [columnBehind, List.reverse_append, List.reverse_cons, List.append_assoc, List.singleton_append]
  rw [List.takeWhile_append]
  split
  · rename_i all
    simpa using all.symm
  · rfl

theorem lineColumnFrom_unbroken (unbroken : '\n' ∉ before) (number column : Nat) (rest : List Char) (more : Nat) :
    lineColumnFrom number column (before ++ rest) (utf8Len before + more) =
      lineColumnFrom number (column + before.length) rest more := by
  induction before generalizing column with
  | nil => simp
  | cons c before ih =>
    obtain ⟨other, unbroken⟩ := not_or.1 (List.mem_cons.not.1 unbroken)
    have positive := c.utf8Size_pos
    have later : utf8Len (c :: before) + more - c.utf8Size = utf8Len before + more := by
      rw [String.utf8Len_cons]
      omega
    rw [List.cons_append, lineColumnFrom, if_neg (by rw [String.utf8Len_cons]; omega), if_neg (Ne.symm other), later,
      ih unbroken, List.length_cons]
    congr 1
    omega

/-- Lines are counted by the newlines before an offset, and columns by the characters behind the last of them. -/
theorem lineColumnFrom_append (number : Nat) (before rest : List Char) :
    lineColumnFrom number 1 (before ++ rest) (utf8Len before) =
      (number + before.count '\n', 1 + columnBehind before) := by
  induction before using induction_on_lines generalizing number with
  | last before unbroken =>
    have counted := lineColumnFrom_unbroken unbroken number 1 rest 0
    rw [Nat.add_zero] at counted
    rw [counted, List.count_eq_zero.2 unbroken, columnBehind_of_unbroken unbroken]
    cases rest <;> rfl
  | newline line before unbroken ih =>
    have next : lineColumnFrom number (1 + line.length) ('\n' :: (before ++ rest)) (utf8Len ('\n' :: before)) =
        lineColumnFrom (number + 1) 1 (before ++ rest) (utf8Len before) := by
      have positive := Char.utf8Size_pos '\n'
      rw [lineColumnFrom, String.utf8Len_cons, if_neg (by omega), if_pos rfl, Nat.add_sub_cancel]
    rw [columnBehind_newline, String.utf8Len_append, List.append_assoc, List.cons_append,
      lineColumnFrom_unbroken unbroken, next, ih]
    simp [List.count_eq_zero.2 unbroken, Nat.add_assoc, Nat.add_comm 1]

/-- The lines of a text that begins at `offset`. -/
def linesAt (offset : Nat) (text : List Char) : List Line :=
  linesFrom offset offset [] [] text

theorem linesFrom_found (read : List Char) (found : List Line) :
    linesFrom start offset read found text = found.reverse ++ linesFrom start offset read [] text := by
  induction text generalizing start offset read found with
  | nil =>
    rw [linesFrom, linesFrom]
    split <;> simp
  | cons c rest ih =>
    rw [linesFrom, linesFrom]
    split
    · rw [ih, ih _ [_], List.reverse_cons, List.append_assoc]
      rfl
    · exact ih _ _

theorem linesFrom_unbroken (unbroken : '\n' ∉ line) (read : List Char) (found : List Line) (rest : List Char) :
    linesFrom start offset read found (line ++ rest) =
      linesFrom start (offset + utf8Len line) (line.reverse ++ read) found rest := by
  induction line generalizing offset read with
  | nil => simp
  | cons c line ih =>
    obtain ⟨other, unbroken⟩ := not_or.1 (List.mem_cons.not.1 unbroken)
    rw [List.cons_append, linesFrom, if_neg (Ne.symm other), ih unbroken, String.utf8Len_cons]
    simp [Nat.add_assoc, Nat.add_comm c.utf8Size]

theorem linesAt_newline (unbroken : '\n' ∉ line) (rest : List Char) :
    linesAt offset (line ++ '\n' :: rest) =
      ⟨offset, line ++ ['\n']⟩ :: linesAt (offset + utf8Len (line ++ ['\n'])) rest := by
  rw [linesAt, linesFrom_unbroken unbroken, linesFrom, if_pos rfl, linesFrom_found]
  simp [linesAt, Nat.add_assoc]

theorem linesAt_last (unbroken : '\n' ∉ line) (some : line ≠ []) : linesAt offset line = [⟨offset, line⟩] := by
  have whole : linesFrom offset offset [] [] (line ++ []) = _ := linesFrom_unbroken unbroken [] [] []
  rw [List.append_nil] at whole
  rw [linesAt, whole, linesFrom]
  simp [some]

theorem Line.size_eq (line : Line) : line.size = utf8Len line.chars := by
  have sum : ∀ (chars : List Char) (size : Nat),
      chars.foldl (fun size c => size + c.utf8Size) size = size + utf8Len chars := by
    intro chars
    induction chars with
    | nil => simp
    | cons c chars ih =>
      intro size
      rw [List.foldl_cons, ih, String.utf8Len_cons]
      omega
  rw [size, sum, Nat.zero_add]

/-- No line begins before the text. -/
theorem le_start_of_mem_linesAt {found : Line} (member : found ∈ linesAt offset text) : offset ≤ found.start := by
  induction text using induction_on_lines generalizing offset with
  | last line unbroken =>
    by_cases empty : line = []
    · subst empty
      cases member
    · rw [linesAt_last unbroken empty, List.mem_singleton] at member
      rw [member]
  | newline line rest unbroken ih =>
    rw [linesAt_newline unbroken] at member
    rcases List.mem_cons.1 member with rfl | later
    · exact Nat.le_refl _
    · exact Nat.le_trans (Nat.le_add_right ..) (ih later)

theorem Line.meets_iff {found : Line} (some : place.start < place.stop) :
    found.meets place = true ↔ place.start < found.start + utf8Len found.chars ∧ found.start < place.stop := by
  have clamped : max place.stop (place.start + 1) = place.stop := by omega
  simp [meets, size_eq, clamped]

/-- Behind a place there is no line that it meets. -/
theorem filter_meets_behind (some : place.start < place.stop) (behind : place.stop ≤ offset) (text : List Char) :
    (linesAt offset text).filter (·.meets place) = [] := by
  refine List.filter_eq_nil_iff.2 fun found member => ?_
  have begins := le_start_of_mem_linesAt member
  rw [Line.meets_iff some]
  omega

theorem chomp_newline (line : List Char) : chomp (line ++ ['\n']) = chomp line :=
  dropEndWhile_append (by simp [isLineEnd])

/-- The lines that a place meets, without their endings. -/
def shownAt (offset : Nat) (text : List Char) (place : Location) : List (List Char) :=
  ((linesAt offset text).filter (·.meets place)).map fun found => chomp found.chars

theorem shownAt_behind (some : place.start < place.stop) (behind : place.stop ≤ offset) (text : List Char) :
    shownAt offset text place = [] := by
  rw [shownAt, filter_meets_behind some behind, List.map_nil]

/-- A line in which a place has begun, and before which it has not ended, is shown. -/
theorem shownAt_newline (unbroken : '\n' ∉ line) (some : place.start < place.stop) (touched : offset < place.stop)
    (begun : place.start ≤ offset + utf8Len line) (rest : List Char) :
    shownAt offset (line ++ '\n' :: rest) place =
      chomp line :: shownAt (offset + utf8Len (line ++ ['\n'])) rest place := by
  have longer : utf8Len line < utf8Len (line ++ ['\n']) := by
    rw [String.utf8Len_append]
    exact Nat.lt_add_of_pos_right (Char.utf8Size_pos '\n')
  have meets : (⟨offset, line ++ ['\n']⟩ : Line).meets place = true :=
    (Line.meets_iff some).2 ⟨by simp only; omega, touched⟩
  rw [shownAt, linesAt_newline unbroken, List.filter_cons_of_pos (p := fun found : Line => found.meets place) meets,
    List.map_cons, chomp_newline]
  rfl

theorem shownAt_last (unbroken : '\n' ∉ line) (nonempty : line ≠ []) (some : place.start < place.stop)
    (touched : offset < place.stop) (begun : place.start < offset + utf8Len line) :
    shownAt offset line place = [chomp line] := by
  have meets : (⟨offset, line⟩ : Line).meets place = true := (Line.meets_iff some).2 ⟨begun, touched⟩
  rw [shownAt, linesAt_last unbroken nonempty, List.filter_cons_of_pos (p := fun found : Line => found.meets place) meets]
  rfl

theorem utf8Len_pos (nonempty : text ≠ []) : 0 < utf8Len text := by
  obtain ⟨c, rest, rfl⟩ := List.exists_cons_of_ne_nil nonempty
  have positive := c.utf8Size_pos
  rw [String.utf8Len_cons]
  omega

/-- From a line on in which a place has begun, the lines up to that of its last character are shown. -/
theorem shownAt_inside (unbroken : '\n' ∉ before) (nonempty : inside ≠ []) (some : place.start < place.stop)
    (begun : place.start ≤ offset + utf8Len before) (stop : place.stop = offset + utf8Len (before ++ inside)) :
    shownAt offset (before ++ inside ++ after) place =
      (((before ++ inside ++ after).splitOn '\n').take (inside.dropLast.count '\n' + 1)).map chomp := by
  have positive := utf8Len_pos nonempty
  rw [String.utf8Len_append] at stop
  induction inside using induction_on_lines generalizing before offset with
  | last inside whole =>
    -- The place ends in the line in which it begins, wherever that line ends.
    have one : inside.dropLast.count '\n' = 0 :=
      List.count_eq_zero.2 fun member => whole (List.dropLast_subset inside member)
    rw [one, Nat.zero_add]
    induction after using induction_on_lines with
    | last after last =>
      have line : '\n' ∉ before ++ inside ++ after := by simp [unbroken, whole, last]
      rw [shownAt_last line (by simp [nonempty]) some (by omega) (by simp only [String.utf8Len_append]; omega),
        List.splitOn_eq_singleton line]
      rfl
    | newline after rest last _ =>
      have line : '\n' ∉ before ++ inside ++ after := by simp [unbroken, whole, last]
      rw [← List.append_assoc, shownAt_newline line some (by omega) (by simp only [String.utf8Len_append]; omega),
        shownAt_behind some (by simp only [String.utf8Len_append]; omega),
        List.splitOn_append_cons_self_of_not_mem line]
      rfl
  | newline line inside whole ih =>
    have line' : '\n' ∉ before ++ line := by simp [unbroken, whole]
    have split : before ++ (line ++ '\n' :: inside) ++ after = (before ++ line) ++ '\n' :: (inside ++ after) := by simp
    rw [split, shownAt_newline line' some (by omega) (by simp only [String.utf8Len_append]; omega),
      List.splitOn_append_cons_self_of_not_mem line']
    have behind : place.stop = offset + utf8Len (before ++ line ++ ['\n']) + utf8Len inside := by
      rw [stop]
      simp only [String.utf8Len_append, String.utf8Len_cons, String.utf8Len_nil]
      omega
    by_cases empty : inside = []
    · subst empty
      rw [shownAt_behind some (by simp [behind]), List.dropLast_concat, List.count_eq_zero.2 whole]
      rfl
    · have more : (line ++ '\n' :: inside).dropLast.count '\n' = inside.dropLast.count '\n' + 1 := by
        rw [List.dropLast_append_of_ne_nil (by simp), List.dropLast_cons_of_ne_nil empty, count_newline whole]
      have later : shownAt (offset + utf8Len (before ++ line ++ ['\n'])) ([] ++ inside ++ after) place = _ :=
        ih List.not_mem_nil empty (by simp only [String.utf8Len_append]; omega) (by simpa using behind) (utf8Len_pos empty)
      rw [more, List.take_succ_cons, List.map_cons]
      exact congrArg _ later

/-- The lines of a text from that of the first character of a place to that of the last one, if it divides like this. -/
def linesThrough (before inside after : List Char) : List (List Char) :=
  (((before ++ inside ++ after).splitOn '\n').drop (before.count '\n')).take (inside.dropLast.count '\n' + 1)

/-- The lines from that of the first character of a place to that of its last one are shown. -/
theorem shownAt_eq (nonempty : inside ≠ []) (start : place.start = offset + utf8Len before)
    (stop : place.stop = place.start + utf8Len inside) :
    shownAt offset (before ++ inside ++ after) place = (linesThrough before inside after).map chomp := by
  have positive := utf8Len_pos nonempty
  induction before using induction_on_lines generalizing offset with
  | last before unbroken =>
    rw [linesThrough, List.count_eq_zero.2 unbroken, List.drop_zero]
    refine shownAt_inside unbroken nonempty (by omega) (by omega) ?_
    rw [String.utf8Len_append]
    omega
  | newline line before unbroken ih =>
    have split : line ++ '\n' :: before ++ inside ++ after = line ++ '\n' :: (before ++ inside ++ after) := by simp
    have passed : ¬(⟨offset, line ++ ['\n']⟩ : Line).meets place = true := by
      rw [Line.meets_iff (by omega)]
      simp at start ⊢
      omega
    rw [linesThrough, split, shownAt, linesAt_newline unbroken,
      List.filter_cons_of_neg (p := fun found : Line => found.meets place) passed,
      List.splitOn_append_cons_self_of_not_mem unbroken]
    have begins : place.start = offset + utf8Len (line ++ ['\n']) + utf8Len before := by
      rw [start]
      simp only [String.utf8Len_append, String.utf8Len_cons, String.utf8Len_nil]
      omega
    have later := ih begins
    rw [count_newline unbroken, List.drop_succ_cons]
    exact later

theorem length_splitOn_newline (text : List Char) : (text.splitOn '\n').length = text.count '\n' + 1 := by
  induction text using induction_on_lines with
  | last line unbroken =>
    rw [List.splitOn_eq_singleton unbroken, List.count_eq_zero.2 unbroken]
    rfl
  | newline line rest unbroken ih =>
    rw [List.splitOn_append_cons_self_of_not_mem unbroken, List.length_cons, ih, count_newline unbroken]

/-- The line that a character stands in, counted by the newlines before it, has it in the column behind them. -/
theorem getElem?_columnBehind (before after : List Char) (c : Char) :
    ∃ line, ((before ++ c :: after).splitOn '\n')[before.count '\n']? = some line ∧
      (line ++ ['\n'])[columnBehind before]? = some c := by
  induction before using induction_on_lines with
  | last before unbroken =>
    rw [List.count_eq_zero.2 unbroken, columnBehind_of_unbroken unbroken]
    induction before with
    | nil =>
      obtain ⟨line, more, lines⟩ := List.exists_cons_of_ne_nil (List.splitOn_ne_nil '\n' after)
      rw [List.nil_append, List.splitOn_cons_eq_if_modifyHead, lines]
      by_cases newline : c = '\n'
      · exact ⟨[], by simp [newline]⟩
      · exact ⟨c :: line, by simp [newline]⟩
    | cons d before ih =>
      obtain ⟨other, unbroken⟩ := not_or.1 (List.mem_cons.not.1 unbroken)
      obtain ⟨line, first, column⟩ := ih unbroken
      obtain ⟨_, more, lines⟩ := List.exists_cons_of_ne_nil (List.splitOn_ne_nil '\n' (before ++ c :: after))
      rw [lines] at first
      cases first
      refine ⟨d :: line, ?_, column⟩
      rw [List.cons_append, List.splitOn_cons_eq_if_modifyHead, lines, if_neg (by simpa using Ne.symm other)]
      rfl
  | newline line before unbroken ih =>
    rw [columnBehind_newline, count_newline unbroken, List.append_assoc, List.cons_append,
      List.splitOn_append_cons_self_of_not_mem unbroken, List.getElem?_cons_succ]
    exact ih

/-- Chomping leaves a character where it is, or takes it with the ending of its line. -/
theorem getElem?_chomp {c : Char} {column : Nat} (stands : (line ++ ['\n'])[column]? = some c) :
    (chomp line)[column]? = some c ∨ (chomp line).length ≤ column ∧ isLineEnd c = true := by
  have kept : (line ++ ['\n']) = chomp line ++ ((line ++ ['\n']).reverse.takeWhile isLineEnd).reverse := by
    rw [← chomp_newline, chomp, dropEndWhile, ← List.reverse_append, List.takeWhile_append_dropWhile,
      List.reverse_reverse]
  rw [kept] at stands
  rcases Nat.lt_or_ge column (chomp line).length with inside | behind
  · rw [List.getElem?_append_left inside] at stands
    exact .inl stands
  · rw [List.getElem?_append_right behind] at stands
    have ending := List.mem_reverse.1 (List.mem_of_getElem? stands)
    exact .inr ⟨behind, List.mem_takeWhile_imp ending⟩

theorem fst_foldl_append {step : String × Nat → Char → String × Nat}
    (writes : ∀ state c, (step state c).1 = state.1 ++ String.singleton c) (chars : List Char) (state : String × Nat) :
    (chars.foldl step state).1 = state.1 ++ String.ofList chars := by
  induction chars generalizing state with
  | nil => simp
  | cons c chars ih => rw [List.foldl_cons, ih, writes, String.ofList_cons, String.append_assoc]

/-- Without colours a line is written as it stands. -/
theorem Line.render_plain (found : Line) (place : Location) :
    found.render place false = "| " ++ String.ofList (chomp found.chars) ++ "\n" := by
  rw [render, fst_foldl_append, String.empty_append]
  intro state c
  cases state
  rfl

theorem excerpt_plain (text : String) (place : Location) :
    Diagnostic.excerpt text place false =
      String.join ((shownAt 0 text.toList place).map fun shown => "| " ++ String.ofList shown ++ "\n") := by
  rw [Diagnostic.excerpt, shownAt, List.map_map]
  exact congrArg _ (List.map_congr_left fun found _ => found.render_plain place)

/-- The text divides at a place that begins and ends between characters. -/
theorem Location.exists_divides {text : String} (some : place.start < place.stop)
    (starts : String.Pos.Raw.IsValid text ⟨place.start⟩) (stops : String.Pos.Raw.IsValid text ⟨place.stop⟩) :
    ∃ before inside after, place.Divides text before inside after := by
  obtain ⟨before, rest, whole, start⟩ := String.Pos.Raw.isValid_iff_exists_append.1 starts
  obtain ⟨upto, after, whole', stop⟩ := String.Pos.Raw.isValid_iff_exists_append.1 stops
  have start : place.start = utf8Len before.toList := by
    rw [String.utf8Len_toList]
    exact congrArg String.Pos.Raw.byteIdx start
  have stop : place.stop = utf8Len upto.toList := by
    rw [String.utf8Len_toList]
    exact congrArg String.Pos.Raw.byteIdx stop
  have front : before.toList <+: text.toList := ⟨rest.toList, by rw [whole, String.toList_append]⟩
  have front' : upto.toList <+: text.toList := ⟨after.toList, by rw [whole', String.toList_append]⟩
  rcases List.prefix_or_prefix_of_prefix front front' with ⟨inside, reaches⟩ | ⟨beyond, exceeds⟩
  · refine ⟨before.toList, inside, after.toList, ?_, start, ?_⟩
    · rw [reaches, whole', String.toList_append]
    · rw [stop, start, ← reaches, String.utf8Len_append]
  · rw [start, stop, ← exceeds, String.utf8Len_append] at some
    omega

theorem length_linesThrough (before inside after : List Char) :
    (linesThrough before inside after).length = inside.dropLast.count '\n' + 1 := by
  have fewer : inside.dropLast.count '\n' ≤ inside.count '\n' := (List.dropLast_sublist inside).count_le '\n'
  rw [linesThrough, List.length_take, List.length_drop, length_splitOn_newline, List.count_append, List.count_append]
  omega

/-- A report without colours names the line and the column of the first character of a place, both counted from 1, and
shows the lines of the text from that line to the line of the last character, without their endings. So what it shows
first is the line that it names, and there the character stands in the column that it names, unless it ends the line. -/
theorem excerpt_agrees_with_position {sources : Sources} {diagnostic : Diagnostic} {file : SourceFile}
    (located : diagnostic.place = some place) (known : sources.get? place.file = some file)
    (nonempty : place.start < place.stop) (starts : String.Pos.Raw.IsValid file.text ⟨place.start⟩)
    (stops : String.Pos.Raw.IsValid file.text ⟨place.stop⟩) :
    ∃ before inside after, place.Divides file.text before inside after ∧
      let line := 1 + before.count '\n'
      let column := 1 + columnBehind before
      diagnostic.render sources false =
        "error: " ++ diagnostic.headline ++ "\n" ++
          (s!"at: {file.name}:{line}:{column}\n" ++
            String.join ((linesThrough before inside after).map fun text => "| " ++ String.ofList (chomp text) ++ "\n")) ∧
        (linesThrough before inside after).length = inside.dropLast.count '\n' + 1 ∧
        ∃ first ∈ (linesThrough before inside after).head?, ∃ c ∈ inside.head?,
          (first ++ ['\n'])[columnBehind before]? = some c ∧
          ((chomp first)[columnBehind before]? = some c ∨
            (chomp first).length ≤ columnBehind before ∧ isLineEnd c = true) := by
  obtain ⟨before, inside, after, divides⟩ := Location.exists_divides nonempty starts stops
  have ⟨whole, start, stop⟩ := divides
  have inside_ne_nil : inside ≠ [] := by
    rintro rfl
    rw [String.utf8Len_nil] at stop
    omega
  obtain ⟨c, more, inside_eq⟩ := List.exists_cons_of_ne_nil inside_ne_nil
  obtain ⟨first, numbered, column⟩ := getElem?_columnBehind before (more ++ after) c
  have text_eq : before ++ c :: (more ++ after) = before ++ inside ++ after := by rw [inside_eq]; simp
  have position : file.lineColumn place.start = (1 + before.count '\n', 1 + columnBehind before) := by
    rw [SourceFile.lineColumn, whole, start, List.append_assoc]
    exact lineColumnFrom_append 1 before (inside ++ after)
  have shown : shownAt 0 file.text.toList place = (linesThrough before inside after).map chomp := by
    rw [whole]
    exact shownAt_eq inside_ne_nil (by rw [start, Nat.zero_add]) stop
  refine ⟨before, inside, after, divides, ?_, length_linesThrough before inside after, first, ?_, c, by simp [inside_eq],
    column, getElem?_chomp column⟩
  · rw [Diagnostic.render, located]
    simp only [Diagnostic.whereabouts, known, position, excerpt_plain, shown, List.map_map]
    rfl
  · rw [text_eq] at numbered
    rw [linesThrough, List.head?_take, if_neg (by omega), List.head?_drop, numbered]
    rfl

/-- A complaint about a place of two lines, behind a line with a carriage return. -/
def twoLines : Diagnostic :=
  ⟨.undefinedName, some ⟨0, 9, 15⟩, "é"⟩

theorem twoLines_excerpt :
    twoLines.render ⟨[⟨"main.tape", "1 2 +\r\n3 é\r\nfrob"⟩]⟩ false =
      "error: undefined name; é\nat: main.tape:2:3\n| 3 é\n| frob\n" ∧
    ∃ before inside after, (⟨0, 9, 15⟩ : Location).Divides "1 2 +\r\n3 é\r\nfrob" before inside after ∧
      (linesThrough before inside after).length = inside.dropLast.count '\n' + 1 ∧
      ∃ first ∈ (linesThrough before inside after).head?, ∃ c ∈ inside.head?,
        (first ++ ['\n'])[columnBehind before]? = some c := by
  have starts : String.Pos.Raw.IsValid "1 2 +\r\n3 é\r\nfrob" ⟨9⟩ :=
    String.Pos.Raw.isValid_iff_exists_append.2 ⟨"1 2 +\r\n3 ", "é\r\nfrob", by decide, by decide⟩
  have stops : String.Pos.Raw.IsValid "1 2 +\r\n3 é\r\nfrob" ⟨15⟩ :=
    String.Pos.Raw.isValid_iff_exists_append.2 ⟨"1 2 +\r\n3 é\r\nfr", "ob", by decide, by decide⟩
  refine ⟨by cbv, ?_⟩
  obtain ⟨before, inside, after, divides, -, length, first, shown, c, char, column, -⟩ :=
    @excerpt_agrees_with_position ⟨0, 9, 15⟩ ⟨[⟨"main.tape", "1 2 +\r\n3 é\r\nfrob"⟩]⟩ twoLines _ rfl rfl (by decide)
      starts stops
  exact ⟨before, inside, after, divides, length, first, shown, c, char, column⟩

end TapeMachine
