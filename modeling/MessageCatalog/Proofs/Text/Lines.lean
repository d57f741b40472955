import MessageCatalog.Proofs.Text.Places

set_option autoImplicit false

/-! # Lines and line numbers

There are two notions of a line. `lines` cuts a text behind each of its line feeds, and `positions`
counts the lines along with the characters. Both can be had with an iterator: `CutInto` takes the
lines off the text one after the other, each by an offset, and a `Counter` counts them with a flag
for the character that starts a line. The notions agree: the characters that are reported with a
line number are those of the line with this number (`charsOn_positionsFrom`).

`line?` looks for a line by its number, and `LineSearch` is that search with offsets instead of
characters. It never cuts a character in two (`LineSearch.slice?_run`). What it finds is the line
without its line feed (`lineAmong?_positionsFrom`), but the first character of a line is never asked
whether it is the line feed, so an empty line is found with it. `linesAgree` states all of this for
every text and every number.
-/

namespace MessageCatalog.Text

variable {text rest line front : List Char} {more parts : List (List Char)} {chars : List Placed}
  {c : Char} {p : Position} {number : Nat}

/-! ## The lines of a text -/

/-- The line with a number. Lines are numbered from one. -/
def numbered? (text : List Char) : Nat → Option (List Char)
  | 0 => none
  | k + 1 => (lines text)[k]?

/-- A line without the line feed that ends it, if it has one. -/
def withoutFeed (line : List Char) : List Char :=
  if line.getLast? = some '\n' then line.dropLast else line

theorem lines_newline (rest : List Char) : lines ('\n' :: rest) = ['\n'] :: lines rest := rfl

/-- Any other character than a line feed belongs to the line behind it. -/
theorem lines_cons_of_ne (hc : c ≠ '\n') (rest : List Char) :
    lines (c :: rest) = (c :: (lines rest).headD []) :: (lines rest).tail := by
  rw [lines, if_neg hc]
  cases lines rest <;> rfl

theorem getElem?_zero_lines_of_ne (hc : c ≠ '\n') (rest : List Char) :
    (lines (c :: rest))[0]? = some (c :: (lines rest).headD []) := by
  rw [lines_cons_of_ne hc, List.getElem?_cons_zero]

theorem getElem?_succ_lines_of_ne (hc : c ≠ '\n') (rest : List Char) (k : Nat) :
    (lines (c :: rest))[k + 1]? = (lines rest)[k + 1]? := by
  rw [lines_cons_of_ne hc, List.getElem?_cons_succ, List.getElem?_tail]

/-- Lines are not empty, and a line feed is the last character of its line. -/
theorem of_mem_lines (h : line ∈ lines text) : line ≠ [] ∧ '\n' ∉ line.dropLast := by
  induction text generalizing line with
  | nil => simp [lines] at h
  | cons c rest ih =>
      by_cases hc : c = '\n'
      · subst hc
        rw [lines_newline, List.mem_cons] at h
        rcases h with rfl | h
        · simp
        · exact ih h
      · rw [lines_cons_of_ne hc, List.mem_cons] at h
        rcases h with rfl | h
        · cases hl : lines rest with
          | nil => simp
          | cons next more =>
              have hmem : next ∈ lines rest := by simp [hl]
              obtain ⟨hne, hfeed⟩ := ih hmem
              refine ⟨List.cons_ne_nil _ _, ?_⟩
              rw [List.headD_cons, List.dropLast_cons_of_ne_nil hne, List.mem_cons, not_or]
              exact ⟨Ne.symm hc, hfeed⟩
        · exact ih (List.mem_of_mem_tail h)

/-- Without its line feed a line is what stands before the first line feed in it. -/
theorem withoutFeed_eq_takeWhile (h : '\n' ∉ line.dropLast) :
    withoutFeed line = line.takeWhile (· ≠ '\n') := by
  rcases List.eq_nil_or_concat line with rfl | ⟨before, c, rfl⟩
  · rfl
  · have hbefore : ∀ d ∈ before, decide (d ≠ '\n') = true := by
      intro d hd
      simp only [List.concat_eq_append, List.dropLast_concat] at h
      exact decide_eq_true fun e => h (e ▸ hd)
    rw [List.concat_eq_append, List.takeWhile_append_of_pos hbefore]
    by_cases hc : c = '\n'
    · simp [withoutFeed, hc]
    · simp [withoutFeed, hc]

/-- The first line goes up to the first line feed of the text. -/
theorem takeWhile_headD_lines (text : List Char) :
    ((lines text).headD []).takeWhile (· ≠ '\n') = text.takeWhile (· ≠ '\n') := by
  induction text with
  | nil => rfl
  | cons c rest ih =>
      by_cases hc : c = '\n'
      · subst hc
        simp [lines_newline]
      · rw [lines_cons_of_ne hc, List.headD_cons, List.takeWhile_cons_of_pos (by simp [hc]), ih,
          List.takeWhile_cons_of_pos (by simp [hc])]

/-! ## Cutting lines off -/

/-- The offset of the first line feed of a text. -/
def feed? : List Char → Option Nat
  | [] => none
  | c :: rest => if c = '\n' then some 0 else (feed? rest).map (c.utf8Size + ·)

/-- The offset behind the first line of a text: behind its first line feed, or at its end. -/
def lineEnd (text : List Char) : Nat := ((feed? text).map (· + 1)).getD (byteCount text)

/-- The first line of a text and what is left of the text without it. -/
def cutLine? (text : List Char) : Option (List Char × List Char) :=
  splitBytes? (lineEnd text) text

/-- The parts that are taken off a text, as long as it is not empty. -/
inductive CutInto : List Char → List (List Char) → Prop
  | nil : CutInto [] []
  | cons {text line rest : List Char} {more : List (List Char)} (hne : text ≠ [])
      (hcut : cutLine? text = some (line, rest)) (hrest : CutInto rest more) :
      CutInto text (line :: more)

theorem lineEnd_cons_of_ne (hc : c ≠ '\n') (rest : List Char) :
    lineEnd (c :: rest) = c.utf8Size + lineEnd rest := by
  rw [lineEnd, lineEnd, feed?, if_neg hc, byteCount_cons]
  cases feed? rest <;> rfl

theorem lineEnd_eq (text : List Char) : lineEnd text = byteCount ((lines text).headD []) := by
  induction text with
  | nil => rfl
  | cons c rest ih =>
      by_cases hc : c = '\n'
      · subst hc
        rfl
      · rw [lineEnd_cons_of_ne hc, ih, lines_cons_of_ne hc, List.headD_cons, byteCount_cons]

theorem cutLine?_eq (h : lines text = line :: more) :
    cutLine? text = some (line, more.flatten) := by
  have htext : text = line ++ more.flatten := by rw [← flatten_lines text, h, List.flatten_cons]
  have hend : lineEnd text = byteCount line := by rw [lineEnd_eq, h, List.headD_cons]
  rw [cutLine?, hend, htext, splitBytes?_append]

/-- Without its first line a text has the other lines. -/
theorem lines_flatten_tail (text : List Char) :
    lines (lines text).tail.flatten = (lines text).tail := by
  induction text with
  | nil => rfl
  | cons c rest ih =>
      by_cases hc : c = '\n'
      · rw [hc, lines_newline, List.tail_cons, flatten_lines]
      · rw [lines_cons_of_ne hc, List.tail_cons, ih]

theorem lines_flatten (h : lines text = line :: more) : lines more.flatten = more := by
  have htail := lines_flatten_tail text
  rwa [h, List.tail_cons] at htail

theorem exists_lines_eq_cons (h : text ≠ []) : ∃ line more, lines text = line :: more := by
  refine List.exists_cons_of_ne_nil fun hlines => h ?_
  rw [← flatten_lines text, hlines, List.flatten_nil]

theorem cutInto_iff : CutInto text parts ↔ parts = lines text := by
  constructor
  · intro h
    induction h with
    | nil => rfl
    | cons hne hcut _ ih =>
        obtain ⟨line, more, hlines⟩ := exists_lines_eq_cons hne
        rw [cutLine?_eq hlines, Option.some.injEq, Prod.mk.injEq] at hcut
        obtain ⟨rfl, rfl⟩ := hcut
        rw [ih, hlines, lines_flatten hlines]
  · intro h
    -- What is left of the text has the lines that are left, so the parts say what comes next.
    induction parts generalizing text with
    | nil =>
        have htext : text = [] := by rw [← flatten_lines text, ← h, List.flatten_nil]
        exact htext ▸ .nil
    | cons line more ih =>
        have hne : text ≠ [] := fun htext => by simp [htext, lines] at h
        exact .cons hne (cutLine?_eq h.symm) (ih (lines_flatten h.symm).symm)

/-! ## Counting lines -/

theorem line_next_newline (p : Position) : (p.next '\n').line = p.line + 1 := rfl

theorem line_next_of_ne (hc : c ≠ '\n') (p : Position) : (p.next c).line = p.line := by
  rw [Position.next, if_neg hc]

theorem line_le_line_next (p : Position) (c : Char) : p.line ≤ (p.next c).line := by
  by_cases hc : c = '\n'
  · rw [hc, line_next_newline]
    exact Nat.le_succ _
  · rw [line_next_of_ne hc]

/-- What an iterator over the characters of a text keeps: the position that it reported last, and
whether the next character starts a line. -/
structure Counter where
  position : Position
  startsLine : Bool

namespace Counter

/-- Before the first character, which starts a line. -/
def initial : Counter := ⟨.origin, true⟩

/-- Past a character at an offset. -/
def next (s : Counter) (byte : Nat) (c : Char) : Counter where
  position := {
    byte
    char := s.position.char + 1
    line := if s.startsLine then s.position.line + 1 else s.position.line
    column := if s.startsLine then 1 else s.position.column + 1 }
  startsLine := c = '\n'

/-- The characters of a text that starts at an offset, each with the position reported for it. -/
def report (s : Counter) (byte : Nat) : List Char → List Placed
  | [] => []
  | c :: rest => ((s.next byte c).position, c) :: (s.next byte c).report (byte + c.utf8Size) rest

/-- The position that comes next does not depend on the character that is found there. -/
theorem position_next_next (s : Counter) (byte : Nat) (c d : Char) :
    ((s.next byte c).next (byte + c.utf8Size) d).position = (s.next byte c).position.next c := by
  by_cases hc : c = '\n'
  · simp [next, Position.next, hc]
  · simp [next, Position.next, hc]

theorem report_eq (s : Counter) (byte : Nat) (c : Char) (text : List Char) :
    s.report byte (c :: text) = positionsFrom (s.next byte c).position (c :: text) := by
  induction text generalizing s byte c with
  | nil => rfl
  | cons d text ih =>
      rw [report, ih, position_next_next]
      rfl

theorem report_initial (text : List Char) : initial.report 0 text = positions text := by
  cases text with
  | nil => rfl
  | cons c text => exact report_eq initial 0 c text

end Counter

/-- The characters that are reported with a line number. -/
def charsOn (number : Nat) (chars : List Placed) : List Char :=
  (chars.filter fun placed => placed.1.line = number).map Prod.snd

theorem charsOn_cons_self (p : Position) (c : Char) (chars : List Placed) :
    charsOn p.line ((p, c) :: chars) = c :: charsOn p.line chars := by
  simp [charsOn]

theorem charsOn_cons_of_ne (h : p.line ≠ number) (c : Char) (chars : List Placed) :
    charsOn number ((p, c) :: chars) = charsOn number chars := by
  simp [charsOn, h]

/-- Lines are numbered upwards. -/
theorem charsOn_of_lt (h : number < p.line) (text : List Char) :
    charsOn number (positionsFrom p text) = [] := by
  induction text generalizing p with
  | nil => rfl
  | cons c rest ih =>
      have hnext := line_le_line_next p c
      rw [positionsFrom, charsOn_cons_of_ne (by omega)]
      exact ih (by omega)

/-- Counting from the line of the first character, each line has the characters with its number. -/
theorem charsOn_positionsFrom (p : Position) (text : List Char) (k : Nat) :
    charsOn (p.line + k) (positionsFrom p text) = (lines text)[k]?.getD [] := by
  induction text generalizing p k with
  | nil => rfl
  | cons c rest ih =>
      rw [positionsFrom]
      by_cases hc : c = '\n'
      · subst hc
        rw [lines_newline]
        cases k with
        | zero =>
            rw [Nat.add_zero, charsOn_cons_self, charsOn_of_lt (Nat.lt_succ_self p.line)]
            rfl
        | succ k =>
            -- Line `k + 1` from here is line `k` from behind the line feed.
            have hrest := ih (p.next '\n') k
            rw [line_next_newline, Nat.add_right_comm, Nat.add_assoc] at hrest
            rw [charsOn_cons_of_ne (by omega), hrest, List.getElem?_cons_succ]
      · have hrest := ih (p.next c) k
        rw [line_next_of_ne hc] at hrest
        cases k with
        | zero =>
            rw [Nat.add_zero] at hrest
            rw [Nat.add_zero, charsOn_cons_self, hrest, getElem?_zero_lines_of_ne hc,
              Option.getD_some, List.headD_eq_head?_getD, List.head?_eq_getElem?]
        | succ k =>
            rw [charsOn_cons_of_ne (by omega), hrest, getElem?_succ_lines_of_ne hc]

/-! ## Finding a line -/

/-- Behind its first character a line goes on up to a line feed or another line number. -/
def goesOn (number : Nat) (placed : Placed) : Bool :=
  placed.2 ≠ '\n' && placed.1.line = number

/-- The characters with which a line goes on. -/
def restOfLine (number : Nat) (chars : List Placed) : List Char :=
  (chars.takeWhile (goesOn number)).map Prod.snd

/-- The line with a number among characters in their places. -/
def lineAmong? (number : Nat) (chars : List Placed) : Option (List Char) :=
  match chars.dropWhile fun placed => placed.1.line ≠ number with
  | [] => none
  | (_, c) :: rest => some (c :: restOfLine number rest)

theorem line?_eq (text : List Char) (number : Nat) :
    line? text number = lineAmong? number (positions text) := rfl

theorem restOfLine_cons_of_pos (h : goesOn number (p, c)) (chars : List Placed) :
    restOfLine number ((p, c) :: chars) = c :: restOfLine number chars := by
  simp [restOfLine, h]

theorem restOfLine_cons_of_neg (h : ¬ goesOn number (p, c)) (chars : List Placed) :
    restOfLine number ((p, c) :: chars) = [] := by
  simp [restOfLine, h]

theorem map_snd_eq_restOfLine_append (number : Nat) (chars : List Placed) :
    chars.map Prod.snd =
      restOfLine number chars ++ (chars.dropWhile (goesOn number)).map Prod.snd := by
  rw [restOfLine, ← List.map_append, List.takeWhile_append_dropWhile]

/-- In a line the positions stay in the line up to its line feed. -/
theorem restOfLine_positionsFrom (p : Position) (text : List Char) :
    restOfLine p.line (positionsFrom p text) = text.takeWhile (· ≠ '\n') := by
  induction text generalizing p with
  | nil => rfl
  | cons c text ih =>
      rw [positionsFrom]
      by_cases hc : c = '\n'
      · rw [restOfLine_cons_of_neg (by simp [goesOn, hc]),
          List.takeWhile_cons_of_neg (by simp [hc])]
      · have hrest := ih (p.next c)
        rw [line_next_of_ne hc] at hrest
        rw [restOfLine_cons_of_pos (by simp [goesOn, hc]), hrest,
          List.takeWhile_cons_of_pos (by simp [hc])]

/-- Behind a line feed no position is in the line. -/
theorem restOfLine_of_lt (h : number < p.line) (text : List Char) :
    restOfLine number (positionsFrom p text) = [] := by
  cases text with
  | nil => rfl
  | cons c text => exact restOfLine_cons_of_neg (by simp [goesOn]; omega) _

theorem lineAmong?_cons_self (p : Position) (c : Char) (chars : List Placed) :
    lineAmong? p.line ((p, c) :: chars) = some (c :: restOfLine p.line chars) := by
  simp [lineAmong?]

theorem lineAmong?_cons_of_ne (h : p.line ≠ number) (c : Char) (chars : List Placed) :
    lineAmong? number ((p, c) :: chars) = lineAmong? number chars := by
  simp [lineAmong?, h]

theorem lineAmong?_of_lt (h : number < p.line) (text : List Char) :
    lineAmong? number (positionsFrom p text) = none := by
  induction text generalizing p with
  | nil => rfl
  | cons c rest ih =>
      have hnext := line_le_line_next p c
      rw [positionsFrom, lineAmong?_cons_of_ne (by omega)]
      exact ih (by omega)

/-- What is found of a line: not its line feed, unless that is all there is. -/
def foundOf (line : List Char) : List Char := if line = ['\n'] then line else withoutFeed line

theorem foundOf_cons_of_ne (hc : c ≠ '\n') (rest : List Char) :
    foundOf (c :: (lines rest).headD []) = c :: rest.takeWhile (· ≠ '\n') := by
  have hmem : c :: (lines rest).headD [] ∈ lines (c :: rest) := by
    rw [lines_cons_of_ne hc]
    exact List.mem_cons_self
  rw [foundOf, if_neg (by simp [hc]), withoutFeed_eq_takeWhile (of_mem_lines hmem).2,
    List.takeWhile_cons_of_pos (by simp [hc]), takeWhile_headD_lines]

/-- Counting from the line of the first character, each line is found under its number. -/
theorem lineAmong?_positionsFrom (p : Position) (text : List Char) (k : Nat) :
    lineAmong? (p.line + k) (positionsFrom p text) = (lines text)[k]?.map foundOf := by
  induction text generalizing p k with
  | nil => rfl
  | cons c rest ih =>
      rw [positionsFrom]
      by_cases hc : c = '\n'
      · subst hc
        rw [lines_newline]
        cases k with
        | zero =>
            -- The line feed was taken as the start of its line, so nothing ends the line before it.
            rw [Nat.add_zero, lineAmong?_cons_self, restOfLine_of_lt (Nat.lt_succ_self p.line)]
            rfl
        | succ k =>
            have hrest := ih (p.next '\n') k
            rw [line_next_newline, Nat.add_right_comm, Nat.add_assoc] at hrest
            rw [lineAmong?_cons_of_ne (by omega), hrest, List.getElem?_cons_succ]
      · cases k with
        | zero =>
            have hmore := restOfLine_positionsFrom (p.next c) rest
            rw [line_next_of_ne hc] at hmore
            rw [Nat.add_zero, lineAmong?_cons_self, hmore, getElem?_zero_lines_of_ne hc,
              Option.map_some, foundOf_cons_of_ne hc]
        | succ k =>
            have hrest := ih (p.next c) (k + 1)
            rw [line_next_of_ne hc] at hrest
            rw [lineAmong?_cons_of_ne (by omega), hrest, getElem?_succ_lines_of_ne hc]

theorem line?_eq_map_numbered? (text : List Char) (number : Nat) :
    line? text number = (numbered? text number).map foundOf := by
  rw [line?_eq, positions]
  cases number with
  | zero => exact lineAmong?_of_lt Nat.zero_lt_one text
  | succ k =>
      have h := lineAmong?_positionsFrom .first text k
      rw [show Position.first.line = 1 from rfl, Nat.add_comm 1 k] at h
      exact h

theorem charsOn_positions (text : List Char) (number : Nat) :
    charsOn number (positions text) = (numbered? text number).getD [] := by
  rw [positions]
  cases number with
  | zero => exact charsOn_of_lt Nat.zero_lt_one text
  | succ k =>
      have h := charsOn_positionsFrom .first text k
      rw [show Position.first.line = 1 from rfl, Nat.add_comm 1 k] at h
      exact h

/-! ## Finding a line by offsets -/

/-- What a search for a line has come to: the offset at which the line starts, once that is known,
and the offset behind the last character that was passed. -/
structure LineSearch where
  start? : Option Nat
  stop : Nat

namespace LineSearch

/-- Before the first character. -/
def initial : LineSearch := ⟨none, 0⟩

/-- One round of the search, unless it breaks off before the character. -/
def round? (number : Nat) (s : LineSearch) (placed : Placed) : Option LineSearch :=
  let stop := placed.1.byte + placed.2.utf8Size
  match s.start? with
  | none => some ⟨if placed.1.line = number then some placed.1.byte else none, stop⟩
  | some start =>
      if placed.2 = '\n' ∨ placed.1.line ≠ number then none else some ⟨some start, stop⟩

/-- The rounds for some characters, up to the one that breaks off. -/
def run (number : Nat) (s : LineSearch) : List Placed → LineSearch
  | [] => s
  | placed :: rest =>
      match s.round? number placed with
      | none => s
      | some next => next.run number rest

/-- The part of the text that was found, if it consists of whole characters. -/
def slice? (s : LineSearch) (text : List Char) : Option (Option (List Char)) :=
  s.start?.map fun start => Text.slice? text start s.stop

theorem stop_eq (front : List Char) (c : Char) :
    (placeAfter front).byte + c.utf8Size = byteCount (front ++ [c]) := by
  rw [byteCount_append, byteCount_singleton]
  rfl

/-- Behind the start of the line the search passes what the line goes on with. -/
theorem run_of_start {start : Nat} (h : ArePlaced front chars) :
    run number ⟨some start, byteCount front⟩ chars =
      ⟨some start, byteCount (front ++ restOfLine number chars)⟩ := by
  induction chars generalizing front with
  | nil => simp [run, restOfLine]
  | cons placed chars ih =>
      obtain ⟨p, c⟩ := placed
      obtain ⟨rfl, hrest⟩ := arePlaced_cons_iff.1 h
      by_cases hgoes : c = '\n' ∨ (placeAfter front).line ≠ number
      · have hneg : ¬ goesOn number (placeAfter front, c) := by
          rcases hgoes with hc | hline
          · simp [goesOn, hc]
          · simp [goesOn, hline]
        rw [run, round?, restOfLine_cons_of_neg hneg, List.append_nil]
        simp only [if_pos hgoes]
      · have hpos : goesOn number (placeAfter front, c) := by
          rw [not_or, not_not] at hgoes
          simp [goesOn, hgoes]
        rw [run, round?, restOfLine_cons_of_pos hpos]
        simp only [if_neg hgoes, stop_eq]
        rw [ih hrest, List.append_assoc, List.singleton_append]

/-- The offsets that are found are those of the line. -/
theorem slice?_run (h : ArePlaced front chars) :
    (run number ⟨none, byteCount front⟩ chars).slice? (front ++ chars.map Prod.snd) =
      (lineAmong? number chars).map some := by
  induction chars generalizing front with
  | nil => rfl
  | cons placed chars ih =>
      obtain ⟨p, c⟩ := placed
      obtain ⟨rfl, hrest⟩ := arePlaced_cons_iff.1 h
      rw [run, round?]
      by_cases hline : (placeAfter front).line = number
      · subst hline
        have htext : front ++ ((placeAfter front, c) :: chars).map Prod.snd =
            front ++ (c :: restOfLine (placeAfter front).line chars) ++
              (chars.dropWhile (goesOn (placeAfter front).line)).map Prod.snd := by
          rw [List.append_assoc, List.cons_append, List.map_cons, ← map_snd_eq_restOfLine_append]
        have hstop : front ++ [c] ++ restOfLine (placeAfter front).line chars =
            front ++ (c :: restOfLine (placeAfter front).line chars) := by simp
        simp only [if_true, stop_eq]
        rw [run_of_start hrest, hstop, lineAmong?_cons_self, htext]
        exact congrArg some (slice?_byteCount front _ _)
      · have htext : front ++ ((placeAfter front, c) :: chars).map Prod.snd =
            front ++ [c] ++ chars.map Prod.snd := by simp
        simp only [if_neg hline, stop_eq]
        rw [htext, ih hrest, lineAmong?_cons_of_ne hline]

end LineSearch

/-! ## Agreement -/

/-- What the notions of a line have to do with each other in a text. -/
structure LinesAgree (text : List Char) : Prop where
  /-- The lines are not empty ... -/
  ne_nil : ∀ line ∈ lines text, line ≠ []
  /-- ... and together are the text. -/
  flatten : (lines text).flatten = text
  /-- In a line there is no line feed but the last character. -/
  feed : ∀ line ∈ lines text, '\n' ∉ line.dropLast
  /-- An iterator that cuts one line after the other off the text yields the lines. -/
  cut : ∀ parts, CutInto text parts ↔ parts = lines text
  /-- A line consists of the characters that are reported with its number, and with other numbers
  than those of lines no character is reported. -/
  reported : ∀ number, charsOn number (positions text) = (numbered? text number).getD []
  /-- An iterator that keeps in mind whether a line feed came last reports the same positions. -/
  counted : Counter.initial.report 0 text = positions text
  /-- A search by offsets finds what `line?` finds, in whole characters. -/
  sliced : ∀ number, (LineSearch.initial.run number (positions text)).slice? text =
    (line? text number).map some
  /-- Nothing is found under a number that is not that of a line. -/
  missing : ∀ number, line? text number = none ↔ number = 0 ∨ (lines text).length < number
  /-- A line is found without its line feed exactly if it has other characters. -/
  found : ∀ number, line? text number = (numbered? text number).map withoutFeed ↔
    numbered? text number ≠ some ['\n']
  /-- A line feed on its own is found as it is. -/
  empty : ∀ number, numbered? text number = some ['\n'] → line? text number = some ['\n']

theorem numbered?_eq_none_iff :
    numbered? text number = none ↔ number = 0 ∨ (lines text).length < number := by
  cases number with
  | zero => simp [numbered?]
  | succ k =>
      rw [numbered?, List.getElem?_eq_none_iff]
      omega

theorem foundOf_eq_withoutFeed_iff : foundOf line = withoutFeed line ↔ line ≠ ['\n'] := by
  by_cases h : line = ['\n']
  · subst h
    simp [foundOf, withoutFeed]
  · simp [foundOf, h]

/-- **Lines agree.** In every text the two notions of a line agree, and a line is found by its
number without its line feed, unless the line feed is all there is of it. -/
theorem linesAgree (text : List Char) : LinesAgree text := by
  constructor
  case ne_nil => exact fun line h => (of_mem_lines h).1
  case flatten => exact flatten_lines text
  case feed => exact fun line h => (of_mem_lines h).2
  case cut => exact fun _ => cutInto_iff
  case reported => exact charsOn_positions text
  case counted => exact Counter.report_initial text
  case sliced =>
    intro number
    have hplaced := arePlaced_positions text
    have htext : [] ++ (positions text).map Prod.snd = text := map_snd_positionsFrom .first text
    have h := @LineSearch.slice?_run [] _ number hplaced
    rwa [htext, ← line?_eq] at h
  case missing =>
    intro number
    rw [line?_eq_map_numbered?, Option.map_eq_none_iff, numbered?_eq_none_iff]
  case found =>
    intro number
    rw [line?_eq_map_numbered?]
    cases hline : numbered? text number with
    | none => simp
    | some line => simp [foundOf_eq_withoutFeed_iff]
  case empty =>
    intro number h
    rw [line?_eq_map_numbered?, h]
    rfl

/-- An empty line is not found as an empty text. -/
theorem line?_empty_ne : line? ['\n'] 1 ≠ (numbered? ['\n'] 1).map withoutFeed := by decide

end MessageCatalog.Text
