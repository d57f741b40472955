import Mathlib.Data.List.DropRight
import MessageCatalog.Proofs.Text.Lines
import MessageCatalog.Text.Diagnostic

set_option autoImplicit false

/-! # The first line of a text

A text is cut into lines by the positions of its characters. For its first line there is a simpler
rule (`firstLine`): it goes up to the first line feed, and a diagnostic leaves out the carriage
returns at its end. `diagnostic_of_line_one` is the diagnostic of an error in that line.
-/

namespace MessageCatalog.Text

variable {front rest text : List Char} {c : Char} {i : Nat}

/-! ## What is shown of the line -/

/-- The characters before the first line feed, without the carriage returns at the end of them. -/
def firstLine (text : List Char) : List Char :=
  (text.takeWhile (· ≠ '\n')).rdropWhile (· = '\r')

/-- The place is that of a carriage return which is left out at the end of the line. -/
def IsLeftOut (text : List Char) (i : Nat) : Prop :=
  (firstLine text).length ≤ i ∧ i < (text.takeWhile (· ≠ '\n')).length

instance (text : List Char) : DecidablePred (IsLeftOut text) := fun i =>
  inferInstanceAs (Decidable ((firstLine text).length ≤ i ∧ i < _))

theorem rdropWhile_append_of_neg {select : Char → Bool} (h : ∀ c ∈ front, ¬ select c)
    (rest : List Char) : (front ++ rest).rdropWhile select = front ++ rest.rdropWhile select := by
  induction rest using List.reverseRecOn with
  | nil =>
      rw [List.append_nil, List.rdropWhile_nil, List.append_nil]
      exact List.rdropWhile_eq_self_iff.2 fun hne => h _ (List.getLast_mem hne)
  | append_singleton rest c ih =>
      rw [← List.append_assoc, List.rdropWhile_concat, List.rdropWhile_concat]
      split
      · exact ih
      · rw [List.append_assoc]

/-- Other characters than line breaks are shown as they are. -/
theorem firstLine_append (h : ∀ c ∈ front, c ≠ '\n' ∧ c ≠ '\r') (rest : List Char) :
    firstLine (front ++ rest) = front ++ firstLine rest := by
  have hline : (front ++ rest).takeWhile (· ≠ '\n') = front ++ rest.takeWhile (· ≠ '\n') :=
    List.takeWhile_append_of_pos fun c hc => by simpa using (h c hc).1
  rw [firstLine, hline, rdropWhile_append_of_neg fun c hc => by simpa using (h c hc).2]
  rfl

/-- The characters of the line stand at the same places as in the text, and its line feed stands
behind them if no carriage return does. -/
theorem getElem?_firstLine (hle : i ≤ (firstLine text).length) (hshown : ¬ IsLeftOut text i)
    (hc : text[i]? = some c) : (firstLine text ++ ['\n'])[i]? = some c := by
  have hshort : firstLine text <+: text.takeWhile (· ≠ '\n') := List.rdropWhile_prefix _ _
  rcases Nat.lt_or_eq_of_le hle with hlt | rfl
  · obtain ⟨tail, htail⟩ := hshort.trans (List.takeWhile_prefix _)
    rw [← htail, List.getElem?_append_left hlt] at hc
    rw [List.getElem?_append_left hlt, hc]
  · have hlength : (firstLine text).length = (text.takeWhile (· ≠ '\n')).length := by
      have := hshort.length_le
      unfold IsLeftOut at hshown
      omega
    have hhead : (text.takeWhile (· ≠ '\n') ++ text.dropWhile (· ≠ '\n'))[
        (text.takeWhile (· ≠ '\n')).length]? = some c := by
      rw [List.takeWhile_append_dropWhile, ← hlength]
      exact hc
    rw [List.getElem?_append_right (Nat.le_refl _), Nat.sub_self, ← List.head?_eq_getElem?] at hhead
    have hfeed := List.head?_dropWhile_not (· ≠ '\n') text
    rw [hhead] at hfeed
    rw [List.getElem?_concat_length, show c = '\n' by simpa using hfeed]

/-- What is left out is a carriage return. -/
theorem getElem?_of_isLeftOut (h : IsLeftOut text i) : text[i]? = some '\r' := by
  obtain ⟨hle, hlt⟩ := h
  have hline : firstLine text ++ (text.takeWhile (· ≠ '\n')).rtakeWhile (· = '\r') =
      text.takeWhile (· ≠ '\n') := List.rdropWhile_append_rtakeWhile
  obtain ⟨c, hc⟩ : ∃ c, (text.takeWhile (· ≠ '\n'))[i]? = some c :=
    ⟨_, List.getElem?_eq_getElem hlt⟩
  have hreturn : c = '\r' := by
    rw [← hline, List.getElem?_append_right hle] at hc
    simpa using List.mem_rtakeWhile_imp (List.mem_of_getElem? hc)
  obtain ⟨tail, htail⟩ := List.takeWhile_prefix (l := text) (· ≠ '\n')
  rw [← htail, List.getElem?_append_left hlt, hc, hreturn]

/-! ## The line in the text -/

theorem dropWhile_lineEnd {line : List Char} (h : '\n' ∉ line) :
    line.dropWhile (fun c => c = '\r' || c = '\n') = line.dropWhile (· = '\r') := by
  induction line with
  | nil => rfl
  | cons c line ih =>
      rw [List.mem_cons, not_or] at h
      by_cases hc : c = '\r'
      · rw [List.dropWhile_cons_of_pos (by simp [hc]), List.dropWhile_cons_of_pos (by simp [hc]),
          ih h.2]
      · rw [List.dropWhile_cons_of_neg (by simp [hc, Ne.symm h.1]),
          List.dropWhile_cons_of_neg (by simp [hc])]

theorem trimLineEnd_eq {line : List Char} (h : '\n' ∉ line) :
    trimLineEnd line = line.rdropWhile (· = '\r') := by
  rw [trimLineEnd, dropWhile_lineEnd (by simpa using h)]
  rfl

/-- The line with the number one, as it is shown. -/
theorem exists_line?_one (h : text ≠ []) :
    ∃ line, line? text 1 = some line ∧ trimLineEnd line = firstLine text := by
  obtain ⟨c, rest, rfl⟩ := List.exists_cons_of_ne_nil h
  by_cases hc : c = '\n'
  · subst hc
    refine ⟨['\n'], line?_eq_map_numbered? _ 1, ?_⟩
    rw [firstLine, List.takeWhile_cons_of_neg (by simp)]
    rfl
  · refine ⟨c :: rest.takeWhile (· ≠ '\n'), ?_, ?_⟩
    · rw [line?_eq_map_numbered?, numbered?, getElem?_zero_lines_of_ne hc, Option.map_some,
        foundOf_cons_of_ne hc]
    · rw [firstLine, List.takeWhile_cons_of_pos (by simp [hc])]
      refine trimLineEnd_eq ?_
      rw [List.mem_cons, not_or]
      exact ⟨Ne.symm hc, fun hmem => by simpa using List.mem_takeWhile_imp hmem⟩

/-- The diagnostic of an error in the first line. -/
theorem diagnostic_of_line_one {e : SyntaxError} (hline : e.position.line = 1) {source : String}
    (hsource : source.toList ≠ []) (file : String) :
    e.diagnostic file source = e.heading file ++
      "1 | " ++ String.ofList (firstLine source.toList) ++ "\n" ++
      "  |" ++ spaces e.position.column ++ "^\n" ++ "  = " ++ e.message := by
  obtain ⟨line, hline?, htrim⟩ := exists_line?_one hsource
  rw [SyntaxError.diagnostic, hline, hline?]
  dsimp only
  rw [htrim]
  have hnumber : toString 1 = "1" := rfl
  have hmargin : spaces "1".length = " " := rfl
  have hfront : "1" ++ " | " = "1 | " := rfl
  have hbar : " " ++ " |" = "  |" := rfl
  have hequals : " " ++ " = " = "  = " := rfl
  rw [hnumber, hmargin, ← hfront, ← hbar, ← hequals]
  simp only [String.append_assoc]

end MessageCatalog.Text
