import Mathlib
import RichTable.Proofs.Json.Token

/-!
# JSON values read back

The text of a value, compact or indented, is read as that value (`Json.parse?_render`). The induction is
over values. What it shows of a value is `Reread`: the reader stops right behind its text, whatever
follows, as long as it has fuel for two steps per character.
-/

namespace RichTable.Json

/-- All numerals of the value are proper. -/
inductive Proper : Json → Prop where
  | null : Proper .null
  | bool (b : Bool) : Proper (.bool b)
  | number {n : Numeral} (h : n.Proper) : Proper (.number n)
  | string (s : Option String) : Proper (.string s)
  | array {items : List Json} (h : ∀ j ∈ items, Proper j) : Proper (.array items)
  | object {fields : List (Option String × Json)} (h : ∀ f ∈ fields, Proper f.2) : Proper (.object fields)

/-! ## White space -/

theorem skipSpace_cons {c : Char} (h : isSpace c = false) (cs : List Char) :
    skipSpace (c :: cs) = c :: cs := by
  simp [skipSpace, h]

theorem skipSpace_skipSpace (cs : List Char) : skipSpace (skipSpace cs) = skipSpace cs :=
  List.dropWhile_idempotent isSpace cs

theorem skipSpace_lineBreak (style : Style) (depth : Nat) (cs : List Char) :
    skipSpace (lineBreak style depth ++ cs) = skipSpace cs := by
  refine List.dropWhile_append_of_pos fun c hc => ?_
  cases style with
  | compact => cases hc
  | indented =>
    rcases List.mem_cons.1 hc with rfl | hc
    · rfl
    · rw [List.eq_of_mem_replicate hc]
      rfl

theorem breaks_lineBreak (style : Style) (depth : Nat) {cs : List Char} (h : Breaks cs) :
    Breaks (lineBreak style depth ++ cs) := by
  cases style with
  | compact => exact h
  | indented =>
    intro c hc
    obtain rfl : '\n' = c := by simpa [lineBreak] using hc
    decide

theorem readValue_congr {cs cs' : List Char} (h : skipSpace cs = skipSpace cs') (fuel : Nat) :
    readValue fuel cs = readValue fuel cs' := by
  cases fuel with
  | zero => rw [readValue, readValue]
  | succ fuel => rw [readValue, readValue, h]

theorem readItems_congr {cs cs' : List Char} (h : skipSpace cs = skipSpace cs') (fuel : Nat) :
    readItems fuel cs = readItems fuel cs' := by
  cases fuel with
  | zero => rw [readItems, readItems]
  | succ fuel => rw [readItems, readItems, readValue_congr h]

theorem readFields_congr {cs cs' : List Char} (h : skipSpace cs = skipSpace cs') (fuel : Nat) :
    readFields fuel cs = readFields fuel cs' := by
  cases fuel with
  | zero => rw [readFields, readFields]
  | succ fuel => rw [readFields, readFields, h]

/-! ## Items and fields -/

/-- The reader gives the value back and stops behind it. -/
def Reread (style : Style) (j : Json) : Prop :=
  ∀ depth fuel rest, Breaks rest → 2 * (chars style depth j).length ≤ fuel →
    readValue fuel (chars style depth j ++ rest) = some (j, rest)

variable {style : Style} {rest : List Char}

theorem breaks_comma (rest : List Char) : Breaks (',' :: rest) := by
  intro c hc
  obtain rfl : ',' = c := by simpa using hc
  decide

theorem breaks_bracket (rest : List Char) : Breaks (']' :: rest) := by
  intro c hc
  obtain rfl : ']' = c := by simpa using hc
  decide

theorem breaks_brace (rest : List Char) : Breaks ('\x7d' :: rest) := by
  intro c hc
  obtain rfl : '\x7d' = c := by simpa using hc
  decide

/-- An item of an array, which stands on a line of its own. -/
theorem Reread.item {j : Json} (h : Reread style j) (depth : Nat) {fuel : Nat} (hr : Breaks rest)
    (hf : 2 * (chars style depth j).length ≤ fuel) :
    readValue fuel (lineBreak style depth ++ (chars style depth j ++ rest)) = some (j, rest) := by
  rw [readValue_congr (skipSpace_lineBreak style depth _)]
  exact h depth fuel rest hr hf

theorem readItems_last {fuel : Nat} {cs behind : List Char} {j : Json}
    (value : readValue fuel cs = some (j, behind)) (close : skipSpace behind = ']' :: rest) :
    readItems (fuel + 1) cs = some ([j], rest) := by
  simp [readItems, value, close]

theorem readItems_more {fuel : Nat} {cs behind more : List Char} {j : Json} {js : List Json}
    (value : readValue fuel cs = some (j, behind)) (comma : skipSpace behind = ',' :: more)
    (items : readItems fuel more = some (js, rest)) : readItems (fuel + 1) cs = some (j :: js, rest) := by
  simp [readItems, value, comma, items]

theorem readItems_itemChars (depth close : Nat) {j : Json} {js : List Json}
    (h : ∀ i ∈ j :: js, Reread style i) {fuel : Nat}
    (hf : 2 * (itemChars style depth (j :: js)).length + 1 ≤ fuel) :
    readItems fuel (itemChars style depth (j :: js) ++ (lineBreak style close ++ ']' :: rest)) =
      some (j :: js, rest) := by
  induction js generalizing j fuel with
  | nil =>
    obtain ⟨fuel, rfl⟩ : ∃ k, fuel = k + 1 := ⟨fuel - 1, by omega⟩
    simp only [itemChars, List.append_assoc, List.length_append] at hf ⊢
    refine readItems_last ((h j List.mem_cons_self).item depth
      (breaks_lineBreak style close (breaks_bracket rest)) (by omega)) ?_
    rw [skipSpace_lineBreak, skipSpace_cons (by decide)]
  | cons i is ih =>
    obtain ⟨fuel, rfl⟩ : ∃ k, fuel = k + 1 := ⟨fuel - 1, by omega⟩
    simp only [itemChars, List.append_assoc, List.cons_append, List.length_append, List.length_cons]
      at hf ⊢
    exact readItems_more ((h j List.mem_cons_self).item depth (breaks_comma _) (by omega))
      (skipSpace_cons (by decide) _) (ih (fun k hk => h k (List.mem_cons_of_mem j hk)) (by omega))

theorem readFields_last {fuel : Nat} {cs name colon behind : List Char} {k : Option String} {j : Json}
    (quote : skipSpace cs = '"' :: name) (string : scanString name = some (k, ':' :: colon))
    (value : readValue fuel colon = some (j, behind)) (close : skipSpace behind = '\x7d' :: rest) :
    readFields (fuel + 1) cs = some ([(k, j)], rest) := by
  simp [readFields, quote, string, skipSpace_cons (c := ':') (by decide), value, close]

theorem readFields_more {fuel : Nat} {cs name colon behind more : List Char} {k : Option String}
    {j : Json} {fs : List (Option String × Json)} (quote : skipSpace cs = '"' :: name)
    (string : scanString name = some (k, ':' :: colon))
    (value : readValue fuel colon = some (j, behind)) (comma : skipSpace behind = ',' :: more)
    (fields : readFields fuel more = some (fs, rest)) :
    readFields (fuel + 1) cs = some ((k, j) :: fs, rest) := by
  simp [readFields, quote, string, skipSpace_cons (c := ':') (by decide), value, comma, fields]

/-- A field of an object, which stands on a line of its own. -/
theorem Reread.field {j : Json} (h : Reread style j) (k : Option String) (depth : Nat)
    (hr : Breaks rest) (fuel : Nat) (hf : 2 * (chars style depth j).length ≤ fuel) : ∃ name behind,
      skipSpace (lineBreak style depth ++ (quoted k ++ (colon style ++ (chars style depth j ++ rest)))) =
        '"' :: name ∧
      scanString name = some (k, ':' :: behind) ∧ readValue fuel behind = some (j, rest) := by
  have value := h depth fuel rest hr hf
  obtain ⟨behind, hbehind, same⟩ : ∃ behind, colon style ++ (chars style depth j ++ rest) = ':' :: behind ∧
      skipSpace behind = skipSpace (chars style depth j ++ rest) := by
    cases style with
    | compact => exact ⟨_, rfl, rfl⟩
    | indented => exact ⟨' ' :: (chars .indented depth j ++ rest), rfl, rfl⟩
  obtain ⟨name, hname, string⟩ := scanString_quoted k (':' :: behind)
  refine ⟨name, behind, ?_, string, (readValue_congr same fuel).trans value⟩
  rw [skipSpace_lineBreak, hbehind, hname, skipSpace_cons (by decide)]

theorem readFields_fieldChars (depth close : Nat) {f : Option String × Json}
    {fs : List (Option String × Json)} (h : ∀ g ∈ f :: fs, Reread style g.2) {fuel : Nat}
    (hf : 2 * (fieldChars style depth (f :: fs)).length + 1 ≤ fuel) :
    readFields fuel (fieldChars style depth (f :: fs) ++ (lineBreak style close ++ '\x7d' :: rest)) =
      some (f :: fs, rest) := by
  induction fs generalizing f fuel with
  | nil =>
    obtain ⟨fuel, rfl⟩ : ∃ k, fuel = k + 1 := ⟨fuel - 1, by omega⟩
    have head : Reread style f.2 := h f List.mem_cons_self
    simp only [fieldChars, List.append_assoc, List.length_append] at hf ⊢
    obtain ⟨name, behind, quote, string, value⟩ := head.field f.1 depth
      (breaks_lineBreak style close (breaks_brace rest)) fuel (by omega)
    refine readFields_last quote string value ?_
    rw [skipSpace_lineBreak, skipSpace_cons (by decide)]
  | cons g gs ih =>
    obtain ⟨fuel, rfl⟩ : ∃ k, fuel = k + 1 := ⟨fuel - 1, by omega⟩
    have head : Reread style f.2 := h f List.mem_cons_self
    simp only [fieldChars, List.append_assoc, List.cons_append, List.length_append, List.length_cons]
      at hf ⊢
    obtain ⟨name, behind, quote, string, value⟩ := head.field f.1 depth
      (breaks_comma (fieldChars style depth (g :: gs) ++ (lineBreak style close ++ '\x7d' :: rest)))
      fuel (by omega)
    exact readFields_more quote string value (skipSpace_cons (by decide) _)
      (ih (fun k hk => h k (List.mem_cons_of_mem f hk)) (by omega))

/-! ## Values -/

theorem readValue_numeral {c : Char} (h : c = '-' ∨ ∃ d, c = Digit.toChar d) (fuel : Nat)
    (cs : List Char) : readValue (fuel + 1) (c :: cs) =
      (scanNumeral (c :: cs)).map fun (n, rest) => (.number n, rest) := by
  rcases h with rfl | ⟨d, rfl⟩
  · simp [readValue, skipSpace, isSpace]
  · fin_cases d <;> simp [readValue, skipSpace, isSpace, Digit.toChar]

/-- The text of a value starts with neither white space nor a closing bracket. -/
theorem Proper.chars_eq_cons {j : Json} (h : j.Proper) (style : Style) (depth : Nat) :
    ∃ c cs, chars style depth j = c :: cs ∧ isSpace c = false ∧ c ≠ ']' := by
  cases h with
  | null => exact ⟨'n', "ull".toList, by rw [chars]; decide +kernel, by decide, by decide⟩
  | bool b =>
    cases b with
    | true => exact ⟨'t', "rue".toList, by rw [chars]; decide +kernel, by decide, by decide⟩
    | false => exact ⟨'f', "alse".toList, by rw [chars]; decide +kernel, by decide, by decide⟩
  | number h =>
    obtain ⟨c, cs, heq, hc⟩ := h.text_eq_cons
    refine ⟨c, cs, by rw [chars, heq], ?_⟩
    rcases hc with rfl | ⟨d, rfl⟩
    · decide
    · clear heq
      revert d
      decide
  | string s =>
    obtain ⟨cs, heq, -⟩ := scanString_quoted s []
    exact ⟨'"', cs, by rw [chars, ← heq, List.append_nil], by decide, by decide⟩
  | @array items _ =>
    cases items with
    | nil => exact ⟨'[', _, by rw [chars], by decide, by decide⟩
    | cons i is => exact ⟨'[', _, by rw [chars]; rfl, by decide, by decide⟩
  | @object fields _ =>
    cases fields with
    | nil => exact ⟨'\x7b', _, by rw [chars], by decide, by decide⟩
    | cons f fs => exact ⟨'\x7b', _, by rw [chars]; rfl, by decide, by decide⟩

/-- An array with items starts with the text of the first one. -/
theorem Proper.skipSpace_itemChars {j : Json} (h : j.Proper) (style : Style) (js : List Json)
    (depth : Nat) (cs : List Char) :
    ∃ c more, skipSpace (itemChars style depth (j :: js) ++ cs) = c :: more ∧ c ≠ ']' := by
  obtain ⟨c, text, heq, space, hc⟩ := h.chars_eq_cons style depth
  cases js with
  | nil =>
    rw [itemChars, List.append_assoc, skipSpace_lineBreak, heq]
    exact ⟨c, _, skipSpace_cons space _, hc⟩
  | cons i is =>
    simp only [itemChars, List.append_assoc]
    rw [skipSpace_lineBreak, heq]
    exact ⟨c, _, skipSpace_cons space _, hc⟩

/-- An object with fields starts with the name of the first one. -/
theorem skipSpace_fieldChars (style : Style) (f : Option String × Json)
    (fs : List (Option String × Json)) (depth : Nat) (cs : List Char) :
    ∃ more, skipSpace (fieldChars style depth (f :: fs) ++ cs) = '"' :: more := by
  have quote : ∀ cs, ∃ more, skipSpace (quoted f.1 ++ cs) = '"' :: more := fun cs => by
    obtain ⟨more, heq, -⟩ := scanString_quoted f.1 cs
    exact ⟨more, by rw [heq, skipSpace_cons (by decide)]⟩
  cases fs with
  | nil =>
    simp only [fieldChars, List.append_assoc]
    rw [skipSpace_lineBreak]
    exact quote _
  | cons g gs =>
    simp only [fieldChars, List.append_assoc]
    rw [skipSpace_lineBreak]
    exact quote _

theorem readValue_array {fuel : Nat} {c : Char} {cs more : List Char} {items : List Json}
    (first : skipSpace cs = c :: more) (hc : c ≠ ']')
    (h : readItems fuel cs = some (items, rest)) :
    readValue (fuel + 1) ('[' :: cs) = some (.array items, rest) := by
  rw [← readItems_congr (skipSpace_skipSpace cs), first] at h
  simp [readValue, skipSpace_cons (c := '[') (by decide), first, hc, h]

theorem readValue_object {fuel : Nat} {cs more : List Char} {fields : List (Option String × Json)}
    (first : skipSpace cs = '"' :: more) (h : readFields fuel cs = some (fields, rest)) :
    readValue (fuel + 1) ('\x7b' :: cs) = some (.object fields, rest) := by
  rw [← readFields_congr (skipSpace_skipSpace cs), first] at h
  simp [readValue, skipSpace_cons (c := '\x7b') (by decide), first, h]

theorem Proper.reread {j : Json} (h : j.Proper) (style : Style) : Reread style j := by
  have fueled {j : Json} (h : j.Proper) {depth fuel : Nat}
      (hf : 2 * (chars style depth j).length ≤ fuel) : ∃ k, fuel = k + 1 := by
    obtain ⟨c, cs, heq, -⟩ := h.chars_eq_cons style depth
    rw [heq, List.length_cons] at hf
    exact ⟨fuel - 1, by omega⟩
  induction h with
  | null =>
    intro depth fuel rest _ hf
    obtain ⟨fuel, rfl⟩ := fueled .null hf
    rw [chars]
    simp [readValue, skipSpace, isSpace]
  | bool b =>
    intro depth fuel rest _ hf
    obtain ⟨fuel, rfl⟩ := fueled (.bool b) hf
    cases b <;> rw [chars] <;> simp [readValue, skipSpace, isSpace]
  | number h =>
    intro depth fuel rest hr hf
    obtain ⟨fuel, rfl⟩ := fueled (.number h) hf
    obtain ⟨c, cs, heq, hc⟩ := h.text_eq_cons
    have numeral := scanNumeral_text h hr
    rw [chars, heq, List.cons_append, readValue_numeral hc, ← List.cons_append, ← heq, numeral]
    rfl
  | string s =>
    intro depth fuel rest _ hf
    obtain ⟨fuel, rfl⟩ := fueled (.string s) hf
    obtain ⟨cs, heq, string⟩ := scanString_quoted s rest
    rw [chars, heq]
    simp [readValue, skipSpace, isSpace, string]
  | @array items h ih =>
    intro depth fuel rest _ hf
    obtain ⟨fuel, rfl⟩ := fueled (.array h) hf
    cases items with
    | nil =>
      rw [chars]
      simp [readValue, skipSpace, isSpace]
    | cons j js =>
      simp only [chars, List.cons_append, List.append_assoc, List.nil_append, List.length_cons,
        List.length_append] at hf ⊢
      obtain ⟨c, more, first, hc⟩ := (h j List.mem_cons_self).skipSpace_itemChars style js
        (depth + 1) (lineBreak style depth ++ ']' :: rest)
      exact readValue_array first hc (readItems_itemChars (depth + 1) depth ih (by omega))
  | @object fields h ih =>
    intro depth fuel rest _ hf
    obtain ⟨fuel, rfl⟩ := fueled (.object h) hf
    cases fields with
    | nil =>
      rw [chars]
      simp [readValue, skipSpace, isSpace]
    | cons f fs =>
      simp only [chars, List.cons_append, List.append_assoc, List.nil_append, List.length_cons,
        List.length_append] at hf ⊢
      obtain ⟨more, first⟩ := skipSpace_fieldChars style f fs (depth + 1)
        (lineBreak style depth ++ '\x7d' :: rest)
      exact readValue_object first (readFields_fieldChars (depth + 1) depth ih (by omega))

/-- The text of a value is read as that value. -/
theorem Proper.parse?_render {j : Json} (h : j.Proper) (style : Style) :
    parse? (j.render style) = some j := by
  have read := h.reread style 0 (2 * (chars style 0 j).length + 2) [] (fun _ hc => by cases hc) (by omega)
  rw [List.append_nil] at read
  rw [parse?, render, String.toList_ofList, parseChars?, read]
  rfl

end RichTable.Json
