import GroovyIndex.Json.Reader
import GroovyIndex.Json.Writer

/-!
# Reading back what was written

The reader gives back every value that the writer puts into text, as long as its numbers are
integers. A value is read from the front of a longer text, so each law says what is left: numbers
need a delimiter behind them. Fuel is bounded by twice the length of the text.
-/

namespace GroovyIndex.Json

/-! ### Numbers -/

/-- What may follow a value: nothing, or the character that ends an item or a field. -/
def Delimited (rest : List Char) : Prop := ∀ c ∈ rest.head?, c = ',' ∨ c = ']' ∨ c = '}'

theorem delimited_nil : Delimited [] := by
  simp [Delimited]

theorem digitsValue_toDigits (n : Nat) : digitsValue (Nat.toDigits 10 n) = n :=
  Nat.ofDigitChars_toDigits (by decide) (by decide)

theorem isDigit_of_mem_toDigits {n : Nat} {c : Char} (h : c ∈ Nat.toDigits 10 n) :
    c.isDigit = true :=
  Nat.isDigit_of_mem_toDigits (by decide) (by decide) h

/-- The digits of a positive number do not start with a zero. -/
theorem head?_toDigits_ne {n : Nat} (h : 0 < n) : (Nat.toDigits 10 n).head? ≠ some '0' := by
  induction n using Nat.strongRecOn with
  | ind n ih =>
    by_cases hn : n < 10
    · rw [Nat.toDigits_of_lt_base hn]
      have : ∀ k < 10, 0 < k → [Nat.digitChar k].head? ≠ some '0' := by decide
      exact this n hn h
    · have hne : Nat.toDigits 10 (n / 10) ≠ [] := Nat.toDigits_ne_nil
      rw [Nat.toDigits_of_base_le (by decide) (by omega), List.head?_append,
        List.head?_eq_some_head hne, Option.some_or, ← List.head?_eq_some_head hne]
      exact ih (n / 10) (by omega) (by omega)

theorem Delimited.takeWhile_isDigit {rest : List Char} (h : Delimited rest) :
    rest.takeWhile Char.isDigit = [] ∧ rest.dropWhile Char.isDigit = rest := by
  cases rest with
  | nil => simp
  | cons c rest =>
    have hc : c.isDigit = false := by
      rcases h c rfl with rfl | rfl | rfl <;> decide
    simp [hc]

/-- The digits of a number are read as its whole part. -/
theorem wholePart_toDigits (n : Nat) {rest : List Char} (h : Delimited rest) :
    wholePart (Nat.toDigits 10 n ++ rest) = some (Nat.toDigits 10 n, rest) := by
  by_cases hn : n = 0
  · subst hn
    rfl
  · have hdigits : ∀ c ∈ Nat.toDigits 10 n, c.isDigit = true := fun c => isDigit_of_mem_toDigits
    have htake : (Nat.toDigits 10 n ++ rest).takeWhile Char.isDigit = Nat.toDigits 10 n := by
      rw [List.takeWhile_append_of_pos hdigits, h.takeWhile_isDigit.1, List.append_nil]
    have hdrop : (Nat.toDigits 10 n ++ rest).dropWhile Char.isDigit = rest := by
      rw [List.dropWhile_append_of_pos hdigits, h.takeWhile_isDigit.2]
    have hhead := head?_toDigits_ne (Nat.pos_of_ne_zero hn)
    unfold wholePart
    split
    · next heq =>
      cases hd : Nat.toDigits 10 n with
      | nil => exact absurd hd Nat.toDigits_ne_nil
      | cons c ds =>
        rw [hd] at heq hhead
        simp_all
    · rw [htake, hdrop]
      split
      · next hnil => exact absurd hnil Nat.toDigits_ne_nil
      · rfl

/-- A delimiter starts no fraction. -/
theorem fractionPart_of_delimited {rest : List Char} (h : Delimited rest) :
    fractionPart rest = some ([], rest) := by
  cases rest with
  | nil => rfl
  | cons c rest => rcases h c rfl with rfl | rfl | rfl <;> rfl

/-- A delimiter starts no exponent. -/
theorem exponentPart_of_delimited {rest : List Char} (h : Delimited rest) :
    exponentPart rest = some ([], rest) := by
  cases rest with
  | nil => rfl
  | cons c rest => rcases h c rfl with rfl | rfl | rfl <;> rfl

/-- The digits of a number are read as the number, with either sign; a zero has none. -/
theorem unsigned_toDigits (negative : Bool) (n : Nat) (hn : negative = true → 0 < n)
    {rest : List Char} (h : Delimited rest) :
    unsigned negative (Nat.toDigits 10 n ++ rest) =
      some (.integer (if negative then -(n : Int) else n), rest) := by
  simp only [unsigned, wholePart_toDigits n h, fractionPart_of_delimited h,
    exponentPart_of_delimited h, digitsValue_toDigits, Option.bind_eq_bind, Option.bind_some]
  cases negative with
  | false => simp
  | true =>
    have hne : n ≠ 0 := Nat.ne_of_gt (hn rfl)
    simp [hne]

theorem exists_head_toDigits (n : Nat) :
    ∃ c ds, Nat.toDigits 10 n = c :: ds ∧ c.isDigit = true := by
  cases hd : Nat.toDigits 10 n with
  | nil => exact absurd hd Nat.toDigits_ne_nil
  | cons c ds => exact ⟨c, ds, rfl, isDigit_of_mem_toDigits (hd ▸ List.mem_cons_self)⟩

/-- A written integer is read back. -/
theorem number_write (i : Int) {rest : List Char} (h : Delimited rest) :
    number (write (.integer i) ++ rest) = some (.integer i, rest) := by
  cases i with
  | ofNat n =>
    rw [write]
    unfold number
    split
    · next heq =>
      -- No digit is a sign.
      obtain ⟨c, ds, hd, hc⟩ := exists_head_toDigits n
      rw [hd, List.cons_append, List.cons.injEq] at heq
      rw [heq.1] at hc
      cases hc
    · exact unsigned_toDigits false n nofun h
  | negSucc n =>
    rw [write, List.cons_append]
    exact unsigned_toDigits true (n + 1) (fun _ => Nat.succ_pos n) h

/-! ### Strings -/

theorem hexCode_hexDigit : ∀ n < 32,
    hexCode '0' '0' (hexDigit (n / 16)) (hexDigit (n % 16)) = some n := by
  decide

/-- A code in front of what a literal goes on with. -/
private def consCode (code : Nat) (read : Option (List Nat × List Char)) :
    Option (List Nat × List Char) := do
  let (codes, rest) ← read
  return (code :: codes, rest)

private theorem stringCodes_unescape {letter : Char} {code : Nat} (hu : letter ≠ 'u')
    (h : unescape letter = some code) (rest : List Char) :
    stringCodes ('\\' :: letter :: rest) = consCode code (stringCodes rest) := by
  rw [stringCodes, h]
  · rfl
  · simp [hu]

private theorem stringCodes_hexCode {a b c d : Char} {code : Nat} (h : hexCode a b c d = some code)
    (rest : List Char) :
    stringCodes ('\\' :: 'u' :: a :: b :: c :: d :: rest) = consCode code (stringCodes rest) := by
  rw [stringCodes, h]
  rfl

private theorem stringCodes_raw {c : Char} (hquote : c ≠ '"') (hslash : c ≠ '\\')
    (h : ¬ c.toNat < 32) (rest : List Char) :
    stringCodes (c :: rest) = consCode c.toNat (stringCodes rest) := by
  rw [stringCodes, if_neg h]
  · rfl
  all_goals simp_all

/-- A character in a literal is read as its code. -/
theorem stringCodes_escape (c : Char) (rest : List Char) :
    stringCodes (escape c ++ rest) = consCode c.toNat (stringCodes rest) := by
  by_cases hquote : c = '"'
  · subst hquote
    exact stringCodes_unescape (by decide) rfl rest
  by_cases hslash : c = '\\'
  · subst hslash
    exact stringCodes_unescape (by decide) rfl rest
  unfold escape
  simp only [beq_iff_eq, hquote, hslash, ↓reduceIte]
  -- The control characters that have a letter of their own.
  iterate 5
    split
    · next h =>
      subst h
      exact stringCodes_unescape (by decide) rfl rest
  split
  · next h => exact stringCodes_hexCode (hexCode_hexDigit c.toNat h) rest
  · next h => exact stringCodes_raw hquote hslash h rest

/-- A literal is read as the codes of its text. -/
theorem stringCodes_literal (cs rest : List Char) :
    stringCodes (cs.flatMap escape ++ '"' :: rest) = some (cs.map Char.toNat, rest) := by
  induction cs with
  | nil => rfl
  | cons c cs ih =>
    rw [List.flatMap_cons, List.append_assoc, stringCodes_escape, ih]
    rfl

/-- A character is no half of a surrogate pair. -/
theorem charsOfCodes_map_toNat (cs : List Char) : charsOfCodes (cs.map Char.toNat) = some cs := by
  induction cs with
  | nil => rfl
  | cons c cs ih =>
    have hvalid : c.toNat < 0xD800 ∨ 0xDFFF < c.toNat := by
      rcases c.valid with h | h
      · exact Or.inl h
      · exact Or.inr h.1
    have hhigh : isHighSurrogate c.toNat = false := by
      simp only [isHighSurrogate, Bool.and_eq_false_iff, decide_eq_false_iff_not]
      omega
    have hlow : isLowSurrogate c.toNat = false := by
      simp only [isLowSurrogate, Bool.and_eq_false_iff, decide_eq_false_iff_not]
      omega
    rw [List.map_cons, charsOfCodes.eq_def]
    simp [hhigh, hlow, ih]

/-- A written string literal is read back. -/
theorem stringBody_writeText (text : Option String) (rest : List Char) :
    ∃ body, writeText text ++ rest = '"' :: body ∧ stringBody body = some (text, rest) := by
  cases text with
  | some s =>
    refine ⟨s.toList.flatMap escape ++ '"' :: rest, by simp [writeText], ?_⟩
    simp [stringBody, stringCodes_literal, charsOfCodes_map_toNat]
  | none => exact ⟨_, rfl, rfl⟩

/-! ### Values -/

mutual
/-- No number of the value has a fraction or an exponent. -/
def isExact : Json → Bool
  | .decimal _ => false
  | .array items => areExact items
  | .object fields => fieldsAreExact fields
  | _ => true
/-- No number of the values has a fraction or an exponent. -/
def areExact : List Json → Bool
  | [] => true
  | item :: rest => item.isExact && areExact rest
/-- No number of the fields has a fraction or an exponent. -/
def fieldsAreExact : List (Option String × Json) → Bool
  | [] => true
  | (_, value) :: rest => value.isExact && fieldsAreExact rest
end

/-- The first character of a value tells it from a blank and from the end of an array. -/
theorem exists_head_write {j : Json} (h : j.isExact = true) :
    ∃ c cs, j.write = c :: cs ∧ isBlank c = false ∧ c ≠ ']' := by
  have hdigits (n : Nat) : ∃ c cs, Nat.toDigits 10 n = c :: cs ∧ isBlank c = false ∧ c ≠ ']' := by
    obtain ⟨c, ds, hd, hc⟩ := exists_head_toDigits n
    refine ⟨c, ds, hd, ?_, ?_⟩
    · rw [Bool.eq_false_iff]
      intro hblank
      simp only [isBlank, Bool.or_eq_true, beq_iff_eq] at hblank
      rcases hblank with ((rfl | rfl) | rfl) | rfl <;> cases hc
    · rintro rfl
      cases hc
  unfold write
  split
  case h_4 n => exact hdigits n
  case h_6 => cases h
  case h_7 text => cases text <;> exact ⟨_, _, rfl, rfl, by decide⟩
  all_goals exact ⟨_, _, rfl, rfl, by decide⟩

theorem exists_head_integer (i : Int) :
    ∃ c cs, write (.integer i) = c :: cs ∧ (c = '-' ∨ c.isDigit = true) := by
  cases i with
  | ofNat n =>
    obtain ⟨c, ds, hd, hc⟩ := exists_head_toDigits n
    exact ⟨c, ds, hd, Or.inr hc⟩
  | negSucc n => exact ⟨_, _, rfl, Or.inl rfl⟩

theorem skipBlanks_cons {c : Char} (h : isBlank c = false) (cs : List Char) :
    skipBlanks (c :: cs) = c :: cs := by
  simp [skipBlanks, h]

/-- A digit or a sign starts a number. -/
theorem value_number {c : Char} (h : c = '-' ∨ c.isDigit = true) (fuel : Nat) (cs : List Char) :
    value (fuel + 1) (c :: cs) = number (c :: cs) := by
  have hne : ∀ d ∈ [' ', '\n', '\t', '\r', 'n', 't', 'f', '"', '[', '{'], c ≠ d := by
    rintro d hd rfl
    rcases h with rfl | h
    · revert hd
      decide
    · simp only [List.mem_cons, List.not_mem_nil, or_false] at hd
      rcases hd with rfl | rfl | rfl | rfl | rfl | rfl | rfl | rfl | rfl | rfl <;> cases h
  have hblank : isBlank c = false := by
    simp [isBlank, hne]
  rw [value, skipBlanks_cons hblank]
  split <;> simp_all

/-- An array that does not end at once has items. -/
theorem value_array {c : Char} (hblank : isBlank c = false) (hend : c ≠ ']') (fuel : Nat)
    (cs : List Char) :
    value (fuel + 1) ('[' :: c :: cs) =
      (elements fuel (c :: cs)).map fun (items, rest) => (.array items, rest) := by
  rw [value, skipBlanks_cons (by decide)]
  simp only [skipBlanks_cons hblank]
  split
  · simp_all
  · cases elements fuel (c :: cs) <;> rfl

/-- An object that does not end at once has fields. -/
theorem value_object (fuel : Nat) (cs : List Char) :
    value (fuel + 1) ('{' :: '"' :: cs) =
      (members fuel ('"' :: cs)).map fun (fields, rest) => (.object fields, rest) := by
  rw [value, skipBlanks_cons (by decide)]
  simp only [skipBlanks_cons (show isBlank '"' = false by decide)]
  cases members fuel ('"' :: cs) <;> rfl

/-- A quote starts a string. -/
theorem value_string (fuel : Nat) (cs : List Char) :
    value (fuel + 1) ('"' :: cs) =
      (stringBody cs).map fun (text, rest) => (.string text, rest) := by
  rw [value, skipBlanks_cons (by decide)]
  cases h : stringBody cs <;> simp [h]

theorem elements_last {fuel : Nat} {cs rest : List Char} {item : Json}
    (h : value fuel cs = some (item, ']' :: rest)) :
    elements (fuel + 1) cs = some ([item], rest) := by
  simp [elements, h, skipBlanks_cons (show isBlank ']' = false by decide)]

theorem elements_more {fuel : Nat} {cs cs' rest : List Char} {item : Json} {items : List Json}
    (h : value fuel cs = some (item, ',' :: cs')) (hmore : elements fuel cs' = some (items, rest)) :
    elements (fuel + 1) cs = some (item :: items, rest) := by
  simp [elements, h, hmore, skipBlanks_cons (show isBlank ',' = false by decide)]

theorem members_last {fuel : Nat} {cs cs' rest : List Char} {name : Option String} {field : Json}
    (hname : stringBody cs = some (name, ':' :: cs'))
    (h : value fuel cs' = some (field, '}' :: rest)) :
    members (fuel + 1) ('"' :: cs) = some ([(name, field)], rest) := by
  simp [members, hname, h, skipBlanks_cons (show isBlank '"' = false by decide),
    skipBlanks_cons (show isBlank ':' = false by decide),
    skipBlanks_cons (show isBlank '}' = false by decide)]

theorem members_more {fuel : Nat} {cs cs' cs'' rest : List Char} {name : Option String}
    {field : Json} {fields : List (Option String × Json)}
    (hname : stringBody cs = some (name, ':' :: cs'))
    (h : value fuel cs' = some (field, ',' :: cs''))
    (hmore : members fuel cs'' = some (fields, rest)) :
    members (fuel + 1) ('"' :: cs) = some ((name, field) :: fields, rest) := by
  simp [members, hname, h, hmore, skipBlanks_cons (show isBlank '"' = false by decide),
    skipBlanks_cons (show isBlank ':' = false by decide),
    skipBlanks_cons (show isBlank ',' = false by decide)]

mutual
/-- A written value is read back from the front of a text. -/
theorem value_write : ∀ (j : Json) {fuel : Nat} {rest : List Char}, j.isExact = true →
    2 * j.write.length ≤ fuel → Delimited rest → value fuel (j.write ++ rest) = some (j, rest)
  | j, 0, rest, hexact, hfuel, _ => by
    obtain ⟨c, cs, hw, -⟩ := exists_head_write hexact
    simp [hw] at hfuel
  | .null, fuel + 1, rest, _, _, _ => rfl
  | .bool true, fuel + 1, rest, _, _, _ => rfl
  | .bool false, fuel + 1, rest, _, _, _ => rfl
  | .integer i, fuel + 1, rest, _, _, hrest => by
    have hread := number_write i hrest
    obtain ⟨c, cs, hw, hc⟩ := exists_head_integer i
    rw [hw, List.cons_append] at hread ⊢
    rw [value_number hc, hread]
  | .decimal literal, fuel + 1, rest, hexact, _, _ => by cases hexact
  | .string text, fuel + 1, rest, _, _, _ => by
    obtain ⟨body, hbody, hread⟩ := stringBody_writeText text rest
    rw [write, hbody, value_string, hread]
    rfl
  | .array [], fuel + 1, rest, _, _, _ => rfl
  | .array (item :: items), fuel + 1, rest, hexact, hfuel, _ => by
    have hitem : item.isExact = true := by simp_all [isExact, areExact]
    obtain ⟨c, cs, hw, hblank, hend⟩ := exists_head_write hitem
    have hread : elements fuel (item.write ++ (writeItems items ++ rest)) =
        some (item :: items, rest) := by
      apply elements_write (item :: items) hexact
      · simp only [write, writeItems, List.length_cons, List.length_append] at hfuel ⊢
        omega
      · simp [writeItems]
    have htext : (array (item :: items)).write ++ rest =
        '[' :: (item.write ++ (writeItems items ++ rest)) := by
      simp [write]
    rw [htext]
    rw [hw, List.cons_append] at hread ⊢
    rw [value_array hblank hend, hread]
    rfl
  | .object [], fuel + 1, rest, _, _, _ => rfl
  | .object ((name, field) :: fields), fuel + 1, rest, hexact, hfuel, _ => by
    obtain ⟨body, hbody, -⟩ :=
      stringBody_writeText name (':' :: (field.write ++ (writeFields fields ++ rest)))
    have hread : members fuel ('"' :: body) = some ((name, field) :: fields, rest) := by
      apply members_write ((name, field) :: fields) hexact
      · simp only [write, writeFields, List.length_cons, List.length_append] at hfuel ⊢
        omega
      · simp [writeFields, ← hbody]
    have htext : (object ((name, field) :: fields)).write ++ rest = '{' :: '"' :: body := by
      simp [write, ← hbody]
    rw [htext, value_object, hread]
    rfl
/-- Written items are read back behind the opening bracket. -/
theorem elements_write : ∀ (items : List Json) {fuel : Nat} {rest body : List Char},
    areExact items = true → 2 * (writeItems items).length ≤ fuel + 3 →
    writeItems items ++ rest = ',' :: body → elements fuel body = some (items, rest)
  | [], _, _, _, _, _, hbody => by simp [writeItems] at hbody
  | [item], fuel, rest, body, hexact, hfuel, hbody => by
    have hitem : item.isExact = true := by simpa [areExact] using hexact
    have hbody : body = item.write ++ ']' :: rest := by simpa [writeItems, eq_comm] using hbody
    simp only [writeItems, List.length_cons, List.length_append, List.length_nil] at hfuel
    subst hbody
    cases fuel with
    | zero => omega
    | succ fuel => exact elements_last (value_write item hitem (by omega) (by simp [Delimited]))
  | item :: next :: items, fuel, rest, body, hexact, hfuel, hbody => by
    obtain ⟨hitem, hitems⟩ := Bool.and_eq_true_iff.mp hexact
    have hbody : body = item.write ++ ',' :: (next.write ++ (writeItems items ++ rest)) := by
      simpa [writeItems, eq_comm] using hbody
    simp only [writeItems, List.length_cons, List.length_append] at hfuel
    subst hbody
    cases fuel with
    | zero => omega
    | succ fuel =>
      apply elements_more (value_write item hitem (by omega) (by simp [Delimited]))
      apply elements_write (next :: items) hitems
      · simp only [writeItems, List.length_cons, List.length_append]
        omega
      · simp [writeItems]
/-- Written fields are read back behind the opening brace. -/
theorem members_write : ∀ (fields : List (Option String × Json)) {fuel : Nat}
    {rest body : List Char}, fieldsAreExact fields = true →
    2 * (writeFields fields).length ≤ fuel + 3 →
    writeFields fields ++ rest = ',' :: body → members fuel body = some (fields, rest)
  | [], _, _, _, _, _, hbody => by simp [writeFields] at hbody
  | [(name, field)], fuel, rest, body, hexact, hfuel, hbody => by
    have hfield : field.isExact = true := by simpa [fieldsAreExact] using hexact
    obtain ⟨quoted, hquoted, hname⟩ :=
      stringBody_writeText name (':' :: (field.write ++ '}' :: rest))
    have hbody : body = '"' :: quoted := by
      rw [← hquoted]
      simpa [writeFields, eq_comm] using hbody
    simp only [writeFields, List.length_cons, List.length_append, List.length_nil] at hfuel
    subst hbody
    cases fuel with
    | zero => omega
    | succ fuel =>
      exact members_last hname (value_write field hfield (by omega) (by simp [Delimited]))
  | (name, field) :: (name', field') :: fields, fuel, rest, body, hexact, hfuel, hbody => by
    obtain ⟨hfield, hfields⟩ := Bool.and_eq_true_iff.mp hexact
    obtain ⟨quoted, hquoted, hname⟩ := stringBody_writeText name (':' :: (field.write ++ ',' ::
      (writeText name' ++ ':' :: (field'.write ++ (writeFields fields ++ rest)))))
    have hbody : body = '"' :: quoted := by
      rw [← hquoted]
      simpa [writeFields, eq_comm] using hbody
    simp only [writeFields, List.length_cons, List.length_append] at hfuel
    subst hbody
    cases fuel with
    | zero => omega
    | succ fuel =>
      apply members_more hname (value_write field hfield (by omega) (by simp [Delimited]))
      apply members_write ((name', field') :: fields) hfields
      · simp only [writeFields, List.length_cons, List.length_append]
        omega
      · simp [writeFields]
end

/-- Every value whose numbers are integers is read back from its text. -/
theorem parse?_render {j : Json} (h : j.isExact = true) : parse? j.render = some j := by
  have hvalue := value_write j h (Nat.le_add_right (2 * j.write.length) 2) delimited_nil
  rw [List.append_nil] at hvalue
  simp [parse?, render, hvalue, skipBlanks]

end GroovyIndex.Json
