import StagedFlow.Json.Parser

/-!
The text of JSON values. Reading the text of a value gives the value back, as long as its numbers
are integers of 64 bits, signed or unsigned. Main definition: `Json.Exact`. Main results:
`Json.parseString?_quote`, `Json.parseNumber?_int`, `Json.parse_render`.
-/
set_option autoImplicit false

namespace StagedFlow.Json

/-! ## Texts -/

theorem hex4_of_lt : ∀ n < 0x20,
    hex4 n = ['0', '0', Nat.digitChar (n / 16), Nat.digitChar (n % 16)] := by
  decide

theorem hexValue?_digitChar : ∀ d < 16, hexValue? (Nat.digitChar d) = some d := by
  decide

/-- The escape of a control character is read as the character. -/
theorem parseUnicode?_hex4 {n : Nat} (h : n < 0x20) (rest : List Char) :
    parseUnicode? (hex4 n ++ rest) = some (.char (.ofNat n), rest) := by
  have hzero : hexValue? '0' = some 0 := by decide
  have hparse : parseHex4? (hex4 n ++ rest) = some (n, rest) := by
    rw [hex4_of_lt n h]
    simp only [List.cons_append, List.nil_append, parseHex4?, hzero,
      hexValue?_digitChar (n / 16) (by omega), hexValue?_digitChar (n % 16) (by omega),
      Option.bind_eq_bind, Option.bind_some, Option.pure_def]
    congr 2
    omega
  have hlow : isLow n = false := by simp [isLow]; omega
  have hhigh : isHigh n = false := by simp [isHigh]; omega
  simp [parseUnicode?, hparse, hlow, hhigh]

theorem parseText?_plain (fuel : Nat) {c : Char} (hquote : c ≠ '"') (hslash : c ≠ '\\')
    (hcontrol : ¬ c.toNat < 0x20) (rest acc : List Char) (whole : Bool) :
    parseText? (fuel + 1) (c :: rest) acc whole = parseText? fuel rest (c :: acc) whole := by
  have hcheck : (c == '\\' || decide (c.toNat < 0x20)) = false := by simp [hslash, hcontrol]
  rw [parseText?, hcheck]
  · rfl
  · exact hquote
  · exact fun _ h _ => hslash h
  · exact fun _ _ h _ => hslash h

/-- What stands for one character is read as that character. -/
theorem parseText?_escape (fuel : Nat) (c : Char) (rest acc : List Char) (whole : Bool) :
    parseText? (fuel + 1) (escape c ++ rest) acc whole = parseText? fuel rest (c :: acc) whole := by
  unfold escape
  split
  · rfl
  · rfl
  · rfl
  · rfl
  · rfl
  · rfl
  · rfl
  · next hquote hslash _ _ _ _ _ =>
    split
    · next hcontrol =>
      simp [parseText?, parseUnicode?_hex4 hcontrol]
    · next hcontrol =>
      exact parseText?_plain fuel hquote hslash hcontrol rest acc whole

theorem parseText?_flatMap (cs : List Char) (fuel : Nat) (h : cs.length < fuel)
    (rest acc : List Char) (whole : Bool) :
    parseText? fuel (cs.flatMap escape ++ '"' :: rest) acc whole =
      some (cs.reverse ++ acc, whole, rest) := by
  induction cs generalizing fuel acc with
  | nil =>
    obtain ⟨fuel, rfl⟩ : ∃ n, fuel = n + 1 := ⟨fuel - 1, by simp at h; omega⟩
    rfl
  | cons c cs ih =>
    obtain ⟨fuel, rfl⟩ : ∃ n, fuel = n + 1 := ⟨fuel - 1, by simp at h; omega⟩
    rw [List.flatMap_cons, List.append_assoc, parseText?_escape, ih fuel (by simpa using h)]
    simp

theorem one_le_length_escape (c : Char) : 1 ≤ (escape c).length := by
  unfold escape
  split
  case h_8 => split <;> simp
  all_goals decide

theorem length_le_length_flatMap_escape (cs : List Char) :
    cs.length ≤ (cs.flatMap escape).length := by
  induction cs with
  | nil => simp
  | cons c cs ih =>
    have hc := one_le_length_escape c
    simp only [List.flatMap_cons, List.length_cons, List.length_append]
    omega

/-- A quoted text is read back after its opening quote. -/
theorem parseString?_quote (s : String) (rest : List Char) :
    parseString? (s.toList.flatMap escape ++ '"' :: rest) = some (some s, rest) := by
  have hfuel : s.toList.length < (s.toList.flatMap escape ++ '"' :: rest).length + 1 := by
    have hs := length_le_length_flatMap_escape s.toList
    simp only [List.length_append, List.length_cons]
    omega
  rw [parseString?, parseText?_flatMap _ _ hfuel]
  simp

/-! ## Numbers -/

/-- What may follow a value inside another one, or after all. -/
def Ends (rest : List Char) : Prop :=
  ∀ c ∈ rest.head?, c = ',' ∨ c = ']' ∨ c = '\x7d'

theorem Ends.nil : Ends [] := by
  simp [Ends]

theorem Ends.comma (rest : List Char) : Ends (',' :: rest) := by
  simp [Ends]

theorem Ends.bracket (rest : List Char) : Ends (']' :: rest) := by
  simp [Ends]

theorem Ends.brace (rest : List Char) : Ends ('\x7d' :: rest) := by
  simp [Ends]

theorem spanDigits_append {digits rest : List Char} (hdigits : ∀ c ∈ digits, c.isDigit = true)
    (hrest : Ends rest) : Text.spanDigits (digits ++ rest) = (digits, rest) := by
  have hstop : rest.takeWhile Char.isDigit = [] ∧ rest.dropWhile Char.isDigit = rest := by
    cases rest with
    | nil => exact ⟨rfl, rfl⟩
    | cons c cs =>
      have hc : c.isDigit = false := by
        rcases hrest c rfl with rfl | rfl | rfl <;> decide
      simp [hc]
  simp only [Text.spanDigits, List.takeWhile_append_of_pos hdigits,
    List.dropWhile_append_of_pos hdigits, hstop.1, hstop.2, List.append_nil]

theorem parseFraction?_ends {rest : List Char} (h : Ends rest) :
    parseFraction? rest = some ([], rest) := by
  cases rest with
  | nil => rfl
  | cons c cs => rcases h c rfl with rfl | rfl | rfl <;> rfl

theorem spanExponent?_ends {rest : List Char} (h : Ends rest) :
    Text.spanExponent? rest = some (0, rest) := by
  cases rest with
  | nil => rfl
  | cons c cs => rcases h c rfl with rfl | rfl | rfl <;> rfl

theorem digitsValue_toDigits (n : Nat) : Text.digitsValue (Nat.toDigits 10 n) = n :=
  Nat.ofDigitChars_ten_toDigits

/-- A number has no leading zero. -/
theorem head?_toDigits (n : Nat) (h : 0 < n) : (Nat.toDigits 10 n).head? ≠ some '0' := by
  induction n using Nat.strongRecOn with
  | ind n ih =>
    by_cases hlt : n < 10
    · have hdigit : ∀ d < 10, 0 < d → Nat.digitChar d ≠ '0' := by decide
      rw [Nat.toDigits_of_lt_base hlt]
      simpa using hdigit n hlt h
    · rw [Nat.toDigits_of_base_le (by decide) (Nat.not_lt.mp hlt), List.head?_append]
      have hrest := ih (n / 10) (by omega) (by omega)
      cases hhead : (Nat.toDigits 10 (n / 10)).head? with
      | none => simp [Nat.toDigits_ne_nil] at hhead
      | some c => simpa [hhead] using hrest

/-- The digits of a natural number are accepted as the whole part of a number. -/
theorem whole_toDigits (n : Nat) : ((Nat.toDigits 10 n).isEmpty ||
    (Nat.toDigits 10 n).head? == some '0' && decide (1 < (Nat.toDigits 10 n).length)) = false := by
  have hne : (Nat.toDigits 10 n).isEmpty = false := by
    simp [Nat.toDigits_ne_nil]
  rw [hne, Bool.false_or, Bool.and_eq_false_iff]
  by_cases h : n = 0
  · subst h
    exact .inr rfl
  · exact .inl (by simpa using head?_toDigits n (by omega))

theorem isDigit_toDigits (n : Nat) : ∀ c ∈ Nat.toDigits 10 n, c.isDigit = true :=
  fun _ hc => Nat.isDigit_of_mem_toDigits (by decide) (by decide) hc

theorem exists_toDigits_cons (n : Nat) :
    ∃ d ds, Nat.toDigits 10 n = d :: ds ∧ d.isDigit = true := by
  obtain ⟨d, ds, h⟩ := List.exists_cons_of_ne_nil (Nat.toDigits_ne_nil (n := n) (b := 10))
  exact ⟨d, ds, h, isDigit_toDigits n d (h ▸ List.mem_cons_self)⟩

/-- Digits without point and exponent are an integer. -/
theorem parseNumber?_toDigits (n : Nat) {rest : List Char} (h : Ends rest) :
    parseNumber? (Nat.toDigits 10 n ++ rest) = some (ofInteger false n, rest) := by
  have hsign : ∀ tail, Nat.toDigits 10 n ++ rest ≠ '-' :: tail := by
    obtain ⟨d, ds, hdigits, hd⟩ := exists_toDigits_cons n
    rw [hdigits]
    rintro tail htail
    cases htail
    cases hd
  unfold parseNumber?
  split
  next negative cs hmatch =>
  split at hmatch
  · next heq => exact absurd heq (hsign _)
  · cases hmatch
    simp [spanDigits_append (isDigit_toDigits n) h, whole_toDigits, parseFraction?_ends h,
      spanExponent?_ends h, digitsValue_toDigits]

theorem parseNumber?_minus_toDigits (n : Nat) {rest : List Char} (h : Ends rest) :
    parseNumber? ('-' :: (Nat.toDigits 10 n ++ rest)) = some (ofInteger true n, rest) := by
  simp [parseNumber?, spanDigits_append (isDigit_toDigits n) h, whole_toDigits,
    parseFraction?_ends h, spanExponent?_ends h, digitsValue_toDigits]

theorem toList_toString_ofNat (n : Nat) : (toString (Int.ofNat n)).toList = Nat.toDigits 10 n :=
  Nat.toList_repr

theorem toList_toString_negSucc (n : Nat) :
    (toString (Int.negSucc n)).toList = '-' :: Nat.toDigits 10 (n + 1) := by
  show ("-" ++ Nat.repr (n + 1)).toList = _
  rw [String.toList_append, Nat.toList_repr]
  rfl

/-- An integer of 64 bits, signed or unsigned, is read back. -/
theorem parseNumber?_int {n : Int} (h : -0x8000000000000000 ≤ n ∧ n < 0x10000000000000000)
    {rest : List Char} (hrest : Ends rest) :
    parseNumber? ((toString n).toList ++ rest) = some (int n, rest) := by
  cases n with
  | ofNat n =>
    have hn : n < 0x10000000000000000 := Int.ofNat_lt.mp h.2
    rw [toList_toString_ofNat, parseNumber?_toDigits n hrest]
    simp [ofInteger, hn]
  | negSucc n =>
    have hn : n + 1 ≤ 0x8000000000000000 := by omega
    rw [toList_toString_negSucc, List.cons_append, parseNumber?_minus_toDigits (n + 1) hrest]
    simp only [ofInteger, Nat.succ_pos, hn, and_self, if_true]
    rfl

/-! ## Values -/

mutual

/-- A value whose text says all of it: its numbers are integers of 64 bits, signed or unsigned. -/
def Exact : Json → Prop
  | null => True
  | bool _ => True
  | int n => -0x8000000000000000 ≤ n ∧ n < 0x10000000000000000
  | float _ => False
  | str _ => True
  | arr items => ItemsExact items
  | obj fields => FieldsExact fields
  | unreadable => False

def ItemsExact : List Json → Prop
  | [] => True
  | j :: rest => j.Exact ∧ ItemsExact rest

def FieldsExact : List (String × Json) → Prop
  | [] => True
  | (_, j) :: rest => j.Exact ∧ FieldsExact rest

end

/-- The characters of a value. -/
def chars (j : Json) : List Char :=
  j.render.toList

def fieldChars (name : String) (j : Json) : List Char :=
  '"' :: (name.toList.flatMap escape ++ '"' :: ':' :: j.chars)

theorem fieldChars_append (name : String) (j : Json) (rest : List Char) :
    fieldChars name j ++ rest =
      '"' :: (name.toList.flatMap escape ++ '"' :: ':' :: (j.chars ++ rest)) := by
  simp [fieldChars]

theorem length_chars_le (name : String) (j : Json) :
    j.chars.length ≤ (fieldChars name j).length := by
  simp only [fieldChars, List.length_cons, List.length_append]
  omega

theorem renderItems_eq (items : List Json) : renderItems items = items.map render := by
  induction items with
  | nil => rfl
  | cons j rest ih => rw [renderItems, ih, List.map_cons]

theorem toList_renderFields (fields : List (String × Json)) :
    (renderFields fields).map String.toList = fields.map fun f => fieldChars f.1 f.2 := by
  induction fields with
  | nil => rfl
  | cons f rest ih =>
    obtain ⟨name, j⟩ := f
    simp [renderFields, ih, fieldChars, quote, chars]

theorem chars_arr (items : List Json) :
    (arr items).chars = '[' :: ([','].intercalate (items.map chars) ++ [']']) := by
  simp [chars, render, renderItems_eq, String.toList_intercalate]
  rfl

theorem chars_obj (fields : List (String × Json)) :
    (obj fields).chars =
      '\x7b' :: ([','].intercalate (fields.map fun f => fieldChars f.1 f.2) ++ ['\x7d']) := by
  simp [chars, render, String.toList_intercalate, toList_renderFields]

theorem chars_str (s : String) : (str s).chars = '"' :: (s.toList.flatMap escape ++ ['"']) := by
  simp [chars, render, quote]

theorem intercalate_comma (t : List Char) (ts : List (List Char)) :
    [','].intercalate (t :: ts) = t ++ if ts = [] then [] else ',' :: [','].intercalate ts := by
  cases ts with
  | nil => simp
  | cons u ts => simp

/-- What a number starts with. -/
def StartsNumber (c : Char) : Prop :=
  c.isDigit = true ∨ c = '-'

theorem StartsNumber.ne {c : Char} (h : StartsNumber c) (other : Char)
    (hother : (other.isDigit || other == '-') = false) : c ≠ other := by
  rintro rfl
  simp only [Bool.or_eq_false_iff, beq_eq_false_iff_ne] at hother
  exact h.elim (fun hdigit => by simp [hdigit] at hother) hother.2

theorem StartsNumber.isSpace {c : Char} (h : StartsNumber c) : isSpace c = false := by
  simp [Json.isSpace, h.ne ' ' rfl, h.ne '\n' rfl, h.ne '\t' rfl, h.ne '\r' rfl]

theorem exists_chars_int (n : Int) : ∃ c cs, (int n).chars = c :: cs ∧ StartsNumber c := by
  cases n with
  | ofNat n =>
    obtain ⟨d, ds, hdigits, hd⟩ := exists_toDigits_cons n
    exact ⟨d, ds, (toList_toString_ofNat n).trans hdigits, .inl hd⟩
  | negSucc n => exact ⟨_, _, toList_toString_negSucc n, .inr rfl⟩

/-- The text of a value starts neither with a blank nor with a closing bracket. -/
theorem exists_chars_cons {j : Json} (h : j.Exact) :
    ∃ c cs, j.chars = c :: cs ∧ isSpace c = false ∧ c ≠ ']' := by
  cases j with
  | null => exact ⟨_, _, rfl, rfl, by decide⟩
  | bool b => cases b <;> exact ⟨_, _, rfl, rfl, by decide⟩
  | int n =>
    obtain ⟨c, cs, hchars, hc⟩ := exists_chars_int n
    exact ⟨c, cs, hchars, hc.isSpace, hc.ne ']' rfl⟩
  | float x => exact h.elim
  | str s => exact ⟨_, _, chars_str s, rfl, by decide⟩
  | arr items => exact ⟨_, _, chars_arr items, rfl, by decide⟩
  | obj fields => exact ⟨_, _, chars_obj fields, rfl, by decide⟩
  | unreadable => exact h.elim

theorem skipSpaces_cons {c : Char} (h : isSpace c = false) (cs : List Char) :
    skipSpaces (c :: cs) = c :: cs := by
  simp [skipSpaces, h]

theorem parseValue?_int {n : Int} (h : (int n).Exact) (fuel : Nat) {rest : List Char}
    (hrest : Ends rest) : parseValue? (fuel + 1) ((int n).chars ++ rest) = some (int n, rest) := by
  obtain ⟨c, cs, hchars, hc⟩ := exists_chars_int n
  have hnumber : parseNumber? ((int n).chars ++ rest) = some (int n, rest) :=
    parseNumber?_int h hrest
  rw [hchars, List.cons_append] at hnumber ⊢
  rw [parseValue?, skipSpaces_cons hc.isSpace]
  split
  · next heq => cases heq
  · next heq => exact absurd (List.cons.inj heq).1 (hc.ne 'n' rfl)
  · next heq => exact absurd (List.cons.inj heq).1 (hc.ne 't' rfl)
  · next heq => exact absurd (List.cons.inj heq).1 (hc.ne 'f' rfl)
  · next heq => exact absurd (List.cons.inj heq).1 (hc.ne '"' rfl)
  · next heq => exact absurd (List.cons.inj heq).1 (hc.ne '[' rfl)
  · next heq => exact absurd (List.cons.inj heq).1 (hc.ne '\x7b' rfl)
  · exact hnumber

/-- The text of the items after an opening bracket, and what closes it. -/
theorem parseValue?_arr (fuel : Nat) {j : Json} {items : List Json} (h : j.Exact)
    (rest : List Char) :
    parseValue? (fuel + 1) ((arr (j :: items)).chars ++ rest) =
      (parseItems? fuel ([','].intercalate ((j :: items).map chars) ++ ']' :: rest)).map
        fun p => (arr p.1, p.2) := by
  obtain ⟨c, cs, hchars, hspace, hc⟩ := exists_chars_cons h
  have hstart : ∃ tail, [','].intercalate ((j :: items).map chars) ++ ']' :: rest = c :: tail := by
    rw [List.map_cons, intercalate_comma, hchars]
    exact ⟨_, rfl⟩
  obtain ⟨tail, htail⟩ := hstart
  rw [chars_arr, List.cons_append, List.append_assoc, List.singleton_append, htail, parseValue?,
    skipSpaces_cons rfl]
  simp only
  rw [skipSpaces_cons hspace]
  split
  · next heq => exact absurd (List.cons.inj heq).1 hc
  · cases parseItems? fuel (c :: tail) <;> rfl

theorem parseValue?_obj (fuel : Nat) (f : String × Json) (fields : List (String × Json))
    (rest : List Char) :
    parseValue? (fuel + 1) ((obj (f :: fields)).chars ++ rest) =
      (parseFields? fuel ([','].intercalate ((f :: fields).map fun f => fieldChars f.1 f.2) ++
        '\x7d' :: rest)).map fun p => (obj p.1, p.2) := by
  obtain ⟨tail, htail⟩ : ∃ tail,
      [','].intercalate ((f :: fields).map fun f => fieldChars f.1 f.2) ++ '\x7d' :: rest =
        '"' :: tail := by
    rw [List.map_cons, intercalate_comma, fieldChars]
    exact ⟨_, rfl⟩
  rw [chars_obj, List.cons_append, List.append_assoc, List.singleton_append, htail, parseValue?,
    skipSpaces_cons rfl]
  simp only
  rw [skipSpaces_cons rfl]
  split
  · next heq => exact absurd (List.cons.inj heq).1 (by decide)
  · cases parseFields? fuel ('"' :: tail) <;> rfl

theorem parseItems?_last {fuel : Nat} {cs : List Char} {j : Json} {rest : List Char}
    (h : parseValue? fuel cs = some (j, ']' :: rest)) :
    parseItems? (fuel + 1) cs = some ([j], rest) := by
  rw [parseItems?, h]
  rfl

theorem parseItems?_more {fuel : Nat} {cs : List Char} {j : Json} {items : List Json}
    {rest rest' : List Char} (h : parseValue? fuel cs = some (j, ',' :: rest))
    (hmore : parseItems? fuel rest = some (items, rest')) :
    parseItems? (fuel + 1) cs = some (j :: items, rest') := by
  rw [parseItems?, h]
  simp [skipSpaces_cons, isSpace, hmore]

theorem parseFields?_last {fuel : Nat} {name : String} {cs : List Char} {j : Json}
    {rest : List Char} (h : parseValue? fuel cs = some (j, '\x7d' :: rest)) :
    parseFields? (fuel + 1) ('"' :: (name.toList.flatMap escape ++ '"' :: ':' :: cs)) =
      some ([(name, j)], rest) := by
  rw [parseFields?]
  simp [skipSpaces_cons, isSpace, parseString?_quote, strip?, h]

theorem parseFields?_more {fuel : Nat} {name : String} {cs : List Char} {j : Json}
    {fields : List (String × Json)} {rest rest' : List Char}
    (h : parseValue? fuel cs = some (j, ',' :: rest))
    (hmore : parseFields? fuel rest = some (fields, rest')) :
    parseFields? (fuel + 1) ('"' :: (name.toList.flatMap escape ++ '"' :: ':' :: cs)) =
      some ((name, j) :: fields, rest') := by
  rw [parseFields?]
  simp [skipSpaces_cons, isSpace, parseString?_quote, strip?, h, hmore]

mutual

/-- The text of a value is read back, with as much fuel as twice its length. -/
theorem parseValue?_chars (j : Json) (h : j.Exact) {fuel : Nat} (hfuel : 2 * j.chars.length ≤ fuel)
    {rest : List Char} (hrest : Ends rest) :
    parseValue? fuel (j.chars ++ rest) = some (j, rest) := by
  obtain ⟨c, cs, hchars, -⟩ := exists_chars_cons h
  obtain ⟨fuel, rfl⟩ : ∃ n, fuel = n + 1 :=
    ⟨fuel - 1, by rw [hchars] at hfuel; simp at hfuel; omega⟩
  cases j with
  | null => rfl
  | bool b => cases b <;> rfl
  | int n => exact parseValue?_int h fuel hrest
  | float x => exact h.elim
  | str s =>
    rw [chars_str, List.cons_append, List.append_assoc, List.singleton_append, parseValue?,
      skipSpaces_cons rfl]
    simp [parseString?_quote]
  | arr items =>
    cases items with
    | nil => rfl
    | cons j items =>
      rw [chars_arr] at hfuel
      rw [parseValue?_arr fuel h.1,
        parseItems?_chars (j :: items) h (by simp) (by simp at hfuel ⊢; omega)]
      rfl
  | obj fields =>
    cases fields with
    | nil => rfl
    | cons f fields =>
      rw [chars_obj] at hfuel
      rw [parseValue?_obj, parseFields?_chars (f :: fields) h (by simp) (by simp at hfuel ⊢; omega)]
      rfl
  | unreadable => exact h.elim
termination_by structural j

theorem parseItems?_chars (items : List Json) (h : ItemsExact items) (hne : items ≠ []) {fuel : Nat}
    (hfuel : 2 * ([','].intercalate (items.map chars)).length + 2 ≤ fuel) {rest : List Char} :
    parseItems? fuel ([','].intercalate (items.map chars) ++ ']' :: rest) = some (items, rest) := by
  obtain ⟨fuel, rfl⟩ : ∃ n, fuel = n + 1 := ⟨fuel - 1, by omega⟩
  cases items with
  | nil => exact absurd rfl hne
  | cons j items =>
    rw [List.map_cons, intercalate_comma] at hfuel ⊢
    by_cases hitems : items = []
    · subst hitems
      simp only [List.map_nil, if_true, List.append_nil] at hfuel ⊢
      exact parseItems?_last (parseValue?_chars j h.1 (by omega) (.bracket rest))
    · have hmap : items.map chars ≠ [] := by simpa using hitems
      simp only [hmap, if_false, List.length_append, List.length_cons, List.append_assoc,
        List.cons_append] at hfuel ⊢
      exact parseItems?_more (parseValue?_chars j h.1 (by omega) (.comma _))
        (parseItems?_chars items h.2 hitems (by omega))
termination_by structural items

theorem parseFields?_chars (fields : List (String × Json)) (h : FieldsExact fields)
    (hne : fields ≠ []) {fuel : Nat}
    (hfuel : 2 * ([','].intercalate (fields.map fun f => fieldChars f.1 f.2)).length + 2 ≤ fuel)
    {rest : List Char} :
    parseFields? fuel ([','].intercalate (fields.map fun f => fieldChars f.1 f.2) ++
      '\x7d' :: rest) = some (fields, rest) := by
  obtain ⟨fuel, rfl⟩ : ∃ n, fuel = n + 1 := ⟨fuel - 1, by omega⟩
  cases fields with
  | nil => exact absurd rfl hne
  | cons f fields =>
    obtain ⟨name, j⟩ := f
    have hlength := length_chars_le name j
    rw [List.map_cons, intercalate_comma] at hfuel ⊢
    by_cases hfields : fields = []
    · subst hfields
      simp only [List.map_nil, if_true, List.append_nil, fieldChars_append] at hfuel ⊢
      exact parseFields?_last (parseValue?_chars j h.1 (by omega) (.brace rest))
    · have hmap : (fields.map fun f => fieldChars f.1 f.2) ≠ [] := by simpa using hfields
      simp only [hmap, if_false, List.length_append, List.length_cons, List.append_assoc,
        List.cons_append, fieldChars_append] at hfuel ⊢
      exact parseFields?_more (parseValue?_chars j h.1 (by omega) (.comma _))
        (parseFields?_chars fields h.2 hfields (by omega))
termination_by structural fields

end

/-- Reading the text of a value gives the value back. -/
theorem parse_render {j : Json} (h : j.Exact) : parse j.render = some j := by
  have hvalue : parseValue? (2 * j.chars.length + 2) (j.chars ++ []) = some (j, []) :=
    parseValue?_chars j h (by omega) .nil
  rw [List.append_nil] at hvalue
  rw [parse]
  simp only [show j.render.toList = j.chars from rfl, hvalue]
  rfl

end StagedFlow.Json
