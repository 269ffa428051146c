import Nublado.Foundations.Dict
import Nublado.Foundations.Json

/-!
# JSON texts

`json.dumps` and `json.loads`. What is written is ASCII: every other character is written as one or two
escapes of four hexadecimal digits (`escape`).

* `scanString_quote`: a quoted string is read back, whatever characters it has.
* `value_dumps` is the same for values, inside any text that goes on with no part of a number. It goes by
  induction on the value; the readers take a number that bounds the depth of their recursion, for which
  the length of the text is enough.
* `loads_dumps` is the round trip, for values whose numbers are whole (`Written`).

A number does not say whether it was written with a point; one that is whole is written without. A
surrogate on its own is no character and is refused.
-/

namespace Nublado

namespace Json

/-! ### Writing -/

/-- Four hexadecimal digits. -/
def hex4 (n : ℕ) : List Char :=
  [(n / 4096 % 16).digitChar, (n / 256 % 16).digitChar, (n / 16 % 16).digitChar, (n % 16).digitChar]

/-- `\uXXXX` -/
def unicodeEscape (n : ℕ) : List Char := '\\' :: 'u' :: hex4 n

/-- A character of a string as it is written. -/
@[grind =] def escape (c : Char) : List Char :=
  if c = '"' then ['\\', '"']
  else if c = '\\' then ['\\', '\\']
  else if c = '\n' then ['\\', 'n']
  else if c = '\r' then ['\\', 'r']
  else if c = '\t' then ['\\', 't']
  else if c = '\x0c' then ['\\', 'f']
  else if c = '\x08' then ['\\', 'b']
  else if ' ' ≤ c ∧ c ≤ '~' then [c]
  else if c.toNat < 0x10000 then unicodeEscape c.toNat
  else unicodeEscape (0xd800 + (c.toNat - 0x10000) / 1024) ++
    unicodeEscape (0xdc00 + (c.toNat - 0x10000) % 1024)

/-- A string as it is written. -/
@[grind =] def quote (s : String) : List Char := '"' :: (s.toList.flatMap escape ++ ['"'])

/-- `str(n)` -/
@[grind =] def intText (n : ℤ) : List Char := if n < 0 then '-' :: numeral n.natAbs else numeral n.natAbs

/-- The text of a number. -/
@[grind =] def numberText (floatText : ℚ → List Char) : FloatValue → List Char
  | .finite x => if x.den = 1 then intText x.num else floatText x
  | .infinite negative => (if negative then "-Infinity" else "Infinity").toList
  | .nan => "NaN".toList

mutual

/-- `json.dumps(value)` -/
@[grind =] def dumps (floatText : ℚ → List Char) : Json → List Char
  | null => "null".toList
  | bool b => (if b then "true" else "false").toList
  | number x => numberText floatText x
  | string s => quote s
  | array [] => "[]".toList
  | array (v :: elements) => '[' :: (dumps floatText v ++ dumpElements floatText elements)
  | object [] => "\x7b\x7d".toList
  | object ((key, v) :: items) =>
    '\x7b' :: (quote key ++ ':' :: ' ' :: (dumps floatText v ++ dumpItems floatText items))

/-- The elements after the first one. -/
@[grind =] def dumpElements (floatText : ℚ → List Char) : List Json → List Char
  | [] => "]".toList
  | v :: elements => ',' :: ' ' :: (dumps floatText v ++ dumpElements floatText elements)

/-- The items after the first one. -/
@[grind =] def dumpItems (floatText : ℚ → List Char) : List (String × Json) → List Char
  | [] => "\x7d".toList
  | (key, v) :: items =>
    ',' :: ' ' :: (quote key ++ ':' :: ' ' :: (dumps floatText v ++ dumpItems floatText items))

end

/-! ### Reading -/

/-- Whitespace between the parts of a text. -/
def isBlank (c : Char) : Bool := c = ' ' || c = '\t' || c = '\n' || c = '\r'

/-- The text after whitespace. -/
def skip (l : List Char) : List Char := l.dropWhile isBlank

/-- The value of a hexadecimal digit. -/
@[grind =] def hexValue (c : Char) : Option ℕ :=
  if c.isDigit then some (c.toNat - 48)
  else if 'a' ≤ c ∧ c ≤ 'f' then some (c.toNat - 87)
  else if 'A' ≤ c ∧ c ≤ 'F' then some (c.toNat - 55)
  else none

/-- Four hexadecimal digits, and the text after them. -/
@[grind =] def readHex4 : List Char → Option (ℕ × List Char)
  | a :: b :: c :: d :: l => do
    let a ← hexValue a
    let b ← hexValue b
    let c ← hexValue c
    let d ← hexValue d
    some (4096 * a + 256 * b + 16 * c + d, l)
  | _ => none

/-- The second one of two escapes for one character. -/
@[grind =] def readLow (high : ℕ) : List Char → Option (Char × List Char)
  | '\\' :: 'u' :: l => do
    let (low, l) ← readHex4 l
    if 0xdc00 ≤ low ∧ low ≤ 0xdfff then
      some (Char.ofNat (0x10000 + (high - 0xd800) * 1024 + (low - 0xdc00)), l)
    else none
  | _ => none

/-- What a backslash stands for. -/
@[grind =] def readEscape : List Char → Option (Char × List Char)
  | 'u' :: l => do
    let (n, l) ← readHex4 l
    if 0xd800 ≤ n ∧ n ≤ 0xdbff then readLow n l
    else if 0xdc00 ≤ n ∧ n ≤ 0xdfff then none
    else some (Char.ofNat n, l)
  | '"' :: l => some ('"', l)
  | '\\' :: l => some ('\\', l)
  | '/' :: l => some ('/', l)
  | 'b' :: l => some ('\x08', l)
  | 'f' :: l => some ('\x0c', l)
  | 'n' :: l => some ('\n', l)
  | 'r' :: l => some ('\r', l)
  | 't' :: l => some ('\t', l)
  | _ => none

/-- The characters of a string up to the quote that ends it, and the text after that. -/
@[grind =] def scanString : ℕ → List Char → Option (List Char × List Char)
  | 0, _ => none
  | _ + 1, [] => none
  | n + 1, c :: l =>
    if c = '"' then some ([], l)
    else if c = '\\' then do
      let (d, l) ← readEscape l
      let (s, l) ← scanString n l
      some (d :: s, l)
    else if c.toNat < 0x20 then none
    else do
      let (s, l) ← scanString n l
      some (c :: s, l)

/-- The digits at the beginning of a text, unless there are none. -/
@[grind =] def readDigits (l : List Char) : Option (List Char × List Char) :=
  if (l.takeWhile Char.isDigit).isEmpty then none
  else some (l.takeWhile Char.isDigit, l.dropWhile Char.isDigit)

/-- The part of a number before the point: `-?(?:0|[1-9][0-9]*)` -/
@[grind =] def readWhole (l : List Char) : Option (List Char × List Char) :=
  match l with
  | '-' :: l => (go l).map fun r ↦ ('-' :: r.1, r.2)
  | l => go l
where
  /-- Without the sign. -/
  go : List Char → Option (List Char × List Char)
  | '0' :: l => some (['0'], l)
  | l => readDigits l

/-- `(\.[0-9]+)?` -/
@[grind =] def readFraction : List Char → List Char × List Char
  | '.' :: l =>
    match readDigits l with
    | some (ds, l) => ('.' :: ds, l)
    | none => ([], '.' :: l)
  | l => ([], l)

/-- `([eE][-+]?[0-9]+)?` -/
@[grind =] def readExponent : List Char → List Char × List Char
  | [] => ([], [])
  | c :: l =>
    if c = 'e' ∨ c = 'E' then
      let (sign, digits) := Sign.take l
      match readDigits digits with
      | some (ds, l) => (c :: (sign.text ++ ds), l)
      | none => ([], c :: l)
    else ([], c :: l)

/-- A word at the beginning of a text, with what it stands for. -/
@[grind =] def readWord {α : Type} (word : String) (a : α) (l : List Char) : Option (α × List Char) :=
  if word.toList.isPrefixOf l then some (a, l.drop word.toList.length) else none

/-- A number, or one of the words for what is none. -/
@[grind =] def readNumber (l : List Char) : Option (FloatValue × List Char) :=
  match readWhole l with
  | some (whole, rest) =>
    let fraction := readFraction rest
    let exponent := readExponent fraction.2
    if fraction.1 = [] ∧ exponent.1 = [] then (intOf whole).map fun (n : ℤ) ↦ (.finite n, exponent.2)
    else (floatOf (whole ++ fraction.1 ++ exponent.1)).map fun x ↦ (x, exponent.2)
  | none =>
    (readWord "NaN" .nan l).or
      ((readWord "Infinity" (.infinite false) l).or (readWord "-Infinity" (.infinite true) l))

/-- `null`, `true`, `false` or a number. -/
@[grind =] def readAtom (l : List Char) : Option (Json × List Char) :=
  (readWord "null" null l).or ((readWord "true" (bool true) l).or ((readWord "false" (bool false) l).or
    ((readNumber l).map fun r ↦ (number r.1, r.2))))

mutual

/-- A value at the beginning of a text, and the text after it. -/
@[grind =] def readValue : ℕ → List Char → Option (Json × List Char)
  | 0, _ => none
  | _, [] => none
  | n + 1, c :: l =>
    if c = '"' then (scanString (l.length + 1) l).map fun r ↦ (string (String.ofList r.1), r.2)
    else if c = '[' then
      if (skip l).head? = some ']' then some (array [], (skip l).tail) else readElements n [] (skip l)
    else if c = '\x7b' then
      if (skip l).head? = some '\x7d' then some (object [], (skip l).tail) else readItems n [] (skip l)
    else readAtom (c :: l)

/-- The elements of an array from one of them on. -/
@[grind =] def readElements : ℕ → List Json → List Char → Option (Json × List Char)
  | 0, _, _ => none
  | n + 1, before, l =>
    (readValue n l).bind fun r ↦
      if (skip r.2).head? = some ']' then some (array (before ++ [r.1]), (skip r.2).tail)
      else if (skip r.2).head? = some ',' then
        readElements n (before ++ [r.1]) (skip (skip r.2).tail)
      else none

/-- The items of an object from one of them on. -/
@[grind =] def readItems : ℕ → List (String × Json) → List Char → Option (Json × List Char)
  | 0, _, _ => none
  | n + 1, before, l =>
    if l.head? = some '"' then
      (scanString (l.tail.length + 1) l.tail).bind fun key ↦
        if (skip key.2).head? = some ':' then
          (readValue n (skip (skip key.2).tail)).bind fun r ↦
            if (skip r.2).head? = some '\x7d' then
              some (object (setKey before (String.ofList key.1) r.1), (skip r.2).tail)
            else if (skip r.2).head? = some ',' then
              readItems n (setKey before (String.ofList key.1) r.1) (skip (skip r.2).tail)
            else none
        else none
    else none

end

/-- `json.loads(text)` -/
@[grind =] def loads (text : List Char) : Option Json :=
  match readValue (text.length + 1) (skip text) with
  | some (v, rest) => if skip rest = [] then some v else none
  | none => none

/-! ### Strings are read back -/

theorem hexValue_digitChar : ∀ d < 16, hexValue d.digitChar = some d := by decide

theorem readHex4_hex4 {n : ℕ} (h : n < 65536) (l : List Char) :
    readHex4 (hex4 n ++ l) = some (n, l) := by
  have hdigits : 4096 * (n / 4096 % 16) + 256 * (n / 256 % 16) + 16 * (n / 16 % 16) + n % 16 = n := by
    omega
  show readHex4 (_ :: _ :: _ :: _ :: l) = _
  rw [readHex4, hexValue_digitChar _ (Nat.mod_lt _ (by omega)),
    hexValue_digitChar _ (Nat.mod_lt _ (by omega)), hexValue_digitChar _ (Nat.mod_lt _ (by omega)),
    hexValue_digitChar _ (Nat.mod_lt _ (by omega))]
  exact congrArg (fun m ↦ some (m, l)) hdigits

/-- No character is a surrogate. -/
theorem not_surrogate (c : Char) : ¬(0xd800 ≤ c.toNat ∧ c.toNat ≤ 0xdfff) ∧ c.toNat < 0x110000 := by
  have hvalid : c.toNat < 0xd800 ∨ 0xdfff < c.toNat ∧ c.toNat < 0x110000 := c.valid
  omega

/-- One escape for a character. -/
theorem readEscape_hex4 {c : Char} (h : c.toNat < 0x10000) (l : List Char) :
    readEscape ('u' :: (hex4 c.toNat ++ l)) = some (c, l) := by
  have hno := not_surrogate c
  rw [readEscape, readHex4_hex4 h]
  show (if 0xd800 ≤ c.toNat ∧ c.toNat ≤ 0xdbff then _ else
    if 0xdc00 ≤ c.toNat ∧ c.toNat ≤ 0xdfff then none else some (Char.ofNat c.toNat, l)) = _
  rw [if_neg (by omega), if_neg (by omega), Char.ofNat_toNat]

theorem readLow_escape {high low : ℕ} (h : 0xdc00 ≤ low ∧ low ≤ 0xdfff) (l : List Char) :
    readLow high (unicodeEscape low ++ l) =
      some (Char.ofNat (0x10000 + (high - 0xd800) * 1024 + (low - 0xdc00)), l) := by
  show (readHex4 (hex4 low ++ l)).bind _ = _
  rw [readHex4_hex4 (by omega)]
  exact if_pos h

theorem readEscape_high {n : ℕ} (h : 0xd800 ≤ n ∧ n ≤ 0xdbff) (l : List Char) :
    readEscape ('u' :: (hex4 n ++ l)) = readLow n l := by
  rw [readEscape, readHex4_hex4 (by omega)]
  exact if_pos h

/-- Two escapes for a character. -/
theorem readEscape_pair {c : Char} (h : 0x10000 ≤ c.toNat) (l : List Char) :
    readEscape ('u' :: (hex4 (0xd800 + (c.toNat - 0x10000) / 1024) ++
      (unicodeEscape (0xdc00 + (c.toNat - 0x10000) % 1024) ++ l))) = some (c, l) := by
  have hno := not_surrogate c
  have hsum : 0x10000 + (0xd800 + (c.toNat - 0x10000) / 1024 - 0xd800) * 1024 +
      (0xdc00 + (c.toNat - 0x10000) % 1024 - 0xdc00) = c.toNat := by
    omega
  rw [readEscape_high (by omega), readLow_escape (by omega), hsum, Char.ofNat_toNat]

/-- A character that is written with a backslash. -/
theorem scanString_backslash {c : Char} {e l l' : List Char} (h : readEscape (e ++ l) = some (c, l'))
    (n : ℕ) : scanString (n + 1) ('\\' :: (e ++ l)) =
      (scanString n l').map fun r ↦ (c :: r.1, r.2) := by
  rw [scanString, if_neg (by decide), if_pos rfl, h]
  show (scanString n l').bind _ = _
  rcases scanString n l' with _ | r <;> rfl

/-- **A character is read back.** -/
theorem scanString_escape (c : Char) (n : ℕ) (l : List Char) :
    scanString (n + 1) (escape c ++ l) = (scanString n l).map fun r ↦ (c :: r.1, r.2) := by
  rw [escape]
  split
  · next h => rw [h]; exact scanString_backslash (e := ['"']) rfl n
  split
  · next h => rw [h]; exact scanString_backslash (e := ['\\']) rfl n
  split
  · next h => rw [h]; exact scanString_backslash (e := ['n']) rfl n
  split
  · next h => rw [h]; exact scanString_backslash (e := ['r']) rfl n
  split
  · next h => rw [h]; exact scanString_backslash (e := ['t']) rfl n
  split
  · next h => rw [h]; exact scanString_backslash (e := ['f']) rfl n
  split
  · next h => rw [h]; exact scanString_backslash (e := ['b']) rfl n
  split
  · next hquote hbackslash _ _ _ _ _ hplain =>
    have hlow : ¬c.toNat < 0x20 := by
      have hle : (' ' : Char).toNat ≤ c.toNat := hplain.1
      exact Nat.not_lt.2 hle
    show scanString (n + 1) (c :: l) = _
    rw [scanString, if_neg hquote, if_neg hbackslash, if_neg hlow]
    show (scanString n l).bind _ = _
    rcases scanString n l with _ | r <;> rfl
  split
  · next h => exact scanString_backslash (e := 'u' :: hex4 c.toNat) (readEscape_hex4 h l) n
  · next h =>
    rw [List.append_assoc]
    exact scanString_backslash (e := 'u' :: hex4 (0xd800 + (c.toNat - 0x10000) / 1024))
      (readEscape_pair (Nat.not_lt.1 h) l) n

theorem scanString_flatMap (s : List Char) (l : List Char) {n : ℕ} (hn : s.length < n) :
    scanString n (s.flatMap escape ++ '"' :: l) = some (s, l) := by
  induction s generalizing n with
  | nil =>
    obtain ⟨n, rfl⟩ := Nat.exists_eq_succ_of_ne_zero (Nat.ne_of_gt hn)
    exact if_pos rfl
  | cons c s ih =>
    obtain ⟨n, rfl⟩ := Nat.exists_eq_succ_of_ne_zero (Nat.ne_of_gt (Nat.zero_lt_of_lt hn))
    rw [List.flatMap_cons, List.append_assoc, scanString_escape, ih (Nat.lt_of_succ_lt_succ hn)]
    rfl

theorem escape_ne_nil (c : Char) : escape c ≠ [] := by
  rw [escape]
  repeat' split
  all_goals simp [unicodeEscape]

theorem length_le_flatMap (s : List Char) : s.length ≤ (s.flatMap escape).length := by
  induction s with
  | nil => exact Nat.le_refl _
  | cons c s ih =>
    have hpos := List.length_pos_iff.2 (escape_ne_nil c)
    rw [List.flatMap_cons, List.length_append, List.length_cons]
    omega

/-- **A string is read back.** -/
theorem scanString_quote (s : String) (l : List Char) :
    scanString ((s.toList.flatMap escape ++ '"' :: l).length + 1) (s.toList.flatMap escape ++ '"' :: l) =
      some (s.toList, l) := by
  refine scanString_flatMap _ _ ?_
  have hle := length_le_flatMap s.toList
  rw [List.length_append]
  omega

/-! ### Whole numbers are read back -/

/-- The text goes on with no part of a number. -/
def Stops (l : List Char) : Prop :=
  ∀ c ∈ l.head?, c.isDigit = false ∧ c ≠ '.' ∧ c ≠ 'e' ∧ c ≠ 'E'

theorem readDigits_numeral (m : ℕ) {l : List Char} (hl : Stops l) :
    readDigits (numeral m ++ l) = some (numeral m, l) := by
  have hdigits : ∀ c ∈ numeral m, c.isDigit = true := fun c hc ↦ isDigit_of_mem_numeral hc
  have hstop : l.takeWhile Char.isDigit = [] ∧ l.dropWhile Char.isDigit = l := by
    rcases l with _ | ⟨c, l⟩
    · exact ⟨rfl, rfl⟩
    · have hc := (hl c rfl).1
      exact ⟨List.takeWhile_cons_of_neg (by simp [hc]), List.dropWhile_cons_of_neg (by simp [hc])⟩
  have htake : (numeral m ++ l).takeWhile Char.isDigit = numeral m := by
    rw [List.takeWhile_append_of_pos hdigits, hstop.1, List.append_nil]
  have hdrop : (numeral m ++ l).dropWhile Char.isDigit = l := by
    rw [List.dropWhile_append_of_pos hdigits, hstop.2]
  rw [readDigits, htake, hdrop, if_neg]
  rw [List.isEmpty_iff]
  exact List.length_pos_iff.1 Nat.length_toDigits_pos

/-- No numeral has a zero in front. -/
theorem head_numeral {m : ℕ} {ds : List Char} (h : numeral m = '0' :: ds) : m = 0 ∧ ds = [] := by
  have hvalue : digitsValue ds = m := by
    have hall := digitsValue_numeral m
    rw [h, digitsValue, Nat.ofDigitChars_cons] at hall
    simpa using hall
  have hlt : m < 10 ^ ds.length := by
    rw [← hvalue]
    exact digitsValue_lt fun c hc ↦ isDigit_of_mem_numeral (n := m) (by rw [h]; exact List.mem_cons_of_mem _ hc)
  rcases ds with _ | ⟨d, ds⟩
  · exact ⟨by simpa using hlt, rfl⟩
  · have hshort := (Nat.length_toDigits_le_iff (by omega) (Nat.succ_pos ds.length)).2 hlt
    have hlength : (Nat.toDigits 10 m).length = ds.length + 2 := congrArg List.length h
    omega

theorem numeral_ne_nil (m : ℕ) : numeral m ≠ [] := List.length_pos_iff.1 Nat.length_toDigits_pos

theorem intText_ne_nil (m : ℤ) : intText m ≠ [] := by
  rw [intText]
  split
  · exact List.cons_ne_nil _ _
  · exact numeral_ne_nil _

theorem readWhole_intText (m : ℤ) {l : List Char} (hl : Stops l) :
    readWhole (intText m ++ l) = some (intText m, l) := by
  have hgo : readWhole.go (numeral m.natAbs ++ l) = some (numeral m.natAbs, l) := by
    rcases hds : numeral m.natAbs with _ | ⟨d, ds⟩
    · exact absurd hds (numeral_ne_nil _)
    · by_cases hd : d = '0'
      · subst hd
        obtain ⟨-, rfl⟩ := head_numeral hds
        rfl
      · have hread := readDigits_numeral m.natAbs hl
        rw [hds] at hread
        rw [← hread, List.cons_append]
        unfold readWhole.go
        split
        · next heq => exact absurd (List.cons.inj heq).1 hd
        · rfl
  rw [intText]
  split
  · rw [List.cons_append, readWhole, hgo]
    rfl
  · rcases hds : numeral m.natAbs with _ | ⟨d, ds⟩
    · exact absurd hds (numeral_ne_nil _)
    · have hdigit : d.isDigit = true :=
        isDigit_of_mem_numeral (n := m.natAbs) (by rw [hds]; exact List.mem_cons_self)
      rw [← hds, ← hgo, hds, List.cons_append]
      unfold readWhole
      split
      · next heq =>
        rw [(List.cons.inj heq).1] at hdigit
        cases hdigit
      · rfl

/-- The numbers that are read back. -/
def IsWhole (x : FloatValue) : Prop :=
  ∃ m : ℤ, x = .finite m ∧ (numeral m.natAbs).length ≤ maxIntDigits

theorem toNat_of_mem_intText {m : ℤ} {c : Char} (h : c ∈ intText m) :
    c = '-' ∨ c.isDigit = true := by
  rw [intText] at h
  split at h
  · exact (List.mem_cons.1 h).imp id fun h ↦ isDigit_of_mem_numeral h
  · exact Or.inr (isDigit_of_mem_numeral h)

theorem intOf_intText {m : ℤ} (h : (numeral m.natAbs).length ≤ maxIntDigits) :
    intOf (intText m) = some m := by
  have hascii : ∀ c ∈ intText m, c.toNat < 127 := by
    intro c hc
    rcases toNat_of_mem_intText hc with rfl | hdigit
    · decide
    · have := toNat_of_isDigit hdigit
      omega
  have hplain : plain (intText m) = some (intText m) := by
    rw [plain_eq_map fun c hc ↦ ?_, List.map_congr_left fun c hc ↦ readAs_of_ascii (hascii c hc),
      List.map_id']
    rw [readAs_of_ascii (hascii c hc)]
    rcases toNat_of_mem_intText hc with rfl | hdigit
    · decide
    · rintro rfl
      cases hdigit
  have hdigits : ∀ {s : Sign}, Sign.take (intText m) = (s, numeral m.natAbs) →
      intOf (intText m) = some (s.apply (m.natAbs : ℤ)) := by
    intro s hs
    have hall : (numeral m.natAbs).all Char.isDigit = true :=
      List.all_eq_true.2 fun c hc ↦ isDigit_of_mem_numeral hc
    simp only [intOf, hplain, hs]
    rw [if_pos ⟨numeral_ne_nil _, hall, h⟩, digitsValue_numeral]
  by_cases hneg : m < 0
  · rw [@hdigits .minus (by rw [intText, if_pos hneg]; rfl)]
    show some (-(m.natAbs : ℤ)) = some m
    congr 1
    omega
  · have htake := Sign.take_append .absent (l := numeral m.natAbs) ?_
    · rw [@hdigits .absent (by rw [intText, if_neg hneg]; exact htake)]
      show some (m.natAbs : ℤ) = some m
      congr 1
      omega
    · intro c hc
      have hdigit := isDigit_of_mem_numeral (List.mem_of_mem_head? hc)
      constructor <;> rintro rfl <;> cases hdigit

theorem readFraction_of_stops {l : List Char} (hl : Stops l) : readFraction l = ([], l) := by
  rcases l with _ | ⟨c, l⟩
  · rfl
  · unfold readFraction
    split
    · next heq => exact absurd (List.cons.inj heq).1 (hl c rfl).2.1
    · rfl

theorem readExponent_of_stops {l : List Char} (hl : Stops l) : readExponent l = ([], l) := by
  rcases l with _ | ⟨c, l⟩
  · rfl
  · rw [readExponent, if_neg]
    have hc := (hl c rfl).2.2
    rintro (h | h)
    · exact hc.1 h
    · exact hc.2 h

/-- **A whole number is read back.** -/
theorem readNumber_numberText (floatText : ℚ → List Char) {x : FloatValue} (hx : IsWhole x)
    {l : List Char} (hl : Stops l) : readNumber (numberText floatText x ++ l) = some (x, l) := by
  obtain ⟨m, rfl, hm⟩ := hx
  have htext : numberText floatText (.finite m) = intText m := by
    rw [numberText, if_pos (Rat.den_intCast m), Rat.num_intCast]
  rw [htext, readNumber, readWhole_intText m hl]
  simp only [readFraction_of_stops hl, readExponent_of_stops hl, intOf_intText hm, and_self, if_true,
    Option.map_some]

/-! ### Values are read back -/

/-- The values that are read back: numbers are whole, and no key of an object is there twice. -/
inductive Written : Json → Prop
  | null : Written null
  | bool (b : Bool) : Written (bool b)
  | number {x : FloatValue} : IsWhole x → Written (number x)
  | string (s : String) : Written (string s)
  | array {elements : List Json} : (∀ v ∈ elements, Written v) → Written (array elements)
  | object {items : List (String × Json)} : DistinctKeys items → (∀ p ∈ items, Written p.2) →
      Written (object items)

variable {floatText : ℚ → List Char}

/-- What the text of a value begins with. -/
theorem head_dumps {v : Json} (h : Written v) : ∃ c l, dumps floatText v = c :: l ∧
    isBlank c = false ∧ c ≠ ']' ∧ c ≠ '\x7d' := by
  cases h with
  | null => exact ⟨'n', _, rfl, rfl, by decide, by decide⟩
  | bool b => cases b <;> exact ⟨_, _, rfl, rfl, by decide, by decide⟩
  | @number x hx =>
    obtain ⟨m, rfl, -⟩ := hx
    have htext : dumps floatText (number (.finite m)) = intText m := by
      rw [dumps, numberText, if_pos (Rat.den_intCast m), Rat.num_intCast]
    rw [htext]
    rcases hchars : intText m with _ | ⟨c, l⟩
    · exact absurd hchars (intText_ne_nil m)
    · refine ⟨c, l, rfl, ?_⟩
      rcases toNat_of_mem_intText (m := m) (by rw [hchars]; exact List.mem_cons_self) with rfl | hdigit
      · decide
      · refine ⟨?_, ?_, ?_⟩
        · rw [isBlank, Bool.eq_false_iff]
          intro hblank
          simp only [Bool.or_eq_true, decide_eq_true_eq] at hblank
          rcases hblank with ((rfl | rfl) | rfl) | rfl <;> cases hdigit
        · rintro rfl
          cases hdigit
        · rintro rfl
          cases hdigit
  | string s => exact ⟨'"', _, rfl, rfl, by decide, by decide⟩
  | @array elements _ =>
    rcases elements with _ | ⟨v, elements⟩ <;>
      exact ⟨'[', _, rfl, rfl, by decide, by decide⟩
  | @object items _ _ =>
    rcases items with _ | ⟨⟨key, v⟩, items⟩ <;>
      exact ⟨'\x7b', _, rfl, rfl, by decide, by decide⟩

theorem skip_cons {c : Char} (hc : isBlank c = false) (l : List Char) : skip (c :: l) = c :: l :=
  List.dropWhile_cons_of_neg (by simp [hc])

theorem skip_space (l : List Char) : skip (' ' :: l) = skip l := List.dropWhile_cons_of_pos rfl

theorem skip_dumps {v : Json} (h : Written v) (l : List Char) :
    skip (dumps floatText v ++ l) = dumps floatText v ++ l := by
  obtain ⟨c, l', hc, hblank, -⟩ := @head_dumps floatText _ h
  rw [hc]
  exact skip_cons hblank _

/-- The value is read back with every bound that is large enough. -/
def ReadBack (floatText : ℚ → List Char) (v : Json) : Prop :=
  ∀ n l, (dumps floatText v).length ≤ n → Stops l →
    readValue n (dumps floatText v ++ l) = some (v, l)

theorem stops_dumpElements (elements : List Json) (l : List Char) :
    Stops (dumpElements floatText elements ++ l) := by
  rcases elements with _ | ⟨v, elements⟩ <;> rw [dumpElements] <;> rintro c ⟨⟩ <;> decide

theorem stops_dumpItems (items : List (String × Json)) (l : List Char) :
    Stops (dumpItems floatText items ++ l) := by
  rcases items with _ | ⟨⟨key, v⟩, items⟩ <;> rw [dumpItems] <;> rintro c ⟨⟩ <;> decide

theorem length_dumpElements_pos (elements : List Json) :
    0 < (dumpElements floatText elements).length := by
  rcases elements with _ | ⟨v, elements⟩ <;> rw [dumpElements] <;> exact Nat.succ_pos _

theorem length_dumpItems_pos (items : List (String × Json)) :
    0 < (dumpItems floatText items).length := by
  rcases items with _ | ⟨⟨key, v⟩, items⟩ <;> rw [dumpItems] <;> exact Nat.succ_pos _

theorem readElements_close {n : ℕ} {l rest l' : List Char} {v : Json}
    (h : readValue n l = some (v, rest)) (hrest : skip rest = ']' :: l') (before : List Json) :
    readElements (n + 1) before l = some (array (before ++ [v]), l') := by
  rw [readElements, h, Option.bind_some, hrest]
  exact if_pos rfl

theorem readElements_comma {n : ℕ} {l rest l' : List Char} {v : Json}
    (h : readValue n l = some (v, rest)) (hrest : skip rest = ',' :: l') (before : List Json) :
    readElements (n + 1) before l = readElements n (before ++ [v]) (skip l') := by
  rw [readElements, h, Option.bind_some, hrest, if_neg (by simp)]
  exact if_pos rfl

/-- **Elements are read back**, after those that have been read. -/
theorem readElements_dump {elements : List Json} {v : Json} (hv : Written v ∧ ReadBack floatText v)
    (h : ∀ w ∈ elements, Written w ∧ ReadBack floatText w) (before : List Json) (l : List Char) {n : ℕ}
    (hn : (dumps floatText v).length + (dumpElements floatText elements).length ≤ n) :
    readElements n before (dumps floatText v ++ (dumpElements floatText elements ++ l)) =
      some (array (before ++ v :: elements), l) := by
  induction elements generalizing v before n with
  | nil =>
    have hpos := @length_dumpElements_pos floatText []
    obtain ⟨n, rfl⟩ := Nat.exists_eq_succ_of_ne_zero (n := n) (by omega)
    exact readElements_close (hv.2 n _ (by omega) (stops_dumpElements [] l)) (skip_cons rfl _) before
  | cons w elements ih =>
    obtain ⟨hw, h⟩ := List.forall_mem_cons.1 h
    have hskip : skip (dumpElements floatText (w :: elements) ++ l) =
        ',' :: ' ' :: (dumps floatText w ++ dumpElements floatText elements ++ l) := skip_cons rfl _
    have hlength : (dumpElements floatText (w :: elements)).length =
        (dumps floatText w).length + (dumpElements floatText elements).length + 2 := by
      rw [dumpElements, List.length_cons, List.length_cons, List.length_append]
    obtain ⟨n, rfl⟩ := Nat.exists_eq_succ_of_ne_zero (n := n) (by omega)
    rw [readElements_comma (hv.2 n _ (by omega) (stops_dumpElements _ l)) hskip, skip_space,
      List.append_assoc, skip_dumps hw.1, ih hw h _ (by omega), List.append_assoc]
    rfl

theorem readItems_close {n : ℕ} {l l₁ l₂ l₃ l₄ key : List Char} {v : Json}
    (hkey : scanString (l.length + 1) l = some (key, l₁)) (hcolon : skip l₁ = ':' :: l₂)
    (h : readValue n (skip l₂) = some (v, l₃)) (hrest : skip l₃ = '\x7d' :: l₄)
    (before : List (String × Json)) :
    readItems (n + 1) before ('"' :: l) =
      some (object (setKey before (String.ofList key) v), l₄) := by
  rw [readItems, if_pos List.head?_cons, List.tail_cons, hkey, Option.bind_some, hcolon,
    if_pos List.head?_cons, List.tail_cons, h, Option.bind_some, hrest]
  exact if_pos rfl

theorem readItems_comma {n : ℕ} {l l₁ l₂ l₃ l₄ key : List Char} {v : Json}
    (hkey : scanString (l.length + 1) l = some (key, l₁)) (hcolon : skip l₁ = ':' :: l₂)
    (h : readValue n (skip l₂) = some (v, l₃)) (hrest : skip l₃ = ',' :: l₄)
    (before : List (String × Json)) :
    readItems (n + 1) before ('"' :: l) =
      readItems n (setKey before (String.ofList key) v) (skip l₄) := by
  rw [readItems, if_pos List.head?_cons, List.tail_cons, hkey, Option.bind_some, hcolon,
    if_pos List.head?_cons, List.tail_cons, h, Option.bind_some, hrest, if_neg (by simp)]
  exact if_pos rfl

/-- **Items are read back**, after those that have been read. -/
theorem readItems_dump {items : List (String × Json)} {key : String} {v : Json}
    (hv : Written v ∧ ReadBack floatText v)
    (h : ∀ p ∈ items, Written p.2 ∧ ReadBack floatText p.2) (before : List (String × Json))
    (hkeys : DistinctKeys (before ++ (key, v) :: items)) (l : List Char) {n : ℕ}
    (hn : (dumps floatText v).length + (dumpItems floatText items).length ≤ n) :
    readItems n before ('"' :: (key.toList.flatMap escape ++
      '"' :: ':' :: ' ' :: (dumps floatText v ++ (dumpItems floatText items ++ l)))) =
      some (object (before ++ (key, v) :: items), l) := by
  induction items generalizing key v before n with
  | nil =>
    have hpos := @length_dumpItems_pos floatText []
    obtain ⟨n, rfl⟩ := Nat.exists_eq_succ_of_ne_zero (n := n) (by omega)
    have hread := hv.2 n (dumpItems floatText [] ++ l) (by omega) (stops_dumpItems [] l)
    rw [readItems_close (scanString_quote key _) (skip_cons rfl _)
      (by rw [skip_space, skip_dumps hv.1]; exact hread) (skip_cons rfl _),
      String.ofList_toList, setKey_new hkeys]
    rfl
  | cons p items ih =>
    obtain ⟨hp, h⟩ := List.forall_mem_cons.1 h
    have hskip : skip (dumpItems floatText (p :: items) ++ l) = ',' :: ' ' :: '"' ::
        (p.1.toList.flatMap escape ++ '"' :: ':' :: ' ' ::
          (dumps floatText p.2 ++ (dumpItems floatText items ++ l))) := by
      obtain ⟨key', w⟩ := p
      rw [dumpItems, quote]
      simp only [List.cons_append, List.append_assoc, List.nil_append]
      exact skip_cons rfl _
    have hlength : (dumps floatText p.2).length + (dumpItems floatText items).length <
        (dumpItems floatText (p :: items)).length := by
      obtain ⟨key', w⟩ := p
      rw [dumpItems]
      simp only [List.length_cons, List.length_append]
      omega
    obtain ⟨n, rfl⟩ := Nat.exists_eq_succ_of_ne_zero (n := n) (by omega)
    have hread := hv.2 n (dumpItems floatText (p :: items) ++ l) (by omega) (stops_dumpItems _ l)
    have hkeys' : DistinctKeys ((before ++ [(key, v)]) ++ (p.1, p.2) :: items) := by
      rwa [List.append_assoc]
    rw [readItems_comma (scanString_quote key _) (skip_cons rfl _)
      (by rw [skip_space, skip_dumps hv.1]; exact hread) hskip,
      String.ofList_toList, setKey_new hkeys, skip_space, skip_cons rfl, ih hp h _ hkeys' (by omega),
      List.append_assoc]
    rfl

theorem readWord_of_ne {α : Type} {word : String} {a : α} {c d : Char} {ds : List Char}
    (hword : word.toList = d :: ds) (h : d ≠ c) (l : List Char) : readWord word a (c :: l) = none := by
  rw [readWord, hword, if_neg]
  simp [h]

/-- The text of a number is a value of its own. -/
theorem readValue_number {x : FloatValue} (hx : IsWhole x) (n : ℕ) {l : List Char} (hl : Stops l) :
    readValue (n + 1) (numberText floatText x ++ l) = some (number x, l) := by
  have hread := readNumber_numberText floatText hx hl
  obtain ⟨c, l', hc, hchar⟩ : ∃ c l', numberText floatText x = c :: l' ∧ (c = '-' ∨ c.isDigit = true) := by
    obtain ⟨m, rfl, -⟩ := hx
    rw [numberText, if_pos (Rat.den_intCast m), Rat.num_intCast]
    rcases hchars : intText m with _ | ⟨c, l'⟩
    · exact absurd hchars (intText_ne_nil m)
    · exact ⟨c, l', rfl, toNat_of_mem_intText (m := m) (by rw [hchars]; exact List.mem_cons_self)⟩
  have hne : ∀ d : Char, d ≠ '-' → d.isDigit = false → d ≠ c := by
    rintro d hd hdigit rfl
    rcases hchar with rfl | h
    · exact hd rfl
    · rw [hdigit] at h
      cases h
  rw [hc, List.cons_append] at hread ⊢
  rw [readValue, if_neg (hne _ (by decide) rfl).symm, if_neg (hne _ (by decide) rfl).symm,
    if_neg (hne _ (by decide) rfl).symm, readAtom, readWord_of_ne rfl (hne 'n' (by decide) rfl),
    readWord_of_ne rfl (hne 't' (by decide) rfl), readWord_of_ne rfl (hne 'f' (by decide) rfl),
    Option.none_or, Option.none_or, Option.none_or, hread]
  rfl

/-- **Values are read back.** -/
theorem readBack {v : Json} (h : Written v) : ReadBack floatText v := by
  have hpos : ∀ {v : Json} {n : ℕ}, Written v → (dumps floatText v).length ≤ n → ∃ m, n = m + 1 := by
    intro v n hv hn
    obtain ⟨c, l, hc, -⟩ := @head_dumps floatText _ hv
    rw [hc, List.length_cons] at hn
    exact ⟨n - 1, by omega⟩
  induction h with
  | null =>
    intro n l hn _
    obtain ⟨n, rfl⟩ := hpos .null hn
    rfl
  | bool b =>
    intro n l hn _
    obtain ⟨n, rfl⟩ := hpos (.bool b) hn
    cases b <;> rfl
  | @number x hx =>
    intro n l hn hl
    obtain ⟨n, rfl⟩ := hpos (.number hx) hn
    exact readValue_number hx n hl
  | string s =>
    intro n l hn _
    obtain ⟨n, rfl⟩ := hpos (.string s) hn
    rw [dumps, quote, List.cons_append, List.append_assoc, List.singleton_append, readValue, if_pos rfl,
      scanString_quote, Option.map_some, String.ofList_toList]
  | @array elements helements ih =>
    intro n l hn _
    rcases elements with _ | ⟨v, elements⟩
    · obtain ⟨n, rfl⟩ := hpos (.array helements) hn
      rfl
    · obtain ⟨n, rfl⟩ := hpos (.array helements) hn
      have hall : ∀ w ∈ v :: elements, Written w ∧ ReadBack floatText w := fun w hw ↦
        ⟨helements w hw, ih w hw⟩
      obtain ⟨hv, hrest⟩ := List.forall_mem_cons.1 hall
      rw [dumps, List.length_cons, List.length_append] at hn
      obtain ⟨c, l', hc, -, hclose, -⟩ := @head_dumps floatText _ hv.1
      rw [dumps, List.cons_append, List.append_assoc, readValue, if_neg (by decide), if_pos rfl,
        skip_dumps hv.1, if_neg, readElements_dump hv hrest [] l (by omega), List.nil_append]
      rw [hc, List.cons_append, List.head?_cons, Option.some_inj]
      exact hclose
  | @object items hkeys hitems ih =>
    intro n l hn _
    rcases items with _ | ⟨⟨key, v⟩, items⟩
    · obtain ⟨n, rfl⟩ := hpos (.object hkeys hitems) hn
      rfl
    · obtain ⟨n, rfl⟩ := hpos (.object hkeys hitems) hn
      have hv : Written v ∧ ReadBack floatText v :=
        ⟨hitems _ List.mem_cons_self, ih _ List.mem_cons_self⟩
      have hrest : ∀ p ∈ items, Written p.2 ∧ ReadBack floatText p.2 := fun p hp ↦
        ⟨hitems p (List.mem_cons_of_mem _ hp), ih p (List.mem_cons_of_mem _ hp)⟩
      have htext : dumps floatText (object ((key, v) :: items)) ++ l = '\x7b' :: '"' ::
          (key.toList.flatMap escape ++
            '"' :: ':' :: ' ' :: (dumps floatText v ++ (dumpItems floatText items ++ l))) := by
        rw [dumps, quote]
        simp only [List.cons_append, List.append_assoc, List.nil_append]
      have hlength : (dumps floatText v).length + (dumpItems floatText items).length <
          (dumps floatText (object ((key, v) :: items))).length := by
        rw [dumps]
        simp only [List.length_cons, List.length_append]
        omega
      rw [htext, readValue, if_neg (by decide), if_neg (by decide), if_pos rfl, skip_cons rfl,
        if_neg (by simp), readItems_dump hv hrest [] hkeys l (by omega), List.nil_append]

/-- **The round trip**: what has been written is read back. -/
theorem loads_dumps {v : Json} (h : Written v) : loads (dumps floatText v) = some v := by
  have hread := @readBack floatText _ h ((dumps floatText v).length + 1) []
    (Nat.le_succ _) fun c hc ↦ (by cases hc)
  rw [List.append_nil] at hread
  have hskip := @skip_dumps floatText _ h []
  rw [List.append_nil] at hskip
  rw [loads, hskip, hread]
  rfl

end Json

end Nublado
