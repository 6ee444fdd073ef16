import Mathlib.Data.List.TakeWhile
import RelayQ.Json.Value

/-! # JSON texts

A writer and a reader of JSON in the format of Python's `json` module: ASCII only, `", "` and `": "`
as separators, lower-case escapes, surrogate pairs beyond the basic plane.

* `JVal.print`, `JVal.read`: the writer and the reader, over lists of characters.
* `JVal.read_print`: a well-formed value is read back from its text.
* `JVal.wf_of_read`: whatever is read is a well-formed value.

The reader is bounded by the length of its input. A text whose escapes leave a surrogate without
its partner denotes no list of characters and is refused. -/

namespace RelayQ

/-! ## Characters -/

/-- The whitespace of JSON. -/
def isJsonSpace (c : Char) : Bool := c == ' ' || c == '\t' || c == '\n' || c == '\r'

/-- Drop leading whitespace. -/
def skipSpace (cs : List Char) : List Char := cs.dropWhile isJsonSpace

/-- The characters numbers consist of. -/
def isNumChar (c : Char) : Bool :=
  c.isDigit || c == '-' || c == '+' || c == '.' || c == 'e' || c == 'E'

/-- Four hexadecimal digits. -/
def hex4 (n : Nat) : List Char :=
  [(n / 4096 % 16).digitChar, (n / 256 % 16).digitChar, (n / 16 % 16).digitChar,
    (n % 16).digitChar]

/-- The value of a hexadecimal digit. -/
def hexVal (c : Char) : Option Nat :=
  if c.isDigit then some (c.toNat - 48)
  else if 97 ≤ c.toNat ∧ c.toNat ≤ 102 then some (c.toNat - 87)
  else if 65 ≤ c.toNat ∧ c.toNat ≤ 70 then some (c.toNat - 55)
  else none

/-- Read four hexadecimal digits. -/
def readHex4 : List Char → Option (Nat × List Char)
  | a :: b :: c :: d :: cs => do
    let a ← hexVal a
    let b ← hexVal b
    let c ← hexVal c
    let d ← hexVal d
    some (a * 4096 + b * 256 + c * 16 + d, cs)
  | _ => none

/-- A digit is read back. -/
theorem hexVal_digitChar : ∀ d < 16, hexVal d.digitChar = some d := by decide

/-- Four digits are read back. -/
theorem readHex4_hex4 {n : Nat} (h : n < 65536) (cs : List Char) :
    readHex4 (hex4 n ++ cs) = some (n, cs) := by
  have hlt : ∀ m : Nat, m % 16 < 16 := fun m => Nat.mod_lt m (by decide)
  have hval : n / 4096 % 16 * 4096 + n / 256 % 16 * 256 + n / 16 % 16 * 16 + n % 16 = n := by omega
  simp only [hex4, List.cons_append, List.nil_append, readHex4, hexVal_digitChar _ (hlt _),
    Option.bind_eq_bind, Option.bind_some, hval]

/-! ## Strings -/

/-- A character as it stands in a string. -/
def escapeChar (c : Char) : List Char :=
  if c = '"' then ['\\', '"']
  else if c = '\\' then ['\\', '\\']
  else if c = '\n' then ['\\', 'n']
  else if c = '\r' then ['\\', 'r']
  else if c = '\t' then ['\\', 't']
  else if c = '\x08' then ['\\', 'b']
  else if c = '\x0c' then ['\\', 'f']
  else if 32 ≤ c.toNat ∧ c.toNat ≤ 126 then [c]
  else if c.toNat < 65536 then '\\' :: 'u' :: hex4 c.toNat
  else '\\' :: 'u' :: (hex4 (55296 + (c.toNat - 65536) / 1024) ++
    '\\' :: 'u' :: hex4 (56320 + (c.toNat - 65536) % 1024))

/-- A string, without its opening quote. -/
def printChars : List Char → List Char
  | [] => ['"']
  | c :: cs => escapeChar c ++ printChars cs

/-- The character an escape of one letter stands for. -/
def unescape (c : Char) : Option Char :=
  if c = '"' then some '"'
  else if c = '\\' then some '\\'
  else if c = '/' then some '/'
  else if c = 'b' then some '\x08'
  else if c = 'f' then some '\x0c'
  else if c = 'n' then some '\n'
  else if c = 'r' then some '\r'
  else if c = 't' then some '\t'
  else none

/-- Read the second half of a surrogate pair whose first half was `n`. -/
def readLowSurrogate (n : Nat) : List Char → Option (Char × List Char)
  | b :: u :: cs =>
    if b = '\\' ∧ u = 'u' then
      (readHex4 cs).bind fun p =>
        if 56320 ≤ p.1 ∧ p.1 ≤ 57343 then
          some (Char.ofNat (65536 + (n - 55296) * 1024 + (p.1 - 56320)), p.2)
        else none
    else none
  | _ => none

/-- Read the digits of a `\u` escape. -/
def readUnicode (cs : List Char) : Option (Char × List Char) :=
  (readHex4 cs).bind fun p =>
    if p.1 < 55296 ∨ 57343 < p.1 then some (Char.ofNat p.1, p.2)
    else if p.1 ≤ 56319 then readLowSurrogate p.1 p.2
    else none

/-- Read an escape after its backslash. -/
def readEscape : List Char → Option (Char × List Char)
  | [] => none
  | c :: cs => if c = 'u' then readUnicode cs else (unescape c).map fun e => (e, cs)

/-- Read a string after its opening quote. -/
def readCharsFuel : Nat → List Char → Option (List Char × List Char)
  | 0, _ => none
  | _ + 1, [] => none
  | n + 1, c :: cs =>
    if c = '"' then some ([], cs)
    else if c = '\\' then
      (readEscape cs).bind fun p => (readCharsFuel n p.2).map fun q => (p.1 :: q.1, q.2)
    else if c.toNat < 32 then none
    else (readCharsFuel n cs).map fun q => (c :: q.1, q.2)

/-- Read a string after its opening quote. -/
def readChars (cs : List Char) : Option (List Char × List Char) :=
  readCharsFuel (cs.length + 1) cs

/-- Every character beyond the basic plane is its two surrogates put together. -/
theorem surrogates_ofNat {n : Nat} (h : 65536 ≤ n) :
    65536 + (55296 + (n - 65536) / 1024 - 55296) * 1024 +
      (56320 + (n - 65536) % 1024 - 56320) = n := by
  omega

/-- The scalar value of a character. -/
theorem toNat_lt (c : Char) : c.toNat < 55296 ∨ 57343 < c.toNat ∧ c.toNat < 1114112 := c.valid

/-- A `\u` escape of a character in the basic plane is read back. -/
theorem readUnicode_basic {c : Char} (h : c.toNat < 65536) (cs : List Char) :
    readUnicode (hex4 c.toNat ++ cs) = some (c, cs) := by
  have hv : c.toNat < 55296 ∨ 57343 < c.toNat := by
    have := toNat_lt c
    omega
  rw [readUnicode, readHex4_hex4 h, Option.bind_some, if_pos hv, Char.ofNat_toNat]

/-- A surrogate pair is read back. -/
theorem readUnicode_pair {c : Char} (h : 65536 ≤ c.toNat) (cs : List Char) :
    readUnicode (hex4 (55296 + (c.toNat - 65536) / 1024) ++
      '\\' :: 'u' :: (hex4 (56320 + (c.toNat - 65536) % 1024) ++ cs)) = some (c, cs) := by
  have hv := toNat_lt c
  have hhi : 55296 + (c.toNat - 65536) / 1024 < 65536 := by omega
  have hlo : 56320 + (c.toNat - 65536) % 1024 < 65536 := by omega
  rw [readUnicode, readHex4_hex4 hhi, Option.bind_some, if_neg (by omega), if_pos (by omega),
    readLowSurrogate, if_pos ⟨rfl, rfl⟩, readHex4_hex4 hlo, Option.bind_some,
    if_pos (by omega), surrogates_ofNat h, Char.ofNat_toNat]

/-- An escaped character is read back as itself. -/
theorem readCharsFuel_escapeChar (c : Char) (n : Nat) (cs : List Char) :
    readCharsFuel (n + 1) (escapeChar c ++ cs) =
      (readCharsFuel n cs).map fun q => (c :: q.1, q.2) := by
  have hslash : ∀ (e : Char) (ds : List Char), e ≠ 'u' → unescape e = some c →
      readCharsFuel (n + 1) ('\\' :: e :: ds) =
        (readCharsFuel n ds).map fun q => (c :: q.1, q.2) := by
    intro e ds hu he
    rw [readCharsFuel, if_neg (by decide), if_pos rfl, readEscape, if_neg hu, he]
    rfl
  have hunicode : ∀ ds : List Char, readUnicode ds = some (c, cs) →
      readCharsFuel (n + 1) ('\\' :: 'u' :: ds) =
        (readCharsFuel n cs).map fun q => (c :: q.1, q.2) := by
    intro ds hds
    rw [readCharsFuel, if_neg (by decide), if_pos rfl, readEscape, if_pos rfl, hds]
    rfl
  unfold escapeChar
  split
  · exact hslash _ _ (by decide) (by simp [unescape, *])
  split
  · exact hslash _ _ (by decide) (by simp [unescape, *])
  split
  · exact hslash _ _ (by decide) (by simp [unescape, *])
  split
  · exact hslash _ _ (by decide) (by simp [unescape, *])
  split
  · exact hslash _ _ (by decide) (by simp [unescape, *])
  split
  · exact hslash _ _ (by decide) (by simp [unescape, *])
  split
  · exact hslash _ _ (by decide) (by simp [unescape, *])
  rename_i hquote hback _ _ _ _ _
  split
  · -- printable ASCII stands for itself
    rename_i hrange
    rw [List.singleton_append, readCharsFuel, if_neg hquote, if_neg hback, if_neg (by omega)]
  split
  · rename_i hlt
    exact hunicode _ (readUnicode_basic hlt cs)
  · rename_i hge
    rw [List.cons_append, List.cons_append, List.append_assoc, List.cons_append, List.cons_append]
    exact hunicode _ (readUnicode_pair (Nat.le_of_not_lt hge) cs)

/-- A string is read back, with enough fuel. -/
theorem readCharsFuel_printChars (s cs : List Char) {n : Nat} (h : s.length < n) :
    readCharsFuel n (printChars s ++ cs) = some (s, cs) := by
  induction s generalizing n with
  | nil =>
    obtain ⟨m, rfl⟩ := Nat.exists_eq_add_of_lt h
    rw [printChars, List.singleton_append, readCharsFuel, if_pos rfl]
  | cons c s ih =>
    obtain ⟨m, rfl⟩ : ∃ m, n = m + 1 := ⟨n - 1, by omega⟩
    rw [printChars, List.append_assoc, readCharsFuel_escapeChar,
      ih (by rw [List.length_cons] at h; omega)]
    rfl

/-- An escape is not empty. -/
theorem length_escapeChar_pos (c : Char) : 0 < (escapeChar c).length := by
  unfold escapeChar
  split_ifs <;> simp

/-- A string is no longer than its text. -/
theorem length_lt_printChars (s : List Char) : s.length < (printChars s).length := by
  induction s with
  | nil => simp [printChars]
  | cons c s ih =>
    have hpos := length_escapeChar_pos c
    rw [printChars, List.length_append, List.length_cons]
    omega

/-- **A string is read back.** -/
theorem readChars_printChars (s cs : List Char) : readChars (printChars s ++ cs) = some (s, cs) := by
  refine readCharsFuel_printChars s cs ?_
  have hlen := length_lt_printChars s
  rw [List.length_append]
  omega

/-! ## Numbers -/

/-- The text of an integer. -/
def printInt : Int → List Char
  | .ofNat n => Nat.toDigits 10 n
  | .negSucc n => '-' :: Nat.toDigits 10 (n + 1)

/-- The value of the text of an integer. -/
def intOfText : List Char → Int
  | [] => 0
  | c :: cs =>
    if c = '-' then -(Nat.ofDigitChars 10 cs 0 : Int) else (Nat.ofDigitChars 10 (c :: cs) 0 : Int)

/-- Read a number. -/
def readNumber (cs : List Char) : Option (JVal × List Char) :=
  let text := cs.takeWhile isNumChar
  if isIntText text then some (.int (intOfText text), cs.dropWhile isNumChar)
  else if isNumberText text then some (.float (String.ofList text), cs.dropWhile isNumChar)
  else none

/-- What follows does not go on with a number. -/
def EndsNumber (cs : List Char) : Prop := ∀ c ∈ cs.head?, isNumChar c = false

/-- A number ends where the characters of numbers end. -/
theorem takeWhile_number {t cs : List Char} (ht : ∀ c ∈ t, isNumChar c = true)
    (hcs : EndsNumber cs) :
    (t ++ cs).takeWhile isNumChar = t ∧ (t ++ cs).dropWhile isNumChar = cs := by
  rw [List.takeWhile_append_of_pos ht, List.dropWhile_append_of_pos ht]
  cases cs with
  | nil => simp
  | cons c cs =>
    have hc : isNumChar c = false := hcs c rfl
    simp [hc]

/-- What `dropDigits` drops are digits, at least one. -/
theorem dropDigits_spec {cs r : List Char} (h : dropDigits cs = some r) :
    ∃ t, cs = t ++ r ∧ t ≠ [] ∧ ∀ c ∈ t, c.isDigit = true := by
  cases cs with
  | nil => cases h
  | cons c cs =>
    rw [dropDigits] at h
    split at h
    · rename_i hc
      refine ⟨c :: cs.takeWhile Char.isDigit, ?_, by simp, ?_⟩
      · rw [← Option.some.inj h, List.cons_append, List.takeWhile_append_dropWhile]
      · intro d hd
        rcases List.mem_cons.mp hd with rfl | hd
        · exact hc
        · exact List.mem_takeWhile_imp hd
    · cases h

/-- Digits are characters of numbers. -/
theorem isNumChar_of_isDigit {c : Char} (h : c.isDigit = true) : isNumChar c = true := by
  simp [isNumChar, h]

/-- What `dropNat` drops are digits, at least one. -/
theorem dropNat_spec {cs r : List Char} (h : dropNat cs = some r) :
    ∃ t, cs = t ++ r ∧ t ≠ [] ∧ ∀ c ∈ t, c.isDigit = true := by
  unfold dropNat at h
  split at h
  · obtain rfl := Option.some.inj h
    exact ⟨['0'], rfl, by simp, by simp⟩
  · exact dropDigits_spec h

/-- What `dropInt` drops are characters of numbers, at least one, the first a digit or a minus. -/
theorem dropInt_spec {cs r : List Char} (h : dropInt cs = some r) :
    ∃ t, cs = t ++ r ∧ (∃ c ∈ t.head?, c = '-' ∨ c.isDigit = true) ∧
      ∀ c ∈ t, isNumChar c = true := by
  unfold dropInt at h
  split at h
  · obtain ⟨t, rfl, -, ht⟩ := dropNat_spec h
    refine ⟨'-' :: t, rfl, ⟨'-', rfl, .inl rfl⟩, ?_⟩
    intro c hc
    rcases List.mem_cons.mp hc with rfl | hc
    · decide
    · exact isNumChar_of_isDigit (ht c hc)
  · obtain ⟨t, rfl, hne, ht⟩ := dropNat_spec h
    obtain ⟨c, t, rfl⟩ := List.exists_cons_of_ne_nil hne
    exact ⟨c :: t, rfl, ⟨c, rfl, .inr (ht c (by simp))⟩, fun d hd => isNumChar_of_isDigit (ht d hd)⟩

/-- What `dropFraction` drops are characters of numbers. -/
theorem dropFraction_spec {cs r : List Char} (h : dropFraction cs = some r) :
    ∃ t, cs = t ++ r ∧ ∀ c ∈ t, isNumChar c = true := by
  unfold dropFraction at h
  split at h
  · obtain ⟨t, rfl, -, ht⟩ := dropDigits_spec h
    refine ⟨'.' :: t, rfl, ?_⟩
    intro c hc
    rcases List.mem_cons.mp hc with rfl | hc
    · decide
    · exact isNumChar_of_isDigit (ht c hc)
  · exact ⟨[], by simpa using h, by simp⟩

/-- What `dropSign` drops are characters of numbers. -/
theorem dropSign_spec (cs : List Char) :
    ∃ t, cs = t ++ dropSign cs ∧ ∀ c ∈ t, isNumChar c = true := by
  unfold dropSign
  split
  · exact ⟨['+'], rfl, fun c hc => by rw [List.mem_singleton.mp hc]; rfl⟩
  · exact ⟨['-'], rfl, fun c hc => by rw [List.mem_singleton.mp hc]; rfl⟩
  · exact ⟨[], rfl, by simp⟩

/-- What `dropExponent` drops are characters of numbers. -/
theorem dropExponent_spec {cs r : List Char} (h : dropExponent cs = some r) :
    ∃ t, cs = t ++ r ∧ ∀ c ∈ t, isNumChar c = true := by
  have hexp : ∀ {e : Char} {ds : List Char}, isNumChar e = true →
      dropDigits (dropSign ds) = some r → ∃ t, e :: ds = t ++ r ∧ ∀ c ∈ t, isNumChar c = true := by
    intro e ds he hds
    obtain ⟨t, heq, ht⟩ := dropSign_spec ds
    obtain ⟨t', heq', -, ht'⟩ := dropDigits_spec hds
    refine ⟨e :: (t ++ t'), by rw [List.cons_append, List.append_assoc, ← heq', ← heq], ?_⟩
    intro c hc
    rcases List.mem_cons.mp hc with rfl | hc
    · exact he
    · rcases List.mem_append.mp hc with hc | hc
      · exact ht c hc
      · exact isNumChar_of_isDigit (ht' c hc)
  unfold dropExponent at h
  split at h
  · exact hexp (by decide) h
  · exact hexp (by decide) h
  · exact ⟨[], by simpa using h, by simp⟩

/-- The text of a number consists of characters of numbers, the first a digit or a minus. -/
theorem isNumberText_spec {cs : List Char} (h : isNumberText cs = true) :
    (∃ c ∈ cs.head?, c = '-' ∨ c.isDigit = true) ∧ ∀ c ∈ cs, isNumChar c = true := by
  simp only [isNumberText, beq_iff_eq, Option.bind_eq_some_iff] at h
  obtain ⟨r₁, h₁, r₂, h₂, h₃⟩ := h
  obtain ⟨t₁, rfl, ⟨c, hc, hfirst⟩, ht₁⟩ := dropInt_spec h₁
  obtain ⟨t₂, rfl, ht₂⟩ := dropFraction_spec h₂
  obtain ⟨t₃, rfl, ht₃⟩ := dropExponent_spec h₃
  refine ⟨⟨c, ?_, hfirst⟩, ?_⟩
  · rw [List.head?_append, Option.mem_def.mp hc]
    rfl
  · intro d hd
    simp only [List.append_nil, List.mem_append] at hd
    rcases hd with hd | hd | hd
    · exact ht₁ d hd
    · exact ht₂ d hd
    · exact ht₃ d hd

/-- The digits of a positive number do not start with zero. -/
theorem head?_toDigits {n : Nat} (h : 0 < n) : (Nat.toDigits 10 n).head? ≠ some '0' := by
  induction n using Nat.strongRecOn with
  | _ n ih =>
    rcases Nat.lt_or_ge n 10 with hlt | hge
    · rw [Nat.toDigits_of_lt_base hlt, List.head?_cons]
      intro h0
      have := Nat.digitChar_eq_zero.mp (Option.some.inj h0)
      omega
    · have hrec := ih (n / 10) (Nat.div_lt_self h (by decide)) (by omega)
      rw [Nat.toDigits_of_base_le (by decide) hge, List.head?_append]
      cases hd : (Nat.toDigits 10 (n / 10)).head? with
      | none => exact absurd (List.head?_eq_none_iff.mp hd) Nat.toDigits_ne_nil
      | some c => rwa [hd] at hrec

/-- The digits of a number are the text of one. -/
theorem dropNat_toDigits (n : Nat) : dropNat (Nat.toDigits 10 n) = some [] := by
  have hdig : ∀ c ∈ Nat.toDigits 10 n, c.isDigit = true := fun c hc =>
    Nat.isDigit_of_mem_toDigits (by decide) (by decide) hc
  rcases Nat.eq_zero_or_pos n with rfl | hpos
  · rw [Nat.toDigits_zero]
    rfl
  have hdrop : dropDigits (Nat.toDigits 10 n) = some [] := by
    cases hd : Nat.toDigits 10 n with
    | nil => exact absurd hd Nat.toDigits_ne_nil
    | cons c cs =>
      rw [hd] at hdig
      have hrest : cs.dropWhile Char.isDigit = [] :=
        List.dropWhile_eq_nil_iff.mpr fun d hd => hdig d (by simp [hd])
      rw [dropDigits, if_pos (hdig c (by simp)), hrest]
  unfold dropNat
  split
  · -- no leading zero
    rename_i cs hcs
    exact absurd (by rw [hcs]; rfl) (head?_toDigits hpos)
  · exact hdrop

/-- The text of an integer is one, and has its value. -/
theorem printInt_spec (i : Int) :
    isIntText (printInt i) = true ∧ intOfText (printInt i) = i := by
  cases i with
  | ofNat n =>
    have hdig : ∀ c ∈ Nat.toDigits 10 n, c.isDigit = true := fun c hc =>
      Nat.isDigit_of_mem_toDigits (by decide) (by decide) hc
    cases hd : Nat.toDigits 10 n with
    | nil => exact absurd hd Nat.toDigits_ne_nil
    | cons c cs =>
      have hc : c ≠ '-' := by
        rintro rfl
        exact absurd (hdig '-' (by simp [hd])) (by decide)
      have hnat := dropNat_toDigits n
      have hval : Nat.ofDigitChars 10 (Nat.toDigits 10 n) 0 = n := Nat.ofDigitChars_ten_toDigits
      rw [hd] at hnat hval
      refine ⟨?_, ?_⟩
      · rw [printInt, hd, isIntText, beq_iff_eq, dropInt.eq_2 _ (by rintro ds ⟨⟩; exact hc rfl)]
        exact hnat
      · rw [printInt, hd, intOfText, if_neg hc, hval]
        rfl
  | negSucc n =>
    refine ⟨?_, ?_⟩
    · rw [printInt, isIntText, beq_iff_eq]
      exact dropNat_toDigits (n + 1)
    · rw [printInt, intOfText, if_pos rfl, Nat.ofDigitChars_ten_toDigits]
      rfl

/-- An integer text is a number text. -/
theorem isNumberText_of_isIntText {cs : List Char} (h : isIntText cs = true) :
    isNumberText cs = true := by
  rw [isIntText, beq_iff_eq] at h
  rw [isNumberText, h]
  rfl

/-- An integer is read back. -/
theorem readNumber_printInt (i : Int) {cs : List Char} (hcs : EndsNumber cs) :
    readNumber (printInt i ++ cs) = some (.int i, cs) := by
  obtain ⟨hint, hval⟩ := printInt_spec i
  obtain ⟨htake, hdrop⟩ :=
    takeWhile_number (isNumberText_spec (isNumberText_of_isIntText hint)).2 hcs
  rw [readNumber, htake, hdrop, if_pos hint, hval]

/-- A float with digits is read back. -/
theorem readNumber_float {t cs : List Char} (ht : isNumberText t = true)
    (hint : isIntText t = false) (hcs : EndsNumber cs) :
    readNumber (t ++ cs) = some (.float (String.ofList t), cs) := by
  obtain ⟨htake, hdrop⟩ := takeWhile_number (isNumberText_spec ht).2 hcs
  rw [readNumber, htake, hdrop, if_neg (by rw [hint]; decide), if_pos ht]

/-! ## Keywords -/

/-- The values that stand for themselves. -/
def keywords : List (List Char × JVal) :=
  [(['n', 'u', 'l', 'l'], .null), (['t', 'r', 'u', 'e'], .bool true),
    (['f', 'a', 'l', 's', 'e'], .bool false), (['N', 'a', 'N'], .float "NaN"),
    (['I', 'n', 'f', 'i', 'n', 'i', 't', 'y'], .float "Infinity"),
    (['-', 'I', 'n', 'f', 'i', 'n', 'i', 't', 'y'], .float "-Infinity")]

/-- Drop a text that is expected. -/
def dropText : List Char → List Char → Option (List Char)
  | [], cs => some cs
  | _ :: _, [] => none
  | k :: ks, c :: cs => if k = c then dropText ks cs else none

/-- Read one of the keywords. -/
def readKeyword : List (List Char × JVal) → List Char → Option (JVal × List Char)
  | [], _ => none
  | (k, v) :: ks, cs =>
    match dropText k cs with
    | some r => some (v, r)
    | none => readKeyword ks cs

/-- Read a value that is no string, array or object. -/
def readScalar (cs : List Char) : Option (JVal × List Char) :=
  (readKeyword keywords cs).or (readNumber cs)

/-- What starts with a digit, or with a minus and no letter, is no keyword. -/
theorem readKeyword_number {t cs : List Char} (ht : isNumberText t = true) :
    readKeyword keywords (t ++ cs) = none := by
  obtain ⟨⟨c, hc, hfirst⟩, -⟩ := isNumberText_spec ht
  obtain ⟨t', rfl⟩ : ∃ t', t = c :: t' := by
    cases t with
    | nil => cases hc
    | cons d t' => exact ⟨t', by rw [Option.mem_some_iff.mp hc]⟩
  rcases hfirst with rfl | hd
  · -- after a minus comes a digit
    cases t' with
    | nil => exact absurd ht (by decide)
    | cons d t'' =>
      have hne : 'I' ≠ d := by
        rintro rfl
        simp [isNumberText, dropInt, dropNat, dropDigits] at ht
      simp [readKeyword, keywords, dropText, hne]
  · have hne : ∀ k : Char, k.isDigit = false → k ≠ c := by
      rintro k hk rfl
      rw [hk] at hd
      cases hd
    simp [readKeyword, keywords, dropText, hne 'n' rfl, hne 't' rfl, hne 'f' rfl, hne 'N' rfl,
      hne 'I' rfl, hne '-' rfl]

/-- The first character of a float. -/
theorem isFloatText_head {cs : List Char} (h : isFloatText cs = true) :
    ∃ c ∈ cs.head?, c = '-' ∨ c.isDigit = true ∨ c = 'N' ∨ c = 'I' := by
  simp only [isFloatText, Bool.or_eq_true, beq_iff_eq, Bool.and_eq_true] at h
  rcases h with ((rfl | rfl) | rfl) | h
  · exact ⟨'N', rfl, by decide⟩
  · exact ⟨'I', rfl, by decide⟩
  · exact ⟨'-', rfl, by decide⟩
  · obtain ⟨⟨c, hc, hfirst⟩, -⟩ := isNumberText_spec h.1
    exact ⟨c, hc, by tauto⟩

/-- A float is read back. -/
theorem readScalar_float {r : String} (h : isFloatText r.toList = true) {cs : List Char}
    (hcs : EndsNumber cs) : readScalar (r.toList ++ cs) = some (.float r, cs) := by
  have hname : ∀ {s : String} {t : List Char}, r.toList = t → String.ofList t = s → r = s := by
    rintro s t rfl rfl
    exact String.ofList_toList.symm
  simp only [isFloatText, Bool.or_eq_true, beq_iff_eq, Bool.and_eq_true, Bool.not_eq_true'] at h
  rcases h with ((h | h) | h) | ⟨hn, hi⟩
  · obtain rfl : r = "NaN" := hname h rfl
    rfl
  · obtain rfl : r = "Infinity" := hname h rfl
    rfl
  · obtain rfl : r = "-Infinity" := hname h rfl
    rfl
  · rw [readScalar, readKeyword_number hn, Option.none_or, readNumber_float hn hi hcs,
      String.ofList_toList]

/-! ## Values -/

/-- Put an item into a dictionary: a key that is there keeps its place and takes the new value. -/
def insertItem (kvs : List (String × JVal)) (kv : String × JVal) : List (String × JVal) :=
  if kv.1 ∈ kvs.map Prod.fst then kvs.map fun p => if p.1 = kv.1 then kv else p else kvs ++ [kv]

/-- The dictionary of items in the order they are read. -/
def dictOf (kvs : List (String × JVal)) : List (String × JVal) := kvs.foldl insertItem []

/-- Items with distinct keys are a dictionary. -/
theorem dictOf_eq {kvs : List (String × JVal)} (h : (kvs.map Prod.fst).Nodup) :
    dictOf kvs = kvs := by
  have hfold : ∀ (l acc : List (String × JVal)), ((acc ++ l).map Prod.fst).Nodup →
      l.foldl insertItem acc = acc ++ l := by
    intro l
    induction l with
    | nil => simp
    | cons kv l ih =>
      intro acc hnd
      have hnew : kv.1 ∉ acc.map Prod.fst := by
        intro hmem
        rw [List.map_append, List.nodup_append] at hnd
        exact hnd.2.2 _ hmem _ (by simp) rfl
      rw [List.foldl_cons, insertItem, if_neg hnew, ih _ (by simpa using hnd)]
      simp
  simpa [dictOf] using hfold kvs [] (by simpa using h)

namespace JVal

mutual

/-- The text of a value. -/
def print : JVal → List Char
  | .null => ['n', 'u', 'l', 'l']
  | .bool true => ['t', 'r', 'u', 'e']
  | .bool false => ['f', 'a', 'l', 's', 'e']
  | .int i => printInt i
  | .float r => r.toList
  | .str s => '"' :: printChars s.toList
  | .arr xs => '[' :: printArr xs
  | .obj kvs => '{' :: printObj kvs

/-- The elements of an array and its bracket. -/
def printArr : List JVal → List Char
  | [] => [']']
  | x :: xs => x.print ++ printArrTail xs

/-- The elements that follow another one. -/
def printArrTail : List JVal → List Char
  | [] => [']']
  | x :: xs => ',' :: ' ' :: (x.print ++ printArrTail xs)

/-- The items of an object and its brace. -/
def printObj : List (String × JVal) → List Char
  | [] => ['}']
  | (k, v) :: kvs => '"' :: (printChars k.toList ++ ':' :: ' ' :: (v.print ++ printObjTail kvs))

/-- The items that follow another one. -/
def printObjTail : List (String × JVal) → List Char
  | [] => ['}']
  | (k, v) :: kvs => ',' :: ' ' ::
      ('"' :: (printChars k.toList ++ ':' :: ' ' :: (v.print ++ printObjTail kvs)))

end

/-- Read a key and the colon after it. -/
def readKey (cs : List Char) : Option (String × List Char) :=
  match skipSpace cs with
  | [] => none
  | c :: cs =>
    if c = '"' then
      (readChars cs).bind fun p =>
        match skipSpace p.2 with
        | [] => none
        | c :: cs => if c = ':' then some (String.ofList p.1, cs) else none
    else none

mutual

/-- Read a value; every value that is read inside another uses up one of the steps. -/
def readValue : Nat → List Char → Option (JVal × List Char)
  | 0, _ => none
  | n + 1, cs =>
    match skipSpace cs with
    | [] => none
    | c :: cs =>
      if c = '"' then (readChars cs).map fun p => (.str (String.ofList p.1), p.2)
      else if c = '[' then
        if (skipSpace cs).head? = some ']' then some (.arr [], (skipSpace cs).tail)
        else (readValue n cs).bind fun p =>
          (readArrTail n p.2).map fun q => (.arr (p.1 :: q.1), q.2)
      else if c = '{' then
        if (skipSpace cs).head? = some '}' then some (.obj [], (skipSpace cs).tail)
        else (readKey cs).bind fun p => (readValue n p.2).bind fun q =>
          (readObjTail n q.2).map fun r => (.obj (dictOf ((p.1, q.1) :: r.1)), r.2)
      else readScalar (c :: cs)

/-- Read what follows an element of an array. -/
def readArrTail : Nat → List Char → Option (List JVal × List Char)
  | 0, _ => none
  | n + 1, cs =>
    match skipSpace cs with
    | [] => none
    | c :: cs =>
      if c = ']' then some ([], cs)
      else if c = ',' then (readValue n cs).bind fun p =>
        (readArrTail n p.2).map fun q => (p.1 :: q.1, q.2)
      else none

/-- Read what follows an item of an object. -/
def readObjTail : Nat → List Char → Option (List (String × JVal) × List Char)
  | 0, _ => none
  | n + 1, cs =>
    match skipSpace cs with
    | [] => none
    | c :: cs =>
      if c = '}' then some ([], cs)
      else if c = ',' then (readKey cs).bind fun p => (readValue n p.2).bind fun q =>
        (readObjTail n q.2).map fun r => ((p.1, q.1) :: r.1, r.2)
      else none

end

/-- Read a text that is one value and whitespace around it. -/
def read (cs : List Char) : Option JVal :=
  (readValue (cs.length + 1) cs).bind fun p => if skipSpace p.2 = [] then some p.1 else none

/-! ## Round trip -/

/-- The first character of a value: no whitespace, and no closing bracket. -/
theorem print_head {v : JVal} (h : v.wf = true) :
    ∃ c cs, v.print = c :: cs ∧ isJsonSpace c = false ∧ c ≠ ']' := by
  have hnum : ∀ t : List Char, isNumberText t = true →
      ∃ c cs, t = c :: cs ∧ isJsonSpace c = false ∧ c ≠ ']' := by
    intro t ht
    obtain ⟨⟨c, hc, hfirst⟩, -⟩ := isNumberText_spec ht
    cases t with
    | nil => cases hc
    | cons d t =>
      obtain rfl := Option.mem_some_iff.mp hc
      refine ⟨d, t, rfl, ?_⟩
      rcases hfirst with rfl | hd
      · decide
      · refine ⟨?_, by rintro rfl; cases hd⟩
        -- none of the four blanks is a digit
        by_contra hsp
        simp only [isJsonSpace, Bool.not_eq_false, Bool.or_eq_true, beq_iff_eq] at hsp
        rcases hsp with ((rfl | rfl) | rfl) | rfl <;> cases hd
  cases v with
  | null => exact ⟨_, _, rfl, by decide⟩
  | bool b => cases b <;> exact ⟨_, _, rfl, by decide⟩
  | int i => exact hnum _ (isNumberText_of_isIntText (printInt_spec i).1)
  | float r =>
    simp only [wf, isFloatText, Bool.or_eq_true, beq_iff_eq, Bool.and_eq_true] at h
    rw [print]
    rcases h with ((h | h) | h) | h
    · exact ⟨_, _, h, by decide⟩
    · exact ⟨_, _, h, by decide⟩
    · exact ⟨_, _, h, by decide⟩
    · exact hnum _ h.1
  | str s => exact ⟨_, _, rfl, by decide⟩
  | arr xs => exact ⟨_, _, rfl, by decide⟩
  | obj kvs => exact ⟨_, _, rfl, by decide⟩

/-- Nothing is skipped before a character that is no whitespace. -/
theorem skipSpace_cons {c : Char} (h : isJsonSpace c = false) (cs : List Char) :
    skipSpace (c :: cs) = c :: cs := by
  simp [skipSpace, h]

/-- A blank is skipped. -/
theorem skipSpace_blank (cs : List Char) : skipSpace (' ' :: cs) = skipSpace cs := rfl

/-- Nothing is skipped before a value. -/
theorem skipSpace_print {v : JVal} (h : v.wf = true) (cs : List Char) :
    skipSpace (v.print ++ cs) = v.print ++ cs := by
  obtain ⟨c, ds, hv, hsp, -⟩ := print_head h
  rw [hv, List.cons_append, skipSpace_cons hsp]

/-- A key is read back. -/
theorem readKey_print (k : String) (cs : List Char) :
    readKey ('"' :: (printChars k.toList ++ ':' :: cs)) = some (k, cs) := by
  rw [readKey, skipSpace_cons (by decide)]
  simp only [if_true, readChars_printChars, Option.bind_some]
  rw [skipSpace_cons (by decide)]
  simp only [if_true, String.ofList_toList]

/-- Whitespace before a value is skipped by whoever reads it. -/
theorem readValue_blank (n : Nat) (cs : List Char) : readValue n (' ' :: cs) = readValue n cs := by
  cases n with
  | zero => rfl
  | succ n => rw [readValue, readValue, skipSpace_blank]

/-- Whitespace before a key is skipped by whoever reads it. -/
theorem readKey_blank (cs : List Char) : readKey (' ' :: cs) = readKey cs := by
  rw [readKey, readKey, skipSpace_blank]

/-- What follows an element ends a number. -/
theorem endsNumber_printArrTail (xs : List JVal) (cs : List Char) :
    EndsNumber (printArrTail xs ++ cs) := by
  cases xs <;> simp [printArrTail, EndsNumber, isNumChar]

/-- What follows an item ends a number. -/
theorem endsNumber_printObjTail (kvs : List (String × JVal)) (cs : List Char) :
    EndsNumber (printObjTail kvs ++ cs) := by
  cases kvs <;> simp [printObjTail, EndsNumber, isNumChar]

/-- A text that starts like a number or a name is read as a scalar. -/
theorem readValue_scalar {c : Char} {t : List Char} (hc : c ∈ t.head?)
    (hfirst : c = '-' ∨ c.isDigit = true ∨ c = 'N' ∨ c = 'I') (n : Nat) (cs : List Char) :
    readValue (n + 1) (t ++ cs) = readScalar (t ++ cs) := by
  obtain ⟨t', rfl⟩ : ∃ t', t = c :: t' := by
    cases t with
    | nil => cases hc
    | cons d t' => exact ⟨t', by rw [Option.mem_some_iff.mp hc]⟩
  have hne : ∀ k : Char, k ≠ '-' → k.isDigit = false → k ≠ 'N' → k ≠ 'I' → c ≠ k := by
    rintro k h₁ h₂ h₃ h₄ rfl
    rcases hfirst with h | h | h | h
    · exact h₁ h
    · rw [h₂] at h
      cases h
    · exact h₃ h
    · exact h₄ h
  have hsp : isJsonSpace c = false := by
    simp [isJsonSpace, hne ' ', hne '\t', hne '\n', hne '\r']
  rw [List.cons_append, readValue, skipSpace_cons hsp]
  simp [hne '"', hne '[', hne '{']

mutual

/-- A value is read back, with as many steps as its text is long. -/
theorem readValue_print : ∀ {v : JVal} {n : Nat} {cs : List Char}, v.wf = true →
    v.print.length ≤ n → EndsNumber cs → readValue n (v.print ++ cs) = some (v, cs)
  | v, 0, cs, hv, hn, _ => by
    obtain ⟨c, ds, hp, -⟩ := print_head hv
    rw [hp] at hn
    cases hn
  | .null, n + 1, cs, _, _, _ => rfl
  | .bool true, n + 1, cs, _, _, _ => rfl
  | .bool false, n + 1, cs, _, _, _ => rfl
  | .int i, n + 1, cs, _, _, hcs => by
    have hnum := isNumberText_of_isIntText (printInt_spec i).1
    obtain ⟨⟨c, hc, hfirst⟩, -⟩ := isNumberText_spec hnum
    rw [print, readValue_scalar hc (by tauto), readScalar, readKeyword_number hnum,
      Option.none_or, readNumber_printInt i hcs]
  | .float r, n + 1, cs, hv, _, hcs => by
    obtain ⟨c, hc, hfirst⟩ := isFloatText_head hv
    rw [print, readValue_scalar hc hfirst, readScalar_float hv hcs]
  | .str s, n + 1, cs, _, _, _ => by
    rw [print, List.cons_append, readValue, skipSpace_cons (by decide)]
    simp only [if_true, readChars_printChars, Option.map_some, String.ofList_toList]
  | .arr [], n + 1, cs, _, _, _ => rfl
  | .arr (x :: xs), n + 1, cs, hv, hn, _ => by
    simp only [wf, wfList, Bool.and_eq_true] at hv
    simp only [print, printArr, List.length_cons, List.length_append] at hn
    obtain ⟨c, ds, hp, hsp, hbracket⟩ := print_head hv.1
    have hx : readValue n (x.print ++ (printArrTail xs ++ cs)) = some (x, printArrTail xs ++ cs) :=
      readValue_print hv.1 (by omega)
      (endsNumber_printArrTail xs cs)
    have hxs : readArrTail n (printArrTail xs ++ cs) = some (xs, cs) := readArrTail_print hv.2 (by omega)
    -- the reader looks for an empty array first; an element does not start with the bracket
    have hopen : (skipSpace (x.print ++ (printArrTail xs ++ cs))).head? ≠ some ']' := by
      rw [skipSpace_print hv.1, hp, List.cons_append, List.head?_cons]
      exact fun h => hbracket (Option.some.inj h)
    rw [print, printArr, List.cons_append, List.append_assoc, readValue, skipSpace_cons (by decide)]
    simp only [Char.reduceEq, if_false, if_true, if_neg hopen, hx, Option.bind_some, hxs,
      Option.map_some]
  | .obj [], n + 1, cs, _, _, _ => rfl
  | .obj ((k, v) :: kvs), n + 1, cs, hv, hn, _ => by
    simp only [wf, wfItems, Bool.and_eq_true, decide_eq_true_eq] at hv
    simp only [print, printObj, List.length_cons, List.length_append] at hn
    have hx : readValue n (v.print ++ (printObjTail kvs ++ cs)) = some (v, printObjTail kvs ++ cs) :=
      readValue_print hv.2.1 (by omega)
      (endsNumber_printObjTail kvs cs)
    have hxs : readObjTail n (printObjTail kvs ++ cs) = some (kvs, cs) := readObjTail_print hv.2.2 (by omega)
    rw [print, printObj]
    simp only [List.cons_append, List.append_assoc]
    rw [readValue, skipSpace_cons (by decide)]
    -- nor does a key start with the brace
    have hopen : (skipSpace ('"' :: (printChars k.toList ++
        ':' :: ' ' :: (v.print ++ (printObjTail kvs ++ cs))))).head? ≠ some '}' := by
      rw [skipSpace_cons (by decide), List.head?_cons]
      exact fun h => absurd (Option.some.inj h) (by decide)
    simp only [Char.reduceEq, if_false, if_true, if_neg hopen, readKey_print, Option.bind_some,
      readValue_blank, hx, hxs, Option.map_some, dictOf_eq hv.1]

/-- The rest of an array is read back. -/
theorem readArrTail_print : ∀ {xs : List JVal} {n : Nat} {cs : List Char}, wfList xs = true →
    (printArrTail xs).length ≤ n → readArrTail n (printArrTail xs ++ cs) = some (xs, cs)
  | [], n + 1, cs, _, _ => rfl
  | x :: xs, n + 1, cs, hv, hn => by
    simp only [wfList, Bool.and_eq_true] at hv
    simp only [printArrTail, List.length_cons, List.length_append] at hn
    have hx : readValue n (x.print ++ (printArrTail xs ++ cs)) = some (x, printArrTail xs ++ cs) :=
      readValue_print hv.1 (by omega)
      (endsNumber_printArrTail xs cs)
    have hxs : readArrTail n (printArrTail xs ++ cs) = some (xs, cs) := readArrTail_print hv.2 (by omega)
    rw [printArrTail]
    simp only [List.cons_append, List.append_assoc]
    rw [readArrTail, skipSpace_cons (by decide)]
    simp only [Char.reduceEq, if_false, if_true, readValue_blank, hx, Option.bind_some, hxs,
      Option.map_some]
  | [], 0, cs, _, hn => by cases hn
  | x :: xs, 0, cs, _, hn => by cases hn

/-- The rest of an object is read back. -/
theorem readObjTail_print : ∀ {kvs : List (String × JVal)} {n : Nat} {cs : List Char},
    wfItems kvs = true → (printObjTail kvs).length ≤ n →
    readObjTail n (printObjTail kvs ++ cs) = some (kvs, cs)
  | [], n + 1, cs, _, _ => rfl
  | (k, v) :: kvs, n + 1, cs, hv, hn => by
    simp only [wfItems, Bool.and_eq_true] at hv
    simp only [printObjTail, List.length_cons, List.length_append] at hn
    have hx : readValue n (v.print ++ (printObjTail kvs ++ cs)) = some (v, printObjTail kvs ++ cs) :=
      readValue_print hv.1 (by omega)
      (endsNumber_printObjTail kvs cs)
    have hxs : readObjTail n (printObjTail kvs ++ cs) = some (kvs, cs) := readObjTail_print hv.2 (by omega)
    rw [printObjTail]
    simp only [List.cons_append, List.append_assoc]
    rw [readObjTail, skipSpace_cons (by decide)]
    simp only [Char.reduceEq, if_false, if_true, readKey_blank, readKey_print, Option.bind_some,
      readValue_blank, hx, hxs, Option.map_some]
  | [], 0, cs, _, hn => by cases hn
  | (k, v) :: kvs, 0, cs, _, hn => by cases hn

end

/-- **A well-formed value is read back from its text.** -/
theorem read_print {v : JVal} (h : v.wf = true) : read v.print = some v := by
  have hend : EndsNumber [] := by
    intro c hc
    cases hc
  have hv : readValue (v.print.length + 1) (v.print ++ []) = some (v, []) :=
    readValue_print h (Nat.le_succ _) hend
  rw [List.append_nil] at hv
  rw [read, hv]
  rfl

/-- An object in an array, with an escape, and numbers of both kinds. -/
example : read "[\x7b\"a\": \"\\u00e9\"\x7d, -1, 2.5e3]".toList =
    some (.arr [.obj [("a", .str "é")], .int (-1), .float "2.5e3"]) := by rfl

/-! ## What is read -/

/-- Members are well formed when each value is. -/
theorem wfItems_iff {kvs : List (String × JVal)} :
    wfItems kvs = true ↔ ∀ kv ∈ kvs, kv.2.wf = true := by
  induction kvs with
  | nil => simp [wfItems]
  | cons kv kvs ih => simp [wfItems, ih]

/-- Putting an item into a dictionary keeps the keys distinct. -/
theorem nodup_insertItem {kvs : List (String × JVal)} (h : (kvs.map Prod.fst).Nodup)
    (kv : String × JVal) : ((insertItem kvs kv).map Prod.fst).Nodup := by
  unfold insertItem
  split
  · have hkeys : (kvs.map fun p => if p.1 = kv.1 then kv else p).map Prod.fst =
        kvs.map Prod.fst := by
      rw [List.map_map]
      refine List.map_congr_left fun p _ => ?_
      by_cases hp : p.1 = kv.1 <;> simp [hp]
    rwa [hkeys]
  · rename_i hnew
    rw [List.map_append]
    refine h.append (List.nodup_singleton _) fun k hk hk' => ?_
    rw [List.map_singleton, List.mem_singleton] at hk'
    exact hnew (hk' ▸ hk)

/-- What is in a dictionary was there or was put in. -/
theorem mem_insertItem {kvs : List (String × JVal)} {kv p : String × JVal}
    (h : p ∈ insertItem kvs kv) : p ∈ kvs ∨ p = kv := by
  unfold insertItem at h
  split at h
  · obtain ⟨q, hq, rfl⟩ := List.mem_map.mp h
    split
    · exact .inr rfl
    · exact .inl hq
  · exact (List.mem_append.mp h).imp_right List.mem_singleton.mp

/-- A dictionary of well-formed values is well formed. -/
theorem wf_dictOf {kvs : List (String × JVal)} (h : wfItems kvs = true) :
    (obj (dictOf kvs)).wf = true := by
  have hfold : ∀ (l acc : List (String × JVal)), (acc.map Prod.fst).Nodup →
      (∀ kv ∈ acc, kv.2.wf = true) → (∀ kv ∈ l, kv.2.wf = true) →
      ((l.foldl insertItem acc).map Prod.fst).Nodup ∧
        ∀ kv ∈ l.foldl insertItem acc, kv.2.wf = true := by
    intro l
    induction l with
    | nil => exact fun acc hnodup hacc _ => ⟨hnodup, hacc⟩
    | cons kv l ih =>
      intro acc hnodup hacc hl
      refine ih (insertItem acc kv) (nodup_insertItem hnodup kv) (fun p hp => ?_)
        fun p hp => hl p (List.mem_cons_of_mem _ hp)
      rcases mem_insertItem hp with hp | rfl
      · exact hacc p hp
      · exact hl p List.mem_cons_self
  obtain ⟨hnodup, hwf⟩ := hfold kvs [] List.nodup_nil (List.forall_mem_nil _) (wfItems_iff.mp h)
  rw [wf, Bool.and_eq_true, decide_eq_true_iff]
  exact ⟨hnodup, wfItems_iff.mpr hwf⟩

/-- A keyword that is read is one of the list. -/
theorem mem_of_readKeyword {ks : List (List Char × JVal)} {cs r : List Char} {v : JVal}
    (h : readKeyword ks cs = some (v, r)) : ∃ k, (k, v) ∈ ks := by
  induction ks with
  | nil => cases h
  | cons kv ks ih =>
    rw [readKeyword] at h
    split at h
    · cases h
      exact ⟨kv.1, List.mem_cons_self⟩
    · obtain ⟨k, hk⟩ := ih h
      exact ⟨k, List.mem_cons_of_mem _ hk⟩

/-- A number that is read is well formed. -/
theorem wf_of_readNumber {cs r : List Char} {v : JVal} (h : readNumber cs = some (v, r)) :
    v.wf = true := by
  rw [readNumber] at h
  split at h
  · cases h
    rfl
  · rename_i hint
    split at h
    · rename_i hnum
      cases h
      simp [wf, isFloatText, hnum, Bool.eq_false_iff.mpr hint]
    · cases h

/-- A scalar that is read is well formed. -/
theorem wf_of_readScalar {cs r : List Char} {v : JVal} (h : readScalar cs = some (v, r)) :
    v.wf = true := by
  rcases Option.or_eq_some_iff.mp h with h | ⟨-, h⟩
  · have hall : (keywords.all fun kv => kv.2.wf) = true := rfl
    obtain ⟨k, hk⟩ := mem_of_readKeyword h
    exact List.all_eq_true.mp hall _ hk
  · exact wf_of_readNumber h

mutual

/-- A value that is read is well formed. -/
theorem wf_of_readValue : ∀ {n : Nat} {cs r : List Char} {v : JVal},
    readValue n cs = some (v, r) → v.wf = true
  | 0, _, _, _, h => by cases h
  | n + 1, cs, r, v, h => by
    rw [readValue] at h
    split at h
    · cases h
    · rename_i c cs hsp
      split at h
      · obtain ⟨p, -, hp⟩ := Option.map_eq_some_iff.mp h
        cases hp
        rfl
      · split at h
        · split at h
          · cases h
            rfl
          · obtain ⟨p, hp, hrest⟩ := Option.bind_eq_some_iff.mp h
            obtain ⟨q, hq, hv⟩ := Option.map_eq_some_iff.mp hrest
            cases hv
            simp only [wf, wfList, Bool.and_eq_true]
            exact ⟨wf_of_readValue hp, wf_of_readArrTail hq⟩
        · split at h
          · split at h
            · cases h
              rfl
            · obtain ⟨p, hp, hrest⟩ := Option.bind_eq_some_iff.mp h
              obtain ⟨q, hq, hrest⟩ := Option.bind_eq_some_iff.mp hrest
              obtain ⟨kvs, hkvs, hv⟩ := Option.map_eq_some_iff.mp hrest
              cases hv
              refine wf_dictOf ?_
              simp only [wfItems, Bool.and_eq_true]
              exact ⟨wf_of_readValue hq, wf_of_readObjTail hkvs⟩
          · exact wf_of_readScalar h

/-- The elements that are read are well formed. -/
theorem wf_of_readArrTail : ∀ {n : Nat} {cs r : List Char} {xs : List JVal},
    readArrTail n cs = some (xs, r) → wfList xs = true
  | 0, _, _, _, h => by cases h
  | n + 1, cs, r, xs, h => by
    rw [readArrTail] at h
    split at h
    · cases h
    · split at h
      · cases h
        rfl
      · split at h
        · obtain ⟨p, hp, hrest⟩ := Option.bind_eq_some_iff.mp h
          obtain ⟨q, hq, hv⟩ := Option.map_eq_some_iff.mp hrest
          cases hv
          simp only [wfList, Bool.and_eq_true]
          exact ⟨wf_of_readValue hp, wf_of_readArrTail hq⟩
        · cases h

/-- The items that are read are well formed. -/
theorem wf_of_readObjTail : ∀ {n : Nat} {cs r : List Char} {kvs : List (String × JVal)},
    readObjTail n cs = some (kvs, r) → wfItems kvs = true
  | 0, _, _, _, h => by cases h
  | n + 1, cs, r, kvs, h => by
    rw [readObjTail] at h
    split at h
    · cases h
    · split at h
      · cases h
        rfl
      · split at h
        · obtain ⟨p, hp, hrest⟩ := Option.bind_eq_some_iff.mp h
          obtain ⟨q, hq, hrest⟩ := Option.bind_eq_some_iff.mp hrest
          obtain ⟨u, hu, hv⟩ := Option.map_eq_some_iff.mp hrest
          cases hv
          simp only [wfItems, Bool.and_eq_true]
          exact ⟨wf_of_readValue hq, wf_of_readObjTail hu⟩
        · cases h

end

/-- **Every value that is read is well formed.** -/
theorem wf_of_read {cs : List Char} {v : JVal} (h : read cs = some v) : v.wf = true := by
  obtain ⟨p, hp, hrest⟩ := Option.bind_eq_some_iff.mp h
  split at hrest
  · cases hrest
    exact wf_of_readValue hp
  · cases hrest

end JVal

end RelayQ
