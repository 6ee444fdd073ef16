import Mathlib.Algebra.Group.Nat.Defs
import Mathlib.Tactic.Common

/-! # Timestamps

Civil timestamps, with or without an offset from UTC, and their ISO 8601 texts in the extended
format of Python's `datetime.isoformat`.

* `DateTime`: a timestamp carries the proof that its fields are in range.
* `DateTime.print`, `DateTime.read`: the writer and the reader.
* `DateTime.read_print`: a timestamp is read back from its text. -/

namespace RelayQ

/-! ## Timestamps -/

/-- Is it a leap year? -/
def isLeapYear (year : Nat) : Bool := year % 4 == 0 && (year % 100 != 0 || year % 400 == 0)

/-- The number of days of a month. -/
def daysInMonth (year month : Nat) : Nat :=
  if month = 2 then if isLeapYear year then 29 else 28
  else if month = 4 ∨ month = 6 ∨ month = 9 ∨ month = 11 then 30
  else 31

/-- Are the fields of a timestamp in range? -/
def isDateTime (year month day hour minute second microsecond : Nat) (offset : Option Int) : Bool :=
  decide (1 ≤ year ∧ year ≤ 9999 ∧ 1 ≤ month ∧ month ≤ 12 ∧ 1 ≤ day ∧ day ≤ daysInMonth year month ∧
    hour < 24 ∧ minute < 60 ∧ second < 60 ∧ microsecond < 1000000 ∧
    ∀ s ∈ offset, -86400 < s ∧ s < 86400)

/-- A timestamp: civil time, and the offset from UTC in seconds when it is aware of one. -/
structure DateTime where
  year : Nat
  month : Nat
  day : Nat
  hour : Nat
  minute : Nat
  second : Nat
  microsecond : Nat
  offset : Option Int
  valid : isDateTime year month day hour minute second microsecond offset = true
  deriving DecidableEq

/-- The start of 1970 in UTC. -/
def DateTime.epoch : DateTime := ⟨1970, 1, 1, 0, 0, 0, 0, some 0, by decide⟩

/-! ## Numbers of a fixed width -/

/-- The last digits of a number. -/
def pad : Nat → Nat → List Char
  | 0, _ => []
  | w + 1, n => pad w (n / 10) ++ [(n % 10).digitChar]

/-- Read a number of so many digits. -/
def readPad (w : Nat) (cs : List Char) : Option (Nat × List Char) :=
  if (cs.take w).length = w ∧ (cs.take w).all Char.isDigit then
    some (Nat.ofDigitChars 10 (cs.take w) 0, cs.drop w)
  else none

/-- Read a character that is expected. -/
def expect (c : Char) : List Char → Option (List Char)
  | [] => none
  | d :: cs => if d = c then some cs else none

/-- The character that is expected is read. -/
@[simp] theorem expect_cons (c : Char) (cs : List Char) : expect c (c :: cs) = some cs := if_pos rfl

/-- A padded number has the width. -/
@[simp] theorem length_pad (w n : Nat) : (pad w n).length = w := by
  induction w generalizing n with
  | zero => rfl
  | succ w ih => rw [pad, List.length_append, ih, List.length_singleton]

/-- The digits of a number have its value. -/
theorem ofDigitChars_pad {w n : Nat} (h : n < 10 ^ w) : Nat.ofDigitChars 10 (pad w n) 0 = n := by
  induction w generalizing n with
  | zero =>
    rw [pad, Nat.ofDigitChars_nil]
    omega
  | succ w ih =>
    have hlt : n / 10 < 10 ^ w := by
      rw [Nat.pow_succ] at h
      omega
    rw [pad, Nat.ofDigitChars_append, ih hlt,
      Nat.ofDigitChars_cons_digitChar_of_lt_ten (Nat.mod_lt n (by decide)), Nat.ofDigitChars_nil]
    omega

/-- They are digits. -/
theorem isDigit_of_mem_pad {w n : Nat} {c : Char} (h : c ∈ pad w n) : c.isDigit = true := by
  have hdigit : ∀ d < 10, d.digitChar.isDigit = true := by decide
  induction w generalizing n with
  | zero => cases h
  | succ w ih =>
    rcases List.mem_append.mp h with h | h
    · exact ih h
    · exact List.mem_singleton.mp h ▸ hdigit _ (Nat.mod_lt n (by decide))

/-- A number of a fixed width is read back. -/
theorem readPad_pad {w n : Nat} (h : n < 10 ^ w) (cs : List Char) :
    readPad w (pad w n ++ cs) = some (n, cs) := by
  have htake : (pad w n ++ cs).take w = pad w n := by
    rw [List.take_append_of_le_length (Nat.le_of_eq (length_pad w n).symm),
      List.take_of_length_le (by simp)]
  have hdrop : (pad w n ++ cs).drop w = cs := by
    rw [List.drop_append_of_le_length (Nat.le_of_eq (length_pad w n).symm),
      List.drop_of_length_le (by simp), List.nil_append]
  have hall : (pad w n).all Char.isDigit = true :=
    List.all_eq_true.mpr fun c hc => isDigit_of_mem_pad hc
  rw [readPad, htake, hdrop, if_pos ⟨length_pad w n, hall⟩, ofDigitChars_pad h]

/-! ## Fractions and offsets -/

/-- The microseconds, when there are any. -/
def printFraction (microsecond : Nat) : List Char :=
  if microsecond = 0 then [] else '.' :: pad 6 microsecond

/-- Read the microseconds, if there are any. -/
def readFraction : List Char → Option (Nat × List Char)
  | [] => some (0, [])
  | c :: cs => if c = '.' then readPad 6 cs else some (0, c :: cs)

/-- The size of an offset; its seconds only when there are any. -/
def printSpan (s : Nat) : List Char :=
  pad 2 (s / 3600) ++ ':' :: (pad 2 (s / 60 % 60) ++ if s % 60 = 0 then [] else ':' :: pad 2 (s % 60))

/-- Read the seconds of an offset, if there are any. -/
def readSpanSeconds : List Char → Option Nat
  | [] => some 0
  | c :: cs =>
    if c = ':' then (readPad 2 cs).bind fun p => if p.2 = [] then some p.1 else none else none

/-- Read the size of an offset. -/
def readSpan (cs : List Char) : Option Nat :=
  (readPad 2 cs).bind fun h => (expect ':' h.2).bind fun cs => (readPad 2 cs).bind fun m =>
    (readSpanSeconds m.2).map fun s => h.1 * 3600 + m.1 * 60 + s

/-- The offset, when there is one. -/
def printOffset : Option Int → List Char
  | none => []
  | some s => (if s < 0 then '-' else '+') :: printSpan s.natAbs

/-- Read the offset, if there is one. -/
def readOffset : List Char → Option (Option Int)
  | [] => some none
  | c :: cs =>
    if c = '+' then (readSpan cs).map fun (s : Nat) => some (s : Int)
    else if c = '-' then (readSpan cs).map fun (s : Nat) => some (-(s : Int))
    else if c = 'Z' ∧ cs = [] then some (some 0)
    else none

/-- Offsets start with a sign. -/
theorem printOffset_head (o : Option Int) (c : Char) (h : c ∈ (printOffset o).head?) : c ≠ '.' := by
  cases o with
  | none => cases h
  | some s =>
    obtain rfl := Option.mem_some_iff.mp h
    split <;> decide

/-- The microseconds are read back. -/
theorem readFraction_print {n : Nat} (h : n < 1000000) (o : Option Int) :
    readFraction (printFraction n ++ printOffset o) = some (n, printOffset o) := by
  unfold printFraction
  split
  · rename_i h0
    rw [List.nil_append]
    cases ho : printOffset o with
    | nil => rw [readFraction, h0]
    | cons c cs =>
      have hc : c ≠ '.' := printOffset_head o c (by simp [ho])
      rw [readFraction, if_neg hc, h0]
  · rw [List.cons_append, readFraction, if_pos rfl, readPad_pad h]

/-- The size of an offset is read back. -/
theorem readSpan_print {s : Nat} (h : s < 86400) : readSpan (printSpan s) = some s := by
  have hsec : readSpanSeconds (if s % 60 = 0 then [] else ':' :: pad 2 (s % 60)) =
      some (s % 60) := by
    split
    · rename_i h0
      rw [readSpanSeconds, h0]
    · have hread := @readPad_pad 2 (s % 60) (by omega) []
      rw [List.append_nil] at hread
      rw [readSpanSeconds, if_pos rfl, hread]
      rfl
  rw [readSpan, printSpan, readPad_pad (by omega), Option.bind_some, expect_cons, Option.bind_some,
    readPad_pad (by omega), Option.bind_some, hsec, Option.map_some]
  exact congrArg some (by omega)

/-- The offset is read back. -/
theorem readOffset_print {o : Option Int} (h : ∀ s ∈ o, -86400 < s ∧ s < 86400) :
    readOffset (printOffset o) = some o := by
  cases o with
  | none => rfl
  | some s =>
    have hs := h s rfl
    have hspan := @readSpan_print s.natAbs (by omega)
    rw [printOffset]
    split
    · rw [readOffset, if_neg (by decide), if_pos rfl, hspan, Option.map_some]
      exact congrArg (fun x => some (some x)) (by omega)
    · rw [readOffset, if_pos rfl, hspan, Option.map_some]
      exact congrArg (fun x => some (some x)) (by omega)

/-! ## Timestamps as texts -/

namespace DateTime

/-- The text of a timestamp. -/
def print (t : DateTime) : List Char :=
  pad 4 t.year ++ '-' :: (pad 2 t.month ++ '-' :: (pad 2 t.day ++ 'T' :: (pad 2 t.hour ++
    ':' :: (pad 2 t.minute ++ ':' :: (pad 2 t.second ++
      (printFraction t.microsecond ++ printOffset t.offset))))))

/-- Read a timestamp: date, separator, time, and what there is of fraction and offset. -/
def read (cs : List Char) : Option DateTime := do
  let (year, cs) ← readPad 4 cs
  let cs ← expect '-' cs
  let (month, cs) ← readPad 2 cs
  let cs ← expect '-' cs
  let (day, cs) ← readPad 2 cs
  let (hour, cs) ← readPad 2 cs.tail
  let cs ← expect ':' cs
  let (minute, cs) ← readPad 2 cs
  let cs ← expect ':' cs
  let (second, cs) ← readPad 2 cs
  let (microsecond, cs) ← readFraction cs
  let offset ← readOffset cs
  if h : isDateTime year month day hour minute second microsecond offset = true then
    some ⟨year, month, day, hour, minute, second, microsecond, offset, h⟩
  else none

/-- The fields of a timestamp fit their widths. -/
theorem bounds (t : DateTime) : t.year < 10 ^ 4 ∧ t.month < 10 ^ 2 ∧ t.day < 10 ^ 2 ∧
    t.hour < 10 ^ 2 ∧ t.minute < 10 ^ 2 ∧ t.second < 10 ^ 2 ∧ t.microsecond < 1000000 ∧
    ∀ s ∈ t.offset, -86400 < s ∧ s < 86400 := by
  have hv := t.valid
  simp only [isDateTime, decide_eq_true_eq] at hv
  obtain ⟨-, hy, -, hmo, -, hd, hh, hmi, hs, hus, ho⟩ := hv
  have hdays : daysInMonth t.year t.month ≤ 31 := by
    unfold daysInMonth
    split_ifs <;> decide
  exact ⟨by omega, by omega, by omega, by omega, by omega, by omega, hus, ho⟩

/-- **A timestamp is read back from its text.** -/
theorem read_print (t : DateTime) : read t.print = some t := by
  obtain ⟨hy, hmo, hd, hh, hmi, hs, hus, ho⟩ := t.bounds
  simp only [read, print, readPad_pad hy, readPad_pad hmo, readPad_pad hd, readPad_pad hh,
    readPad_pad hmi, readPad_pad hs, readFraction_print hus, readOffset_print ho, expect_cons,
    List.tail_cons, Option.bind_eq_bind, Option.bind_some, t.valid, dite_true]

end DateTime

end RelayQ
