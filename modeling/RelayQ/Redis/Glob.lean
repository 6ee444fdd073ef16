import Mathlib.Data.List.Infix

/-! # Glob patterns

The patterns of `SCAN`, over bytes: `*`, `?`, `[...]` with ranges and `^`, and the backslash.

* `GlobToken`, `globTokens`: a pattern read as a list of tokens.
* `globMatch`: a key matches a pattern.
* `globMatch_star_iff`: a pattern with one star between literal texts. -/

namespace RelayQ.Redis

/-- A part of a pattern. -/
inductive GlobToken
  /-- Any bytes. -/
  | star
  /-- Any byte. -/
  | any
  /-- This byte. -/
  | byte (b : UInt8)
  /-- A byte in one of the ranges, or in none of them. -/
  | range (negated : Bool) (ranges : List (UInt8 × UInt8))

/-- What has been read of the part of a pattern that is being read. -/
inductive GlobMode
  | plain
  /-- After a backslash. -/
  | escape
  /-- After an opening bracket. -/
  | opened
  /-- In brackets, with the ranges so far. -/
  | brackets (negated : Bool) (ranges : List (UInt8 × UInt8))
  /-- After a backslash in brackets. -/
  | bracketEscape (negated : Bool) (ranges : List (UInt8 × UInt8))
  /-- After a byte in brackets that may begin a range. -/
  | begun (negated : Bool) (ranges : List (UInt8 × UInt8)) (b : UInt8)
  /-- After the dash of a range. -/
  | dashed (negated : Bool) (ranges : List (UInt8 × UInt8)) (b : UInt8)

/-- Read a byte in brackets. -/
def globBracket (negated : Bool) (ranges : List (UInt8 × UInt8)) (c : UInt8) :
    GlobMode × List GlobToken :=
  if c = 93 then (.plain, [.range negated ranges])
  else if c = 92 then (.bracketEscape negated ranges, [])
  else (.begun negated ranges c, [])

/-- Read a byte of a pattern. -/
def globNext : GlobMode → UInt8 → GlobMode × List GlobToken
  | .plain, c =>
    if c = 42 then (.plain, [.star])
    else if c = 63 then (.plain, [.any])
    else if c = 91 then (.opened, [])
    else if c = 92 then (.escape, [])
    else (.plain, [.byte c])
  | .escape, c => (.plain, [.byte c])
  | .opened, c => if c = 94 then (.brackets true [], []) else globBracket false [] c
  | .brackets negated ranges, c => globBracket negated ranges c
  | .bracketEscape negated ranges, c => (.brackets negated ((c, c) :: ranges), [])
  | .begun negated ranges b, c =>
    if c = 45 then (.dashed negated ranges b, []) else globBracket negated ((b, b) :: ranges) c
  | .dashed negated ranges b, c => (.brackets negated ((min b c, max b c) :: ranges), [])

/-- The end of a pattern, which closes brackets. -/
def globEnd : GlobMode → List GlobToken
  | .plain => []
  | .escape => [.byte 92]
  | .opened => [.range false []]
  | .brackets negated ranges => [.range negated ranges]
  | .bracketEscape negated ranges => [.range negated ((92, 92) :: ranges)]
  | .begun negated ranges b => [.range negated ((b, b) :: ranges)]
  | .dashed negated ranges b => [.range negated ((45, 45) :: (b, b) :: ranges)]

/-- Read a pattern. -/
def globTokens (m : GlobMode) : List UInt8 → List GlobToken
  | [] => globEnd m
  | c :: p => (globNext m c).2 ++ globTokens (globNext m c).1 p

/-- The bytes are as the tokens say. -/
def tokensMatch : List GlobToken → List UInt8 → Bool
  | [], s => s.isEmpty
  | .star :: ts, s => s.tails.any (tokensMatch ts)
  | .any :: ts, _ :: s => tokensMatch ts s
  | .byte b :: ts, c :: s => b == c && tokensMatch ts s
  | .range negated ranges :: ts, c :: s =>
    (ranges.any (fun r => r.1 ≤ c && c ≤ r.2) != negated) && tokensMatch ts s
  | _ :: _, [] => false

/-- The key matches the pattern. -/
def globMatch (pattern key : List UInt8) : Bool := tokensMatch (globTokens .plain pattern) key

/-- A byte that has a meaning in patterns. -/
def IsGlob (b : UInt8) : Prop := b = 42 ∨ b = 63 ∨ b = 91 ∨ b = 92

variable {lit suffix key : List UInt8} {ts : List GlobToken}

/-- Other bytes stand for themselves. -/
theorem globTokens_append (h : ∀ b ∈ lit, ¬ IsGlob b) (p : List UInt8) :
    globTokens .plain (lit ++ p) = lit.map .byte ++ globTokens .plain p := by
  induction lit with
  | nil => rfl
  | cons b lit ih =>
    obtain ⟨hb, hlit⟩ := List.forall_mem_cons.mp h
    have hb : b ≠ 42 ∧ b ≠ 63 ∧ b ≠ 91 ∧ b ≠ 92 := by
      simpa [IsGlob] using hb
    simp [globTokens, globNext, hb, ih hlit]

/-- A literal text matches itself. -/
theorem tokensMatch_byte_append :
    tokensMatch (lit.map .byte ++ ts) key = true ↔
      ∃ rest, key = lit ++ rest ∧ tokensMatch ts rest = true := by
  induction lit generalizing key with
  | nil => simp
  | cons b lit ih =>
    cases key with
    | nil => simp [tokensMatch]
    | cons c key =>
      simp only [List.map_cons, List.cons_append, tokensMatch, Bool.and_eq_true, beq_iff_eq, ih,
        List.cons.injEq]
      constructor
      · rintro ⟨rfl, rest, rfl, hrest⟩
        exact ⟨rest, ⟨rfl, rfl⟩, hrest⟩
      · rintro ⟨rest, ⟨rfl, rfl⟩, hrest⟩
        exact ⟨rfl, rest, rfl, hrest⟩

/-- **A star between literal texts** matches the keys that begin with the one and go on to end with
the other. -/
theorem globMatch_star_iff (hlit : ∀ b ∈ lit, ¬ IsGlob b) (hsuffix : ∀ b ∈ suffix, ¬ IsGlob b) :
    globMatch (lit ++ 42 :: suffix) key = true ↔ ∃ middle, key = lit ++ (middle ++ suffix) := by
  have htokens : globTokens .plain suffix = suffix.map .byte := by
    simpa [globTokens, globEnd] using globTokens_append hsuffix []
  have hsuf : ∀ rest, tokensMatch (suffix.map .byte) rest = true ↔ rest = suffix := by
    intro rest
    rw [← List.append_nil (suffix.map _), tokensMatch_byte_append]
    simp [tokensMatch]
  have hstar : globTokens .plain (42 :: suffix) = .star :: globTokens .plain suffix := rfl
  rw [globMatch, globTokens_append hlit, hstar, htokens, tokensMatch_byte_append]
  simp only [tokensMatch, List.any_eq_true, List.mem_tails, hsuf]
  constructor
  · rintro ⟨rest, rfl, _, ⟨middle, rfl⟩, rfl⟩
    exact ⟨middle, rfl⟩
  · rintro ⟨middle, rfl⟩
    exact ⟨middle ++ suffix, rfl, suffix, ⟨middle, rfl⟩, rfl⟩

/-- `h[a-c]?` matches `hbx`. -/
example : globMatch [104, 91, 97, 45, 99, 93, 63] [104, 98, 120] = true := by decide

end RelayQ.Redis
