import RelayQ.Api.Endpoint
import Mathlib.Data.String.Basic

/-! # The size of stream entries

A request is validated by the size of its payload alone, and what is appended to the stream is the
dictionary of the whole job. The payload stands in it as it stood when it was measured; identifiers
print as they are, and every other text takes at most twelve bytes for each of its characters.

* `utf8Len_printChars`: the size of a string, by the size of its escapes.
* `DateTime.length_print`, `utf8Len_printInt`: the sizes of timestamps and of small numbers.
* `Arrival.bodyBound`: every body that a request appends is bounded. -/

namespace RelayQ

open String (utf8Len)

/-! ## Sizes of texts -/

/-- The length of a text in bytes. -/
theorem length_utf8 (cs : List Char) : (utf8 (String.ofList cs)).length = utf8Len cs := by
  rw [← String.utf8ByteSize_ofList, utf8, Array.length_toList]
  rfl

/-- A hexadecimal digit is one byte. -/
theorem utf8Size_digitChar : ∀ d < 16, d.digitChar.utf8Size = 1 := by decide

/-- The digits of an escape are four bytes. -/
theorem utf8Len_hex4 (n : Nat) : utf8Len (hex4 n) = 4 := by
  simp [hex4, utf8Len, utf8Size_digitChar, Nat.mod_lt]

/-- **An escaped character takes at most twelve bytes.** -/
theorem utf8Len_escapeChar (c : Char) : utf8Len (escapeChar c) ≤ 12 := by
  have hascii : '"'.utf8Size = 1 ∧ '\\'.utf8Size = 1 ∧ 'u'.utf8Size = 1 ∧ 'n'.utf8Size = 1 ∧
      'r'.utf8Size = 1 ∧ 't'.utf8Size = 1 ∧ 'b'.utf8Size = 1 ∧ 'f'.utf8Size = 1 := by decide
  have hself := Char.utf8Size_le_four c
  unfold escapeChar
  split_ifs
  all_goals
    simp only [String.utf8Len_cons, String.utf8Len_append, String.utf8Len_nil, utf8Len_hex4, hascii]
    omega

/-- The characters of identifiers stand as they are. -/
theorem utf8Len_escapeChar_identifier {c : Char}
    (h : (c.isAlphanum || c == '_' || c == '.' || c == '-') = true) :
    utf8Len (escapeChar c) = 1 := by
  have hascii : ∀ n < 128,
      ((Char.ofNat n).isAlphanum || Char.ofNat n == '_' || Char.ofNat n == '.' ||
        Char.ofNat n == '-') = true → utf8Len (escapeChar (Char.ofNat n)) = 1 := by decide
  -- identifiers are ASCII, so that all of their characters can be tried out
  have hlt : c.toNat < 128 := by
    delta Char.isAlphanum Char.isAlpha Char.isUpper Char.isLower Char.isDigit at h
    simp only [Bool.or_eq_true, Bool.and_eq_true, decide_eq_true_eq, beq_iff_eq,
      UInt32.le_iff_toNat_le, ge_iff_le] at h
    rcases h with ((((h | h) | h) | rfl) | rfl) | rfl
    · exact Nat.lt_of_le_of_lt h.2 (by decide)
    · exact Nat.lt_of_le_of_lt h.2 (by decide)
    · exact Nat.lt_of_le_of_lt h.2 (by decide)
    all_goals decide
  have hc := hascii c.toNat hlt
  rw [Char.ofNat_toNat] at hc
  exact hc h

/-- A string takes its characters' escapes and a quote. -/
theorem utf8Len_printChars {k : Nat} {cs : List Char}
    (h : ∀ c ∈ cs, utf8Len (escapeChar c) ≤ k) :
    utf8Len (printChars cs) ≤ k * cs.length + 1 := by
  induction cs with
  | nil => simp [printChars, utf8Len, Char.utf8Size]
  | cons c cs ih =>
    have hc := h c List.mem_cons_self
    have hcs := ih fun c' hc' => h c' (List.mem_cons_of_mem _ hc')
    rw [printChars, String.utf8Len_append, List.length_cons, Nat.mul_succ]
    omega

/-- A text of bounded length takes bounded space. -/
theorem utf8Len_printChars_le {n : Nat} {cs : List Char} (h : cs.length ≤ n) :
    utf8Len (printChars cs) ≤ 12 * n + 1 :=
  (utf8Len_printChars fun c _ => utf8Len_escapeChar c).trans
    (Nat.add_le_add_right (Nat.mul_le_mul_left 12 h) 1)

/-- An identifier takes as many bytes as it has characters. -/
theorem utf8Len_printChars_identifier {s : String} (h : isIdentifier s = true) :
    utf8Len (printChars s.toList) ≤ 101 := by
  rw [isIdentifier, Bool.and_eq_true, List.all_eq_true, decide_eq_true_eq] at h
  have hchars := utf8Len_printChars (k := 1) fun c hc =>
    (utf8Len_escapeChar_identifier (h.1 c hc)).le
  rw [String.length_toList] at hchars
  omega

/-- A timestamp has at most thirty-five characters. -/
theorem DateTime.length_print (t : DateTime) : t.print.length ≤ 35 := by
  have hfraction : (printFraction t.microsecond).length ≤ 7 := by
    unfold printFraction
    split <;> simp
  have hspan : ∀ n, (printSpan n).length ≤ 8 := by
    intro n
    unfold printSpan
    split <;> simp
  have hoffset : (printOffset t.offset).length ≤ 9 := by
    unfold printOffset
    split
    · simp
    · exact Nat.succ_le_succ (hspan _)
  simp only [DateTime.print, List.length_append, List.length_cons, length_pad]
  omega

/-- A budget of retries has at most two digits. -/
theorem utf8Len_printInt {i : Int} (h : 0 ≤ i ∧ i ≤ 25) : utf8Len (printInt i) ≤ 2 := by
  have hall : ∀ n < 26, utf8Len (printInt (.ofNat n)) ≤ 2 := by decide
  obtain ⟨n, rfl⟩ := Int.eq_ofNat_of_zero_le h.1
  exact hall n (by omega)

/-! ## The size of a job -/

/-- The quote in front is one byte. -/
theorem utf8Len_print_str (s : String) :
    utf8Len (JVal.str s).print = utf8Len (printChars s.toList) + 1 := by
  have hquote : '"'.utf8Size = 1 := by decide
  rw [JVal.print, String.utf8Len_cons, hquote]

/-- The first item of an object. -/
theorem utf8Len_print_obj (k : String) (v : JVal) (kvs : List (String × JVal)) :
    utf8Len (JVal.obj ((k, v) :: kvs)).print =
      utf8Len (printChars k.toList) + utf8Len v.print + utf8Len (JVal.printObjTail kvs) + 4 := by
  have hascii : '"'.utf8Size = 1 ∧ ' '.utf8Size = 1 ∧ ':'.utf8Size = 1 ∧ '{'.utf8Size = 1 := by
    decide
  simp only [JVal.print, JVal.printObj, String.utf8Len_cons, String.utf8Len_append, hascii]
  omega

/-- An item that follows another one. -/
theorem utf8Len_printObjTail (k : String) (v : JVal) (kvs : List (String × JVal)) :
    utf8Len (JVal.printObjTail ((k, v) :: kvs)) =
      utf8Len (printChars k.toList) + utf8Len v.print + utf8Len (JVal.printObjTail kvs) + 5 := by
  have hascii : '"'.utf8Size = 1 ∧ ' '.utf8Size = 1 ∧ ':'.utf8Size = 1 ∧ ','.utf8Size = 1 := by
    decide
  simp only [JVal.printObjTail, String.utf8Len_cons, String.utf8Len_append, hascii]
  omega

/-- The dictionary of a job is its payload and little else. -/
theorem utf8Len_toDict {j : Job} {k : Nat} (hid : j.id.length ≤ 20)
    (hkind : isIdentifier j.kind = true) (hqueue : isIdentifier j.queue = true)
    (hstatus : j.status = .pending) (hattempts : j.attempts = 0)
    (hretries : 0 ≤ j.maxRetries ∧ j.maxRetries ≤ 25)
    (hkey : ∀ key ∈ j.idempotencyKey, key.length ≤ 200)
    (hpayload : utf8Len j.payload.toJVal.print ≤ k) : utf8Len j.toDict.print ≤ k + 4096 := by
  have hid' : utf8Len (printChars j.id.toList) ≤ 12 * 20 + 1 := utf8Len_printChars_le hid
  have hkind' := utf8Len_printChars_identifier hkind
  have hqueue' := utf8Len_printChars_identifier hqueue
  have hcreated := utf8Len_printChars_le j.createdAt.length_print
  have hkey' : utf8Len (JVal.ofOptStr j.idempotencyKey).print ≤ 2402 := by
    cases hk : j.idempotencyKey with
    | none => decide
    | some key =>
      have hprint : utf8Len (printChars key.toList) ≤ 12 * 200 + 1 :=
        utf8Len_printChars_le (hkey key hk)
      rw [JVal.ofOptStr, utf8Len_print_str]
      omega
  -- what does not depend on the job: the keys, the status and the number of attempts
  have hkeys : utf8Len (printChars "id".toList) + utf8Len (printChars "kind".toList) +
      utf8Len (printChars "payload".toList) + utf8Len (printChars "status".toList) +
      utf8Len (printChars "created_at".toList) + utf8Len (printChars "attempts".toList) +
      utf8Len (printChars "max_retries".toList) + utf8Len (printChars "idempotency_key".toList) +
      utf8Len (printChars "queue".toList) = 77 := by decide
  have hpending : utf8Len (printChars "pending".toList) = 8 := by decide
  have hzero : utf8Len (JVal.int 0).print = 1 := by decide
  have hint : utf8Len (JVal.int j.maxRetries).print ≤ 2 := utf8Len_printInt hretries
  have hclose : utf8Len (JVal.printObjTail []) = 1 := by decide
  have hiso : (Codec.isoformat j.createdAt).toList = j.createdAt.print := String.toList_ofList
  rw [Job.toDict, utf8Len_print_obj]
  simp only [utf8Len_printObjTail, utf8Len_print_str, hstatus, JobStatus.value, hattempts, hpending,
    hzero, hclose, hiso]
  omega

/-! ## The bodies a request appends -/

/-- The call appends such a body, if it appends any. -/
def Op.Appends (ok : Body → Prop) : Op → Prop
  | .redis (.xadd _ body _) => ok body
  | _ => True

namespace Arrival

variable (r : Arrival)

/-- The job that is appended is the one built from the request, with the key of the request. -/
theorem keyedJob_args : r.args.keyedJob = { r.job with idempotencyKey := r.request.idempotencyKey } := by
  unfold EnqueueArgs.keyedJob
  rw [key?_args]
  cases r.request.idempotencyKey <;> rfl

/-- A request appends no body but that of its job. -/
theorem calls_handle (app : Api) : (app.handle r).Calls (Op.Appends fun body =>
    body = [(utf8 "job", utf8 (Codec.dumps r.args.keyedJob.toDict))]) := by
  obtain ⟨_ | enqueuer⟩ := app
  · -- without an enqueuer nothing is called
    have hserver : ∀ e, (serverError e).Calls (Op.Appends fun body =>
        body = [(utf8 "job", utf8 (Codec.dumps r.args.keyedJob.toDict))]) := by
      intro e
      unfold serverError
      split
      · exact .ret _
      · exact .raise _
    refine .tryExcept ?_ hserver
    unfold rateLimitMiddleware
    split
    · exact .raise _
    · exact .ret _
    · exact .ret _
  · refine .of_wp (wp_handle enqueuer r) fun ph o hg => ?_
    cases o with
    | redis c =>
      cases c with
      | xadd k body limit => exact hg.2.2.2.1
      | _ => trivial
    | _ => trivial

/-- **Accepted payloads bound what is appended**: whatever is answered meanwhile, a request appends
no body but that of its job, and this is at most 4096 bytes longer than a payload may be. The id of the
job is drawn as `job_` and sixteen digits. -/
theorem bodyBound (app : Api) (r : Arrival) (hid : ∃ hex : String, hex.length = 16 ∧
    r.jobId = "job_" ++ hex) :
    (app.handle r).Calls (Op.Appends fun body =>
        body = [(utf8 "job", utf8 (Codec.dumps r.args.keyedJob.toDict))]) ∧
      (utf8 (Codec.dumps r.args.keyedJob.toDict)).length ≤ maxPayloadBytes + 4096 := by
  constructor
  · exact r.calls_handle app
  · obtain ⟨hex, hlen, hdrawn⟩ := hid
    have hpayload := r.request.payload_bounded
    change (utf8 (String.ofList _)).length ≤ _ at hpayload
    change (utf8 (String.ofList _)).length ≤ _
    rw [length_utf8] at hpayload ⊢
    rw [keyedJob_args]
    refine utf8Len_toDict ?_ r.request.kind_valid r.request.queue_valid rfl rfl
      r.request.retries_bounded (fun key hkey => (r.request.key_length key hkey).2) hpayload
    change r.jobId.length ≤ 20
    rw [hdrawn, String.length_append, hlen]
    decide

/-- A small request. -/
theorem bodyBound_sample :
    (utf8 (Codec.dumps (Sample.arrival "job_0123456789abcdef").args.keyedJob.toDict)).length ≤
      maxPayloadBytes + 4096 :=
  (bodyBound ⟨none⟩ (Sample.arrival "job_0123456789abcdef")
    ⟨"0123456789abcdef", by decide, rfl⟩).2

end Arrival

end RelayQ
