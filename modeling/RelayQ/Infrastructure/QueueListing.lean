import RelayQ.Infrastructure.RedisStream
import RelayQ.Program.Play
import Mathlib.Data.Finset.Sort
import Mathlib.Data.String.Basic

/-! # Listing queues

The transport finds the queues among the keys: `SCAN` goes through the keys page by page, and each
key it returns is taken apart at its colons.

* `queueOfKey`, `addKeys`: the name in a key, and the names in a page.
* `RedisStreamTransport.listQueues`: the loop, which ends when the cursor is zero. -/

namespace RelayQ

/-- The command of the loop. -/
inductive ScanOp
  /-- `SCAN cursor MATCH pattern COUNT count` -/
  | scan (cursor : ℕ) (pattern : String) (count : ℕ)

/-- The interface: a reply is the next cursor and a page of keys. -/
abbrev ScanSig : Signature := ⟨ScanOp, fun _ => ℕ × List Raw, PyExc⟩

/-- `key.split(":")` -/
def splitKey (key : String) : List String := (key.toList.splitOn ':').map String.ofList

/-- `parts[1]`, of at least three parts. -/
def queueOfKey (key : String) : Option String :=
  match splitKey key with
  | _ :: name :: _ :: _ => some name
  | _ => none

/-- The names in the keys of a page, with those found so far. -/
def addKeys (queues : Finset String) : List Raw → Except PyExc (Finset String)
  | [] => .ok queues
  | key :: keys =>
    match key.decode with
    | .error e => .error e
    | .ok key =>
      match queueOfKey key with
      | some name => addKeys (insert name queues) keys
      | none => addKeys queues keys

namespace RedisStreamTransport

variable (t : RedisStreamTransport)

/-- What the keys of streams look like. -/
def streamPattern : String := t.streamPrefix ++ ":*:stream"

/-- At most `fuel` rounds of the loop; `none` when it goes on after them. -/
def scanQueues : (fuel : ℕ) → (cursor : ℕ) → (queues : Finset String) →
    Prog ScanSig (Option (Finset String))
  | 0, _, _ => .ret none
  | fuel + 1, cursor, queues =>
    (Prog.perform (S := ScanSig) (.scan cursor t.streamPattern 100)).bind fun (cursor, keys) =>
      (Prog.ofExcept (S := ScanSig) (addKeys queues keys)).bind fun queues =>
        if cursor = 0 then .ret (some queues) else scanQueues fuel cursor queues

/-- `list_queues()` -/
def listQueues (fuel : ℕ) : Prog ScanSig (Option (List String)) :=
  (t.scanQueues fuel 0 ∅).bind fun queues => .ret (queues.map fun queues => queues.sort)

end RedisStreamTransport

/-! ## The names in keys -/

/-- A raw value is the bytes or the text of them. -/
def Raw.Shows (r : Raw) (b : Bytes) : Prop := r = .bytes b ∨ ∃ s, r = .text s ∧ utf8 s = b

/-- A reply that shows a text is decoded to it. -/
theorem Raw.Shows.decode {r : Raw} {s : String} (h : r.Shows (utf8 s)) : r.decode = .ok s := by
  rcases h with rfl | ⟨s', rfl, hs⟩
  · simp [Raw.decode]
  · have heq : s' = s := Option.some.inj (by rw [← utf8?_utf8 s', hs, utf8?_utf8])
    rw [heq]
    rfl

/-- The name in the key of a stream. -/
theorem queueOfKey_streamKey {t : RedisStreamTransport} (ht : ':' ∉ t.streamPrefix.toList)
    {queue : String} (hq : ':' ∉ queue.toList) : queueOfKey (t.streamKey queue) = some queue := by
  have hstream : ':' ∉ "stream".toList := by decide
  have hkey : (t.streamKey queue).toList =
      t.streamPrefix.toList ++ ':' :: (queue.toList ++ ':' :: "stream".toList) := by
    simp [RedisStreamTransport.streamKey]
  have hsplit : splitKey (t.streamKey queue) = [t.streamPrefix, queue, "stream"] := by
    rw [splitKey, hkey, List.splitOn_append_cons_self_of_not_mem ht,
      List.splitOn_append_cons_self_of_not_mem hq, List.splitOn_eq_singleton hstream]
    simp
  rw [queueOfKey, hsplit]

/-- **A page of stream keys** adds the names of the streams. -/
theorem addKeys_eq_ok {t : RedisStreamTransport} (ht : ':' ∉ t.streamPrefix.toList)
    {keys : List Raw} (h : ∀ key ∈ keys, ∃ queue : String, ':' ∉ queue.toList ∧
      key.Shows (utf8 (t.streamKey queue))) (queues : Finset String) :
    ∃ queues', addKeys queues keys = .ok queues' ∧ ∀ queue : String, queue ∈ queues' ↔
      queue ∈ queues ∨ ':' ∉ queue.toList ∧ ∃ key ∈ keys, key.Shows (utf8 (t.streamKey queue)) := by
  induction keys generalizing queues with
  | nil => exact ⟨queues, rfl, by simp⟩
  | cons key keys ih =>
    obtain ⟨⟨name, hname, hshows⟩, hkeys⟩ := List.forall_mem_cons.mp h
    obtain ⟨queues', hadd, hmem⟩ := ih hkeys (insert name queues)
    refine ⟨queues', ?_, fun queue => ?_⟩
    · simp only [addKeys, hshows.decode, queueOfKey_streamKey ht hname, hadd]
    · -- a key is that of one stream only
      have hkey : key.Shows (utf8 (t.streamKey queue)) ↔ queue = name := by
        constructor
        · intro hshows'
          have heq := hshows.decode.symm.trans hshows'.decode
          exact (t.streamKey_injective (Except.ok.inj heq)).symm
        · rintro rfl
          exact hshows
      rw [hmem, Finset.mem_insert]
      simp only [List.mem_cons, exists_eq_or_imp, hkey]
      constructor
      · rintro ((rfl | hq) | ⟨hq, hrest⟩)
        · exact .inr ⟨hname, .inl rfl⟩
        · exact .inl hq
        · exact .inr ⟨hq, .inr hrest⟩
      · rintro (hq | ⟨hq, rfl | hrest⟩)
        · exact .inl (.inr hq)
        · exact .inl (.inl rfl)
        · exact .inr ⟨hq, hrest⟩

end RelayQ
