import RelayQ.Api.Endpoint
import RelayQ.Infrastructure.QueueListing
import RelayQ.Redis.Glob

/-! # Queue discovery

What the pattern of the transport matches among its keys are the keys of streams, and a name without
colons is what stands between the colons of its key. So the names that are found are those of the
streams, however `SCAN` deals the keys out.

* `Iteration`, `Scans`: what is relied on of `SCAN`.
* `RedisStreamTransport.Layout`: the keys that exist.
* `RedisStreamTransport.lists_queues`: `list_queues` returns the names of the streams. -/

namespace RelayQ

/-- The pages of an iteration of `SCAN` from a cursor on. Each command sends the cursor of the reply
before it, and the reply to the last one has cursor zero. -/
inductive Iteration (env : ScanSig.Env) (pattern : String) (count : ℕ) :
    List ScanSig.Answered → ℕ → List (List Raw) → Prop
  | last {h : List ScanSig.Answered} {cursor : ℕ} {page : List Raw} :
      env h (.scan cursor pattern count) = .ok (0, page) → Iteration env pattern count h cursor [page]
  | more {h : List ScanSig.Answered} {cursor next : ℕ} {page : List Raw} {pages : List (List Raw)} :
      env h (.scan cursor pattern count) = .ok (next, page) → next ≠ 0 →
      Iteration env pattern count (⟨.scan cursor pattern count, .ok (next, page)⟩ :: h) next pages →
      Iteration env pattern count h cursor (page :: pages)

/-- `SCAN` over these keys: the cursor reaches zero, what is returned are keys that exist and match
the pattern, and each of them is returned at least once. -/
def Scans (env : ScanSig.Env) (pattern : String) (count : ℕ) (keys : Set Bytes) : Prop :=
  ∃ pages, Iteration env pattern count [] 0 pages ∧
    (∀ page ∈ pages, ∀ r ∈ page, ∃ key ∈ keys, Redis.globMatch (utf8 pattern) key = true ∧
      r.Shows key) ∧
    ∀ key ∈ keys, Redis.globMatch (utf8 pattern) key = true →
      ∃ page ∈ pages, ∃ r ∈ page, r.Shows key

/-- A valid name has no colon. -/
theorem colon_not_mem_of_isIdentifier {queue : String} (h : isIdentifier queue = true) :
    ':' ∉ queue.toList := by
  intro hmem
  rw [isIdentifier, Bool.and_eq_true, List.all_eq_true] at h
  have hcolon := h.1 ':' hmem
  revert hcolon
  decide

namespace RedisStreamTransport

variable (t : RedisStreamTransport)

/-- The prefix has neither colons nor characters with a meaning in patterns. -/
def PlainPrefix : Prop := ∀ c ∈ t.streamPrefix.toList, c ∉ [':', '*', '?', '[', '\\']

/-- The keys that exist: streams and dead-letter streams of queues with valid names, and keys outside
the prefix. -/
def Layout (keys : Set Bytes) : Prop :=
  ∀ key ∈ keys, (∃ queue, isIdentifier queue = true ∧
      (key = utf8 (t.streamKey queue) ∨ key = utf8 (t.dlqKey queue))) ∨
    ¬ utf8 (t.streamPrefix ++ ":") <+: key

variable {t} {keys : Set Bytes}

/-- A plain prefix has no colon. -/
theorem PlainPrefix.colon_not_mem (h : t.PlainPrefix) : ':' ∉ t.streamPrefix.toList :=
  fun hmem => h ':' hmem (by simp)

/-- What the pattern of the transport matches. -/
theorem globMatch_streamPattern (h : t.PlainPrefix) {key : Bytes} :
    Redis.globMatch (utf8 t.streamPattern) key = true ↔
      ∃ middle, key = utf8 (t.streamPrefix ++ ":") ++ (middle ++ utf8 ":stream") := by
  have hpattern : utf8 t.streamPattern =
      utf8 (t.streamPrefix ++ ":") ++ 42 :: utf8 ":stream" := by
    have hstar : utf8 ":*:stream" = utf8 ":" ++ 42 :: utf8 ":stream" := by decide
    rw [streamPattern, utf8_append, utf8_append, hstar, List.append_assoc]
  have hsuffix : utf8 ":stream" = [58, 115, 116, 114, 101, 97, 109] := by decide
  rw [hpattern]
  refine Redis.globMatch_star_iff (fun b hb hglob => ?_) (by simp [hsuffix, Redis.IsGlob])
  -- a byte with a meaning is a character of its own, and the prefix has none of these
  have hlt : b.toNat < 128 := by
    rcases hglob with rfl | rfl | rfl | rfl <;> decide
  obtain ⟨c, hc, hcb⟩ := exists_mem_of_mem_utf8 hlt hb
  have hmeaning : c ∈ ['*', '?', '[', '\\'] := by
    rcases hglob with rfl | rfl | rfl | rfl
    · simp [show c = '*' from Char.toNat_inj.mp hcb]
    · simp [show c = '?' from Char.toNat_inj.mp hcb]
    · simp [show c = '[' from Char.toNat_inj.mp hcb]
    · simp [show c = '\\' from Char.toNat_inj.mp hcb]
  rw [String.toList_append, List.mem_append] at hc
  rcases hc with hc | hc
  · exact h c hc (List.mem_cons_of_mem _ hmeaning)
  · obtain rfl : c = ':' := by simpa using hc
    revert hmeaning
    decide

/-- **Among the keys of the layout the pattern matches those of streams.** -/
theorem Layout.globMatch_iff (hkeys : t.Layout keys) (h : t.PlainPrefix) {key : Bytes}
    (hkey : key ∈ keys) : Redis.globMatch (utf8 t.streamPattern) key = true ↔
      ∃ queue, isIdentifier queue = true ∧ key = utf8 (t.streamKey queue) := by
  rw [globMatch_streamPattern h]
  constructor
  · rintro ⟨middle, rfl⟩
    rcases hkeys _ hkey with ⟨queue, hqueue, hstream | hdlq⟩ | houtside
    · exact ⟨queue, hqueue, hstream⟩
    · -- the last letters differ
      have hlast := congrArg List.getLast? hdlq
      have hm : (utf8 ":stream").getLast? = some 109 := by decide
      have hq : (utf8 ":dlq").getLast? = some 113 := by decide
      simp only [dlqKey, utf8_append, List.getLast?_append, hm, hq] at hlast
      simp at hlast
    · exact absurd (List.prefix_append _ _) houtside
  · rintro ⟨queue, -, rfl⟩
    exact ⟨utf8 queue, by simp [streamKey, utf8_append]⟩

/-- **The loop finds what the pages show.** -/
theorem gives_scanQueues (ht : ':' ∉ t.streamPrefix.toList) {env : ScanSig.Env}
    {h : List ScanSig.Answered} {cursor : ℕ} {pages : List (List Raw)}
    (hiter : Iteration env t.streamPattern 100 h cursor pages)
    (hpages : ∀ page ∈ pages, ∀ r ∈ page, ∃ queue : String, ':' ∉ queue.toList ∧
      r.Shows (utf8 (t.streamKey queue))) {fuel : ℕ} (hfuel : pages.length ≤ fuel)
    (queues : Finset String) :
    Prog.Gives env (t.scanQueues fuel cursor queues) h fun found _ => ∃ queues', found = some queues' ∧
      ∀ queue : String, queue ∈ queues' ↔ queue ∈ queues ∨ ':' ∉ queue.toList ∧
        ∃ page ∈ pages, ∃ r ∈ page, r.Shows (utf8 (t.streamKey queue)) := by
  induction hiter generalizing fuel queues with
  | @last h cursor page hreply =>
    obtain ⟨fuel, rfl⟩ : ∃ n, fuel = n + 1 := ⟨fuel - 1, by simp at hfuel; omega⟩
    obtain ⟨queues', hadd, hmem⟩ := addKeys_eq_ok ht (hpages page (by simp)) queues
    refine .bind (.perform hreply (Q := fun r _ => r = (0, page)) rfl) ?_
    rintro _ h' rfl
    simp only [hadd, Prog.ofExcept, Prog.ret_bind, if_pos]
    exact .ret ⟨queues', rfl, fun queue => by rw [hmem]; simp⟩
  | @more h cursor next page pages hreply hnext hrest ih =>
    obtain ⟨fuel, rfl⟩ : ∃ n, fuel = n + 1 := ⟨fuel - 1, by simp at hfuel; omega⟩
    obtain ⟨queues', hadd, hmem⟩ := addKeys_eq_ok ht (hpages page (by simp)) queues
    have hlen : pages.length ≤ fuel := by simpa using hfuel
    refine .bind (.perform hreply (Q := fun r h' => r = (next, page) ∧
      h' = ⟨.scan cursor t.streamPattern 100, .ok (next, page)⟩ :: h) ⟨rfl, rfl⟩) ?_
    rintro _ _ ⟨rfl, rfl⟩
    simp only [hadd, Prog.ofExcept, Prog.ret_bind, if_neg hnext]
    refine (ih (fun p hp => hpages p (List.mem_cons_of_mem _ hp)) hlen queues').mono ?_
    rintro found _ ⟨queues'', rfl, hfound⟩
    refine ⟨queues'', rfl, fun queue => ?_⟩
    rw [hfound, hmem]
    simp only [List.mem_cons, exists_eq_or_imp, and_or_left, or_assoc]

/-- **`list_queues` returns the names of the streams, each once and in order.** For a plain prefix,
keys laid out as the transport and the API lay them out, and `SCAN` as it is documented, however it
pages: from some number of rounds on the loop has ended, and what it returns is strictly increasing
and has exactly the valid names whose stream exists. -/
theorem lists_queues (h : t.PlainPrefix) (hkeys : t.Layout keys) {env : ScanSig.Env}
    (hscan : Scans env t.streamPattern 100 keys) :
    ∃ rounds, ∀ fuel, rounds ≤ fuel → Prog.Gives env (t.listQueues fuel) [] fun found _ =>
      ∃ names, found = some names ∧ names.Pairwise (· < ·) ∧
        ∀ queue, queue ∈ names ↔ isIdentifier queue = true ∧ utf8 (t.streamKey queue) ∈ keys := by
  obtain ⟨pages, hiter, hsound, hcomplete⟩ := hscan
  have hpages : ∀ page ∈ pages, ∀ r ∈ page, ∃ queue : String, ':' ∉ queue.toList ∧
      r.Shows (utf8 (t.streamKey queue)) := by
    intro page hpage r hr
    obtain ⟨key, hkey, hmatch, hshows⟩ := hsound page hpage r hr
    obtain ⟨queue, hqueue, rfl⟩ := (hkeys.globMatch_iff h hkey).mp hmatch
    exact ⟨queue, colon_not_mem_of_isIdentifier hqueue, hshows⟩
  refine ⟨pages.length, fun fuel hfuel => ?_⟩
  refine (gives_scanQueues h.colon_not_mem hiter hpages hfuel ∅).bind ?_
  rintro _ h' ⟨found, rfl, hfound⟩
  refine .ret ⟨found.sort, rfl, found.sortedLT_sort.pairwise, fun queue => ?_⟩
  rw [Finset.mem_sort, hfound]
  simp only [Finset.notMem_empty, false_or]
  constructor
  · rintro ⟨-, page, hpage, r, hr, hshows⟩
    obtain ⟨key, hkey, hmatch, hshows'⟩ := hsound page hpage r hr
    obtain ⟨queue', hqueue', rfl⟩ := (hkeys.globMatch_iff h hkey).mp hmatch
    obtain rfl : queue' = queue :=
      t.streamKey_injective (Except.ok.inj (hshows'.decode.symm.trans hshows.decode))
    exact ⟨hqueue', hkey⟩
  · rintro ⟨hqueue, hkey⟩
    exact ⟨colon_not_mem_of_isIdentifier hqueue,
      hcomplete _ hkey ((hkeys.globMatch_iff h hkey).mpr ⟨queue, hqueue, rfl⟩)⟩

/-- One queue with a stream and a dead-letter stream, and a page with nothing before the one with its
key. -/
theorem lists_queues_default : ∃ rounds, ∀ fuel, rounds ≤ fuel →
    Prog.Gives (S := ScanSig)
      (fun h _ => .ok (if h.isEmpty then (5, []) else (0, [.text "relayq:default:stream"])))
      ((⟨"relayq", true⟩ : RedisStreamTransport).listQueues fuel) [] fun found _ =>
      ∃ names, found = some names ∧ names.Pairwise (· < ·) ∧ ∀ queue, queue ∈ names ↔
        isIdentifier queue = true ∧ utf8 ((⟨"relayq", true⟩ : RedisStreamTransport).streamKey queue) ∈
          ({utf8 "relayq:default:stream", utf8 "relayq:default:dlq"} : Set Bytes) := by
  have hplain : (⟨"relayq", true⟩ : RedisStreamTransport).PlainPrefix := by
    simp [PlainPrefix]
  have hlayout : (⟨"relayq", true⟩ : RedisStreamTransport).Layout
      {utf8 "relayq:default:stream", utf8 "relayq:default:dlq"} := by
    rintro key (rfl | rfl)
    · exact .inl ⟨"default", by decide, .inl rfl⟩
    · exact .inl ⟨"default", by decide, .inr rfl⟩
  refine lists_queues hplain hlayout ⟨[[], [.text "relayq:default:stream"]],
    .more rfl (by decide) (.last rfl), ?_, ?_⟩
  · intro page hpage r hr
    obtain rfl | rfl : page = [] ∨ page = [.text "relayq:default:stream"] := by simpa using hpage
    · cases hr
    · obtain rfl := List.mem_singleton.mp hr
      exact ⟨_, .inl rfl, by decide, .inr ⟨_, rfl, rfl⟩⟩
  · rintro key (rfl | rfl) hmatch
    · exact ⟨_, .tail _ (.head _), _, .head _, .inr ⟨_, rfl, rfl⟩⟩
    · -- the key of the dead-letter stream does not match
      exact absurd hmatch (by decide)

end RedisStreamTransport

end RelayQ
