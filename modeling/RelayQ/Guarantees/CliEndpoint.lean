import RelayQ.Cli.Client

/-! # What the command line talks to

The URL of the endpoint is checked by its parts and put to use as text. Both agree where the text
shows every part: an empty query or fragment is invisible in the parts and takes in what is
appended, and a slash before a tab or a newline is the last of the path and not of the text.

* `UnderEndpoint`: a request goes to the endpoint.
* `HidesSlash`: the slash that is not removed.
* `exists_parts`: the text without its slashes has the parts of the text.
* `underEndpoint_iff`, `request_underEndpoint_iff`: when every request goes to the endpoint. -/

namespace RelayQ.Cli

variable {py : PyTables} {value base path : List Char}

/-- A URL is under the endpoint: it has the endpoint's scheme and host, its path without the
slashes at its end followed by the path of the API, and no query and no fragment. -/
def UnderEndpoint (py : PyTables) (value url path : List Char) : Prop :=
  ∃ parsed r, urlsplit py value = .ok parsed ∧ urlsplit py url = .ok r ∧
    r.scheme = parsed.scheme ∧ r.hostname py = parsed.hostname py ∧
    r.path = parsed.path.rdropWhile (· == '/') ++ path ∧ r.query = [] ∧ r.fragment = []

/-- The text ends in a slash, one or more tabs or newlines, and any slashes. -/
def HidesSlash (value : List Char) : Prop :=
  ∃ before gap slashes, value = before ++ '/' :: (gap ++ slashes) ∧ gap ≠ [] ∧
    (∀ c ∈ gap, isUnsafe c = true) ∧ ∀ c ∈ slashes, c = '/'

/-! ## Slashes at the end -/

/-- The slashes at the end are removed whatever stands before them. -/
theorem rdropWhile_append_slashes {slashes : List Char} (h : ∀ c ∈ slashes, c = '/')
    (s : List Char) :
    (s ++ slashes).rdropWhile (· == '/') = s.rdropWhile (· == '/') := by
  rw [List.rdropWhile, List.reverse_append, List.dropWhile_append_of_pos, List.rdropWhile]
  intro c hc
  rw [h c (List.mem_reverse.mp hc)]
  rfl

/-- Nothing is removed where the last character is no slash. -/
theorem rdropWhile_slashes_eq_self {s : List Char} :
    s.rdropWhile (· == '/') = s ↔ s.getLast? ≠ some '/' := by
  rw [List.rdropWhile_eq_self_iff]
  cases s using List.reverseRecOn with
  | nil => simp
  | append_singleton s c => simp

/-- After the slashes at the end are removed, the last character is no slash. -/
theorem getLast?_rdropWhile (s : List Char) :
    (s.rdropWhile (· == '/')).getLast? ≠ some '/' :=
  rdropWhile_slashes_eq_self.mp (List.rdropWhile_idempotent _ _)

/-- The slashes at the end. -/
theorem eq_slash_of_mem_rtakeWhile {s : List Char} : ∀ c ∈ s.rtakeWhile (· == '/'), c = '/' :=
  fun _ hc => by simpa using List.mem_rtakeWhile_imp hc

/-- A text hides a slash where what is split of it still ends in one, when the slashes at the end
of the text are removed. -/
theorem hidesSlash_iff :
    HidesSlash value ↔ (cleanUrl (value.rdropWhile (· == '/'))).getLast? = some '/' := by
  rw [getLast?_cleanUrl]
  constructor
  · rintro ⟨before, gap, slashes, rfl, hne, hgap, hslashes⟩
    refine ⟨before, gap, ?_, hgap⟩
    have hassoc : before ++ '/' :: (gap ++ slashes) = (before ++ '/' :: gap) ++ slashes := by simp
    rw [hassoc, rdropWhile_append_slashes hslashes, rdropWhile_slashes_eq_self,
      List.getLast?_append_cons, List.getLast?_cons_of_ne_nil hne]
    intro hlast
    have hunsafe := hgap '/' (List.mem_of_getLast? hlast)
    revert hunsafe
    decide
  · rintro ⟨before, gap, hvalue, hgap⟩
    refine ⟨before, gap, value.rtakeWhile (· == '/'), ?_, ?_, hgap, eq_slash_of_mem_rtakeWhile⟩
    · rw [← List.cons_append, ← List.append_assoc, ← hvalue, List.rdropWhile_append_rtakeWhile]
    · rintro rfl
      refine getLast?_rdropWhile value ?_
      rw [hvalue, List.getLast?_concat]

/-! ## The parts of the text -/

/-- Slashes end an authority. -/
theorem isDelim_of_slashes {slashes : List Char} (h : ∀ c ∈ slashes, c = '/') :
    ∀ c ∈ slashes.head?, isDelim c = true := by
  intro c hc
  rw [h c (List.mem_of_mem_head? hc)]
  rfl

/-- Slashes are split where they stand. -/
theorem cleanUrl_append_slashes {slashes : List Char} (h : ∀ c ∈ slashes, c = '/')
    (s : List Char) : cleanUrl (s ++ slashes) = cleanUrl s ++ slashes := by
  refine cleanUrl_append_self (fun c hc => ?_) (fun c hc => ?_) s
  · rw [h c (List.mem_of_mem_head? hc)]
    rfl
  · rw [h c hc]
    rfl

/-- So is the path of a request. -/
theorem cleanUrl_append_path (h : IsPath path) (s : List Char) :
    cleanUrl (s ++ path) = cleanUrl s ++ path := by
  refine cleanUrl_append_self (fun c hc => ?_) (fun c hc => ?_) s
  · rw [h.rooted] at hc
    obtain rfl := Option.some.inj hc
    rfl
  · rw [← Bool.not_eq_true]
    intro hunsafe
    simp only [isUnsafe, Bool.or_eq_true, beq_iff_eq] at hunsafe
    have hplain : isQuoted c = false ∧ c ≠ '/' := by
      rcases hunsafe with (rfl | rfl) | rfl <;> decide
    exact h.notMem hplain.1 hplain.2 hc

/-- Slashes that end a text are not in a front that ends in another character. -/
theorem exists_rest {front rest s slashes : List Char} (hslashes : ∀ c ∈ slashes, c = '/')
    (hlast : front.getLast? ≠ some '/') (h : s ++ slashes = front ++ rest) :
    ∃ rest', s = front ++ rest' ∧ rest = rest' ++ slashes := by
  rcases List.append_eq_append_iff.mp h with ⟨as, hfront, hmid⟩ | ⟨rest', hs, hrest⟩
  · obtain rfl | ⟨as, c, rfl⟩ := List.eq_nil_or_concat' as
    · exact ⟨[], by rw [hfront, List.append_nil, List.append_nil], by rw [hmid]; rfl⟩
    · have hc : c = '/' := hslashes c (by rw [hmid]; simp)
      rw [hfront, ← List.append_assoc, List.getLast?_concat, hc] at hlast
      exact absurd rfl hlast
  · exact ⟨rest', hs, hrest⟩

/-- **The text without the slashes at its end has the parts of the text**: only slashes after the
network location are removed. -/
theorem exists_parts {u : UrlParts} (hurl : cleanUrl value = u.chars) (hnetloc : u.netloc ≠ []) :
    ∃ (v : UrlParts) (slashes : List Char) (h : ∀ c ∈ slashes, c = '/'),
      cleanUrl (value.rdropWhile (· == '/')) = v.chars ∧
      u = v.append slashes (isDelim_of_slashes h) := by
  have hslashes := eq_slash_of_mem_rtakeWhile (s := value)
  have hclean := cleanUrl_append_slashes hslashes (value.rdropWhile (· == '/'))
  rw [List.rdropWhile_append_rtakeWhile, hurl] at hclean
  rw [u.chars_eq] at hclean
  obtain ⟨rest, htrim, hrest⟩ := exists_rest hslashes (u.getLast?_front hnetloc) hclean.symm
  -- a shorter rest still begins with the delimiter
  have hdelim : ∀ c ∈ rest.head?, isDelim c = true := by
    intro c hc
    refine u.rest_delim c ?_
    rw [hrest, List.head?_append, hc, Option.some_or]
    rfl
  refine ⟨⟨u.head, u.netloc, rest, u.isScheme, u.netloc_delim, hdelim⟩, _, hslashes, ?_, ?_⟩
  · rw [htrim, UrlParts.chars_eq]
    rfl
  · cases u
    cases hrest
    rfl

/-! ## What is requested -/

/-- A question mark or a hash in the text stands after the network location. -/
theorem mem_rest {u : UrlParts} (hurl : cleanUrl value = u.chars) {c : Char}
    (hc : c = '?' ∨ c = '#') : c ∈ value ↔ c ∈ u.rest := by
  rw [← u.mem_chars hc, ← hurl, mem_cleanUrl (by rcases hc with rfl | rfl <;> decide)]

/-- A request that keeps the scheme and the network location is under the endpoint by its other
parts. -/
theorem underEndpoint_iff_parts {parsed r : SplitResult} {url : List Char}
    (hvalue : urlsplit py value = .ok parsed) (hurl : urlsplit py url = .ok r)
    (hscheme : r.scheme = parsed.scheme) (hnetloc : r.netloc = parsed.netloc) :
    UnderEndpoint py value url path ↔
      r.path = parsed.path.rdropWhile (· == '/') ++ path ∧ r.query = [] ∧ r.fragment = [] := by
  constructor
  · rintro ⟨parsed', r', hvalue', hurl', -, -, hparts⟩
    rw [hvalue] at hvalue'
    rw [hurl] at hurl'
    cases hvalue'
    cases hurl'
    exact hparts
  · exact fun hparts =>
      ⟨parsed, r, hvalue, hurl, hscheme, SplitResult.hostname_congr hnetloc, hparts⟩

/-- What is appended to a text that shows every part is appended to the path. -/
theorem path_iff {v : UrlParts} {slashes : List Char} (hslashes : ∀ c ∈ slashes, c = '/')
    (hnetloc : v.netloc ≠ []) (htrim : cleanUrl (value.rdropWhile (· == '/')) = v.chars) :
    v.rest ++ path = (v.rest ++ slashes).rdropWhile (· == '/') ++ path ↔ ¬HidesSlash value := by
  rw [rdropWhile_append_slashes hslashes, List.append_left_inj, eq_comm,
    rdropWhile_slashes_eq_self, hidesSlash_iff, htrim, v.getLast?_chars hnetloc]

/-- **Every request goes to the endpoint** where its text has no question mark and no hash, and
hides no slash. -/
theorem underEndpoint_iff {parsed : SplitResult} (h : Accepts py value base parsed)
    (hpath : IsPath path) :
    UnderEndpoint py value (base ++ path) path ↔
      '?' ∉ value ∧ '#' ∉ value ∧ ¬HidesSlash value := by
  obtain ⟨u, hurl, hcheck, rfl⟩ := urlsplit_eq_ok h.split h.scheme_ne_nil h.netloc_ne_nil
  obtain ⟨v, slashes, hslashes, htrim, rfl⟩ := exists_parts hurl h.netloc_ne_nil
  have hnetloc : v.netloc ≠ [] := h.netloc_ne_nil
  have hdelim : ∀ c ∈ path.head?, isDelim c = true := by
    rw [hpath.rooted]
    rintro c ⟨⟩
    rfl
  have hrequest : urlsplit py (base ++ path) = .ok ((v.append path hdelim).result py) := by
    refine urlsplit_chars _ ?_ ⟨hcheck.brackets, hcheck.netloc⟩
    rw [h.base, cleanUrl_append_path hpath, htrim, v.chars_append]
  rw [underEndpoint_iff_parts h.split hrequest rfl rfl]
  have hmem {c : Char} (hc : c = '?' ∨ c = '#') : c ∈ value ↔ c ∈ v.rest ++ slashes :=
    mem_rest hurl hc
  have hmark : '?' ∉ path := hpath.notMem (by decide) (by decide)
  have hhash : '#' ∉ path := hpath.notMem (by decide) (by decide)
  by_cases hfragment : '#' ∈ v.rest
  · -- an empty fragment takes the path in
    refine iff_of_false (fun hparts => ?_) (fun hshown => ?_)
    · exact v.fragment_append hdelim hfragment hpath.ne_nil hparts.2.2
    · exact hshown.2.1 ((hmem (.inr rfl)).mpr (List.mem_append_left _ hfragment))
  by_cases hquery : '?' ∈ v.rest
  · -- and so does an empty query
    refine iff_of_false (fun hparts => ?_) (fun hshown => ?_)
    · exact v.query_append hdelim hquery (by simp [hfragment, hhash]) hpath.ne_nil hparts.2.1
    · exact hshown.1 ((hmem (.inl rfl)).mpr (List.mem_append_left _ hquery))
  have hslash {c : Char} (hc : c = '?' ∨ c = '#') : c ∉ slashes := by
    intro hin
    rcases hc with rfl | rfl <;> cases hslashes _ hin
  have hshown : '?' ∉ value ∧ '#' ∉ value := by
    rw [hmem (.inl rfl), hmem (.inr rfl)]
    simp [hquery, hfragment, hslash]
  rw [UrlParts.result_eq, UrlParts.result_eq]
  · simp only [and_true, hshown.1, hshown.2, not_false_eq_true, true_and]
    exact path_iff hslashes hnetloc htrim
  all_goals simp [UrlParts.append, hquery, hfragment, hmark, hhash, hslash]

/-- **The command line talks to its endpoint** exactly where the accepted text has no question mark
and no hash, and hides no slash. -/
theorem request_underEndpoint_iff [Codec] {argv : List String} {req : Request}
    (h : validatedApiUrl py value = .ok base) (hmain : main argv = .ok req) :
    UnderEndpoint py value (req.url base) req.path ↔
      '?' ∉ value ∧ '#' ∉ value ∧ ¬HidesSlash value := by
  obtain ⟨parsed, haccepts⟩ := validatedApiUrl_eq_ok h
  exact underEndpoint_iff haccepts (isPath_of_main hmain)

/-- The tables, of ASCII text. -/
def asciiTables : PyTables where
  nfkc := id
  lower s := s.map Char.toLower
  checkBracketedHost _ := .ok ()

/-- A user's identifiers stay in their segments of the path. -/
theorem request_underEndpoint_replay :
    UnderEndpoint asciiTables "http://localhost:8000/".toList
      "http://localhost:8000/queues/a%2Fb/dlq/%3F/replay".toList
      "/queues/a%2Fb/dlq/%3F/replay".toList ↔
    '?' ∉ "http://localhost:8000/".toList ∧ '#' ∉ "http://localhost:8000/".toList ∧
      ¬HidesSlash "http://localhost:8000/".toList :=
  @request_underEndpoint_iff _ _ "http://localhost:8000".toList _ ["relayq", "replay", "a/b", "?"]
    ⟨"POST", "/queues/a%2Fb/dlq/%3F/replay".toList, none⟩ rfl rfl

/-- Where the accepted text ends in a question mark, the path of a request is its query. -/
theorem not_underEndpoint_queues :
    ∃ base req r, validatedApiUrl asciiTables "http://localhost:8000?".toList = .ok base ∧
      main ["relayq", "queues"] = .ok req ∧ urlsplit asciiTables (req.url base) = .ok r ∧
      r.path = [] ∧ r.query = "/queues".toList ∧
      ¬UnderEndpoint asciiTables "http://localhost:8000?".toList (req.url base) req.path := by
  refine ⟨"http://localhost:8000?".toList, ⟨"GET", "/queues".toList, none⟩,
    ⟨"http".toList, "localhost:8000".toList, [], "/queues".toList, []⟩, rfl, rfl, rfl, rfl, rfl, ?_⟩
  rintro ⟨parsed, r, -, hurl, -, -, -, hquery, -⟩
  cases hurl
  revert hquery
  decide

end RelayQ.Cli
