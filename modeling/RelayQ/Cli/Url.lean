import RelayQ.Domain.Errors
import Mathlib.Data.List.TakeWhile

/-! # Splitting a URL

`urlsplit` of the standard library. It first drops leading control characters and spaces, and every
tab and newline wherever it stands; what is split is what is left.

* `cleanUrl`, `splitScheme`, `splitNetloc`, `urlsplit`: the function.
* `SplitResult.hostname`, `SplitResult.userinfo`: what a result says of the network location.
* `UrlParts`: a URL by the text of its parts.
* `urlsplit_chars`, `urlsplit_eq_ok`: a URL splits as it is put together, and so only. -/

namespace RelayQ

/-- What `urlsplit` uses of the tables of the interpreter. -/
structure PyTables where
  /-- `unicodedata.normalize("NFKC", s)` -/
  nfkc : List Char → List Char
  /-- `s.lower()` -/
  lower : List Char → List Char
  /-- `_check_bracketed_host(hostname)` -/
  checkBracketedHost : List Char → Except PyExc Unit

/-- `ValueError` -/
def valueError (msg : String) : PyExc := .other "ValueError" (some msg)

/-- `_WHATWG_C0_CONTROL_OR_SPACE` -/
def isControlOrSpace (c : Char) : Bool := c.toNat ≤ 0x20

/-- `_UNSAFE_URL_BYTES_TO_REMOVE` -/
def isUnsafe (c : Char) : Bool := c == '\t' || c == '\r' || c == '\n'

/-- `scheme_chars` -/
def isSchemeChar (c : Char) : Bool := c.isAlphanum || c == '+' || c == '-' || c == '.'

/-- What ends a network location. -/
def isDelim (c : Char) : Bool := c == '/' || c == '?' || c == '#'

/-- The characters that are split. -/
def cleanUrl (url : List Char) : List Char :=
  (url.dropWhile isControlOrSpace).filter fun c => !isUnsafe c

/-- What stands before the first separator, and what after it. -/
def splitAtFirst (sep : Char) (s : List Char) : List Char × List Char :=
  (s.takeWhile (· != sep), (s.dropWhile (· != sep)).tail)

/-- Does it begin with an ASCII letter? -/
def beginsWithLetter (s : List Char) : Bool := s.head?.any Char.isAlpha

/-- The scheme, where there is one, and the rest. -/
def splitScheme (py : PyTables) (url : List Char) : List Char × List Char :=
  let head := url.takeWhile (· != ':')
  if ':' ∈ url ∧ beginsWithLetter head ∧ head.all isSchemeChar then
    (py.lower head, (splitAtFirst ':' url).2)
  else ([], url)

/-- The network location, where there is one, and the rest. -/
def splitNetloc : List Char → List Char × List Char
  | '/' :: '/' :: rest => (rest.takeWhile (!isDelim ·), rest.dropWhile (!isDelim ·))
  | url => ([], url)

/-- The brackets of a network location. -/
def checkBrackets (py : PyTables) (netloc : List Char) : Except PyExc Unit :=
  if '[' ∈ netloc ∧ ']' ∉ netloc ∨ ']' ∈ netloc ∧ '[' ∉ netloc then
    .error (valueError "Invalid IPv6 URL")
  else if '[' ∈ netloc ∧ ']' ∈ netloc then
    py.checkBracketedHost (splitAtFirst ']' (splitAtFirst '[' netloc).2).1
  else .ok ()

/-- `_checknetloc(netloc)`: a normalized network location must not gain a delimiter. -/
def checkNetloc (py : PyTables) (netloc : List Char) : Except PyExc Unit :=
  if netloc = [] ∨ netloc.all (·.toNat < 128) then .ok ()
  else
    let n := netloc.filter fun c => c != '@' && c != ':' && c != '#' && c != '?'
    let netloc2 := py.nfkc n
    if n = netloc2 then .ok ()
    else if netloc2.any fun c => c == '/' || c == '?' || c == '#' || c == '@' || c == ':' then
      .error (valueError ("netloc '" ++ String.ofList netloc ++
        "' contains invalid characters under NFKC normalization"))
    else .ok ()

/-- The parts of a URL. -/
structure SplitResult where
  scheme : List Char
  netloc : List Char
  path : List Char
  query : List Char
  fragment : List Char

/-- `urlsplit(url)` -/
def urlsplit (py : PyTables) (url : List Char) : Except PyExc SplitResult :=
  let (scheme, url) := splitScheme py (cleanUrl url)
  let (netloc, url) := splitNetloc url
  match checkBrackets py netloc with
  | .error e => .error e
  | .ok () =>
    let (url, fragment) := splitAtFirst '#' url
    let (url, query) := splitAtFirst '?' url
    match checkNetloc py netloc with
    | .error e => .error e
    | .ok () => .ok ⟨scheme, netloc, url, query, fragment⟩

namespace SplitResult

variable (r : SplitResult)

/-- The network location after its last `@`. -/
def hostport : List Char := (r.netloc.reverse.takeWhile (· != '@')).reverse

/-- What stands before the last `@`, where there is one. -/
def userinfo : Option (List Char) :=
  if '@' ∈ r.netloc then some (r.netloc.reverse.dropWhile (· != '@')).tail.reverse else none

/-- `username` -/
def username : Option (List Char) := r.userinfo.map fun info => (splitAtFirst ':' info).1

/-- `password` -/
def password : Option (List Char) :=
  r.userinfo.bind fun info => if ':' ∈ info then some (splitAtFirst ':' info).2 else none

/-- The host as it is written. -/
def hostText : List Char :=
  if '[' ∈ r.hostport then (splitAtFirst ']' (splitAtFirst '[' r.hostport).2).1
  else (splitAtFirst ':' r.hostport).1

/-- `hostname`: in lower case up to the zone of a scoped address. -/
def hostname (py : PyTables) : Option (List Char) :=
  if r.hostText = [] then none
  else some (py.lower (r.hostText.takeWhile (· != '%')) ++ r.hostText.dropWhile (· != '%'))

/-- Without a network location there is no host. -/
theorem hostname_of_netloc_nil {py : PyTables} (h : r.netloc = []) : r.hostname py = none := by
  simp [hostname, hostText, hostport, splitAtFirst, h]

/-- The host depends on the network location only. -/
theorem hostname_congr {py : PyTables} {r r' : SplitResult} (h : r.netloc = r'.netloc) :
    r.hostname py = r'.hostname py := by
  have hport : r.hostport = r'.hostport := by rw [hostport, h, hostport]
  have htext : r.hostText = r'.hostText := by rw [hostText, hport, hostText]
  rw [hostname, htext, hostname]

end SplitResult

/-! ## What is split -/

/-- What `urlsplit` removes is stripped at the ends as well. -/
theorem isControlOrSpace_of_isUnsafe {c : Char} (h : isUnsafe c = true) :
    isControlOrSpace c = true := by
  simp only [isUnsafe, Bool.or_eq_true, beq_iff_eq] at h
  rcases h with (rfl | rfl) | rfl <;> rfl

/-- What is appended is split, but for its tabs and newlines, where it does not begin with a
character that is dropped. -/
theorem cleanUrl_append {t : List Char} (ht : ∀ c ∈ t.head?, isControlOrSpace c = false)
    (s : List Char) : cleanUrl (s ++ t) = cleanUrl s ++ t.filter fun c => !isUnsafe c := by
  have hdrop : t.dropWhile isControlOrSpace = t := by
    cases t with
    | nil => rfl
    | cons c t => rw [List.dropWhile_cons_of_neg (by simpa using ht c rfl)]
  rw [cleanUrl, List.dropWhile_append, hdrop, cleanUrl]
  split
  · rename_i hnil
    rw [List.isEmpty_iff.mp hnil, List.filter_nil, List.nil_append]
  · rw [List.filter_append]

/-- What is appended is split as it is, where nothing of it is dropped. -/
theorem cleanUrl_append_self {t : List Char} (ht : ∀ c ∈ t.head?, isControlOrSpace c = false)
    (hsafe : ∀ c ∈ t, isUnsafe c = false) (s : List Char) : cleanUrl (s ++ t) = cleanUrl s ++ t := by
  have hkept : (t.filter fun c => !isUnsafe c) = t :=
    List.filter_eq_self.mpr fun c hc => by rw [hsafe c hc]; rfl
  rw [cleanUrl_append ht, hkept]

/-- A printed character is split where it stands. -/
theorem mem_cleanUrl {c : Char} (hc : isControlOrSpace c = false) {url : List Char} :
    c ∈ cleanUrl url ↔ c ∈ url := by
  refine ⟨fun h => ?_, fun h => ?_⟩
  · exact (List.dropWhile_sublist _).subset (List.mem_of_mem_filter h)
  · obtain ⟨before, after, rfl⟩ := List.append_of_mem h
    rw [cleanUrl_append (by simpa using hc)]
    refine List.mem_append_right _ (List.mem_filter.mpr ⟨List.mem_cons_self .., ?_⟩)
    cases hunsafe : isUnsafe c with
    | false => rfl
    | true => rw [isControlOrSpace_of_isUnsafe hunsafe] at hc; cases hc

/-- **What is split ends in a slash** where only tabs and newlines follow the last slash. -/
theorem getLast?_cleanUrl {url : List Char} :
    (cleanUrl url).getLast? = some '/' ↔
      ∃ before gap, url = before ++ '/' :: gap ∧ ∀ c ∈ gap, isUnsafe c = true := by
  have hclean (before gap : List Char) : cleanUrl (before ++ '/' :: gap) =
      cleanUrl before ++ '/' :: gap.filter fun c => !isUnsafe c :=
    cleanUrl_append (by simp [isControlOrSpace]) before
  refine ⟨fun h => ?_, ?_⟩
  · have hmem : '/' ∈ url := (mem_cleanUrl (by decide)).mp (List.mem_of_getLast? h)
    -- the last slash of the text is the last slash of what is split
    obtain ⟨after, before, hurl, hafter⟩ :=
      List.eq_append_cons_of_mem (List.mem_reverse.mpr hmem)
    have hurl' : url = before.reverse ++ '/' :: after.reverse := by
      rw [← List.reverse_reverse url, hurl]
      simp
    refine ⟨before.reverse, after.reverse, hurl', fun c hc => ?_⟩
    by_contra hsafe
    have hne : (after.reverse.filter fun c => !isUnsafe c) ≠ [] :=
      List.ne_nil_of_mem (List.mem_filter.mpr ⟨hc, by simpa using hsafe⟩)
    rw [hurl', hclean, List.getLast?_append_cons,
      List.getLast?_cons_of_ne_nil hne] at h
    exact hafter (List.mem_reverse.mp (List.mem_of_mem_filter (List.mem_of_getLast? h)))
  · rintro ⟨before, gap, rfl, hgap⟩
    have hnil : (gap.filter fun c => !isUnsafe c) = [] :=
      List.filter_eq_nil_iff.mpr fun c hc => by simp [hgap c hc]
    rw [hclean, hnil, List.getLast?_concat]

/-! ## How a URL is put together -/

variable {py : PyTables} {head netloc rest : List Char}

/-- The characters of a scheme. -/
structure IsScheme (head : List Char) : Prop where
  letter : beginsWithLetter head = true
  chars : head.all isSchemeChar = true

/-- A scheme has none of the characters that delimit the parts. -/
theorem IsScheme.not_mem (h : IsScheme head) {c : Char} (hc : isSchemeChar c = false) : c ∉ head := by
  intro hmem
  have hchar := List.all_eq_true.mp h.chars c hmem
  rw [hc] at hchar
  cases hchar

/-- Taking and dropping stop at the first character that fails. -/
theorem takeWhile_dropWhile_append {p : Char → Bool} {s t : List Char} (hs : ∀ c ∈ s, p c = true)
    (ht : ∀ c ∈ t.head?, p c = false) : (s ++ t).takeWhile p = s ∧ (s ++ t).dropWhile p = t := by
  rw [List.takeWhile_append_of_pos hs, List.dropWhile_append_of_pos hs]
  cases t with
  | nil => simp
  | cons c t =>
    have hc : p c = false := ht c rfl
    simp [hc]

/-- No character is a separator that does not occur. -/
theorem bne_of_notMem {sep : Char} {s : List Char} (h : sep ∉ s) : ∀ c ∈ s, (c != sep) = true := by
  intro c hc
  rw [bne_iff_ne]
  rintro rfl
  exact h hc

/-- Splitting at a separator. -/
theorem splitAtFirst_mid {sep : Char} {before : List Char} (h : sep ∉ before) (after : List Char) :
    splitAtFirst sep (before ++ sep :: after) = (before, after) := by
  obtain ⟨htake, hdrop⟩ :=
    takeWhile_dropWhile_append (t := sep :: after) (bne_of_notMem h) (by simp)
  rw [splitAtFirst, htake, hdrop]
  rfl

/-- Splitting at a separator that does not occur. -/
theorem splitAtFirst_of_notMem {sep : Char} {s : List Char} (h : sep ∉ s) :
    splitAtFirst sep s = (s, []) := by
  obtain ⟨htake, hdrop⟩ := takeWhile_dropWhile_append (t := []) (bne_of_notMem h) (by simp)
  rw [List.append_nil] at htake hdrop
  rw [splitAtFirst, htake, hdrop]
  rfl

/-- What is appended after a separator goes to the second part. -/
theorem splitAtFirst_append {sep : Char} {s : List Char} (h : sep ∈ s) (t : List Char) :
    splitAtFirst sep (s ++ t) = ((splitAtFirst sep s).1, (splitAtFirst sep s).2 ++ t) := by
  obtain ⟨before, after, rfl, hbefore⟩ := List.eq_append_cons_of_mem h
  rw [List.append_assoc, List.cons_append, splitAtFirst_mid hbefore, splitAtFirst_mid hbefore]

/-- The scheme is what stands before the colon. -/
theorem splitScheme_append (h : IsScheme head) (rest : List Char) :
    splitScheme py (head ++ ':' :: rest) = (py.lower head, rest) := by
  have hcolon : ':' ∉ head := h.not_mem (by decide)
  obtain ⟨htake, -⟩ :=
    takeWhile_dropWhile_append (t := ':' :: rest) (bne_of_notMem hcolon) (by simp)
  rw [splitScheme, htake, if_pos ⟨by simp, h.letter, h.chars⟩, splitAtFirst_mid hcolon]

/-- Where there is a scheme, a colon stands after it. -/
theorem splitScheme_fst_ne_nil {url : List Char} (h : (splitScheme py url).1 ≠ []) :
    ∃ head rest, IsScheme head ∧ url = head ++ ':' :: rest := by
  rw [splitScheme] at h
  split at h
  · rename_i hscheme
    obtain ⟨hcolon, hletter, hchars⟩ := hscheme
    obtain ⟨before, after, rfl, hbefore⟩ := List.eq_append_cons_of_mem hcolon
    have htake := (takeWhile_dropWhile_append (t := ':' :: after) (bne_of_notMem hbefore)
      (by simp)).1
    rw [htake] at hletter hchars
    exact ⟨before, after, ⟨hletter, hchars⟩, rfl⟩
  · cases h rfl

/-- The network location is what stands before the first delimiter. -/
theorem splitNetloc_append (hnetloc : ∀ c ∈ netloc, isDelim c = false)
    (hrest : ∀ c ∈ rest.head?, isDelim c = true) :
    splitNetloc ('/' :: '/' :: (netloc ++ rest)) = (netloc, rest) := by
  obtain ⟨htake, hdrop⟩ := takeWhile_dropWhile_append (p := fun c => !isDelim c) (s := netloc)
    (t := rest) (fun c hc => by simp [hnetloc c hc]) (fun c hc => by simp [hrest c hc])
  rw [splitNetloc, htake, hdrop]

/-- Where there is a network location, two slashes stand before it. -/
theorem splitNetloc_fst_ne_nil {url : List Char} (h : (splitNetloc url).1 ≠ []) :
    ∃ netloc rest, (∀ c ∈ netloc, isDelim c = false) ∧ (∀ c ∈ rest.head?, isDelim c = true) ∧
      url = '/' :: '/' :: (netloc ++ rest) := by
  rw [splitNetloc.eq_def] at h
  split at h
  · rename_i rest
    refine ⟨rest.takeWhile (!isDelim ·), rest.dropWhile (!isDelim ·), ?_, ?_, ?_⟩
    · intro c hc
      have hdelim := List.mem_takeWhile_imp hc
      simpa using hdelim
    · intro c hc
      have hdelim := List.head?_dropWhile_not (!isDelim ·) rest
      rw [hc] at hdelim
      simpa using hdelim
    · rw [List.takeWhile_append_dropWhile]
  · cases h rfl

/-! ## URLs with a scheme and a network location -/

/-- The parts of such a URL, as they are written. -/
structure UrlParts where
  head : List Char
  netloc : List Char
  rest : List Char
  isScheme : IsScheme head
  /-- No delimiter stands in the network location … -/
  netloc_delim : ∀ c ∈ netloc, isDelim c = false
  /-- … and one ends it. -/
  rest_delim : ∀ c ∈ rest.head?, isDelim c = true

namespace UrlParts

variable (u : UrlParts)

/-- The URL. -/
def chars : List Char := u.head ++ ':' :: '/' :: '/' :: (u.netloc ++ u.rest)

/-- What it splits into. -/
def result (py : PyTables) : SplitResult :=
  let (rest, fragment) := splitAtFirst '#' u.rest
  let (path, query) := splitAtFirst '?' rest
  ⟨py.lower u.head, u.netloc, path, query, fragment⟩

/-- The URL with more characters at its end. -/
def append (t : List Char) (ht : ∀ c ∈ t.head?, isDelim c = true) : UrlParts where
  head := u.head
  netloc := u.netloc
  rest := u.rest ++ t
  isScheme := u.isScheme
  netloc_delim := u.netloc_delim
  rest_delim c hc := by
    rw [List.head?_append] at hc
    rcases Option.or_eq_some_iff.mp hc with hc | ⟨-, hc⟩
    · exact u.rest_delim c hc
    · exact ht c hc

/-- The characters of a longer URL. -/
theorem chars_append {t : List Char} (ht : ∀ c ∈ t.head?, isDelim c = true) :
    (u.append t ht).chars = u.chars ++ t := by
  simp [append, chars]

/-- A question mark or a hash stands after the network location. -/
theorem mem_chars {c : Char} (hc : c = '?' ∨ c = '#') : c ∈ u.chars ↔ c ∈ u.rest := by
  have hdelim : isDelim c = true := by rcases hc with rfl | rfl <;> rfl
  have hhead : c ∉ u.head := u.isScheme.not_mem (by rcases hc with rfl | rfl <;> decide)
  have hnetloc : c ∉ u.netloc := by
    intro hmem
    rw [u.netloc_delim c hmem] at hdelim
    cases hdelim
  have hcolon : c ≠ ':' ∧ c ≠ '/' := by rcases hc with rfl | rfl <;> decide
  simp [chars, hhead, hnetloc, hcolon]

/-- The URL up to the end of the network location. -/
def front : List Char := u.head ++ ':' :: '/' :: '/' :: u.netloc

/-- A URL is its front, and what comes after. -/
theorem chars_eq : u.chars = u.front ++ u.rest := by simp [chars, front]

/-- A network location does not end in a slash. -/
theorem getLast?_front (hnetloc : u.netloc ≠ []) : u.front.getLast? ≠ some '/' := by
  rw [front, List.getLast?_append_cons, List.getLast?_cons_of_ne_nil (by simp),
    List.getLast?_cons_of_ne_nil (by simp), List.getLast?_cons_of_ne_nil hnetloc]
  intro h
  have hdelim := u.netloc_delim '/' (List.mem_of_getLast? h)
  cases hdelim

/-- A URL ends in a slash where a slash stands after the network location. -/
theorem getLast?_chars (hnetloc : u.netloc ≠ []) :
    u.chars.getLast? = some '/' ↔ u.rest.getLast? = some '/' := by
  rw [chars_eq, List.getLast?_append]
  cases hrest : u.rest.getLast? with
  | some c => rw [Option.some_or]
  | none =>
    rw [Option.none_or]
    exact ⟨fun h => absurd h (u.getLast?_front hnetloc), fun h => by cases h⟩

/-- A URL that has no query and no fragment, not even empty ones, splits off none. -/
theorem result_eq (hquery : '?' ∉ u.rest) (hfragment : '#' ∉ u.rest) :
    u.result py = ⟨py.lower u.head, u.netloc, u.rest, [], []⟩ := by
  rw [result, splitAtFirst_of_notMem hfragment]
  simp only [splitAtFirst_of_notMem hquery]

/-- What is appended after a hash is in the fragment. -/
theorem fragment_append {t : List Char} (ht : ∀ c ∈ t.head?, isDelim c = true)
    (h : '#' ∈ u.rest) (hne : t ≠ []) : ((u.append t ht).result py).fragment ≠ [] := by
  have hsplit : ((u.append t ht).result py).fragment = (splitAtFirst '#' (u.rest ++ t)).2 := rfl
  rw [hsplit, splitAtFirst_append h]
  exact List.append_ne_nil_of_right_ne_nil _ hne

/-- What is appended after a question mark is in the query. -/
theorem query_append {t : List Char} (ht : ∀ c ∈ t.head?, isDelim c = true)
    (h : '?' ∈ u.rest) (hhash : '#' ∉ u.rest ++ t) (hne : t ≠ []) :
    ((u.append t ht).result py).query ≠ [] := by
  have hsplit : ((u.append t ht).result py).query =
      (splitAtFirst '?' (splitAtFirst '#' (u.rest ++ t)).1).2 := rfl
  rw [hsplit, splitAtFirst_of_notMem hhash, splitAtFirst_append h]
  exact List.append_ne_nil_of_right_ne_nil _ hne

/-- The checks of a network location. -/
structure Checked (py : PyTables) : Prop where
  brackets : checkBrackets py u.netloc = .ok ()
  netloc : checkNetloc py u.netloc = .ok ()

end UrlParts

variable {url : List Char} {r : SplitResult}

/-- **A URL splits as it is put together.** -/
theorem urlsplit_chars (u : UrlParts) (hurl : cleanUrl url = u.chars) (hcheck : u.Checked py) :
    urlsplit py url = .ok (u.result py) := by
  rw [urlsplit, hurl, UrlParts.chars, splitScheme_append u.isScheme]
  simp only [splitNetloc_append u.netloc_delim u.rest_delim, hcheck.brackets, hcheck.netloc]
  rfl

/-- **A result is put together of the URL**: where it has a scheme and a network location, the
URL is written with both. -/
theorem urlsplit_eq_ok (h : urlsplit py url = .ok r) (hscheme : r.scheme ≠ [])
    (hnetloc : r.netloc ≠ []) :
    ∃ u : UrlParts, cleanUrl url = u.chars ∧ u.Checked py ∧ r = u.result py := by
  simp only [urlsplit] at h
  split at h
  · cases h
  · rename_i hbrackets
    split at h
    · cases h
    · rename_i hchecknet
      -- the scheme is not empty, so it is written
      obtain ⟨head, url', hhead, hurl⟩ : ∃ head url', IsScheme head ∧
          cleanUrl url = head ++ ':' :: url' := by
        refine @splitScheme_fst_ne_nil py _ ?_
        cases h
        exact hscheme
      rw [hurl, splitScheme_append hhead] at h hbrackets hchecknet
      -- nor is the network location
      obtain ⟨netloc, rest, hdelim, hrest, rfl⟩ : ∃ netloc rest,
          (∀ c ∈ netloc, isDelim c = false) ∧ (∀ c ∈ rest.head?, isDelim c = true) ∧
            url' = '/' :: '/' :: (netloc ++ rest) := by
        refine splitNetloc_fst_ne_nil ?_
        cases h
        exact hnetloc
      rw [splitNetloc_append hdelim hrest] at h hbrackets hchecknet
      cases h
      exact ⟨⟨head, netloc, rest, hhead, hdelim, hrest⟩, hurl, ⟨hbrackets, hchecknet⟩, rfl⟩

end RelayQ
