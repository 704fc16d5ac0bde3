import Provisioning.Lib.UrlPath

/-!
# The query of a URL

How the standard reads the query of an `http` URL, and how `querystring.parse` reads its pairs. A value that
`encodeURIComponent` wrote is read as it was.
-/

namespace Lib.UrlQuery

open UrlPath Utf8

/-! ## The query -/

/-- The special-query percent-encode set of the URL standard. -/
def inSpecialQuerySet (c : Char) : Bool :=
  c.toNat ≤ 0x20 || 0x7E < c.toNat || c ∈ ['"', '#', '<', '>', '\'']

/-- The text between `?` and `#`, given what follows the host. -/
def queryText (text : List Char) : Option (List Char) :=
  match ((text.rdropWhile isC0OrSpace).filter fun c => !isTabOrNewline c).dropWhile fun c => !endsPath c with
  | '?' :: rest => some (rest.takeWhile fun c => c ≠ '#')
  | _ => none

def parseQuery (text : List Char) : Option (List Char) := (queryText text).map (percentEncode inSpecialQuerySet)

/-! ## Its pairs -/

section Pairs

variable (unescapeBuffer : List Char → List Char)

/-- `unescapeBuffer` is for a text that `decodeURIComponent` throws at. -/
def unescape (text : List Char) : List Char :=
  let spaced := text.map fun c => if c = '+' then ' ' else c
  (decodeURIComponent spaced).getD (unescapeBuffer spaced)

/-- The key before the first `=`, and the value behind it. -/
def pairOf (piece : List Char) : List Char × List Char :=
  (unescape unescapeBuffer (piece.takeWhile (· ≠ '=')), unescape unescapeBuffer ((piece.dropWhile (· ≠ '=')).tail))

/-- `querystring.parse`, with at most 1000 pieces. -/
def pairs (query : List Char) : List (List Char × List Char) :=
  (((query.splitOn '&').take 1000).filter (· ≠ [])).map (pairOf unescapeBuffer)

/-- The value of a key that occurs once. -/
def single (key : List Char) (pairs : List (List Char × List Char)) : Option (List Char) :=
  match pairs.filter fun p => p.1 = key with
  | [p] => some p.2
  | _ => none

/-- The text of `req.query[key]`, if it is a text. -/
def valueOf (key : List Char) (text : List Char) : Option (List Char) :=
  (parseQuery text).bind fun query => single key (pairs unescapeBuffer query)

end Pairs

/-! ## What an encoded text consists of -/

theorem mem_percentEncode {set : Char → Bool} {text : List Char} {c : Char} (h : c ∈ percentEncode set text) :
    c = '%' ∨ (∃ n < 16, c = hexDigit n) ∨ ¬ set c := by
  unfold percentEncode at h
  obtain ⟨d, -, h⟩ := List.mem_flatMap.1 h
  split at h
  · obtain ⟨b, -, h⟩ := List.mem_flatMap.1 h
    have hb : b.toNat < 256 := b.toNat_lt
    simp only [percentEncodeByte, List.mem_cons, List.not_mem_nil, or_false] at h
    rcases h with rfl | rfl | rfl
    · exact .inl rfl
    · exact .inr (.inl ⟨b.toNat / 16, by omega, rfl⟩)
    · exact .inr (.inl ⟨b.toNat % 16, by omega, rfl⟩)
  · rename_i hkept
    obtain rfl := List.mem_singleton.1 h
    exact .inr (.inr hkept)

theorem percentEncode_twice {set second : Char → Bool} (hpercent : ¬ second '%')
    (hhex : ∀ n < 16, ¬ second (hexDigit n)) (text : List Char) :
    percentEncode second (percentEncode set text) = percentEncode (fun c => set c || second c) text := by
  have bytes (l : List UInt8) (rest : List Char) :
      percentEncode second (l.flatMap percentEncodeByte ++ rest) =
        l.flatMap percentEncodeByte ++ percentEncode second rest := by
    induction l with
    | nil => rfl
    | cons b l ih =>
      have hb : b.toNat < 256 := b.toNat_lt
      simp only [List.flatMap_cons, percentEncodeByte, List.cons_append, List.nil_append]
      rw [percentEncode_keep hpercent, percentEncode_keep (hhex _ (by omega)),
        percentEncode_keep (hhex _ (by omega)), ih]
  induction text with
  | nil => rfl
  | cons c text ih =>
    rw [percentEncode_cons, percentEncode_cons]
    by_cases hset : set c
    · rw [if_pos hset, if_pos (by simp [hset]), bytes, ih]
    · rw [if_neg hset, List.singleton_append, percentEncode_cons, ih]
      simp [hset]

theorem isUnreserved_toNat {c : Char} (h : isUnreserved c) : 0x20 < c.toNat := by
  simp only [isUnreserved, Char.le_def, UInt32.le_iff_toNat_le, List.mem_cons, List.not_mem_nil, or_false,
    Bool.or_eq_true, decide_eq_true_eq] at h
  unfold Char.toNat
  rcases h with ((h | h) | h) | h
  · exact lt_of_lt_of_le (by decide) h.1
  · exact lt_of_lt_of_le (by decide) h.1
  · exact lt_of_lt_of_le (by decide) h.1
  · rcases h with rfl | rfl | rfl | rfl | rfl | rfl | rfl | rfl | rfl <;> decide

theorem not_isUnreserved {c : Char} (h : c ∈ ['?', '#', '&', '=', '+']) : ¬ isUnreserved c := by
  have hall : (['?', '#', '&', '=', '+'].all fun c => !isUnreserved c) = true := by decide
  have hnot := List.all_eq_true.1 hall c h
  simpa using hnot

theorem isUnreserved_hexDigit : ∀ n < 16, isUnreserved (hexDigit n) := by decide

theorem mem_encodeURIComponent {text : List Char} {c : Char} (h : c ∈ encodeURIComponent text) :
    c = '%' ∨ isUnreserved c := by
  rcases mem_percentEncode h with hpercent | ⟨n, hn, rfl⟩ | hkept
  · exact .inl hpercent
  · exact .inr (isUnreserved_hexDigit n hn)
  · exact .inr (by simpa using hkept)

/-- Nothing in it means anything to the parsers of a URL or of a query. -/
theorem not_mem_encodeURIComponent {text : List Char} {c : Char} (h : c ∈ encodeURIComponent text) :
    ¬ isC0OrSpace c ∧ c ∉ ['?', '#', '&', '=', '+'] := by
  rcases mem_encodeURIComponent h with rfl | hc
  · decide
  · refine ⟨?_, fun hmem => not_isUnreserved hmem hc⟩
    have hlt := isUnreserved_toNat hc
    simp only [isC0OrSpace, decide_eq_true_eq]
    omega

/-! ## Reading back -/

section Back

variable {key text path : List Char}

/-- A key that is written as it is. -/
def PlainKey (key : List Char) : Prop := key ≠ [] ∧ key.all fun c => isUnreserved c && !inSpecialQuerySet c

instance : DecidablePred PlainKey := fun _ => inferInstanceAs (Decidable (_ ∧ _))

theorem PlainKey.of_mem {c : Char} (h : PlainKey key) (hc : c ∈ key) : isUnreserved c ∧ ¬ inSpecialQuerySet c := by
  have hkept := List.all_eq_true.1 h.2 c hc
  simpa using hkept

/-- `?key=value`. -/
def written (key text : List Char) : List Char := '?' :: (key ++ '=' :: encodeURIComponent text)

theorem encodeURIComponent_keep (h : ∀ c ∈ key, isUnreserved c) : encodeURIComponent key = key := by
  induction key with
  | nil => rfl
  | cons c key ih =>
    unfold encodeURIComponent at ih ⊢
    rw [percentEncode_keep (by simp [h c List.mem_cons_self]), ih fun d hd => h d (List.mem_cons_of_mem _ hd)]

theorem PlainKey.clean (h : PlainKey key) {c : Char} (hc : c ∈ key) :
    ¬ isC0OrSpace c ∧ c ∉ ['?', '#', '&', '=', '+'] := by
  rw [← encodeURIComponent_keep fun d hd => (h.of_mem hd).1] at hc
  exact not_mem_encodeURIComponent hc

theorem written_clean (hkey : PlainKey key) {c : Char} (hc : c ∈ key ++ '=' :: encodeURIComponent text) :
    ¬ isC0OrSpace c ∧ c ∉ ['?', '#', '&', '+'] := by
  have weaken {c : Char} (h : ¬ isC0OrSpace c ∧ c ∉ ['?', '#', '&', '=', '+']) :
      ¬ isC0OrSpace c ∧ c ∉ ['?', '#', '&', '+'] := by
    refine ⟨h.1, fun hmem => h.2 ?_⟩
    simp only [List.mem_cons, List.not_mem_nil, or_false] at hmem ⊢
    tauto
  rcases List.mem_append.1 hc with hc | hc
  · exact weaken (hkey.clean hc)
  · rcases List.mem_cons.1 hc with rfl | hc
    · decide
    · exact weaken (not_mem_encodeURIComponent hc)

theorem isC0OrSpace_of_isTabOrNewline {c : Char} (h : isTabOrNewline c) : isC0OrSpace c := by
  simp only [isTabOrNewline, List.mem_cons, List.not_mem_nil, or_false, decide_eq_true_eq] at h
  rcases h with rfl | rfl | rfl <;> decide

theorem filter_clean {l : List Char} (h : ∀ c ∈ l, ¬ isC0OrSpace c) : (l.filter fun c => !isTabOrNewline c) = l := by
  refine List.filter_eq_self.2 fun c hc => ?_
  simpa using fun htab => h c hc (isC0OrSpace_of_isTabOrNewline htab)

theorem queryText_written (hpath : ∀ c ∈ path, ¬ endsPath c) (hkey : PlainKey key) :
    queryText (path ++ written key text) = some (key ++ '=' :: encodeURIComponent text) := by
  have clean : ∀ c ∈ key ++ '=' :: encodeURIComponent text, ¬ isC0OrSpace c ∧ c ∉ ['?', '#', '&', '+'] :=
    fun c => written_clean hkey
  unfold queryText written
  rw [rdropWhile_query, rdropWhile_eq_self fun c hc => (clean c (List.mem_of_mem_getLast? hc)).1,
    List.filter_append, List.filter_cons_of_pos (by decide), filter_clean fun c hc => (clean c hc).1,
    List.dropWhile_append_of_pos, List.dropWhile_cons_of_neg (by decide)]
  · change some ((key ++ '=' :: encodeURIComponent text).takeWhile fun c => c ≠ '#') = _
    rw [List.takeWhile_eq_self_iff.2]
    intro c hc
    have hmem := (clean c hc).2
    simp only [List.mem_cons, not_or] at hmem
    simpa using hmem.2.1
  · intro c hc
    simpa using hpath c (List.mem_filter.1 hc).1

theorem inSpecialQuerySet_hexDigit : ∀ n < 16, ¬ inSpecialQuerySet (hexDigit n) := by decide

theorem percentEncode_append (set : Char → Bool) (a b : List Char) :
    percentEncode set (a ++ b) = percentEncode set a ++ percentEncode set b := List.flatMap_append

theorem percentEncode_keepAll {set : Char → Bool} {l : List Char} (h : ∀ c ∈ l, ¬ set c) :
    percentEncode set l = l := by
  induction l with
  | nil => rfl
  | cons c l ih => rw [percentEncode_keep (h c List.mem_cons_self), ih fun d hd => h d (List.mem_cons_of_mem _ hd)]

/-- The quote is the one character that the URL encodes besides. -/
def isEncoded (c : Char) : Bool := !isUnreserved c || inSpecialQuerySet c

theorem parseQuery_written (hpath : ∀ c ∈ path, ¬ endsPath c) (hkey : PlainKey key) :
    parseQuery (path ++ written key text) = some (key ++ '=' :: percentEncode isEncoded text) := by
  unfold parseQuery
  rw [queryText_written hpath hkey, Option.map_some, percentEncode_append, percentEncode_keep (by decide),
    percentEncode_keepAll fun c hc => (hkey.of_mem hc).2]
  unfold encodeURIComponent
  rw [percentEncode_twice (by decide) inSpecialQuerySet_hexDigit]
  rfl

theorem mem_percentEncode_isEncoded {c : Char} (h : c ∈ percentEncode isEncoded text) : c ∉ ['&', '=', '+'] := by
  have unreserved : c = '%' ∨ isUnreserved c := by
    rcases mem_percentEncode h with hpercent | ⟨n, hn, rfl⟩ | hkept
    · exact .inl hpercent
    · exact .inr (isUnreserved_hexDigit n hn)
    · simp only [isEncoded, Bool.or_eq_true, not_or] at hkept
      exact .inr (by simpa using hkept.1)
  rcases unreserved with rfl | hc
  · decide
  · exact fun hmem => not_isUnreserved (List.mem_append_right ['?', '#'] hmem) hc

variable {unescapeBuffer : List Char → List Char}

theorem unescape_percentEncode (text : List Char) :
    unescape unescapeBuffer (percentEncode isEncoded text) = text := by
  have hmap : ((percentEncode isEncoded text).map fun c => if c = '+' then ' ' else c) =
      percentEncode isEncoded text := by
    refine List.map_congr_left (g := id) (fun c hc => ?_) |>.trans (List.map_id _)
    have hmem := mem_percentEncode_isEncoded hc
    simp only [List.mem_cons, not_or] at hmem
    exact if_neg hmem.2.2.1
  simp only [unescape, hmap]
  rw [decodeURIComponent_encode fun c _ h => by rw [h]; decide]
  rfl

theorem unescape_plainKey (hkey : PlainKey key) : unescape unescapeBuffer key = key := by
  have hself : percentEncode isEncoded key = key :=
    percentEncode_keepAll fun c hc => by simp [isEncoded, hkey.of_mem hc]
  have hback : unescape unescapeBuffer (percentEncode isEncoded key) = key := unescape_percentEncode key
  rwa [hself] at hback

theorem pairs_written (hkey : PlainKey key) :
    pairs unescapeBuffer (key ++ '=' :: percentEncode isEncoded text) = [(key, text)] := by
  have noSeparator : ∀ c ∈ key ++ '=' :: percentEncode isEncoded text, c ≠ '&' := by
    intro c hc
    rcases List.mem_append.1 hc with hc | hc
    · have hmem := (hkey.clean hc).2
      simp only [List.mem_cons, not_or] at hmem
      exact hmem.2.2.1
    · rcases List.mem_cons.1 hc with rfl | hc
      · decide
      · have hmem := mem_percentEncode_isEncoded hc
        simp only [List.mem_cons, not_or] at hmem
        exact hmem.1
  have hsplit : (key ++ '=' :: percentEncode isEncoded text).splitOn '&' =
      [key ++ '=' :: percentEncode isEncoded text] :=
    List.splitOnP_eq_singleton fun c hc => by simpa using noSeparator c hc
  have hequals : ∀ c ∈ key, decide (c ≠ '=') = true := by
    intro c hc
    have hmem := (hkey.clean hc).2
    simp only [List.mem_cons, not_or] at hmem
    simpa using hmem.2.2.2.1
  unfold pairs
  rw [hsplit]
  simp only [List.take, ne_eq, List.append_eq_nil_iff, reduceCtorEq, and_false, not_false_eq_true, decide_true,
    List.filter_cons_of_pos, List.filter_nil, List.map_cons, List.map_nil]
  unfold pairOf
  rw [List.takeWhile_append_of_pos hequals, List.dropWhile_append_of_pos hequals,
    List.takeWhile_cons_of_neg (by decide), List.dropWhile_cons_of_neg (by decide), List.append_nil, List.tail_cons,
    unescape_plainKey hkey, unescape_percentEncode]

/-- **A value is read as it was written.** -/
theorem valueOf_written (hpath : ∀ c ∈ path, ¬ endsPath c) (hkey : PlainKey key) :
    valueOf unescapeBuffer key (path ++ written key text) = some text := by
  unfold valueOf
  rw [parseQuery_written hpath hkey, Option.bind_some, pairs_written hkey]
  simp [single]

theorem valueOf_path (hpath : ∀ c ∈ path, ¬ endsPath c) : valueOf unescapeBuffer key path = none := by
  have hnone : queryText path = none := by
    unfold queryText
    rw [List.dropWhile_eq_nil_iff.2]
    intro c hc
    simpa using hpath c ((List.rdropWhile_prefix _ _).subset (List.mem_filter.1 hc).1)
  unfold valueOf parseQuery
  rw [hnone]
  rfl

end Back

end Lib.UrlQuery
