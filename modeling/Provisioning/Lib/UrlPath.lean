import Mathlib.Algebra.BigOperators.Group.List.Basic
import Mathlib.Data.List.DropRight
import Provisioning.Lib.Numeral
import Provisioning.Lib.Utf8

/-!
# The path of a URL

How the standard reads the path of an `http` URL, and how its segments are decoded. No step makes a path
longer, so a path that keeps its length has come through unchanged.
-/

namespace Lib.UrlPath

open Utf8

/-! ## Percent-encoding -/

def percentEncodeByte (b : UInt8) : List Char := ['%', hexDigit (b.toNat / 16), hexDigit (b.toNat % 16)]

/-- The characters of the set are written as the bytes of their UTF-8. -/
def percentEncode (set : Char → Bool) (text : List Char) : List Char :=
  text.flatMap fun c => if set c then (String.utf8EncodeChar c).flatMap percentEncodeByte else [c]

/-- The bytes of a percent-encoded text. `none` is a `%` that two hexadecimal digits do not follow. -/
def percentDecode : List Char → Option (List UInt8)
  | [] => some []
  | c :: rest =>
    if c = '%' then
      match rest with
      | a :: b :: rest' =>
        match hexValue a, hexValue b with
        | some x, some y => (percentDecode rest').map (UInt8.ofNat (16 * x + y) :: ·)
        | _, _ => none
      | _ => none
    else (percentDecode rest).map (String.utf8EncodeChar c ++ ·)

/-- `decodeURIComponent`, with `none` when it throws. -/
def decodeURIComponent (text : List Char) : Option (List Char) :=
  (percentDecode text).bind fun bytes => if encode (decode bytes) = bytes then some (decode bytes) else none

/-- The characters that `encodeURIComponent` leaves alone. -/
def isUnreserved (c : Char) : Bool :=
  ('A' ≤ c ∧ c ≤ 'Z') || ('a' ≤ c ∧ c ≤ 'z') || ('0' ≤ c ∧ c ≤ '9') ||
    c ∈ ['-', '_', '.', '!', '~', '*', '\'', '(', ')']

def encodeURIComponent (text : List Char) : List Char := percentEncode (fun c => !isUnreserved c) text

/-- The path percent-encode set of the URL standard. -/
def inPathSet (c : Char) : Bool :=
  c.toNat < 0x20 || 0x7E < c.toNat || c ∈ [' ', '"', '#', '<', '>', '?', '^', '`', '{', '}']

theorem percentDecode_percent (a b : Char) (rest : List Char) :
    percentDecode ('%' :: a :: b :: rest) = (hexValue a).bind fun x => (hexValue b).bind fun y =>
      (percentDecode rest).map (UInt8.ofNat (16 * x + y) :: ·) := by
  rw [percentDecode, if_pos rfl]
  cases hexValue a <;> cases hexValue b <;> rfl

theorem percentDecode_plain {c : Char} (h : c ≠ '%') (rest : List Char) :
    percentDecode (c :: rest) = (percentDecode rest).map (String.utf8EncodeChar c ++ ·) := by
  rw [percentDecode.eq_def]
  simp only [if_neg h]

theorem percentDecode_byte (b : UInt8) (rest : List Char) :
    percentDecode (percentEncodeByte b ++ rest) = (percentDecode rest).map (b :: ·) := by
  have hlt := b.toNat_lt
  have hhigh := hexValue_hexDigit (b.toNat / 16) (by omega)
  have hlow := hexValue_hexDigit (b.toNat % 16) (by omega)
  have hb : UInt8.ofNat (16 * (b.toNat / 16) + b.toNat % 16) = b := by
    rw [Nat.div_add_mod]
    exact UInt8.ofNat_toNat
  unfold percentEncodeByte
  rw [List.cons_append, List.cons_append, List.cons_append, List.nil_append, percentDecode_percent, hhigh, hlow]
  simp only [Option.bind_some, hb]

theorem percentDecode_bytes (bytes : List UInt8) (rest : List Char) :
    percentDecode (bytes.flatMap percentEncodeByte ++ rest) = (percentDecode rest).map (bytes ++ ·) := by
  induction bytes with
  | nil => simp
  | cons b bytes ih =>
    rw [List.flatMap_cons, List.append_assoc, percentDecode_byte, ih, Option.map_map]
    rfl

@[simp] theorem percentEncode_nil (set : Char → Bool) : percentEncode set [] = [] := rfl

theorem percentEncode_cons (set : Char → Bool) (c : Char) (text : List Char) :
    percentEncode set (c :: text) =
      (if set c then (String.utf8EncodeChar c).flatMap percentEncodeByte else [c]) ++ percentEncode set text := rfl

theorem percentEncode_keep {set : Char → Bool} {c : Char} (h : ¬ set c) (text : List Char) :
    percentEncode set (c :: text) = c :: percentEncode set text := by
  rw [percentEncode_cons, if_neg h]
  rfl

theorem percentEncode_escape {set : Char → Bool} {c : Char} (h : set c) (text : List Char) :
    ∃ rest, percentEncode set (c :: text) = '%' :: rest := by
  rw [percentEncode_cons, if_pos h]
  cases hbytes : String.utf8EncodeChar c with
  | nil =>
    have hunits := units_ne_nil c
    unfold units at hunits
    rw [hbytes] at hunits
    exact absurd rfl hunits
  | cons b bytes => exact ⟨_, rfl⟩

theorem percentEncode_ne_nil {set : Char → Bool} {text : List Char} (h : text ≠ []) : percentEncode set text ≠ [] := by
  cases text with
  | nil => exact absurd rfl h
  | cons c text =>
    by_cases hset : set c
    · obtain ⟨rest, hrest⟩ := percentEncode_escape hset text
      simp [hrest]
    · simp [percentEncode_keep hset]

theorem percentEncode_eq_self {set : Char → Bool} {text : List Char} (h : '%' ∉ percentEncode set text) :
    percentEncode set text = text := by
  induction text with
  | nil => rfl
  | cons c text ih =>
    by_cases hset : set c
    · obtain ⟨rest, hrest⟩ := percentEncode_escape hset text
      rw [hrest] at h
      exact absurd List.mem_cons_self h
    · rw [percentEncode_keep hset] at h ⊢
      rw [ih fun hmem => h (List.mem_cons_of_mem _ hmem)]

theorem percentDecode_escape {set : Char → Bool} {c : Char} (h : c = '%' → set c) (text : List Char) :
    percentDecode (percentEncode set (c :: text)) =
      (percentDecode (percentEncode set text)).map (String.utf8EncodeChar c ++ ·) := by
  by_cases hset : set c
  · rw [percentEncode_cons, if_pos hset, percentDecode_bytes]
  · rw [percentEncode_keep hset, percentDecode_plain fun heq => hset (h heq)]

theorem percentDecode_encode {set : Char → Bool} {text : List Char} (h : ∀ c ∈ text, c = '%' → set c) :
    percentDecode (percentEncode set text) = some (encode text) := by
  induction text with
  | nil => rfl
  | cons c text ih =>
    rw [percentDecode_escape (h c List.mem_cons_self), ih fun c' hc' => h c' (List.mem_cons_of_mem _ hc')]
    rfl

theorem decodeURIComponent_encode {set : Char → Bool} {text : List Char} (h : ∀ c ∈ text, c = '%' → set c) :
    decodeURIComponent (percentEncode set text) = some text := by
  unfold decodeURIComponent
  rw [percentDecode_encode h, Option.bind_some, decode_encode, if_pos rfl]

/-! ## What decoding loses -/

instance (b : Nat) : Decidable (Continues b) := inferInstanceAs (Decidable (_ ∧ _))

/-- The bytes that begin a character. -/
def leads (bytes : List UInt8) : Nat := bytes.countP fun b => !decide (Continues b.toNat)

theorem leads_append (bytes more : List UInt8) : leads (bytes ++ more) = leads bytes + leads more :=
  List.countP_append

theorem leads_cons_le (b : UInt8) (bytes : List UInt8) : leads (b :: bytes) ≤ leads bytes + 1 := by
  unfold leads
  rw [List.countP_cons]
  split <;> omega

theorem not_continues_first {c : Char} {b : Nat} {q : List Nat} (h : units c = b :: q) : ¬ Continues b := by
  have hform := form c
  have hscalar := scalar c
  rw [h] at hform
  unfold Continues
  cases hform <;> omega

theorem leads_utf8EncodeChar (c : Char) : leads (String.utf8EncodeChar c) = 1 := by
  obtain ⟨b, q, h⟩ := List.exists_cons_of_ne_nil (units_ne_nil c)
  have hleads : leads (String.utf8EncodeChar c) = (units c).countP fun b => !decide (Continues b) := by
    unfold leads units
    rw [List.countP_map]
    rfl
  have hrest : q.countP (fun b => !decide (Continues b)) = 0 :=
    List.countP_eq_zero.2 fun b' hb' => by
      simpa using @continues_of_units c [b] q (by rw [h]; rfl) (by simp) b' hb'
  rw [hleads, h, List.countP_cons, hrest, if_pos (by simpa using not_continues_first h)]

theorem leads_encode (text : List Char) : leads (encode text) = text.length := by
  induction text with
  | nil => rfl
  | cons c text ih => rw [encode_cons, leads_append, leads_utf8EncodeChar, ih, List.length_cons, Nat.add_comm]

theorem percentEncode_hex {set : Char → Bool} {text rest : List Char} {a : Char} (hex : hexValue a ≠ none)
    (h : percentEncode set text = a :: rest) : ∃ text', text = a :: text' ∧ rest = percentEncode set text' := by
  cases text with
  | nil => simp at h
  | cons c text =>
    by_cases hset : set c
    · obtain ⟨rest', hrest⟩ := percentEncode_escape hset text
      rw [hrest] at h
      rw [← (List.cons.inj h).1] at hex
      exact absurd (by decide) hex
    · rw [percentEncode_keep hset] at h
      obtain ⟨rfl, rfl⟩ := List.cons.inj h
      exact ⟨text, rfl, rfl⟩

theorem leads_percentDecode {set : Char → Bool} (hset : ¬ set '%') (text : List Char) {bytes : List UInt8}
    (h : percentDecode (percentEncode set text) = some bytes) : leads bytes + 2 * text.count '%' ≤ text.length := by
  induction hn : text.length using Nat.strong_induction_on generalizing text bytes with
  | _ n ih =>
    subst hn
    cases text with
    | nil =>
      obtain rfl : [] = bytes := Option.some.inj h
      simp [leads]
    | cons c text =>
      by_cases hc : c = '%'
      · subst hc
        rw [percentEncode_keep hset] at h
        -- The two digits were digits before.
        rcases hdigits : percentEncode set text with _ | ⟨a, _ | ⟨b, rest⟩⟩
        · rw [hdigits] at h
          exact absurd h (by simp [percentDecode])
        · rw [hdigits] at h
          exact absurd h (by simp [percentDecode])
        · rw [hdigits, percentDecode_percent] at h
          obtain ⟨x, hx, h⟩ := Option.bind_eq_some_iff.1 h
          obtain ⟨y, hy, h⟩ := Option.bind_eq_some_iff.1 h
          obtain ⟨bytes', hbytes, rfl⟩ := Option.map_eq_some_iff.1 h
          obtain ⟨text', rfl, htext'⟩ := percentEncode_hex (by simp [hx]) hdigits
          obtain ⟨text'', rfl, rfl⟩ := percentEncode_hex (by simp [hy]) htext'.symm
          have hle := ih text''.length (by simp only [List.length_cons]; omega) text'' hbytes rfl
          have hlead := leads_cons_le (UInt8.ofNat (16 * x + y)) bytes'
          have ha : a ≠ '%' := fun heq => by simp [heq, hexValue] at hx
          have hb : b ≠ '%' := fun heq => by simp [heq, hexValue] at hy
          rw [List.count_cons_self, List.count_cons_of_ne ha, List.count_cons_of_ne hb]
          simp only [List.length_cons]
          omega
      · rw [percentDecode_escape (fun heq => absurd heq hc)] at h
        obtain ⟨bytes', hbytes, rfl⟩ := Option.map_eq_some_iff.1 h
        have hle := ih text.length (by simp) text hbytes rfl
        rw [leads_append, leads_utf8EncodeChar, List.count_cons_of_ne hc, List.length_cons]
        omega

theorem decodeURIComponent_length {set : Char → Bool} (hset : ¬ set '%') {text out : List Char}
    (h : decodeURIComponent (percentEncode set text) = some out) :
    out.length + 2 * text.count '%' ≤ text.length := by
  unfold decodeURIComponent at h
  obtain ⟨bytes, hbytes, h⟩ := Option.bind_eq_some_iff.1 h
  split at h
  · rename_i hvalid
    obtain rfl := Option.some.inj h
    have hle := leads_percentDecode hset text hbytes
    rwa [← hvalid, leads_encode] at hle
  · simp at h

/-! ## The path -/

/-- A C0 control or a space. -/
def isC0OrSpace (c : Char) : Bool := c.toNat ≤ 0x20

def isTabOrNewline (c : Char) : Bool := c ∈ ['\t', '\n', '\r']

/-- The query or the fragment begins. -/
def endsPath (c : Char) : Bool := c ∈ ['?', '#']

def isSlash (c : Char) : Bool := c ∈ ['/', '\\']

/-- The text of the path of an `http` URL, given what follows its host. -/
def pathText (text : List Char) : List Char :=
  ((text.rdropWhile isC0OrSpace).filter fun c => !isTabOrNewline c).takeWhile fun c => !endsPath c

def singleDots : List (List Char) := [".", "%2e", "%2E"].map String.toList

def doubleDots : List (List Char) :=
  ["..", ".%2e", ".%2E", "%2e.", "%2E.", "%2e%2e", "%2e%2E", "%2E%2e", "%2E%2E"].map String.toList

/-- The path after a dot segment. At the end of the text an empty segment takes its place. -/
def leave (path rest : List (List Char)) : List (List Char) := if rest.isEmpty then [] :: path else path

/-- The segments so far, the last one first, and the segments to come. -/
def walk (path : List (List Char)) : List (List Char) → List (List Char)
  | [] => path.reverse
  | segment :: rest =>
    if segment ∈ doubleDots then walk (leave path.tail rest) rest
    else if segment ∈ singleDots then walk (leave path rest) rest
    else walk (segment :: path) rest

/-- The path of the URL, as its segments. -/
def parsePath (text : List Char) : List (List Char) :=
  walk [] (((pathText text).splitOnP isSlash).tail.map (percentEncode inPathSet))

/-- The text of a path with these segments. -/
def render (segments : List (List Char)) : List Char := segments.flatMap ('/' :: ·)

/-! ## Nothing is added -/

section Text

variable {path query : List Char}

/-- What follows the path is nothing, or a query. -/
def IsQuery (query : List Char) : Prop := query = [] ∨ ∃ rest, query = '?' :: rest

theorem rdropWhile_query (path rest : List Char) :
    (path ++ '?' :: rest).rdropWhile isC0OrSpace = path ++ '?' :: rest.rdropWhile isC0OrSpace := by
  induction rest using List.reverseRecOn with
  | nil => rw [List.rdropWhile_concat_neg _ _ _ (by decide), List.rdropWhile_nil]
  | append_singleton rest c ih =>
    have hassoc : path ++ '?' :: (rest ++ [c]) = (path ++ '?' :: rest) ++ [c] := by simp
    rw [hassoc, List.rdropWhile_concat, List.rdropWhile_concat, ih]
    split
    · rfl
    · exact hassoc.symm

theorem pathText_query (path rest : List Char) :
    pathText (path ++ '?' :: rest) =
      (path.filter fun c => !isTabOrNewline c).takeWhile fun c => !endsPath c := by
  unfold pathText
  rw [rdropWhile_query, List.filter_append, List.filter_cons_of_pos (by decide), List.takeWhile_append]
  rw [List.takeWhile_cons_of_neg (by decide)]
  split
  · rename_i hlength
    rw [List.append_nil, List.Sublist.eq_of_length (List.takeWhile_sublist _) hlength]
  · rfl

theorem pathText_sublist (h : IsQuery query) : (pathText (path ++ query)).Sublist path := by
  rcases h with rfl | ⟨rest, rfl⟩
  · rw [List.append_nil]
    exact (List.takeWhile_sublist _).trans (List.filter_sublist.trans (List.rdropWhile_prefix _ _).sublist)
  · rw [pathText_query]
    exact (List.takeWhile_sublist _).trans List.filter_sublist

theorem pathText_length_le (h : IsQuery query) : (pathText (path ++ query)).length ≤ path.length :=
  (pathText_sublist h).length_le

/-- The text of a path is read as it is. -/
structure Readable (path query : List Char) : Prop where
  kept : ∀ c ∈ path, ¬ isTabOrNewline c ∧ ¬ endsPath c
  trimmed : query = [] → ∀ c ∈ path.getLast?, ¬ isC0OrSpace c

theorem rdropWhile_eq_self (h : ∀ c ∈ path.getLast?, ¬ isC0OrSpace c) : path.rdropWhile isC0OrSpace = path :=
  List.rdropWhile_eq_self_iff.2 fun hne => h _ (by rw [List.getLast?_eq_some_getLast hne]; rfl)

theorem Readable.pathText (h : Readable path query) (hquery : IsQuery query) : pathText (path ++ query) = path := by
  have hfilter : (path.filter fun c => !isTabOrNewline c) = path :=
    List.filter_eq_self.2 fun c hc => by simpa using (h.kept c hc).1
  have htake : (path.takeWhile fun c => !endsPath c) = path :=
    List.takeWhile_eq_self_iff.2 fun c hc => by simpa using (h.kept c hc).2
  rcases hquery with rfl | ⟨rest, rfl⟩
  · unfold UrlPath.pathText
    rw [List.append_nil, rdropWhile_eq_self (h.trimmed rfl), hfilter, htake]
  · rw [pathText_query, hfilter, htake]

theorem Readable.of_length (hquery : IsQuery query) (h : path.length ≤ (UrlPath.pathText (path ++ query)).length) :
    Readable path query := by
  have heq := (pathText_sublist hquery).eq_of_length_le h
  refine ⟨fun c hc => ?_, fun hnil c hc => ?_⟩
  · rw [← heq] at hc
    have hfilter := List.mem_filter.1 ((List.takeWhile_sublist _).subset hc)
    exact ⟨by simpa using hfilter.2, by simpa using List.mem_takeWhile_imp hc⟩
  · subst hnil
    rw [List.append_nil] at heq
    have hle : path.Sublist (path.rdropWhile isC0OrSpace) := by
      nth_rewrite 1 [← heq]
      exact (List.takeWhile_sublist _).trans List.filter_sublist
    have hself := (List.rdropWhile_prefix isC0OrSpace path).sublist.antisymm hle
    have hne : path ≠ [] := fun hnil => by simp [hnil] at hc
    rw [List.getLast?_eq_some_getLast hne] at hc
    obtain rfl := Option.some.inj hc
    exact List.rdropWhile_eq_self_iff.1 hself hne

end Text

/-! ## The weight of a path -/

/-- The length of the path with these segments. -/
def weight (segments : List (List Char)) : Nat := (segments.map fun segment => segment.length + 1).sum

@[simp] theorem weight_nil : weight [] = 0 := rfl

@[simp] theorem weight_cons (segment : List Char) (segments : List (List Char)) :
    weight (segment :: segments) = segment.length + 1 + weight segments := rfl

theorem weight_tail_le (segments : List (List Char)) : weight segments.tail ≤ weight segments := by
  cases segments with
  | nil => exact Nat.le_refl _
  | cons segment segments => exact Nat.le_add_left ..

theorem length_render (segments : List (List Char)) : (render segments).length = weight segments := by
  unfold render weight
  rw [List.length_flatMap]
  rfl

theorem weight_splitOnP (p : Char → Bool) (text : List Char) : weight (text.splitOnP p) = text.length + 1 := by
  induction text with
  | nil => rfl
  | cons c text ih =>
    rw [List.splitOnP_cons_eq_if_modifyHead]
    split
    · rw [weight_cons, ih, List.length_nil, List.length_cons, Nat.add_comm]
    · cases hsplit : text.splitOnP p with
      | nil => exact absurd hsplit (List.splitOnP_ne_nil p text)
      | cons segment segments =>
        rw [hsplit, weight_cons] at ih
        simp only [List.modifyHead_cons, weight_cons, List.length_cons]
        omega

theorem weight_segments_le (p : Char → Bool) (text : List Char) : weight (text.splitOnP p).tail ≤ text.length := by
  have htotal := weight_splitOnP p text
  cases hsplit : text.splitOnP p with
  | nil => exact absurd hsplit (List.splitOnP_ne_nil p text)
  | cons segment segments =>
    rw [hsplit, weight_cons] at htotal
    rw [List.tail_cons]
    omega

theorem not_mem_segment {p : Char → Bool} {text segment : List Char} (h : segment ∈ text.splitOnP p) :
    ∀ c ∈ segment, ¬ p c := by
  induction text generalizing segment with
  | nil =>
    obtain rfl : segment = [] := by simpa using h
    simp
  | cons c text ih =>
    rw [List.splitOnP_cons_eq_if_modifyHead] at h
    split at h
    · rcases List.mem_cons.1 h with rfl | h
      · simp
      · exact ih h
    · rename_i hc
      cases hsplit : text.splitOnP p with
      | nil => exact absurd hsplit (List.splitOnP_ne_nil p text)
      | cons first segments =>
        rw [hsplit] at h ih
        rcases List.mem_cons.1 h with rfl | h
        · exact List.forall_mem_cons.2 ⟨hc, ih List.mem_cons_self⟩
        · exact ih (List.mem_cons_of_mem _ h)

theorem splitOnP_render {segments : List (List Char)} (h : ∀ s ∈ segments, ∀ c ∈ s, ¬ isSlash c) :
    ((render segments).splitOnP isSlash).tail = segments := by
  induction segments with
  | nil => rfl
  | cons s segments ih =>
    have hrest := ih fun s' hs' => h s' (List.mem_cons_of_mem _ hs')
    have hs : ∀ c ∈ s, isSlash c = false := fun c hc => by simpa using h s List.mem_cons_self c hc
    have hrender : render (s :: segments) = '/' :: (s ++ render segments) := rfl
    rw [hrender, List.splitOnP_cons_eq_if_modifyHead, if_pos (by decide), List.tail_cons]
    cases segments with
    | nil =>
      have hnil : render [] = [] := rfl
      rw [hnil, List.append_nil, List.splitOnP_eq_singleton hs]
    | cons s' segments =>
      have hnext : render (s' :: segments) = '/' :: (s' ++ render segments) := rfl
      rw [hnext, List.splitOnP_cons_eq_if_modifyHead, if_pos (by decide), List.tail_cons] at hrest
      rw [hnext, List.splitOnP_append_cons_of_forall_mem hs '/' (by decide), hrest]

/-! ## Dot segments -/

section Dots

variable {f : List Char → List Char} {path segments : List (List Char)}

def IsDots (segment : List Char) : Prop := segment ∈ doubleDots ∨ segment ∈ singleDots

theorem walk_plain (h : ∀ s ∈ segments, ¬ IsDots s) : walk path segments = path.reverse ++ segments := by
  induction segments generalizing path with
  | nil => rw [walk, List.append_nil]
  | cons s segments ih =>
    have hs := not_or.1 (h s List.mem_cons_self)
    rw [walk, if_neg hs.1, if_neg hs.2, ih fun s' hs' => h s' (List.mem_cons_of_mem _ hs')]
    simp

theorem length_of_dots (hf : f [] = []) {s : List Char} (h : IsDots (f s)) : 0 < s.length := by
  refine List.length_pos_iff.2 fun hnil => ?_
  rw [hnil, hf] at h
  exact absurd h (by unfold IsDots; decide)

theorem leave_map (hf : f [] = []) (path rest : List (List Char)) :
    leave (path.map f) (rest.map f) = (leave path rest).map f := by
  unfold leave
  rw [List.isEmpty_map]
  split
  · rw [List.map_cons, hf]
  · rfl

theorem weight_leave_le (path rest : List (List Char)) : weight (leave path rest) ≤ weight path + 1 := by
  unfold leave
  split
  · rw [weight_cons, List.length_nil]
    omega
  · omega

/-- **Dot segments only take away**: what is left of the path is no longer than it was, and as long only
when there were none. -/
theorem walk_kept (hf : f [] = []) (path segments : List (List Char)) :
    ∃ kept, walk (path.map f) (segments.map f) = kept.map f ∧ weight kept ≤ weight path + weight segments ∧
      (weight path + weight segments ≤ weight kept →
        kept = path.reverse ++ segments ∧ ∀ s ∈ segments, ¬ IsDots (f s)) := by
  induction segments generalizing path with
  | nil =>
    have hweight : weight path.reverse = weight path := by
      unfold weight
      rw [List.map_reverse, List.sum_reverse]
    exact ⟨path.reverse, by simp [walk], by simp [hweight], by simp⟩
  | cons s segments ih =>
    by_cases hdots : IsDots (f s)
    · -- The segment is gone, and at the end an empty one is there for it.
      have hpos := length_of_dots hf hdots
      obtain ⟨path', hpath', hle⟩ : ∃ path', walk (path.map f) ((s :: segments).map f) =
          walk (path'.map f) (segments.map f) ∧ weight path' ≤ weight path + 1 := by
        have htail := weight_tail_le path
        rw [List.map_cons, walk]
        split
        · refine ⟨leave path.tail segments, by rw [← List.map_tail, leave_map hf], ?_⟩
          have hleave := weight_leave_le path.tail segments
          omega
        · rw [if_pos (hdots.resolve_left ‹_›)]
          exact ⟨leave path segments, by rw [leave_map hf], weight_leave_le path segments⟩
      obtain ⟨kept, hkept, hkept_le, -⟩ := ih path'
      rw [weight_cons]
      exact ⟨kept, hpath'.trans hkept, by omega, fun hge => by omega⟩
    · obtain ⟨kept, hkept, hle, heq⟩ := ih (s :: path)
      rw [weight_cons] at hle heq
      rw [weight_cons]
      refine ⟨kept, ?_, by omega, fun hge => ?_⟩
      · rw [List.map_cons, walk, if_neg fun h => hdots (.inl h), if_neg fun h => hdots (.inr h)]
        exact hkept
      · obtain ⟨rfl, hplain⟩ := heq (by omega)
        exact ⟨by simp, List.forall_mem_cons.2 ⟨hdots, hplain⟩⟩

theorem isDots_encode {s : List Char} (h : '%' ∉ s) :
    IsDots (percentEncode inPathSet s) ↔ s = ['.'] ∨ s = ['.', '.'] := by
  constructor
  · have hdecode : decodeURIComponent (percentEncode inPathSet s) = some s :=
      decodeURIComponent_encode fun c hc heq => absurd (heq ▸ hc) h
    have hdouble : ∀ d ∈ doubleDots, decodeURIComponent d = some ['.', '.'] := by decide
    have hsingle : ∀ d ∈ singleDots, decodeURIComponent d = some ['.'] := by decide
    rintro (hd | hd)
    · rw [hdouble _ hd] at hdecode
      exact .inr (Option.some.inj hdecode).symm
    · rw [hsingle _ hd] at hdecode
      exact .inl (Option.some.inj hdecode).symm
  · rintro (rfl | rfl)
    · exact .inr (by decide)
    · exact .inl (by decide)

end Dots

/-! ## Reading a path -/

section Reading

variable {path query : List Char} {segments : List (List Char)}

/-- The segment is read as it is written. -/
structure PlainSegment (segment : List Char) : Prop where
  text : ∀ c ∈ segment, ¬ isSlash c ∧ c ≠ '%'
  dots : segment ≠ ['.'] ∧ segment ≠ ['.', '.']

theorem parsePath_render (hquery : IsQuery query) (readable : Readable (render segments) query)
    (plain : ∀ s ∈ segments, PlainSegment s) :
    parsePath (render segments ++ query) = segments.map (percentEncode inPathSet) := by
  unfold parsePath
  rw [readable.pathText hquery, splitOnP_render fun s hs c hc => ((plain s hs).text c hc).1, walk_plain]
  · rfl
  · intro encoded hencoded
    obtain ⟨s, hs, rfl⟩ := List.mem_map.1 hencoded
    rw [isDots_encode fun hmem => ((plain s hs).text '%' hmem).2 rfl]
    exact not_or.2 (plain s hs).dots

/-- **No path gets longer by being read**, and one that keeps its length was readable. -/
theorem parsePath_kept (hquery : IsQuery query) :
    ∃ kept, parsePath (path ++ query) = kept.map (percentEncode inPathSet) ∧ weight kept ≤ path.length ∧
      (path.length ≤ weight kept →
        Readable path query ∧
          ∀ s ∈ kept, (∀ c ∈ s, ¬ isSlash c) ∧ ¬ IsDots (percentEncode inPathSet s)) := by
  have htext := @pathText_length_le path query hquery
  have hsegments := weight_segments_le isSlash (pathText (path ++ query))
  obtain ⟨kept, hkept, hle, heq⟩ := @walk_kept (percentEncode inPathSet) rfl []
    ((pathText (path ++ query)).splitOnP isSlash).tail
  rw [weight_nil, Nat.zero_add] at hle heq
  refine ⟨kept, hkept, by omega, fun hge => ?_⟩
  obtain ⟨rfl, hplain⟩ := heq (by omega)
  exact ⟨.of_length hquery (by omega), fun s hs => ⟨not_mem_segment (List.mem_of_mem_tail hs), hplain s hs⟩⟩

theorem forall_mem_render {p : Char → Prop} (hslash : p '/') :
    (∀ c ∈ render segments, p c) ↔ ∀ s ∈ segments, ∀ c ∈ s, p c := by
  constructor
  · intro h s hs c hc
    exact h c (List.mem_flatMap.2 ⟨s, hs, List.mem_cons_of_mem _ hc⟩)
  · intro h c hc
    obtain ⟨s, hs, hc⟩ := List.mem_flatMap.1 hc
    rcases List.mem_cons.1 hc with rfl | hc
    · exact hslash
    · exact h s hs c hc

theorem getLast?_render {last : List Char} (hlast : segments.getLast? = some last) (hne : last ≠ []) :
    (render segments).getLast? = last.getLast? := by
  obtain ⟨init, rfl⟩ := List.getLast?_eq_some_iff.1 hlast
  have hrender : render (init ++ [last]) = (render init ++ ['/']) ++ last := by
    unfold render
    rw [List.flatMap_append]
    simp
  rw [hrender, List.getLast?_append_of_ne_nil _ hne]

end Reading

end Lib.UrlPath
