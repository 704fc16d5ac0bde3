import Mathlib.Data.List.Basic

/-!
# UTF-8 with replacement

Text as bytes, and the decoder that puts U+FFFD where the bytes are no UTF-8: one for the longest start of
a character that goes no further, and one for a byte that starts none. A text that is decoded piece by
piece loses the characters that a cut goes through.
-/

namespace Lib.Utf8

def encode (text : List Char) : List UInt8 := text.flatMap String.utf8EncodeChar

def replacement : Char := Char.ofNat 0xFFFD

/-! ## The decoder -/

/-- Where the decoder is between two bytes: the bits that it has of a character, how many bytes it needs
for the rest, and the bounds of the next one. -/
structure State where
  value : Nat
  needed : Nat
  lower : Nat
  upper : Nat

namespace State

def start : State := ⟨0, 0, 0x80, 0xBF⟩

/-- The byte begins a character. -/
def begin (b : Nat) : State × List Char :=
  if b < 0x80 then (start, [Char.ofNat b])
  else if 0xC2 ≤ b ∧ b < 0xE0 then (⟨b - 0xC0, 1, 0x80, 0xBF⟩, [])
  else if 0xE0 ≤ b ∧ b < 0xF0 then
    (⟨b - 0xE0, 2, if b = 0xE0 then 0xA0 else 0x80, if b = 0xED then 0x9F else 0xBF⟩, [])
  else if 0xF0 ≤ b ∧ b < 0xF5 then
    (⟨b - 0xF0, 3, if b = 0xF0 then 0x90 else 0x80, if b = 0xF4 then 0x8F else 0xBF⟩, [])
  else (start, [replacement])

/-- The next byte, and the characters that it completes. -/
def next (s : State) (b : Nat) : State × List Char :=
  if s.needed = 0 then begin b
  else if s.lower ≤ b ∧ b ≤ s.upper then
    if s.needed = 1 then (start, [Char.ofNat (s.value * 64 + (b - 0x80))])
    else (⟨s.value * 64 + (b - 0x80), s.needed - 1, 0x80, 0xBF⟩, [])
  else ((begin b).1, replacement :: (begin b).2)

/-- The bytes are at their end. -/
def finish (s : State) : List Char := if s.needed = 0 then [] else [replacement]

def run (s : State) : List Nat → List Char
  | [] => s.finish
  | b :: rest => (s.next b).2 ++ (s.next b).1.run rest

end State

/-- `Buffer.from(bytes).toString('utf8')`. -/
def decode (bytes : List UInt8) : List Char := State.start.run (bytes.map UInt8.toNat)

/-! ## The bytes of a character -/

def units (c : Char) : List Nat := (String.utf8EncodeChar c).map UInt8.toNat

/-- A byte that continues a character. -/
def Continues (b : Nat) : Prop := 0x80 ≤ b ∧ b ≤ 0xBF

/-- The forms that the bytes of a character have. -/
inductive Form (c : Char) : List Nat → Prop
  | one (h : c.toNat < 0x80) : Form c [c.toNat]
  | two (lo : 0x80 ≤ c.toNat) (hi : c.toNat < 0x800) : Form c [0xC0 + c.toNat / 64, 0x80 + c.toNat % 64]
  | three (lo : 0x800 ≤ c.toNat) (hi : c.toNat < 0x10000) (scalar : c.toNat < 0xD800 ∨ 0xE000 ≤ c.toNat) :
      Form c [0xE0 + c.toNat / 4096, 0x80 + c.toNat / 64 % 64, 0x80 + c.toNat % 64]
  | four (lo : 0x10000 ≤ c.toNat) (hi : c.toNat < 0x110000) :
      Form c [0xF0 + c.toNat / 262144, 0x80 + c.toNat / 4096 % 64, 0x80 + c.toNat / 64 % 64, 0x80 + c.toNat % 64]

theorem scalar (c : Char) : c.toNat < 0xD800 ∨ 0xE000 ≤ c.toNat ∧ c.toNat < 0x110000 := by
  have hvalid : c.toNat.isValidChar := c.valid
  unfold Nat.isValidChar at hvalid
  omega

theorem form (c : Char) : Form c (units c) := by
  have hscalar := scalar c
  unfold units String.utf8EncodeChar
  simp only [Char.toNat_val]
  split
  · have h0 : c.toNat % 2 ^ 8 = c.toNat := by omega
    simp only [List.map_cons, List.map_nil, UInt8.toNat_ofNat', h0]
    exact .one (by omega)
  · have hlast : (c.toNat % 0x40 + 0x80) % 2 ^ 8 = 0x80 + c.toNat % 64 := by omega
    have hmid : (c.toNat / 64 % 0x40 + 0x80) % 2 ^ 8 = 0x80 + c.toNat / 64 % 64 := by omega
    split
    · have h0 : (c.toNat / 64 % 0x20 + 0xc0) % 2 ^ 8 = 0xC0 + c.toNat / 64 := by omega
      simp only [List.map_cons, List.map_nil, UInt8.toNat_ofNat', h0, hlast]
      exact .two (by omega) (by omega)
    · split
      · have h0 : (c.toNat / 4096 % 0x10 + 0xe0) % 2 ^ 8 = 0xE0 + c.toNat / 4096 := by omega
        simp only [List.map_cons, List.map_nil, UInt8.toNat_ofNat', h0, hmid, hlast]
        exact .three (by omega) (by omega) (by omega)
      · have h0 : (c.toNat / 262144 % 0x08 + 0xf0) % 2 ^ 8 = 0xF0 + c.toNat / 262144 := by omega
        have h1 : (c.toNat / 4096 % 0x40 + 0x80) % 2 ^ 8 = 0x80 + c.toNat / 4096 % 64 := by omega
        simp only [List.map_cons, List.map_nil, UInt8.toNat_ofNat', h0, h1, hmid, hlast]
        exact .four (by omega) (by omega)

theorem units_ne_nil (c : Char) : units c ≠ [] := by
  have hform := form c
  generalize units c = bytes at hform
  cases hform <;> simp

theorem continues_of_units {c : Char} {p q : List Nat} (h : units c = p ++ q) (hp : p ≠ []) :
    ∀ b ∈ q, Continues b := by
  have hform := form c
  obtain ⟨b₀, p, rfl⟩ := List.exists_cons_of_ne_nil hp
  rw [h] at hform
  have htail : ∀ b ∈ p ++ q, Continues b := by
    unfold Continues
    generalize hall : b₀ :: p ++ q = bytes at hform
    rw [List.cons_append] at hall
    cases hform with
    | one =>
      rw [(List.cons.inj hall).2]
      simp
    | two | three | four =>
      rw [(List.cons.inj hall).2]
      simp
      omega
  exact fun b hb => htail b (List.mem_append_right _ hb)

/-! ## Bytes that continue nothing -/

theorem run_continuation {b : Nat} (h : Continues b) (rest : List Nat) :
    State.start.run (b :: rest) = replacement :: State.start.run rest := by
  obtain ⟨hlo, hhi⟩ := h
  have hbegin : State.begin b = (.start, [replacement]) := by
    unfold State.begin
    rw [if_neg (by omega), if_neg (by omega), if_neg (by omega), if_neg (by omega)]
  have hnext : State.start.next b = (.start, [replacement]) := hbegin
  rw [State.run, hnext]
  rfl

theorem run_continuations {q : List Nat} (h : ∀ b ∈ q, Continues b) (rest : List Nat) :
    State.start.run (q ++ rest) = List.replicate q.length replacement ++ State.start.run rest := by
  induction q with
  | nil => rfl
  | cons b q ih =>
    rw [List.cons_append, run_continuation (h b List.mem_cons_self), ih fun b hb => h b (List.mem_cons_of_mem _ hb)]
    rfl

/-! ## Characters -/

/-- The bytes are the ones that the decoder needs. -/
structure Completes (s : State) (bytes : List Nat) : Prop where
  length : bytes.length = s.needed
  continues : ∀ b ∈ bytes, Continues b
  first : ∀ b ∈ bytes.head?, s.lower ≤ b ∧ b ≤ s.upper

def fill (value : Nat) (bytes : List Nat) : Nat := bytes.foldl (fun v b => v * 64 + (b - 0x80)) value

variable {s : State} {b : Nat} {bytes p q : List Nat}

theorem Completes.next (h : Completes s (b :: bytes)) (hmore : bytes ≠ []) :
    s.next b = (⟨s.value * 64 + (b - 0x80), s.needed - 1, 0x80, 0xBF⟩, []) ∧
      Completes ⟨s.value * 64 + (b - 0x80), s.needed - 1, 0x80, 0xBF⟩ bytes := by
  obtain ⟨hlength, hcontinues, hfirst⟩ := h
  obtain ⟨hlo, hhi⟩ := hfirst b rfl
  have hpos := List.length_pos_iff.2 hmore
  rw [List.length_cons] at hlength
  constructor
  · unfold State.next
    rw [if_neg (by omega), if_pos ⟨hlo, hhi⟩, if_neg (by omega)]
  · refine ⟨by dsimp only; omega, fun b hb => hcontinues b (List.mem_cons_of_mem _ hb), fun b hb => ?_⟩
    exact hcontinues b (List.mem_cons_of_mem _ (List.mem_of_head? hb))

theorem run_completes (h : Completes s bytes) (hne : bytes ≠ []) (rest : List Nat) :
    s.run (bytes ++ rest) = Char.ofNat (fill s.value bytes) :: State.start.run rest := by
  induction bytes generalizing s with
  | nil => exact absurd rfl hne
  | cons b bytes ih =>
    by_cases hmore : bytes = []
    · subst hmore
      obtain ⟨hlo, hhi⟩ := h.first b rfl
      have hneeded : s.needed = 1 := h.length.symm
      have hnext : s.next b = (.start, [Char.ofNat (s.value * 64 + (b - 0x80))]) := by
        unfold State.next
        rw [if_neg (by omega), if_pos ⟨hlo, hhi⟩, if_pos hneeded]
      rw [List.cons_append, State.run, hnext]
      rfl
    · obtain ⟨hnext, hrest⟩ := h.next hmore
      rw [List.cons_append, State.run, hnext, List.nil_append, ih hrest hmore, fill, fill, List.foldl_cons]

theorem run_cut (h : Completes s (p ++ q)) (hq : q ≠ []) : s.run p = [replacement] := by
  induction p generalizing s with
  | nil =>
    have hpos := List.length_pos_iff.2 hq
    have hlength : q.length = s.needed := h.length
    rw [State.run, State.finish, if_neg (by omega)]
  | cons b p ih =>
    obtain ⟨hnext, hrest⟩ := h.next (by simp [hq])
    rw [State.run, hnext, List.nil_append, ih hrest]

theorem next_first {c : Char} (h : units c = b :: bytes) :
    (bytes = [] ∧ State.start.next b = (.start, [c])) ∨
      ∃ s, State.start.next b = (s, []) ∧ Completes s bytes ∧ bytes ≠ [] ∧ fill s.value bytes = c.toNat := by
  have hform := form c
  rw [h] at hform
  have hstart : State.start.next b = State.begin b := rfl
  rw [hstart]
  unfold State.begin
  cases hform with
  | one ascii =>
    rw [if_pos ascii, Char.ofNat_toNat]
    exact .inl ⟨rfl, rfl⟩
  | two lo hi =>
    rw [if_neg (by omega), if_pos (by omega)]
    refine .inr ⟨_, rfl, ⟨rfl, ?_, ?_⟩, by simp, ?_⟩
    · simp [Continues]
      omega
    · simp
      omega
    · simp [fill]
      omega
  | three lo hi scalar =>
    rw [if_neg (by omega), if_neg (by omega), if_pos (by omega)]
    refine .inr ⟨_, rfl, ⟨rfl, ?_, ?_⟩, by simp, ?_⟩
    · simp [Continues]
      omega
    · simp only [List.head?_cons, Option.mem_some_iff, forall_eq']
      refine ⟨?_, ?_⟩ <;> split <;> omega
    · simp [fill]
      omega
  | four lo hi =>
    rw [if_neg (by omega), if_neg (by omega), if_neg (by omega), if_pos (by omega)]
    refine .inr ⟨_, rfl, ⟨rfl, ?_, ?_⟩, by simp, ?_⟩
    · simp [Continues]
      omega
    · simp only [List.head?_cons, Option.mem_some_iff, forall_eq']
      refine ⟨?_, ?_⟩ <;> split <;> omega
    · simp [fill]
      omega

theorem run_units (c : Char) (rest : List Nat) : State.start.run (units c ++ rest) = c :: State.start.run rest := by
  obtain ⟨b, bytes, h⟩ := List.exists_cons_of_ne_nil (units_ne_nil c)
  rw [h, List.cons_append, State.run]
  rcases next_first h with ⟨rfl, hnext⟩ | ⟨s, hnext, completes, hne, hfill⟩
  · rw [hnext]
    rfl
  · rw [hnext, List.nil_append, run_completes completes hne, hfill, Char.ofNat_toNat]

theorem run_start_cut {c : Char} (h : units c = p ++ q) (hp : p ≠ []) (hq : q ≠ []) :
    State.start.run p = [replacement] := by
  obtain ⟨b, p, rfl⟩ := List.exists_cons_of_ne_nil hp
  rw [List.cons_append] at h
  rw [State.run]
  rcases next_first h with ⟨hnil, -⟩ | ⟨s, hnext, completes, -⟩
  · exact absurd (List.append_eq_nil_iff.1 hnil).2 hq
  · rw [hnext, List.nil_append, run_cut completes hq]

/-! ## Text -/

theorem map_encode (text : List Char) : (encode text).map UInt8.toNat = text.flatMap units := by
  unfold encode
  rw [List.map_flatMap]
  rfl

@[simp] theorem encode_nil : encode [] = [] := rfl

theorem encode_cons (c : Char) (text : List Char) : encode (c :: text) = String.utf8EncodeChar c ++ encode text := rfl

theorem encode_append (text more : List Char) : encode (text ++ more) = encode text ++ encode more :=
  List.flatMap_append

theorem decode_encode_append (text : List Char) (rest : List UInt8) :
    decode (encode text ++ rest) = text ++ decode rest := by
  unfold decode
  rw [List.map_append, map_encode]
  induction text with
  | nil => rfl
  | cons c text ih => rw [List.flatMap_cons, List.append_assoc, run_units, ih, List.cons_append]

theorem decode_encode (text : List Char) : decode (encode text) = text := by
  have h := decode_encode_append text []
  rwa [List.append_nil, show decode [] = [] from rfl, List.append_nil] at h

theorem encode_injective : Function.Injective encode := fun text more h => by
  rw [← decode_encode text, h, decode_encode]

theorem decode_continuations {q : List UInt8} (h : ∀ b ∈ q, Continues b.toNat) (rest : List UInt8) :
    decode (q ++ rest) = List.replicate q.length replacement ++ decode rest := by
  unfold decode
  rw [List.map_append, run_continuations, List.length_map]
  exact List.forall_mem_map.2 h

theorem decode_cut {c : Char} {p q : List UInt8} (h : String.utf8EncodeChar c = p ++ q) (hp : p ≠ []) (hq : q ≠ []) :
    decode p = [replacement] := by
  have hunits : units c = p.map UInt8.toNat ++ q.map UInt8.toNat := by
    unfold units
    rw [h, List.map_append]
  exact run_start_cut hunits (by simpa using hp) (by simpa using hq)

theorem continues_of_cut {c : Char} {p q : List UInt8} (h : String.utf8EncodeChar c = p ++ q) (hp : p ≠ []) :
    ∀ b ∈ q, Continues b.toNat := by
  have hunits : units c = p.map UInt8.toNat ++ q.map UInt8.toNat := by
    unfold units
    rw [h, List.map_append]
  exact List.forall_mem_map.1 (continues_of_units hunits (by simpa using hp))

theorem wide_of_cut {c : Char} {p q : List UInt8} (h : String.utf8EncodeChar c = p ++ q) (hp : p ≠ []) (hq : q ≠ []) :
    0x80 ≤ c.toNat := by
  have hlength := congrArg List.length (congrArg (List.map UInt8.toNat) h)
  have hform := form c
  unfold units at hform
  have hp := List.length_pos_iff.2 hp
  have hq := List.length_pos_iff.2 hq
  generalize (String.utf8EncodeChar c).map UInt8.toNat = bytes at hlength hform
  cases hform with
  | one =>
    simp at hlength
    omega
  | two | three | four => omega

/-! ## Damage -/

/-- Characters of one byte. -/
def Ascii (text : List Char) : Prop := ∀ c ∈ text, c.toNat < 0x80

instance : DecidablePred Ascii := fun text =>
  decidable_of_iff (text.all fun c => c.toNat < 0x80) (by simp [Ascii])

/-- Some characters beyond ASCII are lost, each to several replacements. -/
inductive Damaged : List Char → List Char → Prop
  | nil : Damaged [] []
  | keep (c : Char) {text out : List Char} (h : Damaged text out) : Damaged (c :: text) (c :: out)
  | lose (c : Char) (n : Nat) {text out : List Char} (wide : 0x80 ≤ c.toNat) (h : Damaged text out) :
      Damaged (c :: text) (List.replicate (n + 2) replacement ++ out)

namespace Damaged

variable {text more out : List Char}

theorem refl : (text : List Char) → Damaged text text
  | [] => .nil
  | c :: text => .keep c (refl text)

theorem prepend (text : List Char) (h : Damaged more out) : Damaged (text ++ more) (text ++ out) := by
  induction text with
  | nil => exact h
  | cons c text ih => exact .keep c ih

theorem length_le (h : Damaged text out) : text.length ≤ out.length := by
  induction h with
  | nil => exact Nat.le_refl _
  | keep c h ih => simpa using ih
  | lose c n wide h ih =>
    rw [List.length_append, List.length_replicate, List.length_cons]
    omega

theorem of_append (h : Damaged (text ++ more) out) :
    ∃ front back, out = front ++ back ∧ Damaged text front ∧ Damaged more back := by
  induction text generalizing out with
  | nil => exact ⟨[], out, rfl, .nil, h⟩
  | cons c text ih =>
    cases h with
    | keep c h =>
      obtain ⟨front, back, rfl, hfront, hback⟩ := ih h
      exact ⟨c :: front, back, rfl, .keep c hfront, hback⟩
    | lose c n wide h =>
      obtain ⟨front, back, rfl, hfront, hback⟩ := ih h
      exact ⟨_, back, (List.append_assoc ..).symm, .lose c n wide hfront, hback⟩

theorem ascii (h : Damaged text out) (narrow : Ascii text) : out = text := by
  induction h with
  | nil => rfl
  | keep c h ih => rw [ih fun c hc => narrow c (List.mem_cons_of_mem _ hc)]
  | lose c n wide h ih => exact absurd (narrow c List.mem_cons_self) (by omega)

theorem after_ascii (h : Damaged (text ++ more) out) (narrow : Ascii text) :
    ∃ back, out = text ++ back ∧ Damaged more back := by
  obtain ⟨front, back, rfl, hfront, hback⟩ := h.of_append
  exact ⟨back, by rw [hfront.ascii narrow], hback⟩

/-- No characters come in but the replacement. -/
theorem mem (h : Damaged text out) {c : Char} (hc : c ∈ out) : c ∈ text ∨ c = replacement := by
  induction h with
  | nil => exact .inl hc
  | keep c' h ih =>
    rcases List.mem_cons.1 hc with rfl | hc
    · exact .inl List.mem_cons_self
    · exact (ih hc).imp_left (List.mem_cons_of_mem _)
  | lose c' n wide h ih =>
    rcases List.mem_append.1 hc with hc | hc
    · exact .inr (List.eq_of_mem_replicate hc)
    · exact (ih hc).imp_left (List.mem_cons_of_mem _)

end Damaged

/-! ## Pieces -/

/-- The bytes are those of some text. -/
def Whole (bytes : List UInt8) : Prop := ∃ text, encode text = bytes

theorem decode_whole {pieces : List (List UInt8)} (whole : ∀ piece ∈ pieces, Whole piece) :
    encode (pieces.flatMap decode) = pieces.flatten := by
  induction pieces with
  | nil => rfl
  | cons piece pieces ih =>
    obtain ⟨text, rfl⟩ := whole piece List.mem_cons_self
    have hrest := ih fun p hp => whole p (List.mem_cons_of_mem _ hp)
    rw [List.flatMap_cons, decode_encode, encode_append, hrest, List.flatten_cons]

/-- A cut of an encoded text goes between two characters, or through one. -/
theorem cut_encode {bytes rest : List UInt8} {text : List Char} (h : bytes ++ rest = encode text) :
    ∃ front back, text = front ++ back ∧
      ((bytes = encode front ∧ rest = encode back) ∨
        ∃ c post p q, back = c :: post ∧ String.utf8EncodeChar c = p ++ q ∧ p ≠ [] ∧ q ≠ [] ∧
          bytes = encode front ++ p ∧ rest = q ++ encode post) := by
  induction text generalizing bytes with
  | nil =>
    obtain ⟨rfl, rfl⟩ := List.append_eq_nil_iff.1 h
    exact ⟨[], [], rfl, .inl ⟨rfl, rfl⟩⟩
  | cons c text ih =>
    rw [encode_cons] at h
    rcases List.append_eq_append_iff.1 h with ⟨q, hq, hrest⟩ | ⟨bytes', rfl, hrest⟩
    · -- The cut is within the first character, or before or after it.
      by_cases hbytes : bytes = []
      · subst hbytes
        exact ⟨[], c :: text, rfl, .inl ⟨rfl, by rw [encode_cons, hq]; exact hrest⟩⟩
      · by_cases hq' : q = []
        · subst hq'
          rw [List.append_nil] at hq
          exact ⟨[c], text, rfl, .inl ⟨by rw [encode_cons, encode_nil, List.append_nil, hq], hrest⟩⟩
        · exact ⟨[], c :: text, rfl, .inr ⟨c, text, bytes, q, rfl, hq, hbytes, hq', rfl, hrest⟩⟩
    · obtain ⟨front, back, rfl, hcut⟩ := ih hrest.symm
      refine ⟨c :: front, back, rfl, hcut.imp ?_ ?_⟩
      · rintro ⟨rfl, rfl⟩
        exact ⟨rfl, rfl⟩
      · rintro ⟨c', post, p, q, rfl, hc', hp, hq, rfl, rfl⟩
        exact ⟨c', post, p, q, rfl, hc', hp, hq, by rw [encode_cons, List.append_assoc], rfl⟩

/-- **Decoding piece by piece** damages the text, and leaves it alone only when no cut goes through a
character. `tail` is what is left of the character that the last cut went through. -/
theorem decode_pieces {pieces : List (List UInt8)} (tail : List UInt8) {text : List Char}
    (htail : ∀ b ∈ tail, Continues b.toNat) (h : pieces.flatten = tail ++ encode text) :
    ∃ out, pieces.flatMap decode = List.replicate tail.length replacement ++ out ∧ Damaged text out ∧
      (tail = [] → (∀ piece ∈ pieces, Whole piece) ∨ text.length < out.length) := by
  induction pieces generalizing tail text with
  | nil =>
    obtain ⟨rfl, htext⟩ := List.append_eq_nil_iff.1 h.symm
    obtain rfl : text = [] := encode_injective htext
    exact ⟨[], rfl, .nil, fun _ => .inl (by simp)⟩
  | cons piece pieces ih =>
    rw [List.flatten_cons] at h
    rw [List.flatMap_cons]
    rcases List.append_eq_append_iff.1 h with ⟨tail', rfl, hrest⟩ | ⟨piece', rfl, hrest⟩
    · -- The piece ends before the character does.
      obtain ⟨out, hout, hdamaged, hwhole⟩ := ih _ (fun b hb => htail b (List.mem_append_right _ hb)) hrest
      refine ⟨out, ?_, hdamaged, fun hnil => ?_⟩
      · have hpiece := decode_continuations (fun b hb => htail b (List.mem_append_left tail' hb)) []
        rw [List.append_nil, show decode [] = [] from rfl, List.append_nil] at hpiece
        rw [hpiece, hout, ← List.append_assoc, List.replicate_append_replicate, List.length_append]
      · obtain ⟨rfl, rfl⟩ := List.append_eq_nil_iff.1 hnil
        refine (hwhole rfl).imp_left fun hall p hp => ?_
        rcases List.mem_cons.1 hp with rfl | hp
        · exact ⟨[], rfl⟩
        · exact hall p hp
    · rw [decode_continuations htail]
      obtain ⟨front, back, rfl, ⟨rfl, hback⟩ | ⟨c, post, p, q, rfl, hc, hp, hq, rfl, hpost⟩⟩ := cut_encode hrest.symm
      · obtain ⟨out, hout, hdamaged, hwhole⟩ := ih [] (by simp) hback
        refine ⟨front ++ out, ?_, hdamaged.prepend front, ?_⟩
        · rw [decode_encode, hout]
          simp
        · rintro rfl
          refine (hwhole rfl).imp (fun hall p hp => ?_) fun hlt => ?_
          · rcases List.mem_cons.1 hp with rfl | hp
            · exact ⟨front, rfl⟩
            · exact hall p hp
          · rw [List.length_append, List.length_append]
            omega
      · obtain ⟨out, hout, hdamaged, -⟩ := ih _ (continues_of_cut hc hp) hpost
        obtain ⟨n, hn⟩ := Nat.exists_eq_add_of_lt (List.length_pos_iff.2 hq)
        have hlost := hdamaged.lose c n (wide_of_cut hc hp hq)
        refine ⟨front ++ (List.replicate (n + 2) replacement ++ out), ?_, hlost.prepend front, fun _ => .inr ?_⟩
        · rw [decode_encode_append, decode_cut hc hp hq, hout, hn]
          simp [List.replicate_succ]
        · have hle := hdamaged.length_le
          simp only [List.length_append, List.length_cons, List.length_replicate]
          omega

end Lib.Utf8
